import Mathlib.Data.List.Basic
import PactJanus.Compatibility.Decide

namespace PactJanus.Compatibility.Accounting

open PactJanus.Data.Json PactJanus.Subsumption.Findings PactJanus.Compatibility.Decide

/-! The most severe of some decisions. -/

private theorem foldl_max (decisions : List Decision) (first : Decision) :
    first ≤ decisions.foldl max first ∧ (∀ d ∈ decisions, d ≤ decisions.foldl max first) ∧
      (decisions.foldl max first = first ∨ decisions.foldl max first ∈ decisions) := by
  induction decisions generalizing first with
  | nil => exact ⟨le_refl _, by simp, Or.inl rfl⟩
  | cons d rest ih =>
    obtain ⟨hfirst, hrest, hattained⟩ := ih (max first d)
    refine ⟨(le_max_left first d).trans hfirst, List.forall_mem_cons.2 ⟨(le_max_right first d).trans hfirst, hrest⟩, ?_⟩
    rcases hattained with heq | hmem
    · rcases max_choice first d with hmax | hmax
      · exact Or.inl (heq.trans hmax)
      · exact Or.inr (List.mem_cons.2 (Or.inl (heq.trans hmax)))
    · exact Or.inr (List.mem_cons_of_mem _ hmem)

theorem le_mostSevere {decisions : List Decision} {d : Decision} (h : d ∈ decisions) : d ≤ mostSevere decisions :=
  (foldl_max decisions .pass).2.1 d h

theorem mostSevere_mem (decisions : List Decision) : mostSevere decisions = .pass ∨ mostSevere decisions ∈ decisions :=
  (foldl_max decisions .pass).2.2

theorem mostSevere_eq_block {decisions : List Decision} : mostSevere decisions = .block ↔ .block ∈ decisions := by
  constructor
  · intro h
    rcases mostSevere_mem decisions with hpass | hmem
    · exact nomatch h.symm.trans hpass
    · exact h ▸ hmem
  · exact fun h => le_antisymm (Decision.le_block _) (le_mostSevere h)

/-! Disposing of findings: each becomes one entry, and is counted where it went. -/

/-- The findings of a report, with the interaction each was found in. -/
def found (interactions : List InteractionResult) : List (InteractionResult × Finding) :=
  interactions.flatMap fun interaction => interaction.findings.map fun finding => (interaction, finding)

section Disposing

variable (policy : SubsumptionPolicy) (asOf : Option String) (consumer : String)

def entryOf (p : InteractionResult × Finding) : FindingEntry :=
  match exempting policy asOf consumer p.1 p.2 with
  | some (exemption, _) => ⟨idOf p.1, .exempt, some ⟨exemption.reason, exemption.expires⟩, p.2⟩
  | none => ⟨idOf p.1, .live, none, p.2⟩

def isLive (severity : Severity) (entry : FindingEntry) : Bool :=
  entry.disposition == .live && entry.finding.severity == severity

def isExempt (entry : FindingEntry) : Bool := entry.disposition == .exempt

/-- Every number is the number of the entries it counts. -/
structure Counted (disposed : Disposed) : Prop where
  findings : disposed.findings = disposed.entries.countP (isLive .finding)
  reviews : disposed.reviews = disposed.entries.countP (isLive .review)
  advisories : disposed.advisories = disposed.entries.countP (isLive .advisory)
  exempt : disposed.exempt = disposed.entries.countP isExempt
  matched : disposed.matched.sum = disposed.entries.countP isExempt
  places : disposed.matched.length = policy.exemptions.length

variable {policy asOf consumer}

private theorem exempting_place {interaction : InteractionResult} {finding : Finding} {exemption : Exemption} {i : Nat}
    (h : exempting policy asOf consumer interaction finding = some (exemption, i)) :
    i < policy.exemptions.length := by
  obtain ⟨-, -, hfound⟩ := Option.bind_eq_some_iff.1 h
  have := List.mem_zipIdx (List.mem_of_find?_eq_some hfound)
  omega

private theorem sum_modify {counts : List Nat} {i : Nat} (h : i < counts.length) :
    (counts.modify i (· + 1)).sum = counts.sum + 1 := by
  induction counts generalizing i with
  | nil => exact absurd h (by simp)
  | cons n rest ih =>
    cases i with
    | zero => simp; omega
    | succ i =>
      have := ih (Nat.lt_of_succ_lt_succ h)
      simp only [List.modify_succ_cons, List.sum_cons, this]
      omega

private theorem entries_disposeOne (disposed : Disposed) (p : InteractionResult × Finding) :
    (disposeOne policy asOf consumer p.1 disposed p.2).entries = disposed.entries ++ [entryOf policy asOf consumer p] := by
  unfold disposeOne entryOf
  cases exempting policy asOf consumer p.1 p.2 with
  | some found => rfl
  | none => cases p.2.severity <;> rfl

private theorem counted_disposeOne {disposed : Disposed} (h : Counted policy disposed) (p : InteractionResult × Finding) :
    Counted policy (disposeOne policy asOf consumer p.1 disposed p.2) := by
  obtain ⟨hfindings, hreviews, hadvisories, hexempt, hmatched, hplaces⟩ := h
  unfold disposeOne
  cases hfound : exempting policy asOf consumer p.1 p.2 with
  | some found =>
    have hsum := sum_modify (hplaces ▸ exempting_place hfound)
    constructor <;> simp_all [isLive, isExempt, List.countP_append]
  | none =>
    cases hseverity : p.2.severity <;> constructor <;>
      simp_all [isLive, isExempt, List.countP_append]

private theorem disposed_from (interactions : List (InteractionResult × Finding)) (disposed : Disposed)
    (h : Counted policy disposed) :
    (interactions.foldl (fun d p => disposeOne policy asOf consumer p.1 d p.2) disposed).entries =
        disposed.entries ++ interactions.map (entryOf policy asOf consumer) ∧
      Counted policy (interactions.foldl (fun d p => disposeOne policy asOf consumer p.1 d p.2) disposed) := by
  induction interactions generalizing disposed with
  | nil => exact ⟨(List.append_nil _).symm, h⟩
  | cons p rest ih =>
    obtain ⟨hentries, hcounted⟩ := ih _ (counted_disposeOne h p)
    refine ⟨?_, hcounted⟩
    rw [List.foldl_cons, hentries, entries_disposeOne, List.append_assoc]
    rfl

private theorem disposeAll_eq (interactions : List InteractionResult) :
    disposeAll policy asOf consumer interactions = (found interactions).foldl
      (fun d p => disposeOne policy asOf consumer p.1 d p.2)
      ⟨0, 0, 0, 0, [], List.replicate policy.exemptions.length 0⟩ := by
  simp only [disposeAll, found, List.foldl_flatMap, List.foldl_map]

variable (policy asOf consumer) in
theorem disposeAll_entries (interactions : List InteractionResult) :
    (disposeAll policy asOf consumer interactions).entries = (found interactions).map (entryOf policy asOf consumer) ∧
      Counted policy (disposeAll policy asOf consumer interactions) := by
  rw [disposeAll_eq]
  exact disposed_from _ _ ⟨rfl, rfl, rfl, rfl, by simp, by simp⟩

/-- A policy governs the finding's severity and has an exemption in force that fits it. -/
def Excused (policy : SubsumptionPolicy) (asOf : Option String) (consumer : String) (p : InteractionResult × Finding) : Prop :=
  (policy.actionFor p.2.severity).isSome ∧ ∃ exemption ∈ policy.exemptions, exemption.lapsed asOf = false ∧
    exemption.matches consumer p.1.description (p.1.states.getD []) p.2.path = true

private theorem exempting_isSome (p : InteractionResult × Finding) :
    (exempting policy asOf consumer p.1 p.2).isSome = true ↔ Excused policy asOf consumer p := by
  rw [Excused, exempting]
  cases policy.actionFor p.2.severity with
  | none => simp
  | some action =>
    rw [Option.bind_some, List.find?_isSome]
    simp only [Option.isSome_some, true_and, Prod.exists, Bool.and_eq_true, Bool.not_eq_true']
    constructor
    · rintro ⟨exemption, i, hmem, h⟩
      exact ⟨exemption, List.fst_mem_of_mem_zipIdx hmem, h⟩
    · rintro ⟨exemption, hmem, h⟩
      obtain ⟨i, hi, rfl⟩ := List.mem_iff_getElem.1 hmem
      exact ⟨_, i, List.mem_zipIdx_iff_getElem?.2 (List.getElem?_eq_getElem hi), h⟩

theorem entryOf_exempt (p : InteractionResult × Finding) :
    (entryOf policy asOf consumer p).disposition = .exempt ↔ Excused policy asOf consumer p := by
  rw [← exempting_isSome, entryOf]
  cases exempting policy asOf consumer p.1 p.2 with
  | some found => simp
  | none => simp

private theorem entryOf_finding (p : InteractionResult × Finding) :
    (entryOf policy asOf consumer p).interaction = idOf p.1 ∧ (entryOf policy asOf consumer p).finding = p.2 := by
  rw [entryOf]
  cases exempting policy asOf consumer p.1 p.2 <;> exact ⟨rfl, rfl⟩

private theorem live_pos (severity : Severity) (interactions : List InteractionResult) :
    0 < ((found interactions).map (entryOf policy asOf consumer)).countP (isLive severity) ↔
      ∃ p ∈ found interactions, p.2.severity = severity ∧ ¬Excused policy asOf consumer p := by
  rw [List.countP_map, List.countP_pos_iff]
  refine exists_congr fun p => and_congr_right fun _ => ?_
  simp only [Function.comp_apply, isLive, Bool.and_eq_true, beq_iff_eq, entryOf_finding]
  rw [← entryOf_exempt, and_comm]
  cases (entryOf policy asOf consumer p).disposition <;> simp

end Disposing

/-! What a verification summary says of a pair. -/

def Failing (status : VerificationStatus) : Prop := status = .failed ∨ status = .incomplete

private theorem failing_worst (a b : VerificationStatus) : Failing (worstStatus a b) ↔ Failing a ∨ Failing b := by
  cases a <;> cases b <;> simp [Failing, worstStatus]

private theorem worst_right_comm (a b c : VerificationStatus) :
    worstStatus (worstStatus a b) c = worstStatus (worstStatus a c) b := by
  cases a <;> cases b <;> cases c <;> rfl

section Pair

variable (consumer provider : String)

/-- Some entry of the summary's, or a failure, or an abort, says that the pair failed or was not finished. -/
def Attributed (summary : Json) : Prop :=
  match mine consumer provider summary with
  | some entries => ∃ entry ∈ entries, holdsText "status" "failed" entry ∨ holdsText "status" "incomplete" entry
  | none =>
    (∃ failure ∈ (asArray (index "failures" summary)).getD [], failsPair consumer provider failure) ∨ aborted summary

/-- The run ended in an error of the engine's own. -/
def crashed (summary : Json) : Bool := ((get "error" summary).map fun error => !isNull error).getD false

/-- The summary of a run that failed the pair, or did not finish it. -/
def Unsuccessful (summary : Json) : Prop := Attributed consumer provider summary ∨ crashed summary

variable {consumer provider}

private theorem failing_entries (entries : List Json) (first : VerificationStatus) :
    Failing (entries.foldl statusOfEntry first) ↔ Failing first ∨
      ∃ entry ∈ entries, holdsText "status" "failed" entry ∨ holdsText "status" "incomplete" entry := by
  induction entries generalizing first with
  | nil => simp
  | cons entry rest ih =>
    have hentry : Failing (statusOfEntry first entry) ↔
        Failing first ∨ holdsText "status" "failed" entry ∨ holdsText "status" "incomplete" entry := by
      unfold statusOfEntry
      split_ifs with hfailed hincomplete <;> simp_all [failing_worst] <;> simp [Failing]
    rw [List.foldl_cons, ih, hentry, List.exists_mem_cons_iff, or_assoc]

theorem failing_standing (summary : Json) :
    Failing (standing consumer provider summary) ↔ Attributed consumer provider summary := by
  unfold standing Attributed
  cases mine consumer provider summary with
  | some entries =>
    rw [failing_entries]
    simp [Failing]
  | none =>
    simp only [← List.any_eq_true]
    split_ifs with hfailed haborted <;> simp_all [Failing]

private theorem failing_summaries (verifications : List Json) (view : VerificationView) :
    Failing (verifications.foldl (addSummary consumer provider) view).status ↔ Failing view.status ∨
      ∃ summary ∈ verifications, covers summary consumer provider ∧ Attributed consumer provider summary := by
  induction verifications generalizing view with
  | nil => simp
  | cons summary rest ih =>
    have hsummary : Failing (addSummary consumer provider view summary).status ↔ Failing view.status ∨
        covers summary consumer provider ∧ Attributed consumer provider summary := by
      by_cases hcovers : covers summary consumer provider
      · simp [addSummary, failing_worst, failing_standing, hcovers]
      · simp [addSummary, hcovers]
    rw [List.foldl_cons, ih, hsummary, List.exists_mem_cons_iff, or_assoc]

theorem failing_verificationFor (verifications : List Json) :
    Failing (verificationFor verifications consumer provider).status ↔
      ∃ summary ∈ verifications, covers summary consumer provider ∧ Attributed consumer provider summary := by
  rw [verificationFor, failing_summaries]
  simp [Failing]

private theorem addSummary_right_comm (view : VerificationView) (a b : Json) :
    addSummary consumer provider (addSummary consumer provider view a) b =
      addSummary consumer provider (addSummary consumer provider view b) a := by
  by_cases ha : covers a consumer provider <;> by_cases hb : covers b consumer provider <;>
    simp [addSummary, ha, hb, worst_right_comm, Bool.or_right_comm]

theorem verificationFor_perm {verifications others : List Json} (h : verifications.Perm others) :
    verificationFor verifications consumer provider = verificationFor others consumer provider :=
  h.foldl_eq' (fun a _ b _ view => addSummary_right_comm view a b) _

end Pair

theorem decide_perm {pairs : List Pair} {verifications others : List Json} {policy : SubsumptionPolicy}
    {asOf : Option String} (h : verifications.Perm others) :
    Decide.decide pairs verifications policy asOf = Decide.decide pairs others policy asOf := by
  simp only [Decide.decide, decidePair, verificationFor_perm h, h.countP_eq]

/-! The decision is `block` for what failed and for what the policy blocks. -/

/-- The policy blocks a finding it does not excuse. -/
def PolicyBlocks (pair : Pair) (policy : SubsumptionPolicy) (asOf : Option String) : Prop :=
  ∃ report, pair.subsumption = some report ∧ ∃ p ∈ found report.interactions,
    policy.actionFor p.2.severity = some .block ∧ ¬Excused policy asOf pair.consumer.name p

private theorem block_mem_verification {view : VerificationView} {n : Nat} :
    (∃ r ∈ verificationReasons view n, r.action.decision = .block) ↔ Failing view.status := by
  unfold verificationReasons Failing
  cases view.status <;> by_cases hfiltered : view.filtered = some true <;> simp [ReasonAction.decision, hfiltered]

private theorem block_of {action : Action} : (ReasonAction.of action).decision = .block ↔ action = .block := by
  cases action <;> decide

private theorem block_mem_given {c : Prop} [Decidable c] {reason : Reason} :
    (∃ r ∈ (if c then [reason] else []), r.action.decision = .block) ↔ c ∧ reason.action.decision = .block := by
  split_ifs <;> simp_all

private theorem block_mem_subsumption {view : SubsumptionView} {policy : SubsumptionPolicy} :
    (∃ r ∈ subsumptionReasons view policy, r.action.decision = .block) ↔
      (0 < view.findings ∧ policy.onFinding = .block) ∨ (0 < view.reviews ∧ policy.onReview = .block) := by
  simp only [subsumptionReasons, List.mem_append, or_and_right, exists_or, block_mem_given, block_of]
  simp [ReasonAction.decision]

private theorem block_mem_exemption {asOf : Option String} {exemptions : List ExemptionResult} :
    ¬∃ r ∈ exemptionReasons asOf exemptions, r.action.decision = .block := by
  simp only [exemptionReasons, List.mem_append, or_and_right, exists_or, block_mem_given]
  simp [ReasonAction.decision]

private theorem policyBlocks_iff {pair : Pair} {policy : SubsumptionPolicy} {asOf : Option String}
    {report : SubsumptionReport} (h : pair.subsumption = some report) :
    PolicyBlocks pair policy asOf ↔
      (0 < (disposeAll policy asOf pair.consumer.name report.interactions).findings ∧ policy.onFinding = .block) ∨
        (0 < (disposeAll policy asOf pair.consumer.name report.interactions).reviews ∧ policy.onReview = .block) := by
  obtain ⟨hentries, hcounted⟩ := disposeAll_entries policy asOf pair.consumer.name report.interactions
  rw [hcounted.findings, hcounted.reviews, hentries, live_pos, live_pos, PolicyBlocks, h]
  constructor
  · rintro ⟨other, hother, p, hp, haction, hexcused⟩
    obtain rfl := Option.some.inj hother
    cases hseverity : p.2.severity with
    | finding => exact Or.inl ⟨⟨p, hp, hseverity, hexcused⟩, by simpa [hseverity, SubsumptionPolicy.actionFor] using haction⟩
    | review => exact Or.inr ⟨⟨p, hp, hseverity, hexcused⟩, by simpa [hseverity, SubsumptionPolicy.actionFor] using haction⟩
    | advisory => simp [hseverity, SubsumptionPolicy.actionFor] at haction
  · rintro (⟨⟨p, hp, hseverity, hexcused⟩, haction⟩ | ⟨⟨p, hp, hseverity, hexcused⟩, haction⟩) <;>
      exact ⟨report, rfl, p, hp, by simp [hseverity, SubsumptionPolicy.actionFor, haction], hexcused⟩

private theorem block_mem_half (pair : Pair) (policy : SubsumptionPolicy) (asOf : Option String) :
    (∃ r ∈ (subsumptionHalf pair policy asOf).2.2.2, r.action.decision = .block) ↔ PolicyBlocks pair policy asOf := by
  cases hreport : pair.subsumption with
  | none => simp [subsumptionHalf, PolicyBlocks, hreport, shapeMissing, ReasonAction.decision]
  | some report =>
    rw [policyBlocks_iff hreport]
    simp only [subsumptionHalf, hreport, dispose, List.mem_append, or_and_right, exists_or, block_mem_subsumption,
      block_mem_exemption, or_false]

theorem decidePair_eq_block (pair : Pair) (verifications : List Json) (n : Nat) (policy : SubsumptionPolicy)
    (asOf : Option String) :
    (decidePair pair verifications n policy asOf).decision = .block ↔
      (∃ summary ∈ verifications, covers summary pair.consumer.name pair.provider.name ∧
        Attributed pair.consumer.name pair.provider.name summary) ∨ PolicyBlocks pair policy asOf := by
  have hreasons : (decidePair pair verifications n policy asOf).decision = .block ↔
      ∃ r ∈ verificationReasons (verificationFor verifications pair.consumer.name pair.provider.name) n ++
        (subsumptionHalf pair policy asOf).2.2.2, r.action.decision = .block := by
    simp only [decidePair, mostSevere_eq_block, List.mem_map]
  rw [hreasons]
  simp only [List.mem_append, or_and_right, exists_or, block_mem_verification, block_mem_half, failing_verificationFor]

/-! What a decision accounts for. -/

def foundIn (pair : Pair) : List (InteractionResult × Finding) := (pair.subsumption.map fun r => found r.interactions).getD []

/-- A decision is the most severe of what some reasons come to. -/
def MostSevere (decision : Decision) (reasons : List Reason) : Prop :=
  (∀ reason ∈ reasons, reason.action.decision ≤ decision) ∧
    (decision = .pass ∨ ∃ reason ∈ reasons, reason.action.decision = decision)

/-- A pair's answer has an entry for each of its findings, exempt where an exemption excuses it, and counts each exempt
entry under one exemption. -/
structure Accounted (policy : SubsumptionPolicy) (asOf : Option String) (pair : Pair) (result : PairResult) : Prop where
  entries : List.Forall₂ (fun p entry => entry.interaction = idOf p.1 ∧ entry.finding = p.2 ∧
    (entry.disposition = .exempt ↔ Excused policy asOf pair.consumer.name p)) (foundIn pair) result.findings
  matched : (result.exemptions.map fun e => e.matched).sum = result.findings.countP isExempt
  severest : MostSevere result.decision result.reasons

private theorem mostSevere_reasons (reasons : List Reason) :
    MostSevere (mostSevere (reasons.map fun reason => reason.action.decision)) reasons := by
  refine ⟨fun reason h => le_mostSevere (List.mem_map_of_mem h), ?_⟩
  exact (mostSevere_mem _).imp_right fun h => List.mem_map.1 h

private theorem accounted_decidePair (pair : Pair) (verifications : List Json) (n : Nat) (policy : SubsumptionPolicy)
    (asOf : Option String) : Accounted policy asOf pair (decidePair pair verifications n policy asOf) := by
  have hfindings : (subsumptionHalf pair policy asOf).2.1 = (foundIn pair).map (entryOf policy asOf pair.consumer.name) ∧
      ((subsumptionHalf pair policy asOf).2.2.1.map fun e => e.matched).sum =
        (subsumptionHalf pair policy asOf).2.1.countP isExempt := by
    cases hreport : pair.subsumption with
    | none => simp [subsumptionHalf, foundIn, hreport]
    | some report =>
      obtain ⟨hentries, hcounted⟩ := disposeAll_entries policy asOf pair.consumer.name report.interactions
      simp only [subsumptionHalf, hreport, dispose, foundIn, Option.map_some, Option.getD_some, List.map_map]
      refine ⟨hentries, ?_⟩
      rw [← hcounted.matched]
      exact congrArg List.sum (List.map_snd_zip (Nat.le_of_eq hcounted.places))
  refine ⟨?_, hfindings.2, mostSevere_reasons _⟩
  show List.Forall₂ _ _ (subsumptionHalf pair policy asOf).2.1
  rw [hfindings.1, List.forall₂_map_right_iff, List.forall₂_same]
  exact fun p _ => ⟨(entryOf_finding p).1, (entryOf_finding p).2, entryOf_exempt p⟩

private theorem mostSevere_pairs (results : List PairResult) (h : ∀ r ∈ results, MostSevere r.decision r.reasons) :
    MostSevere (mostSevere (results.map fun r => r.decision)) (results.flatMap fun r => r.reasons) := by
  constructor
  · intro reason hreason
    obtain ⟨result, hresult, hmem⟩ := List.mem_flatMap.1 hreason
    exact ((h result hresult).1 reason hmem).trans (le_mostSevere (List.mem_map_of_mem hresult))
  · rcases mostSevere_mem (results.map fun r => r.decision) with hpass | hmem
    · exact Or.inl hpass
    · obtain ⟨result, hresult, heq⟩ := List.mem_map.1 hmem
      refine (heq ▸ (h result hresult).2).imp_right ?_
      rintro ⟨reason, hreason, hdecision⟩
      exact ⟨reason, List.mem_flatMap.2 ⟨result, hresult, hreason⟩, hdecision⟩

/-- A report accounts for every finding of its pairs, and its decision is the most severe of its reasons. The order of
the verification summaries does not matter. A pair whose verification failed or is incomplete is blocked, but where the
one thing that says so is the summary of a run that crashed. -/
theorem decision_accounts (pairs : List Pair) (verifications : List Json) (policy : SubsumptionPolicy)
    (asOf : Option String) :
    List.Forall₂ (Accounted policy asOf) pairs (Decide.decide pairs verifications policy asOf).pairs ∧
    MostSevere (Decide.decide pairs verifications policy asOf).decision
      ((Decide.decide pairs verifications policy asOf).pairs.flatMap fun result => result.reasons) ∧
    (∀ others, verifications.Perm others →
      Decide.decide pairs others policy asOf = Decide.decide pairs verifications policy asOf) ∧
    List.Forall₂ (fun pair result =>
      ((∃ summary ∈ verifications, covers summary pair.consumer.name pair.provider.name ∧
          Unsuccessful pair.consumer.name pair.provider.name summary) → result.decision = .block) ↔
        ((∃ summary ∈ verifications, covers summary pair.consumer.name pair.provider.name ∧ crashed summary) →
          (∃ summary ∈ verifications, covers summary pair.consumer.name pair.provider.name ∧
            Attributed pair.consumer.name pair.provider.name summary) ∨ PolicyBlocks pair policy asOf))
      pairs (Decide.decide pairs verifications policy asOf).pairs := by
  refine ⟨?_, ?_, fun others h => (decide_perm h).symm, ?_⟩
  · rw [Decide.decide, List.forall₂_map_right_iff, List.forall₂_same]
    exact fun pair _ => accounted_decidePair pair verifications _ policy asOf
  · refine mostSevere_pairs _ fun result hresult => ?_
    obtain ⟨pair, -, rfl⟩ := List.mem_map.1 hresult
    exact (accounted_decidePair pair verifications _ policy asOf).severest
  · rw [Decide.decide, List.forall₂_map_right_iff, List.forall₂_same]
    intro pair _
    rw [decidePair_eq_block]
    constructor
    · rintro h ⟨summary, hmem, hcovers, hcrashed⟩
      exact h ⟨summary, hmem, hcovers, Or.inr hcrashed⟩
    · rintro h ⟨summary, hmem, hcovers, hattributed | hcrashed⟩
      · exact Or.inl ⟨summary, hmem, hcovers, hattributed⟩
      · exact h ⟨summary, hmem, hcovers, hcrashed⟩

/-- What a run that panicked leaves. -/
private def panicked : Json :=
  .object [("status", .string "failed"), ("contracts", .number (.posInt 1)), ("consumers", .array [.string "web"]),
    ("providers", .array [.string "orders-api"]), ("interactions", .number (.posInt 1)), ("filtered", .bool false),
    ("error", .object [("code", .string "internal")])]

/-- The summary of a run that panicked counts as a pass of the pair it names. -/
theorem panicked_run_passes :
    covers panicked "web" "orders-api" ∧ Unsuccessful "web" "orders-api" panicked ∧
      (Decide.decide [⟨⟨"web"⟩, ⟨"orders-api"⟩, none, none⟩] [panicked] ⟨.block, .block, []⟩ none).decision = .pass := by
  exact ⟨by decide, Or.inr (by decide), by decide⟩

end PactJanus.Compatibility.Accounting
