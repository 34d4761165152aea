import Mathlib.Data.List.Forall2
import PactJanus.Verification.Exchange
import PactJanus.Verification.Reading

namespace PactJanus.Verification.Counting

open PactJanus.Data.Json PactJanus.Lib.Lists PactJanus.Contracts.Model PactJanus.Compatibility.Decide
open PactJanus.Verification.Run PactJanus.Verification.Exchange PactJanus.Verification.Reading

/-! What a run counts, and what its counts add up to. -/

def isUnavailable (payload : Json) : Bool := holdsText "status" "state-unavailable" payload

def isPending (payload : Json) : Bool := isTrue (index "pending" payload)

/-- The tallies a run can build: it starts with none, records results and skips variants. -/
inductive Built : Tally → Prop
  | empty : Built .empty
  | record {tally : Tally} (payload : Json) (built : Built tally) : Built (tally.record payload)
  | skip {tally : Tally} (n : Nat) (built : Built tally) : Built (tally.skip n)

/-- A tally counts its results. -/
structure Counted (tally : Tally) : Prop where
  verified : tally.verified = tally.results.countP Tally.isVerified
  unavailable : tally.stateUnavailable = tally.results.countP isUnavailable
  total : tally.verified + tally.failed + tally.stateUnavailable = tally.results.length
  pending : tally.pendingFailed = tally.results.countP fun payload => isPending payload && !Tally.isVerified payload

theorem not_unavailable {payload : Json} (h : Tally.isVerified payload = true) : isUnavailable payload = false := by
  rw [Tally.isVerified, holdsText, beq_iff_eq] at h
  rw [isUnavailable, holdsText, h]
  decide

private theorem counted_record {tally : Tally} (h : Counted tally) (payload : Json) : Counted (tally.record payload) := by
  obtain ⟨hverified, hunavailable, htotal, hpending⟩ := h
  have hcount : (if isPending payload && !Tally.isVerified payload then tally.pendingFailed + 1 else tally.pendingFailed) =
      (tally.results ++ [payload]).countP fun payload => isPending payload && !Tally.isVerified payload := by
    rw [List.countP_append, List.countP_singleton, ← hpending]
    split <;> rfl
  unfold Tally.record
  cases hv : Tally.isVerified payload with
  | true =>
    refine ⟨?_, ?_, ?_, ?_⟩
    · simp [List.countP_append, hv, hverified]
    · simp [List.countP_append, not_unavailable hv, hunavailable]
    · simp only [if_true, List.length_append, List.length_singleton]
      omega
    · rw [hv] at hcount
      exact hcount
  | false =>
    rw [hv] at hcount
    cases hu : isUnavailable payload with
    | true =>
      have hu' : holdsText "status" "state-unavailable" payload = true := hu
      refine ⟨?_, ?_, ?_, ?_⟩ <;> simp only [hu', Bool.false_eq_true, if_false, if_true]
      · simp [List.countP_append, hv, hverified]
      · simp [List.countP_append, hu, hunavailable]
      · simp only [List.length_append, List.length_singleton]
        omega
      · exact hcount
    | false =>
      have hu' : holdsText "status" "state-unavailable" payload = false := hu
      refine ⟨?_, ?_, ?_, ?_⟩ <;> simp only [hu', Bool.false_eq_true, if_false]
      · simp [List.countP_append, hv, hverified]
      · simp [List.countP_append, hu, hunavailable]
      · simp only [List.length_append, List.length_singleton]
        omega
      · exact hcount

theorem counted_of_built {tally : Tally} (h : Built tally) : Counted tally := by
  induction h with
  | empty => exact ⟨rfl, rfl, rfl, rfl⟩
  | record payload _ ih => exact counted_record ih payload
  | skip n _ ih => exact ⟨ih.verified, ih.unavailable, ih.total, ih.pending⟩

/-- However a tally is built, its pending failures are among its failures. -/
theorem pendingFailed_le {tally : Tally} (h : Built tally) :
    tally.pendingFailed ≤ tally.failed + tally.stateUnavailable := by
  obtain ⟨hverified, -, htotal, hpending⟩ := counted_of_built h
  have hle : tally.pendingFailed ≤ tally.results.countP fun payload => !Tally.isVerified payload := by
    rw [hpending]
    refine List.countP_mono_left fun payload _ hp => ?_
    exact (Bool.and_eq_true_iff.1 hp).2
  have hlength := List.length_eq_countP_add_countP Tally.isVerified (l := tally.results)
  have hnot : (tally.results.countP fun payload => decide ¬Tally.isVerified payload = true) =
      tally.results.countP fun payload => !Tally.isVerified payload := by
    refine List.countP_congr fun payload _ => ?_
    simp
  omega

/-! The variants a run replays, and the result each yields. -/

/-- A variant the filter admits: the interaction it is of, and whether it is pending. -/
structure Slot where
  reference : Json
  variant : String
  pending : Bool

variable (filter : Filter)

def slotsOf (pending : Bool) (interaction : Recorded) : List Slot :=
  (interaction.variants.filter filter.admits).map fun id => ⟨interaction.reference, id, pending || interaction.pending⟩

def slotsAmong (source : Source) (pending : Bool) (interactions : List Recorded) : List Slot :=
  (interactions.filter (filter.admitsInteraction source)).flatMap (slotsOf filter pending)

/-- The variants of the sources that the filter admits, in the order they are replayed. -/
def slots (sources : List (Source × Bool)) : List Slot :=
  sources.flatMap fun source => slotsAmong filter source.1 source.2 source.1.recorded

/-- A result recorded for a variant. -/
structure Yields (slot : Slot) (payload : Json) : Prop where
  interaction : get "interaction" payload = some slot.reference
  variant : get "variant" payload = some (.string slot.variant)
  pending : isPending payload = slot.pending

theorem yields_mark {reference : Json} {variant : String} {payload : Json} (h : ResultOf reference variant payload)
    (pending : Bool) : Yields ⟨reference, variant, pending⟩ (mark pending payload) := by
  obtain ⟨hinteraction, hvariant, -, hunmarked, members, rfl⟩ := h
  cases pending with
  | false =>
    refine ⟨hinteraction, hvariant, ?_⟩
    change isTrue ((get "pending" (.object members)).getD .null) = false
    rw [hunmarked]
    rfl
  | true =>
    refine ⟨?_, ?_, ?_⟩
    · exact (lookup_setMember).trans ((if_neg (by decide)).trans hinteraction)
    · exact (lookup_setMember).trans ((if_neg (by decide)).trans hvariant)
    · change isTrue ((List.lookup "pending" (setMember "pending" (.bool true) members)).getD .null) = true
      rw [lookup_setMember, if_pos rfl]
      rfl

/-! What a stretch of the run does to the tally. -/

/-- A tally after some of a run: the results of the first of some slots, all of them where the run goes on, and no more
results and variants left out than are recorded. -/
structure Accounts (tally ended : Tally) (flow : Flow) (slots : List Slot) (recorded : Nat) : Prop where
  built : Built tally → Built ended
  results : ∃ new, ended.results = tally.results ++ new ∧ List.Forall₂ Yields (slots.take new.length) new ∧
    (flow = .continue → new.length = slots.length)
  skipped : tally.skipped ≤ ended.skipped
  reached : ended.results.length + ended.skipped ≤ tally.results.length + tally.skipped + recorded
  whole : flow = .continue → ended.results.length + ended.skipped = tally.results.length + tally.skipped + recorded
  stopped : flow = .stop → 0 < ended.failing

namespace Accounts

variable {tally middle ended : Tally} {flow : Flow} {slots more : List Slot} {m n : Nat}

private theorem trans (h : Accounts tally middle .continue slots m) (h' : Accounts middle ended flow more n) :
    Accounts tally ended flow (slots ++ more) (m + n) := by
  obtain ⟨new, hnew, hyields, hlength⟩ := h.results
  obtain ⟨new', hnew', hyields', hlength'⟩ := h'.results
  have hwhole := h.whole rfl
  refine ⟨fun hb => h'.built (h.built hb), ⟨new ++ new', ?_, ?_, fun hflow => ?_⟩, le_trans h.skipped h'.skipped, ?_, ?_,
    h'.stopped⟩
  · rw [hnew', hnew, List.append_assoc]
  · rw [List.length_append, hlength rfl, List.take_length_add_append]
    rw [hlength rfl, List.take_length] at hyields
    exact List.rel_append hyields hyields'
  · rw [List.length_append, List.length_append, hlength rfl, hlength' hflow]
  · have hreached := h'.reached
    omega
  · intro hflow
    have hwhole' := h'.whole hflow
    omega

/-- What comes after the end of a run is not reached. -/
private theorem ends (h : Accounts tally ended flow slots m) (hflow : flow ≠ .continue) (more : List Slot) (n : Nat) :
    Accounts tally ended flow (slots ++ more) (m + n) := by
  obtain ⟨new, hnew, hyields, -⟩ := h.results
  have hle : new.length ≤ slots.length := by
    rw [← hyields.length_eq]
    exact List.length_take_le' _ _
  refine ⟨h.built, ⟨new, hnew, ?_, fun h => absurd h hflow⟩, h.skipped, ?_, fun h => absurd h hflow, h.stopped⟩
  · rw [List.take_append_of_le_length hle]
    exact hyields
  · have hreached := h.reached
    omega

private theorem refl (tally : Tally) : Accounts tally tally .continue [] 0 :=
  ⟨id, ⟨[], (List.append_nil _).symm, List.Forall₂.nil, fun _ => rfl⟩, le_rfl, le_rfl, fun _ => rfl, nofun⟩

private theorem stop {tally : Tally} (h : 0 < tally.failing) : Accounts tally tally .stop [] 0 :=
  ⟨id, ⟨[], (List.append_nil _).symm, List.Forall₂.nil, nofun⟩, le_rfl, le_rfl, nofun, fun _ => h⟩

private theorem skip (tally : Tally) (n : Nat) : Accounts tally (tally.skip n) .continue [] n :=
  ⟨.skip n, ⟨[], (List.append_nil _).symm, List.Forall₂.nil, fun _ => rfl⟩, Nat.le_add_right _ _,
    le_of_eq (Nat.add_assoc _ _ _).symm, fun _ => (Nat.add_assoc _ _ _).symm, nofun⟩

private theorem record (tally : Tally) {slot : Slot} {payload : Json} (h : Yields slot payload) (hflow : flow ≠ .stop) :
    Accounts tally (tally.record payload) flow [slot] 1 := by
  have hresults : (tally.record payload).results = tally.results ++ [payload] := by
    unfold Tally.record
    split_ifs <;> rfl
  have hskipped : (tally.record payload).skipped = tally.skipped := by
    unfold Tally.record
    split_ifs <;> rfl
  have hreached : (tally.record payload).results.length + (tally.record payload).skipped =
      tally.results.length + tally.skipped + 1 := by
    rw [hresults, hskipped, List.length_append, List.length_singleton]
    omega
  exact ⟨.record payload, ⟨[payload], hresults, List.Forall₂.cons h List.Forall₂.nil, fun _ => rfl⟩, hskipped.ge,
    hreached.le, fun _ => hreached, fun h => absurd h hflow⟩

end Accounts

section Replaying

variable {attempts : Json → String → Nat → Attempt} {failUnhandledStates : Bool} {before : Option (Option Abort)}
  {closes : Bool} {hooks : Option Json} {publication : List Json} {filter : Filter} {policy : RunPolicy}

private theorem verifyPrepared_accounts {reference : Json} {pending : Bool} {ids : List String} {tally ended : Tally}
    {flow : Flow} (h : verifyPrepared (World.meeting attempts failUnhandledStates before closes hooks publication) filter
      policy reference pending ids tally = some (ended, flow)) :
    Accounts tally ended flow ((ids.filter filter.admits).map fun id => ⟨reference, id, pending⟩) ids.length := by
  induction ids generalizing tally with
  | nil =>
    obtain ⟨rfl, hflow⟩ := Prod.mk.inj (Option.some.inj h)
    split at hflow
    · rename_i hstop
      obtain rfl := hflow
      rw [Bool.and_eq_true, decide_eq_true_iff] at hstop
      exact .stop hstop.2
    · obtain rfl := hflow
      exact .refl _
  | cons id rest ih =>
    unfold verifyPrepared at h
    split_ifs at h with hstop hadmits
    · obtain ⟨rfl, rfl⟩ := Prod.mk.inj (Option.some.inj h)
      rw [Bool.and_eq_true, decide_eq_true_iff] at hstop
      have hends := (Accounts.stop hstop.2).ends (by simp)
        (((id :: rest).filter filter.admits).map fun id => ⟨reference, id, pending⟩) (id :: rest).length
      rwa [List.nil_append, Nat.zero_add] at hends
    · have hnot : filter.admits id = false := by simpa using hadmits
      rw [List.filter_cons_of_neg (by simp [hnot]), List.length_cons, Nat.add_comm]
      exact (Accounts.skip tally 1).trans (ih h)
    · have hyes : filter.admits id = true := by simpa using hadmits
      rw [List.filter_cons_of_pos hyes, List.map_cons, List.length_cons, Nat.add_comm, ← List.singleton_append]
      split at h
      · exact nomatch h
      · rename_i payload abort hreplay
        have hyields : Yields ⟨reference, id, pending⟩ (mark pending payload) :=
          yields_mark (replayed_of reference id hreplay) pending
        cases abort with
        | some abort =>
          obtain ⟨rfl, rfl⟩ := Prod.mk.inj (Option.some.inj h)
          exact (Accounts.record tally hyields (by simp)).ends (by simp) _ _
        | none => exact (Accounts.record tally hyields (by simp)).trans (ih h)

private theorem verifyInteractions_accounts {source : Source} {pending : Bool} {interactions : List Recorded}
    {tally ended : Tally} {flow : Flow}
    (h : verifyInteractions (World.meeting attempts failUnhandledStates before closes hooks publication) filter policy
      source pending interactions tally = some (ended, flow)) :
    Accounts tally ended flow (slotsAmong filter source pending interactions) (recordedVariants interactions) := by
  induction interactions generalizing tally with
  | nil =>
    obtain ⟨rfl, rfl⟩ := Prod.mk.inj (Option.some.inj h)
    exact .refl tally
  | cons interaction rest ih =>
    have hrecorded : recordedVariants (interaction :: rest) = interaction.variants.length + recordedVariants rest := by
      simp [recordedVariants]
    rw [hrecorded, slotsAmong]
    unfold verifyInteractions at h
    split_ifs at h with hadmits
    · rw [List.filter_cons_of_neg (by simpa using hadmits)]
      exact (Accounts.skip tally _).trans (ih h)
    · rw [List.filter_cons_of_pos (by simpa using hadmits), List.flatMap_cons]
      split at h
      · cases h
      · rename_i hprepared
        exact (verifyPrepared_accounts hprepared).trans (ih h)
      · rename_i hflow hprepared
        obtain ⟨rfl, rfl⟩ := Prod.mk.inj (Option.some.inj h)
        exact (verifyPrepared_accounts hprepared).ends hflow _ _

/-- The results of each source the run reached, where its part of the run says they are. -/
structure Parted (tally ended : Tally) (ran : List SourceRun) : Prop where
  results : ended.results = tally.results ++ (ran.map fun run => resultsOf run ended.results).flatten
  skipped : ended.skipped = tally.skipped + (ran.map SourceRun.skipped).sum

private theorem parted_one {tally ended : Tally} {complete : Bool} {new : List Json}
    (hnew : ended.results = tally.results ++ new) (hskipped : tally.skipped ≤ ended.skipped) :
    Parted tally ended [⟨tally.results.length, ended.results.length, ended.skipped - tally.skipped, complete⟩] := by
  have hpart : resultsOf ⟨tally.results.length, (tally.results ++ new).length, ended.skipped - tally.skipped, complete⟩
      (tally.results ++ new ++ []) = new := resultsOf_eq
  rw [List.append_nil] at hpart
  constructor
  · rw [List.map_singleton, List.flatten_singleton, hnew, hpart]
  · rw [List.map_singleton, List.sum_singleton]
    exact (Nat.add_sub_cancel' hskipped).symm

private theorem verifySources_accounts {sources : List (Source × Bool)} {tally last : Tally} {ran : List SourceRun}
    {flow : Flow} (h : verifySources (World.meeting attempts failUnhandledStates before closes hooks publication) filter
      policy sources tally = some (last, ran, flow)) :
    Accounts tally last flow (slots filter sources) (sources.map fun source => source.1.variants).sum ∧
      Parted tally last ran ∧ ran.length ≤ sources.length := by
  induction sources generalizing tally ran with
  | nil =>
    obtain ⟨rfl, hran⟩ := Prod.mk.inj (Option.some.inj h)
    obtain ⟨rfl, rfl⟩ := Prod.mk.inj hran
    exact ⟨.refl _, ⟨(List.append_nil _).symm, rfl⟩, le_rfl⟩
  | cons source rest ih =>
    rw [slots, List.flatMap_cons, List.map_cons, List.sum_cons]
    unfold verifySources at h
    split at h
    · exact nomatch h
    · rename_i ended hsource
      obtain ⟨⟨last', ran', flow'⟩, hrest, heq⟩ := Option.map_eq_some_iff.1 h
      simp only [Prod.mk.injEq] at heq
      obtain ⟨rfl, rfl, rfl⟩ := heq
      have haccounts := verifyInteractions_accounts hsource
      obtain ⟨haccounts', hparted, hlength⟩ := ih hrest
      obtain ⟨new, hnew, -⟩ := haccounts.results
      refine ⟨haccounts.trans haccounts', ⟨?_, ?_⟩, Nat.succ_le_succ hlength⟩
      · have hlast := hparted.results
        have hpart : resultsOf ⟨tally.results.length, (tally.results ++ new).length, ended.skipped - tally.skipped, true⟩
            (tally.results ++ new ++ (ran'.map fun run => resultsOf run last'.results).flatten) = new := resultsOf_eq
        rw [← hnew, ← hlast] at hpart
        rw [List.map_cons, List.flatten_cons, hpart, ← List.append_assoc, ← hnew]
        exact hlast
      · have hskipped := haccounts.skipped
        rw [hparted.skipped, List.map_cons, List.sum_cons]
        change _ = tally.skipped + (ended.skipped - tally.skipped + _)
        omega
    · rename_i hflow hsource
      simp only [Option.some.injEq, Prod.mk.injEq] at h
      obtain ⟨rfl, rfl, rfl⟩ := h
      have haccounts := verifyInteractions_accounts hsource
      obtain ⟨new, hnew, -⟩ := haccounts.results
      exact ⟨haccounts.ends hflow _ _, parted_one hnew haccounts.skipped, Nat.succ_le_succ (Nat.zero_le _)⟩

/-- What a run that ended has done, from its start. -/
theorem run_accounts {sources : List (Source × Bool)} {tally : Tally} {ran : List SourceRun} {flow : Flow}
    (h : run (World.meeting attempts failUnhandledStates before closes hooks publication) filter policy sources =
      some (tally, ran, flow)) :
    Accounts .empty tally flow (slots filter sources) (sources.map fun source => source.1.variants).sum ∧
      Parted .empty tally ran ∧ ran.length ≤ sources.length := by
  unfold run at h
  split at h
  · exact nomatch h
  · split_ifs at h
    simp only [Option.some.injEq, Prod.mk.injEq] at h
    obtain ⟨rfl, rfl, rfl⟩ := h
    refine ⟨⟨id, ⟨[], rfl, List.Forall₂.nil, nofun⟩, le_rfl, Nat.zero_le _, nofun, nofun⟩, ⟨rfl, rfl⟩, Nat.zero_le _⟩
  · split at h
    · split_ifs at h
      rename_i hsources _
      obtain rfl := Option.some.inj h
      exact verifySources_accounts hsources
    · exact nomatch h

end Replaying

end PactJanus.Verification.Counting
