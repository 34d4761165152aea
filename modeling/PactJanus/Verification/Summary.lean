import PactJanus.Verification.Counting

namespace PactJanus.Verification.Summary

open PactJanus.Data.Json PactJanus.Contracts.Model PactJanus.Compatibility.Decide
open PactJanus.Verification.Run PactJanus.Verification.Exchange PactJanus.Verification.Reading
open PactJanus.Verification.Counting

/-! What the summary of a run says of its variants. -/

/-- Counts of variants, as a summary writes them. -/
structure Counts where
  verified : Nat
  failed : Nat
  stateUnavailable : Nat
  skipped : Nat

namespace Counts

def total (counts : Counts) : Nat := counts.verified + counts.failed + counts.stateUnavailable + counts.skipped

def json (counts : Counts) (notRun : Option Nat) : Json :=
  .object ([("total", countJson counts.total), ("verified", countJson counts.verified),
    ("failed", countJson counts.failed), ("state-unavailable", countJson counts.stateUnavailable),
    ("skipped", countJson counts.skipped)] ++ optional "not-run" (notRun.map countJson))

def ofTally (tally : Tally) : Counts := ⟨tally.verified, tally.failed, tally.stateUnavailable, tally.skipped⟩

/-- What one source's part of a run counts. -/
def ofRun (run : Option SourceRun) (results : List Json) : Counts :=
  let part := (run.map fun run => resultsOf run results).getD []
  ⟨part.countP Tally.isVerified, part.length - part.countP Tally.isVerified - part.countP isUnavailable,
    part.countP isUnavailable, (run.map SourceRun.skipped).getD 0⟩

end Counts

def endedEarly : Flow → Bool
  | .continue => false
  | _ => true

/-- The variants the sources record. -/
def recordedIn (sources : List (Source × Bool)) : Nat := (sources.map fun source => source.1.variants).sum

def unfiltered : Filter := ⟨none, none⟩

/-- A run's summary accounts for every variant of its sources. -/
structure Accounted (filter : Filter) (sources : List (Source × Bool)) (tally : Tally) (flow : Flow) (doc : Json) : Prop where
  /-- The results are those of the first variants the filter admits, one each. -/
  results : List.Forall₂ Yields ((slots filter sources).take tally.results.length) tally.results
  everyVariant : flow = .continue → tally.results.length = (slots filter sources).length
  /-- What the run reached, and what it did not. -/
  counts : ∃ notRun, get "variants" doc = some ((Counts.ofTally tally).json (if endedEarly flow then some notRun else none)) ∧
    (Counts.ofTally tally).total + (if endedEarly flow then notRun else 0) = recordedIn sources
  pairs : ∃ entries pairs, get "pairs" doc = some (.array entries) ∧ pairs.length = sources.length ∧
    List.Forall₂ (fun entry counts => get "variants" entry = some (Counts.json counts none)) entries pairs ∧
    (pairs.map Counts.verified).sum = tally.verified ∧ (pairs.map Counts.failed).sum = tally.failed ∧
    (pairs.map Counts.stateUnavailable).sum = tally.stateUnavailable ∧ (pairs.map Counts.skipped).sum = tally.skipped
  verified : get "status" doc = some (.string "verified") → flow = .continue ∧
    (∀ source ∈ sources, filter.narrows source.1 = false) ∧
    List.Forall₂ (fun slot payload => Yields slot payload ∧ (slot.pending = false → Tally.isVerified payload = true))
      (slots unfiltered sources) tally.results

section Filtered

variable (filter : Filter)

private theorem slotsAmong_sublist (source : Source) (pending : Bool) (interactions : List Recorded) :
    (slotsAmong filter source pending interactions).Sublist (slotsAmong unfiltered source pending interactions) := by
  induction interactions with
  | nil => exact List.Sublist.refl _
  | cons interaction rest ih =>
    have hall : slotsAmong unfiltered source pending (interaction :: rest) =
        slotsOf unfiltered pending interaction ++ slotsAmong unfiltered source pending rest := rfl
    rw [hall, slotsAmong]
    cases hadmits : filter.admitsInteraction source interaction with
    | false =>
      rw [List.filter_cons_of_neg (by simp [hadmits])]
      exact ih.trans (List.sublist_append_right _ _)
    | true =>
      rw [List.filter_cons_of_pos hadmits, List.flatMap_cons]
      refine List.Sublist.append (List.Sublist.map _ ?_) ih
      have hids : interaction.variants.filter unfiltered.admits = interaction.variants :=
        List.filter_eq_self.2 fun _ _ => rfl
      rw [hids]
      exact List.filter_sublist

private theorem length_slotsAmong (source : Source) (pending : Bool) (interactions : List Recorded) :
    (slotsAmong filter source pending interactions).length = admittedOf filter source interactions := by
  simp [slotsAmong, slotsOf, admittedOf, List.length_flatMap, List.countP_eq_length_filter]

/-- A source the filter does not narrow has all its variants replayed. -/
private theorem slots_unfiltered {sources : List (Source × Bool)}
    (h : ∀ source ∈ sources, filter.narrows source.1 = false) : slots filter sources = slots unfiltered sources := by
  refine List.flatMap_congr fun source hsource => ?_
  refine (slotsAmong_sublist filter source.1 source.2 source.1.recorded).eq_of_length ?_
  have hadmitted : ∀ f : Filter, f.narrows source.1 = false →
      admittedOf f source.1 source.1.recorded = source.1.variants := fun f hf => admitted_of_not_narrowed hf
  rw [length_slotsAmong, length_slotsAmong, hadmitted filter (h source hsource), hadmitted unfiltered rfl]

end Filtered

/-! The entries of the sources. -/

private theorem counted_within (part : List Json) : part.countP Tally.isVerified + part.countP isUnavailable ≤ part.length := by
  induction part with
  | nil => rfl
  | cons payload part ih =>
    rw [List.countP_cons, List.countP_cons, List.length_cons]
    cases hv : Tally.isVerified payload with
    | true =>
      rw [not_unavailable hv]
      simp only [if_true, Bool.false_eq_true, if_false]
      omega
    | false =>
      simp only [Bool.false_eq_true, if_false]
      split <;> omega

private theorem entry_variants (source : Source) (run : Option SourceRun) (narrowed : Bool) (results : List Json) :
    get "variants" (pairEntry source run narrowed results) = some ((Counts.ofRun run results).json none) := by
  have hwithin := counted_within ((run.map fun run => resultsOf run results).getD [])
  have htotal : (Counts.ofRun run results).total =
      ((run.map fun run => resultsOf run results).getD []).length + (run.map SourceRun.skipped).getD 0 := by
    simp only [Counts.total, Counts.ofRun]
    omega
  rw [Counts.json, htotal]
  rfl

/-- What the entries count is what the parts of the run count: a source it never reached has no part. -/
private theorem sum_placed {α : Type} {g : Option SourceRun → Nat} (hg : g none = 0) {documents : List α}
    {ran : List SourceRun} (hle : ran.length ≤ documents.length) {k : Nat} {f : Nat → Option SourceRun}
    (hf : ∀ i, f (k + i) = ran[i]?) :
    ((documents.zipIdx k).map fun p => g (f p.2)).sum = (ran.map fun run => g (some run)).sum := by
  induction documents generalizing ran k with
  | nil =>
    obtain rfl := List.length_eq_zero_iff.1 (Nat.le_zero.1 hle)
    rfl
  | cons document documents ih =>
    rw [List.zipIdx_cons, List.map_cons, List.sum_cons]
    have hhead := hf 0
    cases ran with
    | nil =>
      have hrest (i : Nat) : f (k + 1 + i) = ([] : List SourceRun)[i]? := by
        rw [Nat.add_assoc]
        exact hf (1 + i)
      rw [ih (Nat.zero_le _) hrest]
      change g (f k) + 0 = 0
      rw [Nat.add_zero] at hhead
      rw [hhead]
      exact hg
    | cons run ran =>
      have hrest (i : Nat) : f (k + 1 + i) = ran[i]? := by
        rw [Nat.add_assoc, Nat.add_comm 1]
        exact hf (i + 1)
      rw [ih (Nat.le_of_succ_le_succ hle) hrest]
      rw [Nat.add_zero] at hhead
      rw [hhead]
      rfl

private theorem countP_parts (p : Json → Bool) (parts : List (List Json)) :
    (parts.map (List.countP p)).sum = parts.flatten.countP p := by
  rw [List.countP_flatten]

private theorem sum_failed (ran : List SourceRun) (results : List Json) :
    (ran.map fun run => (Counts.ofRun (some run) results).failed).sum +
      (ran.map fun run => (resultsOf run results).countP Tally.isVerified).sum +
      (ran.map fun run => (resultsOf run results).countP isUnavailable).sum =
      (ran.map fun run => (resultsOf run results).length).sum := by
  induction ran with
  | nil => rfl
  | cons run ran ih =>
    have hwithin := counted_within (resultsOf run results)
    have hone : (Counts.ofRun (some run) results).failed = (resultsOf run results).length -
      (resultsOf run results).countP Tally.isVerified - (resultsOf run results).countP isUnavailable := rfl
    simp only [List.map_cons, List.sum_cons, hone]
    omega

section Finished

variable {filter : Filter} {sources : List (Source × Bool)} {tally : Tally} {ran : List SourceRun} {flow : Flow}

private theorem ran_counts (hparted : Parted .empty tally ran) (hcounted : Counted tally) :
    (ran.map fun run => (Counts.ofRun (some run) tally.results).verified).sum = tally.verified ∧
      (ran.map fun run => (Counts.ofRun (some run) tally.results).failed).sum = tally.failed ∧
      (ran.map fun run => (Counts.ofRun (some run) tally.results).stateUnavailable).sum = tally.stateUnavailable ∧
      (ran.map fun run => (Counts.ofRun (some run) tally.results).skipped).sum = tally.skipped := by
  have hresults : (ran.map fun run => resultsOf run tally.results).flatten = tally.results := hparted.results.symm
  have hcount (p : Json → Bool) : (ran.map fun run => (resultsOf run tally.results).countP p).sum = tally.results.countP p := by
    conv_rhs => rw [← hresults]
    rw [← countP_parts, List.map_map]
    rfl
  have hlength : (ran.map fun run => (resultsOf run tally.results).length).sum = tally.results.length := by
    conv_rhs => rw [← hresults]
    rw [List.length_flatten, List.map_map]
    rfl
  have hfailed := sum_failed ran tally.results
  refine ⟨(hcount _).trans hcounted.verified.symm, ?_, (hcount _).trans hcounted.unavailable.symm, ?_⟩
  · rw [hcount, hcount, hlength, ← hcounted.verified, ← hcounted.unavailable] at hfailed
    have htotal := hcounted.total
    omega
  · exact (Nat.zero_add _).symm.trans hparted.skipped.symm

private theorem status_verified {failing aborted narrowed : Bool}
    (h : (if failing || aborted then "failed" else if narrowed then "filtered" else "verified") = "verified") :
    failing = false ∧ aborted = false ∧ narrowed = false := by
  revert h
  cases failing <;> cases aborted <;> cases narrowed <;> decide

private theorem summary_status (world : World) (fromBroker : Bool)
    (h : get "status" (summary world filter sources fromBroker tally ran flow) = some (.string "verified")) :
    tally.failing = 0 ∧ (∀ source ∈ sources, filter.narrows source.1 = false) ∧ (flow = .continue ∨ flow = .stop) := by
  have hstatus := Json.string.inj (Option.some.inj h)
  have hread (hnarrowed : (sources.map Prod.fst |>.map filter.narrows).contains true = false) :
      ∀ source ∈ sources, filter.narrows source.1 = false := fun source hsource => by
    rw [List.contains_eq_mem, decide_eq_false_iff_not, List.map_map] at hnarrowed
    exact Bool.eq_false_iff.2 fun hnarrows => hnarrowed (List.mem_map.2 ⟨source, hsource, hnarrows⟩)
  cases flow with
  | «continue» =>
    obtain ⟨hfailing, -, hnarrowed⟩ := status_verified hstatus
    exact ⟨Nat.le_zero.1 (Nat.not_lt.1 (of_decide_eq_false hfailing)), hread hnarrowed, Or.inl rfl⟩
  | abort abort => exact nomatch (status_verified hstatus).2.1
  | stop =>
    obtain ⟨hfailing, -, hnarrowed⟩ := status_verified hstatus
    exact ⟨Nat.le_zero.1 (Nat.not_lt.1 (of_decide_eq_false hfailing)), hread hnarrowed, Or.inr rfl⟩

private theorem summary_variants (world : World) (fromBroker : Bool) :
    get "variants" (summary world filter sources fromBroker tally ran flow) =
      some ((Counts.ofTally tally).json
        (if endedEarly flow then some (recordedIn sources - (Counts.ofTally tally).total) else none)) := by
  have hrecorded : ((sources.map Prod.fst).map Source.variants).sum = recordedIn sources := by
    rw [List.map_map]
    rfl
  have htotal : tally.verified + (tally.failed + tally.stateUnavailable) + tally.skipped = (Counts.ofTally tally).total := by
    simp only [Counts.total, Counts.ofTally]
    omega
  have hjson (notRun : Option Nat) : (Counts.ofTally tally).json notRun = .object ([("total", countJson
      (tally.verified + (tally.failed + tally.stateUnavailable) + tally.skipped)), ("verified", countJson tally.verified),
      ("failed", countJson tally.failed), ("state-unavailable", countJson tally.stateUnavailable),
      ("skipped", countJson tally.skipped)] ++ optional "not-run" (notRun.map countJson)) := by
    rw [htotal]
    rfl
  rw [← hrecorded, hjson]
  cases flow <;> rfl

private theorem summary_pairs {attempts : Json → String → Nat → Attempt} {failUnhandledStates : Bool}
    {before : Option (Option Abort)} {closes : Bool} {hooks : Option Json} {publication : List Json} {fromBroker : Bool} :
    get "pairs" (summary (World.meeting attempts failUnhandledStates before closes hooks publication) filter sources fromBroker
      tally ran flow) =
      some (.array ((sources.map Prod.fst).zipIdx.map fun p =>
        pairEntry p.1 ran[p.2]? (filter.narrows p.1) tally.results)) := by
  cases fromBroker <;> cases publication <;> rfl

/-- A tally none of whose failures fail the run has verified whatever is not pending. -/
private theorem verified_of_not_failing (hcounted : Counted tally) (h : tally.failing = 0) {payload : Json}
    (hmem : payload ∈ tally.results) (hpending : isPending payload = false) : Tally.isVerified payload = true := by
  have hsplit (results : List Json) : (results.countP fun payload => isPending payload && !Tally.isVerified payload) +
      (results.countP fun payload => !isPending payload && !Tally.isVerified payload) +
      results.countP Tally.isVerified = results.length := by
    induction results with
    | nil => rfl
    | cons payload results ih =>
      simp only [List.countP_cons, List.length_cons]
      cases isPending payload <;> cases Tally.isVerified payload <;> simp <;> omega
  have hall := hsplit tally.results
  have htotal := hcounted.total
  rw [← hcounted.pending, ← hcounted.verified] at hall
  unfold Tally.failing at h
  have hnone : (tally.results.countP fun payload => !isPending payload && !Tally.isVerified payload) = 0 := by omega
  have hpayload := List.countP_eq_zero.1 hnone payload hmem
  rw [hpending] at hpayload
  simpa using hpayload

end Finished

private theorem forall₂_and_right {α β : Type} {r : α → β → Prop} {p : β → Prop} {as : List α} {bs : List β}
    (hp : ∀ b ∈ bs, p b) (h : List.Forall₂ r as bs) : List.Forall₂ (fun a b => r a b ∧ p b) as bs := by
  induction h with
  | nil => exact List.Forall₂.nil
  | cons hab _ ih =>
    exact List.Forall₂.cons ⟨hab, hp _ List.mem_cons_self⟩ (ih fun b hb => hp b (List.mem_cons_of_mem _ hb))

/-- Every variant the filter admits has at most one result, exactly one where the run goes to its end; what is counted
adds up, with the pending failures among the failures; and a run is verified only where all of it was. -/
theorem run_accounts_for_every_variant (attempts : Json → String → Nat → Attempt) (failUnhandledStates : Bool)
    (before : Option (Option Abort)) (closes : Bool) (hooks : Option Json) (publication : List Json) (filter : Filter)
    (policy : RunPolicy) (sources : List (Source × Bool)) (fromBroker : Bool) :
    (∀ tally, Built tally → tally.pendingFailed ≤ tally.failed + tally.stateUnavailable) ∧
      ∀ tally ran flow,
        run (World.meeting attempts failUnhandledStates before closes hooks publication) filter policy sources =
          some (tally, ran, flow) →
        Built tally ∧ Accounted filter sources tally flow (summary
          (World.meeting attempts failUnhandledStates before closes hooks publication) filter sources fromBroker tally ran
          flow) := by
  refine ⟨fun _ => pendingFailed_le, fun tally ran flow h => ?_⟩
  obtain ⟨haccounts, hparted, hlength⟩ := run_accounts h
  have hbuilt := haccounts.built .empty
  have hcounted := counted_of_built hbuilt
  obtain ⟨new, hnew, hyields, hwhole⟩ := haccounts.results
  obtain rfl : tally.results = new := hnew
  refine ⟨hbuilt, hyields, hwhole, ?_, ?_, fun hstatus => ?_⟩
  · refine ⟨recordedIn sources - (Counts.ofTally tally).total, summary_variants _ fromBroker, ?_⟩
    have hreached := haccounts.reached
    have htotal : (Counts.ofTally tally).total = tally.results.length + tally.skipped := by
      rw [← hcounted.total]
      rfl
    rw [htotal]
    cases flow with
    | «continue» =>
      have hall := haccounts.whole rfl
      change _ = 0 + 0 + recordedIn sources at hall
      change _ + 0 = _
      omega
    | abort abort =>
      change _ ≤ 0 + 0 + recordedIn sources at hreached
      change _ + (_ - _) = _
      omega
    | stop =>
      change _ ≤ 0 + 0 + recordedIn sources at hreached
      change _ + (_ - _) = _
      omega
  · refine ⟨_, (sources.map Prod.fst).zipIdx.map fun p => Counts.ofRun ran[p.2]? tally.results, summary_pairs, ?_, ?_, ?_⟩
    · rw [List.length_map, List.length_zipIdx, List.length_map]
    · rw [List.forall₂_map_left_iff, List.forall₂_map_right_iff, List.forall₂_same]
      exact fun p _ => entry_variants p.1 _ _ _
    · have hle : ran.length ≤ (sources.map Prod.fst).length := by rwa [List.length_map]
      have hplace (i : Nat) : ran[0 + i]? = ran[i]? := by rw [Nat.zero_add]
      obtain ⟨hverified, hfailed, hunavailable, hskipped⟩ := ran_counts hparted hcounted
      simp only [List.map_map]
      refine ⟨?_, ?_, ?_, ?_⟩
      · exact (sum_placed (g := fun run => (Counts.ofRun run tally.results).verified) rfl hle hplace).trans hverified
      · exact (sum_placed (g := fun run => (Counts.ofRun run tally.results).failed) rfl hle hplace).trans hfailed
      · exact (sum_placed (g := fun run => (Counts.ofRun run tally.results).stateUnavailable) rfl hle hplace).trans
          hunavailable
      · exact (sum_placed (g := fun run => (Counts.ofRun run tally.results).skipped) rfl hle hplace).trans hskipped
  · obtain ⟨hfailing, hnarrows, hflow⟩ := summary_status _ fromBroker hstatus
    have hcontinue : flow = .continue := hflow.resolve_right fun hstop => by
      have hstopped := haccounts.stopped hstop
      omega
    rw [hwhole hcontinue, List.take_length, slots_unfiltered filter hnarrows] at hyields
    refine ⟨hcontinue, hnarrows, ?_⟩
    refine (forall₂_and_right (fun payload => verified_of_not_failing hcounted hfailing) hyields).imp ?_
    rintro slot payload ⟨hslot, hverified⟩
    exact ⟨hslot, fun hpending => hverified (hslot.pending.trans hpending)⟩

private def orders : Source :=
  .legacy "web" "orders-api" "4.0" [⟨"get order", [], false, none⟩, ⟨"list orders", [], true, none⟩]

/-- An exchange with no state to set up, scored as given. -/
private def scored (scored : Scored) : Attempt :=
  .exchanged ⟨[], .driven none .continue (.ok scored), .continue, []⟩

private def scoring (answer : Scored) : World :=
  World.meeting (fun _ _ _ => scored answer) false (some none) true none []

/-- The pending interaction fails and the run is verified: what is not pending was. -/
theorem run_accounts_for_every_variant_pending :
    ∃ tally ran flow,
      run (World.meeting (fun _ _ n => scored (if n = 0 then .matched else .mismatched [])) false (some none) true none [])
        unfiltered ⟨true⟩ [(orders, false)] = some (tally, ran, flow) ∧
      Built tally ∧ Accounted unfiltered [(orders, false)] tally flow (summary
        (World.meeting (fun _ _ n => scored (if n = 0 then .matched else .mismatched [])) false (some none) true none [])
        unfiltered [(orders, false)] false tally ran flow) :=
  ⟨_, _, _, rfl, (run_accounts_for_every_variant (fun _ _ n => scored (if n = 0 then .matched else .mismatched [])) false
    (some none) true none [] unfiltered ⟨true⟩ [(orders, false)] false).2 _ _ _ rfl⟩

/-- A count a summary writes. -/
private def countOf (name : String) (doc : Json) : Nat := (((get name (index "variants" doc)).bind asUnsigned).getD 0).toNat

/-- A run stopped at its first failure counts one variant reached and one not run, of a total of one. -/
theorem not_run_outside_the_total :
    ∃ tally ran flow doc, run (scoring (.mismatched [])) unfiltered ⟨true⟩ [(orders, false)] = some (tally, ran, flow) ∧
      doc = summary (scoring (.mismatched [])) unfiltered [(orders, false)] false tally ran flow ∧
      countOf "verified" doc + countOf "failed" doc + countOf "state-unavailable" doc + countOf "skipped" doc +
        countOf "not-run" doc ≠ countOf "total" doc :=
  ⟨_, _, _, _, rfl, rfl, by decide +kernel⟩

end PactJanus.Verification.Summary
