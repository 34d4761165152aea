import PactJanus.Compatibility.Accounting
import PactJanus.Verification.Run

namespace PactJanus.Verification.Reading

open PactJanus.Data.Json PactJanus.Contracts.Model PactJanus.Compatibility.Decide PactJanus.Compatibility.Accounting
open PactJanus.Verification.Run

/-! What a run has replayed where it goes on. -/

section Replaying

variable {world : World} {filter : Filter} {policy : RunPolicy}

/-- A tally after some of a run: further results, and where the run goes on, as many of them and of variants left out as
there were to be. -/
structure Advances (tally ended : Tally) (flow : Flow) (replayed skipped : Nat) : Prop where
  results : ∃ new, ended.results = tally.results ++ new ∧ (flow = .continue → new.length = replayed)
  skipped : flow = .continue → ended.skipped = tally.skipped + skipped

private theorem Advances.trans {tally middle ended : Tally} {flow : Flow} {m n j k : Nat}
    (h : Advances tally middle .continue m j) (h' : Advances middle ended flow n k) :
    Advances tally ended flow (m + n) (j + k) := by
  obtain ⟨⟨new, hnew, hlen⟩, hskipped⟩ := h
  obtain ⟨⟨more, hmore, hlen'⟩, hskipped'⟩ := h'
  constructor
  · refine ⟨new ++ more, by rw [hmore, hnew, List.append_assoc], fun hflow => ?_⟩
    rw [List.length_append, hlen rfl, hlen' hflow]
  · intro hflow
    rw [hskipped' hflow, hskipped rfl, Nat.add_assoc]

private theorem Advances.refl (tally : Tally) (flow : Flow) : Advances tally tally flow 0 0 :=
  ⟨⟨[], (List.append_nil _).symm, fun _ => rfl⟩, fun _ => rfl⟩

private theorem Advances.ended {tally ended : Tally} {flow flow' : Flow} {m j : Nat} (h : Advances tally ended flow' m j)
    (hflow : flow ≠ .continue) (n k : Nat) : Advances tally ended flow n k := by
  obtain ⟨new, hnew, -⟩ := h.results
  exact ⟨⟨new, hnew, fun h => absurd h hflow⟩, fun h => absurd h hflow⟩

private theorem advances_record (tally : Tally) (payload : Json) : Advances tally (tally.record payload) .continue 1 0 := by
  unfold Tally.record
  constructor
  · refine ⟨[payload], ?_, fun _ => rfl⟩
    split_ifs <;> rfl
  · intro _
    split_ifs <;> rfl

private theorem advances_skip (tally : Tally) (n : Nat) : Advances tally (tally.skip n) .continue 0 n :=
  ⟨⟨[], (List.append_nil _).symm, fun _ => rfl⟩, fun _ => rfl⟩

private theorem verifyPrepared_advances {reference : Json} {pending : Bool} {ids : List String} {tally ended : Tally} {flow : Flow}
    (h : verifyPrepared world filter policy reference pending ids tally = some (ended, flow)) :
    Advances tally ended flow (ids.countP filter.admits) (ids.countP fun id => !filter.admits id) := by
  induction ids generalizing tally with
  | nil =>
    simp only [verifyPrepared, Option.some.injEq, Prod.mk.injEq] at h
    obtain ⟨rfl, -⟩ := h
    exact Advances.refl tally flow
  | cons id rest ih =>
    unfold verifyPrepared at h
    split_ifs at h with hstop hadmits
    · simp only [Option.some.injEq, Prod.mk.injEq] at h
      obtain ⟨rfl, rfl⟩ := h
      exact (Advances.refl tally .stop).ended (by simp) _ _
    · have hnot : filter.admits id = false := by simpa using hadmits
      have hadvances := (advances_skip tally 1).trans (ih h)
      simpa [hnot, Nat.add_comm] using hadvances
    · have hyes : filter.admits id = true := by simpa using hadmits
      cases hreplay : world.replay reference id tally.results.length with
      | panicked => simp [hreplay] at h
      | result payload abort =>
        rw [hreplay] at h
        cases abort with
        | some abort =>
          simp only [Option.some.injEq, Prod.mk.injEq] at h
          obtain ⟨rfl, rfl⟩ := h
          exact (advances_record tally _).ended (by simp) _ _
        | none =>
          have hadvances := (advances_record tally _).trans (ih h)
          simpa [hyes, Nat.add_comm] using hadvances

/-- How many variants some interactions record. -/
def recordedVariants (interactions : List Recorded) : Nat := (interactions.map fun i => i.variants.length).sum

/-- How many of some interactions' variants the run replays. -/
def admittedOf (filter : Filter) (source : Source) (interactions : List Recorded) : Nat :=
  ((interactions.filter (filter.admitsInteraction source)).map fun i => i.variants.countP filter.admits).sum

variable (filter) in
theorem admittedOf_le (source : Source) (interactions : List Recorded) :
    admittedOf filter source interactions ≤ recordedVariants interactions := by
  induction interactions with
  | nil => rfl
  | cons interaction rest ih =>
    have hle := List.countP_le_length (p := filter.admits) (l := interaction.variants)
    by_cases hadmits : filter.admitsInteraction source interaction <;>
      simp_all [admittedOf, recordedVariants] <;> omega

private theorem verifyInteractions_advances {source : Source} {pending : Bool} {interactions : List Recorded}
    {tally ended : Tally} {flow : Flow}
    (h : verifyInteractions world filter policy source pending interactions tally = some (ended, flow)) :
    Advances tally ended flow (admittedOf filter source interactions)
      (recordedVariants interactions - admittedOf filter source interactions) := by
  induction interactions generalizing tally with
  | nil =>
    simp only [verifyInteractions, Option.some.injEq, Prod.mk.injEq] at h
    obtain ⟨rfl, -⟩ := h
    exact Advances.refl tally flow
  | cons interaction rest ih =>
    have hle := admittedOf_le filter source rest
    unfold verifyInteractions at h
    split_ifs at h with hadmits
    · have hnot : filter.admitsInteraction source interaction = false := by simpa using hadmits
      have hadvances := (advances_skip tally _).trans (ih h)
      have hcount : admittedOf filter source (interaction :: rest) = 0 + admittedOf filter source rest := by
        simp [admittedOf, hnot]
      have hskipped : recordedVariants (interaction :: rest) - admittedOf filter source (interaction :: rest) =
          interaction.variants.length + (recordedVariants rest - admittedOf filter source rest) := by
        rw [hcount]
        simp only [recordedVariants, List.map_cons, List.sum_cons] at hle ⊢
        omega
      rw [hskipped, hcount]
      exact hadvances
    · have hyes : filter.admitsInteraction source interaction = true := by simpa using hadmits
      cases hprepared : verifyPrepared world filter policy interaction.reference (pending || interaction.pending)
          interaction.variants tally with
      | none => simp [hprepared] at h
      | some p =>
        obtain ⟨middle, flow'⟩ := p
        have hmiddle := verifyPrepared_advances hprepared
        rw [hprepared] at h
        cases flow' with
        | «continue» =>
          have hadvances := hmiddle.trans (ih h)
          have hcount : admittedOf filter source (interaction :: rest) =
              interaction.variants.countP filter.admits + admittedOf filter source rest := by
            simp [admittedOf, hyes]
          have hskipped : recordedVariants (interaction :: rest) - admittedOf filter source (interaction :: rest) =
              (interaction.variants.countP fun id => !filter.admits id) +
                (recordedVariants rest - admittedOf filter source rest) := by
            have hlength := List.length_eq_countP_add_countP filter.admits (l := interaction.variants)
            simp only [Bool.not_eq_true, Bool.decide_eq_false] at hlength
            rw [hcount]
            simp only [recordedVariants, List.map_cons, List.sum_cons] at hle ⊢
            omega
          rw [hskipped, hcount]
          exact hadvances
        | abort a =>
          simp only [Option.some.injEq, Prod.mk.injEq] at h
          obtain ⟨rfl, rfl⟩ := h
          exact hmiddle.ended (by simp) _ _
        | stop =>
          simp only [Option.some.injEq, Prod.mk.injEq] at h
          obtain ⟨rfl, rfl⟩ := h
          exact hmiddle.ended (by simp) _ _

theorem resultsOf_eq {before new more : List Json} {skipped : Nat} {complete : Bool} :
    resultsOf ⟨before.length, (before ++ new).length, skipped, complete⟩ (before ++ new ++ more) = new := by
  rw [resultsOf, List.take_left, List.drop_left]

private theorem not_complete {first last skipped i : Nat} {r : SourceRun}
    (h : [(⟨first, last, skipped, false⟩ : SourceRun)][i]? = some r) : ¬r.complete = true := by
  obtain rfl := List.mem_singleton.1 (List.mem_of_getElem? h)
  exact Bool.false_ne_true

/-- A source the run got to the end of has a result for each variant the filter admits, and counts the others skipped. -/
private theorem verifySources_spec {sources : List (Source × Bool)} {tally last : Tally} {ran : List SourceRun}
    {flow : Flow} (h : verifySources world filter policy sources tally = some (last, ran, flow)) :
    (∃ new, last.results = tally.results ++ new) ∧ ∀ (i : Nat) (p : Source × Bool) (r : SourceRun),
        sources[i]? = some p → ran[i]? = some r → r.complete = true →
      (resultsOf r last.results).length = filter.admitted p.1 ∧ r.skipped = p.1.variants - filter.admitted p.1 := by
  induction sources generalizing tally ran with
  | nil =>
    simp only [verifySources, Option.some.injEq, Prod.mk.injEq] at h
    obtain ⟨rfl, -, -⟩ := h
    exact ⟨⟨[], (List.append_nil _).symm⟩, fun i p r hp => by simp at hp⟩
  | cons source rest ih =>
    unfold verifySources at h
    cases hsource : verifyInteractions world filter policy source.1 source.2 source.1.recorded tally with
    | none => simp [hsource] at h
    | some p =>
      obtain ⟨ended, flow'⟩ := p
      have hadvances := verifyInteractions_advances hsource
      obtain ⟨new, hnew, hlen⟩ := hadvances.results
      rw [hsource] at h
      cases flow' with
      | «continue» =>
        obtain ⟨⟨last', ran', flow''⟩, hrest, heq⟩ := Option.map_eq_some_iff.1 h
        simp only [Prod.mk.injEq] at heq
        obtain ⟨rfl, rfl, rfl⟩ := heq
        obtain ⟨⟨more, hmore⟩, hplaces⟩ := ih hrest
        refine ⟨⟨new ++ more, by rw [hmore, hnew, List.append_assoc]⟩, fun i p r hp hr hcomplete => ?_⟩
        cases i with
        | succ i => exact hplaces i p r (by simpa using hp) (by simpa using hr) hcomplete
        | zero =>
          obtain rfl : source = p := by simpa using hp
          obtain rfl := Option.some.inj ((List.getElem?_cons_zero ..).symm.trans hr)
          constructor
          · rw [hmore, hnew, resultsOf_eq]
            exact hlen rfl
          · show ended.skipped - tally.skipped = _
            rw [hadvances.skipped rfl, Nat.add_sub_cancel_left]
            rfl
      | abort a =>
        simp only [Option.some.injEq, Prod.mk.injEq] at h
        obtain ⟨rfl, rfl, rfl⟩ := h
        exact ⟨⟨new, hnew⟩, fun i p r _ hr hcomplete => absurd hcomplete (not_complete hr)⟩
      | stop =>
        simp only [Option.some.injEq, Prod.mk.injEq] at h
        obtain ⟨rfl, rfl, rfl⟩ := h
        exact ⟨⟨new, hnew⟩, fun i p r _ hr hcomplete => absurd hcomplete (not_complete hr)⟩

end Replaying

/-! What the entry of a source says. -/

/-- The run got to the end of the source, left out none of its variants, and verified each of them. -/
structure Whole (source : Source) (run : SourceRun) (results : List Json) : Prop where
  complete : run.complete = true
  nothingSkipped : run.skipped = 0
  everyVariant : (resultsOf run results).length = source.variants
  verified : ∀ payload ∈ resultsOf run results, Tally.isVerified payload = true

theorem admitted_of_not_narrowed {filter : Filter} {source : Source} (h : filter.narrows source = false) :
    filter.admitted source = source.variants := by
  have hle := admittedOf_le filter source source.recorded
  by_cases hset : filter.variants.isSome || filter.interactions.isSome
  · simp only [Filter.narrows, hset, Bool.true_and, decide_eq_false_iff_not, not_lt] at h
    exact le_antisymm hle h
  · have hnone : filter.variants = none ∧ filter.interactions = none := by simpa using hset
    have hinteraction : filter.admitsInteraction source = fun _ => true := by
      funext interaction
      simp [Filter.admitsInteraction, hnone]
    have hvariant : filter.admits = fun _ => true := by
      funext id
      simp [Filter.admits, hnone]
    simp [Filter.admitted, Source.variants, hinteraction, hvariant]

private theorem countP_verified {results : List Json}
    (h : results.length - results.countP Tally.isVerified - results.countP (holdsText "status" "state-unavailable") +
      results.countP (holdsText "status" "state-unavailable") = 0) :
    ∀ payload ∈ results, Tally.isVerified payload = true := by
  have hle := List.countP_le_length (p := Tally.isVerified) (l := results)
  rw [← List.countP_eq_length]
  omega

/-- The status an entry is written with. -/
def writtenStatus (entry : Json) : Option String := asStr (index "status" entry)

private theorem whole_of_status {filter : Filter} {source : Source} {run : Option SourceRun} {results : List Json}
    (h : writtenStatus (pairEntry source run (filter.narrows source) results) = some "verified")
    (hrun : ∀ r, run = some r → r.complete = true → (resultsOf r results).length = filter.admitted source ∧
      r.skipped = source.variants - filter.admitted source) :
    ∃ r, run = some r ∧ Whole source r results := by
  have hstatus : ∀ status variants, writtenStatus (.object [("consumer", .string source.consumer),
      ("provider", .string source.provider), ("status", .string status), ("variants", variants)]) = some status :=
    fun _ _ => rfl
  simp only [pairEntry, hstatus, Option.some.injEq] at h
  split_ifs at h with hfailed hcomplete hnarrowed
  · exact absurd h (by decide)
  · exact absurd h (by decide)
  · exact absurd h (by decide)
  · cases run with
    | none => simp at hcomplete
    | some r =>
      have hcomplete' : r.complete = true := by simpa using hcomplete
      obtain ⟨hlength, hskipped⟩ := hrun r rfl hcomplete'
      have hadmitted := admitted_of_not_narrowed (Bool.eq_false_iff.2 hnarrowed)
      exact ⟨r, rfl, hcomplete', by omega, by omega, countP_verified (Nat.eq_zero_of_not_pos hfailed)⟩

/-! What a decision reads from the summary. -/

/-- The decision takes the pair for verified: neither failed nor incomplete nor filtered. -/
def ReadsVerified (view : VerificationView) : Prop := view.status = .verified ∧ view.filtered ≠ some true

private theorem readsVerified_one (doc : Json) (consumer provider : String) :
    ReadsVerified (verificationFor [doc] consumer provider) ↔ covers doc consumer provider = true ∧
      standing consumer provider doc = .verified ∧ narrowedFor consumer provider doc = false := by
  have hworst : ∀ status, worstStatus .unknown status = status := by
    intro status
    cases status <;> rfl
  by_cases hcovers : covers doc consumer provider <;>
    simp [ReadsVerified, verificationFor, addSummary, hcovers, hworst]

private theorem pairsOf_named {doc : Json} {sources : List Source}
    (hconsumers : get "consumers" doc = some (names Source.consumer sources))
    (hproviders : get "providers" doc = some (names Source.provider sources)) :
    pairsOf doc = some (sources.map fun source => (source.consumer, source.provider)) := by
  rw [pairsOf, hconsumers, hproviders]
  simp only [Option.bind_some, names, listJson, asArray, Option.map_some, Option.getD_some, List.zip_map',
    List.filterMap_map]
  rw [← List.filterMap_eq_map]
  rfl

private theorem covers_named {doc : Json} {sources : List Source} {consumer provider : String}
    (hconsumers : get "consumers" doc = some (names Source.consumer sources))
    (hproviders : get "providers" doc = some (names Source.provider sources)) :
    covers doc consumer provider = true ↔ ∃ source ∈ sources, source.consumer = consumer ∧ source.provider = provider := by
  simp [covers, pairsOf_named hconsumers hproviders]

section Finished

variable {world : World} {filter : Filter} {sources : List (Source × Bool)} {fromBroker : Bool} {tally : Tally}
  {ran : List SourceRun} {flow : Flow}

private theorem summary_consumers : get "consumers" (summary world filter sources fromBroker tally ran flow) =
    some (names Source.consumer (sources.map Prod.fst)) := rfl

private theorem summary_providers : get "providers" (summary world filter sources fromBroker tally ran flow) =
    some (names Source.provider (sources.map Prod.fst)) := rfl

private theorem summary_entries : entriesOf (summary world filter sources fromBroker tally ran flow) =
    some ((sources.map Prod.fst).zipIdx.map fun p => pairEntry p.1 ran[p.2]? (filter.narrows p.1) tally.results) := by
  obtain ⟨replay, before, closes, hooks, publication⟩ := world
  cases fromBroker <;> cases publication <;> rfl

private theorem entry_status (source : Source) (run : Option SourceRun) (narrowed : Bool) (results : List Json) :
    writtenStatus (pairEntry source run narrowed results) ∈
      [some "failed", some "incomplete", some "filtered", some "verified"] := by
  have hstatus : ∀ status variants, writtenStatus (.object [("consumer", .string source.consumer),
      ("provider", .string source.provider), ("status", .string status), ("variants", variants)]) = some status :=
    fun _ _ => rfl
  simp only [pairEntry, hstatus]
  split_ifs <;> simp

private theorem entry_isOf {source : Source} {run : Option SourceRun} {narrowed : Bool} {results : List Json}
    {consumer provider : String} : isOf consumer provider (pairEntry source run narrowed results) = true ↔
      source.consumer = consumer ∧ source.provider = provider := by
  have hconsumer : asStr (index "consumer" (pairEntry source run narrowed results)) = some source.consumer := rfl
  have hprovider : asStr (index "provider" (pairEntry source run narrowed results)) = some source.provider := rfl
  simp [isOf, holdsText, hconsumer, hprovider]

/-- Where the summary of a run that ended is read as a verification of a pair, each source between the two was
replayed whole. -/
private theorem whole_of_read {consumer provider : String}
    (hplaces : ∀ (i : Nat) (p : Source × Bool) (r : SourceRun), sources[i]? = some p → ran[i]? = some r →
      r.complete = true → (resultsOf r tally.results).length = filter.admitted p.1 ∧
        r.skipped = p.1.variants - filter.admitted p.1)
    (h : ReadsVerified (verificationFor [summary world filter sources fromBroker tally ran flow] consumer provider))
    {i : Nat} {p : Source × Bool} (hp : sources[i]? = some p) (hconsumer : p.1.consumer = consumer)
    (hprovider : p.1.provider = provider) : ∃ r, ran[i]? = some r ∧ Whole p.1 r tally.results := by
  obtain ⟨-, hstanding, hnarrowed⟩ := (readsVerified_one _ _ _).1 h
  have hmine : mine consumer provider (summary world filter sources fromBroker tally ran flow) =
      some (((sources.map Prod.fst).zipIdx.map fun p => pairEntry p.1 ran[p.2]? (filter.narrows p.1) tally.results).filter
        (isOf consumer provider)) := by
    rw [mine, summary_entries]
    rfl
  have hentry : pairEntry p.1 ran[i]? (filter.narrows p.1) tally.results ∈
      ((sources.map Prod.fst).zipIdx.map fun p => pairEntry p.1 ran[p.2]? (filter.narrows p.1) tally.results).filter
        (isOf consumer provider) := by
    refine List.mem_filter.2 ⟨List.mem_map.2 ⟨(p.1, i), ?_, rfl⟩, entry_isOf.2 ⟨hconsumer, hprovider⟩⟩
    rw [List.mem_zipIdx_iff_getElem?, List.getElem?_map, hp]
    rfl
  have hfailing : ¬Attributed consumer provider (summary world filter sources fromBroker tally ran flow) := by
    rw [← failing_standing, hstanding]
    rintro (h | h) <;> exact nomatch h
  simp only [Attributed, hmine, not_exists, not_and, not_or] at hfailing
  simp only [narrowedFor, hmine, List.any_eq_false] at hnarrowed
  have hstatus := entry_status p.1 ran[i]? (filter.narrows p.1) tally.results
  obtain ⟨hfailed, hincomplete⟩ := hfailing _ hentry
  have hfiltered := hnarrowed _ hentry
  simp only [holdsText, beq_iff_eq] at hfailed hincomplete hfiltered
  simp only [writtenStatus, List.mem_cons, hfailed, hincomplete, hfiltered, List.not_mem_nil, false_or, or_false] at hstatus
  exact whole_of_status hstatus fun r hr hcomplete => hplaces i p r hp hr hcomplete

end Finished

private theorem run_places {world : World} {filter : Filter} {policy : RunPolicy} {sources : List (Source × Bool)}
    {tally : Tally} {ran : List SourceRun} {flow : Flow} (h : run world filter policy sources = some (tally, ran, flow)) :
    ∀ (i : Nat) (p : Source × Bool) (r : SourceRun), sources[i]? = some p → ran[i]? = some r → r.complete = true →
      (resultsOf r tally.results).length = filter.admitted p.1 ∧ r.skipped = p.1.variants - filter.admitted p.1 := by
  unfold run at h
  split at h
  · exact nomatch h
  · split_ifs at h
    simp only [Option.some.injEq, Prod.mk.injEq] at h
    obtain ⟨-, rfl, -⟩ := h
    exact fun i p r _ hr => by simp at hr
  · split at h
    · split_ifs at h
      rename_i hsources _
      obtain rfl := Option.some.inj h
      exact (verifySources_spec hsources).2
    · exact nomatch h

/-! The summary of a run that did not end. -/

private theorem crashed_read {sources : List Source} {filter : Filter} {error : Json} {consumer provider : String} :
    ReadsVerified (verificationFor [crashedDocument sources filter error] consumer provider) ↔
      (∃ source ∈ sources, source.consumer = consumer ∧ source.provider = provider) ∧
        ∀ source ∈ sources, filter.narrows source = false := by
  have hstanding : standing consumer provider (crashedDocument sources filter error) = .verified := rfl
  have hnarrowed : narrowedFor consumer provider (crashedDocument sources filter error) = sources.any filter.narrows := rfl
  rw [readsVerified_one, covers_named rfl rfl, hstanding, hnarrowed]
  simp [List.any_eq_false]

/-- A pair is read as verified only by a run that ended and replayed its sources whole, but for a run that panicked over
documents it was given, none of them narrowed by the filter. -/
theorem verified_only_by_a_whole_run (world : World) (filter : Filter) (policy : RunPolicy)
    (sources : List (Source × Bool)) (fromBroker : Bool) (error : Json) (consumer provider : String) :
    (ReadsVerified (verificationFor [finished world filter policy sources fromBroker error] consumer provider) →
        ∃ tally ran flow, run world filter policy sources = some (tally, ran, flow) ∧
          ∀ (i : Nat) (p : Source × Bool), sources[i]? = some p → p.1.consumer = consumer → p.1.provider = provider →
            ∃ r, ran[i]? = some r ∧ Whole p.1 r tally.results) ↔
      (run world filter policy sources = none → fromBroker = false →
        (∃ p ∈ sources, p.1.consumer = consumer ∧ p.1.provider = provider) → ∃ p ∈ sources, filter.narrows p.1 = true) := by
  cases hrun : run world filter policy sources with
  | some ended =>
    obtain ⟨tally, ran, flow⟩ := ended
    refine iff_of_true (fun hread => ⟨tally, ran, flow, rfl, ?_⟩) (fun h => nomatch h)
    intro i p hp hconsumer hprovider
    rw [finished, hrun] at hread
    exact whole_of_read (run_places hrun) hread hp hconsumer hprovider
  | none =>
    have hread : ReadsVerified (verificationFor [finished world filter policy sources fromBroker error] consumer provider) ↔
        fromBroker = false ∧ (∃ p ∈ sources, p.1.consumer = consumer ∧ p.1.provider = provider) ∧
          ¬∃ p ∈ sources, filter.narrows p.1 = true := by
      rw [finished, hrun]
      cases fromBroker with
      | true => simp [crashed_read]
      | false => simp [crashed_read]
    rw [hread]
    constructor
    · intro h _ hbroker hnamed
      by_contra hnarrowed
      obtain ⟨_, _, _, habsurd, -⟩ := h ⟨hbroker, hnamed, hnarrowed⟩
      exact nomatch habsurd
    · rintro h ⟨hbroker, hnamed, hnarrowed⟩
      exact absurd (h rfl hbroker hnamed) hnarrowed

private def order : Source := .legacy "web" "orders-api" "4.0" [⟨"get order", [], false, none⟩]

private def everything : Filter := ⟨none, none⟩

private def panics : World := ⟨fun _ _ _ => .panicked, some none, true, none, []⟩

/-- A run that panics at its first replay counts as a verification of the pair it names. -/
theorem panicked_run_reads_verified :
    run panics everything ⟨false⟩ [(order, false)] = none ∧
      ReadsVerified (verificationFor [finished panics everything ⟨false⟩ [(order, false)] false
        (.object [("code", .string "internal")])] "web" "orders-api") :=
  ⟨rfl, rfl, by decide⟩

end PactJanus.Verification.Reading
