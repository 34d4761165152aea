import PactJanus.Recording.Ordering
import PactJanus.Recording.Recorded
import PactJanus.Subsumption.Compare

namespace PactJanus.Recording.Reordering

open PactJanus.Data.Json PactJanus.Lib PactJanus.Lib.Lists PactJanus.Lib.SortedMap PactJanus.Shape.Model PactJanus.Plan.Result
  PactJanus.Subsumption.Compare PactJanus.Recording.Observe PactJanus.Recording.Emission PactJanus.Recording.Evidence
  PactJanus.Recording.Summary PactJanus.Recording.Spellings PactJanus.Recording.Ordering PactJanus.Recording.Recorded

/-! A provider shape does not depend on the order of the observations, but for how equal numbers are written. -/

/-- What one observation held in a slot of an interaction. -/
def heldAt (key : Key) (part slot : String) (observation : Observation) : List Json :=
  ((valueAt key part slot observation).map Value.json).toList

private theorem valuesAt_eq (key : Key) (part slot : String) (os : List Observation) :
    valuesAt key part slot os = os.flatMap (heldAt key part slot) := by
  rw [valuesAt, List.filterMap_eq_flatMap_toList]
  rfl

private theorem valuesAt_perm {os os' : List Observation} (h : os.Perm os') (key : Key) (part slot : String) :
    (valuesAt key part slot os).Perm (valuesAt key part slot os') := h.filterMap _

variable {provider : String} {policy : RecordingPolicy} {os os' : List Observation}

/-! The entries of a recorder. -/

private theorem nested_partShapes (policy : RecordingPolicy) {parts : List (String × List (String × Profile))}
    (h : Sorted parts) (hslots : ∀ part ∈ parts, Sorted part.2) : Nested (partShapes policy parts) := by
  constructor
  · exact List.Pairwise.filter _ (List.pairwise_map.2 h)
  · intro part hpart
    obtain ⟨hmem, hne⟩ := List.mem_filter.1 hpart
    obtain ⟨entry, hentry, rfl⟩ := List.mem_map.1 hmem
    refine ⟨(hslots entry hentry).filterMap fun slot => toShape policy slot.2, ?_⟩
    simpa using hne

/-- How many responses an interaction contributed. -/
private theorem observations_record (provider : String) (policy : RecordingPolicy) (os : List Observation) (key : Key) :
    (entryOf (record provider policy os).interactions key).map Observed.observations =
      if os.countP (fun observation => key = observation.key) = 0 then none
      else some (os.countP fun observation => key = observation.key) := by
  induction os using List.reverseRecOn with
  | nil => rfl
  | append_singleton os observation ih =>
    rw [record_append, interactions_observe, entryOf, lookup_update, ← entryOf, List.countP_append, List.countP_singleton]
    by_cases hkey : key = observation.key
    · simp only [hkey, decide_true, if_true, Option.map_some, Nat.add_eq_zero_iff, one_ne_zero, and_false, if_false]
      rw [hkey] at ih
      cases hentry : entryOf (record provider policy os).interactions observation.key with
      | none =>
        rw [hentry] at ih
        split_ifs at ih with hzero
        · rw [hzero]
          rfl
        · cases ih
      | some observed =>
        rw [hentry] at ih
        split_ifs at ih with hzero
        · cases ih
        · rw [← Option.some.inj ih]
          rfl
    · simp only [hkey, decide_false, if_false, Nat.add_zero, Bool.false_eq_true]
      exact ih

/-! The provider shape. -/

private theorem policy_record (provider : String) (policy : RecordingPolicy) (os : List Observation) :
    (record provider policy os).policy = policy ∧ (record provider policy os).provider = provider := by
  induction os using List.reverseRecOn with
  | nil => exact ⟨rfl, rfl⟩
  | append_singleton os observation ih =>
    rw [record_append]
    exact ih

/-- An interaction as it is written, from what an entry is emitted as. -/
private def interactionOf (entry : Key × Nat × List (String × List (String × ShapeNode))) : ProviderInteraction :=
  { description := (ofLex entry.1).1
    states := if (ofLex entry.1).2.isEmpty then none else some (ofLex entry.1).2
    observations := entry.2.1
    parts := entry.2.2 }

private def emitted (policy : RecordingPolicy) (observed : Observed) : Nat × List (String × List (String × ShapeNode)) :=
  (observed.observations, partShapes policy observed.parts)

private theorem finish_eq (provider : String) (policy : RecordingPolicy) (os : List Observation) :
    finish (record provider policy os) =
      ⟨"janus-provider-shape/1", provider, "recorded",
        ((record provider policy os).interactions.map fun entry => (entry.1, emitted policy entry.2)).map interactionOf⟩ := by
  obtain ⟨hpolicy, hprovider⟩ := policy_record provider policy os
  rw [finish, hpolicy, hprovider, List.map_map]
  rfl

/-- The shape of each slot is the same in two orders of the observations. -/
def SlotsAlike (policy : RecordingPolicy) (os os' : List Observation) : Prop :=
  ∀ key part slot, toShape policy (evidence (valuesAt key part slot os')) = toShape policy (evidence (valuesAt key part slot os))

private theorem profiles_perm (hperm : os.Perm os') (hslots : SlotsAlike policy os os') (key : Key) (part slot : String)
    (S : ShapeNode) :
    (∃ profile, profileAt (record provider policy os').interactions key part slot = some profile ∧
        toShape policy profile = some S) ↔
      ∃ profile, profileAt (record provider policy os).interactions key part slot = some profile ∧
        toShape policy profile = some S := by
  have hnil := nil_iff (valuesAt_perm hperm key part slot)
  rw [profileAt_record, profileAt_record]
  by_cases hempty : valuesAt key part slot os = []
  · rw [if_pos hempty, if_pos (hnil.1 hempty)]
  · rw [if_neg hempty, if_neg (mt hnil.2 hempty)]
    simp only [Option.some.injEq, exists_eq_left', hslots key part slot]

private theorem entry_perm (hperm : os.Perm os') (hslots : SlotsAlike policy os os') {key : Key} {observed : Observed}
    (hentry : entryOf (record provider policy os).interactions key = some observed) :
    ∃ observed', entryOf (record provider policy os').interactions key = some observed' ∧
      emitted policy observed' = emitted policy observed := by
  have hos := ordered_record provider policy os
  have hos' := ordered_record provider policy os'
  have hcount := observations_record provider policy os' key
  rw [← hperm.countP_eq, ← observations_record provider policy os key, hentry, Option.map_some] at hcount
  obtain ⟨observed', hentry', hobservations⟩ := Option.map_eq_some_iff.1 hcount
  obtain ⟨hparts, hinner⟩ := hos.parts _ (mem_of_lookup hentry)
  obtain ⟨hparts', hinner'⟩ := hos'.parts _ (mem_of_lookup hentry')
  have hshapes : partShapes policy observed'.parts = partShapes policy observed.parts := by
    apply (nested_partShapes policy hparts' hinner').ext (nested_partShapes policy hparts hinner)
    intro part item
    rw [mem_entryShapes hos' hentry', mem_entryShapes hos hentry]
    exact profiles_perm hperm hslots key part item.1 item.2
  exact ⟨observed', hentry', Prod.ext hobservations hshapes⟩

private theorem mem_emitted (hperm : os.Perm os') (hslots : SlotsAlike policy os os')
    {entry : Key × Nat × List (String × List (String × ShapeNode))}
    (h : entry ∈ (record provider policy os).interactions.map fun entry => (entry.1, emitted policy entry.2)) :
    entry ∈ (record provider policy os').interactions.map fun entry => (entry.1, emitted policy entry.2) := by
  obtain ⟨⟨key, observed⟩, hmem, rfl⟩ := List.mem_map.1 h
  obtain ⟨observed', hentry', hemitted⟩ :=
    entry_perm hperm hslots (lookup_of_mem (ordered_record provider policy os).interactions.nodup hmem)
  exact List.mem_map.2 ⟨(key, observed'), mem_of_lookup hentry', Prod.ext rfl hemitted⟩

/-- Two orders of the observations emit one provider shape where each slot has one shape in them. -/
private theorem finish_perm (hperm : os.Perm os') (hslots : SlotsAlike policy os os') :
    finish (record provider policy os') = finish (record provider policy os) := by
  have hsorted {recorder : Recorder} (h : Ordered recorder) :
      Sorted (recorder.interactions.map fun entry => (entry.1, emitted policy entry.2)) := List.pairwise_map.2 h.interactions
  have hslots' : SlotsAlike policy os' os := fun key part slot => (hslots key part slot).symm
  have hentries := (hsorted (ordered_record provider policy os')).ext_mem (hsorted (ordered_record provider policy os))
    fun entry => ⟨mem_emitted hperm.symm hslots', mem_emitted hperm hslots⟩
  rw [finish_eq, finish_eq, hentries]

/-- What two orders of the observations emit is one provider shape, and compares alike with every consumer's. -/
structure EmittedAlike (shape other : ProviderShape) : Prop where
  shapes : shape = other
  verdicts : ∀ key part slot S T, Emits shape key part slot S → Emits other key part slot T →
    ∀ libraries consumer at', compare libraries S consumer at' = compare libraries T consumer at'

private theorem emits_unique {key : Key} {part slot : String} {S T : ShapeNode}
    (hS : Emits (finish (record provider policy os)) key part slot S)
    (hT : Emits (finish (record provider policy os)) key part slot T) : S = T :=
  Option.some.inj (((emits_record _ _ _ _ _ _ _).1 hS).2.symm.trans ((emits_record _ _ _ _ _ _ _).1 hT).2)

private theorem slot_of_finish (hperm : os.Perm os')
    (h : finish (record provider policy os') = finish (record provider policy os)) : SlotsAlike policy os os' := by
  intro key part slot
  have hnil := nil_iff (valuesAt_perm hperm key part slot)
  by_cases hempty : valuesAt key part slot os = []
  · rw [hempty, hnil.1 hempty]
  · obtain ⟨S, hS, -⟩ := describes_evidence policy (fun v hv => (mem_valuesAt hv).1) hempty
    have hemits := (emits_record provider policy os key part slot S).2 ⟨hempty, hS⟩
    rw [← h] at hemits
    rw [hS, ((emits_record _ _ _ _ _ _ _).1 hemits).2]

/-- The order of the observations decides nothing that is emitted where, and only where, in every scalar position the
literals that are written are first held written alike by all the observations that hold them. -/
theorem reordered_alike_iff (provider : String) (policy : RecordingPolicy) (os : List Observation) :
    (∀ os₁ os₂, os₁.Perm os → os₂.Perm os →
        EmittedAlike (finish (record provider policy os₁)) (finish (record provider policy os₂))) ↔
      ∀ key part slot g, Reaches os (heldAt key part slot) g → WrittenAlike policy os g := by
  have hdistinct (key : Key) (part slot : String) : ∀ v ∈ os.flatMap (heldAt key part slot), distinctKeys v = true := by
    rw [← valuesAt_eq]
    exact fun v hv => (mem_valuesAt hv).1
  constructor
  · intro h key part slot g hreaches
    refine alike_of_toShape (hdistinct key part slot) (fun os' hperm => ?_) hreaches
    have hslot := slot_of_finish hperm (h os' os hperm.symm (List.Perm.refl os)).shapes key part slot
    rwa [valuesAt_eq, valuesAt_eq] at hslot
  · intro halike os₁ os₂ h₁ h₂
    have hslots (os' : List Observation) (hperm : os'.Perm os) : SlotsAlike policy os os' := by
      intro key part slot
      rw [valuesAt_eq, valuesAt_eq]
      exact toShape_perm hperm.symm (hdistinct key part slot) (halike key part slot)
    have hsame : finish (record provider policy os₁) = finish (record provider policy os₂) :=
      (finish_perm h₁.symm (hslots os₁ h₁)).trans (finish_perm h₂.symm (hslots os₂ h₂)).symm
    refine ⟨hsame, fun key part slot S T hS hT libraries consumer at' => ?_⟩
    rw [← hsame] at hT
    rw [emits_unique hS hT]

private def seen (n : Number) : Observation :=
  { description := "a reading"
    states := []
    parts := [("response", [("body", ⟨.number n, rfl, rfl⟩)])]
    partsDistinct := by simp
    slotsDistinct := by simp }

private def exactly (n : Number) : ShapeNode := withExample .equality (some (.number n))

private theorem emits_seen (m n : Number) (S : ShapeNode)
    (h : toShape ⟨8, 3⟩ (evidence [.number m, .number n]) = some S) :
    Emits (finish (record "readings" ⟨8, 3⟩ [seen m, seen n])) (toLex ("a reading", [])) "response" "body" S := by
  rw [emits_record]
  exact ⟨List.cons_ne_nil _ _, h⟩

/-- A recorder that saw `0` and `0.0` in one slot keeps the first of them, and a consumer of integers takes one of the two. -/
theorem zeros_recorded_first :
    ∃ S T, Emits (finish (record "readings" ⟨8, 3⟩ [seen (.posInt 0), seen (.float (Binary64.zero false))]))
        (toLex ("a reading", [])) "response" "body" S ∧
      Emits (finish (record "readings" ⟨8, 3⟩ [seen (.float (Binary64.zero false)), seen (.posInt 0)]))
        (toLex ("a reading", [])) "response" "body" T ∧
      S ≠ T ∧ ∀ libraries at', (compare libraries S (.of (.kind .integer)) at').1 = .yes ∧
        (compare libraries T (.of (.kind .integer)) at').1 = .no := by
  refine ⟨exactly (.posInt 0), exactly (.float (Binary64.zero false)), emits_seen _ _ _ rfl, emits_seen _ _ _ rfl, ?_, ?_⟩
  · intro h
    injection h with hexample
    injection hexample with hexample
    injection hexample with hvalue
    injection hvalue with hnumber
    exact nomatch hnumber
  · exact fun libraries at' => ⟨rfl, rfl⟩

end PactJanus.Recording.Reordering
