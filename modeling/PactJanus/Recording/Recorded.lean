import PactJanus.Plan.Correctness
import PactJanus.Recording.Soundness

namespace PactJanus.Recording.Recorded

open PactJanus.Data.Json PactJanus.Lib PactJanus.Lib.Lists PactJanus.Lib.SortedMap PactJanus.Shape.Model PactJanus.Shape.Valid
  PactJanus.Shape.Admits PactJanus.Plan.Value PactJanus.Plan.Outcome PactJanus.Plan.Documents PactJanus.Plan.Correctness
  PactJanus.Plan.Verdict PactJanus.Recording.Observe PactJanus.Recording.Emission PactJanus.Recording.Evidence
  PactJanus.Recording.Summary PactJanus.Recording.Literals PactJanus.Recording.Soundness

/-! What a recorder emits for a slot is the shape of the values it was shown there. -/

/-! A fold of updates is one update a key. -/

section Updates

section Lookup

variable {κ α β : Type} [DecidableEq κ] [LT κ] [DecidableLT κ] {default : α} {f : β → α → α}

private def updates (default : α) (f : β → α → α) (items : List (κ × β)) (map : List (κ × α)) : List (κ × α) :=
  items.foldl (fun map item => update default (f item.2) map item.1) map

theorem lookup_update (map : List (κ × α)) (key k : κ) (g : α → α) :
    (update default g map key).lookup k = if k = key then some (g ((map.lookup key).getD default)) else map.lookup k :=
  lookup_insert ..

private theorem lookup_updates {items : List (κ × β)} (hd : (items.map Prod.fst).Nodup) (map : List (κ × α)) (k : κ) :
    (updates default f items map).lookup k = match items.lookup k with
      | some v => some (f v ((map.lookup k).getD default))
      | none => map.lookup k := by
  induction items generalizing map with
  | nil => rfl
  | cons item rest ih =>
    obtain ⟨key, v⟩ := item
    obtain ⟨hfresh, hd⟩ := List.nodup_cons.1 hd
    have hrest := ih hd (update default (f v) map key)
    rw [lookup_update] at hrest
    rw [updates, List.foldl_cons, ← updates, hrest, lookup_cons_ite]
    by_cases hkey : k = key
    · subst hkey
      rw [if_pos rfl, if_pos rfl, lookup_eq_none_iff_notMem.2 hfresh]
    · rw [if_neg hkey, if_neg hkey]

end Lookup

variable {κ α β : Type} [LinearOrder κ] {default : α} {f : β → α → α}

private theorem sorted_update {map : List (κ × α)} (h : Sorted map) (key : κ) (g : α → α) : Sorted (update default g map key) :=
  h.insert _ _

private theorem sorted_updates (items : List (κ × β)) {map : List (κ × α)} (h : Sorted map) :
    Sorted (updates default f items map) := by
  induction items generalizing map with
  | nil => exact h
  | cons item rest ih => exact ih (h.insert _ _)

private theorem forall_updates {P : α → Prop} (hdefault : P default) (hf : ∀ v a, P a → P (f v a)) (items : List (κ × β))
    {map : List (κ × α)} (h : ∀ entry ∈ map, P entry.2) : ∀ entry ∈ updates default f items map, P entry.2 := by
  induction items generalizing map with
  | nil => exact h
  | cons item rest ih =>
    refine ih fun entry hentry => ?_
    rcases mem_of_mem_insert hentry with rfl | hentry
    · refine hf _ _ ?_
      cases hlookup : map.lookup item.1 with
      | none => exact hdefault
      | some a => exact h _ (mem_of_lookup hlookup)
    · exact h entry hentry

end Updates

/-- The recorder of a provider that was shown some responses. -/
def record (provider : String) (policy : RecordingPolicy) (observations : List Observation) : Recorder :=
  observations.foldl Recorder.observe ⟨provider, policy, []⟩

/-- The value a response has in a slot of an interaction. -/
def valueAt (key : Key) (part slot : String) (observation : Observation) : Option Value :=
  if key = observation.key then (observation.parts.lookup part).bind fun slots => slots.lookup slot else none

/-- The values seen in a slot of an interaction. -/
def valuesAt (key : Key) (part slot : String) (observations : List Observation) : List Json :=
  observations.filterMap fun observation => (valueAt key part slot observation).map Value.json

/-- What a map has under a key. -/
def entryOf {κ α : Type} [DecidableEq κ] (map : List (κ × α)) (key : κ) : Option α := map.lookup key

def profileAt (interactions : List (Key × Observed)) (key : Key) (part slot : String) : Option Profile :=
  ((entryOf interactions key).bind fun observed => observed.parts.lookup part).bind fun slots => slots.lookup slot

section Recording

private theorem observeSlots_eq (slots : List (String × Value)) (recorded : List (String × Profile)) :
    observeSlots slots recorded = updates Profile.empty (fun value : Value => observe value.json) slots recorded := rfl

private theorem observeParts_eq (parts : List (String × List (String × Value))) (recorded : List (String × List (String × Profile))) :
    observeParts parts recorded = updates [] observeSlots parts recorded := rfl

theorem interactions_observe (recorder : Recorder) (observation : Observation) :
    (recorder.observe observation).interactions = update ⟨[], 0⟩
      (fun observed => ⟨observeParts observation.parts observed.parts, observed.observations + 1⟩)
      recorder.interactions observation.key := rfl

theorem record_append (provider : String) (policy : RecordingPolicy) (observations : List Observation)
    (observation : Observation) :
    record provider policy (observations ++ [observation]) = (record provider policy observations).observe observation := by
  rw [record, List.foldl_append]
  rfl

private theorem profileAt_getD (interactions : List (Key × Observed)) (key : Key) (part slot : String) :
    (((entryOf interactions key).getD ⟨[], 0⟩).parts.lookup part).bind (fun slots => slots.lookup slot) =
      profileAt interactions key part slot := by
  rw [profileAt]
  cases entryOf interactions key <;> rfl

private theorem lookup_getD (slots : Option (List (String × Profile))) (slot : String) :
    (slots.getD []).lookup slot = slots.bind fun slots => slots.lookup slot := by cases slots <;> rfl

/-- A response adds its value to the evidence of each of its slots. -/
private theorem profileAt_observe (recorder : Recorder) (observation : Observation) (key : Key) (part slot : String) :
    profileAt (recorder.observe observation).interactions key part slot =
      match valueAt key part slot observation with
      | some value => some (observe value.json ((profileAt recorder.interactions key part slot).getD Profile.empty))
      | none => profileAt recorder.interactions key part slot := by
  rw [profileAt, interactions_observe, entryOf, lookup_update, valueAt, ← entryOf]
  by_cases hkey : key = observation.key
  · rw [if_pos hkey, if_pos hkey, Option.bind_some, observeParts_eq, lookup_updates observation.partsDistinct, ← hkey]
    cases hpart : observation.parts.lookup part with
    | none => exact profileAt_getD ..
    | some slots =>
      have hslots := observation.slotsDistinct _ (mem_of_lookup hpart)
      simp only [Option.bind_some]
      rw [observeSlots_eq, lookup_updates hslots, lookup_getD, profileAt_getD]
      cases slots.lookup slot <;> rfl
  · rw [if_neg hkey, if_neg hkey]
    rfl

/-- The evidence of a slot is that of the values seen in it. -/
theorem profileAt_record (provider : String) (policy : RecordingPolicy) (observations : List Observation) (key : Key)
    (part slot : String) :
    profileAt (record provider policy observations).interactions key part slot =
      if valuesAt key part slot observations = [] then none else some (evidence (valuesAt key part slot observations)) := by
  induction observations using List.reverseRecOn with
  | nil => rfl
  | append_singleton observations observation ih =>
    rw [record_append, profileAt_observe, ih]
    cases hvalue : valueAt key part slot observation with
    | none =>
      have hvalues : valuesAt key part slot (observations ++ [observation]) = valuesAt key part slot observations := by
        simp [valuesAt, hvalue]
      rw [hvalues]
    | some value =>
      have hvalues : valuesAt key part slot (observations ++ [observation]) =
          valuesAt key part slot observations ++ [value.json] := by
        simp [valuesAt, hvalue]
      have hne : valuesAt key part slot observations ++ [value.json] ≠ [] :=
        List.append_ne_nil_of_right_ne_nil _ (List.cons_ne_nil _ [])
      rw [hvalues, if_neg hne, evidence_append]
      split_ifs with hempty
      · rw [hempty]
        rfl
      · rfl

/-- The keys of everything recorded are in order. -/
structure Ordered (recorder : Recorder) : Prop where
  interactions : Sorted recorder.interactions
  parts : ∀ entry ∈ recorder.interactions, Sorted entry.2.parts ∧ ∀ part ∈ entry.2.parts, Sorted part.2

theorem ordered_record (provider : String) (policy : RecordingPolicy) (observations : List Observation) :
    Ordered (record provider policy observations) := by
  induction observations using List.reverseRecOn with
  | nil => exact ⟨List.Pairwise.nil, fun _ h => nomatch h⟩
  | append_singleton observations observation ih =>
    rw [record_append]
    refine ⟨?_, fun entry hentry => ?_⟩
    · rw [interactions_observe]
      convert sorted_update ih.interactions observation.key _ using 2
      rfl
    rw [interactions_observe] at hentry
    rcases mem_of_mem_insert hentry with rfl | hentry
    · have hbefore : ∀ observed : Option Observed, (∀ o ∈ observed, Sorted o.parts ∧ ∀ part ∈ o.parts, Sorted part.2) →
          Sorted (observed.getD ⟨[], 0⟩).parts ∧ ∀ part ∈ (observed.getD ⟨[], 0⟩).parts, Sorted part.2 := by
        rintro (_ | observed) h
        · exact ⟨List.Pairwise.nil, fun _ h => nomatch h⟩
        · exact h observed rfl
      obtain ⟨hparts, hslots⟩ := hbefore _ fun o ho => ih.parts _ (mem_of_lookup ho)
      refine ⟨sorted_updates _ hparts, forall_updates ?_ (fun slots _ h => ?_) _ hslots⟩
      · exact List.Pairwise.nil
      · rw [observeSlots_eq]
        exact sorted_updates slots h
    · exact ih.parts entry hentry

/-- A provider shape says what is in a slot of an interaction. -/
def Emits (shape : ProviderShape) (key : Key) (part slot : String) (S : ShapeNode) : Prop :=
  ∃ interaction ∈ shape.interactions, toLex (interaction.description, interaction.states.getD []) = key ∧
    ∃ slots, (part, slots) ∈ interaction.parts ∧ (slot, S) ∈ slots

private theorem mem_slotShapes {policy : RecordingPolicy} {slots : List (String × Profile)} {slot : String} {S : ShapeNode} :
    (slot, S) ∈ slotShapes policy slots ↔ ∃ profile, (slot, profile) ∈ slots ∧ toShape policy profile = some S := by
  rw [slotShapes, List.mem_filterMap]
  constructor
  · rintro ⟨⟨name, profile⟩, hmem, hshape⟩
    obtain ⟨T, hT, hpair⟩ := Option.map_eq_some_iff.1 hshape
    obtain ⟨rfl, rfl⟩ := Prod.mk.inj hpair
    exact ⟨profile, hmem, hT⟩
  · rintro ⟨profile, hmem, hshape⟩
    exact ⟨(slot, profile), hmem, by simp only [hshape, Option.map_some]⟩

theorem mem_partShapes {policy : RecordingPolicy} {parts : List (String × List (String × Profile))} {part slot : String}
    {S : ShapeNode} :
    (∃ slots, (part, slots) ∈ partShapes policy parts ∧ (slot, S) ∈ slots) ↔
      ∃ profiles, (part, profiles) ∈ parts ∧ ∃ profile, (slot, profile) ∈ profiles ∧ toShape policy profile = some S := by
  constructor
  · rintro ⟨slots, hslots, hS⟩
    obtain ⟨⟨name, profiles⟩, hmem, hpair⟩ := List.mem_map.1 (List.mem_filter.1 hslots).1
    obtain ⟨rfl, rfl⟩ := Prod.mk.inj hpair
    exact ⟨profiles, hmem, mem_slotShapes.1 hS⟩
  · rintro ⟨profiles, hmem, hprofile⟩
    have hS := mem_slotShapes.2 hprofile
    refine ⟨slotShapes policy profiles, List.mem_filter.2 ⟨List.mem_map.2 ⟨_, hmem, rfl⟩, ?_⟩, hS⟩
    rw [Bool.not_eq_true', List.isEmpty_eq_false_iff]
    exact List.ne_nil_of_mem hS

/-- What an entry's parts are emitted as, by the profiles of its slots. -/
theorem mem_entryShapes {recorder : Recorder} (h : Ordered recorder) {policy : RecordingPolicy} {key : Key} {observed : Observed}
    (hentry : entryOf recorder.interactions key = some observed) {part slot : String} {S : ShapeNode} :
    (∃ slots, (part, slots) ∈ partShapes policy observed.parts ∧ (slot, S) ∈ slots) ↔
      ∃ profile, profileAt recorder.interactions key part slot = some profile ∧ toShape policy profile = some S := by
  obtain ⟨hsorted, hslots⟩ := h.parts _ (mem_of_lookup hentry)
  rw [mem_partShapes, profileAt, hentry, Option.bind_some]
  constructor
  · rintro ⟨profiles, hprofiles, profile, hprofile, hshape⟩
    rw [lookup_of_mem hsorted.nodup hprofiles]
    exact ⟨profile, lookup_of_mem (hslots _ hprofiles).nodup hprofile, hshape⟩
  · rintro ⟨profile, hprofile, hshape⟩
    obtain ⟨profiles, hpart, hslot⟩ := Option.bind_eq_some_iff.1 hprofile
    exact ⟨profiles, mem_of_lookup hpart, profile, mem_of_lookup hslot, hshape⟩

private theorem states_eq (states : List String) : (if states.isEmpty then none else some states).getD [] = states := by
  cases states <;> rfl

private theorem emits_iff {recorder : Recorder} (h : Ordered recorder) {key : Key} {part slot : String} {S : ShapeNode} :
    Emits (finish recorder) key part slot S ↔
      ∃ profile, profileAt recorder.interactions key part slot = some profile ∧ toShape recorder.policy profile = some S := by
  constructor
  · rintro ⟨interaction, hmem, hkey, hparts⟩
    obtain ⟨⟨k, observed⟩, hentry, rfl⟩ := List.mem_map.1 hmem
    obtain rfl : k = key := by
      rw [← hkey]
      exact congrArg (fun states => toLex ((ofLex k).1, states)) (states_eq _).symm
    exact (mem_entryShapes h (lookup_of_mem h.interactions.nodup hentry)).1 hparts
  · intro hprofile
    obtain ⟨profile, hat, -⟩ := id hprofile
    obtain ⟨profiles, hprofiles, -⟩ := Option.bind_eq_some_iff.1 hat
    obtain ⟨observed, hobserved, -⟩ := Option.bind_eq_some_iff.1 hprofiles
    refine ⟨_, List.mem_map.2 ⟨(key, observed), mem_of_lookup hobserved, rfl⟩, ?_, ?_⟩
    · exact congrArg (fun states => toLex ((ofLex key).1, states)) (states_eq _)
    · exact (mem_entryShapes h hobserved).2 hprofile

end Recording

/-- The values of a slot are recorded in a shape the engine reads. -/
structure Recordable (policy : RecordingPolicy) (vs : List Json) : Prop where
  zerosApart : ∀ ws, Position vs ws → ¬ZerosTogether policy ws
  nodes : nodesFor vs ≤ maxNodes
  levels : levelsFor vs ≤ maxDepth

theorem mem_valuesAt {key : Key} {part slot : String} {observations : List Observation} {v : Json}
    (h : v ∈ valuesAt key part slot observations) : distinctKeys v = true ∧ countable v = true := by
  obtain ⟨observation, -, hvalue⟩ := List.mem_filterMap.1 h
  obtain ⟨value, -, rfl⟩ := Option.map_eq_some_iff.1 hvalue
  exact ⟨value.distinct, value.counts⟩

/-- A slot is described where a value was seen in it. -/
theorem emits_record (provider : String) (policy : RecordingPolicy) (observations : List Observation) (key : Key)
    (part slot : String) (S : ShapeNode) :
    Emits (finish (record provider policy observations)) key part slot S ↔
      valuesAt key part slot observations ≠ [] ∧ toShape policy (evidence (valuesAt key part slot observations)) = some S := by
  have hpolicy : (record provider policy observations).policy = policy := by
    induction observations using List.reverseRecOn with
    | nil => rfl
    | append_singleton observations observation ih =>
      rw [record_append]
      exact ih
  rw [emits_iff (ordered_record provider policy observations), profileAt_record, hpolicy]
  split_ifs with hempty
  · simp [hempty]
  · simp [hempty]

/-- A shape of some values is one the engine reads exactly where the values are recordable. -/
private theorem wellFormed_iff_recordable {policy : RecordingPolicy} {vs : List Json} {S : ShapeNode} (h : Describes policy vs S) :
    WellFormed S ↔ Recordable policy vs := by
  constructor
  · intro hS
    exact ⟨(wellFormed_of_describes h).1 hS.tree, nodeCount_of_describes h ▸ hS.nodes, depth_of_describes h ▸ hS.depth⟩
  · intro hvs
    refine ⟨(wellFormed_of_describes h).2 hvs.zerosApart, present_of_describes h, ?_, ?_⟩
    · exact nodeCount_of_describes h ▸ hvs.nodes
    · exact depth_of_describes h ▸ hvs.levels

private theorem recordable_nil (policy : RecordingPolicy) : Recordable policy [] := by
  refine ⟨no_zeros_of_nothing, ?_, ?_⟩
  · rw [nodesFor_nil]
    decide
  · rw [levelsFor_nil]
    decide

/-- Every shape a recorder emits is one the engine reads, and matches every value it was made from, exactly where no
position kept as literals saw both zeros and no slot's values are too many or too deep. -/
theorem recorded_shapes_hold (provider : String) (policy : RecordingPolicy) (observations : List Observation) (place : Slot)
    (env : Env) :
    (∀ key part slot S, Emits (finish (record provider policy observations)) key part slot S →
        WellFormed S ∧ ∀ v ∈ valuesAt key part slot observations, place.verdict env S [] (fromJson v) = .matched) ↔
      ∀ key part slot, Recordable policy (valuesAt key part slot observations) := by
  constructor
  · intro hshapes key part slot
    by_cases hempty : valuesAt key part slot observations = []
    · rw [hempty]
      exact recordable_nil policy
    · obtain ⟨S, hS, hdescribes⟩ := describes_evidence policy (fun v hv => (mem_valuesAt hv).1) hempty
      have hemits := (emits_record provider policy observations key part slot S).2 ⟨hempty, hS⟩
      exact (wellFormed_iff_recordable hdescribes).1 (hshapes key part slot S hemits).1
  · intro hrecordable key part slot S hemits
    obtain ⟨hne, hS⟩ := (emits_record provider policy observations key part slot S).1 hemits
    obtain ⟨T, hT, hdescribes⟩ := describes_evidence policy (fun v hv => (mem_valuesAt hv).1) hne
    obtain rfl := Option.some.inj (hS.symm.trans hT)
    have hvalid := (wellFormed_iff_recordable hdescribes).2 (hrecordable key part slot)
    refine ⟨hvalid, fun v hv => ?_⟩
    rw [matched_iff_admits hvalid.tree (described_of_describes hdescribes) (mem_valuesAt hv).1]
    exact admits_of_describes hdescribes (fun w hw => (mem_valuesAt hw).2) (fun w hw => (mem_valuesAt hw).1) hv

private def zeroSeen (negative : Bool) : Observation :=
  { description := "a reading"
    states := []
    parts := [("response", [("body", ⟨.number (.float (Binary64.zero negative)), rfl, rfl⟩)])]
    partsDistinct := by simp
    slotsDistinct := by simp }

/-- A recorder that saw `0.0` and `-0.0` in one slot keeps them as two options of a set, which has them equal. -/
theorem zeros_recorded_apart :
    ∃ S, Emits (finish (record "readings" ⟨8, 3⟩ [zeroSeen false, zeroSeen true])) (toLex ("a reading", [])) "response" "body" S ∧
      ¬WellFormed S := by
  have hvalues : valuesAt (toLex ("a reading", [])) "response" "body" [zeroSeen false, zeroSeen true] =
      [.number (.float (Binary64.zero false)), .number (.float (Binary64.zero true))] := rfl
  obtain ⟨S, hS, hdescribes⟩ := describes_evidence ⟨8, 3⟩ (fun v hv => (mem_valuesAt hv).1)
    (show valuesAt (toLex ("a reading", [])) "response" "body" [zeroSeen false, zeroSeen true] ≠ [] by simp [hvalues])
  refine ⟨S, (emits_record _ _ _ _ _ _ _).2 ⟨by simp [hvalues], hS⟩, fun hvalid => ?_⟩
  refine (wellFormed_of_describes hdescribes).1 hvalid.tree _ (.here _) ?_
  rw [hvalues]
  exact ⟨rfl, ⟨by decide, by decide⟩, by decide, by decide⟩

end PactJanus.Recording.Recorded
