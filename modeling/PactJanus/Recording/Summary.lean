import Mathlib.Algebra.BigOperators.Group.Finset.Basic
import Mathlib.Data.Finset.Lattice.Fold
import Mathlib.Order.Lattice.Nat
import PactJanus.Recording.Emission
import PactJanus.Recording.Evidence

namespace PactJanus.Recording.Summary

open PactJanus.Data.Json PactJanus.Data.Equality PactJanus.Lib PactJanus.Lib.Lists PactJanus.Shape.Model PactJanus.Recording.Observe
  PactJanus.Recording.Emission PactJanus.Recording.Evidence

/-! What a recorded shape says of the values it was made from, without the counting. -/

/-- The scalars among some values. -/
def scalarsIn (vs : List Json) : List Json := vs.filter isScalar

/-- What some values are, `null` apart. -/
inductive Held where
  | nulls | scalars | objects | lists | mixed
deriving DecidableEq

def held (vs : List Json) : Held :=
  match objectsIn vs, arraysIn vs, scalarsIn vs with
  | [], [], [] => .nulls
  | [], [], _ :: _ => .scalars
  | _ :: _, [], [] => .objects
  | [], _ :: _, [] => .lists
  | _, _, _ => .mixed

theorem held_nulls {vs : List Json} : held vs = .nulls ↔ objectsIn vs = [] ∧ arraysIn vs = [] ∧ scalarsIn vs = [] := by
  unfold held
  cases objectsIn vs <;> cases arraysIn vs <;> cases scalarsIn vs <;> simp

theorem held_scalars {vs : List Json} : held vs = .scalars ↔ objectsIn vs = [] ∧ arraysIn vs = [] ∧ scalarsIn vs ≠ [] := by
  unfold held
  cases objectsIn vs <;> cases arraysIn vs <;> cases scalarsIn vs <;> simp

theorem held_objects {vs : List Json} : held vs = .objects ↔ objectsIn vs ≠ [] ∧ arraysIn vs = [] ∧ scalarsIn vs = [] := by
  unfold held
  cases objectsIn vs <;> cases arraysIn vs <;> cases scalarsIn vs <;> simp

theorem held_lists {vs : List Json} : held vs = .lists ↔ objectsIn vs = [] ∧ arraysIn vs ≠ [] ∧ scalarsIn vs = [] := by
  unfold held
  cases objectsIn vs <;> cases arraysIn vs <;> cases scalarsIn vs <;> simp

theorem held_mixed {vs : List Json} (h : held vs = .mixed) :
    1 < (decide (objectsIn vs ≠ [])).toNat + (decide (arraysIn vs ≠ [])).toNat + (decide (scalarsIn vs ≠ [])).toNat := by
  revert h
  unfold held
  cases objectsIn vs <;> cases arraysIn vs <;> cases scalarsIn vs <;> simp

/-- The elements of the lists among some values. -/
def elements (vs : List Json) : List Json := (arraysIn vs).flatten

/-- The values of a member of the objects among some values. -/
def valuesOf (name : String) (vs : List Json) : List Json := membersNamed name (objectsIn vs)

/-- The names of the members of the objects among some values. -/
def names (vs : List Json) : Finset String := ((objectsIn vs).flatMap fun object => object.map Prod.fst).toFinset

theorem mem_names {vs : List Json} {name : String} : name ∈ names vs ↔ valuesOf name vs ≠ [] := by
  simp only [names, valuesOf, membersNamed, List.mem_toFinset, List.mem_flatMap, ne_eq, List.filterMap_eq_nil_iff,
    not_forall, lookup_eq_none_iff_notMem, not_not, exists_prop]

/-- Whether values were seen both present and `null`. -/
def wraps (vs : List Json) : Bool := held vs != .nulls && vs.any isNull

/-- Whether an object was seen without the member. -/
def lacks (name : String) (vs : List Json) : Bool := decide ((valuesOf name vs).length < (objectsIn vs).length)

/-! Values get smaller on the way to a member and to an element. -/

private theorem sizeOf_of_lookup {members : List (String × Json)} {name : String} {v : Json} (h : members.lookup name = some v) :
    sizeOf v < sizeOf members := by
  have hmem := List.sizeOf_lt_of_mem (mem_of_lookup h)
  have hpair : sizeOf ((name, v) : String × Json) = 1 + sizeOf name + sizeOf v := rfl
  omega

private theorem sizeOf_valuesOf_le (name : String) (vs : List Json) :
    sizeOf (valuesOf name vs) + (objectsIn vs).length ≤ sizeOf vs := by
  induction vs with
  | nil => exact Nat.le_refl 1
  | cons v rest ih =>
    rw [List.cons.sizeOf_spec]
    cases v with
    | object members =>
      have hobjects : objectsIn (.object members :: rest) = members :: objectsIn rest := rfl
      rw [valuesOf, hobjects, List.length_cons, Json.object.sizeOf_spec]
      cases hfound : members.lookup name with
      | none =>
        have hnamed : membersNamed name (members :: objectsIn rest) = valuesOf name rest := by
          simp [membersNamed, hfound, valuesOf]
        rw [hnamed]
        omega
      | some w =>
        have hnamed : membersNamed name (members :: objectsIn rest) = w :: valuesOf name rest := by
          simp [membersNamed, hfound, valuesOf]
        have hsize := sizeOf_of_lookup hfound
        rw [hnamed, List.cons.sizeOf_spec]
        omega
    | _ => exact ih.trans (Nat.le_add_left _ _)

private theorem sizeOf_append_le (as bs : List Json) : sizeOf (as ++ bs) ≤ sizeOf as + sizeOf bs := by
  induction as with
  | nil => exact Nat.le_add_left _ _
  | cons a as ih =>
    rw [List.cons_append, List.cons.sizeOf_spec, List.cons.sizeOf_spec]
    omega

private theorem sizeOf_elements_le (vs : List Json) : sizeOf (elements vs) + (arraysIn vs).length ≤ sizeOf vs := by
  induction vs with
  | nil => exact Nat.le_refl 1
  | cons v rest ih =>
    rw [List.cons.sizeOf_spec]
    cases v with
    | array items =>
      have harrays : arraysIn (.array items :: rest) = items :: arraysIn rest := rfl
      have happend := sizeOf_append_le items (elements rest)
      rw [elements, harrays, List.flatten_cons, List.length_cons, Json.array.sizeOf_spec]
      rw [elements] at happend ih
      omega
    | _ => exact ih.trans (Nat.le_add_left _ _)

theorem sizeOf_valuesOf {vs : List Json} (h : held vs = .objects) (name : String) : sizeOf (valuesOf name vs) < sizeOf vs := by
  have hle := sizeOf_valuesOf_le name vs
  have hpos := List.length_pos_iff.2 (held_objects.1 h).1
  omega

theorem sizeOf_elements {vs : List Json} (h : held vs = .lists) : sizeOf (elements vs) < sizeOf vs := by
  have hle := sizeOf_elements_le vs
  have hpos := List.length_pos_iff.2 (held_lists.1 h).2.1
  omega

/-! The positions under some values. -/

/-- What a position under a value held, under the values of a position that is described by its parts. -/
inductive Position : List Json → List Json → Prop
  | here (vs : List Json) : Position vs vs
  | member {vs ws : List Json} (name : String) : held vs = .objects → Position (valuesOf name vs) ws → Position vs ws
  | element {vs ws : List Json} : held vs = .lists → Position (elements vs) ws → Position vs ws

/-- How many nodes describe some values. -/
def nodesFor (vs : List Json) : Nat :=
  (wraps vs).toNat + 1 +
    if _ : held vs = .objects then ∑ name ∈ names vs, ((lacks name vs).toNat + nodesFor (valuesOf name vs))
    else if _ : held vs = .lists then nodesFor (elements vs)
    else 0
termination_by sizeOf vs
decreasing_by
  · exact sizeOf_valuesOf ‹_› name
  · exact sizeOf_elements ‹_›

/-- How many nodes are above the lowest of the nodes that describe some values. -/
def levelsFor (vs : List Json) : Nat :=
  (wraps vs).toNat +
    if _ : held vs = .objects then (names vs).sup fun name => (lacks name vs).toNat + levelsFor (valuesOf name vs) + 1
    else if _ : held vs = .lists then levelsFor (elements vs) + 1
    else 0
termination_by sizeOf vs
decreasing_by
  · exact sizeOf_valuesOf ‹_› name
  · exact sizeOf_elements ‹_›

/-- Induction on values by the positions right under them. -/
theorem values_induction {motive : List Json → Prop}
    (step : ∀ vs, (held vs = .objects → ∀ name, motive (valuesOf name vs)) → (held vs = .lists → motive (elements vs)) →
      motive vs) (vs : List Json) : motive vs :=
  step vs (fun h name => have := sizeOf_valuesOf h name; values_induction step (valuesOf name vs))
    fun h => have := sizeOf_elements h; values_induction step (elements vs)
termination_by sizeOf vs

/-! The shape of some values. -/

def orNull (vs : List Json) (value : ShapeNode) : ShapeNode := if vs.any isNull then .of (.nullable value) else value

def orAbsent (vs : List Json) (member : String × ShapeNode) : String × ShapeNode :=
  (member.1, if lacks member.1 vs then .of (.optional member.2) else member.2)

/-- The shape of some values, by what the values are. -/
inductive Describes (policy : RecordingPolicy) : List Json → ShapeNode → Prop
  | nulls {vs : List Json} : vs ≠ [] → held vs = .nulls → Describes policy vs (.of (.kind .null))
  | mixed {vs : List Json} : held vs = .mixed → Describes policy vs (orNull vs (.of .any))
  | scalars {vs : List Json} {flat : Flat} : held vs = .scalars → FlatOf vs flat →
      Describes policy vs (orNull vs (scalarShape policy flat))
  | objects {vs : List Json} (members : List (String × ShapeNode)) : held vs = .objects → (members.map Prod.fst).Nodup →
      (∀ name, name ∈ members.map Prod.fst ↔ name ∈ names vs) →
      (∀ p ∈ members, Describes policy (valuesOf p.1 vs) p.2) →
      Describes policy vs (orNull vs (.of (.object (members.map (orAbsent vs)))))
  | lists {vs : List Json} {items : ShapeNode} {least most : UInt64} : held vs = .lists → least ≤ most →
      (∀ array ∈ arraysIn vs, least ≤ UInt64.ofNat array.length ∧ UInt64.ofNat array.length ≤ most) →
      (elements vs = [] → items = .of .any) → (elements vs ≠ [] → Describes policy (elements vs) items) →
      Describes policy vs (orNull vs (.of (.eachLike items least (some most))))

private theorem kinds_apart (v : Json) :
    isNull v = true ∨ isScalar v = true ∨ (asObject v).isSome = true ∨ (asArray v).isSome = true := by
  cases v <;> simp [isNull, isScalar, asObject, asArray]

private theorem objectsIn_eq_nil {vs : List Json} : objectsIn vs = [] ↔ ∀ v ∈ vs, asObject v = none := List.filterMap_eq_nil_iff

private theorem arraysIn_eq_nil {vs : List Json} : arraysIn vs = [] ↔ ∀ v ∈ vs, asArray v = none := List.filterMap_eq_nil_iff

private theorem scalarsIn_eq_nil {vs : List Json} : scalarsIn vs = [] ↔ ∀ v ∈ vs, isScalar v = false := by
  simp [scalarsIn]

theorem held_nulls_iff {vs : List Json} : held vs = .nulls ↔ ∀ v ∈ vs, isNull v = true := by
  rw [held_nulls, objectsIn_eq_nil, arraysIn_eq_nil, scalarsIn_eq_nil]
  constructor
  · rintro ⟨hobjects, harrays, hscalars⟩ v hv
    have hkinds := kinds_apart v
    simpa [hobjects v hv, harrays v hv, hscalars v hv] using hkinds
  · intro h
    refine ⟨fun v hv => ?_, fun v hv => ?_, fun v hv => ?_⟩
    all_goals
      have hnull := h v hv
      cases v <;> simp_all [isNull, asObject, asArray, isScalar]

section Kinds

variable {vs : List Json} {v : Json}

theorem scalar_of_held (h : held vs = .scalars) (hv : v ∈ vs) (hnull : isNull v = false) : isScalar v = true := by
  obtain ⟨hobjects, harrays, -⟩ := held_scalars.1 h
  have hkinds := kinds_apart v
  simpa [hnull, objectsIn_eq_nil.1 hobjects v hv, arraysIn_eq_nil.1 harrays v hv] using hkinds

theorem object_of_held (h : held vs = .objects) (hv : v ∈ vs) (hnull : isNull v = false) : ∃ members, v = .object members := by
  obtain ⟨-, harrays, hscalars⟩ := held_objects.1 h
  have harray := arraysIn_eq_nil.1 harrays v hv
  have hscalar := scalarsIn_eq_nil.1 hscalars v hv
  cases v <;> simp_all [isNull, isScalar, asArray]

theorem list_of_held (h : held vs = .lists) (hv : v ∈ vs) (hnull : isNull v = false) : ∃ items, v = .array items := by
  obtain ⟨hobjects, -, hscalars⟩ := held_lists.1 h
  have hobject := objectsIn_eq_nil.1 hobjects v hv
  have hscalar := scalarsIn_eq_nil.1 hscalars v hv
  cases v <;> simp_all [isNull, isScalar, asObject]

theorem mem_objectsIn {members : List (String × Json)} (hv : .object members ∈ vs) : members ∈ objectsIn vs :=
  List.mem_filterMap.2 ⟨_, hv, rfl⟩

theorem mem_arraysIn {items : List Json} (hv : .array items ∈ vs) : items ∈ arraysIn vs :=
  List.mem_filterMap.2 ⟨_, hv, rfl⟩

/-- A member that some object has not may be absent. -/
theorem lacks_of_lookup {members : List (String × Json)} {name : String} (hv : .object members ∈ vs)
    (hlookup : members.lookup name = none) : lacks name vs = true :=
  decide_eq_true (List.length_filterMap_lt_length_iff_exists.2 ⟨members, mem_objectsIn hv, hlookup⟩)

end Kinds

section Shapes

variable {policy : RecordingPolicy} {vs : List Json} {flat : Flat}

private theorem nulls_pos (h : FlatOf vs flat) : 0 < flat.nulls ↔ vs.any isNull = true := by
  rw [h.nulls, List.countP_pos_iff, List.any_eq_true]

private theorem scalars_pos (h : FlatOf vs flat) : 0 < flat.scalars ↔ scalarsIn vs ≠ [] := by
  rw [h.scalars, List.countP_eq_length_filter, List.length_pos_iff]
  rfl

private theorem all_null (h : FlatOf vs flat) : flat.seen - flat.nulls = 0 ↔ held vs = .nulls := by
  have hle : vs.countP isNull ≤ vs.length := List.countP_le_length
  rw [h.seen, h.nulls, held_nulls_iff, ← List.countP_eq_length]
  omega

/-- The shape of values that are not all `null`. -/
private theorem shapeOf_some (h : FlatOf vs flat) (hne : held vs ≠ .nulls) (object array : Option ShapeNode) :
    shapeOf policy flat object array = some (orNull vs (valueShape policy flat object array)) := by
  have hseen : flat.seen ≠ 0 := fun hzero => hne ((all_null h).1 (by omega))
  have hnulls : flat.seen - flat.nulls ≠ 0 := fun hzero => hne ((all_null h).1 hzero)
  rw [shapeOf, if_neg hseen, if_neg hnulls, orNull]
  simp only [nulls_pos h]

private theorem objectShape_isSome (object : Option ObjectProfile) : (objectShape policy object).isSome = object.isSome := by
  rcases object with _ | ⟨count, members⟩ <;> rfl

private theorem arrayShape_isSome (array : Option ArrayProfile) : (arrayShape policy array).isSome = array.isSome := by
  rcases array with _ | ⟨count, least, most, items⟩ <;> rfl

end Shapes

/-- The members' shapes, those with evidence, each with absence where it was seen. -/
theorem memberShapes_eq (policy : RecordingPolicy) (count : Nat) (members : List (String × Profile)) :
    memberShapes policy count members = members.filterMap fun p => (toShape policy p.2).map fun shape =>
      (p.1, if p.2.flat.seen < count then .of (.optional shape) else shape) := by
  induction members with
  | nil => rfl
  | cons p rest ih =>
    obtain ⟨name, member⟩ := p
    rw [memberShapes, List.filterMap_cons, ih]
    cases toShape policy member <;> rfl

private theorem evidence_eta (vs : List Json) :
    evidence vs = ⟨(evidence vs).flat, (evidence vs).object, (evidence vs).array⟩ := by
  rcases evidence vs with ⟨flat, object, array⟩
  rfl

private theorem object_isSome (vs : List Json) : (evidence vs).object.isSome = decide (objectsIn vs ≠ []) := by
  rw [object_evidence]
  split_ifs with hempty <;> simp [hempty]

private theorem array_isSome (vs : List Json) : (evidence vs).array.isSome = decide (arraysIn vs ≠ []) := by
  by_cases hempty : arraysIn vs = []
  · simp [(array_evidence vs).1 hempty, hempty]
  · obtain ⟨array, harray, -⟩ := (array_evidence vs).2 hempty
    simp [harray, hempty]

private theorem structuralKinds_evidence (policy : RecordingPolicy) (vs : List Json) :
    structuralKinds (evidence vs).flat (objectShape policy (evidence vs).object) (arrayShape policy (evidence vs).array) =
      (decide (objectsIn vs ≠ [])).toNat + (decide (arraysIn vs ≠ [])).toNat + (decide (scalarsIn vs ≠ [])).toNat := by
  rw [structuralKinds, objectShape_isSome, arrayShape_isSome, object_isSome, array_isSome]
  simp only [scalars_pos (flatOf_evidence vs)]

theorem distinct_objectsIn {vs : List Json} (hd : ∀ v ∈ vs, distinctKeys v = true) :
    ∀ object ∈ objectsIn vs, (object.map Prod.fst).Nodup ∧ ∀ p ∈ object, distinctKeys p.2 = true := by
  intro object hobject
  obtain ⟨v, hv, hobject⟩ := List.mem_filterMap.1 hobject
  cases v with
  | object members =>
    obtain rfl := Option.some.inj hobject
    exact distinctKeys_object.1 (hd _ hv)
  | _ => cases hobject

/-- A member's values are those of one member of each object that has it. -/
theorem mem_valuesOf {vs : List Json} {name : String} {v : Json} (h : v ∈ valuesOf name vs) :
    ∃ members, .object members ∈ vs ∧ members.lookup name = some v := by
  obtain ⟨members, hmembers, hlookup⟩ := List.mem_filterMap.1 h
  obtain ⟨w, hw, hobject⟩ := List.mem_filterMap.1 hmembers
  cases w with
  | object others =>
    obtain rfl := Option.some.inj hobject
    exact ⟨others, hw, hlookup⟩
  | _ => cases hobject

theorem mem_elements {vs : List Json} {v : Json} (h : v ∈ elements vs) : ∃ items, .array items ∈ vs ∧ v ∈ items := by
  obtain ⟨items, hitems, hv⟩ := List.mem_flatten.1 h
  obtain ⟨w, hw, harray⟩ := List.mem_filterMap.1 hitems
  cases w with
  | array others =>
    obtain rfl := Option.some.inj harray
    exact ⟨others, hw, hv⟩
  | _ => cases harray

theorem distinct_valuesOf {vs : List Json} (hd : ∀ v ∈ vs, distinctKeys v = true) (name : String) :
    ∀ v ∈ valuesOf name vs, distinctKeys v = true := by
  intro v hv
  obtain ⟨members, hmembers, hlookup⟩ := mem_valuesOf hv
  exact (distinctKeys_object.1 (hd _ hmembers)).2 _ (mem_of_lookup hlookup)

theorem distinct_elements {vs : List Json} (hd : ∀ v ∈ vs, distinctKeys v = true) :
    ∀ v ∈ elements vs, distinctKeys v = true := by
  intro v hv
  obtain ⟨items, hitems, hv⟩ := mem_elements hv
  have hall := hd _ hitems
  rw [distinctKeys, distinctKeysAll_iff] at hall
  exact hall v hv

private theorem countableAll_iff {items : List Json} : countableAll items = true ↔ ∀ v ∈ items, countable v = true := by
  induction items with
  | nil => simp [countableAll]
  | cons v rest ih => simp [countableAll, ih]

private theorem countableMembers_iff {members : List (String × Json)} :
    countableMembers members = true ↔ ∀ p ∈ members, countable p.2 = true := by
  induction members with
  | nil => simp [countableMembers]
  | cons p rest ih => simp [countableMembers, ih]

theorem countable_array {items : List Json} (h : countable (.array items) = true) :
    items.length < 2 ^ 64 ∧ ∀ v ∈ items, countable v = true := by
  rw [countable, Bool.and_eq_true, decide_eq_true_iff, countableAll_iff] at h
  exact h

theorem countable_valuesOf {vs : List Json} (h : ∀ v ∈ vs, countable v = true) (name : String) :
    ∀ v ∈ valuesOf name vs, countable v = true := by
  intro v hv
  obtain ⟨members, hmembers, hlookup⟩ := mem_valuesOf hv
  have hall := h _ hmembers
  rw [countable, countableMembers_iff] at hall
  exact hall _ (mem_of_lookup hlookup)

theorem countable_elements {vs : List Json} (h : ∀ v ∈ vs, countable v = true) : ∀ v ∈ elements vs, countable v = true := by
  intro v hv
  obtain ⟨items, hitems, hv⟩ := mem_elements hv
  exact (countable_array (h _ hitems)).2 v hv

section Members

variable {policy : RecordingPolicy} {vs : List Json}

/-- The members that are recorded, without their presence. -/
private def recordedMembers (policy : RecordingPolicy) (vs : List Json) : List (String × ShapeNode) :=
  (memberProfiles (objectsIn vs)).filterMap fun p => (toShape policy p.2).map fun shape => (p.1, shape)

private theorem memberProfile_eq (hd : ∀ v ∈ vs, distinctKeys v = true) {p : String × Profile}
    (hp : p ∈ memberProfiles (objectsIn vs)) : valuesOf p.1 vs ≠ [] ∧ p.2 = evidence (valuesOf p.1 vs) := by
  have hlookup := lookup_of_mem (sorted_memberProfiles (objectsIn vs)).nodup hp
  rw [lookup_memberProfiles fun object hobject => (distinct_objectsIn hd object hobject).1] at hlookup
  split_ifs at hlookup with hempty
  exact ⟨hempty, (Option.some.inj hlookup).symm⟩

private theorem mem_memberProfiles (hd : ∀ v ∈ vs, distinctKeys v = true) {name : String} (h : name ∈ names vs) :
    (name, evidence (valuesOf name vs)) ∈ memberProfiles (objectsIn vs) := by
  have hlookup := lookup_memberProfiles (fun object hobject => (distinct_objectsIn hd object hobject).1) name
  have hne : membersNamed name (objectsIn vs) ≠ [] := mem_names.1 h
  rw [if_neg hne] at hlookup
  exact mem_of_lookup hlookup

private theorem nodup_recordedMembers : ((recordedMembers policy vs).map Prod.fst).Nodup :=
  ((sorted_memberProfiles (objectsIn vs)).filterMap fun p => toShape policy p.2).nodup

private theorem memberShapes_recorded (hd : ∀ v ∈ vs, distinctKeys v = true) :
    memberShapes policy (objectsIn vs).length (memberProfiles (objectsIn vs)) =
      (recordedMembers policy vs).map (orAbsent vs) := by
  rw [memberShapes_eq, recordedMembers, List.map_filterMap]
  refine List.filterMap_congr fun p hp => ?_
  obtain ⟨-, hprofile⟩ := memberProfile_eq hd hp
  have hseen : p.2.flat.seen = (valuesOf p.1 vs).length := by rw [hprofile, (flatOf_evidence _).seen]
  rw [Option.map_map, hseen]
  refine Option.map_congr fun shape _ => ?_
  simp [orAbsent, lacks]

end Members

/-! What the evidence of some values adds up to, by what the values are. -/

section Equations

variable (policy : RecordingPolicy) {vs : List Json}

private theorem object_none (h : objectsIn vs = []) : (evidence vs).object = none := by rw [object_evidence, if_pos h]

private theorem array_none (h : arraysIn vs = []) : (evidence vs).array = none := by rw [array_evidence_eq, if_pos h]

theorem toShape_nulls (hne : vs ≠ []) (h : held vs = .nulls) : toShape policy (evidence vs) = some (.of (.kind .null)) := by
  have hflat := flatOf_evidence vs
  have hseen : (evidence vs).flat.seen ≠ 0 := by
    rw [hflat.seen]
    exact List.length_pos_iff.2 hne |>.ne'
  rw [evidence_eta, toShape, shapeOf, if_neg hseen, if_pos ((all_null hflat).2 h)]

theorem toShape_mixed (h : held vs = .mixed) : toShape policy (evidence vs) = some (orNull vs (.of .any)) := by
  rw [evidence_eta, toShape, shapeOf_some (flatOf_evidence vs) (by simp [h]), valueShape.eq_def,
    if_neg (structuralKinds_evidence policy vs ▸ (held_mixed h).ne')]

theorem toShape_scalars (h : held vs = .scalars) :
    toShape policy (evidence vs) = some (orNull vs (scalarShape policy (evidence vs).flat)) := by
  obtain ⟨hobjects, harrays, hscalars⟩ := held_scalars.1 h
  have hkinds := structuralKinds_evidence policy vs
  rw [evidence_eta, toShape, shapeOf_some (flatOf_evidence vs) (by simp [h]), valueShape.eq_def,
    if_pos (by simp [hkinds, hobjects, harrays, hscalars]), object_none hobjects, array_none harrays]
  rfl

theorem toShape_objects (h : held vs = .objects) :
    toShape policy (evidence vs) =
      some (orNull vs (.of (.object (memberShapes policy (objectsIn vs).length (memberProfiles (objectsIn vs)))))) := by
  obtain ⟨hobjects, harrays, hscalars⟩ := held_objects.1 h
  have hkinds := structuralKinds_evidence policy vs
  rw [evidence_eta, toShape, shapeOf_some (flatOf_evidence vs) (by simp [h]), valueShape.eq_def,
    if_pos (by simp [hkinds, hobjects, harrays, hscalars]), object_evidence, if_neg hobjects]
  rfl

theorem toShape_lists (h : held vs = .lists) :
    toShape policy (evidence vs) =
      some (orNull vs (.of (.eachLike ((toShape policy (evidence (elements vs))).getD (.of .any))
        (leastLength (UInt64.ofNat (2 ^ 64 - 1)) (arraysIn vs)) (some (mostLength 0 (arraysIn vs)))))) := by
  obtain ⟨hobjects, harrays, hscalars⟩ := held_lists.1 h
  have hkinds := structuralKinds_evidence policy vs
  rw [evidence_eta, toShape, shapeOf_some (flatOf_evidence vs) (by simp [h]), valueShape.eq_def,
    if_pos (by simp [hkinds, hobjects, harrays, hscalars]), object_none hobjects, array_evidence_eq, if_neg harrays]
  rfl

end Equations

/-- What is recorded of some values describes them. -/
theorem describes_evidence (policy : RecordingPolicy) {vs : List Json} (hd : ∀ v ∈ vs, distinctKeys v = true) (hne : vs ≠ []) :
    ∃ S, toShape policy (evidence vs) = some S ∧ Describes policy vs S := by
  induction vs using values_induction with
  | step vs ihMembers ihElements =>
    cases hheld : held vs with
    | nulls => exact ⟨_, toShape_nulls policy hne hheld, .nulls hne hheld⟩
    | mixed => exact ⟨_, toShape_mixed policy hheld, .mixed hheld⟩
    | scalars => exact ⟨_, toShape_scalars policy hheld, .scalars hheld (flatOf_evidence vs)⟩
    | objects =>
      refine ⟨_, toShape_objects policy hheld, ?_⟩
      rw [memberShapes_recorded hd]
      have hmember : ∀ name ∈ names vs, ∃ S, toShape policy (evidence (valuesOf name vs)) = some S ∧
          Describes policy (valuesOf name vs) S := fun name hname =>
        ihMembers hheld name (distinct_valuesOf hd name) (mem_names.1 hname)
      refine .objects (recordedMembers policy vs) hheld nodup_recordedMembers ?_ ?_
      · intro name
        constructor
        · intro hname
          obtain ⟨p, hp, rfl⟩ := List.mem_map.1 hname
          obtain ⟨profile, hprofile, hp⟩ := List.mem_filterMap.1 hp
          obtain ⟨S, -, rfl⟩ := Option.map_eq_some_iff.1 hp
          exact mem_names.2 (memberProfile_eq hd hprofile).1
        · intro hname
          obtain ⟨S, hS, -⟩ := hmember name hname
          refine List.mem_map.2 ⟨(name, S), List.mem_filterMap.2 ⟨_, mem_memberProfiles hd hname, ?_⟩, rfl⟩
          rw [hS]
          rfl
      · intro p hp
        obtain ⟨profile, hprofile, hp⟩ := List.mem_filterMap.1 hp
        obtain ⟨S, hS, rfl⟩ := Option.map_eq_some_iff.1 hp
        obtain ⟨hne', heq⟩ := memberProfile_eq hd hprofile
        obtain ⟨S', hS', hdescribes⟩ := hmember profile.1 (mem_names.2 hne')
        rw [heq, hS'] at hS
        obtain rfl := Option.some.inj hS
        exact hdescribes
    | lists =>
      obtain ⟨-, harrays, -⟩ := held_lists.1 hheld
      obtain ⟨items, hitems⟩ := List.exists_mem_of_ne_nil _ harrays
      obtain ⟨hlow, hhigh⟩ := length_bounds hitems
      refine ⟨_, toShape_lists policy hheld, .lists hheld (UInt64.le_trans hlow hhigh) (fun _ h => length_bounds h)
        (fun hempty => ?_) (fun hsome => ?_)⟩
      · rw [hempty]
        rfl
      · obtain ⟨S, hS, hdescribes⟩ := ihElements hheld (distinct_elements hd) hsome
        rw [hS]
        exact hdescribes

end PactJanus.Recording.Summary
