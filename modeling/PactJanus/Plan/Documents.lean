import PactJanus.Plan.Accepts
import PactJanus.Shape.Alternatives

namespace PactJanus.Plan.Documents

open PactJanus.Data.Json PactJanus.Data.Equality PactJanus.Lib.Lists PactJanus.Shape PactJanus.Shape.Model
  PactJanus.Shape.Valid PactJanus.Shape.Nodes PactJanus.Shape.Admits PactJanus.Shape.Alternatives PactJanus.Plan.Model
  PactJanus.Plan.Value PactJanus.Plan.Result PactJanus.Plan.Interpret PactJanus.Plan.Compile PactJanus.Plan.Navigation
  PactJanus.Plan.Outcome PactJanus.Plan.Accepts

/-! Documents as a plan sees them, and what an unpinned plan makes of them. -/

theorem fromJsonAll_eq (vs : List Json) : fromJsonAll vs = vs.map fromJson := by
  induction vs with
  | nil => rfl
  | cons v rest ih => simp [fromJsonAll, ih]

theorem fromJsonMembers_eq (ms : List (String × Json)) : fromJsonMembers ms = ms.map fun p => (p.1, fromJson p.2) := by
  induction ms with
  | nil => rfl
  | cons p rest ih => simp [fromJsonMembers, ih]

theorem isDocument_fromJson (v : Json) : isDocument (fromJson v) = true := by
  induction v with
  | array items ih =>
    rw [fromJson, isDocument, isDocumentAll_iff, fromJsonAll_eq]
    exact List.forall_mem_map.2 ih
  | object members ih =>
    rw [fromJson, isDocument, isDocumentMembers_iff, fromJsonMembers_eq]
    exact List.forall_mem_map.2 ih
  | _ => rfl

/-- What a slot holds, absence being that nothing is there. -/
def ofSlot : Option Json → RuntimeValue
  | some v => fromJson v
  | none => .absent

theorem isAbsent_ofSlot (slot : Option Json) : isAbsent (ofSlot slot) = slot.isNone := by
  cases slot with
  | none => rfl
  | some v => cases v <;> rfl

theorem isNullValue_ofSlot (slot : Option Json) : isNullValue (ofSlot slot) = slot.any isNull := by
  cases slot with
  | none => rfl
  | some v => cases v <;> rfl

theorem memberOf_fromJson (v : Json) (name : String) : memberOf (fromJson v) name = ofSlot (get name v) := by
  cases v with
  | object fields =>
    rw [fromJson, fromJsonMembers_eq, memberOf, lookup_map, Data.Json.get]
    cases fields.lookup name <;> rfl
  | _ => rfl

theorem memberOf_ofSlot (slot : Option Json) (name : String) :
    memberOf (ofSlot slot) name = ofSlot (slot.bind (Data.Json.get name)) := by
  cases slot with
  | none => rfl
  | some v => exact memberOf_fromJson v name

theorem elementOf_fromJson (items : List Json) (i : Nat) :
    elementOf (fromJson (.array items)) i = ofSlot items[i]? := by
  rw [fromJson, fromJsonAll_eq, elementOf, List.getElem?_map]
  cases items[i]? <;> rfl

/-! What stands under a slot whose document names no member twice. -/

section Slots

variable {slot : Option Json}

theorem memberOf_slot (hslot : ∀ v ∈ slot, distinctKeys v = true) (name : String) :
    ∃ inner, memberOf (ofSlot slot) name = ofSlot inner ∧ ∀ v ∈ inner, distinctKeys v = true := by
  refine ⟨_, memberOf_ofSlot slot name, fun v hv => ?_⟩
  obtain ⟨w, rfl, hget⟩ := Option.bind_eq_some_iff.1 hv
  exact distinctKeys_get (hslot w rfl) hget

theorem elementOf_slot (hslot : ∀ v ∈ slot, distinctKeys v = true) (i : Nat) :
    ∃ inner, elementOf (ofSlot slot) i = ofSlot inner ∧ ∀ v ∈ inner, distinctKeys v = true := by
  cases slot with
  | none => exact ⟨none, rfl, fun v hv => absurd hv (by simp)⟩
  | some v =>
    cases v with
    | array items =>
      exact ⟨_, elementOf_fromJson items i, fun v hv => distinctKeysAll_iff.1 (hslot _ rfl) v (List.mem_of_getElem? hv)⟩
    | _ => exact ⟨none, rfl, fun v hv => absurd hv (by simp)⟩

theorem position_slot (hslot : ∀ v ∈ slot, distinctKeys v = true) {elements : List RuntimeValue} {place : String}
    (h : ofSlot slot = .array elements) {p : RuntimeValue × String} (hp : p ∈ positions place elements) :
    ∃ v, p.1 = ofSlot (some v) ∧ distinctKeys v = true := by
  have hmem : p.1 ∈ elements := positions_fst place elements ▸ List.mem_map_of_mem hp
  cases slot with
  | none => exact absurd h (by simp [ofSlot])
  | some v =>
    cases v with
    | array items =>
      obtain rfl : items.map fromJson = elements := by
        rw [ofSlot, fromJson, fromJsonAll_eq] at h
        exact RuntimeValue.array.inj h
      obtain ⟨v, hv, heq⟩ := List.mem_map.1 hmem
      exact ⟨v, heq.symm, distinctKeysAll_iff.1 (hslot _ rfl) v hv⟩
    | _ => exact absurd h (by simp [ofSlot, fromJson])

theorem field_slot (hslot : ∀ v ∈ slot, distinctKeys v = true) {members : List (String × RuntimeValue)}
    (h : ofSlot slot = .object members) {p : String × RuntimeValue} (hp : p ∈ members) :
    ∃ v, p.2 = ofSlot (some v) ∧ distinctKeys v = true := by
  cases slot with
  | none => exact absurd h (by simp [ofSlot])
  | some v =>
    cases v with
    | object fields =>
      obtain rfl : fields.map (fun p => (p.1, fromJson p.2)) = members := by
        rw [ofSlot, fromJson, fromJsonMembers_eq] at h
        exact RuntimeValue.object.inj h
      obtain ⟨q, hq, rfl⟩ := List.mem_map.1 hp
      exact ⟨q.2, rfl, (distinctKeys_object.1 (hslot _ rfl)).2 q hq⟩
    | _ => exact absurd h (by simp [ofSlot, fromJson])

end Slots

theorem runtimeEq_fromJson (a b : Json) : runtimeEq (fromJson a) (fromJson b) = valuesEqual a b := by
  induction a generalizing b with
  | array items ih =>
    cases b with
    | array others =>
      simp only [fromJson, fromJsonAll_eq, runtimeEq, valuesEqual, equalBy, List.length_map]
      congr 1
      induction items generalizing others with
      | nil => simp [runtimeEqAll, itemsEqualBy]
      | cons v rest ihrest =>
        cases others with
        | nil => simp [runtimeEqAll, itemsEqualBy]
        | cons w others =>
          simp only [List.map_cons, runtimeEqAll, itemsEqualBy, ih v List.mem_cons_self]
          rw [ihrest fun u hu => ih u (List.mem_cons_of_mem _ hu)]
          rfl
    | _ => rfl
  | object members ih =>
    cases b with
    | object others =>
      simp only [fromJson, fromJsonMembers_eq, runtimeEq, valuesEqual, equalBy, List.length_map]
      congr 1
      induction members with
      | nil => rfl
      | cons p rest ihrest =>
        simp only [List.map_cons, runtimeEqMembers, membersEqualBy, lookup_map]
        rw [ihrest fun q hq => ih q (List.mem_cons_of_mem _ hq)]
        cases others.lookup p.1 with
        | none => rfl
        | some w => simp only [Option.map_some, ih p List.mem_cons_self, valuesEqual]
    | _ => rfl
  | _ => cases b <;> rfl

theorem runtimeEq_ofSlot (slot : Option Json) (b : Json) :
    runtimeEq (ofSlot slot) (fromJson b) = slot.any fun v => valuesEqual v b := by
  cases slot with
  | none => cases b <;> rfl
  | some v => exact runtimeEq_fromJson v b

end PactJanus.Plan.Documents
