import PactJanus.Plan.Documents
import PactJanus.Plan.Places

namespace PactJanus.Plan.Replacement

open PactJanus.Data.Json PactJanus.Data.Equality PactJanus.Lib.Lists PactJanus.Plan.Value PactJanus.Plan.Navigation
  PactJanus.Plan.Documents PactJanus.Plan.Places PactJanus.Plan.Resolve

/-! A document with what steps lead to in it replaced. -/

def stepInto : Step → Json → Option Json
  | .member name, v => Data.Json.get name v
  | .index i, .array items => items[i]?
  | .index _, _ => none

/-- What stands where steps lead, if anything does. -/
def jsonAt (v : Json) : List Step → Option Json
  | [] => some v
  | s :: rest => (stepInto s v).bind fun w => jsonAt w rest

theorem stepOf_ofSlot (slot : Option Json) (s : Step) : stepOf (ofSlot slot) s = ofSlot (slot.bind (stepInto s)) := by
  cases s with
  | member name => exact memberOf_ofSlot slot name
  | index i =>
    cases slot with
    | none => rfl
    | some v =>
      cases v with
      | array items => exact elementOf_fromJson items i
      | _ => rfl

theorem walkSteps_ofSlot (slot : Option Json) (steps : List Step) :
    walkSteps (ofSlot slot) steps = ofSlot (slot.bind fun v => jsonAt v steps) := by
  induction steps generalizing slot with
  | nil => cases slot <;> rfl
  | cons s rest ih =>
    rw [show walkSteps (ofSlot slot) (s :: rest) = walkSteps (stepOf (ofSlot slot) s) rest from rfl, stepOf_ofSlot, ih]
    cases slot <;> rfl

theorem walkSteps_fromJson (v : Json) (steps : List Step) : walkSteps (fromJson v) steps = ofSlot (jsonAt v steps) :=
  walkSteps_ofSlot (some v) steps

theorem jsonAt_append (v : Json) (p q : List Step) : jsonAt v (p ++ q) = (jsonAt v p).bind fun w => jsonAt w q := by
  induction p generalizing v with
  | nil => rfl
  | cons s rest ih =>
    simp only [List.cons_append, jsonAt]
    cases stepInto s v with
    | none => rfl
    | some w => exact ih w

/-! Paths written segment by segment. -/

/-- A member's name, or an index that a `usize` holds. -/
inductive Segment where
  | member (name : String)
  | index (i : UInt64)

def Segment.step : Segment → Step
  | .member name => .member name
  | .index i => .index i.toNat

/-- A path with one segment more. -/
def Segment.onto (path : String) : Segment → String
  | .member name => memberPath path name
  | .index i => path ++ "[" ++ i.toNat.repr ++ "]"

def renderPath (slot : String) (segments : List Segment) : String := segments.foldl Segment.onto slot

def Segment.into (v : Json) : Segment → Option Json
  | .member name => Data.Json.get name v
  | .index i => (asArray v).bind fun items => items[i.toNat]?

/-- The value walked into segment by segment. -/
def walk (v : Json) (segments : List Segment) : Option Json := segments.foldlM Segment.into v

private theorem onto_eq (path : String) (s : Segment) : s.onto path = along path [s.step] := by
  cases s with
  | member name => exact (along_member path name).symm
  | index i => exact (along_index path i.toNat).symm

private theorem into_eq (v : Json) (s : Segment) : s.into v = stepInto s.step v := by
  cases s with
  | member name => rfl
  | index i => cases v <;> rfl

theorem renderPath_eq (slot : String) (segments : List Segment) :
    renderPath slot segments = along slot (segments.map Segment.step) := by
  induction segments generalizing slot with
  | nil => exact (along_nil slot).symm
  | cons s rest ih =>
    rw [renderPath, List.foldl_cons, ← renderPath, ih, onto_eq, along_append]
    rfl

private theorem walk_eq (v : Json) (segments : List Segment) : walk v segments = jsonAt v (segments.map Segment.step) := by
  induction segments generalizing v with
  | nil => rfl
  | cons s rest ih =>
    rw [walk, List.foldlM_cons, List.map_cons, jsonAt, into_eq]
    cases stepInto s.step v with
    | none => rfl
    | some w => exact ih w

theorem fits_step (s : Segment) : s.step.fits := by
  cases s with
  | member name => trivial
  | index i => exact i.toNat_lt

/-- A path written for segments resolves to what the segments lead to, and to nothing where they lead to nothing. -/
theorem resolve_renderPath (slot : String) (v : Json) (segments : List Segment) :
    resolve [(slot, fromJson v)] (renderPath slot segments) = ((walk v segments).map fromJson).getD .absent := by
  have hfits : ∀ s ∈ segments.map Segment.step, s.fits := List.forall_mem_map.2 fun s _ => fits_step s
  rw [renderPath_eq, along, resolve_captured (isDocument_fromJson v) hfits, walkSteps_fromJson, walk_eq]
  cases jsonAt v (segments.map Segment.step) <;> rfl

/-- The document with `w` in place of what the steps lead to. -/
def replaceAt (w : Json) : List Step → Json → Json
  | [], _ => w
  | .member name :: rest, .object members =>
    .object (members.map fun p => (p.1, if p.1 = name then replaceAt w rest p.2 else p.2))
  | .index i :: rest, .array items => .array (items.modify i (replaceAt w rest))
  | _ :: _, v => v

private theorem lookup_map_key (members : List (String × Json)) (f : String → Json → Json) (key : String) :
    (members.map fun p => (p.1, f p.1 p.2)).lookup key = (members.lookup key).map (f key) := by
  induction members with
  | nil => rfl
  | cons p rest ih =>
    obtain ⟨k, v⟩ := p
    simp only [List.map_cons, lookup_cons_ite, ih]
    by_cases h : key = k
    · simp [h]
    · rw [if_neg h, if_neg h]

theorem get_replaceAt (w : Json) (name : String) (rest : List Step) (v : Json) (key : String) :
    Data.Json.get key (replaceAt w (.member name :: rest) v) =
      (Data.Json.get key v).map fun u => if key = name then replaceAt w rest u else u := by
  cases v with
  | object members => exact lookup_map_key members (fun k u => if k = name then replaceAt w rest u else u) key
  | _ => rfl

theorem stepInto_replaced (w : Json) (s : Step) (rest : List Step) (v : Json) :
    stepInto s (replaceAt w (s :: rest) v) = (stepInto s v).map (replaceAt w rest) := by
  cases s with
  | member name => simpa [stepInto] using get_replaceAt w name rest v name
  | index i => cases v <;> simp [stepInto, replaceAt]

/-- Another step leads where it did. -/
theorem stepInto_other (w : Json) {s t : Step} (rest : List Step) (v : Json) (h : t ≠ s) :
    stepInto t (replaceAt w (s :: rest) v) = stepInto t v := by
  cases s with
  | member name =>
    cases t with
    | member key =>
      have hne : key ≠ name := fun heq => h (heq ▸ rfl)
      simpa [stepInto, hne] using get_replaceAt w name rest v key
    | index i => cases v <;> rfl
  | index i =>
    cases t with
    | member key => cases v <;> rfl
    | index j =>
      have hne : i ≠ j := fun heq => h (heq ▸ rfl)
      cases v <;> simp [stepInto, replaceAt, hne]

theorem jsonAt_replaceAt (w : Json) {steps : List Step} {v d : Json} (h : jsonAt v steps = some d) :
    jsonAt (replaceAt w steps v) steps = some w := by
  induction steps generalizing v with
  | nil => rfl
  | cons s rest ih =>
    obtain ⟨u, hu, hd⟩ := Option.bind_eq_some_iff.1 h
    rw [jsonAt, stepInto_replaced, hu]
    exact ih hd

theorem distinctKeys_replaceAt {w : Json} (hw : distinctKeys w = true) {v : Json} (hv : distinctKeys v = true)
    (steps : List Step) : distinctKeys (replaceAt w steps v) = true := by
  induction steps generalizing v with
  | nil => exact hw
  | cons s rest ih =>
    cases s with
    | member name =>
      cases v with
      | object members =>
        obtain ⟨hd, hmembers⟩ := distinctKeys_object.1 hv
        rw [replaceAt, distinctKeys_object, List.map_map]
        refine ⟨hd, List.forall_mem_map.2 fun p hp => ?_⟩
        dsimp only
        split
        · exact ih (hmembers p hp)
        · exact hmembers p hp
      | _ => exact hv
    | index i =>
      cases v with
      | array items =>
        have hitems := distinctKeysAll_iff.1 hv
        rw [replaceAt, distinctKeys, distinctKeysAll_iff]
        intro u hu
        obtain ⟨j, hj⟩ := List.mem_iff_getElem?.1 hu
        rw [List.getElem?_modify] at hj
        obtain ⟨x, hx, rfl⟩ := Option.map_eq_some_iff.1 hj
        have hxd := hitems x (List.mem_of_getElem? hx)
        split
        · exact ih hxd
        · exact hxd
      | _ => exact hv

end PactJanus.Plan.Replacement
