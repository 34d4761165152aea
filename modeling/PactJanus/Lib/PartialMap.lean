import Mathlib.Data.List.Basic
import Mathlib.Logic.Function.Basic

namespace PactJanus.Lib.PartialMap

/-! Maps as what they hold at each key, and the merging of what two of them hold. -/

variable {κ α β : Type}

/-- A map, as what it holds at each key. -/
abbrev PMap (κ α : Type) := κ → Option α

def PMap.empty : PMap κ α := fun _ => none

/-- A map with what each key holds changed. -/
def PMap.mapped (f : α → β) (map : PMap κ α) : PMap κ β := fun key => (map key).map f

@[simp] theorem PMap.empty_apply (key : κ) : (PMap.empty : PMap κ α) key = none := rfl

@[simp] theorem PMap.mapped_apply (f : α → β) (map : PMap κ α) (key : κ) : map.mapped f key = (map key).map f := rfl

@[simp] theorem PMap.mapped_empty (f : α → β) : (PMap.empty : PMap κ α).mapped f = PMap.empty := rfl

variable [DecidableEq κ]

def PMap.insert (map : PMap κ α) (key : κ) (v : α) : PMap κ α := Function.update map key (some v)

def PMap.remove (map : PMap κ α) (key : κ) : PMap κ α := Function.update map key none

/-- Changes what is held at a key, where something is. -/
def PMap.modify (map : PMap κ α) (key : κ) (f : α → α) : PMap κ α := Function.update map key ((map key).map f)

/-- Merges one more thing into what is held at a key. -/
def PMap.record (merge : α → α → α) (map : PMap κ α) (key : κ) (v : α) : PMap κ α :=
  Function.update map key (Option.merge merge (map key) (some v))

theorem PMap.insert_apply (map : PMap κ α) (key : κ) (v : α) (k : κ) :
    map.insert key v k = if k = key then some v else map k := Function.update_apply ..

theorem PMap.remove_apply (map : PMap κ α) (key k : κ) : map.remove key k = if k = key then none else map k :=
  Function.update_apply ..

theorem PMap.modify_apply (map : PMap κ α) (key : κ) (f : α → α) (k : κ) :
    map.modify key f k = if k = key then (map k).map f else map k := by
  rw [modify, Function.update_apply]
  split
  · rename_i h
    rw [h]
  · rfl

theorem PMap.record_apply (merge : α → α → α) (map : PMap κ α) (key : κ) (v : α) (k : κ) :
    map.record merge key v k = if k = key then Option.merge merge (map k) (some v) else map k := by
  rw [record, Function.update_apply]
  split
  · rename_i h
    rw [h]
  · rfl

@[simp] theorem PMap.mapped_insert (f : α → β) (map : PMap κ α) (key : κ) (v : α) :
    (map.insert key v).mapped f = (map.mapped f).insert key (f v) := by
  funext k
  rw [mapped_apply, insert_apply, insert_apply, apply_ite (Option.map f)]
  rfl

@[simp] theorem PMap.mapped_remove (f : α → β) (map : PMap κ α) (key : κ) :
    (map.remove key).mapped f = (map.mapped f).remove key := by
  funext k
  rw [mapped_apply, remove_apply, remove_apply, apply_ite (Option.map f)]
  rfl

theorem PMap.mapped_modify (f : α → β) (g : α → α) (g' : β → β) (h : ∀ a, f (g a) = g' (f a)) (map : PMap κ α)
    (key : κ) : (map.modify key g).mapped f = (map.mapped f).modify key g' := by
  funext k
  have hmap : ((map k).map g).map f = ((map k).map f).map g' := by
    rw [Option.map_map, Option.map_map]
    exact congrArg (fun f => Option.map f (map k)) (funext h)
  rw [mapped_apply, modify_apply, modify_apply, apply_ite (Option.map f), hmap]
  rfl

section Merge

variable {merge : α → α → α} {merge' : β → β → β} {f : α → β}

/-- What merging keeps, merging what may be missing keeps. -/
theorem map_merge (h : ∀ a b, f (merge a b) = merge' (f a) (f b)) (a b : Option α) :
    (Option.merge merge a b).map f = Option.merge merge' (a.map f) (b.map f) := by
  cases a <;> cases b <;> simp [Option.merge, h]

theorem PMap.mapped_record (h : ∀ a b, f (merge a b) = merge' (f a) (f b)) (map : PMap κ α) (key : κ) (v : α) :
    (map.record merge key v).mapped f = (map.mapped f).record merge' key (f v) := by
  funext k
  rw [mapped_apply, record_apply, record_apply, apply_ite (Option.map f), map_merge h]
  rfl

end Merge

end PactJanus.Lib.PartialMap
