import Mathlib.Data.List.Sort
import PactJanus.Data.Equality
import PactJanus.Shape.Model

namespace PactJanus.Contracts.Canonical

open PactJanus.Data.Json PactJanus.Data.Equality PactJanus.Lib.Lists PactJanus.Shape.Model

/-! How the opaque members of a recorded document are written. -/

def byName {α : Type} (members : List (String × α)) : List (String × α) :=
  members.insertionSort fun a b => a.1 < b.1 ∨ a.1 = b.1

mutual

/-- A document as a record: the members of every object by name, at every depth. -/
def sorted : Json → Json
  | .object members => .object (byName (sortedMembers members))
  | .array items => .array (sortedAll items)
  | .null => .null
  | .bool b => .bool b
  | .number n => .number n
  | .string s => .string s
termination_by structural v => v

def sortedAll : List Json → List Json
  | [] => []
  | v :: rest => sorted v :: sortedAll rest
termination_by structural vs => vs

def sortedMembers : List (String × Json) → List (String × Json)
  | [] => []
  | (name, v) :: rest => (name, sorted v) :: sortedMembers rest
termination_by structural ms => ms

end

/-- A shape node: a core operator's with its own members by name, any other as it is. -/
def writtenNode (node written : List (String × Json)) : Json :=
  if ((get "shape" (.object node)).bind asStr).any fun operator => operator ∈ coreOperators then .object (byName written)
  else .object node

mutual

/-- A shape written canonically. -/
def canonical : Json → Json
  | .object node => writtenNode node (canonicalMembers node)
  | .array items => .array items
  | .null => .null
  | .bool b => .bool b
  | .number n => .number n
  | .string s => .string s
termination_by structural shape => shape

def canonicalMembers : List (String × Json) → List (String × Json)
  | [] => []
  | (name, member) :: rest => (name, canonicalMember name member) :: canonicalMembers rest
termination_by structural ms => ms

/-- A member of a core operator's node. An object's members keep the order the author declared them in. -/
def canonicalMember (name : String) : Json → Json
  | .object members =>
    if name = "members" then .object (canonicalEach members)
    else if name = "alternatives" then .object (byName (canonicalEach members))
    else if name ∈ ["of", "items", "keys", "values"] then writtenNode members (canonicalMembers members)
    else .object members
  | .array items => if name = "entries" then .array (canonicalAll items) else .array items
  | .null => .null
  | .bool b => .bool b
  | .number n => .number n
  | .string s => .string s
termination_by structural member => member

def canonicalEach : List (String × Json) → List (String × Json)
  | [] => []
  | (name, shape) :: rest => (name, canonical shape) :: canonicalEach rest
termination_by structural ms => ms

def canonicalAll : List Json → List Json
  | [] => []
  | shape :: rest => canonical shape :: canonicalAll rest
termination_by structural vs => vs

end

/-- An object's members by name, each written its own way. -/
def written (write : String → Json → Json) : Json → Json
  | .object members => .object (byName (members.map fun (name, member) => (name, write name member)))
  | other => other

/-- A case of a variant-param binding: the value it gives is a document, and is written as it arrived. -/
def case (document : Json) : Json :=
  written (fun name member => if name = "value" then member else sorted member) document

/-- A variant-param binding. -/
def binding (document : Json) : Json :=
  written (fun name member =>
    match name, member with
    | "default", _ => member
    | "cases", .array cases => .array (cases.map case)
    | _, _ => sorted member) document

/-! What is written by name is the same document. -/

private theorem byName_perm {α : Type} (members : List (String × α)) : (byName members).Perm members :=
  List.perm_insertionSort _ members

/-- A member of what is written by name is the member, written its own way. -/
theorem get_written {write : String → Json → Json} {v : Json} (hv : distinctKeys v = true) (name : String) :
    get name (written write v) = (get name v).map (write name) := by
  cases v with
  | object members =>
    have hperm := byName_perm (members.map fun p => (p.1, write p.1 p.2))
    have hd : ((byName (members.map fun p => (p.1, write p.1 p.2))).map Prod.fst).Nodup := by
      rw [(hperm.map Prod.fst).nodup_iff, List.map_map]
      exact (distinctKeys_object.1 hv).1
    change (byName (members.map fun p => (p.1, write p.1 p.2))).lookup name = (members.lookup name).map (write name)
    cases hlookup : members.lookup name with
    | none =>
      rw [Option.map_none, lookup_eq_none_iff_notMem, (hperm.map Prod.fst).mem_iff, List.map_map]
      exact lookup_eq_none_iff_notMem.1 hlookup
    | some member =>
      have hmem : (name, write name member) ∈ byName (members.map fun p => (p.1, write p.1 p.2)) :=
        hperm.mem_iff.2 (List.mem_map.2 ⟨(name, member), mem_of_lookup hlookup, rfl⟩)
      exact lookup_of_mem hd hmem
  | _ => rfl

private theorem sortedMembers_eq (members : List (String × Json)) :
    sortedMembers members = members.map fun p => (p.1, sorted p.2) := by
  induction members with
  | nil => rfl
  | cons p rest ih => simp [sortedMembers, ih]

private theorem sortedAll_eq (items : List Json) : sortedAll items = items.map sorted := by
  induction items with
  | nil => rfl
  | cons v rest ih => simp [sortedAll, ih]

private theorem same_items {items : List Json} {write : Json → Json}
    (h : ∀ v ∈ items, same v (write v) = true ∧ distinctKeys (write v) = true) :
    same (.array items) (.array (items.map write)) = true ∧ distinctKeys (.array (items.map write)) = true := by
  constructor
  · rw [same, equalBy_array, List.forall₂_map_right_iff, List.forall₂_same]
    exact fun v hv => (h v hv).1
  · rw [distinctKeys, distinctKeysAll_iff]
    exact List.forall_mem_map.2 fun v hv => (h v hv).2

theorem same_sorted {v : Json} (hv : distinctKeys v = true) : same v (sorted v) = true ∧ distinctKeys (sorted v) = true := by
  induction v with
  | array items ih =>
    rw [sorted, sortedAll_eq]
    exact same_items fun v hmem => ih v hmem (distinctKeysAll_iff.1 hv v hmem)
  | object members ih =>
    obtain ⟨hd, hmembers⟩ := distinctKeys_object.1 hv
    rw [sorted, sortedMembers_eq]
    let write : String → Json → Json := fun _ => sorted
    have hperm : (byName (members.map fun p => (p.1, sorted p.2))).Perm (members.map fun p => (p.1, write p.1 p.2)) :=
      byName_perm _
    exact same_rewritten hd hperm fun p hp => ih p hp (hmembers p hp)
  | null => exact ⟨rfl, rfl⟩
  | bool b => exact ⟨same_refl rfl, rfl⟩
  | number n => exact ⟨same_refl rfl, rfl⟩
  | string s => exact ⟨same_refl rfl, rfl⟩

private theorem same_written {write : String → Json → Json}
    (h : ∀ name v, distinctKeys v = true → same v (write name v) = true ∧ distinctKeys (write name v) = true) {v : Json}
    (hv : distinctKeys v = true) : same v (written write v) = true ∧ distinctKeys (written write v) = true := by
  cases v with
  | object members =>
    obtain ⟨hd, hmembers⟩ := distinctKeys_object.1 hv
    exact same_rewritten hd (byName_perm _) fun p hp => h p.1 p.2 (hmembers p hp)
  | _ => exact ⟨same_refl hv, hv⟩

private theorem same_case {v : Json} (hv : distinctKeys v = true) : same v (case v) = true ∧ distinctKeys (case v) = true := by
  refine same_written (fun name v hv => ?_) hv
  split
  · exact ⟨same_refl hv, hv⟩
  · exact same_sorted hv

theorem same_binding {v : Json} (hv : distinctKeys v = true) :
    same v (binding v) = true ∧ distinctKeys (binding v) = true := by
  refine same_written (fun name v hv => ?_) hv
  split
  · exact ⟨same_refl hv, hv⟩
  · exact same_items fun v hmem => same_case (distinctKeysAll_iff.1 hv v hmem)
  · exact same_sorted hv

end PactJanus.Contracts.Canonical
