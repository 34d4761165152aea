import Mathlib.Order.Lattice
import PactJanus.Lib.Lists

namespace PactJanus.Lib.SortedMap

open PactJanus.Lib.Lists

/-! Association lists kept in the order of their keys. -/

variable {κ α : Type} [DecidableEq κ] [LT κ] [DecidableLT κ]

/-- Puts a key in its place, or its thing in the place of the one the key had. -/
def insert (key : κ) (v : α) : List (κ × α) → List (κ × α)
  | [] => [(key, v)]
  | (k, w) :: rest =>
    if key < k then (key, v) :: (k, w) :: rest
    else if key = k then (key, v) :: rest
    else (k, w) :: insert key v rest

theorem lookup_insert (key : κ) (v : α) (map : List (κ × α)) (k : κ) :
    (insert key v map).lookup k = if k = key then some v else map.lookup k := by
  induction map with
  | nil => exact lookup_cons_ite key v [] k
  | cons p rest ih =>
    obtain ⟨j, w⟩ := p
    unfold insert
    split
    · exact lookup_cons_ite ..
    · split
      · rename_i heq
        subst heq
        by_cases h : k = key <;> simp [lookup_cons_ite, h]
      · rename_i hne
        rw [lookup_cons_ite, lookup_cons_ite, ih]
        by_cases hk : k = j
        · rw [if_pos hk, if_pos hk, if_neg (fun h : k = key => hne (h.symm.trans hk))]
        · rw [if_neg hk, if_neg hk]

/-- What is in the map after an insertion: what is inserted, or what was there. -/
theorem mem_of_mem_insert {key : κ} {v : α} {map : List (κ × α)} {p : κ × α} (h : p ∈ insert key v map) :
    p = (key, v) ∨ p ∈ map := by
  induction map with
  | nil => exact Or.inl (List.mem_singleton.1 h)
  | cons q rest ih =>
    obtain ⟨k, w⟩ := q
    unfold insert at h
    split at h
    · exact List.mem_cons.1 h
    · split at h
      · exact (List.mem_cons.1 h).imp_right (List.mem_cons_of_mem _)
      · obtain rfl | h := List.mem_cons.1 h
        · exact Or.inr List.mem_cons_self
        · exact (ih h).imp_right (List.mem_cons_of_mem _)

/-! Entries put in one after the other, and entries made into others. -/

section Entries

variable {β : Type} {entries map : List (κ × α)}

/-- What is in the map after some entries are put in: one of them, or what was there. -/
theorem mem_of_mem_foldl_insert {p : κ × α} (h : p ∈ entries.foldl (fun map entry => insert entry.1 entry.2 map) map) :
    p ∈ map ∨ p ∈ entries := by
  induction entries generalizing map with
  | nil => exact Or.inl h
  | cons entry rest ih =>
    rcases ih h with h | h
    · rcases mem_of_mem_insert h with rfl | h
      · exact Or.inr List.mem_cons_self
      · exact Or.inl h
    · exact Or.inr (List.mem_cons_of_mem _ h)

/-- What is put in last under a key is what stays. -/
theorem lookup_foldl_insert_last (k : κ) :
    (entries.foldl (fun map entry => insert entry.1 entry.2 map) map).lookup k =
      (entries.reverse.lookup k).or (map.lookup k) := by
  induction entries generalizing map with
  | nil => rfl
  | cons entry rest ih =>
    rw [List.foldl_cons, ih, lookup_insert, List.reverse_cons, List.lookup_append, Option.or_assoc,
      lookup_cons_ite entry.1 entry.2]
    split <;> rfl

theorem insert_map (f : α → β) (key : κ) (v : α) (map : List (κ × α)) :
    insert key (f v) (map.map fun p => (p.1, f p.2)) = (insert key v map).map fun p => (p.1, f p.2) := by
  induction map with
  | nil => rfl
  | cons p rest ih =>
    rw [List.map_cons, insert, insert, ih]
    split
    · rfl
    · split <;> rfl

theorem foldl_insert_map (f : α → β) (entries map : List (κ × α)) :
    (entries.map fun p => (p.1, f p.2)).foldl (fun map entry => insert entry.1 entry.2 map)
        (map.map fun p => (p.1, f p.2)) =
      (entries.foldl (fun map entry => insert entry.1 entry.2 map) map).map fun p => (p.1, f p.2) := by
  induction entries generalizing map with
  | nil => rfl
  | cons entry rest ih => rw [List.map_cons, List.foldl_cons, List.foldl_cons, ← ih, ← insert_map f]

end Entries

section Ordered

variable {κ α : Type} [LinearOrder κ]

/-- Every key is below the keys after it. -/
def Sorted (map : List (κ × α)) : Prop := map.Pairwise fun p q => p.1 < q.1

theorem Sorted.nodup {map : List (κ × α)} (h : Sorted map) : (map.map Prod.fst).Nodup :=
  List.pairwise_map.2 (h.imp fun hlt => ne_of_lt hlt)

theorem Sorted.insert {map : List (κ × α)} (h : Sorted map) (key : κ) (v : α) : Sorted (insert key v map) := by
  induction map with
  | nil => exact List.pairwise_singleton _ _
  | cons p rest ih =>
    obtain ⟨k, w⟩ := p
    obtain ⟨hhead, hrest⟩ := List.pairwise_cons.1 h
    unfold SortedMap.insert
    split
    · rename_i hlt
      refine List.pairwise_cons.2 ⟨?_, h⟩
      intro q hq
      rcases List.mem_cons.1 hq with rfl | hq
      · exact hlt
      · exact lt_trans hlt (hhead q hq)
    · split
      · rename_i heq
        exact List.pairwise_cons.2 ⟨fun q hq => heq ▸ hhead q hq, hrest⟩
      · rename_i hnot hne
        refine List.pairwise_cons.2 ⟨?_, ih hrest⟩
        intro q hq
        rcases mem_of_mem_insert hq with rfl | hq
        · exact lt_of_le_of_ne (not_lt.1 hnot) (Ne.symm hne)
        · exact hhead q hq

theorem Sorted.foldl_insert {map : List (κ × α)} (h : Sorted map) (entries : List (κ × α)) :
    Sorted (entries.foldl (fun map entry => SortedMap.insert entry.1 entry.2 map) map) := by
  induction entries generalizing map with
  | nil => exact h
  | cons entry rest ih => exact ih (h.insert entry.1 entry.2)

theorem sorted_nil : Sorted ([] : List (κ × α)) := List.Pairwise.nil

private theorem lookup_head {p : κ × α} {rest : List (κ × α)} : (p :: rest).lookup p.1 = some p.2 := by
  rw [lookup_cons_ite p.1 p.2, if_pos rfl]

private theorem lookup_below {map : List (κ × α)} {key : κ} (h : ∀ p ∈ map, key < p.1) : map.lookup key = none := by
  rw [lookup_eq_none_iff_notMem]
  intro hmem
  obtain ⟨p, hp, rfl⟩ := List.mem_map.1 hmem
  exact lt_irrefl _ (h p hp)

/-- Maps in the order of their keys are the same where they hold the same. -/
theorem Sorted.ext {map other : List (κ × α)} (h : Sorted map) (h' : Sorted other)
    (hlookup : ∀ key, map.lookup key = other.lookup key) : map = other := by
  induction map generalizing other with
  | nil =>
    cases other with
    | nil => rfl
    | cons q rest => exact absurd ((hlookup q.1).trans lookup_head) (by simp)
  | cons p rest ih =>
    cases other with
    | nil => exact absurd (lookup_head.symm.trans (hlookup p.1)) (by simp)
    | cons q rest' =>
      obtain ⟨hp, hrest⟩ := List.pairwise_cons.1 h
      obtain ⟨hq, hrest'⟩ := List.pairwise_cons.1 h'
      have hkey : p.1 = q.1 := by
        rcases lt_trichotomy p.1 q.1 with hlt | heq | hlt
        · have hnone : (q :: rest').lookup p.1 = none :=
            lookup_below (List.forall_mem_cons.2 ⟨hlt, fun r hr => lt_trans hlt (hq r hr)⟩)
          exact absurd (lookup_head.symm.trans ((hlookup p.1).trans hnone)) (by simp)
        · exact heq
        · have hnone : (p :: rest).lookup q.1 = none :=
            lookup_below (List.forall_mem_cons.2 ⟨hlt, fun r hr => lt_trans hlt (hp r hr)⟩)
          exact absurd (hnone.symm.trans ((hlookup q.1).trans lookup_head)) (by simp)
      have hvalue : p.2 = q.2 := by
        have := hlookup p.1
        rw [lookup_head, hkey, lookup_head] at this
        exact Option.some.inj this
      obtain rfl : p = q := Prod.ext hkey hvalue
      refine congrArg (p :: ·) (ih hrest hrest' fun key => ?_)
      by_cases hk : key = p.1
      · rw [hk, lookup_below hp, lookup_below hq]
      · have := hlookup key
        rwa [lookup_cons_ite p.1 p.2, lookup_cons_ite p.1 p.2, if_neg hk, if_neg hk] at this

/-- Maps in the order of their keys are the same where they have the same entries. -/
theorem Sorted.ext_mem {map other : List (κ × α)} (h : Sorted map) (h' : Sorted other) (hmem : ∀ p, p ∈ map ↔ p ∈ other) :
    map = other := by
  refine h.ext h' fun key => Option.ext fun v => ?_
  constructor
  · intro hlookup
    exact lookup_of_mem h'.nodup ((hmem _).1 (mem_of_lookup hlookup))
  · intro hlookup
    exact lookup_of_mem h.nodup ((hmem _).2 (mem_of_lookup hlookup))

theorem Sorted.unique {map : List (κ × α)} (h : Sorted map) {key : κ} {v w : α} (hv : (key, v) ∈ map)
    (hw : (key, w) ∈ map) : v = w :=
  Option.some.inj ((lookup_of_mem h.nodup hv).symm.trans (lookup_of_mem h.nodup hw))

/-- What is under a key is the one thing there. -/
theorem Sorted.mem_iff_lookup {map : List (κ × α)} (h : Sorted map) {key : κ} {v : α} :
    (key, v) ∈ map ↔ map.lookup key = some v :=
  ⟨fun hmem => lookup_of_mem h.nodup hmem, mem_of_lookup⟩

/-- Puts a key in where there was none. -/
def insertNew (key : κ) (v : α) (map : List (κ × α)) : List (κ × α) :=
  if (map.lookup key).isSome then map else SortedMap.insert key v map

theorem Sorted.foldl_insertNew {map : List (κ × α)} (h : Sorted map) (entries : List (κ × α)) :
    Sorted (entries.foldl (fun map entry => insertNew entry.1 entry.2 map) map) := by
  induction entries generalizing map with
  | nil => exact h
  | cons entry rest ih =>
    have hstep : Sorted (insertNew entry.1 entry.2 map) := by
      unfold insertNew
      split
      · exact h
      · exact h.insert entry.1 entry.2
    exact ih hstep

/-- What is put in first under a key is what stays. -/
theorem lookup_foldl_insertNew (entries map : List (κ × α)) (k : κ) :
    (entries.foldl (fun map entry => insertNew entry.1 entry.2 map) map).lookup k = (map.lookup k).or (entries.lookup k) := by
  induction entries generalizing map with
  | nil => rw [List.foldl_nil, List.lookup_nil, Option.or_none]
  | cons entry rest ih =>
    have hstep : (insertNew entry.1 entry.2 map).lookup k = (map.lookup k).or (if k = entry.1 then some entry.2 else none) := by
      unfold insertNew
      cases hmap : map.lookup entry.1 with
      | some v =>
        rw [Option.isSome_some, if_pos rfl]
        split
        · rename_i hk
          rw [hk, hmap]
          rfl
        · rw [Option.or_none]
      | none =>
        rw [Option.isSome_none, if_neg Bool.false_ne_true, lookup_insert]
        split
        · rename_i hk
          rw [hk, hmap]
          rfl
        · rw [Option.or_none]
    rw [List.foldl_cons, ih, hstep, lookup_cons_ite entry.1 entry.2, Option.or_assoc]
    split <;> rfl

/-- Entries made into others of their keys, some left out, stay in order. -/
theorem Sorted.filterMap {β : Type} {map : List (κ × α)} (h : Sorted map) (f : κ × α → Option β) :
    Sorted (map.filterMap fun p => (f p).map fun b => (p.1, b)) := by
  refine List.Pairwise.filterMap _ (fun p q hlt p' hp q' hq => ?_) h
  obtain ⟨a, -, rfl⟩ := Option.map_eq_some_iff.1 hp
  obtain ⟨b, -, rfl⟩ := Option.map_eq_some_iff.1 hq
  exact hlt

end Ordered

section Nested

variable {κ ι α : Type} [LinearOrder κ] [LinearOrder ι] {maps others : List (κ × List (ι × α))}

/-- A map of maps in the order of their keys, none of the maps in it empty. -/
structure Nested (maps : List (κ × List (ι × α))) : Prop where
  sorted : Sorted maps
  inner : ∀ entry ∈ maps, Sorted entry.2 ∧ entry.2 ≠ []

private theorem mem_of_items (h : Nested maps) (h' : Nested others)
    (hitems : ∀ key item, (∃ map, (key, map) ∈ maps ∧ item ∈ map) ↔ ∃ map, (key, map) ∈ others ∧ item ∈ map)
    {key : κ} {map : List (ι × α)} (hmap : (key, map) ∈ maps) : (key, map) ∈ others := by
  obtain ⟨hsorted, hne⟩ := h.inner _ hmap
  obtain ⟨item, hitem⟩ := List.exists_mem_of_ne_nil _ hne
  obtain ⟨other, hother, -⟩ := (hitems key item).1 ⟨map, hmap, hitem⟩
  have hsame : map = other := by
    refine hsorted.ext_mem (h'.inner _ hother).1 fun p => ?_
    constructor
    · intro hp
      obtain ⟨found, hfound, hp'⟩ := (hitems key p).1 ⟨map, hmap, hp⟩
      rwa [h'.sorted.unique hother hfound]
    · intro hp
      obtain ⟨found, hfound, hp'⟩ := (hitems key p).2 ⟨other, hother, hp⟩
      rwa [h.sorted.unique hmap hfound]
  rwa [hsame]

/-- Two such maps are the same where they hold the same. -/
theorem Nested.ext (h : Nested maps) (h' : Nested others)
    (hitems : ∀ key item, (∃ map, (key, map) ∈ maps ∧ item ∈ map) ↔ ∃ map, (key, map) ∈ others ∧ item ∈ map) :
    maps = others :=
  h.sorted.ext_mem h'.sorted fun _ =>
    ⟨mem_of_items h h' hitems, mem_of_items h' h fun key item => (hitems key item).symm⟩

end Nested

end PactJanus.Lib.SortedMap

namespace PactJanus.Lib

open PactJanus.Lib.SortedMap

/-- A map that is its entries in the order of their keys. -/
structure OrderedMap (κ α : Type) [LinearOrder κ] where
  entries : List (κ × α)
  sorted : Sorted entries

variable {κ α : Type} [LinearOrder κ]

namespace OrderedMap

def empty : OrderedMap κ α := ⟨[], sorted_nil⟩

def get (map : OrderedMap κ α) (key : κ) : Option α := map.entries.lookup key

def insert (map : OrderedMap κ α) (key : κ) (v : α) : OrderedMap κ α :=
  ⟨SortedMap.insert key v map.entries, map.sorted.insert key v⟩

@[simp] theorem get_empty (key : κ) : (empty : OrderedMap κ α).get key = none := rfl

theorem get_insert (map : OrderedMap κ α) (key : κ) (v : α) (k : κ) :
    (map.insert key v).get k = if k = key then some v else map.get k :=
  lookup_insert key v map.entries k

@[simp] theorem get_insert_self (map : OrderedMap κ α) (key : κ) (v : α) : (map.insert key v).get key = some v := by
  rw [get_insert, if_pos rfl]

theorem get_insert_of_ne (map : OrderedMap κ α) {key k : κ} (v : α) (h : k ≠ key) :
    (map.insert key v).get k = map.get k := by
  rw [get_insert, if_neg h]

/-- Two maps are the same where they hold the same. -/
theorem ext_get {map other : OrderedMap κ α} (h : ∀ key, map.get key = other.get key) : map = other := by
  obtain ⟨entries, hsorted⟩ := map
  obtain ⟨entries', hsorted'⟩ := other
  obtain rfl : entries = entries' := hsorted.ext hsorted' h
  rfl

/-- A thing that is there already is not put in anew. -/
theorem insert_of_get {map : OrderedMap κ α} {key : κ} {v : α} (h : map.get key = some v) : map.insert key v = map := by
  apply ext_get
  intro k
  by_cases hk : k = key
  · rw [hk, get_insert_self, h]
  · exact get_insert_of_ne map v hk

end OrderedMap

end PactJanus.Lib
