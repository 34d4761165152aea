import PactJanus.Lib.SortedMap

namespace PactJanus.Lib.Multimap

open PactJanus.Lib.Lists PactJanus.Lib.SortedMap

/-! Lists of values by their keys. -/

section Keyed

variable {κ α : Type} [DecidableEq κ]

/-- The values a key goes with, in their order. -/
def valuesOf (key : κ) (pairs : List (κ × α)) : List α := (pairs.filter fun p => p.1 = key).map Prod.snd

def pairsOf (map : List (κ × List α)) : List (κ × α) := map.flatMap fun (key, values) => values.map fun v => (key, v)

/-- A value after those its key has, under a new key after the others where it has none. -/
def append (key : κ) (v : α) : List (κ × List α) → List (κ × List α)
  | [] => [(key, [v])]
  | (k, values) :: rest => if k = key then (k, values ++ [v]) :: rest else (k, values) :: append key v rest

/-- What a step that adds one value leaves under every key. -/
def Adds (step : List (κ × List α) → κ × α → List (κ × List α)) : Prop :=
  ∀ map p k, (step map p).lookup k = if k = p.1 then some ((map.lookup k).getD [] ++ [p.2]) else map.lookup k

theorem adds_append : Adds fun (map : List (κ × List α)) p => append p.1 p.2 map := by
  intro map p k
  change (append p.1 p.2 map).lookup k = _
  induction map with
  | nil => exact lookup_cons_ite ..
  | cons entry rest ih =>
    obtain ⟨j, values⟩ := entry
    rw [append]
    split
    · rename_i hj
      rw [lookup_cons_ite, lookup_cons_ite, hj]
      by_cases hk : k = p.1 <;> simp [hk]
    · rename_i hj
      rw [lookup_cons_ite, lookup_cons_ite, ih]
      by_cases hk : k = j
      · rw [if_pos hk, if_neg fun h => hj (hk ▸ h), if_pos hk]
      · rw [if_neg hk, if_neg hk]

theorem valuesOf_cons (k : κ) (p : κ × α) (pairs : List (κ × α)) :
    valuesOf k (p :: pairs) = if p.1 = k then p.2 :: valuesOf k pairs else valuesOf k pairs := by
  by_cases h : p.1 = k <;> simp [valuesOf, h]

theorem valuesOf_append (k : κ) (pairs others : List (κ × α)) :
    valuesOf k (pairs ++ others) = valuesOf k pairs ++ valuesOf k others := by
  rw [valuesOf, List.filter_append, List.map_append]
  rfl

/-- What is under a key once a list of values is added. -/
theorem lookup_foldl_adds {step : List (κ × List α) → κ × α → List (κ × List α)} (hstep : Adds step)
    (pairs : List (κ × α)) (map : List (κ × List α)) (k : κ) :
    (pairs.foldl step map).lookup k =
      if valuesOf k pairs = [] then map.lookup k else some ((map.lookup k).getD [] ++ valuesOf k pairs) := by
  induction pairs generalizing map with
  | nil => rfl
  | cons p rest ih =>
    rw [List.foldl_cons, ih, hstep, valuesOf_cons]
    by_cases hk : k = p.1
    · rw [if_pos hk, if_pos hk.symm, if_neg (List.cons_ne_nil _ _), Option.getD_some, List.append_assoc]
      split
      · rename_i hrest
        rw [hrest]
      · rfl
    · rw [if_neg hk, if_neg (Ne.symm hk)]

theorem valuesOf_pairsOf {map : List (κ × List α)} (h : (map.map Prod.fst).Nodup) (k : κ) :
    valuesOf k (pairsOf map) = (map.lookup k).getD [] := by
  induction map with
  | nil => rfl
  | cons entry rest ih =>
    obtain ⟨j, values⟩ := entry
    obtain ⟨hnot, hrest⟩ := List.nodup_cons.1 h
    rw [pairsOf, List.flatMap_cons, valuesOf_append, ← pairsOf, ih hrest, lookup_cons_ite]
    by_cases hk : k = j
    · subst hk
      rw [lookup_eq_none_iff_notMem.2 hnot, if_pos rfl, Option.getD_none, Option.getD_some, List.append_nil, valuesOf,
        List.filter_eq_self.2 (by simp), List.map_map]
      exact List.map_id _
    · rw [if_neg hk]
      simp [valuesOf, Ne.symm hk]

theorem valuesOf_map {κ' β : Type} [DecidableEq κ'] {f : κ → κ'} (hf : Function.Injective f) (g : α → β)
    (pairs : List (κ × α)) (k : κ) : valuesOf (f k) (pairs.map fun p => (f p.1, g p.2)) = (valuesOf k pairs).map g := by
  induction pairs with
  | nil => rfl
  | cons p rest ih =>
    rw [List.map_cons, valuesOf_cons, valuesOf_cons, ih]
    by_cases hp : p.1 = k
    · rw [if_pos (congrArg f hp), if_pos hp, List.map_cons]
    · rw [if_neg fun heq => hp (hf heq), if_neg hp]

/-- Values under keys that stay apart, from the values under the keys they had. -/
theorem valuesOf_map_congr {κ' β : Type} [DecidableEq κ'] {f : κ → κ'} (hf : Function.Injective f) (g : α → β)
    {pairs others : List (κ × α)} (h : ∀ k, valuesOf k pairs = valuesOf k others) (k : κ') :
    valuesOf k (pairs.map fun p => (f p.1, g p.2)) = valuesOf k (others.map fun p => (f p.1, g p.2)) := by
  have houtside : ∀ l : List (κ × α), (¬∃ j, f j = k) → valuesOf k (l.map fun p => (f p.1, g p.2)) = [] := by
    intro l hk
    rw [valuesOf, List.filter_eq_nil_iff.2, List.map_nil]
    intro q hq
    obtain ⟨p, -, rfl⟩ := List.mem_map.1 hq
    exact fun heq => hk ⟨p.1, of_decide_eq_true heq⟩
  by_cases hk : ∃ j, f j = k
  · obtain ⟨j, rfl⟩ := hk
    rw [valuesOf_map hf, valuesOf_map hf, h]
  · rw [houtside _ hk, houtside _ hk]

theorem keys_append (key : κ) (v : α) (map : List (κ × List α)) :
    (append key v map).map Prod.fst =
      if key ∈ map.map Prod.fst then map.map Prod.fst else map.map Prod.fst ++ [key] := by
  induction map with
  | nil => rfl
  | cons entry rest ih =>
    obtain ⟨j, values⟩ := entry
    rw [append]
    by_cases hj : j = key
    · simp [hj]
    · rw [if_neg hj, List.map_cons, ih, List.map_cons]
      by_cases hmem : key ∈ rest.map Prod.fst
      · rw [if_pos hmem, if_pos (List.mem_cons_of_mem _ hmem)]
      · rw [if_neg hmem, if_neg (by rintro (_ | ⟨_, h⟩); exacts [hj rfl, hmem h]), List.cons_append]

theorem append_nodup {map : List (κ × List α)} (h : (map.map Prod.fst).Nodup) (key : κ) (v : α) :
    ((append key v map).map Prod.fst).Nodup := by
  rw [keys_append]
  split
  · exact h
  · rename_i hnot
    exact List.nodup_append.2 ⟨h, List.pairwise_singleton _ _, fun a ha b hb => by
      rw [List.mem_singleton.1 hb]
      rintro rfl
      exact hnot ha⟩

/-- The values every key goes with once pairs are added one after another. -/
theorem valuesOf_foldl_append (pairs : List (κ × α)) {map : List (κ × List α)}
    (h : (map.map Prod.fst).Nodup) (k : κ) :
    valuesOf k (pairsOf (pairs.foldl (fun map p => append p.1 p.2 map) map)) =
      valuesOf k (pairsOf map) ++ valuesOf k pairs := by
  have hnodup : ((pairs.foldl (fun map p => append p.1 p.2 map) map).map Prod.fst).Nodup := by
    induction pairs generalizing map with
    | nil => exact h
    | cons p rest ih => exact ih (append_nodup h p.1 p.2)
  rw [valuesOf_pairsOf hnodup, valuesOf_pairsOf h, lookup_foldl_adds adds_append]
  split
  · rename_i hnil
    rw [hnil, List.append_nil]
  · rfl

theorem append_filled {map : List (κ × List α)} (h : ∀ p ∈ map, p.2 ≠ []) (key : κ) (v : α) :
    ∀ p ∈ append key v map, p.2 ≠ [] := by
  induction map with
  | nil =>
    intro p hp
    rw [List.mem_singleton.1 hp]
    exact List.cons_ne_nil _ _
  | cons entry rest ih =>
    obtain ⟨hhead, hrest⟩ := List.forall_mem_cons.1 h
    rw [append]
    split
    · exact List.forall_mem_cons.2 ⟨by simp, hrest⟩
    · exact List.forall_mem_cons.2 ⟨hhead, ih hrest⟩

theorem lookup_pairsOf {map : List (κ × List α)} (h : ∀ p ∈ map, p.2 ≠ []) (k : κ) :
    (pairsOf map).lookup k = (map.lookup k).bind List.head? := by
  induction map with
  | nil => rfl
  | cons entry rest ih =>
    obtain ⟨j, values⟩ := entry
    obtain ⟨hne, hrest⟩ := List.forall_mem_cons.1 h
    obtain ⟨v, others, rfl⟩ := List.exists_cons_of_ne_nil hne
    rw [pairsOf, List.flatMap_cons, List.lookup_append, ← pairsOf, ih hrest, lookup_cons_ite]
    dsimp only
    by_cases hk : k = j
    · rw [if_pos hk, hk, List.map_cons, lookup_cons_ite, if_pos rfl]
      rfl
    · have hblock : ((v :: others).map fun v => (j, v)).lookup k = none := by
        rw [lookup_eq_none_iff_notMem, List.map_map]
        intro hmem
        obtain ⟨w, -, hw⟩ := List.mem_map.1 hmem
        exact hk hw.symm
      rw [hblock, if_neg hk, Option.none_or]

theorem foldl_append_of_ne {key : κ} {pairs : List (κ × α)} (h : ∀ p ∈ pairs, p.1 ≠ key) (values : List α)
    (map : List (κ × List α)) :
    pairs.foldl (fun map p => append p.1 p.2 map) ((key, values) :: map) =
      (key, values) :: pairs.foldl (fun map p => append p.1 p.2 map) map := by
  induction pairs generalizing map with
  | nil => rfl
  | cons p rest ih =>
    obtain ⟨hp, hrest⟩ := List.forall_mem_cons.1 h
    rw [List.foldl_cons, append, if_neg hp.symm, ih hrest, List.foldl_cons]

theorem foldl_append_same (key : κ) (others values : List α) :
    (others.map fun v => (key, v)).foldl (fun map p => append p.1 p.2 map) [(key, values)] = [(key, values ++ others)] := by
  induction others generalizing values with
  | nil => rw [List.append_nil]; rfl
  | cons v rest ih =>
    rw [List.map_cons, List.foldl_cons, append, if_pos rfl, ih, List.append_assoc]
    rfl

/-- Pairs whose keys stand together, in the order of a map, are grouped as they stand. -/
theorem pairsOf_foldl_append {β : Type} {map : List (κ × List β)} (h : (map.map Prod.fst).Nodup) {pairs : List (κ × α)}
    (hkeys : pairs.map Prod.fst = (pairsOf map).map Prod.fst) :
    pairsOf (pairs.foldl (fun map p => append p.1 p.2 map) []) = pairs := by
  induction map generalizing pairs with
  | nil =>
    obtain rfl := List.map_eq_nil_iff.1 hkeys
    rfl
  | cons entry rest ih =>
    obtain ⟨key, values⟩ := entry
    obtain ⟨hnot, hrest⟩ := List.nodup_cons.1 h
    rw [pairsOf, List.flatMap_cons, List.map_append, ← pairsOf] at hkeys
    obtain ⟨block, others, rfl, hblock, hothers⟩ := List.map_eq_append_iff.1 hkeys
    have hne : ∀ p ∈ others, p.1 ≠ key := by
      rintro p hp rfl
      have hmem : p.1 ∈ (pairsOf rest).map Prod.fst := hothers ▸ List.mem_map_of_mem hp
      obtain ⟨q, hq, hkey⟩ := List.mem_map.1 hmem
      obtain ⟨entry, hentry, hpair⟩ := List.mem_flatMap.1 hq
      obtain ⟨v, -, rfl⟩ := List.mem_map.1 hpair
      exact hnot (hkey ▸ List.mem_map_of_mem hentry)
    have hsame : ∀ p ∈ block, p.1 = key := by
      intro p hp
      have hmem : p.1 ∈ (values.map fun v => (key, v)).map Prod.fst := hblock ▸ List.mem_map_of_mem hp
      obtain ⟨q, hq, hkey⟩ := List.mem_map.1 hmem
      obtain ⟨v, -, rfl⟩ := List.mem_map.1 hq
      exact hkey.symm
    rw [List.foldl_append]
    cases block with
    | nil => exact ih hrest hothers
    | cons p tail =>
      have htail : tail = (tail.map Prod.snd).map fun v => (key, v) := by
        rw [List.map_map]
        conv_lhs => rw [← List.map_id tail]
        exact List.map_congr_left fun q hq => Prod.ext (hsame q (List.mem_cons_of_mem _ hq)) rfl
      have hp : p = (key, p.2) := Prod.ext (hsame p List.mem_cons_self) rfl
      rw [List.foldl_cons, hp, append, htail, foldl_append_same, foldl_append_of_ne hne, pairsOf, List.flatMap_cons,
        ← pairsOf, ih hrest hothers]
      rfl

end Keyed

variable {κ α : Type} [LinearOrder κ]

/-- A value after those its key has, in a map in the order of its keys. -/
def push (key : κ) (v : α) (map : List (κ × List α)) : List (κ × List α) :=
  SortedMap.insert key ((map.lookup key).getD [] ++ [v]) map

def grouped (pairs : List (κ × α)) : List (κ × List α) := pairs.foldl (fun map p => push p.1 p.2 map) []

theorem adds_push : Adds fun (map : List (κ × List α)) p => push p.1 p.2 map := by
  intro map p k
  change (push p.1 p.2 map).lookup k = _
  rw [push, lookup_insert]
  split
  · rename_i hk
    rw [hk]
  · rfl

theorem sorted_grouped (pairs : List (κ × α)) : Sorted (grouped pairs) := by
  have hfold : ∀ map : List (κ × List α), Sorted map → Sorted (pairs.foldl (fun map p => push p.1 p.2 map) map) := by
    induction pairs with
    | nil => exact fun _ h => h
    | cons p rest ih => exact fun map h => ih _ (h.insert _ _)
  exact hfold [] sorted_nil

theorem lookup_grouped (pairs : List (κ × α)) (k : κ) :
    (grouped pairs).lookup k = if valuesOf k pairs = [] then none else some (valuesOf k pairs) :=
  lookup_foldl_adds adds_push pairs [] k

theorem mem_valuesOf {k : κ} {v : α} {pairs : List (κ × α)} : v ∈ valuesOf k pairs ↔ (k, v) ∈ pairs := by
  simp [valuesOf]

/-- An entry of grouped values has some, each from a pair. -/
theorem of_mem_grouped {pairs : List (κ × α)} {p : κ × List α} (h : p ∈ grouped pairs) :
    p.2 ≠ [] ∧ ∀ v ∈ p.2, (p.1, v) ∈ pairs := by
  have hlookup := lookup_of_mem (sorted_grouped pairs).nodup h
  rw [lookup_grouped] at hlookup
  split at hlookup
  · exact nomatch hlookup
  · rename_i hne
    rw [← Option.some.inj hlookup]
    exact ⟨hne, fun v hv => mem_valuesOf.1 hv⟩

/-- Grouping depends on nothing but the values each key goes with. -/
theorem grouped_congr {pairs others : List (κ × α)} (h : ∀ k, valuesOf k pairs = valuesOf k others) :
    grouped pairs = grouped others :=
  (sorted_grouped pairs).ext (sorted_grouped others) fun k => by rw [lookup_grouped, lookup_grouped, h]

theorem valuesOf_pairsOf_grouped (pairs : List (κ × α)) (k : κ) :
    valuesOf k (pairsOf (grouped pairs)) = valuesOf k pairs := by
  rw [valuesOf_pairsOf (sorted_grouped pairs).nodup, lookup_grouped]
  split
  · rename_i h
    exact h.symm
  · rfl

theorem grouped_pairsOf_grouped (pairs : List (κ × α)) : grouped (pairsOf (grouped pairs)) = grouped pairs :=
  grouped_congr (valuesOf_pairsOf_grouped pairs)

end PactJanus.Lib.Multimap
