import Mathlib.Data.List.Induction
import PactJanus.Data.Equality
import PactJanus.Recording.Observe

namespace PactJanus.Recording.Evidence

open PactJanus.Data.Json PactJanus.Data.Equality PactJanus.Lib PactJanus.Lib.Lists PactJanus.Recording.Observe

/-! What a profile knows of the values it has seen. -/

/-- The profile of a position that held some values. -/
def evidence (vs : List Json) : Profile := vs.foldl (fun p v => observe v p) Profile.empty

theorem evidence_append (vs : List Json) (v : Json) : evidence (vs ++ [v]) = observe v (evidence vs) := by
  rw [evidence, List.foldl_append]
  rfl

def isScalar : Json → Bool
  | .bool _ | .number _ | .string _ => true
  | _ => false

def isString : Json → Bool
  | .string _ => true
  | _ => false

def isBoolean : Json → Bool
  | .bool _ => true
  | _ => false

def isInteger : Json → Bool
  | .number n => isWrittenInteger n
  | _ => false

def isDecimal : Json → Bool
  | .number n => !isWrittenInteger n
  | _ => false

/-! The scalars. -/

/-- The flat part of the profile of some values. -/
structure FlatOf (vs : List Json) (flat : Flat) : Prop where
  seen : flat.seen = vs.length
  nulls : flat.nulls = vs.countP isNull
  scalars : flat.scalars = vs.countP isScalar
  strings : flat.strings = vs.any isString
  booleans : flat.booleans = vs.any isBoolean
  integers : flat.integers = vs.any isInteger
  decimals : flat.decimals = vs.any isDecimal
  sorted : SortedMap.Sorted flat.literals
  seenBefore : ∀ p ∈ flat.literals, p.2 ∈ vs ∧ isScalar p.2 = true ∧ canonical p.2 = p.1
  present : ∀ v ∈ vs, isScalar v = true → ∃ w, flat.literals.lookup (canonical v) = some w

private theorem literals_sawScalar {vs : List Json} {flat : Flat} {v : Json} (h : FlatOf vs flat) (hv : isScalar v = true) :
    SortedMap.Sorted (flat.sawScalar v).literals ∧
      (∀ p ∈ (flat.sawScalar v).literals, p.2 ∈ vs ++ [v] ∧ isScalar p.2 = true ∧ canonical p.2 = p.1) ∧
      ∀ w ∈ vs ++ [v], isScalar w = true → ∃ u, (flat.sawScalar v).literals.lookup (canonical w) = some u := by
  unfold Flat.sawScalar
  cases hfound : flat.literals.lookup (canonical v) with
  | some u =>
    refine ⟨h.sorted, fun p hp => ?_, fun w hw hscalar => ?_⟩
    · obtain ⟨hmem, hp'⟩ := h.seenBefore p hp
      exact ⟨List.mem_append_left _ hmem, hp'⟩
    · rcases List.mem_append.1 hw with hw | hw
      · exact h.present w hw hscalar
      · obtain rfl := List.mem_singleton.1 hw
        exact ⟨u, hfound⟩
  | none =>
    refine ⟨h.sorted.insert _ _, fun p hp => ?_, fun w hw hscalar => ?_⟩
    · rcases SortedMap.mem_of_mem_insert hp with rfl | hp
      · exact ⟨by simp, hv, rfl⟩
      · obtain ⟨hmem, hp'⟩ := h.seenBefore p hp
        exact ⟨List.mem_append_left _ hmem, hp'⟩
    · simp only [SortedMap.lookup_insert]
      by_cases hsame : canonical w = canonical v
      · exact ⟨v, if_pos hsame⟩
      · rw [if_neg hsame]
        rcases List.mem_append.1 hw with hw | hw
        · exact h.present w hw hscalar
        · obtain rfl := List.mem_singleton.1 hw
          exact absurd rfl hsame

private theorem flatOf_other {vs : List Json} {flat : Flat} {v : Json} (h : FlatOf vs flat) (hv : isScalar v = false) :
    FlatOf (vs ++ [v]) { flat with seen := flat.seen + 1, nulls := flat.nulls + (isNull v).toNat } := by
  obtain ⟨hseen, hnulls, hscalars, hstrings, hbooleans, hintegers, hdecimals, hsorted, hbefore, hpresent⟩ := h
  refine ⟨?_, ?_, ?_, ?_, ?_, ?_, ?_, hsorted, fun p hp => ?_, fun w hw hscalar => ?_⟩
  · simp [hseen]
  · cases hnull : isNull v <;> simp [hnulls, hnull]
  · simp [hscalars, hv]
  · cases v <;> simp_all [isScalar, isString]
  · cases v <;> simp_all [isScalar, isBoolean]
  · cases v <;> simp_all [isScalar, isInteger]
  · cases v <;> simp_all [isScalar, isDecimal]
  · exact ⟨List.mem_append_left _ (hbefore p hp).1, (hbefore p hp).2⟩
  · rcases List.mem_append.1 hw with hw | hw
    · exact hpresent w hw hscalar
    · obtain rfl := List.mem_singleton.1 hw
      exact absurd hscalar (by simp [hv])

private theorem flatOf_scalar {vs : List Json} {flat : Flat} {v : Json} (h : FlatOf vs flat) (hv : isScalar v = true) :
    FlatOf (vs ++ [v]) ({ flat with seen := flat.seen + 1 }.sawScalar v) := by
  obtain ⟨hsorted, hbefore, hpresent⟩ := literals_sawScalar h hv
  obtain ⟨hseen, hnulls, hscalars, hstrings, hbooleans, hintegers, hdecimals, -, -, -⟩ := h
  refine ⟨?_, ?_, ?_, ?_, ?_, ?_, ?_, hsorted, hbefore, hpresent⟩
  · simp [Flat.sawScalar, hseen]
  · cases v <;> simp_all [Flat.sawScalar, isScalar, isNull]
  · simp [Flat.sawScalar, hscalars, hv]
  · cases v <;> simp_all [Flat.sawScalar, isScalar, isString]
  · cases v <;> simp_all [Flat.sawScalar, isScalar, isBoolean]
  · cases v <;> simp_all [Flat.sawScalar, isScalar, isInteger]
  · cases v <;> simp_all [Flat.sawScalar, isScalar, isDecimal]

private theorem flatOf_saw {vs : List Json} {flat : Flat} (h : FlatOf vs flat) (v : Json) : FlatOf (vs ++ [v]) (flat.saw v) := by
  cases v with
  | null => exact flatOf_other h rfl
  | object members => exact flatOf_other h rfl
  | array items => exact flatOf_other h rfl
  | bool b => exact flatOf_scalar h rfl
  | number n => exact flatOf_scalar h rfl
  | string s => exact flatOf_scalar h rfl

private theorem flat_observe (v : Json) (p : Profile) : (observe v p).flat = p.flat.saw v := by
  obtain ⟨flat, object, array⟩ := p
  cases v <;> rfl

theorem flatOf_evidence (vs : List Json) : FlatOf vs (evidence vs).flat := by
  induction vs using List.reverseRecOn with
  | nil => exact ⟨rfl, rfl, rfl, rfl, rfl, rfl, rfl, List.Pairwise.nil, by simp [evidence, Profile.empty, Profile.flat, Flat.empty], by simp⟩
  | append_singleton vs v ih =>
    rw [evidence_append, flat_observe]
    exact flatOf_saw ih v

private theorem literals_saw (flat : Flat) (v : Json) :
    (flat.saw v).literals = if isScalar v then (flat.sawScalar v).literals else flat.literals := by
  cases v <;> rfl

private theorem lookup_sawScalar (flat : Flat) (v : Json) (key : String) :
    (flat.sawScalar v).literals.lookup key =
      (flat.literals.lookup key).or (if canonical v = key then some v else none) := by
  unfold Flat.sawScalar
  cases hfound : flat.literals.lookup (canonical v) with
  | some w =>
    dsimp only
    split_ifs with hkey
    · rw [← hkey, hfound, Option.some_or]
    · rw [Option.or_none]
  | none =>
    dsimp only
    rw [SortedMap.lookup_insert]
    by_cases hkey : canonical v = key
    · rw [if_pos hkey.symm, if_pos hkey, ← hkey, hfound, Option.none_or]
    · rw [if_neg (Ne.symm hkey), if_neg hkey, Option.or_none]

/-- The literal kept under a key is the first scalar that was seen with it. -/
theorem lookup_literals (vs : List Json) (key : String) :
    (evidence vs).flat.literals.lookup key = vs.find? fun v => isScalar v && canonical v == key := by
  induction vs using List.reverseRecOn with
  | nil => rfl
  | append_singleton vs v ih =>
    rw [evidence_append, flat_observe, literals_saw, List.find?_append, ← ih, List.find?_singleton]
    cases hscalar : isScalar v with
    | false => simp
    | true =>
      rw [if_pos rfl, lookup_sawScalar]
      by_cases hkey : canonical v = key <;> simp [hkey]

/-! The objects. -/

private theorem object_observe (v : Json) (p : Profile) :
    (observe v p).object = match asObject v with
      | some members => some (sawObject (observeMembers members) p.object)
      | none => p.object := by
  obtain ⟨flat, object, array⟩ := p
  cases v <;> rfl

/-- The profiles of the members of some objects. -/
def memberProfiles (objects : List (List (String × Json))) : List (String × Profile) :=
  objects.foldl (fun members object => observeMembers object members) []

/-- The objects among some values. -/
def objectsIn (vs : List Json) : List (List (String × Json)) := vs.filterMap asObject

/-- The values of one member, in the objects that have it. -/
def membersNamed (name : String) (objects : List (List (String × Json))) : List Json :=
  objects.filterMap fun object => object.lookup name

theorem object_evidence (vs : List Json) :
    (evidence vs).object = if objectsIn vs = [] then none
      else some ⟨(objectsIn vs).length, memberProfiles (objectsIn vs)⟩ := by
  induction vs using List.reverseRecOn with
  | nil => rfl
  | append_singleton vs v ih =>
    rw [evidence_append, object_observe]
    cases hv : asObject v with
    | none =>
      have hobjects : objectsIn (vs ++ [v]) = objectsIn vs := by simp [objectsIn, hv]
      rw [hobjects]
      exact ih
    | some members =>
      have hobjects : objectsIn (vs ++ [v]) = objectsIn vs ++ [members] := by simp [objectsIn, hv]
      simp only [hobjects, ih, List.append_eq_nil_iff, List.cons_ne_self, and_false, if_false, List.length_append,
        List.length_singleton, memberProfiles, List.foldl_append, List.foldl_cons, List.foldl_nil]
      split_ifs with hempty
      · simp [hempty, sawObject]
      · simp [sawObject]

theorem sorted_observeMembers (object : List (String × Json)) {members : List (String × Profile)}
    (h : SortedMap.Sorted members) : SortedMap.Sorted (observeMembers object members) := by
  induction object generalizing members with
  | nil => exact h
  | cons p rest ih => exact ih (h.insert _ _)

theorem sorted_memberProfiles (objects : List (List (String × Json))) : SortedMap.Sorted (memberProfiles objects) := by
  induction objects using List.reverseRecOn with
  | nil => exact List.Pairwise.nil
  | append_singleton objects object ih =>
    rw [memberProfiles, List.foldl_append]
    exact sorted_observeMembers object ih

private theorem lookup_observeMembers {object : List (String × Json)} (hd : (object.map Prod.fst).Nodup)
    (members : List (String × Profile)) (name : String) :
    (observeMembers object members).lookup name = match object.lookup name with
      | some v => some (observe v ((members.lookup name).getD Profile.empty))
      | none => members.lookup name := by
  induction object generalizing members with
  | nil => rfl
  | cons p rest ih =>
    obtain ⟨key, v⟩ := p
    obtain ⟨hfresh, hd⟩ := List.nodup_cons.1 hd
    rw [observeMembers, ih hd, lookup_cons_ite, SortedMap.lookup_insert]
    by_cases hkey : name = key
    · subst hkey
      rw [if_pos rfl, if_pos rfl, lookup_eq_none_iff_notMem.2 hfresh]
    · rw [if_neg hkey, if_neg hkey]

/-- A member's profile is that of the values it had. -/
theorem lookup_memberProfiles {objects : List (List (String × Json))} (hd : ∀ object ∈ objects, (object.map Prod.fst).Nodup)
    (name : String) :
    (memberProfiles objects).lookup name =
      if membersNamed name objects = [] then none else some (evidence (membersNamed name objects)) := by
  induction objects using List.reverseRecOn with
  | nil => rfl
  | append_singleton objects object ih =>
    have hd' : ∀ object ∈ objects, (object.map Prod.fst).Nodup := fun o ho => hd o (List.mem_append_left _ ho)
    have hstep : (memberProfiles (objects ++ [object])).lookup name =
        (observeMembers object (memberProfiles objects)).lookup name := by
      rw [memberProfiles, List.foldl_append]
      rfl
    rw [hstep, lookup_observeMembers (hd object (by simp)), ih hd']
    cases hv : object.lookup name with
    | none =>
      have hnamed : membersNamed name (objects ++ [object]) = membersNamed name objects := by simp [membersNamed, hv]
      rw [hnamed]
    | some v =>
      have hnamed : membersNamed name (objects ++ [object]) = membersNamed name objects ++ [v] := by simp [membersNamed, hv]
      have hsome : membersNamed name objects ++ [v] ≠ [] := List.append_ne_nil_of_right_ne_nil _ (List.cons_ne_nil v [])
      rw [hnamed, if_neg hsome, evidence_append]
      split_ifs with hempty
      · rw [hempty]
        rfl
      · rfl

/-! The lists. -/

private theorem array_observe (v : Json) (p : Profile) :
    (observe v p).array = match asArray v with
      | some items => some (sawArray (UInt64.ofNat items.length) (observeItems items) p.array)
      | none => p.array := by
  obtain ⟨flat, object, array⟩ := p
  cases v <;> rfl

/-- The lists among some values. -/
def arraysIn (vs : List Json) : List (List Json) := vs.filterMap asArray

private theorem evidence_items (vs items : List Json) : evidence (vs ++ items) = observeItems items (evidence vs) := by
  induction items generalizing vs with
  | nil => rw [List.append_nil]; rfl
  | cons v rest ih => rw [List.append_cons, ih, evidence_append, observeItems]

private theorem lower_le (length least : UInt64) :
    (if length < least then length else least) ≤ length ∧ (if length < least then length else least) ≤ least := by
  simp only [UInt64.lt_iff_toNat_lt, UInt64.le_iff_toNat_le]
  split_ifs <;> omega

private theorem le_upper (length most : UInt64) :
    length ≤ (if most < length then length else most) ∧ most ≤ (if most < length then length else most) := by
  simp only [UInt64.lt_iff_toNat_lt, UInt64.le_iff_toNat_le]
  split_ifs <;> omega

/-- The least of some lists' lengths and a bound. -/
def leastLength (bound : UInt64) (arrays : List (List Json)) : UInt64 :=
  arrays.foldl (fun least items => if UInt64.ofNat items.length < least then UInt64.ofNat items.length else least) bound

/-- The greatest of some lists' lengths and a bound. -/
def mostLength (bound : UInt64) (arrays : List (List Json)) : UInt64 :=
  arrays.foldl (fun most items => if most < UInt64.ofNat items.length then UInt64.ofNat items.length else most) bound

/-- The lists among some values are known by their number, the bounds of their lengths and the evidence of their elements. -/
theorem array_evidence_eq (vs : List Json) :
    (evidence vs).array = if arraysIn vs = [] then none
      else some ⟨(arraysIn vs).length, leastLength (UInt64.ofNat (2 ^ 64 - 1)) (arraysIn vs), mostLength 0 (arraysIn vs),
        evidence (arraysIn vs).flatten⟩ := by
  induction vs using List.reverseRecOn with
  | nil => rfl
  | append_singleton vs v ih =>
    rw [evidence_append, array_observe]
    cases hv : asArray v with
    | none =>
      have harrays : arraysIn (vs ++ [v]) = arraysIn vs := by simp [arraysIn, hv]
      rw [harrays]
      exact ih
    | some items =>
      have harrays : arraysIn (vs ++ [v]) = arraysIn vs ++ [items] := by simp [arraysIn, hv]
      have hne : arraysIn vs ++ [items] ≠ [] := List.append_ne_nil_of_right_ne_nil _ (List.cons_ne_nil items [])
      simp only [harrays, if_neg hne, ih, List.flatten_append, List.flatten_singleton, evidence_items, List.length_append,
        leastLength, mostLength, List.foldl_append]
      split_ifs with hempty
      · rw [hempty]
        rfl
      · rfl

private theorem leastLength_append (bound : UInt64) (arrays : List (List Json)) (items : List Json) :
    leastLength bound (arrays ++ [items]) ≤ UInt64.ofNat items.length ∧
      leastLength bound (arrays ++ [items]) ≤ leastLength bound arrays := by
  rw [leastLength, List.foldl_append]
  exact lower_le _ _

private theorem mostLength_append (bound : UInt64) (arrays : List (List Json)) (items : List Json) :
    UInt64.ofNat items.length ≤ mostLength bound (arrays ++ [items]) ∧
      mostLength bound arrays ≤ mostLength bound (arrays ++ [items]) := by
  rw [mostLength, List.foldl_append]
  exact le_upper _ _

theorem length_bounds {least most : UInt64} {arrays : List (List Json)} {items : List Json} (h : items ∈ arrays) :
    leastLength least arrays ≤ UInt64.ofNat items.length ∧ UInt64.ofNat items.length ≤ mostLength most arrays := by
  induction arrays using List.reverseRecOn with
  | nil => exact absurd h List.not_mem_nil
  | append_singleton arrays other ih =>
    obtain ⟨hlow, hlow'⟩ := leastLength_append least arrays other
    obtain ⟨hhigh, hhigh'⟩ := mostLength_append most arrays other
    rcases List.mem_append.1 h with h | h
    · exact ⟨UInt64.le_trans hlow' (ih h).1, UInt64.le_trans (ih h).2 hhigh'⟩
    · obtain rfl := List.mem_singleton.1 h
      exact ⟨hlow, hhigh⟩

/-- The profile of the lists among some values: their lengths are within its bounds, and its elements are theirs. -/
structure ArrayOf (arrays : List (List Json)) (array : ArrayProfile) : Prop where
  bounds : ∃ count least most, array = ⟨count, least, most, evidence arrays.flatten⟩ ∧ least ≤ most ∧
    ∀ items ∈ arrays, least ≤ UInt64.ofNat items.length ∧ UInt64.ofNat items.length ≤ most

theorem array_evidence (vs : List Json) :
    (arraysIn vs = [] → (evidence vs).array = none) ∧
      (arraysIn vs ≠ [] → ∃ array, (evidence vs).array = some array ∧ ArrayOf (arraysIn vs) array) := by
  rw [array_evidence_eq]
  constructor
  · exact fun hempty => if_pos hempty
  · intro hne
    obtain ⟨items, hitems⟩ := List.exists_mem_of_ne_nil _ hne
    obtain ⟨hlow, hhigh⟩ := length_bounds hitems
    exact ⟨_, if_neg hne, _, _, _, rfl, UInt64.le_trans hlow hhigh, fun _ h => length_bounds h⟩

end PactJanus.Recording.Evidence
