import Mathlib.Data.Set.BooleanAlgebra
import Mathlib.Order.CompletePartialOrder
import PactJanus.Contracts.Files
import PactJanus.Shape.Cardinality

namespace PactJanus.Shape.Bounds

open PactJanus.Data.Json PactJanus.Contracts.Files PactJanus.Shape.VariantSpace PactJanus.Shape.Cardinality

/-! The bounds a document gives a collection, and the sizes between them shared out among the points. -/

/-- A bound of a node, if it gives one. -/
def parseBound (obj : List (String × Json)) (name path : String) : Except Problem (Option UInt64) :=
  match obj.lookup name with
  | none => .ok none
  | some value =>
    match asUnsigned value with
    | some n => .ok (some n)
    | none => .error ⟨path ++ "/" ++ name, "'" ++ name ++ "' must be a non-negative integer"⟩

/-- The `min` and `max` of a node: `min` is 1 where it is left out, and no `max` is no bound. -/
def parseCardinality (obj : List (String × Json)) (path : String) : Except Problem (UInt64 × Option UInt64) := do
  let min := (← parseBound obj "min" path).getD 1
  let max ← parseBound obj "max" path
  match max with
  | some m =>
    if min > m then
      .error ⟨path, "'min' (" ++ min.toNat.repr ++ ") must not be greater than 'max' (" ++ m.toNat.repr ++
        ") (spec §5.5)"⟩
    else .ok (min, max)
  | none => .ok (min, max)

theorem parseCardinality_ordered {obj : List (String × Json)} {path : String} {min : UInt64} {max : Option UInt64}
    (h : parseCardinality obj path = .ok (min, max)) : max.all (fun m => min ≤ m) = true := by
  unfold parseCardinality at h
  cases hmin : parseBound obj "min" path with
  | error problem => simp [hmin, bind, Except.bind] at h
  | ok lower =>
    cases hmax : parseBound obj "max" path with
    | error problem => simp [hmin, hmax, bind, Except.bind] at h
    | ok upper =>
      simp only [hmin, hmax, bind, Except.bind] at h
      cases upper with
      | none =>
        cases h
        rfl
      | some m =>
        by_cases hle : lower.getD 1 > m
        · simp [hle] at h
        · simp only [hle, if_false] at h
          cases h
          simpa using hle

/-! The arithmetic of the points and of their regions, where a result past 64 bits is none. -/

def checkedAdd (a b : UInt64) : Option UInt64 := if a.toNat + b.toNat < 2 ^ 64 then some (a + b) else none

def checkedSub (a b : UInt64) : Option UInt64 := if b.toNat ≤ a.toNat then some (a - b) else none

/-- `cardinalityPoints` with its sums checked: `min + 1` is taken where there is room above `min`. -/
def checkedPoints (min : UInt64) (max : Option UInt64) : Option (List CardinalityPoint) := do
  let hasMinPlus1 : Bool :=
    match max with
    | none => true
    | some m => min < m
  let wider ← if hasMinPlus1 then (checkedAdd min 1).map fun size => [⟨"min+1", size⟩] else some []
  let bounded ←
    match max with
    | some m =>
      if m = min then some []
      else if hasMinPlus1 then (checkedAdd min 1).map fun size => if m ≠ size then [⟨"max", m⟩] else []
      else some [⟨"max", m⟩]
    | none => some []
  pure (⟨"min", min⟩ :: (wider ++ bounded))

/-- `cardinalityRegion` with its sums and its difference checked. -/
def checkedRegion (min : UInt64) (max : Option UInt64) (pointName : String) :
    Option (Option (UInt64 × Option UInt64)) := do
  let points ← checkedPoints min max
  match points.find? (fun p => p.name == pointName) with
  | none => pure none
  | some point =>
    if point.name ≠ "min+1" then pure (some (point.size, some point.size))
    else
      match max with
      | some m =>
        if points.any (fun p => p.name == "max") then (checkedSub m 1).map fun upper => some (point.size, some upper)
        else pure (some (point.size, some m))
      | none => pure (some (point.size, none))

/-- The sizes a point stands for. -/
def sizesOf (min : UInt64) (max : Option UInt64) (point : String) : Set Nat :=
  {n | ∃ region ∈ cardinalityRegion min max point, region.1.toNat ≤ n ∧ ∀ upper ∈ region.2, n ≤ upper.toNat}

/-- The points share out the sizes between the bounds, each its own among its sizes, and nothing overflows on the way. -/
structure Partitions (min : UInt64) (max : Option UInt64) : Prop where
  apart : (cardinalityPoints min max).Pairwise fun p q => Disjoint (sizesOf min max p.name) (sizesOf min max q.name)
  union : ∀ n : Nat, (∃ p ∈ cardinalityPoints min max, n ∈ sizesOf min max p.name) ↔
    min.toNat ≤ n ∧ ∀ m ∈ max, n ≤ m.toNat
  own : ∀ p ∈ cardinalityPoints min max, p.size.toNat ∈ sizesOf min max p.name
  points : (checkedPoints min max).isSome
  regions : ∀ point, (checkedRegion min max point).isSome

section Proofs

variable {min m : UInt64} {max : Option UInt64} {point : String}

theorem checkedAdd_one : (checkedAdd min 1).isSome = true ↔ min.toNat < 2 ^ 64 - 1 := by
  unfold checkedAdd
  split <;> rename_i h <;> simp only [UInt64.toNat_one] at h
  · simp only [Option.isSome_some, true_iff]
    omega
  · simp only [Option.isSome_none, Bool.false_eq_true, false_iff]
    omega

theorem checkedAdd_of_lt (h : min.toNat < 2 ^ 64 - 1) : checkedAdd min 1 = some (min + 1) :=
  if_pos (by simp only [UInt64.toNat_one]; omega)

theorem room_above (h : min < m) : min.toNat < 2 ^ 64 - 1 := by
  have hlt := UInt64.lt_iff_toNat_lt.1 h
  have hm := m.toNat_lt
  omega

theorem toNat_add_one (h : min.toNat < 2 ^ 64 - 1) : (min + 1).toNat = min.toNat + 1 := by
  rw [UInt64.toNat_add, UInt64.toNat_one]
  omega

/-- Without an upper bound the points need room above `min` for one of their own. -/
theorem checkedPoints_isSome (h : max.all (fun m => min ≤ m) = true) :
    (checkedPoints min max).isSome = true ↔ (max = none → min.toNat < 2 ^ 64 - 1) := by
  obtain rfl | rfl | ⟨m, rfl, hlt⟩ := points_cases h
  · simp [checkedPoints]
  · rw [← checkedAdd_one]
    cases hadd : checkedAdd min 1 <;> simp [checkedPoints, hadd]
  · have hne : m ≠ min := (UInt64.ne_of_lt hlt).symm
    simp [checkedPoints, hlt, hne, checkedAdd_of_lt (room_above hlt)]

/-- Where no sum overflows, the checked points are the points. -/
theorem checkedPoints_eq (h : max.all (fun m => min ≤ m) = true) (hroom : max = none → min.toNat < 2 ^ 64 - 1) :
    checkedPoints min max = some (cardinalityPoints min max) := by
  obtain rfl | rfl | ⟨m, rfl, hlt⟩ := points_cases h
  · simp [checkedPoints, points_single]
  · simp [checkedPoints, points_unbounded, checkedAdd_of_lt (hroom rfl)]
  · have hne : m ≠ min := (UInt64.ne_of_lt hlt).symm
    have hspace := room_above hlt
    rw [points_bounded hlt]
    by_cases hm : m = min + 1
    · subst hm
      simp [checkedPoints, hlt, hne, checkedAdd_of_lt hspace]
    · simp [checkedPoints, hlt, hne, checkedAdd_of_lt hspace, hm]

theorem checkedRegion_isSome (h : max.all (fun m => min ≤ m) = true) (hroom : max = none → min.toNat < 2 ^ 64 - 1) :
    (checkedRegion min max point).isSome = true := by
  simp only [checkedRegion, checkedPoints_eq h hroom, Option.bind_eq_bind, Option.bind_some]
  obtain rfl | rfl | ⟨m, rfl, hlt⟩ := points_cases h
  · simp only [points_single, List.find?_cons, List.find?_nil]
    cases "min" == point <;> rfl
  · simp only [points_unbounded, List.find?_cons, List.find?_nil]
    cases "min" == point <;> cases "min+1" == point <;> rfl
  · have hpos : (1 : UInt64).toNat ≤ m.toNat := by
      have := UInt64.lt_iff_toNat_lt.1 hlt
      simp only [UInt64.toNat_one]
      omega
    have hsub : checkedSub m 1 = some (m - 1) := if_pos hpos
    cases (cardinalityPoints min (some m)).find? fun p => p.name == point with
    | none => rfl
    | some p =>
      by_cases hname : p.name = "min+1"
      · simp only [hname, ne_eq, not_true_eq_false, if_false, hsub, Option.map_some]
        split <;> rfl
      · simp only [ne_eq, hname, not_false_eq_true, if_true]
        rfl

/-! The sizes each point stands for, by the bounds. -/

theorem sizesOf_of_region {lower : UInt64} {upper : Option UInt64}
    (h : cardinalityRegion min max point = some (lower, upper)) :
    sizesOf min max point = {n | lower.toNat ≤ n ∧ ∀ u ∈ upper, n ≤ u.toNat} := by
  ext n
  simp [sizesOf, h]

theorem sizes_least : sizesOf min max "min" = {min.toNat} := by
  have hregion : cardinalityRegion min max "min" = some (min, some min) := by
    simp [cardinalityRegion, cardinalityPoints]
  ext n
  simp only [sizesOf_of_region hregion, Option.mem_some_iff, forall_eq', Set.mem_ofPred_eq, Set.mem_singleton_iff]
  omega

theorem sizes_above : sizesOf min none "min+1" = {n | (min + 1).toNat ≤ n} := by
  have hregion : cardinalityRegion min none "min+1" = some (min + 1, none) := by
    simp [cardinalityRegion, points_unbounded]
  ext n
  simp [sizesOf_of_region hregion]

theorem sizes_between (h : min < m) (hm : m ≠ min + 1) :
    sizesOf min (some m) "min+1" = {n | min.toNat < n ∧ n < m.toNat} := by
  have hregion : cardinalityRegion min (some m) "min+1" = some (min + 1, some (m - 1)) := by
    simp [cardinalityRegion, points_bounded h, hm]
  have hlt := UInt64.lt_iff_toNat_lt.1 h
  have hone : (1 : UInt64) ≤ m := UInt64.le_iff_toNat_le.2 (by simp only [UInt64.toNat_one]; omega)
  ext n
  simp only [sizesOf_of_region hregion, Option.mem_some_iff, forall_eq', Set.mem_ofPred_eq,
    toNat_add_one (room_above h), UInt64.toNat_sub_of_le _ _ hone, UInt64.toNat_one]
  omega

theorem sizes_adjacent (h : min < min + 1) : sizesOf min (some (min + 1)) "min+1" = {min.toNat + 1} := by
  have hregion : cardinalityRegion min (some (min + 1)) "min+1" = some (min + 1, some (min + 1)) := by
    simp [cardinalityRegion, points_bounded h]
  ext n
  simp only [sizesOf_of_region hregion, Option.mem_some_iff, forall_eq', Set.mem_ofPred_eq, Set.mem_singleton_iff,
    toNat_add_one (room_above h)]
  omega

theorem sizes_most (h : min < m) (hm : m ≠ min + 1) : sizesOf min (some m) "max" = {m.toNat} := by
  have hregion : cardinalityRegion min (some m) "max" = some (m, some m) := by
    simp [cardinalityRegion, points_bounded h, hm]
  ext n
  simp only [sizesOf_of_region hregion, Option.mem_some_iff, forall_eq', Set.mem_ofPred_eq, Set.mem_singleton_iff]
  omega

/-- With room above `min`, or an upper bound, the points share out the sizes between the bounds. -/
theorem partitions_of_room (h : max.all (fun m => min ≤ m) = true) (hroom : max = none → min.toNat < 2 ^ 64 - 1) :
    Partitions min max := by
  have hpoints : (checkedPoints min max).isSome = true := (checkedPoints_isSome h).2 hroom
  have hregions : ∀ point, (checkedRegion min max point).isSome = true := fun point => checkedRegion_isSome h hroom
  obtain rfl | rfl | ⟨m, rfl, hlt⟩ := points_cases h
  · refine ⟨?_, ?_, ?_, hpoints, hregions⟩ <;> simp [points_single, sizes_least]
    omega
  · have hsucc := toNat_add_one (hroom rfl)
    refine ⟨?_, ?_, ?_, hpoints, hregions⟩ <;> simp [points_unbounded, sizes_least, sizes_above, hsucc]
    omega
  · have hnat := UInt64.lt_iff_toNat_lt.1 hlt
    have hsucc := toNat_add_one (room_above hlt)
    by_cases hm : m = min + 1
    · subst hm
      refine ⟨?_, ?_, ?_, hpoints, hregions⟩ <;>
        simp [points_bounded hlt, sizes_least, sizes_adjacent hlt, hsucc]
      omega
    · have hne : m.toNat ≠ (min + 1).toNat := fun heq => hm (UInt64.toNat_inj.1 heq)
      refine ⟨?_, ?_, ?_, hpoints, hregions⟩ <;>
        simp [points_bounded hlt, hm, sizes_least, sizes_between hlt hm, sizes_most hlt hm, hsucc]
      all_goals omega

/-- The points of the bounds a document gives share out the sizes between them, exactly when no bound above leaves
room above `min`. -/
theorem accepted_bounds_partition_iff {obj : List (String × Json)} {path : String}
    (h : parseCardinality obj path = .ok (min, max)) :
    Partitions min max ↔ (max = none → min.toNat < 2 ^ 64 - 1) :=
  ⟨fun hp => (checkedPoints_isSome (parseCardinality_ordered h)).1 hp.points,
    partitions_of_room (parseCardinality_ordered h)⟩

/-- A node that gives no bounds has the sizes from 1 on, in two parts. -/
theorem default_bounds_partition : Partitions 1 none := by
  have haccepted : parseCardinality [] "" = .ok (1, none) := rfl
  exact (accepted_bounds_partition_iff haccepted).2 fun _ => by decide

/-- The least size 2^64 - 1 without a bound above it is accepted, and has no size above it to count. -/
theorem last_size_overflows :
    parseCardinality [("min", .number (.posInt (UInt64.ofNat (2 ^ 64 - 1))))] "" = .ok (UInt64.ofNat (2 ^ 64 - 1), none) ∧
      ¬ Partitions (UInt64.ofNat (2 ^ 64 - 1)) none ∧ checkedPoints (UInt64.ofNat (2 ^ 64 - 1)) none = none ∧
      cardinalityPoints (UInt64.ofNat (2 ^ 64 - 1)) none = [⟨"min", UInt64.ofNat (2 ^ 64 - 1)⟩, ⟨"min+1", 0⟩] := by
  have hchecked : checkedPoints (UInt64.ofNat (2 ^ 64 - 1)) none = none := by decide
  refine ⟨rfl, fun hp => ?_, hchecked, by decide⟩
  have hsome := hp.points
  rw [hchecked] at hsome
  exact Bool.false_ne_true hsome

end Proofs

end PactJanus.Shape.Bounds
