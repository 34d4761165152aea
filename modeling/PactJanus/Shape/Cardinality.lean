import PactJanus.Shape.VariantSpace

namespace PactJanus.Shape.Cardinality

open PactJanus.Shape.VariantSpace

/-! The points of a collection's size, and the sizes each of them stands for. -/

variable {min m : UInt64} {max : Option UInt64} {point : String}

theorem points_unbounded : cardinalityPoints min none = [⟨"min", min⟩, ⟨"min+1", min + 1⟩] := rfl

theorem points_single : cardinalityPoints m (some m) = [⟨"min", m⟩] := by simp [cardinalityPoints]

theorem points_bounded (h : min < m) :
    cardinalityPoints min (some m) =
      ⟨"min", min⟩ :: ⟨"min+1", min + 1⟩ :: if m = min + 1 then [] else [⟨"max", m⟩] := by
  have hne : m ≠ min := (UInt64.ne_of_lt h).symm
  simp only [cardinalityPoints, h, decide_true, if_true, hne, ne_eq, not_false_eq_true, true_and]
  by_cases hm : m = min + 1 <;> simp [hm]

theorem toNat_succ (h : min < m) : (min + 1).toNat = min.toNat + 1 := by
  have hlt := UInt64.lt_iff_toNat_lt.1 h
  have := m.toNat_lt
  rw [UInt64.toNat_add, UInt64.toNat_one]
  omega

/-- A size's points: the least size alone, or with the sizes there is room for above it. -/
theorem points_cases (h : max.all (fun m => min ≤ m) = true) :
    max = some min ∨ max = none ∨ ∃ m, max = some m ∧ min < m := by
  cases max with
  | none => exact Or.inr (Or.inl rfl)
  | some m =>
    have hle : min ≤ m := by simpa using h
    by_cases heq : m = min
    · exact Or.inl (heq ▸ rfl)
    · exact Or.inr (Or.inr ⟨m, rfl, UInt64.lt_of_le_of_ne hle (Ne.symm heq)⟩)

/-- The sizes a point stands for, by the point. -/
theorem region_cases (h : max.all (fun m => min ≤ m) = true) {region : UInt64 × Option UInt64}
    (hr : cardinalityRegion min max point = some region) :
    (point = "min" ∧ region = (min, some min)) ∨ (point = "min+1" ∧ max = none ∧ region = (min + 1, none)) ∨
      (point = "min+1" ∧ ∃ m, max = some m ∧ min < m ∧ region = (min + 1, some (if m = min + 1 then m else m - 1))) ∨
      (point = "max" ∧ ∃ m, max = some m ∧ min < m ∧ region = (m, some m)) := by
  obtain rfl | rfl | ⟨m, rfl, hlt⟩ := points_cases h
  · simp only [cardinalityRegion, points_single] at hr
    by_cases hmin : point = "min"
    · subst hmin
      simp at hr
      exact Or.inl ⟨rfl, hr.symm⟩
    · simp [Ne.symm hmin] at hr
  · simp only [cardinalityRegion, points_unbounded] at hr
    by_cases hmin : point = "min"
    · subst hmin
      simp at hr
      exact Or.inl ⟨rfl, hr.symm⟩
    · by_cases hwider : point = "min+1"
      · subst hwider
        simp at hr
        exact Or.inr (Or.inl ⟨rfl, rfl, hr.symm⟩)
      · simp [Ne.symm hmin, Ne.symm hwider] at hr
  · simp only [cardinalityRegion, points_bounded hlt] at hr
    by_cases hmin : point = "min"
    · subst hmin
      simp at hr
      exact Or.inl ⟨rfl, hr.symm⟩
    · by_cases hwider : point = "min+1"
      · subst hwider
        refine Or.inr (Or.inr (Or.inl ⟨rfl, m, rfl, hlt, ?_⟩))
        by_cases hm : m = min + 1 <;> simp [hm] at hr ⊢
        · exact hr.symm
        · exact hr.symm
      · by_cases hmax : point = "max"
        · subst hmax
          refine Or.inr (Or.inr (Or.inr ⟨rfl, m, rfl, hlt, ?_⟩))
          by_cases hm : m = min + 1 <;> simp [hm] at hr
          exact hr.symm
        · by_cases hm : m = min + 1 <;> simp [hm, Ne.symm hmin, Ne.symm hwider, Ne.symm hmax] at hr

/-- A point's sizes are sizes of the collection, where the least size has one above it. -/
theorem region_within (h : max.all (fun m => min ≤ m) = true) (hroom : max = none → min.toNat < 2 ^ 64 - 1)
    {region : UInt64 × Option UInt64} (hr : cardinalityRegion min max point = some region) :
    min.toNat ≤ region.1.toNat ∧ ∀ m ∈ max, ∃ upper ∈ region.2, upper.toNat ≤ m.toNat := by
  obtain ⟨-, rfl⟩ | ⟨-, rfl, rfl⟩ | ⟨-, m, rfl, hlt, rfl⟩ | ⟨-, m, rfl, hlt, rfl⟩ := region_cases h hr
  · refine ⟨le_rfl, fun m hm => ⟨min, rfl, ?_⟩⟩
    rw [Option.mem_def.1 hm] at h
    exact UInt64.le_iff_toNat_le.1 (by simpa using h)
  · refine ⟨?_, fun m hm => absurd hm (by simp)⟩
    have := hroom rfl
    simp only [UInt64.toNat_add, UInt64.toNat_one]
    omega
  · refine ⟨(toNat_succ hlt).symm ▸ Nat.le_succ _, fun m' hm' => ⟨_, rfl, ?_⟩⟩
    obtain rfl := Option.mem_some.1 hm'
    have hpos := UInt64.lt_iff_toNat_lt.1 hlt
    split
    · exact le_rfl
    · rw [UInt64.toNat_sub_of_le _ _ (UInt64.le_iff_toNat_le.2 (by simp only [UInt64.toNat_one]; omega))]
      exact Nat.sub_le _ _
  · refine ⟨(UInt64.lt_iff_toNat_lt.1 hlt).le, fun m' hm' => ⟨_, rfl, ?_⟩⟩
    obtain rfl := Option.mem_some.1 hm'
    exact le_rfl

/-- A point's sizes go up from its own. -/
theorem region_size (point : String) :
    (cardinalityRegion min max point).map Prod.fst =
      ((cardinalityPoints min max).find? fun p => p.name == point).map CardinalityPoint.size := by
  simp only [cardinalityRegion]
  cases (cardinalityPoints min max).find? fun p => p.name == point with
  | none => rfl
  | some p =>
    by_cases hname : p.name = "min+1"
    · cases max <;> simp [hname]
    · simp [hname]

/-- A point's own size is one of its sizes. -/
theorem region_inhabited (h : max.all (fun m => min ≤ m) = true) {region : UInt64 × Option UInt64}
    (hr : cardinalityRegion min max point = some region) :
    region.2.all (fun upper => decide (region.1.toNat ≤ upper.toNat)) = true := by
  obtain ⟨-, rfl⟩ | ⟨-, -, rfl⟩ | ⟨-, m, -, hlt, rfl⟩ | ⟨-, m, -, -, rfl⟩ := region_cases h hr
  · simp
  · rfl
  · have hpos := UInt64.lt_iff_toNat_lt.1 hlt
    have hsucc := toNat_succ hlt
    split
    · simp only [Option.all_some, decide_eq_true_eq]
      omega
    · rename_i hne
      have hnat : m.toNat ≠ (min + 1).toNat := fun heq => hne (UInt64.toNat_inj.1 heq)
      have hone : (1 : UInt64) ≤ m := UInt64.le_iff_toNat_le.2 (by simp only [UInt64.toNat_one]; omega)
      simp only [Option.all_some, decide_eq_true_eq, UInt64.toNat_sub_of_le _ _ hone, UInt64.toNat_one]
      omega
  · simp

/-- A collection of one size has that size under whatever name a point goes by. -/
theorem region_single {region : UInt64 × Option UInt64} (hr : cardinalityRegion m (some m) point = some region) :
    region = (m, some m) := by
  obtain ⟨-, rfl⟩ | ⟨-, h, -⟩ | ⟨-, m', h, hlt, -⟩ | ⟨-, m', h, hlt, -⟩ := region_cases (by simp) hr
  · rfl
  · exact absurd h (by simp)
  · exact absurd (Option.some.inj h ▸ hlt) (UInt64.lt_irrefl _)
  · exact absurd (Option.some.inj h ▸ hlt) (UInt64.lt_irrefl _)

end PactJanus.Shape.Cardinality
