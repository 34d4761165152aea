import PactJanus.Shape.Admits
import PactJanus.Subsumption.Classes

namespace PactJanus.Subsumption.Residual

open PactJanus.Data.Json PactJanus.Data.Equality PactJanus.Shape.Model PactJanus.Shape.Valid PactJanus.Shape.Nodes
  PactJanus.Shape.Admits PactJanus.Subsumption.Classes

/-! What is left of a shape without presence and nullability admits what the shape does, but absence and null. -/

/-- An operator that says nothing of presence or nullability. -/
def isResidual : ShapeKind → Bool
  | .optional _ | .nullable _ | .forbidden => false
  | _ => true

section Decompose

variable {S rest : ShapeNode} {slot : Option Json}

theorem isNull_iff {v : Json} : isNull v = true ↔ v = .null := by
  cases v <;> simp [isNull]

theorem equal_null {v o : Json} (ho : isNull o = true) : valuesEqual v o = isNull v := by
  obtain rfl := isNull_iff.1 ho
  cases v <;> rfl

theorem any_option {options : List Json} {v : Json} (h : options.any isNull = true) :
    options.any (valuesEqual v) = (isNull v || (options.filter fun o => !isNull o).any (valuesEqual v)) := by
  rw [Bool.eq_iff_iff, Bool.or_eq_true]
  simp only [List.any_eq_true, List.mem_filter, Bool.not_eq_true']
  constructor
  · rintro ⟨o, ho, heq⟩
    cases hnull : isNull o with
    | true => exact Or.inl (equal_null hnull ▸ heq)
    | false => exact Or.inr ⟨o, ⟨ho, hnull⟩, heq⟩
  · rintro (hv | ⟨o, ⟨ho, -⟩, heq⟩)
    · obtain ⟨o, ho, hnull⟩ := List.any_eq_true.1 h
      exact ⟨o, ho, (equal_null hnull).trans hv⟩
    · exact ⟨o, ho, heq⟩

private theorem rest_cases (h : (decompose S).rest = some rest) :
    isResidual rest.kind = true ∧ (decompose rest).rest = some rest := by
  induction S with
  | optional e g of ih | nullable e g of ih => exact ih (by simpa [decompose] using h)
  | leaf e g k hk =>
    cases k with
    | equality =>
      by_cases hnull : e.any isNullExample = true
      · exact absurd h (by simp [decompose, hnull])
      · obtain rfl : ⟨e, g, .equality⟩ = rest := by simpa [decompose, hnull] using h
        exact ⟨rfl, by simp [decompose, hnull]⟩
    | anyOf options =>
      by_cases hnull : options.any isNull = true
      · simp only [decompose, hnull, if_true, Option.ite_none_left_eq_some, Option.some.injEq] at h
        obtain ⟨hsome, rfl⟩ := h
        have hclean : (options.filter fun o => !isNull o).any isNull = false := by simp
        exact ⟨rfl, by simp only [decompose, hclean, Bool.false_eq_true, if_false]⟩
      · obtain rfl : ⟨e, g, .anyOf options⟩ = rest := by
          simpa only [decompose, hnull, if_false, Bool.false_eq_true, Option.some.injEq] using h
        exact ⟨rfl, by simp only [decompose, hnull, if_false, Bool.false_eq_true]⟩
    | kind k =>
      cases k with
      | null => exact absurd h (by simp [decompose])
      | _ => exact (Option.some.inj h) ▸ ⟨rfl, rfl⟩
    | forbidden => exact absurd h (by simp [decompose])
    | _ => first | exact (Option.some.inj h) ▸ ⟨rfl, rfl⟩ | exact absurd hk (by simp [isLeaf])
  | _ => exact (Option.some.inj h) ▸ ⟨rfl, rfl⟩

theorem rest_residual (h : (decompose S).rest = some rest) : isResidual rest.kind = true := (rest_cases h).1

theorem rest_rest (h : (decompose S).rest = some rest) : (decompose rest).rest = some rest := (rest_cases h).2

/-- What says nothing of presence admits no absence. -/
theorem residual_none (h : isResidual S.kind = true) : admitsContent S none = false := by
  obtain ⟨e, g, k⟩ := S
  cases k <;> first | rfl | exact absurd h (by simp [isResidual])

theorem admits_some_of_residual (h : isResidual S.kind = true) (hadmits : admitsContent S slot = true) :
    ∃ v, slot = some v := by
  cases slot with
  | none => exact absurd hadmits (by simp [residual_none h])
  | some v => exact ⟨v, rfl⟩

private theorem admits_none : slot.isNone = true ↔ slot = none := Option.isNone_iff_eq_none

private theorem any_null : slot.any isNull = true ↔ slot = some .null := by
  cases slot with
  | none => simp
  | some v => cases v <;> simp [isNull]

/-- A shape admits absence, null, and what its residual shape admits. -/
theorem admits_iff : admitsContent S slot = true ↔
    (slot = none ∧ (decompose S).absent = true) ∨ (slot = some .null ∧ (decompose S).null = true) ∨
      ∃ rest, (decompose S).rest = some rest ∧ admitsContent rest slot = true := by
  induction S with
  | optional e g of ih =>
    simp only [admitsContent, admitsWith, decompose, Bool.or_eq_true, admits_none, and_true] at ih ⊢
    rw [ih]
    tauto
  | nullable e g of ih =>
    simp only [admitsContent, admitsWith, decompose, Bool.or_eq_true, any_null, and_true] at ih ⊢
    rw [ih]
    tauto
  | leaf e g k hk =>
    cases k with
    | forbidden => simp [admitsContent, admitsWith, decompose]
    | any =>
      cases slot with
      | none => simp [admitsContent, admitsWith, decompose]
      | some v => simp [admitsContent, admitsWith, Shape.Admits.admitsValue, decompose]
    | equality =>
      by_cases hnull : e.any isNullExample = true
      · obtain ⟨x, rfl, hx⟩ := (Option.any_eq_true _ _).1 hnull
        simp only [isNullExample, Bool.and_eq_true, Option.isNone_iff_eq_none] at hx
        have hadmits : admitsContent ⟨some x, g, .equality⟩ slot = slot.any isNull := by
          cases slot with
          | none => rfl
          | some v =>
            simp only [admitsContent, admitsWith, Option.any_some, Shape.Admits.admitsValue, exampleDocument, hx.1,
              reduceCtorEq, if_false]
            exact equal_null hx.2
        simp [hadmits, any_null, decompose, hnull]
      · simp [decompose, hnull]
    | anyOf options =>
      by_cases hnull : options.any isNull = true
      · have hadmits : ∀ e g rest v, admitsContent ⟨e, g, .anyOf rest⟩ (some v) = rest.any (valuesEqual v) :=
          fun _ _ _ _ => rfl
        cases slot with
        | none =>
          refine ⟨fun h => absurd h (by simp [residual_none (S := ⟨e, g, .anyOf options⟩) rfl]), ?_⟩
          rintro (⟨-, habsent⟩ | ⟨hnone, -⟩ | ⟨rest, hrest, h⟩)
          · exact absurd habsent (by simp [decompose, hnull])
          · exact absurd hnone (by simp)
          · exact absurd h (by simp [residual_none (rest_residual hrest)])
        | some v =>
          rw [hadmits, any_option hnull, Bool.or_eq_true, isNull_iff]
          simp only [decompose, hnull, if_true, reduceCtorEq, false_and, false_or, Option.some.injEq, and_true,
            Option.ite_none_left_eq_some]
          refine or_congr_right ⟨fun h => ?_, ?_⟩
          · refine ⟨_, ⟨fun hempty => ?_, rfl⟩, h⟩
            simp [List.isEmpty_iff.1 hempty] at h
          · rintro ⟨rest, ⟨-, rfl⟩, h⟩
            exact h
      · simp only [decompose, hnull, if_false, Bool.false_eq_true, and_false, false_or, Option.some.injEq,
          exists_eq_left']
    | kind k =>
      cases k with
      | null =>
        have hadmits : admitsContent ⟨e, g, .kind .null⟩ slot = slot.any isNull := by
          cases slot with
          | none => rfl
          | some v => cases v <;> rfl
        simp [hadmits, any_null, decompose]
      | _ => simp [decompose]
    | object | array | eachLike | eachEntry | contains | optional | nullable | oneOf =>
      exact absurd hk (by simp [isLeaf])
    | _ => simp [decompose]
  | _ => simp [decompose]

end Decompose

end PactJanus.Subsumption.Residual
