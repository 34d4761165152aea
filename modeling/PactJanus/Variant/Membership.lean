import PactJanus.Variant.Completion
import PactJanus.Variant.Selection

namespace PactJanus.Variant.Membership

open PactJanus.Lib PactJanus.Shape.Model PactJanus.Shape.VariantSpace PactJanus.Shape.Gating PactJanus.Plan.Compile
  PactJanus.Variant.Assignment PactJanus.Variant.References PactJanus.Variant.Policy
  PactJanus.Variant.Targets PactJanus.Variant.Growth PactJanus.Variant.Completion PactJanus.Variant.Selection

/-! The variants selected are variants of the space. -/

variable {space : List Dimension} {policy : SamplingPolicy} {pins : List Assignment}
  {exclusions : List ResolvedExclusion} {α : Assignment}

/-! The routes by which an assignment is made. -/

theorem mem_enumerateAll {dims : List Dimension} {current : Assignment} (ho : Ordered dims)
    (hs : SortedMap.Sorted current) (hf : Fresh dims current) :
    α ∈ enumerateAll exclusions dims current ↔ Settled IsPoint dims current α ∧ Clear exclusions α := by
  induction dims generalizing current with
  | nil =>
    rw [settled_nil hs, enumerateAll]
    split
    · rename_i hnone
      rw [List.mem_singleton]
      exact ⟨fun h => ⟨h, h ▸ matchingExclusion_isNone.1 hnone⟩, And.left⟩
    · rename_i hsome
      refine ⟨fun h => absurd h List.not_mem_nil, ?_⟩
      rintro ⟨rfl, hclear⟩
      exact absurd (matchingExclusion_isNone.2 hclear) hsome
  | cons d rest ih =>
    rw [settled_cons ho (hf d List.mem_cons_self), enumerateAll]
    split
    · rw [List.mem_flatMap]
      constructor
      · rintro ⟨p, hp, h⟩
        obtain ⟨hsettled, hclear⟩ := (ih ho.2.2 (hs.insert _ _) (hf.insert ho _)).1 h
        exact ⟨⟨p.name, ⟨p, hp, rfl⟩, hsettled⟩, hclear⟩
      · rintro ⟨⟨_, ⟨p, hp, rfl⟩, hsettled⟩, hclear⟩
        exact ⟨p, hp, (ih ho.2.2 (hs.insert _ _) (hf.insert ho _)).2 ⟨hsettled, hclear⟩⟩
    · exact ih ho.2.2 hs hf.tail

/-- The enumeration lists the complete assignments that no exclusion matches. -/
theorem mem_enumerateAll_space (ho : Ordered space) :
    α ∈ enumerateAll exclusions space [] ↔ CompleteFor space α ∧ Clear exclusions α := by
  rw [mem_enumerateAll ho SortedMap.sorted_nil fresh_nil, completeFor_iff ho]

private def note : List Dimension :=
  computeMany [("response.body", .of (.object [("note", .of (.optional (.of .any)))]))]

/-- An enumeration whose example is written otherwise than the option it is. -/
private def otherwise : List Dimension :=
  computeMany [("response.body", ⟨some ⟨.object [("a", .null), ("b", .null)], none⟩, none,
    .anyOf [.object [("b", .null), ("a", .null)], .null]⟩)]

end PactJanus.Variant.Membership
