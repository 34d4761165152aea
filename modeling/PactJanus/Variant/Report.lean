import PactJanus.Variant.Covering

namespace PactJanus.Variant.Report

open PactJanus.Lib PactJanus.Shape.Model PactJanus.Shape.VariantSpace PactJanus.Shape.Gating PactJanus.Plan.Compile
  PactJanus.Variant.Assignment PactJanus.Variant.Policy PactJanus.Variant.Targets
  PactJanus.Variant.Growth PactJanus.Variant.Completion PactJanus.Variant.Selection PactJanus.Variant.Membership
  PactJanus.Variant.Trace PactJanus.Variant.Covering

/-! What a t-wise selection reports of its targets, and which points are selected at all. -/

variable {space : List Dimension} {policy : SamplingPolicy} {pins : List Assignment}
  {exclusions : List ResolvedExclusion} {selected : Selected} {covering : Selection.Covering}

/-- Every point of every dimension is in a selected variant. -/
def PointsSelected (space : List Dimension) (selected : Selected) : Prop :=
  ∀ d ∈ space, ∀ p ∈ d.points, ∃ v ∈ selected.variants, v.assignment.lookup d.id = some p.name

/-- A point of a seed, or of a reachable choice of points at the strength gone by. -/
def PointReached (space : List Dimension) (policy : SamplingPolicy) (pins : List Assignment) (d : Dimension)
    (point : String) : Prop :=
  (∃ s ∈ seedsOf space policy pins, s.lookup d.id = some point) ∨
    ∃ target ∈ reachableTargets space (strengthOf policy), target.lookup d.id = some point

private theorem clear_nil (α : Assignment) : Clear [] α := List.forall_mem_nil _

/-- Without exclusions every point is selected where the space is enumerated, or where each target is merged where it
fits and each point is in a seed or a reachable target. -/
theorem points_selected (h : Computed space) (hrefs : resolveRefs space policy = .ok (pins, []))
    (hselect : select space policy = some (.ok selected)) (hstrategy : policy.strategy ≠ "base-only")
    (hreach : resolveStrategy policy (spaceSize space) = .ok .exhaustive ∨
      MergesFit space (stepsOf space policy pins []) ∧
        ∀ d ∈ space, ∀ p ∈ d.points, PointReached space policy pins d p.name) :
    PointsSelected space selected := by
  have hf := h.forest
  obtain ⟨pins', exclusions', strategy, covering, hfrom⟩ := select_cases hselect
  obtain ⟨rfl, rfl⟩ : pins' = pins ∧ exclusions' = [] := by
    simpa using hfrom.refs.symm.trans hrefs
  have hexhaustive : strategy = .exhaustive → PointsSelected space selected := by
    rintro rfl d hd p hp
    obtain ⟨β, hβ, -, hpoint⟩ := exists_completeFor hf hd ⟨p, hp, rfl⟩
    obtain rfl := Option.some.inj hfrom.covered
    obtain ⟨v, hv, rfl⟩ := List.mem_map.1
      (hfrom.mem.2 (Or.inr ((mem_enumerateAll_space hf.ordered).2 ⟨hβ, clear_nil β⟩)))
    exact ⟨v, hv, hpoint⟩
  rcases hreach with hsmall | ⟨hfit, hreached⟩
  · exact hexhaustive (Except.ok.inj (hfrom.resolved.symm.trans hsmall))
  · cases strategy with
    | exhaustive => exact hexhaustive rfl
    | baseOnly => exact absurd ((baseOnly_iff hfrom.resolved).1 rfl) hstrategy
    | tWise =>
      intro d hd p hp
      rcases hreached d hd p hp with ⟨s, hs, hpoint⟩ | ⟨target, htarget, hpoint⟩
      · obtain ⟨v, hv, rfl⟩ := List.mem_map.1 (hfrom.mem.2 (Or.inl (mem_seeds.1 hs)))
        exact ⟨v, hv, hpoint⟩
      · rcases (kept_of_fit hf hfrom hfit).1 target htarget (clear_nil _) with ⟨v, hv, hc⟩ | ⟨τ, -, -, hlost⟩
        · exact ⟨v, hv, isCovered_iff.1 hc _ (Lists.mem_of_lookup hpoint)⟩
        · have hcleared : Clear (targetsOf space policy []).2 (complete space τ) :=
            clear_enumerateTargets.2 (clear_nil _)
          simp only [completionOf, completeAvoidingExclusions, matchingExclusion_isNone.2 hcleared, if_true] at hlost
          cases hlost

theorem points_selected_note :
    ∃ selected, select Covering.note .default = some (.ok selected) ∧ PointsSelected Covering.note selected :=
  ⟨_, rfl, points_selected computed_note rfl rfl (show SamplingPolicy.default.strategy ≠ "base-only" by decide)
    (Or.inl rfl)⟩

/-- An enumeration of more options than are enumerated exhaustively. -/
def letters : List Dimension :=
  computeMany [("response.body", .of (.anyOf (["a", "b", "c", "d", "e", "f", "g", "h", "i"].map .string)))]

/-- The only dimension of a space is in no pair, and its points but the default are in no selected variant. -/
theorem only_default_selected :
    Computed letters ∧ resolveRefs letters .default = .ok ([], []) ∧
      ∃ selected, select letters .default = some (.ok selected) ∧ ¬PointsSelected letters selected := by
  refine ⟨⟨⟨_, by decide, rfl⟩, by decide⟩, rfl, ⟨_, _⟩, rfl, fun h => ?_⟩
  obtain ⟨v, hv, hpoint⟩ := h _ List.mem_cons_self ⟨"b", some (.string "b"), none⟩
    (List.mem_cons_of_mem _ List.mem_cons_self)
  obtain rfl := List.mem_singleton.1 hv
  exact absurd hpoint (by decide)

end PactJanus.Variant.Report
