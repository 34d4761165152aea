import PactJanus.Variant.Selection

namespace PactJanus.Variant.Excluded

open PactJanus.Lib PactJanus.Shape.Model PactJanus.Shape.VariantSpace PactJanus.Plan.Compile
  PactJanus.Variant.Assignment PactJanus.Variant.Policy PactJanus.Variant.Targets
  PactJanus.Variant.Growth PactJanus.Variant.Selection

/-! What the exclusions keep out of a selection. -/

variable {space : List Dimension} {policy : SamplingPolicy} {exclusions : List ResolvedExclusion} {α : Assignment}

private theorem enumerated_clear {dims : List Dimension} {current : Assignment}
    (h : α ∈ enumerateAll exclusions dims current) : Clear exclusions α := by
  induction dims generalizing current with
  | nil =>
    unfold enumerateAll at h
    split at h
    · rename_i hnone
      exact List.mem_singleton.1 h ▸ matchingExclusion_isNone.1 hnone
    · exact absurd h List.not_mem_nil
  | cons d rest ih =>
    unfold enumerateAll at h
    split at h
    · obtain ⟨point, -, h⟩ := List.mem_flatMap.1 h
      exact ih h
    · exact ih h

private theorem completed_clear {partial' : Assignment}
    (h : completeAvoidingExclusions space exclusions partial' = some α) : Clear exclusions α := by
  simp only [completeAvoidingExclusions] at h
  split at h
  · rename_i hnone
    exact Option.some.inj h ▸ matchingExclusion_isNone.1 hnone
  · obtain ⟨d, -, h⟩ := List.exists_of_findSome?_eq_some h
    split at h
    · cases h
    · split at h
      · cases h
      · obtain ⟨point, -, h⟩ := List.exists_of_findSome?_eq_some h
        split at h
        · cases h
        · split at h
          · rename_i hnone
            exact Option.some.inj h ▸ matchingExclusion_isNone.1 hnone
          · cases h

private theorem grown_clear {t dropped : Nat} {seeds covering : List Assignment} {targets : List Target}
    (h : ipog space t seeds targets exclusions = some (covering, dropped)) (hα : α ∈ covering) : Clear exclusions α := by
  simp only [ipog] at h
  split at h
  · simp only [Option.some.injEq, Prod.mk.injEq] at h
    exact absurd hα (h.1 ▸ List.not_mem_nil)
  · simp only [Option.bind_eq_bind, Option.bind_eq_some_iff, pure, Option.some.injEq, Prod.mk.injEq] at h
    obtain ⟨order, -, rfl, -⟩ := h
    obtain ⟨τ, -, hτ⟩ := List.mem_filterMap.1 hα
    exact completed_clear hτ

/-- What a covering makes matches no exclusion. -/
theorem covering_clear {seeds : List Assignment} {strategy : Strategy} {covering : Covering}
    (h : cover space policy seeds exclusions strategy = some covering) (hα : α ∈ covering.assignments) :
    Clear exclusions α := by
  cases strategy with
  | baseOnly =>
    obtain rfl := Option.some.inj h
    exact absurd hα List.not_mem_nil
  | exhaustive =>
    obtain rfl := Option.some.inj h
    exact enumerated_clear hα
  | tWise =>
    simp only [cover, Option.bind_eq_bind, Option.bind_eq_some_iff, pure, Option.some.injEq] at h
    obtain ⟨⟨assignments, dropped⟩, hipog, rfl⟩ := h
    exact clear_enumerateTargets.1 (grown_clear hipog hα)

/-- A selected variant that is neither the base one nor a pinned one matches no exclusion. -/
def ExcludedNeverSelected (space : List Dimension) (pins : List Assignment) (exclusions : List ResolvedExclusion)
    (selected : Selected) : Prop :=
  ∀ v ∈ selected.variants, v.assignment ≠ complete space [] → v.assignment ∉ pins.map (complete space) →
    Clear exclusions v.assignment

/-- Each boundary variant is the base one, a pinned one, or matches no exclusion. -/
def BoundariesClear (space : List Dimension) (pins : List Assignment) (exclusions : List ResolvedExclusion) : Prop :=
  ∀ minimal, complete space (boundaryPartial space minimal) ≠ complete space [] →
    complete space (boundaryPartial space minimal) ∉ pins.map (complete space) →
    Clear exclusions (complete space (boundaryPartial space minimal))

/-- An excluded variant is kept out of a selection exactly where no boundary is excluded: the two are selected whatever
the exclusions are. -/
theorem excluded_never_selected_iff {pins : List Assignment} {selected : Selected}
    (hselect : select space policy = some (.ok selected))
    (hrefs : resolveRefs space policy = .ok (pins, exclusions)) :
    ExcludedNeverSelected space pins exclusions selected ↔
      (policy.boundaries = true → policy.strategy ≠ "base-only" → BoundariesClear space pins exclusions) := by
  obtain ⟨pins', exclusions', strategy, covering, h⟩ := select_cases hselect
  obtain ⟨rfl, rfl⟩ : pins' = pins ∧ exclusions' = exclusions := by
    simpa using h.refs.symm.trans hrefs
  have hboundary : ∀ minimal, policy.boundaries = true → policy.strategy ≠ "base-only" →
      complete space (boundaryPartial space minimal) ∈ boundarySeeds space policy strategy := by
    intro minimal hb hs
    exact mem_boundarySeeds.2 ⟨hb, fun hbase => hs ((baseOnly_iff h.resolved).1 hbase), minimal, rfl⟩
  constructor
  · intro hnever hb hs minimal hbase hpin
    obtain ⟨v, hv, hva⟩ := List.mem_map.1 (h.mem.2 (Or.inl (Or.inr (Or.inl (hboundary minimal hb hs)))))
    rw [← hva] at hbase hpin ⊢
    exact hnever v hv hbase hpin
  · intro hclear v hv hbase hpin
    rcases h.mem.1 (List.mem_map_of_mem hv) with (hbase' | hb | hpin') | hcovered
    · exact absurd hbase' hbase
    · obtain ⟨hon, hstrategy, minimal, hminimal⟩ := mem_boundarySeeds.1 hb
      rw [← hminimal] at hbase hpin ⊢
      exact hclear hon (fun hs => hstrategy ((baseOnly_iff h.resolved).2 hs)) minimal hbase hpin
    · exact absurd hpin' hpin
    · exact covering_clear h.covered hcovered

private def note : List Dimension :=
  computeMany [("response.body", .of (.object [("note", .of (.optional (.of .any)))]))]

private def noAbsent : SamplingPolicy :=
  { SamplingPolicy.default with exclude := [⟨[⟨"response.body.note#presence", "absent"⟩], "there is always one"⟩] }

private def absent : List ResolvedExclusion := [⟨[("response.body.note#presence", "absent")], "there is always one", 0⟩]

/-- The smallest variant of an optional member is selected against an exclusion of its absence. -/
theorem excluded_boundary_is_selected :
    ∃ selected, resolveRefs note noAbsent = .ok ([], absent) ∧ select note noAbsent = some (.ok selected) ∧
      ¬ExcludedNeverSelected note [] absent selected := by
  refine ⟨⟨_, _⟩, rfl, rfl, ?_⟩
  intro hnever
  exact absurd (hnever _ (List.mem_cons_of_mem _ List.mem_cons_self) (by decide) (by decide)) (by decide)

private def noBoundary : SamplingPolicy := { noAbsent with boundaries := false }

theorem excluded_never_selected_unseeded :
    ∃ selected, select note noBoundary = some (.ok selected) ∧
      (ExcludedNeverSelected note [] absent selected ↔
        (noBoundary.boundaries = true → noBoundary.strategy ≠ "base-only" → BoundariesClear note [] absent)) :=
  ⟨_, rfl, excluded_never_selected_iff rfl rfl⟩

end PactJanus.Variant.Excluded
