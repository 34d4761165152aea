import PactJanus.Variant.Coverage

namespace PactJanus.Variant.Kept

open PactJanus.Lib PactJanus.Lib.Lists PactJanus.Shape.VariantSpace PactJanus.Shape.Gating PactJanus.Plan.Compile
  PactJanus.Variant.Assignment PactJanus.Variant.References PactJanus.Variant.Policy PactJanus.Variant.Targets
  PactJanus.Variant.Growth PactJanus.Variant.Completion PactJanus.Variant.Trace PactJanus.Variant.Coverage

/-! Partial assignments that keep, when completed, what they were grown to cover. -/

variable {space : List Dimension} {exclusions : List ResolvedExclusion} {τ reqs : Assignment} {target : Target}
  {ts : List Assignment} {targets remaining : List Target} {d : Dimension} {dims : List Dimension}
  {processed : List String}

theorem closed_nil : Closed space [] := fun _ _ h => nomatch h

theorem closed_insert (hf : Forest space) (hd : d ∈ space) (h : Closed space τ) (ha : isActive τ d = true)
    (hnone : τ.lookup d.id = none) (point : String) : Closed space (SortedMap.insert d.id point τ) := by
  intro e he hsome g hg
  rw [SortedMap.lookup_insert]
  by_cases hid : e.id = d.id
  · obtain rfl := hf.eq_of_id he hd hid
    rw [if_neg (hf.ordered.not_own_gate he hg)]
    exact isActive_iff.1 ha g hg
  · rw [SortedMap.lookup_insert, if_neg hid] at hsome
    have hgate := h e he hsome g hg
    rw [if_neg]
    · exact hgate
    · intro heq
      rw [heq, hnone] at hgate
      cases hgate

/-- A target's requirements have the gates of each dimension they name. -/
theorem closed_reqs (hf : Forest space) (h : Requires space target reqs) : Closed space reqs := by
  intro e he hsome g hg
  obtain ⟨point, hpoint⟩ := Option.isSome_iff_exists.1 hsome
  rcases h.only _ (mem_of_lookup hpoint) with hmem | ⟨r, hr, f, hbyId, g', hg', heq⟩
  · obtain ⟨f, hbyId, hgates⟩ := h.gates _ hmem
    obtain rfl := Option.some.inj ((byId_self hf.distinct he).symm.trans hbyId)
    exact hgates g hg
  · obtain ⟨f', hbyId', hgates⟩ := h.gates r hr
    obtain rfl := Option.some.inj (hbyId.symm.trans hbyId')
    obtain ⟨p, hp, q, -, rfl, hbefore⟩ := hf.gate (byId_some hbyId).1 hg'
    obtain rfl := hf.eq_of_id hp he (congrArg Prod.fst heq).symm
    exact hgates g (hbefore.subset (List.mem_append_left _ hg))

/-- Requirements merged where they fit. -/
theorem closed_orInsert (h : Closed space τ) (hreqs : Closed space reqs)
    (hfit : ∀ q ∈ reqs, ∀ point, τ.lookup q.1 = some point → point = q.2) : Closed space (orInsert τ reqs) := by
  intro e he hsome g hg
  cases hτ : τ.lookup e.id with
  | some point => exact orInsert_extends _ _ (h e he (by rw [hτ]; rfl) g hg)
  | none =>
    rw [lookup_orInsert, hτ, Option.none_or] at hsome
    have hgate := hreqs e he hsome g hg
    rw [lookup_orInsert]
    cases hgτ : τ.lookup g.dimension with
    | none => exact hgate
    | some point => exact congrArg some (hfit _ (mem_of_lookup hgate) point hgτ)

/-- What a closed partial assignment covers, its completion does. -/
theorem closed_keeps (hf : Forest space) (h : Closed space τ) (htarget : ∀ q ∈ target, ∃ d ∈ space, d.id = q.1)
    (hc : isCovered target τ = true) : isCovered target (complete space τ) = true := by
  refine isCovered_iff.2 fun q hq => ?_
  obtain ⟨d, hd, hid⟩ := htarget q hq
  rw [← hid]
  exact lookup_complete_of_closed hf h hd (hid ▸ isCovered_iff.1 hc q hq)

/-! The passes. -/

private theorem horizontal_closed (hf : Forest space) (hd : d ∈ space) (hfresh : d.id ∉ processed)
    (hwithin : ∀ τ ∈ ts, Within processed τ) (h : ∀ τ ∈ ts, Closed space τ) :
    (∀ w ∈ horizontalSteps exclusions d ts targets, Closed space w.wider ∧ w.targets ⊆ targets) ∧
      ∀ τ ∈ (horizontal exclusions d ts targets).1, Closed space τ := by
  induction ts generalizing targets with
  | nil => exact ⟨List.forall_mem_nil _, List.forall_mem_nil _⟩
  | cons τ rest ih =>
    obtain ⟨hτ, hrest⟩ := List.forall_mem_cons.1 h
    obtain ⟨hτwithin, hrestwithin⟩ := List.forall_mem_cons.1 hwithin
    cases hpoint : (if isActive τ d then bestPoint exclusions targets τ d else none) with
    | some point =>
      simp only [horizontal, horizontalSteps, hpoint]
      have ha : isActive τ d = true := by
        by_contra hnot
        rw [if_neg hnot] at hpoint
        cases hpoint
      have hclosed := closed_insert hf hd hτ ha (hτwithin.lookup hfresh) point
      obtain ⟨hsteps, hts⟩ := ih hrestwithin hrest
      refine ⟨List.forall_mem_cons.2 ⟨⟨hclosed, List.Subset.refl _⟩, fun w hw => ?_⟩,
        List.forall_mem_cons.2 ⟨hclosed, hts⟩⟩
      exact ⟨(hsteps w hw).1, List.Subset.trans (hsteps w hw).2 List.filter_sublist.subset⟩
    | none =>
      simp only [horizontal, horizontalSteps, hpoint]
      obtain ⟨hsteps, hts⟩ := ih hrestwithin hrest
      exact ⟨hsteps, List.forall_mem_cons.2 ⟨hτ, hts⟩⟩

private theorem extend_closed (hf : Forest space) {e : Extension} (hfit : e.Fits space)
    (h : ∀ τ ∈ e.ts, Closed space τ) : ∀ τ ∈ extend space e.target e.ts, Closed space τ := by
  unfold extend
  split
  · rename_i reqs hreqs
    have hclosed := closed_reqs hf (requires_of_some hreqs)
    intro τ hτ
    rcases mem_mergeInto hτ with hτ | rfl | ⟨σ, hσ, rfl⟩
    · exact h τ hτ
    · exact hclosed
    · exact closed_orInsert (h σ (List.mem_of_find?_eq_some hσ)) hclosed (hfit reqs hreqs σ hσ)
  · exact h

private theorem vertical_closed (hf : Forest space) (h : ∀ τ ∈ ts, Closed space τ)
    (hfit : ∀ e ∈ verticalSteps space remaining ts targets, e.Fits space) :
    (∀ e ∈ verticalSteps space remaining ts targets,
      (∀ τ ∈ extend space e.target e.ts, Closed space τ) ∧ e.targets ⊆ targets) ∧
      ∀ τ ∈ (vertical space remaining ts targets).1, Closed space τ := by
  induction remaining generalizing ts targets with
  | nil => exact ⟨List.forall_mem_nil _, h⟩
  | cons target rest ih =>
    unfold vertical
    unfold verticalSteps at hfit ⊢
    split
    · rename_i hmem
      rw [if_pos hmem] at hfit
      obtain ⟨hfirst, hrest⟩ := List.forall_mem_cons.1 hfit
      have hclosed := extend_closed hf hfirst h
      obtain ⟨hsteps, hts⟩ := ih hclosed hrest
      refine ⟨List.forall_mem_cons.2 ⟨⟨hclosed, List.Subset.refl _⟩, fun e he => ?_⟩, hts⟩
      exact ⟨(hsteps e he).1, List.Subset.trans (hsteps e he).2 List.filter_sublist.subset⟩
    · rename_i hmem
      rw [if_neg hmem] at hfit
      exact ih h hfit

/-- Where every target is merged where it fits, every partial assignment stays closed. -/
theorem grow_closed (hf : Forest space) (hplaced : PlacedInOrder processed dims) (hnodup : (dims.map Dimension.id).Nodup)
    (hfresh : ∀ d ∈ dims, d.id ∉ processed) (hdims : dims ⊆ space) (hgates : GatesProcessed space processed)
    (hwithin : ∀ τ ∈ ts, Within processed τ) (h : ∀ τ ∈ ts, Closed space τ)
    (hfit : MergesFit space (growSteps space exclusions dims processed ts targets)) :
    (∀ w ∈ (growSteps space exclusions dims processed ts targets).widenings,
      Closed space w.wider ∧ w.targets ⊆ targets) ∧
    (∀ e ∈ (growSteps space exclusions dims processed ts targets).extensions,
      (∀ τ ∈ extend space e.target e.ts, Closed space τ) ∧ e.targets ⊆ targets) ∧
    ∀ τ ∈ grow space exclusions dims processed ts targets, Closed space τ := by
  induction dims generalizing processed ts targets with
  | nil => exact ⟨List.forall_mem_nil _, List.forall_mem_nil _, h⟩
  | cons d rest ih =>
    obtain ⟨hd, hrest⟩ := List.cons_subset.1 hdims
    obtain ⟨hnot, hnodup⟩ := List.nodup_cons.1 hnodup
    obtain ⟨hdfresh, hrestfresh⟩ := List.forall_mem_cons.1 hfresh
    have hgates' := hgates.cons hf hd hplaced.1
    have hwider : ∀ τ ∈ (horizontal exclusions d ts targets).1, Within (d.id :: processed) τ :=
      horizontal_within hwithin
    have hinPlay : ∀ target ∈ inPlay d (d.id :: processed) (horizontal exclusions d ts targets).2,
        Within (d.id :: processed) target := fun target htarget => (mem_inPlay.1 htarget).2.2
    have hrestfresh' : ∀ e ∈ rest, e.id ∉ d.id :: processed := by
      intro e he hmem
      rcases List.mem_cons.1 hmem with heq | hmem
      · exact hnot (heq ▸ List.mem_map_of_mem he)
      · exact hrestfresh e he hmem
    obtain ⟨hhsteps, hhts⟩ : (∀ w ∈ horizontalSteps exclusions d ts targets, Closed space w.wider ∧ w.targets ⊆ targets) ∧
        ∀ τ ∈ (horizontal exclusions d ts targets).1, Closed space τ := horizontal_closed hf hd hdfresh hwithin h
    have hvfit : ∀ e ∈ verticalSteps space (inPlay d (d.id :: processed) (horizontal exclusions d ts targets).2)
        (horizontal exclusions d ts targets).1 (horizontal exclusions d ts targets).2, e.Fits space :=
      fun e he => hfit e (List.mem_append_left _ he)
    obtain ⟨hvsteps, hvts⟩ := vertical_closed hf hhts hvfit
    obtain ⟨hw, he, hts⟩ := ih hplaced.2 hnodup hrestfresh' hrest hgates' (vertical_within hgates' hinPlay hwider) hvts
      fun e he => hfit e (List.mem_append_right _ he)
    refine ⟨fun w hmem => ?_, fun e hmem => ?_, hts⟩
    · rcases List.mem_append.1 hmem with hmem | hmem
      · exact hhsteps w hmem
      · exact ⟨(hw w hmem).1, List.Subset.trans (hw w hmem).2
          (List.Subset.trans vertical_targets horizontal_targets)⟩
    · rcases List.mem_append.1 hmem with hmem | hmem
      · exact ⟨(hvsteps e hmem).1, List.Subset.trans (hvsteps e hmem).2 horizontal_targets⟩
      · exact ⟨(he e hmem).1, List.Subset.trans (he e hmem).2
          (List.Subset.trans vertical_targets horizontal_targets)⟩

/-! A step at which a target does not fit removes the target for nothing. -/

private theorem verticalSteps_mem {e : Extension} (h : e ∈ verticalSteps space remaining ts targets) :
    e.target ∈ e.targets := by
  induction remaining generalizing ts targets with
  | nil => cases h
  | cons target rest ih =>
    unfold verticalSteps at h
    split at h
    · rename_i hmem
      rcases List.mem_cons.1 h with rfl | h
      · exact List.contains_iff_mem.1 hmem
      · exact ih h
    · exact ih h

theorem growSteps_mem {e : Extension} (h : e ∈ (growSteps space exclusions dims processed ts targets).extensions) :
    e.target ∈ e.targets := by
  induction dims generalizing processed ts targets with
  | nil => cases h
  | cons d rest ih =>
    rcases List.mem_append.1 h with h | h
    · exact verticalSteps_mem h
    · exact ih h

/-- A target that its merge keeps in the completion was merged where it fits. -/
theorem fits_of_sound (hf : Forest space) {e : Extension} (hmem : e.target ∈ e.targets)
    (h : ∀ τ ∈ extend space e.target e.ts, RemovesSoundly space τ e.targets) : e.Fits space := by
  intro reqs hreqs τ hτ q hq point hpoint
  have hrequires := requires_of_some hreqs
  have hcompatible : isCompatible τ e.target = true := by
    have := List.find?_some hτ
    exact this
  have hextend : orInsert τ reqs ∈ extend space e.target e.ts := by
    unfold extend
    rw [hreqs]
    exact orInsert_mem_mergeInto hτ
  have hkept := h _ hextend e.target hmem (covered_orInsert hrequires hcompatible)
  rcases hrequires.only q hq with hown | ⟨r, hr, f, hbyId, g, hg, rfl⟩
  · have := List.all_eq_true.1 hcompatible q hown
    rw [hpoint] at this
    simpa using this
  · obtain ⟨hfmem, hid⟩ := byId_some hbyId
    have hr' := isCovered_iff.1 hkept r hr
    rw [← hid, lookup_complete hf.ordered hfmem] at hr'
    have hactive : isActive (complete space (orInsert τ reqs)) f = true := by
      by_contra hnot
      rw [if_neg hnot] at hr'
      cases hr'
    have hgate := isActive_iff.1 hactive g hg
    obtain ⟨p, hp, q, -, rfl, -⟩ := hf.gate hfmem hg
    rw [lookup_complete hf.ordered hp] at hgate
    split at hgate
    · have hpick := Option.some.inj hgate
      rw [pick, orInsert_extends _ _ hpoint] at hpick
      exact hpick
    · cases hgate

end PactJanus.Variant.Kept
