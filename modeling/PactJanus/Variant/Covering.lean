import PactJanus.Variant.Kept
import PactJanus.Variant.Membership

namespace PactJanus.Variant.Covering

open PactJanus.Lib PactJanus.Lib.Lists PactJanus.Shape.Model PactJanus.Shape.VariantSpace PactJanus.Shape.Gating
  PactJanus.Plan.Compile PactJanus.Variant.Assignment PactJanus.Variant.References PactJanus.Variant.Policy
  PactJanus.Variant.Targets PactJanus.Variant.Growth PactJanus.Variant.Completion PactJanus.Variant.Selection
  PactJanus.Variant.Membership PactJanus.Variant.Trace PactJanus.Variant.Coverage PactJanus.Variant.Kept

/-! What a t-wise selection covers, and what it reports to. -/

variable {space : List Dimension} {exclusions : List ResolvedExclusion} {τ : Assignment} {target : Target}
  {d : Dimension} {dims order : List Dimension} {processed : List String} {current : Assignment}

/-! The order, taken apart. -/

private theorem placed_mono {more : List String} (h : PlacedInOrder processed dims) (hsub : processed ⊆ more) :
    PlacedInOrder more dims := by
  induction dims generalizing processed more with
  | nil => trivial
  | cons d rest ih => exact ⟨fun g hg => hsub (h.1 g hg), ih h.2 (List.cons_subset_cons d.id hsub)⟩

private theorem placed_append {later : List Dimension} (h : PlacedInOrder processed (dims ++ later)) :
    (∀ d ∈ dims, ∀ g ∈ d.gatedBy, g.dimension ∈ processed ∨ g.dimension ∈ dims.map Dimension.id) ∧
      PlacedInOrder (processed ++ dims.map Dimension.id) later := by
  induction dims generalizing processed with
  | nil => exact ⟨List.forall_mem_nil _, by simpa using h⟩
  | cons d rest ih =>
    obtain ⟨hrest, hlater⟩ := ih h.2
    refine ⟨List.forall_mem_cons.2 ⟨fun g hg => Or.inl (h.1 g hg), fun e he g hg => ?_⟩, placed_mono hlater ?_⟩
    · rcases hrest e he g hg with hin | hin
      · rcases List.mem_cons.1 hin with hin | hin
        · exact Or.inr (List.mem_cons.2 (Or.inl hin))
        · exact Or.inl hin
      · exact Or.inr (List.mem_cons_of_mem _ hin)
    · intro id hid
      simp only [List.mem_append, List.mem_cons, List.map_cons] at hid ⊢
      tauto

private theorem placed_prefix {later : List Dimension} (h : PlacedInOrder processed (dims ++ later)) :
    PlacedInOrder processed dims := by
  induction dims generalizing processed with
  | nil => trivial
  | cons d rest ih => exact ⟨h.1, ih h.2⟩

/-! The first block. -/

private theorem block_mem (hτ : τ ∈ buildInitialBlock exclusions dims current) :
    ∀ q ∈ τ, q ∈ current ∨ q.1 ∈ dims.map Dimension.id := by
  induction dims generalizing current with
  | nil =>
    unfold buildInitialBlock at hτ
    split at hτ
    · exact fun q hq => Or.inl (List.mem_singleton.1 hτ ▸ hq)
    · cases hτ
  | cons d rest ih =>
    unfold buildInitialBlock at hτ
    intro q hq
    split at hτ
    · obtain ⟨p, -, hτ⟩ := List.mem_flatMap.1 hτ
      rcases ih hτ q hq with hmem | hmem
      · rcases SortedMap.mem_of_mem_insert hmem with rfl | hmem
        · exact Or.inr List.mem_cons_self
        · exact Or.inl hmem
      · exact Or.inr (List.mem_cons_of_mem _ hmem)
    · exact (ih hτ q hq).imp_right (List.mem_cons_of_mem _)

private theorem block_closed (hf : Forest space) (hdims : dims ⊆ space) (hnodup : (dims.map Dimension.id).Nodup)
    (hfresh : Fresh dims current) (h : Closed space current) :
    ∀ τ ∈ buildInitialBlock exclusions dims current, Closed space τ := by
  induction dims generalizing current with
  | nil =>
    intro τ hτ
    unfold buildInitialBlock at hτ
    split at hτ
    · exact List.mem_singleton.1 hτ ▸ h
    · cases hτ
  | cons d rest ih =>
    obtain ⟨hd, hrest⟩ := List.cons_subset.1 hdims
    obtain ⟨hnot, hnodup⟩ := List.nodup_cons.1 hnodup
    intro τ hτ
    unfold buildInitialBlock at hτ
    split at hτ
    · rename_i ha
      obtain ⟨p, -, hτ⟩ := List.mem_flatMap.1 hτ
      refine ih hrest hnodup (fun e he => ?_) (closed_insert hf hd h ha (hfresh d List.mem_cons_self) p.name) τ hτ
      rw [SortedMap.lookup_insert, if_neg fun heq : e.id = d.id => hnot (heq ▸ List.mem_map_of_mem he)]
      exact hfresh e (List.mem_cons_of_mem _ he)
    · exact ih hrest hnodup hfresh.tail h τ hτ

private theorem clear_congr {α β : Assignment} (h : ∀ id, α.lookup id = β.lookup id) (hclear : Clear exclusions α) :
    Clear exclusions β := by
  intro e he
  rw [← hclear e he]
  simp only [assignmentMatches, h]

/-- A target of the first dimensions is in the first block, as it stands. -/
private theorem block_covers (hclear : Clear exclusions target) (hplaced : PlacedInOrder processed dims)
    (hnodup : (dims.map Dimension.id).Nodup) (hfresh : ∀ d ∈ dims, d.id ∉ processed)
    (hpoints : ∀ d ∈ dims, ∃ p ∈ d.points, target.lookup d.id = some p.name)
    (hgates : ∀ d ∈ dims, ∀ g ∈ d.gatedBy, target.lookup g.dimension = some g.point)
    (honly : ∀ id, id ∉ processed → id ∉ dims.map Dimension.id → target.lookup id = none)
    (hcurrent : ∀ id, current.lookup id = if id ∈ processed then target.lookup id else none) :
    ∃ τ ∈ buildInitialBlock exclusions dims current, ∀ id, τ.lookup id = target.lookup id := by
  induction dims generalizing processed current with
  | nil =>
    have hsame : ∀ id, current.lookup id = target.lookup id := by
      intro id
      rw [hcurrent id]
      split
      · rfl
      · rename_i hout
        exact (honly id hout List.not_mem_nil).symm
    refine ⟨current, ?_, hsame⟩
    rw [buildInitialBlock, if_pos (matchingExclusion_isNone.2 (clear_congr (fun id => (hsame id).symm) hclear))]
    exact List.mem_singleton_self current
  | cons d rest ih =>
    obtain ⟨hnot, hnodup⟩ := List.nodup_cons.1 hnodup
    obtain ⟨hdfresh, hrestfresh⟩ := List.forall_mem_cons.1 hfresh
    obtain ⟨⟨p, hp, hpoint⟩, hrestpoints⟩ := List.forall_mem_cons.1 hpoints
    obtain ⟨hdgates, hrestgates⟩ := List.forall_mem_cons.1 hgates
    have ha : isActive current d = true := by
      refine isActive_iff.2 fun g hg => ?_
      rw [hcurrent, if_pos (hplaced.1 g hg)]
      exact hdgates g hg
    have hrest : ∀ e ∈ rest, e.id ∉ d.id :: processed := by
      intro e he hmem
      rcases List.mem_cons.1 hmem with heq | hmem
      · exact hnot (heq ▸ List.mem_map_of_mem he)
      · exact hrestfresh e he hmem
    have honly' : ∀ id, id ∉ d.id :: processed → id ∉ rest.map Dimension.id → target.lookup id = none := by
      intro id hout hnotrest
      rw [List.mem_cons, not_or] at hout
      exact honly id hout.2 fun hmem => (List.mem_cons.1 hmem).elim hout.1 hnotrest
    have hcurrent' : ∀ id, (SortedMap.insert d.id p.name current).lookup id =
        if id ∈ d.id :: processed then target.lookup id else none := by
      intro id
      rw [SortedMap.lookup_insert]
      by_cases hid : id = d.id
      · rw [if_pos hid, if_pos (hid ▸ List.mem_cons_self), hid, hpoint]
      · rw [if_neg hid, hcurrent id]
        simp only [List.mem_cons, hid, false_or]
    obtain ⟨τ, hτ, hsame⟩ := ih hplaced.2 hnodup hrest hrestpoints hrestgates honly' hcurrent'
    refine ⟨τ, ?_, hsame⟩
    rw [buildInitialBlock, if_pos ha]
    exact List.mem_flatMap.2 ⟨p, hp, hτ⟩

/-! The run of the covering. -/

/-- What a covering starts from. -/
structure Start (space : List Dimension) (t : Nat) (order : List Dimension) (left : List Target) : Prop where
  forest : Forest space
  order : processingOrder space = some order
  strength : 0 < t
  reachable : ∀ target ∈ left, target ∈ reachableTargets space t

section Run

variable {t : Nat} {left : List Target} {seeds : List Assignment}

theorem Start.perm (h : Start space t order left) : order.Perm space := orderFrom_perm rfl h.forest.distinct h.order

theorem Start.nodup (h : Start space t order left) : (order.map Dimension.id).Nodup :=
  (h.perm.map Dimension.id).nodup_iff.2 h.forest.distinct

theorem Start.placed (h : Start space t order left) (k : Nat) :
    (∀ d ∈ order.take k, ∀ g ∈ d.gatedBy, g.dimension ∈ (order.take k).map Dimension.id) ∧
      PlacedInOrder ((order.take k).map Dimension.id) (order.drop k) := by
  have hplaced : PlacedInOrder [] (order.take k ++ order.drop k) := by
    rw [List.take_append_drop]
    exact orderFrom_placed h.order
  obtain ⟨hgates, hlater⟩ := placed_append hplaced
  exact ⟨fun d hd g hg => (hgates d hd g hg).resolve_left List.not_mem_nil, by simpa using hlater⟩

theorem Start.later_fresh (h : Start space t order left) (k : Nat) :
    ∀ d ∈ order.drop k, d.id ∉ (order.take k).map Dimension.id := by
  intro d hd hmem
  have hnodup := h.nodup
  rw [← List.take_append_drop k order, List.map_append] at hnodup
  exact (List.nodup_append.1 hnodup).2.2 d.id hmem d.id (List.mem_map_of_mem hd) rfl

theorem Start.gates (h : Start space t order left) (k : Nat) :
    GatesProcessed space ((order.take k).map Dimension.id) := by
  intro d hd hid g hg
  obtain ⟨e, he, heq⟩ := List.mem_map.1 hid
  obtain rfl := h.forest.eq_of_id (h.perm.subset (List.take_subset _ _ he)) hd heq
  exact (h.placed k).1 e he g hg

private theorem block_within (k : Nat) :
    ∀ τ ∈ block k seeds exclusions order, Within ((order.take k).map Dimension.id) τ := by
  intro τ hτ q hq
  exact (block_mem (List.mem_of_mem_filter hτ) q hq).resolve_left List.not_mem_nil

theorem Start.block_closed (h : Start space t order left) (k : Nat) :
    ∀ τ ∈ block k seeds exclusions order, Closed space τ := by
  intro τ hτ
  exact Covering.block_closed h.forest (List.Subset.trans (List.take_subset _ _) h.perm.subset)
    (h.nodup.sublist ((List.take_sublist _ _).map _)) fresh_nil closed_nil τ (List.mem_of_mem_filter hτ)

/-- The strength the growth goes by is the one the targets are of. -/
theorem Start.strength_eq (h : Start space t order left) (hleft : target ∈ left) : max (min t order.length) 1 = t := by
  obtain ⟨dims, hsub, hlength, -, -⟩ := dims_of_target h.forest.distinct (h.reachable target hleft)
  have hle := hsub.length_le
  have := h.strength
  have := h.perm.length_eq
  omega

theorem Start.target_ids (h : Start space t order left) (hleft : target ∈ left) :
    ∀ q ∈ target, ∃ d ∈ space, d.id = q.1 := by
  intro q hq
  obtain ⟨d, hd, hid, -⟩ := mem_target (h.reachable target hleft) hq
  exact ⟨d, hd, hid⟩

private theorem Start.requires (h : Start space t order left) (hleft : target ∈ left) :
    (targetRequirements space target).isSome = true := (List.mem_filter.1 (h.reachable target hleft)).2

/-- A target with no dimension beyond the first ones is in the first block, unless a seed has it. -/
private theorem Start.block_covers (h : Start space t order left) (hleft : target ∈ left)
    (hclear : Clear exclusions target) (hseeds : ∀ s ∈ seeds, isCovered target s = false)
    (hin : Within ((order.take t).map Dimension.id) target) : Covered (block t seeds exclusions order) target := by
  obtain ⟨reqs, hreqs⟩ := Option.isSome_iff_exists.1 (h.requires hleft)
  have hrequires := requires_of_some hreqs
  obtain ⟨dims, hsub, hlength, hpoints, hothers⟩ := dims_of_target h.forest.distinct (h.reachable target hleft)
  have htake : (order.take t).length = t := by
    have := hsub.length_le
    have := h.perm.length_eq
    rw [List.length_take]
    omega
  -- its dimensions are as many as the first ones, and so the same
  have hsame : ∀ d ∈ order.take t, d ∈ dims := by
    have hids : (dims.map Dimension.id).Subperm ((order.take t).map Dimension.id) := by
      refine List.subperm_of_subset (h.forest.distinct.sublist (hsub.map _)) fun id hid => ?_
      obtain ⟨d, hd, rfl⟩ := List.mem_map.1 hid
      obtain ⟨p, -, hp⟩ := hpoints d hd
      exact hin _ (mem_of_lookup hp)
    have hperm := hids.perm_of_length_le (by rw [List.length_map, List.length_map, htake, hlength])
    intro d hd
    obtain ⟨e, he, heq⟩ := List.mem_map.1 (hperm.mem_iff.2 (List.mem_map_of_mem hd))
    obtain rfl := h.forest.eq_of_id (hsub.subset he) (h.perm.subset (List.take_subset _ _ hd)) heq
    exact he
  have htargetPoints : ∀ d ∈ order.take t, ∃ p ∈ d.points, target.lookup d.id = some p.name :=
    fun d hd => hpoints d (hsame d hd)
  have htargetGates : ∀ d ∈ order.take t, ∀ g ∈ d.gatedBy, target.lookup g.dimension = some g.point := by
    intro d hd g hg
    have hspace := h.perm.subset (List.take_subset _ _ hd)
    obtain ⟨p, -, hp⟩ := htargetPoints d hd
    obtain ⟨e, hbyId, hgates⟩ := hrequires.gates _ (mem_of_lookup hp)
    obtain rfl := Option.some.inj ((byId_self h.forest.distinct hspace).symm.trans hbyId)
    obtain ⟨f, hf, hfid⟩ := List.mem_map.1 ((h.placed t).1 d hd g hg)
    obtain ⟨q, -, hq⟩ := htargetPoints f hf
    rw [hfid] at hq
    rw [hq, ← hrequires.own _ (mem_of_lookup hq)]
    exact hgates g hg
  have honly : ∀ id, id ∉ ([] : List String) → id ∉ (order.take t).map Dimension.id → target.lookup id = none :=
    fun id _ hout => hin.lookup hout
  have hempty : ∀ id, ([] : Assignment).lookup id = if id ∈ ([] : List String) then target.lookup id else none :=
    fun id => (if_neg List.not_mem_nil).symm
  have hplaced : PlacedInOrder [] (order.take t) := by
    have := orderFrom_placed h.order
    rw [← List.take_append_drop t order] at this
    exact placed_prefix this
  obtain ⟨τ, hτ, hlookup⟩ := Covering.block_covers hclear hplaced (h.nodup.sublist ((List.take_sublist _ _).map _))
    (fun d _ => List.not_mem_nil) htargetPoints htargetGates honly hempty
  have hcovered : isCovered target τ = true :=
    isCovered_iff.2 fun q hq => (hlookup q.1).trans (hrequires.lookup hq)
  refine ⟨τ, List.mem_filter.2 ⟨hτ, ?_⟩, hcovered⟩
  rw [Bool.not_eq_true', List.any_eq_false]
  intro s hs hpartial
  have hseed : isCovered target s = true := by
    refine isCovered_iff.2 fun q hq => beq_iff_eq.1 ?_
    exact List.all_eq_true.1 hpartial _ (mem_of_lookup (isCovered_iff.1 hcovered q hq))
  rw [hseeds s hs] at hseed
  cases hseed

/-- Every target is in one of the partial assignments that are grown. -/
theorem Start.grown_covers (h : Start space t order left) (hclear : ∀ target ∈ left, Clear exclusions target)
    (hseeds : ∀ target ∈ left, ∀ s ∈ seeds, isCovered target s = false) (hleft : target ∈ left) :
    Covered (grown space (max (min t order.length) 1) seeds left exclusions order) target := by
  rw [h.strength_eq hleft]
  refine grow_covers h.forest (h.placed t).2 (h.nodup.sublist ((List.drop_sublist _ _).map _)) (h.later_fresh t)
    (List.Subset.trans (List.drop_subset _ _) h.perm.subset) (h.gates t) (block_within t) (fun _ => h.requires) ?_
    (List.Subset.refl left) ?_ target hleft
  · intro other hother q hq
    obtain ⟨d, hd, hid⟩ := h.target_ids hother q hq
    have hmem : d ∈ order.take t ++ order.drop t := by
      rw [List.take_append_drop]
      exact h.perm.mem_iff.2 hd
    rw [← hid]
    exact (List.mem_append.1 hmem).imp List.mem_map_of_mem List.mem_map_of_mem
  · intro other hother
    by_cases hin : Within ((order.take t).map Dimension.id) other
    · exact Or.inl (h.block_covers hother (hclear other hother) (hseeds other hother) hin)
    · exact Or.inr ⟨hother, hin⟩

theorem Start.grown_closed (h : Start space t order left) (k : Nat)
    (hfit : MergesFit space (growSteps space exclusions (order.drop k) ((order.take k).map Dimension.id)
      (block k seeds exclusions order) left)) :
    (∀ w ∈ (growSteps space exclusions (order.drop k) ((order.take k).map Dimension.id)
      (block k seeds exclusions order) left).widenings, Closed space w.wider ∧ w.targets ⊆ left) ∧
    (∀ e ∈ (growSteps space exclusions (order.drop k) ((order.take k).map Dimension.id)
      (block k seeds exclusions order) left).extensions,
      (∀ τ ∈ extend space e.target e.ts, Closed space τ) ∧ e.targets ⊆ left) ∧
    ∀ τ ∈ grown space k seeds left exclusions order, Closed space τ :=
  grow_closed h.forest (h.placed k).2 (h.nodup.sublist ((List.drop_sublist _ _).map _)) (h.later_fresh k)
    (List.Subset.trans (List.drop_subset _ _) h.perm.subset) (h.gates k) (block_within k) (h.block_closed k) hfit

end Run

/-! What a t-wise selection does. -/

/-- The strength a selection goes by. -/
def strengthOf (policy : SamplingPolicy) : Nat := max policy.strength.toNat 1

/-- The targets of a selection, and its exclusions with what each removed. -/
def targetsOf (space : List Dimension) (policy : SamplingPolicy) (exclusions : List ResolvedExclusion) :
    List Target × List ResolvedExclusion := enumerateTargets space (strengthOf policy) exclusions

/-- The assignments a t-wise selection starts with. -/
def seedsOf (space : List Dimension) (policy : SamplingPolicy) (pins : List Assignment) : List Assignment :=
  (seeds space policy .tWise pins).map Variant.assignment

/-- The partial assignments a t-wise selection grows, and the steps by which it does. -/
def partialsOf (space : List Dimension) (policy : SamplingPolicy) (pins : List Assignment)
    (exclusions : List ResolvedExclusion) : List Assignment :=
  partials space (strengthOf policy) (seedsOf space policy pins) (targetsOf space policy exclusions).1
    (targetsOf space policy exclusions).2

def stepsOf (space : List Dimension) (policy : SamplingPolicy) (pins : List Assignment)
    (exclusions : List ResolvedExclusion) : Steps :=
  steps space (strengthOf policy) (seedsOf space policy pins) (targetsOf space policy exclusions).1
    (targetsOf space policy exclusions).2

/-- The completion of a partial assignment, if it is not dropped. -/
def completionOf (space : List Dimension) (policy : SamplingPolicy) (exclusions : List ResolvedExclusion)
    (τ : Assignment) : Option Assignment :=
  completeAvoidingExclusions space (targetsOf space policy exclusions).2 τ

/-- A reachable target that no exclusion matches is in a selected variant, or in a partial assignment that was dropped. -/
def TargetsKept (space : List Dimension) (policy : SamplingPolicy) (pins : List Assignment)
    (exclusions : List ResolvedExclusion) (selected : Selected) : Prop :=
  ∀ target ∈ reachableTargets space (strengthOf policy), Clear exclusions target →
    (∃ v ∈ selected.variants, isCovered target v.assignment = true) ∨
      ∃ τ ∈ partialsOf space policy pins exclusions, isCovered target τ = true ∧
        completionOf space policy exclusions τ = none

section Selection

variable {policy : SamplingPolicy} {pins : List Assignment} {selected : Selected} {covering : Selection.Covering}

/-- What a completion is of: the partial assignment, or the same with one more point. -/
private theorem completion_cases {α : Assignment} (h : completeAvoidingExclusions space exclusions τ = some α) :
    ∃ more, Extends τ more ∧ α = complete space more := by
  simp only [completeAvoidingExclusions] at h
  split at h
  · exact ⟨τ, Extends.refl τ, (Option.some.inj h).symm⟩
  · obtain ⟨d, -, h⟩ := List.exists_of_findSome?_eq_some h
    split at h
    · cases h
    · rename_i hfree
      split at h
      · cases h
      · obtain ⟨p, -, h⟩ := List.exists_of_findSome?_eq_some h
        split at h
        · cases h
        · split at h
          · exact ⟨_, insert_extends (Option.not_isSome_iff_eq_none.1 hfree) p.name, (Option.some.inj h).symm⟩
          · cases h

/-- What a closed partial assignment covers, the completion that clears the exclusions does. -/
private theorem completion_keeps (hf : Forest space) (hτ : Closed space τ) (htarget : ∀ q ∈ target, ∃ d ∈ space, d.id = q.1)
    (hc : isCovered target τ = true) {α : Assignment} (h : completeAvoidingExclusions space exclusions τ = some α) :
    isCovered target α = true := by
  obtain ⟨more, hext, rfl⟩ := completion_cases h
  refine isCovered_iff.2 fun q hq => ?_
  obtain ⟨d, hd, hid⟩ := htarget q hq
  rw [← hid]
  exact lookup_complete_of_extends hf hτ (fun e _ point hpoint => hext e.id point hpoint) hd
    (hid ▸ isCovered_iff.1 hc q hq)

/-- What a t-wise selection's covering is made by. -/
theorem tWise_cases (h : SelectedFrom space policy pins exclusions .tWise covering selected) :
    ipog space (strengthOf policy) (seedsOf space policy pins) (targetsOf space policy exclusions).1
        (targetsOf space policy exclusions).2 = some (covering.assignments, covering.dropped) ∧
      covering.targets = (targetsOf space policy exclusions).1.length ∧
      covering.assignments = (partialsOf space policy pins exclusions).filterMap (completionOf space policy exclusions) ∧
      covering.dropped = ((partialsOf space policy pins exclusions).filter fun τ =>
        (completionOf space policy exclusions τ).isNone).length := by
  have hcover := h.covered
  simp only [cover, Option.bind_eq_bind, Option.bind_eq_some_iff, pure, Option.some.injEq] at hcover
  obtain ⟨⟨assignments, dropped⟩, hipog, rfl⟩ := hcover
  obtain ⟨hassignments, hdropped⟩ := ipog_partials hipog
  exact ⟨hipog, rfl, hassignments, hdropped⟩

/-- A t-wise selection grows from the targets no seed has, or has none left. -/
theorem run_cases (hf : Forest space) (h : SelectedFrom space policy pins exclusions .tWise covering selected) :
    (uncovered (seedsOf space policy pins) (targetsOf space policy exclusions).1 = [] ∧
        stepsOf space policy pins exclusions = ⟨[], []⟩) ∨
      ∃ order, Start space (strengthOf policy) order
          (uncovered (seedsOf space policy pins) (targetsOf space policy exclusions).1) ∧
        stepsOf space policy pins exclusions = growSteps space (targetsOf space policy exclusions).2
          (order.drop (max (min (strengthOf policy) order.length) 1))
          ((order.take (max (min (strengthOf policy) order.length) 1)).map Dimension.id)
          (block (max (min (strengthOf policy) order.length) 1) (seedsOf space policy pins)
            (targetsOf space policy exclusions).2 order)
          (uncovered (seedsOf space policy pins) (targetsOf space policy exclusions).1) ∧
        partialsOf space policy pins exclusions = grown space (max (min (strengthOf policy) order.length) 1)
          (seedsOf space policy pins) (uncovered (seedsOf space policy pins) (targetsOf space policy exclusions).1)
          (targetsOf space policy exclusions).2 order := by
  have hreachable : ∀ target ∈ uncovered (seedsOf space policy pins) (targetsOf space policy exclusions).1,
      target ∈ reachableTargets space (strengthOf policy) :=
    fun target htarget => (mem_enumerateTargets.1 (List.mem_of_mem_filter htarget)).1
  have hstrength : 0 < strengthOf policy := Nat.lt_of_lt_of_le Nat.one_pos (le_max_right _ _)
  have hipog := (tWise_cases h).1
  have hleft : ((uncovered (seedsOf space policy pins) (targetsOf space policy exclusions).1).isEmpty ||
      space.isEmpty) = true →
      uncovered (seedsOf space policy pins) (targetsOf space policy exclusions).1 = [] := by
    intro hempty
    rw [Bool.or_eq_true, List.isEmpty_iff, List.isEmpty_iff] at hempty
    rcases hempty with hnone | hspace
    · exact hnone
    · refine List.eq_nil_iff_forall_not_mem.2 fun target htarget => ?_
      obtain ⟨dims, hsub, hlength, -, -⟩ := dims_of_target hf.distinct (hreachable target htarget)
      have := hsub.length_le
      rw [hspace] at this
      exact absurd this (by simp [hlength]; omega)
  cases hempty : ((uncovered (seedsOf space policy pins) (targetsOf space policy exclusions).1).isEmpty ||
      space.isEmpty) with
  | true =>
    refine Or.inl ⟨hleft hempty, ?_⟩
    simp only [stepsOf, steps, hempty, if_true]
  | false =>
    rcases ipog_cases hipog with ⟨hnone, -, -⟩ | ⟨order, horder, -, -⟩
    · rw [← List.isEmpty_iff, ← List.isEmpty_iff, ← Bool.or_eq_true, hempty] at hnone
      cases hnone
    · refine Or.inr ⟨order, ⟨hf, horder, hstrength, hreachable⟩, ?_, ?_⟩
      · simp only [stepsOf, steps, hempty, horder, Bool.false_eq_true, if_false]
      · have hempty' : ((((targetsOf space policy exclusions).1.filter fun target =>
            !(seedsOf space policy pins).any fun s => isCovered target s).isEmpty || space.isEmpty)) = false := hempty
        simp only [partialsOf, partials, hempty', horder, Bool.false_eq_true, if_false]
        rfl

/-- Where every target is merged where it fits, no target is lost, and none is removed for nothing. -/
theorem kept_of_fit (hf : Forest space) (h : SelectedFrom space policy pins exclusions .tWise covering selected)
    (hfit : MergesFit space (stepsOf space policy pins exclusions)) :
    TargetsKept space policy pins exclusions selected ∧ RemovalsSound space (stepsOf space policy pins exclusions) := by
  have hseeded : ∀ target ∈ (targetsOf space policy exclusions).1,
      (∃ v ∈ selected.variants, isCovered target v.assignment = true) ∨
        target ∈ uncovered (seedsOf space policy pins) (targetsOf space policy exclusions).1 := by
    intro target htarget
    cases hs : (seedsOf space policy pins).any fun s => isCovered target s with
    | false => exact Or.inr (List.mem_filter.2 ⟨htarget, by rw [hs]; rfl⟩)
    | true =>
      obtain ⟨s, hseed, hc⟩ := List.any_eq_true.1 hs
      obtain ⟨v, hv, rfl⟩ := List.mem_map.1 (h.mem.2 (Or.inl (mem_seeds.1 hseed)))
      exact Or.inl ⟨v, hv, hc⟩
  rcases run_cases hf h with ⟨hnone, hsteps⟩ | ⟨order, hstart, hsteps, hpartials⟩
  · constructor
    · intro target hreach hclear
      have := hseeded target (mem_enumerateTargets.2 ⟨hreach, hclear⟩)
      rw [hnone] at this
      exact Or.inl (this.resolve_right List.not_mem_nil)
    · rw [hsteps]
      exact ⟨List.forall_mem_nil _, List.forall_mem_nil _⟩
  · rw [hsteps] at hfit ⊢
    obtain ⟨hwidenings, hextensions, hclosed⟩ := hstart.grown_closed _ hfit
    constructor
    · intro target hreach hclear
      rcases hseeded target (mem_enumerateTargets.2 ⟨hreach, hclear⟩) with hseed | hleft
      · exact Or.inl hseed
      · have hclears : ∀ other ∈ uncovered (seedsOf space policy pins) (targetsOf space policy exclusions).1,
            Clear (targetsOf space policy exclusions).2 other := fun other hother =>
          clear_enumerateTargets.2 (mem_enumerateTargets.1 (List.mem_of_mem_filter hother)).2
        have hunseeded : ∀ other ∈ uncovered (seedsOf space policy pins) (targetsOf space policy exclusions).1,
            ∀ s ∈ seedsOf space policy pins, isCovered other s = false := by
          intro other hother s hs
          have := (List.mem_filter.1 hother).2
          rw [Bool.not_eq_true', List.any_eq_false] at this
          exact Bool.not_eq_true _ ▸ this s hs
        obtain ⟨τ, hτ, hc⟩ := hstart.grown_covers hclears hunseeded hleft
        rw [← hpartials] at hτ
        cases hcompletion : completionOf space policy exclusions τ with
        | none => exact Or.inr ⟨τ, hτ, hc, hcompletion⟩
        | some α =>
          have hkept := completion_keeps hf (hclosed τ (hpartials ▸ hτ)) (hstart.target_ids hleft) hc hcompletion
          have hmem : α ∈ covering.assignments := by
            rw [(tWise_cases h).2.2.1]
            exact List.mem_filterMap.2 ⟨τ, hτ, hcompletion⟩
          obtain ⟨v, hv, rfl⟩ := List.mem_map.1 (h.mem.2 (Or.inr hmem))
          exact Or.inl ⟨v, hv, hkept⟩
    · refine ⟨fun w hw target htarget hc => ?_, fun e he τ hτ target htarget hc => ?_⟩
      · obtain ⟨hw, hsub⟩ := hwidenings w hw
        exact closed_keeps hf hw (hstart.target_ids (hsub htarget)) hc
      · obtain ⟨he, hsub⟩ := hextensions e he
        exact closed_keeps hf (he τ hτ) (hstart.target_ids (hsub htarget)) hc

/-- A t-wise selection keeps every target and removes none for a partial assignment that loses it, exactly where each
target is merged into a partial assignment that stands at no other point of anything the target requires. -/
theorem targets_kept_iff (h : Computed space) (hrefs : resolveRefs space policy = .ok (pins, exclusions))
    (hselect : select space policy = some (.ok selected)) (hstrategy : selected.report.strategy = .tWise) :
    TargetsKept space policy pins exclusions selected ∧ RemovalsSound space (stepsOf space policy pins exclusions) ↔
      MergesFit space (stepsOf space policy pins exclusions) := by
  have hf := h.forest
  obtain ⟨pins', exclusions', strategy, covering, hfrom⟩ := select_cases hselect
  obtain ⟨rfl, rfl⟩ : pins' = pins ∧ exclusions' = exclusions := by
    simpa using hfrom.refs.symm.trans hrefs
  obtain rfl : strategy = .tWise := by
    rw [hfrom.report] at hstrategy
    exact hstrategy
  refine ⟨fun ⟨_, hsound⟩ e he => ?_, kept_of_fit hf hfrom⟩
  rcases run_cases hf hfrom with ⟨-, hsteps⟩ | ⟨order, hstart, hsteps, -⟩
  · rw [hsteps] at he
    cases he
  · refine fits_of_sound hf ?_ (hsound.2 e he)
    rw [hsteps] at he
    exact growSteps_mem he

/-- The space of one optional member. -/
def note : List Dimension :=
  computeMany [("response.body", .of (.object [("note", .of (.optional (.of .any)))]))]

/-- Each point by itself. -/
def single : SamplingPolicy := { SamplingPolicy.default with strategy := "t-wise", strength := 1 }

theorem computed_note : Computed note := ⟨⟨_, by decide, rfl⟩, by decide⟩

theorem targets_kept_note :
    ∃ selected, select note single = some (.ok selected) ∧
      (TargetsKept note single [] [] selected ∧ RemovalsSound note (stepsOf note single [] []) ↔
        MergesFit note (stepsOf note single [] [])) :=
  ⟨_, rfl, targets_kept_iff computed_note rfl rfl rfl⟩

/-- A way to pay, with the members it has besides. -/
def paidBy (name : String) (more : List (String × ShapeNode)) : String × ShapeNode :=
  (name, .of (.object (("type", .equalTo (.string name)) :: more)))

/-- One of three ways to pay, the first with two optional members. -/
def payment : List Dimension :=
  computeMany [("response.body", .of (.oneOf "type"
    [paidBy "card" [("a", .of (.optional (.of .any))), ("b", .of (.optional (.of .any)))], paidBy "cash" [],
      paidBy "invoice" []] none))]

/-- Every two points. -/
def pairs : SamplingPolicy := { SamplingPolicy.default with strategy := "t-wise" }

private def aWithoutB : Target := [("response.body@card.a#presence", "present"), ("response.body@card.b#presence", "absent")]

/-- A pair of one alternative's points is merged into a partial assignment of another, and is in no selected variant. -/
theorem target_lost :
    Computed payment ∧ resolveRefs payment pairs = .ok ([], []) ∧
      ∃ selected, select payment pairs = some (.ok selected) ∧ selected.report.strategy = .tWise ∧
        ¬TargetsKept payment pairs [] [] selected := by
  refine ⟨⟨⟨_, by decide, rfl⟩, by decide⟩, rfl, ⟨_, _⟩, rfl, rfl, fun h => ?_⟩
  rcases h aWithoutB (by decide +kernel) (by decide) with hselected | hdropped
  · exact absurd hselected (by decide +kernel)
  · exact absurd hdropped (by decide +kernel)

end Selection

end PactJanus.Variant.Covering
