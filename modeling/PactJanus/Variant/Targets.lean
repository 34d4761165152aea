import PactJanus.Variant.Policy

namespace PactJanus.Variant.Targets

open PactJanus.Lib PactJanus.Shape.VariantSpace PactJanus.Plan.Compile PactJanus.Variant.References
  PactJanus.Variant.Policy

/-! The combinations of points that a selection of some strength has to cover. -/

/-- A choice of points for some dimensions, in the order of their ids. -/
abbrev Target := List (String × String)

/-- One more requirement, unless the dimension is already required at another point. -/
def require (reqs : Assignment) (id point : String) : Option Assignment :=
  match reqs.lookup id with
  | some existing => if existing = point then some (SortedMap.insert id point reqs) else none
  | none => some (SortedMap.insert id point reqs)

/-- A target's own points with every gate of its dimensions, or `none` where two of them disagree. -/
def targetRequirements (space : List Dimension) (target : Target) : Option Assignment :=
  target.foldlM (fun reqs pair => do
    let reqs ← require reqs pair.1 pair.2
    let d ← byId space pair.1
    d.gatedBy.foldlM (fun reqs gate => require reqs gate.dimension gate.point) reqs) []

/-- The choices of `t` dimensions, in the order of the space. -/
def chooseCombinations : Nat → List Dimension → List (List Dimension)
  | 0, _ => [[]]
  | _ + 1, [] => []
  | t + 1, d :: rest => (chooseCombinations t rest).map (d :: ·) ++ chooseCombinations (t + 1) rest

/-- The choices of a point for each dimension, added to the ones made. -/
def cartesianPoints : List Dimension → Target → List Target
  | [], current => [current]
  | d :: rest, current => d.points.flatMap fun point => cartesianPoints rest (SortedMap.insert d.id point.name current)

/-- The reachable choices of points for `t` dimensions. -/
def reachableTargets (space : List Dimension) (t : Nat) : List Target :=
  ((chooseCombinations t space).flatMap fun dims => cartesianPoints dims []).filter fun target =>
    (targetRequirements space target).isSome

/-- Counts a target against the first exclusion it matches. -/
def countRemoved (target : Target) : List ResolvedExclusion → List ResolvedExclusion
  | [] => []
  | e :: rest =>
    if assignmentMatches target e.when' then ⟨e.when', e.reason, e.removed + 1⟩ :: rest else e :: countRemoved target rest

/-- The targets in play in the order they are come by, and the exclusions with what each removed. -/
def enumerateTargets (space : List Dimension) (t : Nat) (exclusions : List ResolvedExclusion) :
    List Target × List ResolvedExclusion :=
  (reachableTargets space t).foldl (fun (targets, exclusions) target =>
    if (matchingExclusion target exclusions).isSome then (targets, countRemoved target exclusions)
    else (if targets.contains target then targets else targets ++ [target], exclusions)) ([], exclusions)

/-! Counting what an exclusion removes leaves what it matches. -/

private theorem when_countRemoved (target : Target) (exclusions : List ResolvedExclusion) :
    (countRemoved target exclusions).map ResolvedExclusion.when' = exclusions.map ResolvedExclusion.when' := by
  induction exclusions with
  | nil => rfl
  | cons e rest ih =>
    unfold countRemoved
    split
    · rfl
    · rw [List.map_cons, List.map_cons, ih]

theorem clear_iff_when {exclusions : List ResolvedExclusion} {α : Assignment} :
    Clear exclusions α ↔ ∀ pairs ∈ exclusions.map ResolvedExclusion.when', assignmentMatches α pairs = false := by
  rw [List.forall_mem_map]
  rfl

theorem clear_countRemoved {target : Target} {exclusions : List ResolvedExclusion} {α : Assignment} :
    Clear (countRemoved target exclusions) α ↔ Clear exclusions α := by
  rw [clear_iff_when, when_countRemoved, ← clear_iff_when]

/-- One more target that is come by: counted against an exclusion, or in play. -/
def enumerateStep (state : List Target × List ResolvedExclusion) (target : Target) :
    List Target × List ResolvedExclusion :=
  if (matchingExclusion target state.2).isSome then (state.1, countRemoved target state.2)
  else (if state.1.contains target then state.1 else state.1 ++ [target], state.2)

theorem enumerateTargets_eq (space : List Dimension) (t : Nat) (exclusions : List ResolvedExclusion) :
    enumerateTargets space t exclusions = (reachableTargets space t).foldl enumerateStep ([], exclusions) := rfl

private theorem clear_step {state : List Target × List ResolvedExclusion} {target : Target} {α : Assignment} :
    Clear (enumerateStep state target).2 α ↔ Clear state.2 α := by
  unfold enumerateStep
  split
  · exact clear_countRemoved
  · exact Iff.rfl

private theorem clear_fold {targets : List Target} {state : List Target × List ResolvedExclusion} {α : Assignment} :
    Clear (targets.foldl enumerateStep state).2 α ↔ Clear state.2 α := by
  induction targets generalizing state with
  | nil => exact Iff.rfl
  | cons target rest ih => exact ih.trans clear_step

/-- The enumeration leaves the exclusions the ones they were. -/
theorem clear_enumerateTargets {space : List Dimension} {t : Nat} {exclusions : List ResolvedExclusion}
    {α : Assignment} : Clear (enumerateTargets space t exclusions).2 α ↔ Clear exclusions α := by
  rw [enumerateTargets_eq]
  exact clear_fold

/-! What a target requires. -/

section Requirements

variable {space : List Dimension} {reqs out : Assignment} {target : Target}

private theorem require_some {id point : String} (h : require reqs id point = some out) :
    out = SortedMap.insert id point reqs ∧ ∀ existing, reqs.lookup id = some existing → existing = point := by
  unfold require at h
  split at h
  · rename_i existing hexisting
    split at h
    · rename_i heq
      refine ⟨(Option.some.inj h).symm, fun e he => ?_⟩
      rw [hexisting] at he
      exact Option.some.inj he ▸ heq
    · cases h
  · rename_i hnone
    refine ⟨(Option.some.inj h).symm, fun e he => ?_⟩
    rw [hnone] at he
    cases he

/-- Every pair of one assignment is one of another. -/
def Extends (α β : Assignment) : Prop := ∀ id point, α.lookup id = some point → β.lookup id = some point

theorem Extends.refl (α : Assignment) : Extends α α := fun _ _ h => h

theorem Extends.trans {α β γ : Assignment} (h : Extends α β) (h' : Extends β γ) : Extends α γ :=
  fun id point hp => h' id point (h id point hp)

private theorem require_extends {id point : String} (h : require reqs id point = some out) :
    Extends reqs out ∧ out.lookup id = some point ∧ ∀ q ∈ out, q = (id, point) ∨ q ∈ reqs := by
  obtain ⟨rfl, hsame⟩ := require_some h
  refine ⟨fun k p hk => ?_, by rw [SortedMap.lookup_insert, if_pos rfl], fun q hq => SortedMap.mem_of_mem_insert hq⟩
  rw [SortedMap.lookup_insert]
  split
  · rename_i heq
    subst heq
    rw [hsame p hk]
  · exact hk

private theorem requireGates_extends {gates : List Gate}
    (h : gates.foldlM (fun reqs gate => require reqs gate.dimension gate.point) reqs = some out) :
    Extends reqs out ∧ (∀ g ∈ gates, out.lookup g.dimension = some g.point) ∧
      ∀ q ∈ out, q ∈ reqs ∨ ∃ g ∈ gates, q = (g.dimension, g.point) := by
  induction gates generalizing reqs with
  | nil =>
    obtain rfl := Option.some.inj h
    exact ⟨Extends.refl _, List.forall_mem_nil _, fun q hq => Or.inl hq⟩
  | cons g rest ih =>
    simp only [List.foldlM_cons, Option.bind_eq_bind, Option.bind_eq_some_iff] at h
    obtain ⟨more, hmore, h⟩ := h
    obtain ⟨hext, hpoint, honly⟩ := require_extends hmore
    obtain ⟨hext', hpoints, honly'⟩ := ih h
    refine ⟨hext.trans hext', List.forall_mem_cons.2 ⟨hext' _ _ hpoint, hpoints⟩, fun q hq => ?_⟩
    rcases honly' q hq with hq | ⟨g', hg', rfl⟩
    · rcases honly q hq with rfl | hq
      · exact Or.inr ⟨g, List.mem_cons_self, rfl⟩
      · exact Or.inl hq
    · exact Or.inr ⟨g', List.mem_cons_of_mem _ hg', rfl⟩

/-- A target's pairs with all the gates of its dimensions, and nothing else. -/
structure Requires (space : List Dimension) (target : Target) (reqs : Assignment) : Prop where
  own : ∀ q ∈ target, reqs.lookup q.1 = some q.2
  gates : ∀ q ∈ target, ∃ d, byId space q.1 = some d ∧ ∀ g ∈ d.gatedBy, reqs.lookup g.dimension = some g.point
  only : ∀ q ∈ reqs, q ∈ target ∨
    ∃ r ∈ target, ∃ d, byId space r.1 = some d ∧ ∃ g ∈ d.gatedBy, q = (g.dimension, g.point)

private theorem requirements_fold {start : Assignment}
    (h : target.foldlM (fun reqs pair => do
      let reqs ← require reqs pair.1 pair.2
      let d ← byId space pair.1
      d.gatedBy.foldlM (fun reqs gate => require reqs gate.dimension gate.point) reqs) start = some out) :
    Extends start out ∧ (∀ q ∈ target, out.lookup q.1 = some q.2) ∧
      (∀ q ∈ target, ∃ d, byId space q.1 = some d ∧ ∀ g ∈ d.gatedBy, out.lookup g.dimension = some g.point) ∧
      ∀ q ∈ out, q ∈ start ∨ q ∈ target ∨
        ∃ r ∈ target, ∃ d, byId space r.1 = some d ∧ ∃ g ∈ d.gatedBy, q = (g.dimension, g.point) := by
  induction target generalizing start with
  | nil =>
    obtain rfl := Option.some.inj h
    exact ⟨Extends.refl _, List.forall_mem_nil _, List.forall_mem_nil _, fun q hq => Or.inl hq⟩
  | cons pair rest ih =>
    simp only [List.foldlM_cons, Option.bind_eq_bind, Option.bind_eq_some_iff] at h
    obtain ⟨more, ⟨first, hfirst, d, hd, hgates⟩, h⟩ := h
    obtain ⟨hext, hpoint, honly⟩ := require_extends hfirst
    obtain ⟨hext', hpoints, honly'⟩ := requireGates_extends hgates
    obtain ⟨hrest, hown, hopen, hothers⟩ := ih h
    refine ⟨hext.trans (hext'.trans hrest), List.forall_mem_cons.2 ⟨hrest _ _ (hext' _ _ hpoint), hown⟩,
      List.forall_mem_cons.2 ⟨⟨d, hd, fun g hg => hrest _ _ (hpoints g hg)⟩, hopen⟩, fun q hq => ?_⟩
    rcases hothers q hq with hq | hq | ⟨r, hr, hgate⟩
    · rcases honly' q hq with hq | ⟨g, hg, rfl⟩
      · rcases honly q hq with rfl | hq
        · exact Or.inr (Or.inl List.mem_cons_self)
        · exact Or.inl hq
      · exact Or.inr (Or.inr ⟨pair, List.mem_cons_self, d, hd, g, hg, rfl⟩)
    · exact Or.inr (Or.inl (List.mem_cons_of_mem _ hq))
    · exact Or.inr (Or.inr ⟨r, List.mem_cons_of_mem _ hr, hgate⟩)

theorem requires_of_some (h : targetRequirements space target = some reqs) : Requires space target reqs := by
  obtain ⟨-, hown, hgates, honly⟩ := requirements_fold h
  exact ⟨hown, hgates, fun q hq => (honly q hq).resolve_left List.not_mem_nil⟩

theorem Requires.lookup (h : Requires space target reqs) {q : String × String} (hq : q ∈ target) :
    target.lookup q.1 = some q.2 := by
  cases hlookup : target.lookup q.1 with
  | none => exact absurd (List.mem_map_of_mem hq) (Lists.lookup_eq_none_iff_notMem.1 hlookup)
  | some point => rw [← h.own q hq, h.own _ (Lists.mem_of_lookup hlookup)]

end Requirements

/-! The targets that are enumerated. -/

section Enumerated

variable {space : List Dimension} {t : Nat} {exclusions : List ResolvedExclusion} {target : Target}

private theorem targets_fold {targets : List Target} {state : List Target × List ResolvedExclusion} :
    target ∈ (targets.foldl enumerateStep state).1 ↔
      target ∈ state.1 ∨ target ∈ targets ∧ Clear state.2 target := by
  induction targets generalizing state with
  | nil => simp
  | cons other rest ih =>
    rw [List.foldl_cons, ih, clear_step]
    unfold enumerateStep
    by_cases hclear : Clear state.2 other
    · have hsome : ¬(matchingExclusion other state.2).isSome = true := by
        rw [← Option.not_isNone, matchingExclusion_isNone.2 hclear]
        simp
      rw [if_neg hsome]
      by_cases hmem : other ∈ state.1
      · rw [if_pos (List.contains_iff_mem.2 hmem), List.mem_cons, or_and_right]
        refine ⟨fun h => h.imp_right Or.inr, ?_⟩
        rintro (h | ⟨rfl, -⟩ | h)
        · exact Or.inl h
        · exact Or.inl hmem
        · exact Or.inr h
      · rw [if_neg fun h => hmem (List.contains_iff_mem.1 h), List.mem_cons, or_and_right, List.mem_append,
          List.mem_singleton, or_assoc]
        refine or_congr_right (or_congr_left ⟨?_, And.left⟩)
        rintro rfl
        exact ⟨rfl, hclear⟩
    · have hsome : (matchingExclusion other state.2).isSome = true := by
        rw [← Option.not_isNone, Bool.not_eq_true']
        exact Bool.eq_false_iff.2 fun h => hclear (matchingExclusion_isNone.1 h)
      rw [if_pos hsome, List.mem_cons, or_and_right]
      refine or_congr_right ⟨Or.inr, ?_⟩
      rintro (⟨rfl, h⟩ | h)
      · exact absurd h hclear
      · exact h

/-- The targets in play are the reachable ones that no exclusion matches. -/
theorem mem_enumerateTargets :
    target ∈ (enumerateTargets space t exclusions).1 ↔ target ∈ reachableTargets space t ∧ Clear exclusions target := by
  rw [enumerateTargets_eq, targets_fold]
  simp

private theorem nodup_fold {targets : List Target} {state : List Target × List ResolvedExclusion}
    (h : state.1.Nodup) : (targets.foldl enumerateStep state).1.Nodup := by
  induction targets generalizing state with
  | nil => exact h
  | cons other rest ih =>
    refine ih ?_
    unfold enumerateStep
    split
    · exact h
    · dsimp only
      split
      · exact h
      · rename_i hnot
        refine List.nodup_append.2 ⟨h, List.nodup_singleton _, ?_⟩
        rintro a ha b hb rfl
        exact hnot (List.contains_iff_mem.2 (List.mem_singleton.1 hb ▸ ha))

/-- No target is in play twice. -/
theorem nodup_enumerateTargets : (enumerateTargets space t exclusions).1.Nodup := by
  rw [enumerateTargets_eq]
  exact nodup_fold List.nodup_nil

/-- A choice of dimensions is a sublist of the space. -/
theorem sublist_of_mem_chooseCombinations {dims : List Dimension} (h : dims ∈ chooseCombinations t space) :
    dims.Sublist space ∧ dims.length = t := by
  induction space generalizing t dims with
  | nil =>
    cases t with
    | zero =>
      obtain rfl := List.mem_singleton.1 h
      exact ⟨List.Sublist.refl _, rfl⟩
    | succ t => cases h
  | cons d rest ih =>
    cases t with
    | zero =>
      obtain rfl := List.mem_singleton.1 h
      exact ⟨List.nil_sublist _, rfl⟩
    | succ t =>
      rcases List.mem_append.1 h with h | h
      · obtain ⟨dims, hdims, rfl⟩ := List.mem_map.1 h
        obtain ⟨hsub, hlength⟩ := ih hdims
        exact ⟨hsub.cons_cons d, congrArg (· + 1) hlength⟩
      · obtain ⟨hsub, hlength⟩ := ih h
        exact ⟨hsub.cons d, hlength⟩

private theorem mem_of_mem_cartesianPoints {dims : List Dimension} {current : Target}
    (h : target ∈ cartesianPoints dims current) {pair : String × String} (hpair : pair ∈ target) :
    pair ∈ current ∨ ∃ d ∈ dims, d.id = pair.1 ∧ ∃ p ∈ d.points, p.name = pair.2 := by
  induction dims generalizing current with
  | nil => exact Or.inl (List.mem_singleton.1 h ▸ hpair)
  | cons d rest ih =>
    obtain ⟨p, hp, h⟩ := List.mem_flatMap.1 h
    rcases ih h with hmem | ⟨e, he, hpoint⟩
    · rcases SortedMap.mem_of_mem_insert hmem with rfl | hmem
      · exact Or.inr ⟨d, List.mem_cons_self, rfl, p, hp, rfl⟩
      · exact Or.inl hmem
    · exact Or.inr ⟨e, List.mem_cons_of_mem _ he, hpoint⟩

theorem lookup_cartesianPoints {dims : List Dimension} {current : Target} (hd : (dims.map Dimension.id).Nodup)
    (h : target ∈ cartesianPoints dims current) :
    (∀ d ∈ dims, ∃ p ∈ d.points, target.lookup d.id = some p.name) ∧
      ∀ id ∉ dims.map Dimension.id, target.lookup id = current.lookup id := by
  induction dims generalizing current with
  | nil =>
    obtain rfl := List.mem_singleton.1 h
    exact ⟨List.forall_mem_nil _, fun _ _ => rfl⟩
  | cons d rest ih =>
    obtain ⟨hnot, hrest⟩ := List.nodup_cons.1 hd
    obtain ⟨p, hp, h⟩ := List.mem_flatMap.1 h
    obtain ⟨hpoints, hothers⟩ := ih hrest h
    refine ⟨List.forall_mem_cons.2 ⟨⟨p, hp, ?_⟩, hpoints⟩, fun id hid => ?_⟩
    · rw [hothers d.id hnot, SortedMap.lookup_insert, if_pos rfl]
    · rw [List.map_cons, List.mem_cons, not_or] at hid
      rw [hothers id hid.2, SortedMap.lookup_insert, if_neg hid.1]

/-- A reachable target has a point for each of `t` dimensions. -/
theorem dims_of_target (hd : (space.map Dimension.id).Nodup) (h : target ∈ reachableTargets space t) :
    ∃ dims : List Dimension, dims.Sublist space ∧ dims.length = t ∧ (∀ d ∈ dims, ∃ p ∈ d.points, target.lookup d.id = some p.name) ∧
      ∀ id ∉ dims.map Dimension.id, target.lookup id = none := by
  obtain ⟨dims, hdims, h⟩ := List.mem_flatMap.1 (List.mem_of_mem_filter h)
  obtain ⟨hsub, hlength⟩ := sublist_of_mem_chooseCombinations hdims
  obtain ⟨hpoints, hothers⟩ := lookup_cartesianPoints (hd.sublist (hsub.map _)) h
  exact ⟨dims, hsub, hlength, hpoints, hothers⟩

/-- A reachable target gives dimensions of the space points they have. -/
theorem mem_target (h : target ∈ reachableTargets space t) {pair : String × String} (hpair : pair ∈ target) :
    ∃ d ∈ space, d.id = pair.1 ∧ ∃ p ∈ d.points, p.name = pair.2 := by
  obtain ⟨dims, hdims, h⟩ := List.mem_flatMap.1 (List.mem_of_mem_filter h)
  obtain ⟨d, hd, hpoint⟩ := (mem_of_mem_cartesianPoints h hpair).resolve_left List.not_mem_nil
  exact ⟨d, (sublist_of_mem_chooseCombinations hdims).1.subset hd, hpoint⟩

end Enumerated

end PactJanus.Variant.Targets
