import PactJanus.Shape.Placed

namespace PactJanus.Shape.Gating

open PactJanus.Data.Json PactJanus.Shape.Model PactJanus.Shape.Valid PactJanus.Shape.VariantSpace PactJanus.Shape.Nodes
  PactJanus.Shape.Placed

/-! The gates of a computed space: each dimension stands under a point of an earlier one, or under none. -/

/-- The gates that stand before what one of a dimension's points opens. -/
def opens (d : Dimension) (p : Point) : List Gate := d.gatedBy ++ [⟨d.id, p.name⟩]

/-- Each dimension's gates are among those open from the start or opened by an earlier one. -/
def ParentsFirst : List (List Gate) → List Dimension → Prop
  | _, [] => True
  | opened, d :: rest => d.gatedBy ∈ opened ∧ ParentsFirst (opened ++ d.points.map (opens d)) rest

theorem ParentsFirst.mono {opened more : List (List Gate)} {dims : List Dimension} (h : ParentsFirst opened dims)
    (hsub : opened ⊆ more) : ParentsFirst more dims := by
  induction dims generalizing opened more with
  | nil => trivial
  | cons d rest ih => exact ⟨hsub h.1, ih h.2 (List.append_subset.2
      ⟨List.Subset.trans hsub (List.subset_append_left _ _), List.subset_append_right _ _⟩)⟩

theorem ParentsFirst.under {gates : List Gate} {more : List (List Gate)} {dims : List Dimension}
    (h : ParentsFirst [gates] dims) (hmem : gates ∈ more) : ParentsFirst more dims :=
  h.mono fun _ hg => List.mem_singleton.1 hg ▸ hmem

theorem ParentsFirst.append {opened : List (List Gate)} {dims more : List Dimension} (h : ParentsFirst opened dims)
    (hmore : ParentsFirst opened more) : ParentsFirst opened (dims ++ more) := by
  induction dims generalizing opened with
  | nil => exact hmore
  | cons d rest ih => exact ⟨h.1, ih h.2 (hmore.mono (List.subset_append_left _ _))⟩

theorem ParentsFirst.flatMap {β : Type} {opened : List (List Gate)} {f : β → List Dimension} {l : List β}
    (h : ∀ b ∈ l, ParentsFirst opened (f b)) : ParentsFirst opened (l.flatMap f) := by
  induction l with
  | nil => trivial
  | cons b rest ih =>
    obtain ⟨hb, hrest⟩ := List.forall_mem_cons.1 h
    exact hb.append (ih hrest)

private theorem cardinality_parentsFirst (path operator : String) (min : UInt64) (max : Option UInt64)
    (gates : List Gate) : ParentsFirst [gates] (cardinalityDimension path operator min max gates) := by
  unfold cardinalityDimension
  dsimp only
  split
  · exact ⟨List.mem_singleton_self gates, trivial⟩
  · trivial

private theorem anyOf_parentsFirst (path : String) (e : Option Example) (options : List Json) (gates : List Gate) :
    ParentsFirst [gates] (anyOfDimension path e options gates) := by
  unfold anyOfDimension
  split
  · exact ⟨List.mem_singleton_self gates, trivial⟩
  · trivial

theorem parentsFirst_walk (S : ShapeNode) (path : String) (gates : List Gate) :
    ParentsFirst [gates] (walk S path gates) := by
  induction S generalizing path gates with
  | leaf e g k hleaf =>
    cases k with
    | anyOf options => simpa [walk] using anyOf_parentsFirst path e options gates
    | object | array | eachLike | eachEntry | contains | optional | nullable | oneOf => cases hleaf
    | _ => simp [walk, ParentsFirst]
  | object e g members ih =>
    rw [walk, walkMembers_eq]
    refine ParentsFirst.flatMap fun q hq => ?_
    obtain ⟨p, hp, rfl⟩ := List.mem_map.1 (mem_membersByName.1 hq)
    exact ih p hp _ gates
  | array e g entries ih | contains e g entries ih =>
    rw [walk, walkEntries_eq, ← List.flatMap_id]
    refine ParentsFirst.flatMap fun l hl => ?_
    obtain ⟨i, hi, rfl⟩ := List.mem_mapIdx.1 hl
    exact ih _ (List.getElem_mem hi) _ gates
  | eachLike e g items min max ih =>
    rw [walk]
    exact (cardinality_parentsFirst ..).append (ih _ gates)
  | eachEntry e g keys values min max ihk ihv =>
    rw [walk]
    refine ((cardinality_parentsFirst ..).append ?_).append (ihv _ gates)
    cases keys with
    | none => trivial
    | some k => exact ihk k rfl _ gates
  | optional e g of ih | nullable e g of ih =>
    rw [walk]
    refine ⟨List.mem_singleton_self gates, (ih path _).under ?_⟩
    exact List.mem_cons_of_mem _ List.mem_cons_self
  | oneOf e g discriminator alternatives default ih =>
    rcases alternatives with _ | ⟨first, _ | ⟨second, rest⟩⟩
    · simp [walk, ParentsFirst]
    · simp [walk, ParentsFirst]
    · rw [walk, walkAlternatives_eq]
      refine ⟨List.mem_singleton_self gates, ParentsFirst.flatMap fun p hp => ?_⟩
      refine (ih p hp _ _).under (List.mem_append_right _ ?_)
      exact List.mem_map.2 ⟨_, List.mem_map_of_mem hp, rfl⟩

theorem parentsFirst_computeMany (shapes : List (String × ShapeNode)) : ParentsFirst [[]] (computeMany shapes) :=
  ParentsFirst.flatMap fun p _ => parentsFirst_walk p.2 p.1 []

/-! The points of a dimension. -/

private theorem own_points {n : PlacedNode} {d : Dimension} (hd : d ∈ ownDimensions n) :
    2 ≤ d.points.length ∧ (d.facet = .presence → d.points = [Point.named "present", Point.named "absent"]) ∧
      (d.facet = .nullability → d.points = [Point.named "non-null", Point.named "null"]) := by
  have hcardinality : ∀ operator min max, d ∈ cardinalityDimension n.path operator min max n.gates →
      2 ≤ d.points.length ∧ d.facet = .cardinality := by
    intro operator min max hd
    unfold cardinalityDimension at hd
    dsimp only at hd
    split at hd
    · rename_i htwo
      obtain rfl := List.mem_singleton.1 hd
      exact ⟨by simpa [dimension] using htwo, rfl⟩
    · cases hd
  unfold ownDimensions at hd
  split at hd
  · obtain rfl := List.mem_singleton.1 hd
    exact ⟨Nat.le_refl 2, fun _ => rfl, by simp [dimension]⟩
  · obtain rfl := List.mem_singleton.1 hd
    exact ⟨Nat.le_refl 2, by simp [dimension], fun _ => rfl⟩
  · unfold anyOfDimension at hd
    split at hd
    · obtain rfl := List.mem_singleton.1 hd
      exact ⟨by simp [dimension], by simp [dimension], by simp [dimension]⟩
    · cases hd
  · split at hd
    · obtain rfl := List.mem_singleton.1 hd
      exact ⟨by simp [dimension], by simp [dimension], by simp [dimension]⟩
    · cases hd
  · obtain ⟨htwo, hfacet⟩ := hcardinality _ _ _ hd
    exact ⟨htwo, by simp [hfacet], by simp [hfacet]⟩
  · obtain ⟨htwo, hfacet⟩ := hcardinality _ _ _ hd
    exact ⟨htwo, by simp [hfacet], by simp [hfacet]⟩
  · cases hd

private theorem points_of_computed {shapes : List (String × ShapeNode)} (hwell : ∀ p ∈ shapes, WellFormed p.2)
    {d : Dimension} (hd : d ∈ computeMany shapes) :
    2 ≤ d.points.length ∧ (d.facet = .presence → d.points = [Point.named "present", Point.named "absent"]) ∧
      (d.facet = .nullability → d.points = [Point.named "non-null", Point.named "null"]) := by
  obtain ⟨shape, hshape, hd⟩ := List.mem_flatMap.1 hd
  obtain ⟨n, -, hn⟩ := (mem_walk (hwell shape hshape).tree).1 hd
  exact own_points hn

/-! Spaces computed from shapes. -/

/-- A variant space computed from well-formed shapes, each dimension with an id of its own. -/
structure Computed (space : List Dimension) : Prop where
  shapes : ∃ shapes, (∀ p ∈ shapes, WellFormed p.2) ∧ computeMany shapes = space
  distinct : (space.map Dimension.id).Nodup

/-- No dimension has a gate of its own or of a later dimension, and no later one has its id. -/
def Ordered : List Dimension → Prop
  | [] => True
  | d :: rest =>
    (∀ g ∈ d.gatedBy, ∀ e ∈ d :: rest, g.dimension ≠ e.id) ∧ (∀ e ∈ rest, e.id ≠ d.id) ∧ Ordered rest

/-- What the recursion over shapes makes of a space: gates that come before what they gate, each dimension right under a
point of its parent. -/
structure Forest (space : List Dimension) : Prop where
  distinct : (space.map Dimension.id).Nodup
  ordered : Ordered space
  parent : ∀ d ∈ space, d.gatedBy = [] ∨ ∃ p ∈ space, ∃ q ∈ p.points, d.gatedBy = opens p q
  points : ∀ d ∈ space, d.points ≠ []

private theorem ordered_of_parentsFirst {dims : List Dimension} {opened : List (List Gate)}
    (h : ParentsFirst opened dims) (hd : (dims.map Dimension.id).Nodup)
    (hopened : ∀ gates ∈ opened, ∀ g ∈ gates, ∀ e ∈ dims, g.dimension ≠ e.id) : Ordered dims := by
  induction dims generalizing opened with
  | nil => trivial
  | cons d rest ih =>
    rw [List.map_cons, List.nodup_cons] at hd
    have hlater : ∀ e ∈ rest, e.id ≠ d.id := fun e he heq => hd.1 (heq ▸ List.mem_map_of_mem he)
    have hgates := hopened d.gatedBy h.1
    refine ⟨hgates, hlater, ih h.2 hd.2 ?_⟩
    intro gates hmem g hg e he
    rcases List.mem_append.1 hmem with hmem | hmem
    · exact hopened gates hmem g hg e (List.mem_cons_of_mem _ he)
    · obtain ⟨p, -, rfl⟩ := List.mem_map.1 hmem
      rcases List.mem_append.1 hg with hg | hg
      · exact hgates g hg e (List.mem_cons_of_mem _ he)
      · obtain rfl := List.mem_singleton.1 hg
        exact Ne.symm (hlater e he)

private theorem parent_of_parentsFirst {dims : List Dimension} {opened : List (List Gate)}
    (h : ParentsFirst opened dims) {d : Dimension} (hd : d ∈ dims) :
    d.gatedBy ∈ opened ∨ ∃ p ∈ dims, ∃ q ∈ p.points, d.gatedBy = opens p q := by
  induction dims generalizing opened with
  | nil => cases hd
  | cons e rest ih =>
    rcases List.mem_cons.1 hd with rfl | hd
    · exact Or.inl h.1
    · rcases ih h.2 hd with hmem | ⟨p, hp, q, hq, heq⟩
      · rcases List.mem_append.1 hmem with hmem | hmem
        · exact Or.inl hmem
        · obtain ⟨q, hq, heq⟩ := List.mem_map.1 hmem
          exact Or.inr ⟨e, List.mem_cons_self, q, hq, heq.symm⟩
      · exact Or.inr ⟨p, List.mem_cons_of_mem _ hp, q, hq, heq⟩

/-- A computed space is a forest of gates, parents first. -/
theorem Computed.forest {space : List Dimension} (h : Computed space) : Forest space := by
  obtain ⟨⟨shapes, hwell, rfl⟩, hdistinct⟩ := h
  have hparents := parentsFirst_computeMany shapes
  refine ⟨hdistinct, ordered_of_parentsFirst hparents hdistinct (by simp), ?_, ?_⟩
  · intro d hd
    exact (parent_of_parentsFirst hparents hd).imp_left List.mem_singleton.1
  · intro d hd
    exact List.ne_nil_of_length_pos (Nat.lt_of_lt_of_le Nat.zero_lt_two (points_of_computed hwell hd).1)

/-- A gate is a point of a dimension whose own gates all stand before it. -/
theorem Forest.gate {space : List Dimension} (h : Forest space) {d : Dimension} (hd : d ∈ space) {g : Gate}
    (hg : g ∈ d.gatedBy) : ∃ p ∈ space, ∃ q ∈ p.points, g = ⟨p.id, q.name⟩ ∧ opens p q <+: d.gatedBy := by
  induction hn : d.gatedBy.length using Nat.strong_induction_on generalizing d with
  | _ n ih =>
    rcases h.parent d hd with hnil | ⟨p, hp, q, hq, hgates⟩
    · rw [hnil] at hg
      cases hg
    · rw [hgates] at hg hn ⊢
      rcases List.mem_append.1 hg with hg | hg
      · have hlt : p.gatedBy.length < n := by
          rw [← hn, opens, List.length_append]
          simp
        obtain ⟨p', hp', q', hq', heq, hbefore⟩ := ih _ hlt hp hg rfl
        exact ⟨p', hp', q', hq', heq, hbefore.trans (List.prefix_append _ _)⟩
      · exact ⟨p, hp, q, hq, List.mem_singleton.1 hg, List.prefix_refl _⟩

theorem Forest.eq_of_id {space : List Dimension} (h : Forest space) {d e : Dimension} (hd : d ∈ space) (he : e ∈ space)
    (hid : d.id = e.id) : d = e := List.inj_on_of_nodup_map h.distinct hd he hid

theorem Ordered.not_own_gate {dims : List Dimension} (h : Ordered dims) {d : Dimension} (hd : d ∈ dims) {g : Gate}
    (hg : g ∈ d.gatedBy) : g.dimension ≠ d.id := by
  induction dims with
  | nil => cases hd
  | cons e rest ih =>
    rcases List.mem_cons.1 hd with rfl | hd
    · exact h.1 g hg d List.mem_cons_self
    · exact ih h.2.2 hd

/-- The gates of a dimension are points of different dimensions. -/
theorem Forest.nodup_gates {space : List Dimension} (h : Forest space) {d : Dimension} (hd : d ∈ space) :
    (d.gatedBy.map Gate.dimension).Nodup := by
  induction hn : d.gatedBy.length using Nat.strong_induction_on generalizing d with
  | _ n ih =>
    rcases h.parent d hd with hnil | ⟨p, hp, q, -, hgates⟩
    · rw [hnil]
      exact List.nodup_nil
    · rw [hgates, opens, List.length_append] at hn
      rw [hgates, opens, List.map_append]
      refine List.nodup_append.2 ⟨ih _ (by rw [← hn]; simp) hp rfl, List.nodup_singleton _, ?_⟩
      intro id hid other hother heq
      obtain ⟨g, hg, rfl⟩ := List.mem_map.1 hid
      exact h.ordered.not_own_gate hp hg (heq.trans (List.mem_singleton.1 hother))

/-- A dimension of a computed space has a choice to make. -/
theorem Computed.two_points {space : List Dimension} (h : Computed space) {d : Dimension} (hd : d ∈ space) :
    2 ≤ d.points.length := by
  obtain ⟨⟨shapes, hwell, rfl⟩, -⟩ := h
  exact (points_of_computed hwell hd).1

end PactJanus.Shape.Gating
