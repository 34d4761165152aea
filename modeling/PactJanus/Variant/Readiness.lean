import PactJanus.Shape.Gating
import PactJanus.Variant.Growth

namespace PactJanus.Variant.Readiness

open PactJanus.Shape.Model PactJanus.Shape.Valid PactJanus.Shape.VariantSpace PactJanus.Shape.Gating
  PactJanus.Variant.Growth

/-! While a dimension is left one is ready: the gates of a computed space never wait for each other. -/

theorem placedInOrder_mono {placed more : List String} {dims : List Dimension} (h : PlacedInOrder placed dims)
    (hsub : placed ⊆ more) : PlacedInOrder more dims := by
  induction dims generalizing placed more with
  | nil => trivial
  | cons d rest ih => exact ⟨fun g hg => hsub (h.1 g hg), ih h.2 (List.cons_subset_cons d.id hsub)⟩

theorem placedInOrder_of_parentsFirst {opened : List (List Gate)} {placed : List String} {dims : List Dimension}
    (h : ParentsFirst opened dims) (hopened : ∀ gates ∈ opened, ∀ g ∈ gates, g.dimension ∈ placed) :
    PlacedInOrder placed dims := by
  induction dims generalizing opened placed with
  | nil => trivial
  | cons d rest ih =>
    have hgates := hopened d.gatedBy h.1
    refine ⟨hgates, ih h.2 fun gates hmem g hg => ?_⟩
    rcases List.mem_append.1 hmem with hmem | hmem
    · exact List.mem_cons_of_mem _ (hopened gates hmem g hg)
    · obtain ⟨p, -, rfl⟩ := List.mem_map.1 hmem
      rcases List.mem_append.1 hg with hg | hg
      · exact List.mem_cons_of_mem _ (hgates g hg)
      · exact List.mem_singleton.1 hg ▸ List.mem_cons_self

private theorem placedInOrder_computed {space : List Dimension} (h : Computed space) : PlacedInOrder [] space := by
  obtain ⟨⟨shapes, -, rfl⟩, -⟩ := h
  refine placedInOrder_of_parentsFirst (parentsFirst_computeMany shapes) fun gates hgates g hg => ?_
  rw [List.mem_singleton.1 hgates] at hg
  cases hg

/-- Placing any dimension early leaves the others in an order their gates allow. -/
theorem placedInOrder_chosen {placed : List String} {left : List Dimension} (h : PlacedInOrder placed left)
    (id : String) : PlacedInOrder (id :: placed) (left.filter fun d => d.id ≠ id) := by
  induction left generalizing placed with
  | nil => trivial
  | cons e rest ih =>
    have hrest := ih h.2
    by_cases hid : e.id = id
    · rw [List.filter_cons_of_neg (by simp [hid])]
      refine placedInOrder_mono hrest fun x hx => ?_
      rcases List.mem_cons.1 hx with rfl | hx
      · exact List.mem_cons_self
      · rwa [hid] at hx
    · rw [List.filter_cons_of_pos (by simp [hid])]
      refine ⟨fun g hg => List.mem_cons_of_mem _ (h.1 g hg), placedInOrder_mono hrest fun x hx => ?_⟩
      exact (List.Perm.swap e.id id placed).subset hx

private theorem foldl_isSome (more : List Dimension) (best : Dimension) : ∃ found,
    more.foldl (fun best d =>
      match best with
      | none => some d
      | some b => if b.points.length < d.points.length then some d else some b) (some best) = some found := by
  induction more generalizing best with
  | nil => exact ⟨best, rfl⟩
  | cons e more ih =>
    rw [List.foldl_cons]
    dsimp only
    split
    · exact ih e
    · exact ih best

private theorem widest_isSome {dims : List Dimension} (h : dims ≠ []) : ∃ d, widest dims = some d := by
  obtain ⟨d, rest, rfl⟩ := List.exists_cons_of_ne_nil h
  exact foldl_isSome rest d

/-- Where the dimensions left stand in some order their gates allow, one is always found. -/
theorem orderFrom_isSome {n : Nat} {left : List Dimension} {placed : List String} (hn : left.length = n)
    (hd : (left.map Dimension.id).Nodup) (h : PlacedInOrder placed left) :
    ∃ order, orderFrom n left placed = some order := by
  induction n generalizing left placed with
  | zero => exact ⟨[], rfl⟩
  | succ n ih =>
    obtain ⟨head, tail, rfl⟩ := List.exists_cons_of_length_eq_add_one hn
    have hhead : head ∈ (head :: tail).filter fun d => d.gatedBy.all fun g => placed.contains g.dimension := by
      refine List.mem_filter.2 ⟨List.mem_cons_self, List.all_eq_true.2 fun g hg => ?_⟩
      exact List.contains_iff_mem.2 (h.1 g hg)
    obtain ⟨chosen, hchosen⟩ := widest_isSome (List.ne_nil_of_mem hhead)
    have hlength := (perm_chosen hd (List.mem_of_mem_filter (widest_mem hchosen))).length_eq
    rw [List.length_cons, hn, Nat.add_right_cancel_iff] at hlength
    obtain ⟨rest, hrest⟩ := ih hlength (hd.sublist (List.filter_sublist.map _)) (placedInOrder_chosen h chosen.id)
    refine ⟨chosen :: rest, ?_⟩
    rw [orderFrom, hchosen, Option.bind_eq_bind, Option.bind_some, hrest]
    rfl

/-- The gates of a dimension name those before it. -/
theorem gate_before {placed : List String} {before after : List Dimension} {d : Dimension}
    (h : PlacedInOrder placed (before ++ d :: after)) {g : Gate} (hg : g ∈ d.gatedBy) :
    g.dimension ∈ placed ∨ ∃ e ∈ before, g.dimension = e.id := by
  induction before generalizing placed with
  | nil => exact Or.inl (h.1 g hg)
  | cons e before ih =>
    rcases ih h.2 with hplaced | ⟨e', he', heq⟩
    · rcases List.mem_cons.1 hplaced with heq | hplaced
      · exact Or.inr ⟨e, List.mem_cons_self, heq⟩
      · exact Or.inl hplaced
    · exact Or.inr ⟨e', List.mem_cons_of_mem _ he', heq⟩

/-- Every dimension of a space of well-formed shapes has two points or more and is gated by points of earlier ones, the
gates of each standing before it; so an order is found, which has every dimension once and after its gates. -/
theorem computed_ready (shapes : List (String × ShapeNode)) (hwell : ∀ p ∈ shapes, WellFormed p.2)
    (hdistinct : ((computeMany shapes).map Dimension.id).Nodup) :
    (∀ before d after, computeMany shapes = before ++ d :: after →
      2 ≤ d.points.length ∧
        ∀ g ∈ d.gatedBy, ∃ e ∈ before, ∃ p ∈ e.points, g = ⟨e.id, p.name⟩ ∧ e.gatedBy ++ [g] <+: d.gatedBy) ∧
      ∃ order, processingOrder (computeMany shapes) = some order ∧ order.Perm (computeMany shapes) ∧
        PlacedInOrder [] order := by
  have hcomputed : Computed (computeMany shapes) := ⟨⟨shapes, hwell, rfl⟩, hdistinct⟩
  have hforest := hcomputed.forest
  have hplaced := placedInOrder_computed hcomputed
  refine ⟨fun before d after hspace => ?_, ?_⟩
  · have hd : d ∈ computeMany shapes := hspace ▸ List.mem_append_right _ List.mem_cons_self
    refine ⟨hcomputed.two_points hd, fun g hg => ?_⟩
    obtain ⟨e, he, p, hp, hgate, hprefix⟩ := hforest.gate hd hg
    obtain ⟨e', he', hid⟩ := (gate_before (hspace ▸ hplaced) hg).resolve_left List.not_mem_nil
    have hmem : e' ∈ computeMany shapes := hspace ▸ List.mem_append_left _ he'
    have heq : e = e' := hforest.eq_of_id he hmem (by rw [← hid, hgate])
    exact ⟨e, heq ▸ he', p, hp, hgate, hgate ▸ hprefix⟩
  · obtain ⟨order, horder⟩ := orderFrom_isSome rfl hdistinct hplaced
    exact ⟨order, horder, orderFrom_perm rfl hdistinct horder, orderFrom_placed horder⟩

/-- A member that may be left out, and be null where it is not. -/
def remark : List (String × ShapeNode) :=
  [("response.body", .of (.object [("remark", .of (.optional (.of (.nullable (.of .any)))))]))]

theorem remark_ready :
    (∀ before d after, computeMany remark = before ++ d :: after →
      2 ≤ d.points.length ∧
        ∀ g ∈ d.gatedBy, ∃ e ∈ before, ∃ p ∈ e.points, g = ⟨e.id, p.name⟩ ∧ e.gatedBy ++ [g] <+: d.gatedBy) ∧
      ∃ order, processingOrder (computeMany remark) = some order ∧ order.Perm (computeMany remark) ∧
        PlacedInOrder [] order :=
  computed_ready remark (by decide) (by decide)

end PactJanus.Variant.Readiness
