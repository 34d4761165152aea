import PactJanus.Shape.Valid

namespace PactJanus.Shape.Nodes

open PactJanus.Data.Json PactJanus.Shape.Model PactJanus.Shape.Valid

/-! Every node of a shape tree, and what holds of all of them. -/

mutual

/-- A tree's nodes, its root first. -/
def nodes : ShapeNode → List ShapeNode
  | ⟨e, g, kind⟩ => ⟨e, g, kind⟩ :: nodesUnder kind
termination_by structural node => node

def nodesUnder : ShapeKind → List ShapeNode
  | .object members => nodesOfMembers members
  | .array entries => nodesOfEntries entries
  | .eachLike items _ _ => nodes items
  | .eachEntry keys values _ _ => nodesOfKeys keys ++ nodes values
  | .contains entries => nodesOfEntries entries
  | .optional of => nodes of
  | .nullable of => nodes of
  | .oneOf _ alternatives _ => nodesOfMembers alternatives
  | _ => []
termination_by structural kind => kind

def nodesOfMembers : List (String × ShapeNode) → List ShapeNode
  | [] => []
  | (_, node) :: rest => nodes node ++ nodesOfMembers rest
termination_by structural members => members

def nodesOfEntries : List ShapeNode → List ShapeNode
  | [] => []
  | node :: rest => nodes node ++ nodesOfEntries rest
termination_by structural entries => entries

def nodesOfKeys : Option ShapeNode → List ShapeNode
  | none => []
  | some node => nodes node
termination_by structural keys => keys

end

/-- The shapes right under an operator. -/
def children : ShapeKind → List ShapeNode
  | .object members => members.map Prod.snd
  | .array entries => entries
  | .eachLike items _ _ => [items]
  | .eachEntry keys values _ _ => keys.toList ++ [values]
  | .contains entries => entries
  | .optional of => [of]
  | .nullable of => [of]
  | .oneOf _ alternatives _ => alternatives.map Prod.snd
  | _ => []

private theorem nodesOfMembers_eq (members : List (String × ShapeNode)) :
    nodesOfMembers members = (members.map Prod.snd).flatMap nodes := by
  induction members with
  | nil => rfl
  | cons p rest ih => simp [nodesOfMembers, ih]

private theorem nodesOfEntries_eq (entries : List ShapeNode) : nodesOfEntries entries = entries.flatMap nodes := by
  induction entries with
  | nil => rfl
  | cons s rest ih => simp [nodesOfEntries, ih]

theorem nodes_eq (e : Option Example) (g : Option Json) (k : ShapeKind) :
    nodes ⟨e, g, k⟩ = ⟨e, g, k⟩ :: (children k).flatMap nodes := by
  cases k with
  | object members => simp [nodes, nodesUnder, children, nodesOfMembers_eq]
  | array entries => simp [nodes, nodesUnder, children, nodesOfEntries_eq]
  | eachEntry keys values min max => cases keys <;> simp [nodes, nodesUnder, children, nodesOfKeys]
  | contains entries => simp [nodes, nodesUnder, children, nodesOfEntries_eq]
  | oneOf discriminator alternatives default => simp [nodes, nodesUnder, children, nodesOfMembers_eq]
  | _ => simp [nodes, nodesUnder, children]

theorem mem_nodes_self (S : ShapeNode) : S ∈ nodes S := by
  obtain ⟨e, g, k⟩ := S
  simp [nodes_eq]

/-- What holds of every node of a tree: of its root, and of every node of the shapes under it. -/
theorem forall_nodes {p : ShapeNode → Prop} {e : Option Example} {g : Option Json} {k : ShapeKind} :
    (∀ n ∈ nodes ⟨e, g, k⟩, p n) ↔ p ⟨e, g, k⟩ ∧ ∀ c ∈ children k, ∀ n ∈ nodes c, p n := by
  simp only [nodes_eq, List.forall_mem_cons, List.mem_flatMap]
  exact and_congr_right fun _ => ⟨fun h c hc n hn => h n ⟨c, hc, hn⟩, fun h n ⟨c, hc, hn⟩ => h c hc n hn⟩

/-- Induction on a tree by the shapes right under each node. -/
theorem children_induction {motive : ShapeNode → Prop}
    (node : ∀ e g k, (∀ c ∈ children k, motive c) → motive ⟨e, g, k⟩) (S : ShapeNode) : motive S := by
  induction S with
  | leaf e g k hk =>
    refine node e g k fun c hc => ?_
    cases k <;> simp [children, isLeaf] at hc hk
  | object e g members ih => exact node _ _ _ (List.forall_mem_map.2 ih)
  | array e g entries ih => exact node _ _ _ ih
  | eachLike e g items min max ih => exact node _ _ _ (List.forall_mem_singleton.2 ih)
  | eachEntry e g keys values min max ihk ihv =>
    refine node _ _ _ (List.forall_mem_append.2 ⟨fun k hk => ihk k (Option.mem_toList.1 hk), ?_⟩)
    exact List.forall_mem_singleton.2 ihv
  | contains e g entries ih => exact node _ _ _ ih
  | optional e g of ih => exact node _ _ _ (List.forall_mem_singleton.2 ih)
  | nullable e g of ih => exact node _ _ _ (List.forall_mem_singleton.2 ih)
  | oneOf e g discriminator alternatives default ih => exact node _ _ _ (List.forall_mem_map.2 ih)

/-- Validity of a tree is validity of each of its nodes. -/
theorem wellFormed_iff {S : ShapeNode} :
    wellFormed S = true ↔ ∀ n ∈ nodes S, exampleValid n.example? = true ∧ nodeValid n.example? n.kind = true := by
  induction S with
  | leaf e g k hk =>
    rw [wellFormed_mk, forall_nodes, ← and_assoc]
    cases k <;> simp_all [wellFormedKind, children, isLeaf]
  | object e g members ih =>
    rw [wellFormed_mk, forall_nodes, ← and_assoc]
    simp only [wellFormedKind, wellFormedMembers_iff, children, List.forall_mem_map]
    exact and_congr_right fun _ => forall₂_congr ih
  | array e g entries ih =>
    rw [wellFormed_mk, forall_nodes, ← and_assoc]
    simp only [wellFormedKind, wellFormedEntries_iff, children]
    exact and_congr_right fun _ => forall₂_congr ih
  | eachLike e g items min max ih =>
    rw [wellFormed_mk, forall_nodes, ← and_assoc]
    simp [wellFormedKind, children, ih]
  | eachEntry e g keys values min max ihk ihv =>
    rw [wellFormed_mk, forall_nodes, ← and_assoc]
    simp only [wellFormedKind, Bool.and_eq_true, wellFormedKeys_iff, children, List.forall_mem_append,
      List.forall_mem_singleton, Option.mem_toList, ← ihv]
    exact and_congr_right fun _ => and_congr_left fun _ => forall₂_congr ihk
  | contains e g entries ih =>
    rw [wellFormed_mk, forall_nodes, ← and_assoc]
    simp only [wellFormedKind, wellFormedEntries_iff, children]
    exact and_congr_right fun _ => forall₂_congr ih
  | optional e g of ih =>
    rw [wellFormed_mk, forall_nodes, ← and_assoc]
    simp [wellFormedKind, children, ih]
  | nullable e g of ih =>
    rw [wellFormed_mk, forall_nodes, ← and_assoc]
    simp [wellFormedKind, children, ih]
  | oneOf e g discriminator alternatives default ih =>
    rw [wellFormed_mk, forall_nodes, ← and_assoc]
    simp only [wellFormedKind, wellFormedMembers_iff, children, List.forall_mem_map]
    exact and_congr_right fun _ => forall₂_congr ih

theorem wellFormed_child {e : Option Example} {g : Option Json} {k : ShapeKind} (h : wellFormed ⟨e, g, k⟩ = true)
    {c : ShapeNode} (hc : c ∈ children k) : wellFormed c = true :=
  wellFormed_iff.2 ((forall_nodes.1 (wellFormed_iff.1 h)).2 c hc)

end PactJanus.Shape.Nodes
