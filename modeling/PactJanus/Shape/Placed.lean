import PactJanus.Shape.Nodes
import PactJanus.Shape.VariantSpace

namespace PactJanus.Shape.Placed

open PactJanus.Data.Json PactJanus.Shape.Model PactJanus.Shape.VariantSpace PactJanus.Shape.Valid PactJanus.Shape.Nodes

/-! The nodes of a tree at their dimension paths. -/

/-- A node with the dimension path it is at and the gates that stand above it. -/
structure PlacedNode where
  path : String
  gates : List Gate
  node : ShapeNode

/-- The gate a node's dimension puts above the shapes that only one of its points reaches. -/
def gateAt (path : String) (facet : Facet) (point : String) : Gate := ⟨Path.dimensionId path facet.text, point⟩

/-- The shapes right under an operator, each where it is. -/
def under (path : String) (gates : List Gate) : ShapeKind → List PlacedNode
  | .object members => members.map fun p => ⟨Path.member path p.1, gates, p.2⟩
  | .array entries => entries.mapIdx fun i s => ⟨Path.arrayIndex path i, gates, s⟩
  | .eachLike items _ _ => [⟨Path.eachLikeItem path, gates, items⟩]
  | .eachEntry keys values _ _ =>
    keys.toList.map (fun k => ⟨Path.eachEntryKey path, gates, k⟩) ++ [⟨Path.eachEntryValue path, gates, values⟩]
  | .contains entries => entries.mapIdx fun i s => ⟨Path.arrayIndex path i, gates, s⟩
  | .optional of => [⟨path, gates ++ [gateAt path .presence "present"], of⟩]
  | .nullable of => [⟨path, gates ++ [gateAt path .nullability "non-null"], of⟩]
  | .oneOf _ alternatives _ =>
    alternatives.map fun p => ⟨Path.alternative path p.1, gates ++ [gateAt path .alternative p.1], p.2⟩
  | _ => []

mutual

/-- The nodes of a tree, its root first, each where it is. -/
def placed : ShapeNode → String → List Gate → List PlacedNode
  | ⟨e, g, kind⟩, path, gates => ⟨path, gates, ⟨e, g, kind⟩⟩ :: placedUnder kind path gates
termination_by structural node => node

def placedUnder : ShapeKind → String → List Gate → List PlacedNode
  | .object members, path, gates => placedMembers members path gates
  | .array entries, path, gates => placedEntries entries path 0 gates
  | .eachLike items _ _, path, gates => placed items (Path.eachLikeItem path) gates
  | .eachEntry keys values _ _, path, gates =>
    placedKeys keys (Path.eachEntryKey path) gates ++ placed values (Path.eachEntryValue path) gates
  | .contains entries, path, gates => placedEntries entries path 0 gates
  | .optional of, path, gates => placed of path (gates ++ [gateAt path .presence "present"])
  | .nullable of, path, gates => placed of path (gates ++ [gateAt path .nullability "non-null"])
  | .oneOf _ alternatives _, path, gates => placedAlternatives alternatives path gates
  | _, _, _ => []
termination_by structural kind => kind

def placedMembers : List (String × ShapeNode) → String → List Gate → List PlacedNode
  | [], _, _ => []
  | (name, member) :: rest, path, gates =>
    placed member (Path.member path name) gates ++ placedMembers rest path gates
termination_by structural members => members

def placedAlternatives : List (String × ShapeNode) → String → List Gate → List PlacedNode
  | [], _, _ => []
  | (name, alternative) :: rest, path, gates =>
    placed alternative (Path.alternative path name) (gates ++ [gateAt path .alternative name]) ++
      placedAlternatives rest path gates
termination_by structural alternatives => alternatives

def placedEntries : List ShapeNode → String → Nat → List Gate → List PlacedNode
  | [], _, _, _ => []
  | entry :: rest, path, index, gates =>
    placed entry (Path.arrayIndex path index) gates ++ placedEntries rest path (index + 1) gates
termination_by structural entries => entries

def placedKeys : Option ShapeNode → String → List Gate → List PlacedNode
  | none, _, _ => []
  | some keys, path, gates => placed keys path gates
termination_by structural keys => keys

end

/-- The tree under a placed node. -/
def PlacedNode.tree (n : PlacedNode) : List PlacedNode := placed n.node n.path n.gates

private theorem placedMembers_eq (members : List (String × ShapeNode)) (path : String) (gates : List Gate) :
    placedMembers members path gates =
      (members.map fun p => PlacedNode.mk (Path.member path p.1) gates p.2).flatMap PlacedNode.tree := by
  induction members with
  | nil => rfl
  | cons p rest ih => simp [placedMembers, ih, PlacedNode.tree]

private theorem placedAlternatives_eq (alternatives : List (String × ShapeNode)) (path : String) (gates : List Gate) :
    placedAlternatives alternatives path gates =
      (alternatives.map fun p => PlacedNode.mk (Path.alternative path p.1) (gates ++ [gateAt path .alternative p.1])
        p.2).flatMap PlacedNode.tree := by
  induction alternatives with
  | nil => rfl
  | cons p rest ih => simp [placedAlternatives, ih, PlacedNode.tree]

private theorem placedEntries_eq (entries : List ShapeNode) (path : String) (index : Nat) (gates : List Gate) :
    placedEntries entries path index gates =
      (entries.mapIdx fun i s => PlacedNode.mk (Path.arrayIndex path (index + i)) gates s).flatMap PlacedNode.tree := by
  induction entries generalizing index with
  | nil => rfl
  | cons s rest ih =>
    simp only [placedEntries, ih, List.mapIdx_cons, List.flatMap_cons, PlacedNode.tree, Nat.add_zero, Nat.add_assoc,
      Nat.add_comm 1]

theorem placed_eq (e : Option Example) (g : Option Json) (k : ShapeKind) (path : String) (gates : List Gate) :
    placed ⟨e, g, k⟩ path gates = ⟨path, gates, ⟨e, g, k⟩⟩ :: (under path gates k).flatMap PlacedNode.tree := by
  cases k with
  | object members => simp [placed, placedUnder, under, placedMembers_eq]
  | array entries => simp [placed, placedUnder, under, placedEntries_eq]
  | eachEntry keys values min max => cases keys <;> simp [placed, placedUnder, under, placedKeys, PlacedNode.tree]
  | contains entries => simp [placed, placedUnder, under, placedEntries_eq]
  | oneOf discriminator alternatives default => simp [placed, placedUnder, under, placedAlternatives_eq]
  | _ => simp [placed, placedUnder, under, PlacedNode.tree]

/-- What holds of every placed node: of the root, and of every node under each shape right under it. -/
theorem forall_placed {p : PlacedNode → Prop} {e : Option Example} {g : Option Json} {k : ShapeKind} {path : String}
    {gates : List Gate} :
    (∀ n ∈ placed ⟨e, g, k⟩ path gates, p n) ↔
      p ⟨path, gates, ⟨e, g, k⟩⟩ ∧ ∀ c ∈ under path gates k, ∀ n ∈ placed c.node c.path c.gates, p n := by
  simp only [placed_eq, List.forall_mem_cons, List.mem_flatMap]
  exact and_congr_right fun _ => ⟨fun h c hc n hn => h n ⟨c, hc, hn⟩, fun h n ⟨c, hc, hn⟩ => h c hc n hn⟩

/-- The dimension a node declares where it is, if its operator is wider than one case. -/
def ownDimensions (n : PlacedNode) : List Dimension :=
  match n.node.kind with
  | .optional _ =>
    [dimension n.path .presence "optional" [Point.named "present", Point.named "absent"] "present" n.gates]
  | .nullable _ =>
    [dimension n.path .nullability "nullable" [Point.named "non-null", Point.named "null"] "non-null" n.gates]
  | .anyOf options => anyOfDimension n.path n.node.example? options n.gates
  | .oneOf _ alternatives default =>
    match alternatives with
    | first :: _ :: _ =>
      [dimension n.path .alternative "one-of" (alternatives.map fun p => Point.named p.1) (default.getD first.1) n.gates]
    | _ => []
  | .eachLike _ min max => cardinalityDimension n.path "each-like" min max n.gates
  | .eachEntry _ _ min max => cardinalityDimension n.path "each-entry" min max n.gates
  | _ => []

theorem mem_children_of_under {path : String} {gates : List Gate} {k : ShapeKind} {c : PlacedNode}
    (hc : c ∈ under path gates k) : c.node ∈ children k := by
  cases k with
  | object members | oneOf discriminator members default =>
    obtain ⟨p, hp, rfl⟩ := List.mem_map.1 hc
    exact List.mem_map_of_mem hp
  | array entries | contains entries =>
    obtain ⟨i, hi, rfl⟩ := List.mem_mapIdx.1 hc
    exact List.getElem_mem hi
  | eachEntry keys values min max =>
    obtain hk | hv := List.mem_append.1 hc
    · obtain ⟨key, hkey, rfl⟩ := List.mem_map.1 hk
      exact List.mem_append_left _ hkey
    · obtain rfl := List.mem_singleton.1 hv
      exact List.mem_append_right _ List.mem_cons_self
  | eachLike items min max =>
    obtain rfl := List.mem_singleton.1 hc
    exact List.mem_cons_self
  | optional of | nullable of =>
    obtain rfl := List.mem_singleton.1 hc
    exact List.mem_cons_self
  | _ => exact absurd hc (by simp [under])

theorem mem_under_entries {entries : List ShapeNode} {path : String} {gates : List Gate} {i : Nat} {s : ShapeNode}
    (hs : entries[i]? = some s) :
    ⟨Path.arrayIndex path i, gates, s⟩ ∈ entries.mapIdx fun i s => PlacedNode.mk (Path.arrayIndex path i) gates s := by
  obtain ⟨hi, rfl⟩ := List.getElem?_eq_some_iff.1 hs
  exact List.mem_mapIdx.2 ⟨i, hi, rfl⟩

theorem walkMembers_eq (members : List (String × ShapeNode)) (path : String) (gates : List Gate) :
    walkMembers members path gates = members.map fun p => (p.1, walk p.2 (Path.member path p.1) gates) := by
  induction members with
  | nil => rfl
  | cons p rest ih => simp [walkMembers, ih]

theorem walkAlternatives_eq (alternatives : List (String × ShapeNode)) (path : String) (gates : List Gate) :
    walkAlternatives alternatives path gates = alternatives.flatMap fun p =>
      walk p.2 (Path.alternative path p.1) (gates ++ [gateAt path .alternative p.1]) := by
  induction alternatives with
  | nil => rfl
  | cons p rest ih =>
    simp only [walkAlternatives, ih, List.flatMap_cons]
    rfl

theorem walkEntries_eq (entries : List ShapeNode) (path : String) (index : Nat) (gates : List Gate) :
    walkEntries entries path index gates =
      (entries.mapIdx fun i s => walk s (Path.arrayIndex path (index + i)) gates).flatten := by
  induction entries generalizing index with
  | nil => rfl
  | cons s rest ih =>
    simp only [walkEntries, ih, List.mapIdx_cons, List.flatten_cons, Nat.add_zero, Nat.add_assoc, Nat.add_comm 1]

private theorem mem_walk_step {e : Option Example} {g : Option Json} {k : ShapeKind} (hvalid : nodeValid e k = true)
    {path : String} {gates : List Gate} {d : Dimension} :
    d ∈ walk ⟨e, g, k⟩ path gates ↔ d ∈ ownDimensions ⟨path, gates, ⟨e, g, k⟩⟩ ∨
      ∃ c ∈ under path gates k, d ∈ walk c.node c.path c.gates := by
  cases k with
  | object members =>
    simp only [walk, ownDimensions, ShapeNode.kind_mk, under, walkMembers_eq, List.mem_flatMap, mem_membersByName,
      List.mem_map, List.not_mem_nil, false_or]
    constructor
    · rintro ⟨q, ⟨p, hp, rfl⟩, hd⟩
      exact ⟨_, ⟨p, hp, rfl⟩, hd⟩
    · rintro ⟨c, ⟨p, hp, rfl⟩, hd⟩
      exact ⟨_, ⟨p, hp, rfl⟩, hd⟩
  | array entries | contains entries =>
    simp only [walk, ownDimensions, ShapeNode.kind_mk, under, walkEntries_eq, Nat.zero_add, List.mem_flatten,
      List.mem_mapIdx, List.not_mem_nil, false_or]
    constructor
    · rintro ⟨l, ⟨i, hi, rfl⟩, hd⟩
      exact ⟨_, ⟨i, hi, rfl⟩, hd⟩
    · rintro ⟨c, ⟨i, hi, rfl⟩, hd⟩
      exact ⟨_, ⟨i, hi, rfl⟩, hd⟩
  | eachLike items min max => simp [walk, ownDimensions, under]
  | eachEntry keys values min max => cases keys <;> simp [walk, ownDimensions, under, walkKeys]
  | optional of => simp [walk, ownDimensions, under, gateAt]
  | nullable of => simp [walk, ownDimensions, under, gateAt]
  | anyOf options => simp [walk, ownDimensions, under]
  | oneOf discriminator alternatives default =>
    simp only [nodeValid, alternativesValid, Bool.and_eq_true, decide_eq_true_eq] at hvalid
    match alternatives, hvalid.1.1.1.1.1 with
    | first :: second :: rest, _ =>
      simp only [walk, ownDimensions, ShapeNode.kind_mk, under, walkAlternatives_eq, List.mem_cons, List.mem_flatMap,
        List.not_mem_nil, or_false, List.mem_map]
      refine or_congr_right ⟨?_, ?_⟩
      · rintro ⟨p, hp, hd⟩
        exact ⟨_, ⟨p, hp, rfl⟩, hd⟩
      · rintro ⟨c, ⟨p, hp, rfl⟩, hd⟩
        exact ⟨p, hp, hd⟩
  | _ => simp [walk, ownDimensions, under]

/-- A valid tree's dimensions are the dimensions of its nodes. -/
theorem mem_walk {S : ShapeNode} (h : wellFormed S = true) {path : String} {gates : List Gate} {d : Dimension} :
    d ∈ walk S path gates ↔ ∃ n ∈ placed S path gates, d ∈ ownDimensions n := by
  induction S using children_induction generalizing path gates with
  | node e g k ih =>
    rw [mem_walk_step (wellFormed_mk.1 h).2.1, placed_eq]
    have hchild : ∀ c ∈ under path gates k, wellFormed c.node = true := fun c hc =>
      wellFormed_child h (mem_children_of_under hc)
    simp only [List.mem_cons, List.mem_flatMap]
    constructor
    · rintro (hown | ⟨c, hc, hd⟩)
      · exact ⟨_, Or.inl rfl, hown⟩
      · obtain ⟨n, hn, hd⟩ := (ih c.node (mem_children_of_under hc) (hchild c hc)).1 hd
        exact ⟨n, Or.inr ⟨c, hc, hn⟩, hd⟩
    · rintro ⟨n, rfl | ⟨c, hc, hn⟩, hd⟩
      · exact Or.inl hd
      · exact Or.inr ⟨c, hc, (ih c.node (mem_children_of_under hc) (hchild c hc)).2 ⟨n, hn, hd⟩⟩

end PactJanus.Shape.Placed
