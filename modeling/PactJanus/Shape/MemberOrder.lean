import PactJanus.Lib.KeyedUnion
import PactJanus.Lib.Lists
import PactJanus.Shape.Placed

namespace PactJanus.Shape.MemberOrder

open PactJanus.Data.Json PactJanus.Lib PactJanus.Lib.Lists PactJanus.Shape PactJanus.Shape.Model
  PactJanus.Shape.Valid PactJanus.Shape.Nodes PactJanus.Shape.VariantSpace PactJanus.Shape.Placed

/-! Shapes that differ only in the order their objects' members are declared in, and the one of them in name order. -/

variable {α β : Type}

mutual

/-- Two trees that are the same but for the order of the members of the objects at any depth. -/
inductive Reordered : ShapeNode → ShapeNode → Prop
  | leaf {e g k} : isLeaf k = true → Reordered ⟨e, g, k⟩ ⟨e, g, k⟩
  | object {e g members middle members'} : ReorderedMembers members middle → middle.Perm members' →
      Reordered ⟨e, g, .object members⟩ ⟨e, g, .object members'⟩
  | array {e g entries entries'} : ReorderedEntries entries entries' →
      Reordered ⟨e, g, .array entries⟩ ⟨e, g, .array entries'⟩
  | eachLike {e g items items' min max} : Reordered items items' →
      Reordered ⟨e, g, .eachLike items min max⟩ ⟨e, g, .eachLike items' min max⟩
  | eachEntry {e g keys keys' values values' min max} : ReorderedKeys keys keys' → Reordered values values' →
      Reordered ⟨e, g, .eachEntry keys values min max⟩ ⟨e, g, .eachEntry keys' values' min max⟩
  | contains {e g entries entries'} : ReorderedEntries entries entries' →
      Reordered ⟨e, g, .contains entries⟩ ⟨e, g, .contains entries'⟩
  | optional {e g of of'} : Reordered of of' → Reordered ⟨e, g, .optional of⟩ ⟨e, g, .optional of'⟩
  | nullable {e g of of'} : Reordered of of' → Reordered ⟨e, g, .nullable of⟩ ⟨e, g, .nullable of'⟩
  | oneOf {e g discriminator alternatives alternatives' default} : ReorderedMembers alternatives alternatives' →
      Reordered ⟨e, g, .oneOf discriminator alternatives default⟩ ⟨e, g, .oneOf discriminator alternatives' default⟩

/-- Shapes of the same names in the same places. -/
inductive ReorderedMembers : List (String × ShapeNode) → List (String × ShapeNode) → Prop
  | nil : ReorderedMembers [] []
  | cons {name node node' rest rest'} : Reordered node node' → ReorderedMembers rest rest' →
      ReorderedMembers ((name, node) :: rest) ((name, node') :: rest')

inductive ReorderedEntries : List ShapeNode → List ShapeNode → Prop
  | nil : ReorderedEntries [] []
  | cons {node node' rest rest'} : Reordered node node' → ReorderedEntries rest rest' →
      ReorderedEntries (node :: rest) (node' :: rest')

inductive ReorderedKeys : Option ShapeNode → Option ShapeNode → Prop
  | none : ReorderedKeys none none
  | some {node node'} : Reordered node node' → ReorderedKeys (some node) (some node')

end

mutual

/-- A tree with every object's members in name order. -/
def ordered : ShapeNode → ShapeNode
  | ⟨e, g, kind⟩ => ⟨e, g, orderedKind kind⟩
termination_by structural node => node

def orderedKind : ShapeKind → ShapeKind
  | .object members => .object (membersByName (orderedMembers members))
  | .array entries => .array (orderedEntries entries)
  | .eachLike items min max => .eachLike (ordered items) min max
  | .eachEntry keys values min max => .eachEntry (orderedKeys keys) (ordered values) min max
  | .contains entries => .contains (orderedEntries entries)
  | .optional of => .optional (ordered of)
  | .nullable of => .nullable (ordered of)
  | .oneOf discriminator alternatives default => .oneOf discriminator (orderedMembers alternatives) default
  | leaf => leaf
termination_by structural kind => kind

def orderedMembers : List (String × ShapeNode) → List (String × ShapeNode)
  | [] => []
  | (name, node) :: rest => (name, ordered node) :: orderedMembers rest
termination_by structural members => members

def orderedEntries : List ShapeNode → List ShapeNode
  | [] => []
  | node :: rest => ordered node :: orderedEntries rest
termination_by structural entries => entries

def orderedKeys : Option ShapeNode → Option ShapeNode
  | none => none
  | some node => some (ordered node)
termination_by structural keys => keys

end

/-- A named shape with its members in order. -/
def orderedMember (p : String × ShapeNode) : String × ShapeNode := (p.1, ordered p.2)

@[simp] theorem orderedMember_fst (p : String × ShapeNode) : (orderedMember p).1 = p.1 := rfl

@[simp] theorem orderedMember_snd (p : String × ShapeNode) : (orderedMember p).2 = ordered p.2 := rfl

theorem orderedMembers_eq (members : List (String × ShapeNode)) : orderedMembers members = members.map orderedMember := by
  induction members with
  | nil => rfl
  | cons p rest ih => exact congrArg (orderedMember p :: ·) ih

theorem orderedEntries_eq (entries : List ShapeNode) : orderedEntries entries = entries.map ordered := by
  induction entries with
  | nil => rfl
  | cons s rest ih => exact congrArg (ordered s :: ·) ih

theorem orderedKeys_eq (keys : Option ShapeNode) : orderedKeys keys = keys.map ordered := by
  cases keys <;> rfl

section Ordered

variable (e : Option Example) (g : Option Json)

theorem ordered_leaf {k : ShapeKind} (hk : isLeaf k = true) : ordered ⟨e, g, k⟩ = ⟨e, g, k⟩ := by
  cases k <;> first | rfl | exact nomatch hk

@[simp] theorem ordered_object (members : List (String × ShapeNode)) :
    ordered ⟨e, g, .object members⟩ = ⟨e, g, .object (membersByName (members.map orderedMember))⟩ := by
  rw [← orderedMembers_eq, ordered, orderedKind]

@[simp] theorem ordered_array (entries : List ShapeNode) :
    ordered ⟨e, g, .array entries⟩ = ⟨e, g, .array (entries.map ordered)⟩ := by
  rw [← orderedEntries_eq, ordered, orderedKind]

@[simp] theorem ordered_eachLike (items : ShapeNode) (min : UInt64) (max : Option UInt64) :
    ordered ⟨e, g, .eachLike items min max⟩ = ⟨e, g, .eachLike (ordered items) min max⟩ := rfl

@[simp] theorem ordered_eachEntry (keys : Option ShapeNode) (values : ShapeNode) (min : UInt64) (max : Option UInt64) :
    ordered ⟨e, g, .eachEntry keys values min max⟩ = ⟨e, g, .eachEntry (keys.map ordered) (ordered values) min max⟩ := by
  rw [← orderedKeys_eq, ordered, orderedKind]

@[simp] theorem ordered_contains (entries : List ShapeNode) :
    ordered ⟨e, g, .contains entries⟩ = ⟨e, g, .contains (entries.map ordered)⟩ := by
  rw [← orderedEntries_eq, ordered, orderedKind]

@[simp] theorem ordered_optional (of : ShapeNode) :
    ordered ⟨e, g, .optional of⟩ = ⟨e, g, .optional (ordered of)⟩ := rfl

@[simp] theorem ordered_nullable (of : ShapeNode) :
    ordered ⟨e, g, .nullable of⟩ = ⟨e, g, .nullable (ordered of)⟩ := rfl

@[simp] theorem ordered_oneOf (discriminator : String) (alternatives : List (String × ShapeNode)) (default : Option String) :
    ordered ⟨e, g, .oneOf discriminator alternatives default⟩ =
      ⟨e, g, .oneOf discriminator (alternatives.map orderedMember) default⟩ := by
  rw [← orderedMembers_eq, ordered, orderedKind]

end Ordered

/-! Putting things in name order. -/

theorem membersByName_map (f : String × α → String × β) (hf : ∀ p, (f p).1 = p.1) (members : List (String × α)) :
    membersByName (members.map f) = (membersByName members).map f := by
  refine (List.map_insertionSort _ _ f members fun a _ b _ => ?_).symm
  rw [hf, hf]

theorem membersByName_idem (members : List (String × α)) :
    membersByName (membersByName members) = membersByName members := by
  have : Std.Total fun a b : String × α => a.1 ≤ b.1 := ⟨fun a b => le_total a.1 b.1⟩
  have : IsTrans (String × α) fun a b => a.1 ≤ b.1 := ⟨fun _ _ _ => le_trans⟩
  exact List.Pairwise.insertionSort_eq (List.pairwise_insertionSort _ members)

theorem membersByName_perm (members : List (String × α)) : (membersByName members).Perm members :=
  List.perm_insertionSort _ members

theorem membersByName_eq_of_perm {members members' : List (String × α)} (hd : (members.map Prod.fst).Nodup)
    (h : members.Perm members') : membersByName members = membersByName members' :=
  KeyedUnion.inOrder_eq_of_perm hd h

/-- The order of the members of an object says nothing of what a name is bound to, the first of two of a name coming first. -/
theorem lookup_membersByName (key : String) (members : List (String × α)) :
    (membersByName members).lookup key = members.lookup key := by
  have hinsert (p : String × α) (rest : List (String × α)) :
      (rest.orderedInsert (fun a b => a.1 ≤ b.1) p).lookup key = (p :: rest).lookup key := by
    induction rest with
    | nil => rfl
    | cons q rest ih =>
      rw [List.orderedInsert_cons]
      split
      · rfl
      · rename_i hle
        have hne : p.1 ≠ q.1 := fun h => hle (le_of_eq h)
        rw [lookup_cons_ite q.1 q.2, ih, lookup_cons_ite p.1 p.2, lookup_cons_ite p.1 p.2, lookup_cons_ite q.1 q.2]
        by_cases hp : key = p.1
        · rw [if_pos hp, if_pos hp, if_neg (fun hq => hne (hp.symm.trans hq))]
        · rw [if_neg hp, if_neg hp]
  induction members with
  | nil => rfl
  | cons p rest ih =>
    calc (membersByName (p :: rest)).lookup key
        = ((p.1, p.2) :: membersByName rest).lookup key := hinsert p _
      _ = ((p.1, p.2) :: rest).lookup key := by rw [lookup_cons_ite, lookup_cons_ite, ih]

/-! Reordered shapes are one shape once in order. -/

section Reordered

private theorem ReorderedMembers.names {members members' : List (String × ShapeNode)}
    (h : ReorderedMembers members members') : members.map Prod.fst = members'.map Prod.fst := by
  induction members generalizing members' with
  | nil =>
    cases h
    rfl
  | cons p rest ih =>
    obtain ⟨name, node⟩ := p
    cases h with
    | cons _ hrest => exact congrArg (name :: ·) (ih hrest)

private theorem ReorderedMembers.ordered {members members' : List (String × ShapeNode)}
    (h : ReorderedMembers members members')
    (ih : ∀ p ∈ members, ∀ node', Reordered p.2 node' → MemberOrder.ordered p.2 = MemberOrder.ordered node') :
    members.map orderedMember = members'.map orderedMember := by
  induction members generalizing members' with
  | nil =>
    cases h
    rfl
  | cons p rest ihrest =>
    obtain ⟨name, node⟩ := p
    cases h with
    | cons hnode hrest =>
      have hfirst := ih (name, node) List.mem_cons_self _ hnode
      refine congrArg₂ List.cons (congrArg (Prod.mk name) hfirst) (ihrest hrest fun q hq => ?_)
      exact ih q (List.mem_cons_of_mem _ hq)

private theorem ReorderedEntries.ordered {entries entries' : List ShapeNode} (h : ReorderedEntries entries entries')
    (ih : ∀ s ∈ entries, ∀ s', Reordered s s' → MemberOrder.ordered s = MemberOrder.ordered s') :
    entries.map MemberOrder.ordered = entries'.map MemberOrder.ordered := by
  induction entries generalizing entries' with
  | nil =>
    cases h
    rfl
  | cons s rest ihrest =>
    cases h with
    | cons hnode hrest =>
      refine congrArg₂ List.cons (ih s List.mem_cons_self _ hnode) (ihrest hrest fun q hq => ?_)
      exact ih q (List.mem_cons_of_mem _ hq)

variable {S S' : ShapeNode}

/-- Reordered shapes are the same shape once their members are in name order. -/
theorem Reordered.ordered_eq (h : Reordered S S') (hvalid : wellFormed S = true) : ordered S = ordered S' := by
  induction S generalizing S' with
  | leaf e g k hk => cases h <;> first | rfl | exact nomatch hk
  | object e g members ih =>
    cases h with
    | leaf hk => exact nomatch hk
    | @object _ _ _ middle members' hmembers hperm =>
      have hsame : members.map orderedMember = middle.map orderedMember :=
        hmembers.ordered fun p hp _ hp' => ih p hp hp' (wellFormed_child hvalid (List.mem_map_of_mem hp))
      have hnames : (members.map Prod.fst).Nodup := of_decide_eq_true (wellFormed_mk.1 hvalid).2.1
      have hdistinct : ((middle.map orderedMember).map Prod.fst).Nodup := by
        rw [List.map_map]
        exact hmembers.names ▸ hnames
      rw [ordered_object, ordered_object, hsame, membersByName_eq_of_perm hdistinct (hperm.map _)]
  | array e g entries ih =>
    cases h with
    | leaf hk => exact nomatch hk
    | array hentries =>
      rw [ordered_array, ordered_array, hentries.ordered fun s hs _ hs' => ih s hs hs' (wellFormed_child hvalid hs)]
  | eachLike e g items min max ih =>
    cases h with
    | leaf hk => exact nomatch hk
    | eachLike hitems =>
      rw [ordered_eachLike, ordered_eachLike, ih hitems (wellFormed_child hvalid (List.mem_singleton_self _))]
  | eachEntry e g keys values min max ihk ihv =>
    cases h with
    | leaf hk => exact nomatch hk
    | eachEntry hkeys hvalues =>
      have hsame := ihv hvalues (wellFormed_child hvalid (List.mem_append_right _ (List.mem_singleton_self _)))
      cases hkeys with
      | none => rw [ordered_eachEntry, ordered_eachEntry, hsame]
      | @some keys _ hkeys =>
        have hkey := ihk keys rfl hkeys (wellFormed_child hvalid (List.mem_append_left _ (List.mem_singleton_self _)))
        rw [ordered_eachEntry, ordered_eachEntry, hsame, Option.map_some, Option.map_some, hkey]
  | contains e g entries ih =>
    cases h with
    | leaf hk => exact nomatch hk
    | contains hentries =>
      rw [ordered_contains, ordered_contains,
        hentries.ordered fun s hs _ hs' => ih s hs hs' (wellFormed_child hvalid hs)]
  | optional e g of ih =>
    cases h with
    | leaf hk => exact nomatch hk
    | optional hof =>
      rw [ordered_optional, ordered_optional, ih hof (wellFormed_child hvalid (List.mem_singleton_self _))]
  | nullable e g of ih =>
    cases h with
    | leaf hk => exact nomatch hk
    | nullable hof =>
      rw [ordered_nullable, ordered_nullable, ih hof (wellFormed_child hvalid (List.mem_singleton_self _))]
  | oneOf e g discriminator alternatives default ih =>
    cases h with
    | leaf hk => exact nomatch hk
    | oneOf halternatives =>
      have hsame := halternatives.ordered fun p hp _ hp' => ih p hp hp' (wellFormed_child hvalid (List.mem_map_of_mem hp))
      rw [ordered_oneOf, ordered_oneOf, hsame]

end Reordered

/-! The order of members in a variant space. -/

theorem mapIdx_map_congr {γ : Type} {f : γ → α} {g : Nat → α → β} {g' : Nat → γ → β} {l : List γ}
    (h : ∀ a ∈ l, ∀ i, g i (f a) = g' i a) : (l.map f).mapIdx g = l.mapIdx g' := by
  induction l generalizing g g' with
  | nil => rfl
  | cons a l ih =>
    rw [List.map_cons, List.mapIdx_cons, List.mapIdx_cons, h a List.mem_cons_self 0]
    exact congrArg _ (ih fun b hb i => h b (List.mem_cons_of_mem _ hb) (i + 1))

theorem walk_ordered (S : ShapeNode) (at' : String) (gates : List Gate) : walk (ordered S) at' gates = walk S at' gates := by
  induction S generalizing at' gates with
  | leaf e g k hk => rw [ordered_leaf e g hk]
  | object e g members ih =>
    have hmap : (walkMembers (members.map orderedMember) at' gates) = walkMembers members at' gates := by
      rw [walkMembers_eq, walkMembers_eq, List.map_map]
      exact List.map_congr_left fun p hp => congrArg (Prod.mk p.1) (ih p hp _ _)
    have hkeys : walkMembers (membersByName (members.map orderedMember)) at' gates =
        membersByName (walkMembers (members.map orderedMember) at' gates) := by
      rw [walkMembers_eq, walkMembers_eq]
      exact membersByName_map (fun p : String × ShapeNode => (p.1, walk p.2 (Path.member at' p.1) gates)) (fun _ => rfl) _
        |>.symm
    rw [ordered_object, walk, walk, hkeys, membersByName_idem, hmap]
  | array e g entries ih =>
    rw [ordered_array, walk, walk, walkEntries_eq, walkEntries_eq, mapIdx_map_congr (l := entries) fun s hs i => ih s hs _ _]
  | eachLike e g items min max ih => rw [ordered_eachLike, walk, walk, ih]
  | eachEntry e g keys values min max ihk ihv =>
    rw [ordered_eachEntry, walk, walk, ihv]
    cases keys with
    | none => rfl
    | some keys => rw [Option.map_some, walkKeys, walkKeys, ihk keys rfl]
  | contains e g entries ih =>
    rw [ordered_contains, walk, walk, walkEntries_eq, walkEntries_eq, mapIdx_map_congr (l := entries) fun s hs i => ih s hs _ _]
  | optional e g of ih => rw [ordered_optional, walk, walk, ih]
  | nullable e g of ih => rw [ordered_nullable, walk, walk, ih]
  | oneOf e g discriminator alternatives default ih =>
    have hunder : walkAlternatives (alternatives.map orderedMember) at' gates = walkAlternatives alternatives at' gates := by
      rw [walkAlternatives_eq, walkAlternatives_eq, List.flatMap_map]
      exact List.flatMap_congr fun p hp => ih p hp _ _
    rw [ordered_oneOf]
    rcases alternatives with _ | ⟨first, _ | ⟨second, rest⟩⟩
    · rfl
    · rfl
    · change _ :: walkAlternatives ((first :: second :: rest).map orderedMember) at' gates = _ :: walkAlternatives _ at' gates
      rw [hunder, List.map_map]
      rfl

end PactJanus.Shape.MemberOrder
