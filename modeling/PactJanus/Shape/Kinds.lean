import PactJanus.Data.Equality
import PactJanus.Shape.Addresses
import PactJanus.Shape.Alternatives
import PactJanus.Shape.MemberOrder
import PactJanus.Shape.Nested

namespace PactJanus.Shape.Kinds

open PactJanus.Data.Json PactJanus.Data.Equality PactJanus.Lib.Lists PactJanus.Shape.Model PactJanus.Shape.Valid
  PactJanus.Shape.Parse PactJanus.Shape.Documents PactJanus.Shape.Accepted PactJanus.Shape.Alternatives
  PactJanus.Shape.Addresses PactJanus.Shape.MemberOrder PactJanus.Shape.Nested

/-! What an operator stands for in its node's document, with the limits on the nodes under it. -/

section Limits

variable {depth most : Nat}

theorem depthEntries_le {nodes : List ShapeNode} : depth + depthEntries nodes ≤ most ↔
    depth ≤ most ∧ ∀ node ∈ nodes, depth + 1 + Valid.depth node ≤ most := by
  induction nodes with
  | nil => simp [depthEntries]
  | cons node rest ih =>
    rw [depthEntries, List.forall_mem_cons, and_left_comm, ← ih]
    omega

theorem depthMembers_le {nodes : List (String × ShapeNode)} : depth + depthMembers nodes ≤ most ↔
    depth ≤ most ∧ ∀ p ∈ nodes, depth + 1 + Valid.depth p.2 ≤ most := by
  induction nodes with
  | nil => simp [depthMembers]
  | cons p rest ih =>
    rw [depthMembers, List.forall_mem_cons, and_left_comm, ← ih]
    omega

theorem nodeCount_pos (node : ShapeNode) : 1 ≤ nodeCount node := by
  obtain ⟨e, g, k⟩ := node
  rw [nodeCount]
  exact Nat.le_add_right 1 _

theorem length_le_nodeCountEntries (nodes : List ShapeNode) : nodes.length ≤ nodeCountEntries nodes := by
  induction nodes with
  | nil => exact Nat.zero_le _
  | cons node rest ih =>
    have hnode := nodeCount_pos node
    rw [List.length_cons, nodeCountEntries]
    omega

theorem nodeCountMembers_perm {nodes others : List (String × ShapeNode)} (h : nodes.Perm others) :
    nodeCountMembers nodes = nodeCountMembers others := by
  induction h with
  | nil => rfl
  | cons p _ ih => rw [nodeCountMembers, nodeCountMembers, ih]
  | swap p q rest =>
    simp only [nodeCountMembers]
    omega
  | trans _ _ ih ih' => exact ih.trans ih'

end Limits

/-- What an operator and the nodes under it stand for in a node's document. -/
structure KindStands (obj : List (String × Json)) (example? : Option Example) (depth n : Nat) (kind : ShapeKind)
    (n' : Nat) : Prop where
  represents : RepresentsKind kind (.object obj)
  valid : nodeValid example? kind = true
  under : wellFormedKind kind = true
  depth : depth + depthKind kind ≤ maxDepth
  counted : n' = n + nodeCountKind kind
  within : n' ≤ maxNodes

section Kinds

variable {obj : List (String × Json)} {example? : Option Example} {path : String} {depth n n' : Nat} {kind : ShapeKind}

theorem kindStands_leaf (hleaf : isLeaf kind = true) (hn : n ≤ maxNodes) (hdepth : depth ≤ maxDepth) :
    KindStands obj example? depth n kind n' ↔
      RepresentsKind kind (.object obj) ∧ nodeValid example? kind = true ∧ n' = n := by
  have hunder : wellFormedKind kind = true ∧ depthKind kind = 0 ∧ nodeCountKind kind = 0 := by
    cases kind <;> first | exact ⟨rfl, rfl, rfl⟩ | exact nomatch hleaf
  constructor
  · intro h
    exact ⟨h.represents, h.valid, by rw [h.counted, hunder.2.2, Nat.add_zero]⟩
  · rintro ⟨hrep, hvalid, rfl⟩
    exact ⟨hrep, hvalid, hunder.1, by rw [hunder.2.1]; exact hdepth, by rw [hunder.2.2, Nat.add_zero], hn⟩

/-- The entries of an array, in their places or not. -/
theorem entries_stand {items : List Json} {nodes : List ShapeNode} (hdepth : depth ≤ maxDepth) :
    (List.Forall₂ Represents nodes items ∧ (∀ node ∈ nodes, Fits (depth + 1) node ∧ admitsAbsent node = false) ∧
        n' = n + nodeCountEntries nodes ∧ n' ≤ maxNodes) ↔
      RepresentsEntries nodes items ∧
        (decide (nodes.length ≤ maxNodes) && nodes.all fun s => !admitsAbsent s) = true ∧
        wellFormedEntries nodes = true ∧ depth + depthEntries nodes ≤ maxDepth ∧
        n' = n + nodeCountEntries nodes ∧ n' ≤ maxNodes := by
  have hlength := length_le_nodeCountEntries nodes
  rw [representsEntries_iff, Bool.and_eq_true, decide_eq_true_iff, List.all_eq_true, wellFormedEntries_iff,
    depthEntries_le]
  constructor
  · rintro ⟨hrep, hall, hcount, hwithin⟩
    refine ⟨hrep, ⟨by omega, fun s hs => by simp [(hall s hs).2]⟩, fun s hs => (hall s hs).1.tree,
      ⟨hdepth, fun s hs => (hall s hs).1.depth⟩, hcount, hwithin⟩
  · rintro ⟨hrep, ⟨-, habsent⟩, htree, ⟨-, hdeep⟩, hcount, hwithin⟩
    exact ⟨hrep, fun s hs => ⟨⟨htree s hs, hdeep s hs⟩, by simpa using habsent s hs⟩, hcount, hwithin⟩

/-! The alternatives of a union, put in the order of their names. -/

private theorem distinct_literals {discriminator : String} {node : ShapeNode} (hnode : wellFormed node = true) :
    ∀ v ∈ (discriminatorOptions discriminator node).getD [], distinctKeys v = true := by
  unfold discriminatorOptions
  cases hmember : (unwrapObjectMembers node).bind fun members => members.lookup discriminator with
  | none => simp
  | some member =>
    obtain ⟨members, hmembers, hlookup⟩ := Option.bind_eq_some_iff.1 hmember
    have hvalid := wellFormed_unwrapped hnode hmembers (mem_of_lookup hlookup)
    obtain ⟨e, g, k⟩ := member
    obtain ⟨hexample, hkind, -⟩ := wellFormed_mk.1 hvalid
    cases k with
    | equality =>
      cases e with
      | none => exact absurd hkind (by simp [nodeValid])
      | some e => exact List.forall_mem_singleton.2 hexample
    | anyOf options =>
      simp only [nodeValid, Bool.and_eq_true, List.all_eq_true] at hkind
      simpa using hkind.1.1.2
    | _ => simp

private theorem disjointValues_comm {a b : List Json} (ha : ∀ v ∈ a, distinctKeys v = true)
    (hb : ∀ v ∈ b, distinctKeys v = true) : disjointValues a b = disjointValues b a := by
  rw [Bool.eq_iff_iff]
  simp only [disjointValues, List.all_eq_true, Bool.not_eq_true']
  constructor
  · exact fun h x hx y hy => by rw [valuesEqual_comm (hb x hx) (ha y hy)]; exact h y hy x hx
  · exact fun h x hx y hy => by rw [valuesEqual_comm (ha x hx) (hb y hy)]; exact h y hy x hx

/-- Alternatives that share no literal, in whatever order they are looked at. -/
private theorem disjoint_perm {discriminator : String} {nodes alternatives : List (String × ShapeNode)}
    (hperm : nodes.Perm alternatives) (htree : ∀ p ∈ nodes, wellFormed p.2 = true) :
    (literalSets discriminator nodes).Pairwise (fun s t => disjointValues t.2 s.2 = true) ↔
      pairwise disjointValues (alternatives.map fun p => (discriminatorOptions discriminator p.2).getD []) = true := by
  let lits : String × ShapeNode → List Json := fun p => (discriminatorOptions discriminator p.2).getD []
  have hsymm (p q : String × ShapeNode) (hp : p ∈ nodes) (hq : q ∈ nodes) :
      disjointValues (lits p) (lits q) = disjointValues (lits q) (lits p) :=
    disjointValues_comm (distinct_literals (htree p hp)) (distinct_literals (htree q hq))
  let apart : String × ShapeNode → String × ShapeNode → Prop := fun p q =>
    disjointValues (lits p) (lits q) = true ∧ disjointValues (lits q) (lits p) = true
  have hapart {l : List (String × ShapeNode)} (hl : l.Perm nodes) :
      l.Pairwise (fun p q => disjointValues (lits p) (lits q) = true) ↔ l.Pairwise apart := by
    refine List.Pairwise.iff_of_mem fun hp hq => ?_
    show _ ↔ _ ∧ _
    rw [hsymm _ _ (hl.mem_iff.1 hp) (hl.mem_iff.1 hq), and_self]
  have hturned : (literalSets discriminator nodes).Pairwise (fun s t => disjointValues t.2 s.2 = true) ↔
      nodes.Pairwise apart := by
    rw [literalSets, List.pairwise_map]
    refine List.Pairwise.iff_of_mem fun hp hq => ?_
    show disjointValues (lits _) (lits _) = true ↔ _ ∧ _
    rw [hsymm _ _ hp hq, and_self]
  rw [hturned, hperm.pairwise_iff fun h => h.symm, ← hapart hperm.symm, pairwise_iff, List.pairwise_map]

private theorem sorted_membersByName {nodes : List (String × ShapeNode)} (hd : (nodes.map Prod.fst).Nodup) :
    ((membersByName nodes).map Prod.fst).Pairwise (· < ·) := by
  have : Std.Total fun a b : String × ShapeNode => a.1 ≤ b.1 := ⟨fun a b => le_total a.1 b.1⟩
  have : IsTrans (String × ShapeNode) fun a b => a.1 ≤ b.1 := ⟨fun _ _ _ => le_trans⟩
  have hle : (membersByName nodes).Pairwise fun a b => a.1 ≤ b.1 := List.pairwise_insertionSort _ nodes
  have hne : (membersByName nodes).Pairwise fun a b => a.1 ≠ b.1 :=
    List.pairwise_map.1 (((membersByName_perm nodes).map Prod.fst).nodup_iff.2 hd)
  rw [List.pairwise_map]
  exact (hle.and hne).imp fun h => lt_of_le_of_ne h.1 h.2

private theorem membersByName_of_sorted {nodes : List (String × ShapeNode)}
    (h : (nodes.map Prod.fst).Pairwise (· < ·)) : membersByName nodes = nodes :=
  List.Pairwise.insertionSort_eq ((List.pairwise_map.1 h).imp le_of_lt)

theorem names_of_represents {nodes : List (String × ShapeNode)} {documents : List (String × Json)}
    (h : RepresentsMembers nodes documents) : nodes.map Prod.fst = documents.map Prod.fst := by
  have hall := (representsMembers_iff.1 h).imp fun _ _ hpq => hpq.1
  rwa [← List.forall₂_eq_eq_eq, List.forall₂_map_left_iff, List.forall₂_map_right_iff]

theorem alternatives_stand {discriminator : String} {documents : List (String × Json)}
    (hnames : (documents.map Prod.fst).Nodup) (hdepth : depth ≤ maxDepth) {alternatives : List (String × ShapeNode)} :
    (∃ nodes, alternatives = membersByName nodes ∧ 2 ≤ nodes.length ∧ RepresentsMembers nodes documents ∧
        (∀ p ∈ nodes, Fits (depth + 1) p.2 ∧ admitsAbsent p.2 = false ∧
          (discriminatorOptions discriminator p.2).isSome = true) ∧
        (literalSets discriminator nodes).Pairwise (fun s t => disjointValues t.2 s.2 = true) ∧
        n' = n + nodeCountMembers nodes ∧ n' ≤ maxNodes) ↔
      (∃ written, written.Perm documents ∧ RepresentsMembers alternatives written) ∧
        (alternativesValid discriminator alternatives && alternatives.all fun p => !admitsAbsent p.2) = true ∧
        wellFormedMembers alternatives = true ∧ depth + depthMembers alternatives ≤ maxDepth ∧
        n' = n + nodeCountMembers alternatives ∧ n' ≤ maxNodes := by
  rw [alternativesValid, wellFormedMembers_iff, depthMembers_le]
  simp only [Bool.and_eq_true, decide_eq_true_iff, List.all_eq_true, Bool.not_eq_true']
  constructor
  · rintro ⟨nodes, rfl, hmany, hrep, hall, hdisjoint, hcount, hwithin⟩
    have hperm := membersByName_perm nodes
    obtain ⟨written, hwritten, hdocuments⟩ := List.perm_comp_forall₂ hperm (representsMembers_iff.1 hrep)
    have hsorted := sorted_membersByName (names_of_represents hrep ▸ hnames)
    have hall' (p : String × ShapeNode) (hp : p ∈ membersByName nodes) := hall p (hperm.mem_iff.1 hp)
    refine ⟨⟨written, hdocuments, representsMembers_iff.2 hwritten⟩, ⟨⟨⟨⟨by rwa [hperm.length_eq],
      sortedNames_iff.2 hsorted⟩, fun p hp => (hall' p hp).2.2⟩, ?_⟩, fun p hp => (hall' p hp).2.1⟩,
      fun p hp => (hall' p hp).1.tree, ⟨hdepth, fun p hp => (hall' p hp).1.depth⟩, ?_, hwithin⟩
    · exact (disjoint_perm hperm.symm fun p hp => (hall p hp).1.tree).1 hdisjoint
    · rw [hcount, nodeCountMembers_perm hperm]
  · rintro ⟨⟨written, hdocuments, hrep⟩, ⟨⟨⟨⟨hmany, hsorted⟩, hsome⟩, hdisjoint⟩, habsent⟩, htree, ⟨-, hdeep⟩, hcount,
      hwithin⟩
    have hcomp : Relation.Comp (List.Forall₂ fun (p : String × ShapeNode) (q : String × Json) =>
        p.1 = q.1 ∧ Represents p.2 q.2) List.Perm alternatives documents :=
      ⟨written, representsMembers_iff.1 hrep, hdocuments⟩
    rw [List.forall₂_comp_perm_eq_perm_comp_forall₂] at hcomp
    obtain ⟨nodes, hperm, hnodes⟩ := hcomp
    rw [sortedNames_iff] at hsorted
    have hnames' : (alternatives.map Prod.fst).Nodup := hsorted.imp fun h => ne_of_lt h
    refine ⟨nodes, ?_, by rwa [← hperm.length_eq], representsMembers_iff.2 hnodes, fun p hp => ?_, ?_, ?_, hwithin⟩
    · rw [← membersByName_eq_of_perm hnames' hperm, membersByName_of_sorted hsorted]
    · have hp := hperm.mem_iff.2 hp
      exact ⟨⟨htree p hp, hdeep p hp⟩, habsent p hp, hsome p hp⟩
    · exact (disjoint_perm hperm.symm fun p hp => htree p (hperm.mem_iff.2 hp)).2 hdisjoint
    · rw [hcount, nodeCountMembers_perm hperm]

end Kinds

end PactJanus.Shape.Kinds
