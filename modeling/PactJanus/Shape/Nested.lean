import PactJanus.Shape.Accepted

namespace PactJanus.Shape.Nested

open PactJanus.Data.Json PactJanus.Lib.Lists PactJanus.Shape.Model PactJanus.Shape.Valid PactJanus.Shape.Parse
  PactJanus.Shape.Documents PactJanus.Shape.Accepted

/-! The nodes under a node are taken where each of their documents is taken as what stands for it. -/

/-- A node that is valid where it stands. -/
structure Fits (depth : Nat) (node : ShapeNode) : Prop where
  tree : wellFormed node = true
  depth : depth + Valid.depth node ≤ maxDepth

/-- A document taken as a node, from one number of nodes to another. -/
structure Stands (position : Position) (depth : Nat) (document : Json) (n : Nat) (node : ShapeNode) (n' : Nat) :
    Prop where
  represents : Represents node document
  fits : Fits depth node
  absence : position = .notASlot → admitsAbsent node = false
  counted : n' = n + nodeCount node
  within : n' ≤ maxNodes

/-- The parser takes the document as nothing but what stands for it. -/
def Parses (document : Json) : Prop :=
  ∀ position path depth n node n', Takes (parsePlaced position path depth (parseNode document path depth)) n node n' ↔
    Stands position depth document n node n'

section Lists

variable {path : String} {depth index n n' : Nat}

theorem takes_parseItems {items : List Json} (h : ∀ v ∈ items, Parses v) (hn : n ≤ maxNodes) {nodes : List ShapeNode} :
    Takes (parseItems items path depth index) n nodes n' ↔
      List.Forall₂ Represents nodes items ∧ (∀ node ∈ nodes, Fits depth node ∧ admitsAbsent node = false) ∧
        n' = n + nodeCountEntries nodes ∧ n' ≤ maxNodes := by
  induction items generalizing n index nodes with
  | nil =>
    rw [parseItems, takes_pure, List.forall₂_nil_right_iff]
    constructor
    · rintro ⟨rfl, rfl⟩
      exact ⟨rfl, by simp, rfl, hn⟩
    · rintro ⟨rfl, -, hcount, -⟩
      exact ⟨rfl, hcount⟩
  | cons v rest ih =>
    obtain ⟨hv, hrest⟩ := List.forall_mem_cons.1 h
    rw [parseItems, takes_bind]
    constructor
    · rintro ⟨o, m, htried, hgoing⟩
      obtain ⟨node, rfl, hnode⟩ := takes_attempt.1 htried
      obtain ⟨others, m', hothers, hall⟩ := takes_bind.1 hgoing
      obtain ⟨rfl, rfl⟩ := takes_pure.1 hall
      have hstands := (hv ..).1 hnode
      obtain ⟨hrep, hfits, hcount, hwithin⟩ := (ih hrest hstands.within).1 hothers
      refine ⟨.cons hstands.represents hrep, List.forall_mem_cons.2 ⟨⟨hstands.fits, hstands.absence rfl⟩, hfits⟩, ?_,
        hwithin⟩
      rw [hcount, hstands.counted, Nat.add_assoc]
      rfl
    · rintro ⟨hrep, hfits, hcount, hwithin⟩
      cases hrep with
      | cons hnode hothers =>
        rename_i node others
        obtain ⟨⟨hfit, habsent⟩, hfits⟩ := List.forall_mem_cons.1 hfits
        rw [nodeCountEntries, ← Nat.add_assoc] at hcount
        have hstands : Stands .notASlot depth v n node (n + nodeCount node) :=
          ⟨hnode, hfit, fun _ => habsent, rfl, by omega⟩
        refine ⟨some node, _, takes_attempt.2 ⟨node, rfl, (hv ..).2 hstands⟩, ?_⟩
        exact takes_bind.2 ⟨others, n', (ih hrest hstands.within).2 ⟨hothers, hfits, hcount, hwithin⟩,
          takes_pure.2 ⟨rfl, rfl⟩⟩

theorem takes_parseEach {members : List (String × Json)} (h : ∀ p ∈ members, Parses p.2) (hn : n ≤ maxNodes)
    {nodes : List (String × ShapeNode)} :
    Takes (parseEach members path depth) n nodes n' ↔
      RepresentsMembers nodes members ∧ (∀ p ∈ nodes, Fits depth p.2) ∧
        n' = n + nodeCountMembers nodes ∧ n' ≤ maxNodes := by
  rw [representsMembers_iff]
  induction members generalizing n nodes with
  | nil =>
    rw [parseEach, takes_pure, List.forall₂_nil_right_iff]
    constructor
    · rintro ⟨rfl, rfl⟩
      exact ⟨rfl, by simp, rfl, hn⟩
    · rintro ⟨rfl, -, hcount, -⟩
      exact ⟨rfl, hcount⟩
  | cons p rest ih =>
    obtain ⟨hp, hrest⟩ := List.forall_mem_cons.1 h
    obtain ⟨name, v⟩ := p
    rw [parseEach, takes_bind]
    constructor
    · rintro ⟨o, m, htried, hgoing⟩
      obtain ⟨node, rfl, hnode⟩ := takes_attempt.1 htried
      obtain ⟨others, m', hothers, hall⟩ := takes_bind.1 hgoing
      obtain ⟨rfl, rfl⟩ := takes_pure.1 hall
      have hstands := (hp ..).1 hnode
      obtain ⟨hrep, hfits, hcount, hwithin⟩ := (ih hrest hstands.within).1 hothers
      refine ⟨.cons ⟨rfl, hstands.represents⟩ hrep, List.forall_mem_cons.2 ⟨hstands.fits, hfits⟩, ?_, hwithin⟩
      rw [hcount, hstands.counted, Nat.add_assoc]
      rfl
    · rintro ⟨hrep, hfits, hcount, hwithin⟩
      cases hrep with
      | cons hnode hothers =>
        rename_i q others
        obtain ⟨name', node⟩ := q
        obtain ⟨rfl, hnode⟩ := hnode
        obtain ⟨hfit, hfits⟩ := List.forall_mem_cons.1 hfits
        rw [nodeCountMembers, ← Nat.add_assoc] at hcount
        have hstands : Stands .objectMember depth v n node (n + nodeCount node) :=
          ⟨hnode, hfit, nofun, rfl, by omega⟩
        refine ⟨some node, _, takes_attempt.2 ⟨node, rfl, (hp ..).2 hstands⟩, ?_⟩
        exact takes_bind.2 ⟨others, n', (ih hrest hstands.within).2 ⟨hothers, hfits, hcount, hwithin⟩,
          takes_pure.2 ⟨rfl, rfl⟩⟩

/-- The literals of each alternative, by its name. -/
def literalSets (discriminator : String) (alternatives : List (String × ShapeNode)) : List (String × List Json) :=
  alternatives.map fun p => (p.1, (discriminatorOptions discriminator p.2).getD [])

theorem takes_parseEachAlternative {discriminator : String} {members : List (String × Json)}
    (h : ∀ p ∈ members, Parses p.2) (hn : n ≤ maxNodes) {nodes : List (String × ShapeNode)}
    {sets : List (String × List Json)} :
    Takes (parseEachAlternative discriminator members path depth) n (nodes, sets) n' ↔
      RepresentsMembers nodes members ∧
        (∀ p ∈ nodes, Fits depth p.2 ∧ admitsAbsent p.2 = false ∧
          (discriminatorOptions discriminator p.2).isSome = true) ∧
        sets = literalSets discriminator nodes ∧ n' = n + nodeCountMembers nodes ∧ n' ≤ maxNodes := by
  rw [representsMembers_iff]
  induction members generalizing n nodes sets with
  | nil =>
    rw [parseEachAlternative, takes_pure, List.forall₂_nil_right_iff, Prod.mk.injEq]
    constructor
    · rintro ⟨⟨rfl, rfl⟩, rfl⟩
      exact ⟨rfl, by simp, rfl, rfl, hn⟩
    · rintro ⟨rfl, -, rfl, hcount, -⟩
      exact ⟨⟨rfl, rfl⟩, hcount⟩
  | cons p rest ih =>
    obtain ⟨hp, hrest⟩ := List.forall_mem_cons.1 h
    obtain ⟨name, v⟩ := p
    rw [parseEachAlternative, takes_bind]
    constructor
    · rintro ⟨o, m, htried, hgoing⟩
      obtain ⟨node, rfl, hnode⟩ := takes_attempt.1 htried
      have hstands := (hp ..).1 hnode
      obtain ⟨o, m₁, hliterals, hothers⟩ := takes_bind.1 hgoing
      obtain ⟨options?, rfl, hoptions⟩ := takes_attempt.1 hliterals
      obtain ⟨hsome, rfl, rfl⟩ := (takes_parseDiscriminator hstands.fits.tree).1 hoptions
      obtain ⟨⟨others, othersets⟩, m₂, hrec, hall⟩ := takes_bind.1 hothers
      obtain ⟨heq, rfl⟩ := takes_pure.1 hall
      obtain ⟨rfl, rfl⟩ := Prod.mk.inj heq
      obtain ⟨hrep, hfits, rfl, hcount, hwithin⟩ := (ih hrest hstands.within).1 hrec
      obtain ⟨literals, hliterals⟩ := Option.isSome_iff_exists.1 hsome
      refine ⟨.cons ⟨rfl, hstands.represents⟩ hrep,
        List.forall_mem_cons.2 ⟨⟨hstands.fits, hstands.absence rfl, hsome⟩, hfits⟩, ?_, ?_, hwithin⟩
      · simp [literalSets, hliterals]
      · rw [hcount, hstands.counted, Nat.add_assoc]
        rfl
    · rintro ⟨hrep, hfits, rfl, hcount, hwithin⟩
      cases hrep with
      | cons hnode hothers =>
        rename_i q others
        obtain ⟨name', node⟩ := q
        obtain ⟨rfl, hnode⟩ := hnode
        obtain ⟨⟨hfit, habsent, hsome⟩, hfits⟩ := List.forall_mem_cons.1 hfits
        obtain ⟨literals, hliterals⟩ := Option.isSome_iff_exists.1 hsome
        rw [nodeCountMembers, ← Nat.add_assoc] at hcount
        have hstands : Stands .notASlot depth v n node (n + nodeCount node) :=
          ⟨hnode, hfit, fun _ => habsent, rfl, by omega⟩
        refine ⟨some node, _, takes_attempt.2 ⟨node, rfl, (hp ..).2 hstands⟩, ?_⟩
        refine takes_bind.2 ⟨some (some literals), _,
          takes_attempt.2 ⟨_, rfl, (takes_parseDiscriminator hfit.tree).2 ⟨hsome, hliterals.symm, rfl⟩⟩, ?_⟩
        refine takes_bind.2 ⟨(others, literalSets discriminator others), n',
          (ih hrest hstands.within).2 ⟨hothers, hfits, rfl, hcount, hwithin⟩, takes_pure.2 ⟨?_, rfl⟩⟩
        simp [literalSets, hliterals]

end Lists

/-! A member is parsed where its name leads. -/

section Found

variable {obj : List (String × Json)} {path : String} {depth : Nat}

private theorem lookup_found {β : Type} {name : String} {v : Json} {rest : List (String × Json)} {member : String}
    (f : Json → β) (b : β) :
    (if name = member then f v else (rest.lookup member).elim b f) = (((name, v) :: rest).lookup member).elim b f := by
  rw [lookup_cons_ite]
  by_cases h : name = member
  · rw [if_pos h, if_pos h.symm, Option.elim_some]
  · rw [if_neg h, if_neg (Ne.symm h)]

theorem childMember_eq (member : String) :
    childMember member obj path depth = (obj.lookup member).elim (return none) fun v => do
      return some (← parsePlaced .notASlot path depth (parseNode v path depth)) := by
  induction obj with
  | nil => rfl
  | cons p rest ih => rw [childMember, ih, ← lookup_found]

theorem entriesMember_eq :
    entriesMember obj path depth = (obj.lookup "entries").elim (return none) fun v => parseEntries v path depth := by
  induction obj with
  | nil => rfl
  | cons p rest ih => rw [entriesMember, ih, ← lookup_found]

theorem membersMember_eq :
    membersMember obj path depth = (obj.lookup "members").elim (return none) fun v => parseMembers v path depth := by
  induction obj with
  | nil => rfl
  | cons p rest ih => rw [membersMember, ih, ← lookup_found]

theorem alternativesMember_eq (discriminator : String) :
    alternativesMember discriminator obj path depth =
      (obj.lookup "alternatives").elim (return none) fun v => parseAlternatives discriminator v path depth := by
  induction obj with
  | nil => rfl
  | cons p rest ih => rw [alternativesMember, ih, ← lookup_found]

end Found

/-- The documents right under a document. -/
def elements : Json → List Json
  | .array items => items
  | .object members => members.map Prod.snd
  | _ => []

/-- What parses the nodes under a node. -/
def within (obj : List (String × Json)) : Under :=
  ⟨fun member path depth => childMember member obj path depth, fun path depth => entriesMember obj path depth,
    fun path depth => membersMember obj path depth,
    fun discriminator path depth => alternativesMember discriminator obj path depth⟩

/-- Every document under the members of a node, and under them, is parsed as what stands for it. -/
def ParsesUnder (obj : List (String × Json)) : Prop := ∀ p ∈ obj, Parses p.2 ∧ ∀ v ∈ elements p.2, Parses v

section Under

variable {obj : List (String × Json)} {path member operator : String} {depth n n' : Nat}

theorem takes_child (h : ParsesUnder obj) {o : Option ShapeNode} :
    Takes ((within obj).child member path depth) n o n' ↔
      (obj.lookup member = none ∧ o = none ∧ n' = n) ∨
        ∃ v node, obj.lookup member = some v ∧ o = some node ∧ Stands .notASlot depth v n node n' := by
  show Takes (childMember member obj path depth) n o n' ↔ _
  rw [childMember_eq]
  cases hlookup : obj.lookup member with
  | none =>
    rw [Option.elim_none, takes_pure]
    simp
  | some v =>
    have hv := (h _ (mem_of_lookup hlookup)).1
    rw [Option.elim_some, takes_bind]
    constructor
    · rintro ⟨node, m, hnode, hsome⟩
      obtain ⟨rfl, rfl⟩ := takes_pure.1 hsome
      exact Or.inr ⟨v, node, rfl, rfl, (hv ..).1 hnode⟩
    · rintro (⟨hnone, -⟩ | ⟨v', node, hfound, rfl, hstands⟩)
      · exact absurd hnone (by simp)
      · obtain rfl := Option.some.inj hfound
        exact ⟨node, n', (hv ..).2 hstands, takes_pure.2 ⟨rfl, rfl⟩⟩

theorem takes_requireChild (h : ParsesUnder obj) {node : ShapeNode} :
    Takes (requireChild (within obj) path depth member operator) n node n' ↔
      ∃ v, obj.lookup member = some v ∧ Stands .notASlot (depth + 1) v n node n' := by
  rw [requireChild, takes_bind]
  constructor
  · rintro ⟨o, m, hchild, hneeded⟩
    obtain ⟨rfl, rfl⟩ := takes_needed.1 hneeded
    rcases (takes_child h).1 hchild with ⟨-, hnone, -⟩ | ⟨v, node', hlookup, hsome, hstands⟩
    · exact absurd hnone (by simp)
    · obtain rfl := Option.some.inj hsome
      exact ⟨v, hlookup, hstands⟩
  · rintro ⟨v, hlookup, hstands⟩
    exact ⟨some node, n', (takes_child h).2 (Or.inr ⟨v, node, hlookup, rfl, hstands⟩), takes_needed.2 ⟨rfl, rfl⟩⟩

theorem takes_neededEntries (h : ParsesUnder obj) (hn : n ≤ maxNodes) {nodes : List ShapeNode} :
    Takes (do needed "entries" operator path (← (within obj).entries path depth)) n nodes n' ↔
      ∃ items, obj.lookup "entries" = some (.array items) ∧ List.Forall₂ Represents nodes items ∧
        (∀ node ∈ nodes, Fits (depth + 1) node ∧ admitsAbsent node = false) ∧
        n' = n + nodeCountEntries nodes ∧ n' ≤ maxNodes := by
  have hentries : (within obj).entries path depth = entriesMember obj path depth := rfl
  rw [takes_bind, hentries, entriesMember_eq]
  constructor
  · rintro ⟨o, m, hfound, hneeded⟩
    obtain ⟨rfl, rfl⟩ := takes_needed.1 hneeded
    cases hlookup : obj.lookup "entries" with
    | none =>
      rw [hlookup, Option.elim_none, takes_pure] at hfound
      exact absurd hfound.1 (by simp)
    | some v =>
      rw [hlookup, Option.elim_some] at hfound
      cases v with
      | array items =>
        obtain ⟨nodes', m, hitems, hsome⟩ := takes_bind.1 hfound
        obtain ⟨hsame, rfl⟩ := takes_pure.1 hsome
        obtain rfl := Option.some.inj hsame
        exact ⟨items, rfl, (takes_parseItems (h _ (mem_of_lookup hlookup)).2 hn).1 hitems⟩
      | _ => exact absurd hfound takes_fail
  · rintro ⟨items, hlookup, hall⟩
    rw [hlookup, Option.elim_some]
    refine ⟨some nodes, n', takes_bind.2 ⟨nodes, n', ?_, takes_pure.2 ⟨rfl, rfl⟩⟩, takes_needed.2 ⟨rfl, rfl⟩⟩
    exact (takes_parseItems (h _ (mem_of_lookup hlookup)).2 hn).2 hall

theorem takes_neededMembers (h : ParsesUnder obj) (hn : n ≤ maxNodes) {nodes : List (String × ShapeNode)} :
    Takes (do needed "members" operator path (← (within obj).members path depth)) n nodes n' ↔
      ∃ members, obj.lookup "members" = some (.object members) ∧ RepresentsMembers nodes members ∧
        (∀ p ∈ nodes, Fits (depth + 1) p.2) ∧ n' = n + nodeCountMembers nodes ∧ n' ≤ maxNodes := by
  have hmembers : (within obj).members path depth = membersMember obj path depth := rfl
  rw [takes_bind, hmembers, membersMember_eq]
  constructor
  · rintro ⟨o, m, hfound, hneeded⟩
    obtain ⟨rfl, rfl⟩ := takes_needed.1 hneeded
    cases hlookup : obj.lookup "members" with
    | none =>
      rw [hlookup, Option.elim_none, takes_pure] at hfound
      exact absurd hfound.1 (by simp)
    | some v =>
      rw [hlookup, Option.elim_some] at hfound
      cases v with
      | object members =>
        obtain ⟨nodes', m, heach, hsome⟩ := takes_bind.1 hfound
        obtain ⟨hsame, rfl⟩ := takes_pure.1 hsome
        obtain rfl := Option.some.inj hsame
        have hunder := (h _ (mem_of_lookup hlookup)).2
        exact ⟨members, rfl, (takes_parseEach (fun p hp => hunder _ (List.mem_map_of_mem hp)) hn).1 heach⟩
      | _ => exact absurd hfound takes_fail
  · rintro ⟨members, hlookup, hall⟩
    rw [hlookup, Option.elim_some]
    have hunder := (h _ (mem_of_lookup hlookup)).2
    refine ⟨some nodes, n', takes_bind.2 ⟨nodes, n', ?_, takes_pure.2 ⟨rfl, rfl⟩⟩, takes_needed.2 ⟨rfl, rfl⟩⟩
    exact (takes_parseEach (fun p hp => hunder _ (List.mem_map_of_mem hp)) hn).2 hall

theorem takes_neededAlternatives (h : ParsesUnder obj) (hn : n ≤ maxNodes) {discriminator : String}
    {nodes : List (String × ShapeNode)} {sets : List (String × List Json)} :
    Takes (do needed "alternatives" operator path (← (within obj).alternatives discriminator path depth)) n
        (nodes, sets) n' ↔
      ∃ members, obj.lookup "alternatives" = some (.object members) ∧ 2 ≤ nodes.length ∧
        RepresentsMembers nodes members ∧
        (∀ p ∈ nodes, Fits (depth + 1) p.2 ∧ admitsAbsent p.2 = false ∧
          (discriminatorOptions discriminator p.2).isSome = true) ∧
        sets = literalSets discriminator nodes ∧ n' = n + nodeCountMembers nodes ∧ n' ≤ maxNodes := by
  have halternatives : (within obj).alternatives discriminator path depth =
      alternativesMember discriminator obj path depth := rfl
  rw [takes_bind, halternatives, alternativesMember_eq]
  have hlength {members : List (String × Json)} (hrep : RepresentsMembers nodes members) :
      nodes.length = members.length := (representsMembers_iff.1 hrep).length_eq
  constructor
  · rintro ⟨o, m, hfound, hneeded⟩
    obtain ⟨rfl, rfl⟩ := takes_needed.1 hneeded
    cases hlookup : obj.lookup "alternatives" with
    | none =>
      rw [hlookup, Option.elim_none, takes_pure] at hfound
      exact absurd hfound.1 (by simp)
    | some v =>
      rw [hlookup, Option.elim_some] at hfound
      cases v with
      | object members =>
        obtain ⟨hmany, hthen⟩ := takes_check.1 hfound
        obtain ⟨found, m, heach, hsome⟩ := takes_bind.1 hthen
        obtain ⟨hsame, rfl⟩ := takes_pure.1 hsome
        obtain rfl := Option.some.inj hsame
        have hunder := (h _ (mem_of_lookup hlookup)).2
        have hall := (takes_parseEachAlternative (fun p hp => hunder _ (List.mem_map_of_mem hp)) hn).1 heach
        exact ⟨members, rfl, by rw [hlength hall.1]; exact Nat.le_of_not_lt hmany, hall⟩
      | _ => exact absurd hfound takes_fail
  · rintro ⟨members, hlookup, hmany, hall⟩
    rw [hlookup, Option.elim_some]
    have hunder := (h _ (mem_of_lookup hlookup)).2
    refine ⟨some (nodes, sets), n', takes_check.2 ⟨?_, ?_⟩, takes_needed.2 ⟨rfl, rfl⟩⟩
    · rw [← hlength hall.1]
      exact Nat.not_lt.2 hmany
    · refine takes_bind.2 ⟨(nodes, sets), n', ?_, takes_pure.2 ⟨rfl, rfl⟩⟩
      exact (takes_parseEachAlternative (fun p hp => hunder _ (List.mem_map_of_mem hp)) hn).2 hall

end Under

end PactJanus.Shape.Nested
