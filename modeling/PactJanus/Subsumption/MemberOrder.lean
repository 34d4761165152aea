import PactJanus.Shape.MemberOrder
import PactJanus.Subsumption.Identity
import PactJanus.Subsumption.Weight

namespace PactJanus.Subsumption.MemberOrder

open PactJanus.Data.Json PactJanus.Lib PactJanus.Lib.Lists PactJanus.Shape PactJanus.Shape.Model PactJanus.Shape.Valid
  PactJanus.Shape.MemberOrder PactJanus.Shape.Nodes PactJanus.Shape.VariantSpace PactJanus.Plan PactJanus.Plan.Model
  PactJanus.Plan.Compile PactJanus.Subsumption.Findings PactJanus.Subsumption.Phrases PactJanus.Subsumption.Compare
  PactJanus.Subsumption.Compare.Walk PactJanus.Subsumption.Weight

/-! The order of an object's members in the plan of a shape, and in a comparison with another. -/

variable {α β : Type}

theorem lookup_ordered (key : String) (members : List (String × ShapeNode)) :
    (membersByName (members.map orderedMember)).lookup key = (members.lookup key).map ordered := by
  rw [lookup_membersByName]
  exact lookup_map ordered

/-! The plan. -/

section Plan

private theorem objectMembers_ordered (S : ShapeNode) :
    objectMembers (ordered S) = (objectMembers S).map fun members => membersByName (members.map orderedMember) := by
  obtain ⟨e, g, k⟩ := S
  cases k with
  | object members => rw [ordered_object]; rfl
  | array entries => rw [ordered_array]; rfl
  | eachEntry keys values min max => rw [ordered_eachEntry]; rfl
  | contains entries => rw [ordered_contains]; rfl
  | oneOf discriminator alternatives default => rw [ordered_oneOf]; rfl
  | nullable of =>
    obtain ⟨e', g', k'⟩ := of
    cases k' with
    | object members => rw [ordered_nullable, ordered_object]; rfl
    | _ => rfl
  | _ => rfl

theorem discriminatorLiterals_ordered (alternative : ShapeNode) (discriminator : String) :
    discriminatorLiterals (ordered alternative) discriminator = discriminatorLiterals alternative discriminator := by
  unfold discriminatorLiterals
  rw [objectMembers_ordered]
  cases objectMembers alternative with
  | none => rfl
  | some members =>
    rw [Option.map_some, Option.bind_some, Option.bind_some, lookup_ordered]
    rcases members.lookup discriminator with _ | ⟨e, g, k⟩
    · rfl
    · cases k <;> rfl

/-- A plan visits members in name order, whatever the order they are declared in. -/
theorem compileShape_ordered (S : ShapeNode) (ctx : Ctx) : compileShape (ordered S) ctx = compileShape S ctx := by
  induction S generalizing ctx with
  | leaf e g k hk => rw [ordered_leaf e g hk]
  | object e g members ih =>
    have hmap : compileMembers (members.map orderedMember) ctx = compileMembers members ctx := by
      rw [compileMembers_eq, compileMembers_eq, List.map_map]
      refine List.map_congr_left fun p hp => congrArg (Prod.mk p.1) ?_
      exact congrArg (Node.container _) (ih p hp _)
    have hkeys : compileMembers (membersByName (members.map orderedMember)) ctx =
        membersByName (compileMembers (members.map orderedMember) ctx) := by
      rw [compileMembers_eq, compileMembers_eq]
      exact membersByName_map (fun p : String × ShapeNode =>
        (p.1, Node.container (ctx.member p.1).label (compileShape p.2 (ctx.member p.1)))) (fun _ => rfl) _ |>.symm
    rw [ordered_object, compileShape, compileShape, hkeys, membersByName_idem, hmap]
  | array e g entries ih =>
    rw [ordered_array, compileShape, compileShape, compileEntries_eq, compileEntries_eq, List.length_map,
      mapIdx_map_congr fun s hs i => by rw [ih s hs]]
  | eachLike e g items min max ih => rw [ordered_eachLike, compileShape, compileShape, ih]
  | eachEntry e g keys values min max ihk ihv =>
    rw [ordered_eachEntry, compileShape, compileShape, ihv]
    cases keys with
    | none => rfl
    | some keys => rw [Option.map_some, compileKeys, compileKeys, ihk keys rfl]
  | contains e g entries ih =>
    rw [ordered_contains, compileShape, compileShape, compileContains_eq, compileContains_eq,
      mapIdx_map_congr fun s hs i => by rw [ih s hs]]
  | optional e g of ih => rw [ordered_optional, compileShape, compileShape, ih]
  | nullable e g of ih => rw [ordered_nullable, compileShape, compileShape, ih]
  | oneOf e g discriminator alternatives default ih =>
    have halternatives : compileAlternatives (alternatives.map orderedMember) discriminator ctx =
        compileAlternatives alternatives discriminator ctx := by
      rw [compileAlternatives_eq, compileAlternatives_eq, List.map_map]
      refine List.map_congr_left fun p hp => ?_
      change (⟨p.1, discriminatorLiterals (ordered p.2) discriminator, _⟩ : Compile.Alternative) = _
      rw [discriminatorLiterals_ordered]
      exact congrArg _ (ih p hp _)
    rw [ordered_oneOf, compileShape, compileShape, halternatives]

theorem plan_ordered (slot : Verdict.Slot) (S : ShapeNode) (assignment : Assignment) :
    slot.plan (ordered S) assignment = slot.plan S assignment := by
  unfold Verdict.Slot.plan compile
  simp only [List.map_cons, List.map_nil, compileShape_ordered]

end Plan

/-! The questions a comparison asks of one node. -/

section Nodes

open PactJanus.Subsumption.Classes hiding discriminatorLiterals

theorem kind_ordered (S : ShapeNode) : (ordered S).kind = orderedKind S.kind := by
  cases S
  rfl

theorem example_ordered (S : ShapeNode) : (ordered S).example? = S.example? := by
  cases S
  rfl

theorem operator_ordered (S : ShapeNode) : operator (ordered S) = operator S := by
  obtain ⟨e, g, k⟩ := S
  cases k <;> rfl

theorem describe_ordered (S : ShapeNode) : describe (ordered S) = describe S := by
  induction S with
  | leaf e g k hk => rw [ordered_leaf e g hk]
  | array e g entries ih =>
    rw [ordered_array]
    exact congrArg (fun n : Nat => "an array of exactly " ++ n.repr ++ " elements") (List.length_map _)
  | contains e g entries ih =>
    rw [ordered_contains]
    exact congrArg (fun n : Nat => "an array containing " ++ n.repr ++ " matched elements") (List.length_map _)
  | optional e g of ih => exact congrArg (· ++ ", or absent") ih
  | nullable e g of ih => exact congrArg (· ++ ", or null") ih
  | oneOf e g discriminator alternatives default ih =>
    rw [ordered_oneOf]
    exact congrArg (fun names => "one of the alternatives " ++ join names) List.map_map
  | _ => rfl

theorem hasChildren_ordered (S : ShapeNode) : hasChildren (ordered S) = hasChildren S := by
  obtain ⟨e, g, k⟩ := S
  cases k <;> rfl

theorem isOpaque_ordered (S : ShapeNode) : isOpaque (ordered S) = isOpaque S := by
  obtain ⟨e, g, k⟩ := S
  cases k <;> rfl

theorem isConservative_ordered (k : ShapeKind) : isConservative (orderedKind k) = isConservative k := by
  cases k <;> rfl

theorem decompose_ordered (S : ShapeNode) :
    decompose (ordered S) = ⟨(decompose S).absent, (decompose S).null, (decompose S).rest.map ordered⟩ := by
  induction S with
  | leaf e g k hk =>
    rw [ordered_leaf e g hk]
    cases k with
    | kind k => cases k <;> rfl
    | equality =>
      rw [decompose]
      split <;> rfl
    | anyOf options =>
      rw [decompose]
      split
      · dsimp only
        split <;> rfl
      · rfl
    | _ => first | rfl | cases hk
  | optional e g of ih => rw [ordered_optional, decompose, decompose, ih]
  | nullable e g of ih => rw [ordered_nullable, decompose, decompose, ih]
  | _ => rfl

theorem classes_ordered (S : ShapeNode) : classes (ordered S) = classes S := by
  obtain ⟨e, g, k⟩ := S
  cases k with
  | oneOf discriminator alternatives default =>
    have hnull : (alternatives.map orderedMember).any (fun p => (decompose p.2).null) =
        alternatives.any fun p => (decompose p.2).null := by
      rw [List.any_map]
      exact any_congr_mem fun p _ => by
        rw [Function.comp_apply, orderedMember_snd, decompose_ordered]
    rw [ordered_oneOf, classes, classes, ShapeNode.kind_mk, ShapeNode.kind_mk]
    exact congrArg (fun null : Bool => some (Class.object :: if null then [Class.null] else [])) hnull
  | _ => rfl

theorem disjointClasses_ordered (p c : ShapeNode) : disjointClasses (ordered p) (ordered c) = disjointClasses p c := by
  unfold disjointClasses
  rw [classes_ordered, classes_ordered]

theorem desugared_ordered (S : ShapeNode) : (desugar (ordered S)).getD (ordered S) = ordered ((desugar S).getD S) := by
  obtain ⟨e, g, k⟩ := S
  cases k with
  | type =>
    cases e with
    | none => rfl
    | some x =>
      rw [ordered_leaf _ _ rfl]
      unfold desugar
      simp only [ShapeNode.kind_mk, ShapeNode.example?_mk]
      split
      · rfl
      · cases x.value <;> rfl
  | _ => rfl

theorem admitsAnythingOrAbsence_ordered (S : ShapeNode) :
    admitsAnythingOrAbsence (ordered S) = admitsAnythingOrAbsence S := by
  unfold admitsAnythingOrAbsence
  rw [decompose_ordered]
  rcases (decompose S).rest with _ | ⟨e, g, k⟩
  · rfl
  · cases k <;> rfl

theorem admitsOnlyNonEmpty_ordered (S : ShapeNode) : admitsOnlyNonEmpty (ordered S) = admitsOnlyNonEmpty S := by
  obtain ⟨e, g, k⟩ := S
  cases k with
  | object members =>
    have hmembers : (membersByName (members.map orderedMember)).any (fun p => !(decompose p.2).absent) =
        members.any fun p => !(decompose p.2).absent := by
      rw [(membersByName_perm _).any_eq, List.any_map]
      exact any_congr_mem fun p _ => by
        rw [Function.comp_apply, orderedMember_snd, decompose_ordered]
    rw [ordered_object]
    exact congrArg some hmembers
  | array entries =>
    rw [ordered_array]
    cases entries <;> rfl
  | _ => rfl

theorem enumerate_ordered (S : ShapeNode) : enumerate (ordered S) = enumerate S := by
  obtain ⟨e, g, k⟩ := S
  cases k with
  | array entries =>
    rw [ordered_array]
    cases entries <;> rfl
  | _ => rfl

theorem admitsValue_ordered (libraries : Result.Libraries) (S : ShapeNode) (v : Json) :
    admitsValue libraries (ordered S) v = admitsValue libraries S v := by
  induction S with
  | leaf e g k hk => rw [ordered_leaf e g hk]
  | optional e g of ih => rw [ordered_optional, admitsValue, admitsValue, ih]
  | nullable e g of ih => rw [ordered_nullable, admitsValue, admitsValue, ih]
  | _ => rfl

theorem matchedBy_ordered (libraries : Result.Libraries) (S : ShapeNode) (v : Json) :
    matchedBy libraries (ordered S) v = matchedBy libraries S v := by
  unfold matchedBy Verdict.Slot.verdict Verdict.Slot.executed
  rw [plan_ordered]

theorem sameMembers_eq (ps cs : List (String × ShapeNode)) :
    sameMembers ps cs = ps.all fun p => (cs.lookup p.1).any (sameAdmits p.2) := by
  induction ps with
  | nil => rfl
  | cons p rest ih =>
    rw [sameMembers, List.all_cons, ih]
    cases cs.lookup p.1 <;> rfl

private theorem sameEntries_map {f : ShapeNode → ShapeNode} {ps cs : List ShapeNode}
    (h : ∀ p ∈ ps, ∀ c, sameAdmits (f p) (f c) = sameAdmits p c) :
    sameEntries (ps.map f) (cs.map f) = sameEntries ps cs := by
  induction ps generalizing cs with
  | nil => rfl
  | cons p rest ih =>
    cases cs with
    | nil => rfl
    | cons c cs =>
      rw [List.map_cons, List.map_cons, sameEntries, sameEntries, h p List.mem_cons_self,
        ih fun q hq => h q (List.mem_cons_of_mem _ hq)]

private theorem sameAlternatives_map {ps cs : List (String × ShapeNode)}
    (h : ∀ p ∈ ps, ∀ c, sameAdmits (ordered p.2) (ordered c) = sameAdmits p.2 c) :
    sameAlternatives (ps.map orderedMember) (cs.map orderedMember) = sameAlternatives ps cs := by
  induction ps generalizing cs with
  | nil => rfl
  | cons p rest ih =>
    cases cs with
    | nil => rfl
    | cons c cs =>
      rw [List.map_cons, List.map_cons]
      change (p.1 == c.1 && sameAdmits (ordered p.2) (ordered c.2) && sameAlternatives _ _) =
        (p.1 == c.1 && sameAdmits p.2 c.2 && sameAlternatives rest cs)
      rw [h p List.mem_cons_self, ih fun q hq => h q (List.mem_cons_of_mem _ hq)]

/-- Two nodes are the same in what they admit whatever order their members are declared in. -/
theorem sameAdmits_ordered (p c : ShapeNode) : sameAdmits (ordered p) (ordered c) = sameAdmits p c := by
  induction p generalizing c with
  | leaf e g k hk =>
    obtain ⟨e', g', k'⟩ := c
    rw [ordered_leaf e g hk, Identity.sameAdmits_leaf hk]
    refine (Identity.sameAdmits_leaf hk).trans ?_
    cases k <;> cases k' <;> rfl
  | object e g ps ih =>
    obtain ⟨e', g', k'⟩ := c
    cases k' with
    | object cs =>
      have hmembers : (membersByName (ps.map orderedMember)).all (fun p =>
          ((membersByName (cs.map orderedMember)).lookup p.1).any (sameAdmits p.2)) =
          ps.all fun p => (cs.lookup p.1).any (sameAdmits p.2) := by
        rw [(membersByName_perm _).all_eq, List.all_map]
        refine all_congr_mem fun p hp => ?_
        rw [Function.comp_apply, orderedMember_fst, orderedMember_snd, lookup_ordered, Option.any_map]
        cases cs.lookup p.1 with
        | none => rfl
        | some c => exact ih p hp c
      have hlength (members : List (String × ShapeNode)) :
          (membersByName (members.map orderedMember)).length = members.length :=
        (membersByName_perm _).length_eq.trans (List.length_map _)
      rw [ordered_object, ordered_object, sameAdmits, sameAdmits, sameMembers_eq, sameMembers_eq, hmembers, hlength,
        hlength]
    | _ => rfl
  | array e g ps ih =>
    obtain ⟨e', g', k'⟩ := c
    cases k' with
    | array cs =>
      rw [ordered_array, ordered_array, sameAdmits, sameAdmits, List.length_map, List.length_map, sameEntries_map ih]
    | _ => rfl
  | eachLike e g items min max ih =>
    obtain ⟨e', g', k'⟩ := c
    cases k' with
    | eachLike => rw [ordered_eachLike, ordered_eachLike, sameAdmits, sameAdmits, ih]
    | _ => rfl
  | eachEntry e g keys values min max ihk ihv =>
    obtain ⟨e', g', k'⟩ := c
    cases k' with
    | eachEntry keys' values' min' max' =>
      have hkeys : sameKeys (keys.map ordered) (keys'.map ordered) = sameKeys keys keys' := by
        cases keys <;> cases keys' <;> first | rfl | exact ihk _ rfl _
      rw [ordered_eachEntry, ordered_eachEntry, sameAdmits, sameAdmits, ihv, hkeys]
    | _ => rfl
  | contains e g ps ih =>
    obtain ⟨e', g', k'⟩ := c
    cases k' with
    | contains cs =>
      rw [ordered_contains, ordered_contains, sameAdmits, sameAdmits, List.length_map, List.length_map,
        sameEntries_map ih]
    | _ => rfl
  | optional e g of ih =>
    obtain ⟨e', g', k'⟩ := c
    cases k' with
    | optional => exact ih _
    | _ => rfl
  | nullable e g of ih =>
    obtain ⟨e', g', k'⟩ := c
    cases k' with
    | nullable => exact ih _
    | _ => rfl
  | oneOf e g discriminator ps default ih =>
    obtain ⟨e', g', k'⟩ := c
    cases k' with
    | oneOf discriminator' cs default' =>
      rw [ordered_oneOf, ordered_oneOf, sameAdmits, sameAdmits, List.length_map, List.length_map,
        sameAlternatives_map ih]
    | _ => rfl

end Nodes

/-! The alternatives that literals lead to. -/

section Alternatives

open PactJanus.Subsumption.Classes

theorem literals_ordered (alternative : ShapeNode) (discriminator : String) :
    Classes.discriminatorLiterals (ordered alternative) discriminator =
      Classes.discriminatorLiterals alternative discriminator := by
  unfold Classes.discriminatorLiterals
  rw [decompose_ordered]
  rcases (decompose alternative).rest with _ | ⟨e, g, k⟩
  · rfl
  · cases k with
    | object members =>
      rw [Option.map_some, ordered_object]
      dsimp only
      rw [lookup_ordered]
      rcases members.lookup discriminator with _ | ⟨e, g, k⟩
      · rfl
      · cases k <;> rfl
    | _ => rfl

/-- A literal's key leads to the same alternatives. -/
theorem byDiscriminator_ordered (alternatives : List (String × ShapeNode)) (discriminator : String) :
    byDiscriminator (alternatives.map orderedMember) discriminator =
      (byDiscriminator alternatives discriminator).map fun q => (q.1, orderedMember q.2) := by
  have hentries : ((alternatives.map orderedMember).flatMap fun p =>
      (Classes.discriminatorLiterals p.2 discriminator).map fun literal => (literalKey literal, p)) =
      (alternatives.flatMap fun p =>
        (Classes.discriminatorLiterals p.2 discriminator).map fun literal => (literalKey literal, p)).map
          fun q => (q.1, orderedMember q.2) := by
    rw [List.flatMap_map, List.map_flatMap]
    refine List.flatMap_congr fun p _ => ?_
    rw [orderedMember_snd, literals_ordered, List.map_map]
    rfl
  rw [byDiscriminator, hentries]
  exact SortedMap.foldl_insert_map orderedMember _ []

theorem matchedAlternative_ordered (alternatives : List (String × ShapeNode)) (discriminator : String)
    (literals : List Json) :
    matchedAlternative (byDiscriminator (alternatives.map orderedMember) discriminator) literals =
      (matchedAlternative (byDiscriminator alternatives discriminator) literals).map orderedMember := by
  rw [byDiscriminator_ordered]
  have hnames (byLiteral : List (String × (String × ShapeNode))) :
      matchedNames (byLiteral.map fun q => (q.1, orderedMember q.2)) literals = matchedNames byLiteral literals := by
    unfold matchedNames
    congr 1
    refine List.filterMap_congr fun literal _ => ?_
    rw [lookup_map orderedMember, Option.map_map]
    rfl
  unfold matchedAlternative
  rw [hnames]
  split
  · rename_i name _
    have hswap : ((byDiscriminator alternatives discriminator).map fun q => (q.1, orderedMember q.2)).map Prod.snd =
        ((byDiscriminator alternatives discriminator).map Prod.snd).map orderedMember := by
      rw [List.map_map, List.map_map]
      rfl
    rw [hswap, List.find?_map]
    rfl
  · rfl

end Alternatives

/-! The walk. -/

section Walk

open PactJanus.Subsumption.Classes

variable {walk : Walk} {node : NodeWalk} (p c : ShapeNode) (at' : String)

theorem plainExample_ordered (S : ShapeNode) : plainExample (ordered S) = plainExample S := by
  unfold plainExample
  rw [example_ordered]

theorem literalSet_ordered (options : List Json) :
    literalSet (ordered p) (ordered c) options at' = literalSet p c options at' := by
  unfold literalSet
  rw [enumerate_ordered, describe_ordered, describe_ordered]

theorem kinds_ordered : kinds (ordered p) (ordered c) at' = kinds p c at' := by
  unfold kinds
  rw [describe_ordered, describe_ordered, operator_ordered, operator_ordered, kind_ordered, kind_ordered]
  generalize p.kind = pk
  generalize c.kind = ck
  cases pk with
  | kind k => cases k <;> cases ck <;> rfl
  | semver => cases ck <;> rfl
  | _ => rfl

theorem providerLiterals_ordered (options : List Json) :
    walk.providerLiterals (ordered p) (ordered c) options at' = walk.providerLiterals p c options at' := by
  have hadmits : admitsValue walk.libraries (ordered c) = admitsValue walk.libraries c :=
    funext (admitsValue_ordered walk.libraries c)
  unfold providerLiterals
  rw [hadmits, describe_ordered, describe_ordered, operator_ordered, kind_ordered]
  cases c.kind <;> rfl

theorem literals_walk_ordered : walk.literals (ordered p) (ordered c) at' = walk.literals p c at' := by
  have hadmits : admitsExample walk.libraries (ordered c) = admitsExample walk.libraries c := by
    funext e
    unfold admitsExample
    rw [admitsValue_ordered]
  unfold Walk.literals
  simp only [hadmits, describe_ordered, operator_ordered, kind_ordered, example_ordered, plainExample_ordered,
    literalSet_ordered, kinds_ordered, providerLiterals_ordered]
  generalize p.kind = pk
  generalize c.kind = ck
  cases pk with
  | equality => rfl
  | anyOf options => rfl
  | _ => cases ck <;> rfl

theorem emptiness_ordered : walk.emptiness (ordered p) (ordered c) at' = walk.emptiness p c at' := by
  unfold emptiness
  rw [admitsOnlyNonEmpty_ordered, describe_ordered, describe_ordered, operator_ordered, kind_ordered, kind_ordered,
    literals_walk_ordered]
  generalize p.kind = pk
  generalize c.kind = ck
  cases ck with
  | notEmpty => rfl
  | _ => cases pk <;> rfl

theorem conservative_ordered : walk.conservative (ordered p) (ordered c) at' = walk.conservative p c at' := by
  have hreason : conservativeReason (orderedKind p.kind) (orderedKind c.kind) = conservativeReason p.kind c.kind := by
    generalize p.kind = pk
    generalize c.kind = ck
    cases pk with
    | _ => cases ck <;> rfl
  have hmatched : matchedBy walk.libraries (ordered c) = matchedBy walk.libraries c :=
    funext (matchedBy_ordered walk.libraries c)
  have hstring (k : ShapeKind) : stringValued (orderedKind k) = stringValued k := by cases k <;> rfl
  unfold conservative
  simp only [kind_ordered, hreason, hmatched, hstring, isConservative_ordered, enumerate_ordered, describe_ordered,
    operator_ordered]
  cases c.kind <;> rfl

/-- A walk that asks nothing of the order members are declared in. -/
def Unordered (node : NodeWalk) : Prop := ∀ p c at', node (ordered p) (ordered c) at' = node p c at'

variable {p c : ShapeNode} {at' : String} (hnode : Unordered node)
include hnode

theorem member_ordered (ps : List (String × ShapeNode)) (m : String × ShapeNode) :
    member node (membersByName (ps.map orderedMember)) (orderedMember m) at' = member node ps m at' := by
  unfold member
  rw [orderedMember_fst, lookup_ordered, orderedMember_snd, admitsAnythingOrAbsence_ordered, describe_ordered]
  cases ps.lookup m.1 with
  | none => rfl
  | some p => exact hnode p m.2 _

theorem oneOfPair_ordered (pd : String) (ps : List (String × ShapeNode)) (cd : String) (cs : List (String × ShapeNode)) :
    oneOfPair node (ordered p) (ordered c) pd (ps.map orderedMember) cd (cs.map orderedMember) at' =
      oneOfPair node p c pd ps cd cs at' := by
  unfold oneOfPair
  split
  · rw [describe_ordered, describe_ordered]
  · dsimp only
    rw [List.map_map]
    refine congrArg Out.all (List.map_congr_left fun alternative _ => ?_)
    dsimp only [Function.comp_apply, orderedMember_fst, orderedMember_snd]
    rw [literals_ordered, matchedAlternative_ordered, describe_ordered, describe_ordered]
    cases matchedAlternative (byDiscriminator cs cd) (Classes.discriminatorLiterals alternative.2 pd) with
    | none => rfl
    | some matched => exact hnode alternative.2 matched.2 _

theorem insideAlternative_ordered (discriminator : String) (alternatives : List (String × ShapeNode)) :
    insideAlternative node (ordered p) (ordered c) discriminator (alternatives.map orderedMember) at' =
      insideAlternative node p c discriminator alternatives at' := by
  unfold insideAlternative
  rw [literals_ordered, matchedAlternative_ordered, describe_ordered, describe_ordered]
  cases matchedAlternative (byDiscriminator alternatives discriminator) (Classes.discriminatorLiterals p discriminator) with
  | none => rfl
  | some matched => exact hnode p matched.2 _

private theorem object_ordered (ps cs : List (String × ShapeNode)) :
    Out.all ((membersByName (membersByName (cs.map orderedMember))).map fun m =>
        member node (membersByName (ps.map orderedMember)) m at') =
      Out.all ((membersByName cs).map fun m => member node ps m at') := by
  rw [membersByName_idem, membersByName_map orderedMember (fun _ => rfl) cs, List.map_map]
  exact congrArg Out.all (List.map_congr_left fun m _ => member_ordered hnode ps m)

private theorem entries_ordered (pairs : List (ShapeNode × ShapeNode)) :
    (pairs.map fun pair => (ordered pair.1, ordered pair.2)).mapIdx
        (fun index pair => node pair.1 pair.2 (Path.arrayIndex at' index)) =
      pairs.mapIdx fun index pair => node pair.1 pair.2 (Path.arrayIndex at' index) :=
  mapIdx_map_congr fun pair _ _ => hnode pair.1 pair.2 _

theorem collections_ordered : walk.collections node (ordered p) (ordered c) at' = walk.collections node p c at' := by
  have hemptiness : walk.emptiness (ordered p) (ordered c) at' = walk.emptiness p c at' := emptiness_ordered p c at'
  have hp := describe_ordered p
  have hc := describe_ordered c
  have hany : ordered anyNode = anyNode := rfl
  obtain ⟨pe, pg, pk⟩ := p
  obtain ⟨ce, cg, ck⟩ := c
  cases pk with
  | object ps =>
    cases ck with
    | object cs =>
      rw [ordered_object, ordered_object]
      exact object_ordered hnode ps cs
    | _ => exact hemptiness
  | array ps =>
    cases ck with
    | array cs =>
      unfold collections
      rw [hp, hc]
      rw [ordered_array, ordered_array]
      dsimp only [ShapeNode.kind_mk]
      rw [List.length_map, List.length_map, List.zip_map]
      split
      · rfl
      · exact congrArg Out.all (entries_ordered hnode (ps.zip cs))
    | eachLike items min max =>
      unfold collections
      rw [ordered_array, ordered_eachLike]
      dsimp only [ShapeNode.kind_mk]
      rw [List.length_map, mapIdx_map_congr (l := ps) fun entry _ i => hnode entry items (Path.arrayIndex at' i)]
    | _ => exact hemptiness
  | eachLike items min max =>
    cases ck with
    | array cs =>
      unfold collections
      rw [ordered_array, ordered_eachLike]
      dsimp only [ShapeNode.kind_mk]
      rw [List.length_map, mapIdx_map_congr (l := cs) fun entry _ i => hnode items entry (Path.arrayIndex at' i)]
    | eachLike items' min' max' =>
      exact congrArg (Out.and (cardinality min max min' max' at' "elements")) (hnode items items' (Path.eachLikeItem at'))
    | _ => exact hemptiness
  | eachEntry keys values min max =>
    cases ck with
    | eachEntry keys' values' min' max' =>
      have hkey (keys : Option ShapeNode) : (keys.map ordered).getD anyNode = ordered (keys.getD anyNode) := by
        cases keys <;> rfl
      unfold collections
      rw [ordered_eachEntry, ordered_eachEntry]
      dsimp only [ShapeNode.kind_mk]
      rw [hkey, hkey, hnode, hnode]
    | _ => exact hemptiness
  | _ => exact hemptiness

theorem exact_ordered : walk.exact node (ordered p) (ordered c) at' = walk.exact node p c at' := by
  have hcollections : walk.collections node (ordered p) (ordered c) at' = walk.collections node p c at' :=
    collections_ordered hnode
  have hpair : ∀ pd ps cd cs, oneOfPair node (ordered p) (ordered c) pd (ps.map orderedMember) cd
      (cs.map orderedMember) at' = oneOfPair node p c pd ps cd cs at' := oneOfPair_ordered hnode
  have hinside : ∀ discriminator alternatives, insideAlternative node (ordered p) (ordered c) discriminator
      (alternatives.map orderedMember) at' = insideAlternative node p c discriminator alternatives at' :=
    insideAlternative_ordered hnode
  have hall (ps : List (String × ShapeNode)) :
      Out.all ((ps.map orderedMember).map fun q => node q.2 (ordered c) (Path.alternative at' q.1)) =
        Out.all (ps.map fun q => node q.2 c (Path.alternative at' q.1)) := by
    rw [List.map_map]
    exact congrArg Out.all (List.map_congr_left fun q _ => hnode q.2 c _)
  obtain ⟨pe, pg, pk⟩ := p
  obtain ⟨ce, cg, ck⟩ := c
  cases pk with
  | oneOf pd ps _ =>
    cases ck with
    | oneOf cd cs _ =>
      rw [ordered_oneOf, ordered_oneOf] at hpair ⊢
      exact hpair pd ps cd cs
    | _ =>
      rw [ordered_oneOf]
      exact hall ps
  | _ =>
    cases ck with
    | oneOf cd cs _ =>
      rw [ordered_oneOf] at hinside ⊢
      exact hinside cd cs
    | _ => exact hcollections

theorem table_ordered : walk.table node (ordered p) (ordered c) at' = walk.table node p c at' := by
  have hexact : walk.exact node (ordered p) (ordered c) at' = walk.exact node p c at' := exact_ordered hnode
  have hconservative : walk.conservative (ordered p) (ordered c) at' = walk.conservative p c at' :=
    conservative_ordered p c at'
  unfold table floorStands
  rw [sameAdmits_ordered, disjointClasses_ordered, hexact, hconservative, describe_ordered, describe_ordered,
    hasChildren_ordered, kind_ordered, kind_ordered, isConservative_ordered, isConservative_ordered]
  generalize p.kind = pk
  generalize c.kind = ck
  split
  · rfl
  · cases ck with
    | any => rfl
    | _ => cases pk <;> rfl

theorem operators_ordered : walk.operators node (ordered p) (ordered c) at' = walk.operators node p c at' := by
  unfold operators floorStands
  rw [desugared_ordered, desugared_ordered, table_ordered hnode, sameAdmits_ordered, describe_ordered,
    describe_ordered, operator_ordered, operator_ordered, hasChildren_ordered, isOpaque_ordered, isOpaque_ordered]

theorem valueNode_ordered : walk.valueNode node (ordered p) (ordered c) at' = walk.valueNode node p c at' := by
  unfold valueNode floorStands describePresent
  rw [sameAdmits_ordered, hasChildren_ordered, decompose_ordered, decompose_ordered, describe_ordered, describe_ordered]
  split
  · rfl
  · dsimp only
    cases (decompose p).rest with
    | none => rfl
    | some prest =>
      cases (decompose c).rest with
      | none =>
        dsimp only [Option.map_some, Option.map_none]
        rw [describe_ordered]
      | some crest =>
        dsimp only [Option.map_some]
        rw [operators_ordered hnode]

end Walk

/-- A walk of any depth answers the same, in verdict and in findings. -/
theorem nodeWithin_ordered (walk : Walk) (fuel : Nat) : Unordered (walk.nodeWithin fuel) := by
  induction fuel with
  | zero =>
    intro p c at'
    rw [nodeWithin, nodeWithin, describe_ordered, describe_ordered]
  | succ fuel ih =>
    intro p c at'
    rw [nodeWithin, nodeWithin, valueNode_ordered ih]
    unfold Walk.caveat
    rw [describe_ordered, describe_ordered]

theorem weight_ordered (S : ShapeNode) : weight (ordered S) = weight S := by
  induction S with
  | leaf e g k hk => rw [ordered_leaf e g hk]
  | object e g members ih =>
    have hperm : ((children (.object (membersByName (members.map orderedMember)))).map weight).Perm
        ((members.map orderedMember).map fun p => weight p.2) := by
      change (((membersByName (members.map orderedMember)).map Prod.snd).map weight).Perm _
      rw [List.map_map]
      exact (membersByName_perm _).map _
    rw [ordered_object, weight_mk, weight_mk, hperm.sum_eq, List.map_map]
    change _ = 1 + ((members.map Prod.snd).map weight).sum
    rw [List.map_map]
    exact congrArg (fun ws : List Nat => 1 + ws.sum) (List.map_congr_left ih)
  | array e g entries ih =>
    rw [ordered_array, weight_mk, weight_mk]
    change 1 + ((entries.map ordered).map weight).sum = 1 + (entries.map weight).sum
    rw [List.map_map]
    exact congrArg (fun ws : List Nat => 1 + ws.sum) (List.map_congr_left ih)
  | eachLike e g items min max ih =>
    rw [ordered_eachLike, weight_mk, weight_mk]
    exact congrArg (fun w => 1 + (w + 0)) ih
  | eachEntry e g keys values min max ihk ihv =>
    rw [ordered_eachEntry, weight_mk, weight_mk]
    cases keys with
    | none => exact congrArg (fun w => 1 + (w + 0)) ihv
    | some keys => exact congrArg₂ (fun k v => 1 + (k + (v + 0))) (ihk keys rfl) ihv
  | contains e g entries ih =>
    rw [ordered_contains, weight_mk, weight_mk]
    change 1 + ((entries.map ordered).map weight).sum = 1 + (entries.map weight).sum
    rw [List.map_map]
    exact congrArg (fun ws : List Nat => 1 + ws.sum) (List.map_congr_left ih)
  | optional e g of ih =>
    rw [ordered_optional, weight_mk, weight_mk]
    exact congrArg (fun w => 1 + (w + 0)) ih
  | nullable e g of ih =>
    rw [ordered_nullable, weight_mk, weight_mk]
    exact congrArg (fun w => 1 + (w + 0)) ih
  | oneOf e g discriminator alternatives default ih =>
    rw [ordered_oneOf, weight_mk, weight_mk]
    change 1 + (((alternatives.map orderedMember).map Prod.snd).map weight).sum =
      1 + ((alternatives.map Prod.snd).map weight).sum
    rw [List.map_map, List.map_map, List.map_map]
    exact congrArg (fun ws : List Nat => 1 + ws.sum) (List.map_congr_left ih)

theorem compare_ordered (libraries : Result.Libraries) (p c : ShapeNode) (at' : String) :
    Compare.compare libraries (ordered p) (ordered c) at' = Compare.compare libraries p c at' := by
  unfold Compare.compare Walk.node
  rw [weight_ordered, weight_ordered, nodeWithin_ordered]

/-- Two valid shapes that differ only in the order of their objects' members are compiled to the same plans, have the same
variant space, and are the same to every comparison, on either side of it. -/
theorem member_order_carries_no_meaning {S S' : ShapeNode} (h : Reordered S S') (hvalid : WellFormed S) :
    (∀ (slot : Verdict.Slot) (assignment : Assignment), slot.plan S assignment = slot.plan S' assignment) ∧
      (∀ at', compute S at' = compute S' at') ∧
      ∀ (libraries : Result.Libraries) (T : ShapeNode) (at' : String),
        Compare.compare libraries S T at' = Compare.compare libraries S' T at' ∧
          Compare.compare libraries T S at' = Compare.compare libraries T S' at' := by
  have hsame : ordered S = ordered S' := h.ordered_eq hvalid.tree
  refine ⟨fun slot assignment => ?_, fun at' => ?_, fun libraries T at' => ⟨?_, ?_⟩⟩
  · rw [← plan_ordered, hsame, plan_ordered]
  · unfold compute
    rw [← walk_ordered, hsame, walk_ordered]
  · rw [← compare_ordered, hsame, compare_ordered]
  · rw [← compare_ordered, hsame, compare_ordered]

/-- A person with a name, and an age that may be left out. -/
private def person : ShapeNode :=
  .of (.object [("name", .of (.kind .string)), ("age", .of (.optional (.of (.kind .integer))))])

/-- The same, the age declared first. -/
private def personByAge : ShapeNode :=
  .of (.object [("age", .of (.optional (.of (.kind .integer)))), ("name", .of (.kind .string))])

theorem member_order_carries_no_meaning_person :
    (∀ (slot : Verdict.Slot) (assignment : Assignment), slot.plan person assignment = slot.plan personByAge assignment) ∧
      (∀ at', compute person at' = compute personByAge at') ∧
      ∀ (libraries : Result.Libraries) (T : ShapeNode) (at' : String),
        Compare.compare libraries person T at' = Compare.compare libraries personByAge T at' ∧
          Compare.compare libraries T person at' = Compare.compare libraries T personByAge at' :=
  member_order_carries_no_meaning
    (.object (.cons (.leaf rfl) (.cons (.optional (.leaf rfl)) .nil)) (List.Perm.swap _ _ _)) (by decide +kernel)

end PactJanus.Subsumption.MemberOrder
