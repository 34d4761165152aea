import PactJanus.Plan.Leaves

namespace PactJanus.Plan.Settles

open PactJanus.Data.Json PactJanus.Shape PactJanus.Shape.Model PactJanus.Shape.VariantSpace PactJanus.Shape.Valid
  PactJanus.Plan.Model PactJanus.Plan.Value PactJanus.Plan.Result PactJanus.Plan.Interpret PactJanus.Plan.Compile
  PactJanus.Plan.Navigation PactJanus.Plan.Outcome PactJanus.Plan.Accepts PactJanus.Plan.Good PactJanus.Plan.Positions
  PactJanus.Plan.Checks PactJanus.Plan.Flow PactJanus.Plan.Leaves

variable {strict : Bool} {c : Interpret.Ctx} {ctx : Compile.Ctx} {v : RuntimeValue} {place : String}

/-- The nodes compiled from a shape at a position are good on exactly the values the shape accepts there. -/
def Settled (node : ShapeNode) : Prop :=
  ∀ (strict : Bool) (c : Interpret.Ctx) (ctx : Compile.Ctx) (v : RuntimeValue) (place : String),
    Resolves c ctx.cursor v place → isDocument v = true →
      (allGood strict c (compileShape node ctx) ↔
        accepts strict (envOf c) ctx.assignment node ctx.path place v = true)

theorem good_expectObject (h : Yields (run ctx.resolve c) v place) :
    good strict (run (expect "expect:object" ctx) c) ↔ isObject v = true :=
  good_check (fun es => expectForm es isObject "Expected an object but got ") h rfl
    fun es hv => by rw [good_expectForm, hv]

theorem good_expectArray (h : Yields (run ctx.resolve c) v place) :
    good strict (run (expect "expect:array" ctx) c) ↔ isArray v = true :=
  good_check (fun es => expectForm es isArray "Expected an array but got ") h rfl
    fun es hv => by rw [good_expectForm, hv]

theorem good_expectAbsent (h : Yields (run ctx.resolve c) v place) :
    good strict (run (.action "expect:absent" [ctx.resolve]) c) ↔ isAbsent v = true :=
  good_check (fun es => expectForm es isAbsent "Expected no value but got ") h rfl
    fun es hv => by rw [good_expectForm, hv]

theorem good_count (h : Yields (run ctx.resolve c) v place) (size : UInt64) :
    good strict (run (.action "expect:count" [ctx.resolve, .value (Literal.number size)]) c) ↔
      (lengthOpt v == some size.toNat) = true :=
  good_against expectCount h rfl fun es hv hl _ => by rw [good_expectCount hl, hv]

private def boundLiteral : Option UInt64 → Literal
  | some u => Literal.number u
  | none => Literal.null

private theorem valueAsU64_bound (upper : Option UInt64) :
    valueAsU64 (fromLiteral (boundLiteral upper)) = upper.map UInt64.toNat := by
  cases upper <;> rfl

theorem good_size (h : Yields (run ctx.resolve c) v place) (lower : UInt64) (upper : Option UInt64) :
    good strict (run (.action "expect:size"
        [ctx.resolve, .value (Literal.number lower), .value (boundLiteral upper)]) c) ↔
      ((lengthOpt v).any fun len => decide (lower.toNat ≤ len) && upper.all fun m => decide (len ≤ m.toNat)) = true := by
  have hrun : run (.action "expect:size" [ctx.resolve, .value (Literal.number lower), .value (boundLiteral upper)]) c =
      .action "expect:size" (runAll [ctx.resolve, .value (Literal.number lower), .value (boundLiteral upper)] c)
        (some (expectSize (runAll [ctx.resolve, .value (Literal.number lower), .value (boundLiteral upper)] c))) := rfl
  rw [hrun, good_of_result rfl (by simp [childrenOf, runAll, h.clean, clean_literal]),
    good_expectSize lower upper (by simp [runAll]) (by simp [runAll, valueAsU64_bound])]
  simp only [runAll, valueAt_zero, h.valueOf]

theorem good_cardinality (h : Yields (run ctx.resolve c) v place) (min : UInt64) (max : Option UInt64) :
    good strict (run (cardinalityAssertion ctx min max) c) ↔
      (lengthOpt v).any (sizeAccepts ctx.assignment ctx.path min max) = true := by
  unfold cardinalityAssertion cardinalityBounds sizeAccepts
  rw [show ctx.pinned .cardinality = pin ctx.assignment ctx.path .cardinality from rfl]
  cases hregion : (pin ctx.assignment ctx.path .cardinality).bind (cardinalityRegion min max) with
  | none => exact good_size h min max
  | some region =>
    obtain ⟨size, upper⟩ := region
    cases upper with
    | none => exact good_size h size none
    | some upper =>
      by_cases heq : size = upper
      · subst heq
        simp only [if_true, Option.getD_some]
        rw [good_count h]
        cases lengthOpt v with
        | none => simp
        | some len => simp [Nat.le_antisymm_iff, and_comm]
      · simp only [if_neg heq, Option.getD_some]
        exact good_size h size (some upper)

/-! One case for each operator with shapes under it. -/

private theorem settles_members (h : Resolves c ctx.cursor v place) (hv : isDocument v = true)
    {members : List (String × ShapeNode)} (ih : ∀ p ∈ members, Settled p.2) :
    (∀ p ∈ compileMembers members ctx, good strict (run p.2 c)) ↔
      acceptsMembers strict (envOf c) ctx.assignment members ctx.path place v = true := by
  induction members with
  | nil => simp [compileMembers, acceptsMembers]
  | cons p rest ihrest =>
    obtain ⟨name, member⟩ := p
    have hmember := ih _ List.mem_cons_self strict c (ctx.member name) (memberOf v name) (memberPath place name)
      (h.member name) (isDocument_memberOf hv name)
    simp only [compileMembers, acceptsMembers, List.forall_mem_cons, Bool.and_eq_true, good_runContainer]
    exact and_congr hmember (ihrest fun q hq => ih q (List.mem_cons_of_mem _ hq))

private theorem settles_object {e : Option Example} {g : Option Json} {members : List (String × ShapeNode)}
    (ih : ∀ p ∈ members, Settled p.2) : Settled ⟨e, g, .object members⟩ := by
  intro strict c ctx v place h hv
  simp only [compileShape, accepts, allGood_cons, good_expectObject h.here, Bool.and_eq_true, ← settles_members h hv ih]
  refine and_congr_right fun _ => ⟨fun hall p hp => ?_, fun hall n hn => ?_⟩
  · exact hall p.2 (List.mem_map.2 ⟨p, mem_membersByName.2 hp, rfl⟩)
  · obtain ⟨p, hp, rfl⟩ := List.mem_map.1 hn
    exact hall p (mem_membersByName.1 hp)

private theorem settles_entries (h : Resolves c ctx.cursor v place) (hv : isDocument v = true)
    {entries : List ShapeNode} (ih : ∀ s ∈ entries, Settled s) (index : Nat) (hlen : index + entries.length < 2 ^ 64) :
    allGood strict c (compileEntries entries ctx index) ↔
      acceptsEntries strict (envOf c) ctx.assignment entries ctx.path place v index = true := by
  induction entries generalizing index with
  | nil => simp [compileEntries, acceptsEntries, allGood]
  | cons s rest ihrest =>
    simp only [List.length_cons] at hlen
    have hentry := ih s List.mem_cons_self strict c (ctx.arrayIndex index) (elementOf v index)
      (Path.arrayIndex place index) (h.index (by omega)) (isDocument_elementOf hv index)
    simp only [compileEntries, acceptsEntries, allGood_cons, Bool.and_eq_true, good_runContainer]
    exact and_congr hentry (ihrest (fun q hq => ih q (List.mem_cons_of_mem _ hq)) (index + 1) (by omega))

private theorem settles_array {e : Option Example} {g : Option Json} {entries : List ShapeNode}
    (hlen : entries.length ≤ maxNodes) (ih : ∀ s ∈ entries, Settled s) : Settled ⟨e, g, .array entries⟩ := by
  intro strict c ctx v place h hv
  have hsize : (UInt64.ofNat entries.length).toNat = entries.length := by
    simp only [maxNodes] at hlen
    simp
    omega
  simp only [compileShape, accepts, allGood_cons, good_expectArray h.here, good_count h.here, hsize]
  rw [settles_entries h hv ih 0 (by simp only [maxNodes] at hlen; omega)]
  cases v <;> simp [isArray, lengthOpt]

/-- The positions of an array's elements, as an iteration goes through them. -/
private theorem itemPaths_array (items : List RuntimeValue) :
    itemPaths (some place) items = (positions place items).map fun p => (p.1, some p.2) := by
  simp [itemPaths, positions, List.mapIdx_eq_zipIdx_map, Function.comp_def]

private theorem isDocument_position {items : List RuntimeValue} (hv : isDocument (.array items) = true)
    {p : RuntimeValue × String} (hp : p ∈ positions place items) : isDocument p.1 = true := by
  simp only [positions, List.mapIdx_eq_zipIdx_map, List.mem_map] at hp
  obtain ⟨q, hq, rfl⟩ := hp
  exact isDocumentAll_iff.1 hv _ (List.fst_mem_of_mem_zipIdx hq)

private theorem settles_eachLike {e : Option Example} {g : Option Json} {items : ShapeNode} {min : UInt64}
    {max : Option UInt64} (ih : Settled items) : Settled ⟨e, g, .eachLike items min max⟩ := by
  intro strict c ctx v place h hv
  simp only [compileShape, accepts, allGood_cons, good_expectArray h.here, good_cardinality h.here, forEach,
    allGood_nil, and_true]
  cases v with
  | array elements =>
    have hy : Yields (run ctx.resolve c) (.array elements) place := h.here
    simp only [isArray, lengthOpt, true_and, Option.any_some, Bool.and_eq_true, List.all_eq_true]
    refine and_congr_right fun _ => ?_
    rw [good_forEach hy]
    simp only [iterationItems, itemPaths_array, List.forall_mem_map, good_runContainer]
    refine forall₂_congr fun p hp => ?_
    exact ih strict (c.push p.1 (some p.2)) (itemCtx ctx) p.1 p.2 (resolves_item (isDocument_position hv hp))
      (isDocument_position hv hp)
  | _ => simp [isArray]

private theorem itemPaths_object (members : List (String × RuntimeValue)) :
    itemPaths (some place) (iterationItems (.object members)) =
      members.map fun p => (RuntimeValue.entry p.1 p.2, some (memberPath place p.1)) := by
  refine List.ext_getElem? fun i => ?_
  simp only [itemPaths, iterationItems, List.getElem?_mapIdx, List.getElem?_map, Option.map_map, Function.comp_def]
  rfl

private theorem settles_eachEntry {e : Option Example} {g : Option Json} {keys : Option ShapeNode} {values : ShapeNode}
    {min : UInt64} {max : Option UInt64} (ihk : ∀ k ∈ keys, Settled k) (ihv : Settled values) :
    Settled ⟨e, g, .eachEntry keys values min max⟩ := by
  intro strict c ctx v place h hv
  simp only [compileShape, accepts, allGood_cons, good_expectObject h.here, good_cardinality h.here, forEach,
    allGood_nil, and_true]
  cases v with
  | object members =>
    have hy : Yields (run ctx.resolve c) (.object members) place := h.here
    simp only [isObject, lengthOpt, true_and, Option.any_some, Bool.and_eq_true, List.all_eq_true]
    refine and_congr_right fun _ => ?_
    rw [good_forEach hy, itemPaths_object]
    simp only [List.forall_mem_map, good_runContainer]
    refine forall₂_congr fun p hp => ?_
    have hvalue := ihv strict (c.push (.entry p.1 p.2) (some (memberPath place p.1))) (valueCtx ctx) p.2
      (memberPath place p.1) (resolves_value (isDocumentMembers_iff.1 hv p hp)) (isDocumentMembers_iff.1 hv p hp)
    cases keys with
    | none =>
      simp only [compileKeys, List.nil_append, allGood_one, good_runContainer, acceptsKey, true_and]
      exact hvalue
    | some k =>
      have hkey := ihk k rfl strict (c.push (.entry p.1 p.2) (some (memberPath place p.1))) (keyCtx ctx) (.string p.1)
        (memberPath place p.1) resolves_key rfl
      simp only [compileKeys, List.singleton_append, allGood_cons, allGood_nil, and_true, good_runContainer, acceptsKey]
      exact and_congr hkey hvalue
  | _ => simp [isObject]

/-- An entry's container is good at an element exactly where its shape accepts the element. -/
private theorem settles_entry (strict : Bool) {entry : ShapeNode} (ih : Settled entry) (c : Interpret.Ctx) (ctx : Compile.Ctx)
    (index : Nat) {p : RuntimeValue × String} (hp : isDocument p.1 = true) :
    good strict (run (.container (entryCtx ctx index).label (compileShape entry (entryCtx ctx index)))
        (c.push p.1 (some p.2))) ↔
      accepts strict (envOf c) ctx.assignment entry (Path.arrayIndex ctx.path index) p.2 p.1 = true := by
  rw [good_runContainer]
  exact ih strict (c.push p.1 (some p.2)) (entryCtx ctx index) p.1 p.2 (resolves_item hp) hp

private theorem settles_claimed {entries : List ShapeNode} (ih : ∀ s ∈ entries, Settled s) {elements : List RuntimeValue}
    (hv : isDocument (.array elements) = true) (index : Nat) (used : List Bool) :
    claimed c (itemPaths (some place) elements) (compileContains entries ctx index) used =
      acceptsContains (envOf c) ctx.assignment entries ctx.path index (positions place elements) used := by
  induction entries generalizing index used with
  | nil => rfl
  | cons entry rest ihrest =>
    have hfree : ∀ p ∈ positions place elements,
        (!childFailed (run (.container (entryCtx ctx index).label (compileShape entry (entryCtx ctx index)))
          (c.push p.1 (some p.2)))) =
        accepts true (envOf c) ctx.assignment entry (Path.arrayIndex ctx.path index) p.2 p.1 := fun p hp => by
      have := settles_entry true (ih entry List.mem_cons_self) c ctx index (isDocument_position hv hp)
      rw [Bool.eq_iff_iff, ← this, good_true, Bool.not_eq_true']
    simp only [compileContains, claimed, acceptsContains, itemPaths_array, firstFree_map, firstFree_congr used 0 hfree]
    cases firstFree (fun p => accepts true (envOf c) ctx.assignment entry (Path.arrayIndex ctx.path index) p.2 p.1)
        (positions place elements) used 0 with
    | none => rfl
    | some i =>
      rw [← itemPaths_array]
      exact ihrest (fun s hs => ih s (List.mem_cons_of_mem _ hs)) (index + 1) (used.set i true)

private theorem settles_contains {e : Option Example} {g : Option Json} {entries : List ShapeNode}
    (ih : ∀ s ∈ entries, Settled s) : Settled ⟨e, g, .contains entries⟩ := by
  intro strict c ctx v place h hv
  simp only [compileShape, accepts, allGood_cons, good_expectArray h.here, allGood_nil, and_true]
  cases v with
  | array elements =>
    have hy : Yields (run ctx.resolve c) (.array elements) place := h.here
    simp only [isArray, true_and]
    rw [good_contains hy, settles_claimed ih hv]
    intro n hn q hq hok
    rw [compileContains_eq] at hn
    obtain ⟨i, hi, rfl⟩ := List.mem_mapIdx.1 hn
    have hentry : entries[i] ∈ entries := List.getElem_mem hi
    rw [itemPaths_array] at hq
    obtain ⟨p, hp, rfl⟩ := List.mem_map.1 hq
    have hdocument := isDocument_position hv hp
    have hstrict := (settles_entry true (ih _ hentry) c ctx (0 + i) hdocument).1 (good_true.2 hok)
    exact good_false.1 ((settles_entry false (ih _ hentry) c ctx (0 + i) hdocument).2 (accepts_of_strict _ hstrict))
  | _ => simp [isArray]

private theorem settles_optional {e : Option Example} {g : Option Json} {of : ShapeNode} (ih : Settled of) :
    Settled ⟨e, g, .optional of⟩ := by
  intro strict c ctx v place h hv
  have hof := ih strict c ctx v place h hv
  rw [accepts_optional]
  simp only [compileShape, allGood_one, compileOptional]
  rw [show ctx.pinned .presence = pin ctx.assignment ctx.path .presence from rfl]
  split
  · rename_i hpin
    rw [if_pos hpin]
    exact good_expectAbsent h.here
  · rename_i hpin
    rw [if_neg (by simp [hpin]), if_pos hpin, good_single]
    exact hof
  · rename_i habsent hpresent
    have hy : Yields (run ctx.resolve c) v place := h.here
    have hcond := answers_exists hy
    rw [if_neg habsent, if_neg hpresent, good_ifThen hcond.clean, hcond.truthy, good_single, hof]
    cases isAbsent v <;> simp

theorem good_okNode : good strict (run okNode c) := by
  have hrun : run okNode c = .action "flow:and" [] (some .ok) := rfl
  rw [hrun, good_of_result rfl (by simp [childrenOf])]
  rfl

private theorem settles_nullable {e : Option Example} {g : Option Json} {of : ShapeNode} (ih : Settled of) :
    Settled ⟨e, g, .nullable of⟩ := by
  intro strict c ctx v place h hv
  have hof := ih strict c ctx v place h hv
  have hy : Yields (run ctx.resolve c) v place := h.here
  rw [accepts_nullable]
  simp only [compileShape, allGood_one, compileNullable]
  rw [show ctx.pinned .nullability = pin ctx.assignment ctx.path .nullability from rfl]
  split
  · rename_i hpin
    rw [if_pos hpin]
    exact good_check (fun es => matchKind es isNullValue "null") hy rfl
      fun es hes => by rw [good_matchKind, hes]
  · rename_i hpin
    rw [if_neg (by simp [hpin]), if_pos hpin, good_single]
    exact hof
  · rename_i hnull hnonnull
    have hcond := answers_null hy
    rw [if_neg hnull, if_neg hnonnull, good_ifThenElse hcond.clean, hcond.truthy, good_single, hof]
    cases isNullValue v <;> simp [good_okNode]

theorem answers_condition {cursor : Cursor} (h : Yields (run cursor.resolve c) v place) (literals : List Json) :
    Answers (run (discriminatorCondition literals cursor) c) (selects literals v) := by
  unfold discriminatorCondition selects
  split
  · exact answers_equals Literal.null h
  · simpa [fromLiteral_fromJson] using answers_equals (Literal.fromJson _) h
  · have hequal : ∀ literal, Answers (run (checkEquals cursor (Literal.fromJson literal)) c)
        (runtimeEq v (fromJson literal)) := fun literal => by
      simpa only [fromLiteral_fromJson] using answers_equals (Literal.fromJson literal) h
    have hor := answers_or (literals.map fun literal => checkEquals cursor (Literal.fromJson literal))
      (fun n => resultTruthy (run n c)) fun n hn => by
        obtain ⟨literal, -, rfl⟩ := List.mem_map.1 hn
        rw [(hequal literal).truthy]
        exact hequal literal
    simpa only [List.any_map, Function.comp_def, (hequal _).truthy] using hor

/-- The discriminator's value picks a branch of the chain, and the chain says what the branch says. -/
private theorem good_chain (h : Resolves c ctx.cursor v place) (discriminator : String) {last : Node}
    (hlast : ¬ good strict (run last c)) (alternatives : List Alternative) :
    good strict (run (alternatives.foldr (fun a chain => .action "flow:if"
        [discriminatorCondition a.literals (ctx.cursor.member discriminator), a.branch, chain]) last) c) ↔
      ∃ a ∈ alternatives.find? fun a => selects a.literals (memberOf v discriminator), allGood strict c a.nodes := by
  induction alternatives with
  | nil => simpa using hlast
  | cons a rest ih =>
    have hcond := answers_condition (h.member discriminator).here a.literals
    rw [List.foldr_cons, good_ifThenElse hcond.clean, hcond.truthy, List.find?_cons]
    cases selects a.literals (memberOf v discriminator) with
    | true => simp [Alternative.branch, good_runContainer]
    | false => simpa using ih

theorem not_good_errorBranch (discriminator : String) (names : List String) (cursor : Cursor) :
    ¬ good strict (run (oneOfErrorBranch discriminator names cursor) c) := by
  have hr : ∃ message, resultOf (run (oneOfErrorBranch discriminator names cursor) c) = some (.error message none) :=
    ⟨_, rfl⟩
  obtain ⟨message, hr⟩ := hr
  cases strict with
  | true => rw [good_true, childFailed_of_result hr]; simp [resultGood]
  | false => rw [good_false, clean_of_result hr]; simp [resultGood]

/-- A union's alternative as the compiler has it. -/
private def compiled (ctx : Compile.Ctx) (discriminator : String) (p : String × ShapeNode) : Alternative :=
  ⟨p.1, discriminatorLiterals p.2 discriminator, compileShape p.2 (ctx.alternative p.1)⟩

private theorem find?_compiled (discriminator : String) (alternatives : List (String × ShapeNode)) :
    ((ctx.pinned .alternative).bind fun point =>
        (alternatives.map (compiled ctx discriminator)).find? fun a => a.name == point) =
      (pinnedAlternative ctx.assignment ctx.path alternatives).map (compiled ctx discriminator) := by
  unfold pinnedAlternative
  rw [show ctx.pinned .alternative = pin ctx.assignment ctx.path .alternative from rfl]
  cases pin ctx.assignment ctx.path .alternative with
  | none => rfl
  | some point =>
    rw [Option.bind_some, List.find?_map]
    rfl

private theorem settles_oneOf {e : Option Example} {g : Option Json} {discriminator : String}
    {alternatives : List (String × ShapeNode)} {default : Option String} (ih : ∀ p ∈ alternatives, Settled p.2) :
    Settled ⟨e, g, .oneOf discriminator alternatives default⟩ := by
  intro strict c ctx v place h hv
  have halternative : ∀ p ∈ alternatives, allGood strict c (compiled ctx discriminator p).nodes ↔
      accepts strict (envOf c) ctx.assignment p.2 (Path.alternative ctx.path p.1) place v = true := fun p hp =>
    ih p hp strict c (ctx.alternative p.1) v place h hv
  rw [accepts_oneOf]
  have hcompiled : compileAlternatives alternatives discriminator ctx = alternatives.map (compiled ctx discriminator) :=
    compileAlternatives_eq alternatives discriminator ctx
  simp only [compileShape, allGood_one, compileOneOf, hcompiled, find?_compiled]
  cases hpinned : pinnedAlternative ctx.assignment ctx.path alternatives with
  | some p =>
    have hp : p ∈ alternatives := mem_alternatives discriminator v (by rw [hpinned]; rfl)
    simp only [Option.map_some, Option.some_or, Option.any_some, Alternative.branch, good_runContainer]
    exact halternative p hp
  | none =>
    simp only [Option.map_none, Option.none_or]
    rw [good_chain h discriminator (not_good_errorBranch discriminator _ _), List.find?_map]
    change (∃ a ∈ (selectedAlternative discriminator alternatives v).map _, _) ↔ _
    cases hselected : selectedAlternative discriminator alternatives v with
    | none => simp
    | some p =>
      have hp : p ∈ alternatives := List.mem_of_find?_eq_some hselected
      simpa using halternative p hp

/-- A valid shape's nodes are good on exactly the values it accepts. -/
theorem settles {S : ShapeNode} (h : wellFormed S = true) : Settled S := by
  induction S with
  | leaf e g k hk =>
    intro strict c ctx v place hr hv
    exact settles_leaf hr hk (wellFormed_mk.1 h).2.1
  | object e g members ih =>
    exact settles_object fun p hp => ih p hp (wellFormedMembers_iff.1 (wellFormed_mk.1 h).2.2 p hp)
  | array e g entries ih =>
    obtain ⟨-, hvalid, hentries⟩ := wellFormed_mk.1 h
    simp only [nodeValid, Bool.and_eq_true, decide_eq_true_eq] at hvalid
    exact settles_array hvalid.1 fun s hs => ih s hs (wellFormedEntries_iff.1 hentries s hs)
  | eachLike e g items min max ih => exact settles_eachLike (ih (wellFormed_mk.1 h).2.2)
  | eachEntry e g keys values min max ihk ihv =>
    obtain ⟨hkeys, hvalues⟩ := Bool.and_eq_true_iff.1 (wellFormed_mk.1 h).2.2
    exact settles_eachEntry (fun k hk => ihk k hk (wellFormedKeys_iff.1 hkeys k hk)) (ihv hvalues)
  | contains e g entries ih =>
    exact settles_contains fun s hs => ih s hs (wellFormedEntries_iff.1 (wellFormed_mk.1 h).2.2 s hs)
  | optional e g of ih => exact settles_optional (ih (wellFormed_mk.1 h).2.2)
  | nullable e g of ih => exact settles_nullable (ih (wellFormed_mk.1 h).2.2)
  | oneOf e g discriminator alternatives default ih =>
    exact settles_oneOf fun p hp => ih p hp (wellFormedMembers_iff.1 (wellFormed_mk.1 h).2.2 p hp)

end PactJanus.Plan.Settles
