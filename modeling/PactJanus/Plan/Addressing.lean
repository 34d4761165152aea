import PactJanus.Plan.Reads
import PactJanus.Plan.Verdict
import PactJanus.Shape.Nodes

namespace PactJanus.Plan.Addressing

open PactJanus.Data.Json PactJanus.Shape PactJanus.Shape.Model PactJanus.Shape.Valid PactJanus.Plan.Model
  PactJanus.Plan.Value PactJanus.Plan.Resolve PactJanus.Plan.Result PactJanus.Plan.Compile PactJanus.Plan.Navigation
  PactJanus.Plan.Places PactJanus.Plan.Reads PactJanus.Plan.Verdict

/-! The paths of a compiled plan are along steps, from the slot it was compiled for or from the items under it. -/

variable {captured : CapturedValues} {inside : Bool} {ctx : Compile.Ctx} {n : Node} {name : String}

/-- A cursor is at a place, or along steps from a current item. -/
def Anchored (captured : CapturedValues) (inside : Bool) : Cursor → Prop
  | .absolute path => ∃ v, At captured path v
  | .relative path => inside = true ∧ ∃ steps : List Step, (∀ s ∈ steps, s.fits) ∧ path = currentPath steps

theorem Anchored.member {cursor : Cursor} (h : Anchored captured inside cursor) (name : String) :
    Anchored captured inside (cursor.member name) := by
  cases cursor with
  | absolute path =>
    obtain ⟨v, hv⟩ := h
    exact ⟨_, At.member hv name⟩
  | relative path =>
    obtain ⟨hinside, steps, hs, rfl⟩ := h
    have hfits : ∀ s ∈ [Step.member name], s.fits := List.forall_mem_singleton.2 trivial
    refine ⟨hinside, steps ++ [.member name], List.forall_mem_append.2 ⟨hs, hfits⟩, ?_⟩
    exact (along_member _ name).symm.trans (along_append ..)

theorem Anchored.arrayIndex {cursor : Cursor} (h : Anchored captured inside cursor) {i : Nat} (hi : i < 2 ^ 64) :
    Anchored captured inside (cursor.arrayIndex i) := by
  have hfits : ∀ s ∈ [Step.index i], s.fits := List.forall_mem_singleton.2 hi
  cases cursor with
  | absolute path =>
    obtain ⟨v, hv⟩ := h
    have hat := At.along hv hfits
    rw [along_index] at hat
    exact ⟨_, hat⟩
  | relative path =>
    obtain ⟨hinside, steps, hs, rfl⟩ := h
    refine ⟨hinside, steps ++ [.index i], List.forall_mem_append.2 ⟨hs, hfits⟩, ?_⟩
    exact (along_index _ i).symm.trans (along_append ..)

private theorem anchored_item : Anchored captured true (.relative "~>") := ⟨rfl, [], by simp, (along_nil "~>").symm⟩

private theorem anchored_entry {path : String} (h : memberPath "~>" name = path) :
    Anchored captured true (.relative path) :=
  ⟨rfl, [.member name], List.forall_mem_singleton.2 trivial, by rw [currentPath, along_member, h]⟩

theorem isRead_resolve (cursor : Cursor) : IsRead cursor.resolve := by
  cases cursor with
  | absolute => exact .resolve
  | relative => exact .resolveCurrent

theorem addressed_resolve {cursor : Cursor} (h : Anchored captured inside cursor) :
    Addressed captured inside cursor.resolve := by
  cases cursor with
  | absolute path =>
    obtain ⟨v, hv⟩ := h
    exact .resolve hv
  | relative path =>
    obtain ⟨rfl, steps, hs, rfl⟩ := h
    exact .current hs

/-! The nodes each operator is compiled to. -/

/-- An action of a name that is no loop's. -/
def IsPlain (name : String) : Prop := name ∉ loops ∧ name ≠ "legacy:array-contains"

instance : Decidable (IsPlain name) := inferInstanceAs (Decidable (_ ∧ _))

theorem addressed_action {children : List Node} (hname : IsPlain name)
    (h : ∀ m ∈ children, Addressed captured inside m) : Addressed captured inside (.action name children) :=
  .action hname.1 hname.2 h

theorem addressed_check (hname : IsPlain name) (h : Addressed captured inside n) (literals : List Literal) :
    Addressed captured inside (.action name (n :: literals.map .value)) := by
  refine addressed_action hname (List.forall_mem_cons.2 ⟨h, fun m hm => ?_⟩)
  obtain ⟨literal, -, rfl⟩ := List.mem_map.1 hm
  exact .value

theorem addressed_single {nodes : List Node} (h : ∀ m ∈ nodes, Addressed captured inside m) :
    Addressed captured inside (asSingleUnlabeled nodes) := by
  unfold asSingleUnlabeled
  split
  · exact h _ (List.mem_singleton.2 rfl)
  · exact .container h

theorem addressed_okNode : Addressed captured inside okNode := addressed_action (by decide) (by simp)

theorem addressed_forEach {item : Node} (h : Anchored captured inside ctx.cursor) (hitem : Addressed captured true item) :
    Addressed captured inside (forEach ctx item) :=
  .loop (by decide) (.splat (isRead_resolve _)) (.splat (List.forall_mem_singleton.2 (addressed_resolve h)))
    (List.forall_mem_singleton.2 hitem)

theorem addressed_cardinality (h : Anchored captured inside ctx.cursor) (min : UInt64) (max : Option UInt64) :
    Addressed captured inside (cardinalityAssertion ctx min max) := by
  have hresolve := addressed_resolve h
  unfold cardinalityAssertion
  split
  · split
    · exact addressed_check (by decide) hresolve [_]
    · exact addressed_check (by decide) hresolve [_, _]
  · exact addressed_check (by decide) hresolve [_, _]

theorem addressed_optional (h : Anchored captured inside ctx.cursor) {nodes : List Node}
    (hof : ∀ m ∈ nodes, Addressed captured inside m) : Addressed captured inside (compileOptional nodes ctx) := by
  have hresolve := addressed_resolve h
  unfold compileOptional
  split
  · exact addressed_check (by decide) hresolve []
  · exact addressed_single hof
  · exact addressed_action (by decide) (List.forall_mem_cons.2 ⟨addressed_check (by decide) hresolve [],
      List.forall_mem_singleton.2 (addressed_single hof)⟩)

theorem addressed_nullable (h : Anchored captured inside ctx.cursor) {nodes : List Node}
    (hof : ∀ m ∈ nodes, Addressed captured inside m) : Addressed captured inside (compileNullable nodes ctx) := by
  have hresolve := addressed_resolve h
  unfold compileNullable
  split
  · exact addressed_check (by decide) hresolve []
  · exact addressed_single hof
  · exact addressed_action (by decide) (List.forall_mem_cons.2 ⟨addressed_check (by decide) hresolve [],
      List.forall_mem_cons.2 ⟨addressed_okNode, List.forall_mem_singleton.2 (addressed_single hof)⟩⟩)

theorem addressed_anyOf (h : Anchored captured inside ctx.cursor) (options : List Json) :
    Addressed captured inside (compileAnyOf options ctx) := by
  have hresolve := addressed_resolve h
  unfold compileAnyOf
  split
  · exact addressed_check (by decide) hresolve [_]
  · have hall : Addressed captured inside
        (.action "match:any-of" (ctx.resolve :: (options.map Literal.fromJson).map Node.value)) :=
      addressed_check (by decide) hresolve _
    rwa [List.map_map] at hall

theorem addressed_condition {cursor : Cursor} (h : Anchored captured inside cursor) (literals : List Json) :
    Addressed captured inside (discriminatorCondition literals cursor) := by
  have hequals (literal : Literal) : Addressed captured inside (checkEquals cursor literal) :=
    addressed_check (by decide) (addressed_resolve h) [literal]
  unfold discriminatorCondition
  split
  · exact hequals _
  · exact hequals _
  · exact addressed_action (by decide) (List.forall_mem_map.2 fun literal _ => hequals _)

theorem addressed_oneOf (h : Anchored captured inside ctx.cursor) (discriminator : String) {alternatives : List Alternative}
    (hall : ∀ a ∈ alternatives, ∀ m ∈ a.nodes, Addressed captured inside m) :
    Addressed captured inside (compileOneOf discriminator alternatives ctx) := by
  unfold compileOneOf
  split
  · rename_i pinned hpinned
    obtain ⟨point, -, hfind⟩ := Option.bind_eq_some_iff.1 hpinned
    exact .container (hall pinned (List.mem_of_find?_eq_some hfind))
  · have hmember := Anchored.member h discriminator
    have hlast : Addressed captured inside
        (oneOfErrorBranch discriminator (alternatives.map Alternative.name) (ctx.cursor.member discriminator)) := by
      refine addressed_action (by decide) (List.forall_mem_singleton.2 (addressed_action (by decide) ?_))
      exact List.forall_mem_cons.2 ⟨.value, List.forall_mem_singleton.2 (addressed_resolve hmember)⟩
    simp only
    generalize oneOfErrorBranch _ _ _ = last at hlast ⊢
    clear * - hlast hall hmember
    induction alternatives with
    | nil => exact hlast
    | cons a rest ih =>
      obtain ⟨ha, hrest⟩ := List.forall_mem_cons.1 hall
      exact addressed_action (by decide) (List.forall_mem_cons.2 ⟨addressed_condition hmember a.literals,
        List.forall_mem_cons.2 ⟨.container ha, List.forall_mem_singleton.2 (ih hrest)⟩⟩)

theorem isPlain_component {operator : String} (h : isComponentOperator operator = true) : IsPlain operator := by
  refine ⟨fun hloop => ?_, ?_⟩
  · have hno : ∀ loop ∈ loops, isComponentOperator loop = false := by decide
    rw [hno operator hloop] at h
    cases h
  · rintro rfl
    exact absurd h (by decide)

private theorem addressed_leaf (e : Option Example) (g : Option Json) {k : ShapeKind} (hk : isLeaf k = true)
    (hvalid : nodeValid e k = true) (h : Anchored captured inside ctx.cursor) :
    ∀ m ∈ compileShape ⟨e, g, k⟩ ctx, Addressed captured inside m := by
  have hresolve := addressed_resolve h
  cases k with
  | object | array | eachLike | eachEntry | contains | optional | nullable | oneOf => exact nomatch hk
  | component operator raw =>
    have hplain := isPlain_component (Bool.and_eq_true_iff.1 hvalid).1
    exact List.forall_mem_singleton.2 (addressed_check hplain hresolve [_])
  | kind kind => cases kind <;> exact List.forall_mem_singleton.2 (addressed_check (by decide) hresolve [])
  | temporal kind format =>
    cases kind <;> cases format
    all_goals first
      | exact List.forall_mem_singleton.2 (addressed_check (by decide) hresolve [])
      | exact List.forall_mem_singleton.2 (addressed_check (by decide) hresolve [_])
  | anyOf options => exact List.forall_mem_singleton.2 (addressed_anyOf h options)
  | any | notEmpty | semver | forbidden => exact List.forall_mem_singleton.2 (addressed_check (by decide) hresolve [])
  | equality | type | regex | includes | contentType =>
    exact List.forall_mem_singleton.2 (addressed_check (by decide) hresolve [_])

/-- A valid shape's plan is addressed where its position is anchored. -/
theorem addressed_compileShape {S : ShapeNode} (hvalid : wellFormed S = true) {inside : Bool} {ctx : Compile.Ctx}
    (h : Anchored captured inside ctx.cursor) : ∀ m ∈ compileShape S ctx, Addressed captured inside m := by
  have hitem {ctx : Compile.Ctx} : Anchored captured true (itemCtx ctx).cursor := anchored_item
  have hkey {ctx : Compile.Ctx} : Anchored captured true (keyCtx ctx).cursor :=
    anchored_entry (by decide : memberPath "~>" "key" = "~>.key")
  have hvalue {ctx : Compile.Ctx} : Anchored captured true (valueCtx ctx).cursor :=
    anchored_entry (by decide : memberPath "~>" "value" = "~>.value")
  have hexpect {name : String} (hname : IsPlain name) {inside : Bool} {ctx : Compile.Ctx}
      (h : Anchored captured inside ctx.cursor) : Addressed captured inside (expect name ctx) :=
    addressed_check hname (addressed_resolve h) []
  induction S generalizing inside ctx with
  | leaf e g k hk => exact addressed_leaf e g hk (wellFormed_mk.1 hvalid).2.1 h
  | object e g members ih =>
    have hunder := wellFormedMembers_iff.1 (wellFormed_mk.1 hvalid).2.2
    refine List.forall_mem_cons.2 ⟨hexpect (by decide) h, fun m hm => ?_⟩
    obtain ⟨q, hq, rfl⟩ := List.mem_map.1 hm
    rw [mem_membersByName, compileMembers_eq] at hq
    obtain ⟨p, hp, rfl⟩ := List.mem_map.1 hq
    exact .container (ih p hp (hunder p hp) (Anchored.member h p.1))
  | array e g entries ih =>
    obtain ⟨-, hnode, hkind⟩ := wellFormed_mk.1 hvalid
    have hunder := wellFormedEntries_iff.1 hkind
    have hlength : entries.length ≤ 20000 := of_decide_eq_true (Bool.and_eq_true_iff.1 hnode).1
    refine List.forall_mem_cons.2 ⟨hexpect (by decide) h, List.forall_mem_cons.2
      ⟨addressed_check (by decide) (addressed_resolve h) [_], fun m hm => ?_⟩⟩
    rw [compileEntries_eq] at hm
    obtain ⟨i, hi, rfl⟩ := List.mem_mapIdx.1 hm
    have hmem := List.getElem_mem hi
    exact .container (ih _ hmem (hunder _ hmem) (Anchored.arrayIndex h (by omega)))
  | eachLike e g items min max ih =>
    refine List.forall_mem_cons.2 ⟨hexpect (by decide) h, List.forall_mem_cons.2 ⟨addressed_cardinality h min max,
      List.forall_mem_singleton.2 (addressed_forEach h (.container (ih (wellFormed_mk.1 hvalid).2.2 hitem)))⟩⟩
  | eachEntry e g keys values min max ihk ihv =>
    obtain ⟨hkeys, hvalues⟩ := Bool.and_eq_true_iff.1 (wellFormed_mk.1 hvalid).2.2
    refine List.forall_mem_cons.2 ⟨hexpect (by decide) h, List.forall_mem_cons.2 ⟨addressed_cardinality h min max,
      List.forall_mem_singleton.2 (addressed_forEach h (.container (List.forall_mem_append.2 ⟨?_,
        List.forall_mem_singleton.2 (.container (ihv hvalues hvalue))⟩)))⟩⟩
    cases keys with
    | none => exact fun m hm => nomatch hm
    | some node => exact List.forall_mem_singleton.2 (.container (ihk node rfl hkeys hkey))
  | contains e g entries ih =>
    have hunder := wellFormedEntries_iff.1 (wellFormed_mk.1 hvalid).2.2
    refine List.forall_mem_cons.2 ⟨hexpect (by decide) h, List.forall_mem_singleton.2
      (.loop (by decide) (isRead_resolve _) (addressed_resolve h) fun m hm => ?_)⟩
    rw [compileContains_eq] at hm
    obtain ⟨i, hi, rfl⟩ := List.mem_mapIdx.1 hm
    have hmem := List.getElem_mem hi
    exact .container (ih _ hmem (hunder _ hmem) anchored_item)
  | optional e g of ih =>
    exact List.forall_mem_singleton.2 (addressed_optional h (ih (wellFormed_mk.1 hvalid).2.2 h))
  | nullable e g of ih =>
    exact List.forall_mem_singleton.2 (addressed_nullable h (ih (wellFormed_mk.1 hvalid).2.2 h))
  | oneOf e g discriminator alternatives default ih =>
    have hunder := wellFormedMembers_iff.1 (wellFormed_mk.1 hvalid).2.2
    refine List.forall_mem_singleton.2 (addressed_oneOf h discriminator fun a ha => ?_)
    rw [compileAlternatives_eq] at ha
    obtain ⟨p, hp, rfl⟩ := List.mem_map.1 ha
    exact ih p hp (hunder p hp) h

/-- What a slot holds is captured at its path, or nothing is captured above it or under it. -/
def Held (captured : CapturedValues) (path : String) : Prop :=
  (∃ v, isDecoded v = true ∧ CapturedAt captured path v) ∨
    ∀ p ∈ captured, ¬p.1.toList <+: path.toList ∧ ¬path.toList <+: p.1.toList

theorem at_held {path : String} (h : Held captured path) : ∃ v, At captured path v := by
  obtain ⟨v, hv, hcaptured⟩ | hmissing := h
  · exact ⟨v, at_captured hv hcaptured⟩
  · exact ⟨.absent, at_missing hmissing⟩

/-- In a compiled plan's execution a read of an array's element, or under an entry's value, is recorded at a path that
resolves to what was read; a read of a whole entry, at its member's. -/
theorem current_reads_named (spec : InteractionSpec) (assignment : Assignment) (variantId : Option String)
    (libraries : Libraries) (content : Option ContentDetector) (actions : Option ActionApplier) (captured : CapturedValues)
    (hshapes : ∀ part ∈ spec.parts, ∀ slot ∈ part.2, wellFormed slot.2 = true)
    (hslots : ∀ part ∈ spec.parts, ∀ slot ∈ part.2, Held captured ("$." ++ Path.root part.1 slot.1)) :
    ∀ r ∈ currentReads false
        (Interpret.run (compile spec assignment variantId).root ⟨libraries, resolve captured, content, actions, [], []⟩),
      Named captured r := by
  refine reads_named _ false false _ (.container fun m hm => ?_) ⟨rfl, fun h => by cases h⟩
  obtain ⟨part, hpart, rfl⟩ := List.mem_map.1 hm
  refine .container fun m hm => ?_
  obtain ⟨slot, hslot, rfl⟩ := List.mem_map.1 hm
  have hat := at_held (hslots part hpart slot hslot)
  exact .container (addressed_compileShape (hshapes part hpart slot hslot) hat)

/-- An interaction whose body is an array of anything. -/
private def listed : InteractionSpec :=
  ⟨"listed", [("response", [("body", .of (.eachLike (.of .any) 1 none))])]⟩

private def listedElements : CapturedValues := [("$.response.body", .array [.bool true, .null])]

theorem current_reads_named_elements :
    (currentReads false (Interpret.run (compile listed [] none).root
      ⟨bareEnv.libraries, resolve listedElements, none, none, [], []⟩)).Forall (Named listedElements) := by
  have hheld : Held listedElements "$.response.body" :=
    Or.inl ⟨.array [.bool true, .null], by decide, by simp [listedElements], by simp [listedElements]⟩
  refine List.forall_iff_forall_mem.2
    (current_reads_named listed [] none bareEnv.libraries none none listedElements (by decide) ?_)
  exact List.forall_mem_singleton.2 (List.forall_mem_singleton.2 hheld)

private def listedMembers : CapturedValues := [("$.response.body", .object [("a", .bool true)])]

private theorem listedMembers_at : At listedMembers "$.response.body" (.object [("a", .bool true)]) :=
  at_captured (by decide) ⟨by simp [listedMembers], by simp [listedMembers]⟩

/-- Going through an object, the items of an array are its entries, each recorded where its value is. -/
theorem entry_recorded_at_its_value :
    ∃ r ∈ currentReads false (Interpret.run (compile listed [] none).root
        ⟨bareEnv.libraries, resolve listedMembers, none, none, [], []⟩),
      r = ⟨"~>", some "$.response.body.a", .entry "a" (.bool true), true⟩ ∧
        resolve listedMembers "$.response.body.a" = .bool true := by
  have hbody := listedMembers_at.here
  have hplace : memberPath "$.response.body" "a" = "$.response.body.a" := by decide
  have hmember := (At.member listedMembers_at "a").here
  rw [hplace] at hmember
  refine ⟨_, ?_, rfl, hmember⟩
  have hroot : (compile listed [] none).root = .container (some "listed") [.container (some "response")
    [.container (some "body") [.action "expect:array" [.resolve "$.response.body"],
      .action "expect:size" [.resolve "$.response.body", .value (Literal.number 1), .value Literal.null],
      .action "flow:for-each" [.splat [.resolve "$.response.body"], .container (some "$.response.body[*]")
        [.action "match:any" [.resolveCurrent "~>"]]]]]] := rfl
  have hloop : Interpret.tooFew "flow:for-each" 2 = none := by decide
  have hany : Interpret.tooFew "match:any" 1 = none := by decide
  rw [hroot]
  refine reads_container (List.mem_singleton.2 rfl) (reads_container (List.mem_singleton.2 rfl) (reads_container
    (List.mem_cons_of_mem _ (List.mem_cons_of_mem _ (List.mem_singleton.2 rfl))) ?_))
  simp only [Interpret.run, List.length_cons, List.length_nil, Nat.zero_add, Nat.reduceAdd, hloop, Interpret.runForEach,
    hbody, valueOf, resultOf, Interpret.iterationItems, currentReads, readsUnder, if_true, throughEntries,
    Interpret.isObject]
  refine List.mem_append_right _ (readsOfAll_iff.2 ⟨_, List.mem_singleton.2 rfl, reads_container
    (List.mem_singleton.2 rfl) ?_⟩)
  simp [Interpret.itemPath, pathOf, hplace, Interpret.run, hany, Interpret.runAll, Interpret.Ctx.push,
    Interpret.absolutePath, Interpret.withoutSigil, navigate, currentReads, readsUnder]

end PactJanus.Plan.Addressing
