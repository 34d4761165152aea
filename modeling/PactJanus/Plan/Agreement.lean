import PactJanus.Plan.Verdict
import PactJanus.Shape.Nodes

namespace PactJanus.Plan.Agreement

open PactJanus.Data.Json PactJanus.Shape PactJanus.Shape.Model PactJanus.Shape.VariantSpace PactJanus.Shape.Valid
  PactJanus.Shape.Nodes PactJanus.Plan.Model PactJanus.Plan.Value PactJanus.Plan.Result PactJanus.Plan.Interpret
  PactJanus.Plan.Compile PactJanus.Plan.Navigation PactJanus.Plan.Outcome PactJanus.Plan.Accepts PactJanus.Plan.Good
  PactJanus.Plan.Positions PactJanus.Plan.Flow PactJanus.Plan.Leaves PactJanus.Plan.Settles
  PactJanus.Plan.Verdict

/-! What a compiled plan's root says, and the errors recorded under it, are one verdict, whatever a path resolves to. -/

variable {c : Interpret.Ctx} {ctx : Compile.Ctx} {v : RuntimeValue} {place : String}

/-- A node fails the node around it exactly where an error is recorded in it. -/
def Agrees (c : Interpret.Ctx) (n : Node) : Prop := good true (run n c) ↔ good false (run n c)

theorem agrees_of {n : Node} {p : Prop} (h : ∀ strict, good strict (run n c) ↔ p) : Agrees c n :=
  (h true).trans (h false).symm

theorem agrees_result {name : String} {es : List Executed} {r : NodeResult} (hc : ∀ e ∈ es, clean e)
    (hr : resultGood true r = resultGood false r) :
    good true (.action name es (some r)) ↔ good false (.action name es (some r)) := by
  have hgood : ∀ strict, good strict (.action name es (some r)) ↔ resultGood strict r = true :=
    fun _ => good_of_result rfl hc
  rw [hgood, hgood, hr]

theorem allGood_agree {nodes : List Node} (h : ∀ n ∈ nodes, Agrees c n) : allGood true c nodes ↔ allGood false c nodes :=
  forall₂_congr h

theorem agrees_container {label : Option String} {nodes : List Node} (h : ∀ n ∈ nodes, Agrees c n) :
    Agrees c (.container label nodes) := by
  rw [Agrees, good_runContainer, good_runContainer]
  exact allGood_agree h

theorem agrees_single {nodes : List Node} (h : ∀ n ∈ nodes, Agrees c n) : Agrees c (asSingleUnlabeled nodes) := by
  rw [Agrees, good_single, good_single]
  exact allGood_agree h

/-- Whatever a path resolves to, resolving it is no error. -/
theorem resolve_yields (cursor : Cursor) (c : Interpret.Ctx) : ∃ v place, Yields (run cursor.resolve c) v place := by
  cases cursor with
  | absolute path => exact ⟨_, _, rfl, rfl, (clean_iff _).2 ⟨rfl, by simp [Cursor.resolve, run, childrenOf]⟩⟩
  | relative path => exact ⟨_, _, rfl, rfl, (clean_iff _).2 ⟨rfl, by simp [Cursor.resolve, run, childrenOf]⟩⟩

theorem agrees_ifThen {cond branch : Node} {b : Bool} (hcond : Answers (run cond c) b) (h : Agrees c branch) :
    Agrees c (.action "flow:if" [cond, branch]) := by
  rw [Agrees, good_ifThen hcond.clean, good_ifThen hcond.clean]
  exact imp_congr_right fun _ => h

theorem agrees_ifThenElse {cond branch otherwise : Node} {b : Bool} (hcond : Answers (run cond c) b)
    (hbranch : Agrees c branch) (hotherwise : Agrees c otherwise) :
    Agrees c (.action "flow:if" [cond, branch, otherwise]) := by
  rw [Agrees, good_ifThenElse hcond.clean, good_ifThenElse hcond.clean]
  split
  · exact hbranch
  · exact hotherwise

theorem agrees_forEach {item : Node} (h : Yields (run ctx.resolve c) v place)
    (hitem : ∀ (value : RuntimeValue) (path : Option String), Agrees (c.push value path) item) :
    Agrees c (forEach ctx item) := by
  rw [Agrees, forEach, good_forEach h, good_forEach h]
  exact forall₂_congr fun p _ => hitem p.1 p.2

/-- The entries that claim an item are those that did not fail at it, and these recorded no error. -/
theorem agrees_contains {n : Node} {entries : List Node} (h : Yields (run n c) v place)
    (hentry : ∀ m ∈ entries, ∀ (value : RuntimeValue) (path : Option String), Agrees (c.push value path) m) :
    Agrees c (.action "match:contains" (n :: entries)) := by
  obtain ⟨items, hrun⟩ : ∃ items, run (.action "match:contains" (n :: entries)) c =
      .action "match:contains" (run n c :: (runEntries entries c items (items.map fun _ => false)).1)
        (some (containsResult (runEntries entries c items (items.map fun _ => false)).2)) := by
    rw [run, tooFew_eq_none 1 (by decide) (by simp)]
    exact ⟨_, rfl⟩
  rw [Agrees, hrun]
  obtain ⟨hfailed, hkept⟩ := runEntries_claimed c items entries (items.map fun _ => false)
  cases hc : claimed c items entries (items.map fun _ => false) with
  | false =>
    rw [hc, Bool.not_false] at hfailed
    rw [hfailed, good_true, good_false, childFailed_of_result rfl, clean_of_result rfl]
    simp [containsResult]
  | true =>
    rw [hc, Bool.not_true] at hfailed
    have hclean : ∀ e ∈ run n c :: (runEntries entries c items (items.map fun _ => false)).1, clean e := by
      refine List.forall_mem_cons.2 ⟨h.clean, fun e he => ?_⟩
      obtain ⟨m, hm, p, -, rfl, hok⟩ := hkept hc e he
      exact good_false.1 ((hentry m hm p.1 p.2).1 (good_true.2 hok))
    rw [hfailed]
    exact agrees_result hclean (by simp [containsResult])

theorem agrees_chain {cursor : Cursor} (h : Yields (run cursor.resolve c) v place) {last : Node} (hlast : Agrees c last)
    {alternatives : List Alternative} (hall : ∀ a ∈ alternatives, ∀ n ∈ a.nodes, Agrees c n) :
    Agrees c (alternatives.foldr (fun a chain =>
      .action "flow:if" [discriminatorCondition a.literals cursor, a.branch, chain]) last) := by
  induction alternatives with
  | nil => exact hlast
  | cons a rest ih =>
    obtain ⟨ha, hrest⟩ := List.forall_mem_cons.1 hall
    exact agrees_ifThenElse (answers_condition h a.literals) (agrees_container ha) (ih hrest)

theorem accepts_leaf_strict {env : Env} {α : Assignment} {e : Option Example} {g : Option Json} {k : ShapeKind}
    (hk : isLeaf k = true) (hcore : ∀ operator raw, k ≠ .component operator raw) :
    accepts true env α ⟨e, g, k⟩ ctx.path place v = accepts false env α ⟨e, g, k⟩ ctx.path place v := by
  cases k with
  | component operator raw => exact absurd rfl (hcore operator raw)
  | object | array | eachLike | eachEntry | contains | optional | nullable | oneOf => exact absurd hk (by simp [isLeaf])
  | _ => rfl

theorem compiled_leaf (e : Option Example) (g : Option Json) {k : ShapeKind} (hk : isLeaf k = true) (ctx : Compile.Ctx) :
    ∃ n, compileShape ⟨e, g, k⟩ ctx = [n] := by
  cases k with
  | object | array | eachLike | eachEntry | contains | optional | nullable | oneOf => exact absurd hk (by simp [isLeaf])
  | _ => exact ⟨_, rfl⟩

theorem agrees_cardinality (h : Yields (run ctx.resolve c) v place) (min : UInt64) (max : Option UInt64) :
    Agrees c (cardinalityAssertion ctx min max) := agrees_of fun _ => good_cardinality h min max

theorem agrees_okNode : Agrees c okNode := iff_of_true good_okNode good_okNode

theorem agrees_optional (h : Yields (run ctx.resolve c) v place) {nodes : List Node} (hof : ∀ n ∈ nodes, Agrees c n) :
    Agrees c (compileOptional nodes ctx) := by
  unfold compileOptional
  split
  · exact agrees_of fun _ => good_expectAbsent h
  · exact agrees_single hof
  · exact agrees_ifThen (answers_exists h) (agrees_single hof)

theorem agrees_nullable (h : Yields (run ctx.resolve c) v place) {nodes : List Node} (hof : ∀ n ∈ nodes, Agrees c n) :
    Agrees c (compileNullable nodes ctx) := by
  unfold compileNullable
  split
  · exact agrees_of fun strict => good_check (fun es => matchKind es isNullValue "null") h rfl
      fun es hes => by rw [Checks.good_matchKind, hes]
  · exact agrees_single hof
  · exact agrees_ifThenElse (answers_null h) agrees_okNode (agrees_single hof)

theorem agrees_oneOf (discriminator : String) {alternatives : List Alternative}
    (hall : ∀ a ∈ alternatives, ∀ n ∈ a.nodes, Agrees c n) : Agrees c (compileOneOf discriminator alternatives ctx) := by
  unfold compileOneOf
  split
  · rename_i pinned hpinned
    obtain ⟨point, -, hfind⟩ := Option.bind_eq_some_iff.1 hpinned
    exact agrees_container (hall pinned (List.mem_of_find?_eq_some hfind))
  · obtain ⟨w, at', hw⟩ := resolve_yields (ctx.cursor.member discriminator) c
    exact agrees_chain hw (iff_of_false (not_good_errorBranch _ _ _) (not_good_errorBranch _ _ _)) hall

/-- No node of the tree is a component's operator. -/
def CoreOnly (S : ShapeNode) : Prop := ∀ n ∈ nodes S, ∀ operator raw, n.kind ≠ .component operator raw

theorem coreOnly_child {e : Option Example} {g : Option Json} {k : ShapeKind} (h : CoreOnly ⟨e, g, k⟩) {s : ShapeNode}
    (hs : s ∈ children k) : CoreOnly s := (forall_nodes.1 h).2 s hs

/-- Every node compiled from a tree without component operators agrees, wherever it is run. -/
theorem compiled_agree {S : ShapeNode} (h : CoreOnly S) (c : Interpret.Ctx) (ctx : Compile.Ctx) :
    ∀ n ∈ compileShape S ctx, Agrees c n := by
  induction S generalizing c ctx with
  | leaf e g k hk =>
    obtain ⟨v, place, hy⟩ := resolve_yields ctx.cursor c
    obtain ⟨n, hn⟩ := compiled_leaf e g hk ctx
    have hcore : ∀ operator raw, k ≠ .component operator raw := h _ (mem_nodes_self _)
    have hleaf : ∀ strict, allGood strict c (compileShape ⟨e, g, k⟩ ctx) ↔
        accepts strict (envOf c) ctx.assignment ⟨e, g, k⟩ ctx.path place v = true := fun _ =>
      good_leaf hy hk fun operator raw heq => absurd heq (hcore operator raw)
    have htrue := hleaf true
    rw [accepts_leaf_strict hk hcore, ← hleaf false, hn, allGood_one, allGood_one] at htrue
    rw [hn]
    exact List.forall_mem_singleton.2 htrue
  | object e g members ih =>
    obtain ⟨v, place, hy⟩ := resolve_yields ctx.cursor c
    refine List.forall_mem_cons.2 ⟨agrees_of fun _ => good_expectObject hy, List.forall_mem_map.2 fun p hp => ?_⟩
    rw [mem_membersByName, compileMembers_eq] at hp
    obtain ⟨q, hq, rfl⟩ := List.mem_map.1 hp
    exact agrees_container (ih q hq (coreOnly_child h (List.mem_map_of_mem hq)) c _)
  | array e g entries ih =>
    obtain ⟨v, place, hy⟩ := resolve_yields ctx.cursor c
    refine List.forall_mem_cons.2 ⟨agrees_of fun _ => good_expectArray hy,
      List.forall_mem_cons.2 ⟨agrees_of fun _ => good_count hy _, fun n hn => ?_⟩⟩
    rw [compileEntries_eq] at hn
    obtain ⟨i, hi, rfl⟩ := List.mem_mapIdx.1 hn
    have hentry : entries[i] ∈ entries := List.getElem_mem hi
    exact agrees_container (ih _ hentry (coreOnly_child h hentry) c _)
  | eachLike e g items min max ih =>
    obtain ⟨v, place, hy⟩ := resolve_yields ctx.cursor c
    have hitems := ih (coreOnly_child h (List.mem_singleton.2 rfl))
    simp only [compileShape, List.forall_mem_cons, List.not_mem_nil, false_implies, implies_true, and_true]
    exact ⟨agrees_of fun _ => good_expectArray hy, agrees_cardinality hy min max,
      agrees_forEach hy fun value path => agrees_container (hitems _ _)⟩
  | eachEntry e g keys values min max ihk ihv =>
    obtain ⟨v, place, hy⟩ := resolve_yields ctx.cursor c
    have hvalues := ihv (coreOnly_child h (List.mem_append_right _ (List.mem_singleton.2 rfl)))
    simp only [compileShape, List.forall_mem_cons, List.not_mem_nil, false_implies, implies_true, and_true]
    refine ⟨agrees_of fun _ => good_expectObject hy, agrees_cardinality hy min max,
      agrees_forEach hy fun value path => agrees_container ?_⟩
    refine List.forall_mem_append.2 ⟨?_, List.forall_mem_singleton.2 (agrees_container (hvalues _ _))⟩
    cases keys with
    | none => simp [compileKeys]
    | some k =>
      have hk := ihk k rfl (coreOnly_child h (List.mem_append_left _ (by simp)))
      exact List.forall_mem_singleton.2 (agrees_container (hk _ _))
  | contains e g entries ih =>
    obtain ⟨v, place, hy⟩ := resolve_yields ctx.cursor c
    simp only [compileShape, List.forall_mem_cons, List.not_mem_nil, false_implies, implies_true, and_true]
    refine ⟨agrees_of fun _ => good_expectArray hy, agrees_contains hy fun n hn value path => ?_⟩
    rw [compileContains_eq] at hn
    obtain ⟨i, hi, rfl⟩ := List.mem_mapIdx.1 hn
    have hentry : entries[i] ∈ entries := List.getElem_mem hi
    exact agrees_container (ih _ hentry (coreOnly_child h hentry) _ _)
  | optional e g of ih =>
    obtain ⟨v, place, hy⟩ := resolve_yields ctx.cursor c
    exact List.forall_mem_singleton.2 (agrees_optional hy (ih (coreOnly_child h (List.mem_singleton.2 rfl)) c ctx))
  | nullable e g of ih =>
    obtain ⟨v, place, hy⟩ := resolve_yields ctx.cursor c
    exact List.forall_mem_singleton.2 (agrees_nullable hy (ih (coreOnly_child h (List.mem_singleton.2 rfl)) c ctx))
  | oneOf e g discriminator alternatives default ih =>
    refine List.forall_mem_singleton.2 (agrees_oneOf discriminator ?_)
    rw [compileAlternatives_eq]
    refine List.forall_mem_map.2 fun p hp => ?_
    exact ih p hp (coreOnly_child h (List.mem_map_of_mem hp)) c _

/-! The errors of an executed tree. -/

mutual

/-- The executed nodes of a tree. -/
def subtrees : Executed → List Executed
  | .container label children r => .container label children r :: subtreesAll children
  | .action name children r => .action name children r :: subtreesAll children
  | .value literal r => [.value literal r]
  | .resolve path r => [.resolve path r]
  | .resolveCurrent path absolute r => [.resolveCurrent path absolute r]
  | .pipeline children r => .pipeline children r :: subtreesAll children
  | .splat children r => .splat children r :: subtreesAll children
  | Executed.annotation text r => [Executed.annotation text r]
termination_by structural e => e

def subtreesAll : List Executed → List Executed
  | [] => []
  | e :: rest => subtrees e ++ subtreesAll rest
termination_by structural es => es

end

/-- Induction on an executed tree by the trees right under each node. -/
theorem executed_induction {motive : Executed → Prop} (node : ∀ e, (∀ child ∈ childrenOf e, motive child) → motive e)
    (e : Executed) : motive e :=
  @Executed.rec motive (fun es => ∀ e ∈ es, motive e)
    (fun _ _ _ ih => node _ ih) (fun _ _ _ ih => node _ ih) (fun _ _ => node _ (by simp [childrenOf]))
    (fun _ _ => node _ (by simp [childrenOf])) (fun _ _ _ => node _ (by simp [childrenOf]))
    (fun _ _ ih => node _ ih) (fun _ _ ih => node _ ih) (fun _ _ => node _ (by simp [childrenOf]))
    (by simp) (fun _ _ he hes => List.forall_mem_cons.2 ⟨he, hes⟩) e

/-- An error recorded by a node itself: the nodes under it recorded none. -/
def FailedLeaf (e : Executed) : Prop :=
  (∃ message path, resultOf e = some (.error message path)) ∧ ∀ child ∈ childrenOf e, clean child

private theorem mem_subtreesAll {x : Executed} {es : List Executed} : x ∈ subtreesAll es ↔ ∃ e ∈ es, x ∈ subtrees e := by
  induction es with
  | nil => simp [subtreesAll]
  | cons e rest ih => simp [subtreesAll, ih]

theorem mem_subtrees {x e : Executed} : x ∈ subtrees e ↔ x = e ∨ ∃ child ∈ childrenOf e, x ∈ subtrees child := by
  cases e <;> simp [subtrees, childrenOf, mem_subtreesAll]

/-- An error is reported of a tree exactly where some node of it recorded one of its own. -/
theorem not_clean_iff (e : Executed) : ¬ clean e ↔ ∃ x ∈ subtrees e, FailedLeaf x := by
  induction e using executed_induction with
  | node e ih =>
    by_cases hchildren : ∀ child ∈ childrenOf e, clean child
    · rw [clean_iff, and_iff_left hchildren]
      constructor
      · intro herror
        refine ⟨e, mem_subtrees.2 (Or.inl rfl), ?_, hchildren⟩
        cases hr : resultOf e with
        | none => exact absurd (by rw [hr]; rfl) herror
        | some r =>
          cases r with
          | error message path => exact ⟨message, path, rfl⟩
          | _ => exact absurd (by rw [hr]; rfl) herror
      · rintro ⟨x, hx, ⟨message, path, hr⟩, hclean⟩ hall
        obtain rfl | ⟨child, hchild, hx⟩ := mem_subtrees.1 hx
        · rw [hr] at hall
          exact absurd hall (by simp [isError])
        · exact (ih child hchild).2 ⟨x, hx, ⟨message, path, hr⟩, hclean⟩ (hchildren child hchild)
    · obtain ⟨child, hchild, hdirty⟩ : ∃ child ∈ childrenOf e, ¬ clean child := by
        simpa only [not_forall, exists_prop] using hchildren
      obtain ⟨x, hx, hfailed⟩ := (ih child hchild).1 hdirty
      exact iff_of_true (fun hclean => hdirty (((clean_iff e).1 hclean).2 child hchild))
        ⟨x, mem_subtrees.2 (Or.inr ⟨child, hchild, hx⟩), hfailed⟩

/-- No shape of an interaction has a component's operator in it. -/
def SpecCoreOnly (spec : InteractionSpec) : Prop := ∀ part ∈ spec.parts, ∀ slot ∈ part.2, CoreOnly slot.2

/-- For every plan compiled without component operators, under any assignment, and whatever its paths resolve to: the
outcome is a match exactly where the root's result is true, and a mismatch exactly where some node recorded an error. -/
theorem outcome_agrees_with_root {spec : InteractionSpec} (h : SpecCoreOnly spec) (α : Assignment)
    (variantId : Option String) (env : Env) (resolver : String → RuntimeValue) :
    let executed := execute (compile spec α variantId) env resolver
    ((outcome executed).1 = .matched ↔ resultOf executed = some (.value (.bool true))) ∧
      ((outcome executed).1 = .mismatched ↔ ∃ x ∈ subtrees executed, FailedLeaf x) ∧
      ((outcome executed).2 ≠ [] ↔ ∃ x ∈ subtrees executed, FailedLeaf x) := by
  intro executed
  have hroot : Agrees ⟨env.libraries, resolver, env.content, env.actions, [], []⟩ (compile spec α variantId).root := by
    refine agrees_container (List.forall_mem_map.2 fun part hpart => ?_)
    refine agrees_container (List.forall_mem_map.2 fun slot hslot => ?_)
    exact agrees_container (compiled_agree (h part hpart slot hslot) _ _)
  have hclean : clean executed ↔ childFailed executed = false := by
    rw [← good_false, ← good_true]
    exact hroot.symm
  have hresult : childFailed executed = false ↔ resultOf executed = some (.value (.bool true)) := by
    obtain ⟨failed, hfailed⟩ : ∃ b : Bool, resultOf executed = some (.value (.bool b)) := ⟨_, rfl⟩
    rw [childFailed, hfailed]
    cases failed <;> simp
  have hmismatched : (outcome executed).1 = .mismatched ↔ ¬ clean executed := by
    rw [← outcome_matched]
    cases (outcome executed).1 <;> simp
  refine ⟨(outcome_matched executed).trans (hclean.trans hresult), hmismatched.trans (not_clean_iff executed), ?_⟩
  exact not_clean_iff executed

/-- A response whose body is a list of texts. -/
def textsSpec : InteractionSpec :=
  ⟨"texts", [("response", [("body", .of (.eachLike (.of (.kind .string)) 1 none))])]⟩

/-- With nothing captured, the plan of a list of texts fails at its root and reports an error. -/
theorem nothing_is_no_list_of_texts :
    let executed := execute (compile textsSpec [] none) bareEnv fun _ => .absent
    ((outcome executed).1 = .matched ↔ resultOf executed = some (.value (.bool true))) ∧
      ((outcome executed).1 = .mismatched ↔ ∃ x ∈ subtrees executed, FailedLeaf x) ∧
      ((outcome executed).2 ≠ [] ↔ ∃ x ∈ subtrees executed, FailedLeaf x) := by
  refine outcome_agrees_with_root (?_ : SpecCoreOnly textsSpec) [] none bareEnv fun _ => .absent
  simp [SpecCoreOnly, textsSpec, CoreOnly, ShapeNode.of, nodes, nodesUnder]

end PactJanus.Plan.Agreement
