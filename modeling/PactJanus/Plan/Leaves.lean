import PactJanus.Plan.Flow
import PactJanus.Shape.Valid

namespace PactJanus.Plan.Leaves

open PactJanus.Data.Json PactJanus.Shape PactJanus.Shape.Model PactJanus.Shape.VariantSpace PactJanus.Shape.Valid
  PactJanus.Plan.Model PactJanus.Plan.Value PactJanus.Plan.Result PactJanus.Plan.Interpret PactJanus.Plan.Compile
  PactJanus.Plan.Navigation PactJanus.Plan.Outcome PactJanus.Plan.Accepts PactJanus.Plan.Good PactJanus.Plan.Positions
  PactJanus.Plan.Checks PactJanus.Plan.Flow

def envOf (c : Interpret.Ctx) : Env := ⟨c.libraries, c.content, c.actions⟩

theorem allGood_nil {strict : Bool} {c : Interpret.Ctx} : allGood strict c [] ↔ True := by simp [allGood]

theorem allGood_one {strict : Bool} {c : Interpret.Ctx} {n : Node} : allGood strict c [n] ↔ good strict (run n c) := by
  simp [allGood]

theorem allGood_cons {strict : Bool} {c : Interpret.Ctx} {n : Node} {ns : List Node} :
    allGood strict c (n :: ns) ↔ good strict (run n c) ∧ allGood strict c ns := by
  simp [allGood]

/-- A check of one value: what it finds is what it makes of the value. -/
theorem good_check {strict : Bool} {c : Interpret.Ctx} {name : String} {n : Node} {v : RuntimeValue}
    {place : String} (result : List Executed → NodeResult) {b : Bool} (h : Yields (run n c) v place)
    (hrun : run (.action name [n]) c = .action name [run n c] (some (result [run n c])))
    (hresult : ∀ es, valueAt es 0 = v → resultGood strict (result es) = b) :
    good strict (run (.action name [n]) c) ↔ b = true := by
  rw [hrun, good_of_result rfl (by simp [childrenOf, h.clean]), hresult _ (by simp [h.valueOf])]

/-- A check of one value against a literal. -/
theorem good_against {strict : Bool} {c : Interpret.Ctx} {name : String} {n : Node} {literal : Literal}
    {v : RuntimeValue} {place : String} (result : List Executed → NodeResult) {b : Bool} (h : Yields (run n c) v place)
    (hrun : run (.action name [n, .value literal]) c =
      .action name [run n c, run (.value literal) c] (some (result [run n c, run (.value literal) c])))
    (hresult : ∀ es, valueAt es 0 = v → valueAt es 1 = fromLiteral literal → locus es = some place →
      resultGood strict (result es) = b) :
    good strict (run (.action name [n, .value literal]) c) ↔ b = true := by
  rw [hrun, good_of_result rfl (by simp [childrenOf, h.clean, clean_literal]),
    hresult _ (by simp [h.valueOf]) (by simp) (h.locus _)]

private theorem run_kind (k : ValueKind) (n : Node) (c : Interpret.Ctx) :
    run (.action ("match:" ++ k.operatorName) [n]) c =
      .action ("match:" ++ k.operatorName) [run n c] (some (matchKind [run n c] (kindHolds k) k.operatorName)) := by
  cases k <;> rfl

private theorem run_temporal (k : TemporalKind) (n : Node) (c : Interpret.Ctx) :
    run (.action ("match:" ++ k.operatorName) [n]) c =
      .action ("match:" ++ k.operatorName) [run n c]
        (some (matchTemporal c.libraries [run n c] (defaultFormat k) k.operatorName)) := by
  cases k <;> rfl

private theorem run_temporal_format (k : TemporalKind) (n : Node) (literal : Literal) (c : Interpret.Ctx) :
    run (.action ("match:" ++ k.operatorName) [n, .value literal]) c =
      .action ("match:" ++ k.operatorName) [run n c, run (.value literal) c]
        (some (matchTemporal c.libraries [run n c, run (.value literal) c] (defaultFormat k) k.operatorName)) := by
  cases k <;> rfl

private theorem good_temporal {strict : Bool} {c : Interpret.Ctx} {n : Node} {v : RuntimeValue} {place : String}
    (h : Yields (run n c) v place) (k : TemporalKind) (format : Option String) :
    good strict (run (.action ("match:" ++ k.operatorName)
        (n :: (format.map fun f => Node.value (Literal.string f)).toList)) c) ↔
      ((asText v).any fun s => (c.libraries.validateDatetime s (format.getD (defaultFormat k))).isOk) = true := by
  cases format with
  | none =>
    simp only [Option.map_none, Option.toList_none]
    rw [run_temporal, good_of_result rfl (by simp [childrenOf, h.clean]), good_matchTemporal]
    simp [h.valueOf]
  | some f =>
    simp only [Option.map_some, Option.toList_some]
    rw [run_temporal_format, good_of_result rfl (by simp [childrenOf, h.clean, clean_literal]), good_matchTemporal]
    simp [h.valueOf, Literal.string, fromLiteral, fromJson, plainText]

theorem fromLiteral_fromJson (value : Json) : fromLiteral (Literal.fromJson value) = fromJson value := by
  cases value <;> rfl

private theorem good_anyOf {strict : Bool} {c : Interpret.Ctx} {n : Node} {v : RuntimeValue} {place : String}
    (h : Yields (run n c) v place) (options : List Json) :
    good strict (run (.action "match:any-of" (n :: options.map fun o => .value (Literal.fromJson o))) c) ↔
      options.any (fun o => runtimeEq (fromJson o) v) = true := by
  have hrun : run (.action "match:any-of" (n :: options.map fun o => .value (Literal.fromJson o))) c =
      .action "match:any-of" (run n c :: options.map fun o => run (.value (Literal.fromJson o)) c)
        (some (matchAnyOf (run n c :: options.map fun o => run (.value (Literal.fromJson o)) c))) := by
    rw [run, tooFew_eq_none 1 (by decide) (by simp), runAll_eq_map]
    · simp only [List.map_cons, List.map_map, Function.comp_def]
      rfl
    all_goals simp
  rw [hrun, good_of_result rfl (by simp [childrenOf, h.clean, clean_literal]), good_matchAnyOf]
  simp [List.any_map, Function.comp_def, h.valueOf, fromLiteral_fromJson]

private theorem core_not_component : ∀ p ∈ Actions.core, Actions.isComponentAction p.1 = false := by decide

/-- A component's action has no core action's name. -/
theorem run_component {operator : String} (h : Actions.isComponentAction operator = true) (children : List Node)
    (c : Interpret.Ctx) :
    run (.action operator children) c =
      .action operator (runAll children c) (some (applyComponent operator (runAll children c) c.actions)) := by
  have hleast : Actions.leastChildren operator = none := by
    cases hl : Actions.core.lookup operator with
    | none => simp [Actions.leastChildren, hl]
    | some entry => exact absurd h (by simp [core_not_component _ (Lib.Lists.mem_of_lookup hl)])
  have hfew : tooFew operator children.length = none := by simp [tooFew, hleast]
  rw [run, hfew]
  · simp only [if_pos h]
  all_goals
    rintro rfl
    exact absurd h (by decide)

private theorem applyComponent_congr {name : String} {es es' : List Executed} {actions : Option ActionApplier}
    (hvalues : es.map valueOf = es'.map valueOf) (hlocus : locus es = locus es') :
    applyComponent name es actions = applyComponent name es' actions := by
  unfold applyComponent
  rw [hvalues, hlocus]

theorem isComponentAction_of_operator {operator : String} (h : isComponentOperator operator = true) :
    Actions.isComponentAction operator = true := by
  unfold isComponentOperator at h
  unfold Actions.isComponentAction
  cases hs : Lib.Text.splitOnce ':' operator with
  | none => simp [hs] at h
  | some parts =>
    simp only [hs, Bool.and_eq_true, decide_eq_true_eq] at h
    simpa using h.2

/-- What a leaf compiles to is good on the values it accepts, wherever its value comes from. -/
theorem good_leaf {strict : Bool} {c : Interpret.Ctx} {ctx : Compile.Ctx} {v : RuntimeValue} {place : String}
    (hy : Yields (run ctx.resolve c) v place) {e : Option Example} {g : Option Json} {k : ShapeKind} (hk : isLeaf k = true)
    (hoperator : ∀ operator raw, k = .component operator raw → isComponentOperator operator = true) :
    allGood strict c (compileShape ⟨e, g, k⟩ ctx) ↔
      accepts strict (envOf c) ctx.assignment ⟨e, g, k⟩ ctx.path place v = true := by
  cases k with
  | component operator raw =>
    simp only [compileShape, accepts, leafAccepts, allGood_one, compileComponent]
    have hop : isComponentOperator operator = true := hoperator operator raw rfl
    rw [run_component (isComponentAction_of_operator hop), good_of_result rfl (by simp [childrenOf, runAll, hy.clean, clean_literal])]
    have hsame : applyComponent operator (runAll [ctx.resolve, .value (Literal.fromJson (.object raw))] c) c.actions =
        componentResult (envOf c) operator raw place v := by
      refine applyComponent_congr ?_ (hy.locus _)
      simp only [runAll, List.map_cons, List.map_nil, hy.valueOf, valueOf_literal, fromLiteral_fromJson]
      rfl
    rw [hsame]
  | any =>
    simp only [compileShape, accepts, leafAccepts, allGood_one]
    exact good_check (fun es => if isAbsent (valueAt es 0) then
      .error "Expected a value but it was absent" (locus es) else .value (.bool true)) hy rfl fun es hv => by
        rw [hv]
        cases isAbsent v <;> rfl
  | equality =>
    simp only [compileShape, accepts, leafAccepts, allGood_one]
    exact good_against matchEquality hy rfl fun es hv hl _ => by rw [good_matchEquality, hv, hl]
  | type =>
    simp only [compileShape, accepts, leafAccepts, allGood_one]
    exact good_against matchType hy rfl fun es hv hl _ => by rw [good_matchType, hv, hl]
  | kind k =>
    simp only [compileShape, accepts, leafAccepts, allGood_one]
    exact good_check (fun es => matchKind es (kindHolds k) k.operatorName) hy (run_kind k _ c)
      fun es hv => by rw [good_matchKind, hv]
  | notEmpty =>
    simp only [compileShape, accepts, leafAccepts, allGood_one]
    exact good_check (fun es => expectForm es (fun v => !isEmpty v) "Expected a non-empty value but got ")
      hy rfl fun es hv => by rw [good_expectForm, hv]
  | regex pattern =>
    simp only [compileShape, accepts, leafAccepts, allGood_one]
    exact good_against (matchRegex c.libraries) hy rfl fun es hv hl _ => by rw [good_matchRegex hl, hv]; rfl
  | temporal k format =>
    simp only [compileShape, accepts, leafAccepts, allGood_one]
    exact good_temporal hy k format
  | includes substring =>
    simp only [compileShape, accepts, leafAccepts, allGood_one]
    exact good_against matchInclude hy rfl fun es hv hl _ => by rw [good_matchInclude hl, hv]
  | contentType contentType =>
    simp only [compileShape, accepts, leafAccepts, allGood_one]
    exact good_against (matchContentType c.content) hy rfl fun es hv hl hp => by
      rw [good_matchContentType hl, hv, hp]
      rfl
  | semver =>
    simp only [compileShape, accepts, leafAccepts, allGood_one]
    exact good_check (matchSemver c.libraries) hy rfl fun es hv => by rw [good_matchSemver, hv]; rfl
  | forbidden =>
    simp only [compileShape, accepts, leafAccepts, allGood_one]
    exact good_check (fun es => expectForm es isAbsent "Expected no value but got ") hy rfl
      fun es hv => by rw [good_expectForm, hv]
  | anyOf options =>
    simp only [compileShape, accepts, allGood_one, compileAnyOf, anyOfAccepts]
    rw [show ctx.pinned .value = pin ctx.assignment ctx.path .value from rfl]
    cases (pin ctx.assignment ctx.path .value).bind fun point => options.find? fun o => canonicalPointName o == point with
    | some pinned =>
      exact good_against matchEquality hy rfl fun es hv hl _ => by
        rw [good_matchEquality, hv, hl, fromLiteral_fromJson]
    | none => exact good_anyOf hy options
  | _ => exact absurd hk (by simp [isLeaf])

theorem settles_leaf {strict : Bool} {c : Interpret.Ctx} {ctx : Compile.Ctx} {v : RuntimeValue} {place : String}
    (h : Resolves c ctx.cursor v place) {e : Option Example} {g : Option Json} {k : ShapeKind} (hk : isLeaf k = true)
    (hvalid : nodeValid e k = true) :
    allGood strict c (compileShape ⟨e, g, k⟩ ctx) ↔
      accepts strict (envOf c) ctx.assignment ⟨e, g, k⟩ ctx.path place v = true := by
  refine good_leaf h.here hk fun operator raw heq => ?_
  subst heq
  simp only [nodeValid, Bool.and_eq_true] at hvalid
  exact hvalid.1

end PactJanus.Plan.Leaves
