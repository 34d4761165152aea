import PactJanus.Plan.Accepts

namespace PactJanus.Plan.Good

open PactJanus.Plan.Model PactJanus.Plan.Value PactJanus.Plan.Result PactJanus.Plan.Interpret PactJanus.Plan.Outcome
  PactJanus.Plan.Accepts

/-- What an executed node says: to the action around it when `strict`, to the outcome otherwise. -/
def good (strict : Bool) (e : Executed) : Prop := if strict then childFailed e = false else clean e

@[simp] theorem good_true {e : Executed} : good true e ↔ childFailed e = false := by simp [good]

@[simp] theorem good_false {e : Executed} : good false e ↔ clean e := by simp [good]

theorem childFailed_of_result {e : Executed} {r : NodeResult} (hr : resultOf e = some r) :
    childFailed e = !resultGood true r := by
  unfold childFailed
  rw [hr]
  cases r with
  | value v =>
    cases v with
    | bool b => cases b <;> rfl
    | _ => rfl
  | _ => rfl

theorem resultGood_false (r : NodeResult) : resultGood false r = !isError r := by
  cases r with
  | value v =>
    cases v with
    | bool b => cases b <;> rfl
    | _ => rfl
  | _ => rfl

theorem clean_of_result {e : Executed} {r : NodeResult} (hr : resultOf e = some r) :
    clean e ↔ resultGood false r = true ∧ ∀ child ∈ childrenOf e, clean child := by
  rw [clean_iff, hr, resultGood_false, Option.all_some]

/-- A node over clean children says what its own result says. -/
theorem good_of_result {strict : Bool} {e : Executed} {r : NodeResult} (hr : resultOf e = some r)
    (hc : ∀ child ∈ childrenOf e, clean child) : good strict e ↔ resultGood strict r = true := by
  cases strict with
  | true => rw [good_true, childFailed_of_result hr, Bool.not_eq_false']
  | false => rw [good_false, clean_of_result hr, and_iff_left hc]

theorem good_container {strict : Bool} (label : Option String) {es : List Executed} :
    good strict (.container label es (some (.value (.bool (!es.any childFailed))))) ↔ ∀ e ∈ es, good strict e := by
  cases strict with
  | true =>
    rw [good_true, childFailed_of_result rfl]
    cases h : es.any childFailed with
    | true =>
      obtain ⟨e, he, hf⟩ := List.any_eq_true.1 h
      refine ⟨fun hgood => absurd hgood (by simp [resultGood]), fun hall => ?_⟩
      exact absurd (good_true.1 (hall e he)) (by simp [hf])
    | false =>
      refine ⟨fun _ e he => good_true.2 ?_, fun _ => rfl⟩
      simpa using List.any_eq_false.1 h e he
  | false =>
    rw [good_false, clean_of_result rfl]
    cases es.any childFailed <;> simp [resultGood, childrenOf]

/-- A branch taken passes its own result on. -/
theorem good_branch {strict : Bool} {name : String} {es : List Executed} {b : Executed} (hb : b ∈ es)
    (hc : ∀ e ∈ es, e = b ∨ clean e) :
    good strict (.action name es (some (.value (.bool (!childFailed b))))) ↔ good strict b := by
  cases strict with
  | true =>
    rw [good_true, childFailed_of_result rfl, good_true]
    cases h : childFailed b <;> simp [resultGood]
  | false =>
    have hresult : resultGood false (.value (.bool (!childFailed b))) = true := by
      cases childFailed b <;> rfl
    rw [good_false, clean_of_result rfl, good_false]
    exact ⟨fun h => h.2 b hb, fun h => ⟨hresult, fun e he => (hc e he).elim (fun heq => heq ▸ h) id⟩⟩

/-- Items run under a loop all have to be good. -/
theorem good_loop {strict : Bool} {name : String} {source : Executed} {es : List Executed} (hsource : clean source) :
    good strict (.action name (source :: es) (some (.value (.bool (!es.any childFailed))))) ↔
      ∀ e ∈ es, good strict e := by
  rw [← good_container none]
  cases strict with
  | true => rw [good_true, childFailed_of_result rfl, good_true, childFailed_of_result rfl]
  | false =>
    rw [good_false, clean_of_result rfl, good_false, clean_of_result rfl]
    simp [childrenOf, hsource]

end PactJanus.Plan.Good

namespace PactJanus.Plan.Positions

open PactJanus.Shape PactJanus.Plan.Model PactJanus.Plan.Value PactJanus.Plan.Result PactJanus.Plan.Interpret
  PactJanus.Plan.Compile PactJanus.Plan.Navigation PactJanus.Plan.Outcome PactJanus.Plan.Accepts PactJanus.Plan.Good

/-! A position resolves to a value at a place. -/

/-- The cursor after further steps. -/
def extend (cursor : Cursor) (steps : List Step) : Cursor :=
  match cursor with
  | .absolute p => .absolute (p ++ String.ofList (pathText steps))
  | .relative p => .relative (p ++ String.ofList (pathText steps))

/-- An executed node that yields a value found at a place. -/
structure Yields (e : Executed) (v : RuntimeValue) (place : String) : Prop where
  result : resultOf e = some (.value v)
  path : pathOf e = some place
  clean : clean e

theorem Yields.valueOf {e : Executed} {v : RuntimeValue} {place : String} (h : Yields e v place) : valueOf e = v := by
  simp [Result.valueOf, h.result]

theorem Yields.locus {e : Executed} {v : RuntimeValue} {place : String} (h : Yields e v place) (es : List Executed) :
    locus (e :: es) = some place := by
  simp [Result.locus, h.path]

/-- Every path under the cursor reads the value under `v`, and says it is at the place under `place`. -/
def Resolves (c : Interpret.Ctx) (cursor : Cursor) (v : RuntimeValue) (place : String) : Prop :=
  ∀ steps : List Step, (∀ s ∈ steps, s.fits) →
    Yields (run (extend cursor steps).resolve c) (walkSteps v steps) (place ++ String.ofList (pathText steps))

theorem extend_nil (cursor : Cursor) : extend cursor [] = cursor := by
  cases cursor <;> simp [extend, pathText]

theorem Resolves.here {c : Interpret.Ctx} {cursor : Cursor} {v : RuntimeValue} {place : String}
    (h : Resolves c cursor v place) : Yields (run cursor.resolve c) v place := by
  have := h [] (by simp)
  simpa [extend_nil, pathText, walkSteps] using this

theorem ofList_step_member (name : String) (steps : List Step) :
    String.ofList (pathText (.member name :: steps)) = memberSegment name ++ String.ofList (pathText steps) := by
  simp [pathText, Step.text, String.ofList_append]

theorem ofList_step_index (i : Nat) (steps : List Step) :
    String.ofList (pathText (.index i :: steps)) = "[" ++ i.repr ++ "]" ++ String.ofList (pathText steps) := by
  rw [← String.toList_inj]
  simp [pathText, Step.text]

theorem extend_member (cursor : Cursor) (name : String) (steps : List Step) :
    extend (cursor.member name) steps = extend cursor (.member name :: steps) := by
  cases cursor <;> simp [extend, Cursor.member, memberPath, ofList_step_member, String.append_assoc]

theorem extend_index (cursor : Cursor) (i : Nat) (steps : List Step) :
    extend (cursor.arrayIndex i) steps = extend cursor (.index i :: steps) := by
  cases cursor <;> simp [extend, Cursor.arrayIndex, Path.arrayIndex, ofList_step_index, String.append_assoc]

theorem Resolves.member {c : Interpret.Ctx} {cursor : Cursor} {v : RuntimeValue} {place : String}
    (h : Resolves c cursor v place) (name : String) :
    Resolves c (cursor.member name) (memberOf v name) (memberPath place name) := by
  intro steps hs
  have := h (.member name :: steps) (List.forall_mem_cons.2 ⟨trivial, hs⟩)
  rwa [extend_member, memberPath, String.append_assoc, ← ofList_step_member]

theorem Resolves.index {c : Interpret.Ctx} {cursor : Cursor} {v : RuntimeValue} {place : String}
    (h : Resolves c cursor v place) {i : Nat} (hi : i < 2 ^ 64) :
    Resolves c (cursor.arrayIndex i) (elementOf v i) (Path.arrayIndex place i) := by
  intro steps hs
  have := h (.index i :: steps) (List.forall_mem_cons.2 ⟨hi, hs⟩)
  rw [extend_index]
  have hplace : Path.arrayIndex place i ++ String.ofList (pathText steps) =
      place ++ String.ofList (pathText (.index i :: steps)) := by
    simp [Path.arrayIndex, ofList_step_index, String.append_assoc]
  rwa [hplace]

theorem resolves_root {env : Env} {root : String} {v : RuntimeValue} (hv : isDocument v = true) :
    Resolves ⟨env.libraries, Resolve.resolve [("$." ++ root, v)], env.content, env.actions, [], []⟩
      (.absolute ("$." ++ root)) v ("$." ++ root) := by
  intro steps hs
  refine ⟨?_, rfl, (clean_of_result rfl).2 ⟨?_, by simp [childrenOf, extend, Cursor.resolve, run]⟩⟩
  · simp [extend, Cursor.resolve, run, resultOf, resolve_captured hv hs]
  · rw [resultGood_false]
    rfl

/-- The sigil of an item's path does not belong to the path under the item. -/
theorem withoutSigil_item {rest : List Char} (path : String) (steps : List Step) (hp : path.toList = '~' :: '>' :: rest) :
    withoutSigil (path ++ String.ofList (pathText steps)) = rest ++ pathText steps := by
  unfold withoutSigil
  rw [String.toList_append, String.toList_ofList, hp]
  rfl

/-- What a path under the current item reads, once its sigil is off. -/
private theorem resolves_current {c : Interpret.Ctx} {item v : RuntimeValue} {path place : String} (rest : List Char)
    (hp : path.toList = '~' :: '>' :: rest)
    (hread : ∀ steps : List Step, (∀ s ∈ steps, s.fits) → navigate item (rest ++ pathText steps) = walkSteps v steps)
    (hplace : ∀ steps : List Step, absolutePath place item (rest ++ pathText steps) =
      place ++ String.ofList (pathText steps)) :
    Resolves (c.push item (some place)) (.relative path) v place := by
  intro steps hs
  refine ⟨?_, ?_, (clean_of_result rfl).2 ⟨?_, by simp [childrenOf, extend, Cursor.resolve, run]⟩⟩
  · simp [extend, Cursor.resolve, run, resultOf, Interpret.Ctx.push, withoutSigil_item path steps hp, hread steps hs]
  · simp [extend, Cursor.resolve, run, pathOf, Interpret.Ctx.push, withoutSigil_item path steps hp, hplace steps]
  · rw [resultGood_false]
    rfl

theorem resolves_item {c : Interpret.Ctx} {v : RuntimeValue} {place : String} (hv : isDocument v = true) :
    Resolves (c.push v (some place)) (.relative "~>") v place := by
  refine resolves_current [] (by decide) (fun steps hs => navigate_pathText hv hs) (fun steps => ?_)
  cases v with
  | entry key v => exact absurd hv (by simp [isDocument])
  | _ => rfl

theorem resolves_value {c : Interpret.Ctx} {key : String} {v : RuntimeValue} {place : String}
    (hv : isDocument v = true) : Resolves (c.push (.entry key v) (some place)) (.relative "~>.value") v place := by
  refine resolves_current ".value".toList (by decide) (fun steps hs => ?_) (fun steps => ?_)
  · rw [navigate_value, navigate_pathText hv hs]
  · simp [absolutePath]

theorem resolves_key {c : Interpret.Ctx} {key : String} {v : RuntimeValue} {place : String} :
    Resolves (c.push (.entry key v) (some place)) (.relative "~>.key") (.string key) place := by
  refine resolves_current ".key".toList (by decide) (fun steps hs => ?_) (fun steps => ?_)
  · rw [navigate_key, navigate_pathText rfl hs]
  · simp [absolutePath]

end PactJanus.Plan.Positions
