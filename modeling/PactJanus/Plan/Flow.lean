import PactJanus.Plan.Checks

namespace PactJanus.Plan.Flow

open PactJanus.Data.Json PactJanus.Plan.Model PactJanus.Plan.Value PactJanus.Plan.Result PactJanus.Plan.Interpret
  PactJanus.Plan.Compile PactJanus.Plan.Navigation PactJanus.Plan.Outcome PactJanus.Plan.Accepts PactJanus.Plan.Good
  PactJanus.Plan.Positions PactJanus.Plan.Checks

/-! What the control nodes the compiler emits make of the nodes under them. -/

theorem tooFew_eq_none {name : String} {count : Nat} (least : Nat) (h : Actions.leastChildren name = some least)
    (hle : least ≤ count) : tooFew name count = none := by
  simp [tooFew, h, Nat.not_lt.2 hle]

/-- Every node is good when it is run. -/
def allGood (strict : Bool) (c : Interpret.Ctx) (nodes : List Node) : Prop := ∀ n ∈ nodes, good strict (run n c)

theorem runAll_eq_map (nodes : List Node) (c : Interpret.Ctx) : runAll nodes c = nodes.map (run · c) := by
  induction nodes with
  | nil => rfl
  | cons n rest ih => simp [runAll, ih]

theorem good_runContainer {strict : Bool} {c : Interpret.Ctx} {label : Option String} {nodes : List Node} :
    good strict (run (.container label nodes) c) ↔ allGood strict c nodes := by
  rw [run, good_container, runAll_eq_map]
  simp [allGood]

theorem good_single {strict : Bool} {c : Interpret.Ctx} {nodes : List Node} :
    good strict (run (asSingleUnlabeled nodes) c) ↔ allGood strict c nodes := by
  unfold asSingleUnlabeled
  split
  · simp [allGood]
  · exact good_runContainer

/-- A condition without an alternative: its branch matters only where it holds. -/
theorem good_ifThen {strict : Bool} {c : Interpret.Ctx} {cond branch : Node} (hcond : clean (run cond c)) :
    good strict (run (.action "flow:if" [cond, branch]) c) ↔
      (resultTruthy (run cond c) = true → good strict (run branch c)) := by
  change good strict (runIf [cond, branch] c) ↔ _
  simp only [runIf]
  cases h : resultTruthy (run cond c) with
  | true =>
    rw [if_pos rfl, good_branch (by simp)]
    · simp
    · simp [hcond]
  | false =>
    rw [if_neg (by simp), good_of_result rfl]
    · simp
    · simp [childrenOf, hcond, clean_skip]

theorem good_ifThenElse {strict : Bool} {c : Interpret.Ctx} {cond branch otherwise : Node}
    (hcond : clean (run cond c)) :
    good strict (run (.action "flow:if" [cond, branch, otherwise]) c) ↔
      if resultTruthy (run cond c) then good strict (run branch c) else good strict (run otherwise c) := by
  change good strict (runIf [cond, branch, otherwise] c) ↔ _
  simp only [runIf]
  cases h : resultTruthy (run cond c) with
  | true =>
    rw [if_pos rfl, if_pos rfl, good_branch (by simp)]
    simp [hcond, clean_skip]
  | false =>
    rw [if_neg (by simp), if_neg (by simp), good_branch (by simp)]
    simp [hcond, clean_skip]

/-! The conditions: they are never errors themselves. -/

/-- An executed condition that is no error and says `b`. -/
structure Answers (e : Executed) (b : Bool) : Prop where
  result : resultOf e = some (.value (.bool b))
  clean : clean e

theorem Answers.truthy {e : Executed} {b : Bool} (h : Answers e b) : resultTruthy e = b := by
  rw [resultTruthy, h.result]
  cases b <;> rfl

private theorem answers_of_children {e : Executed} {b : Bool} (hr : resultOf e = some (.value (.bool b)))
    (hc : ∀ child ∈ childrenOf e, clean child) : Answers e b :=
  ⟨hr, (clean_of_result hr).2 ⟨by rw [resultGood_false]; rfl, hc⟩⟩

theorem answers_exists {c : Interpret.Ctx} {n : Node} {v : RuntimeValue} {place : String}
    (h : Yields (run n c) v place) : Answers (run (.action "check:exists" [n]) c) (!isAbsent v) := by
  refine answers_of_children ?_ ?_
  · change some (NodeResult.value (.bool (!isAbsent (valueOf (run n c))))) = _
    rw [h.valueOf]
  · change ∀ e ∈ [run n c], clean e
    simp [h.clean]

theorem answers_null {c : Interpret.Ctx} {n : Node} {v : RuntimeValue} {place : String}
    (h : Yields (run n c) v place) : Answers (run (.action "check:null" [n]) c) (isNullValue v) := by
  refine answers_of_children ?_ ?_
  · change some (NodeResult.value (.bool (isNullValue (valueOf (run n c))))) = _
    rw [h.valueOf]
  · change ∀ e ∈ [run n c], clean e
    simp [h.clean]

theorem answers_equals {c : Interpret.Ctx} {cursor : Cursor} {v : RuntimeValue} {place : String} (literal : Literal)
    (h : Yields (run cursor.resolve c) v place) :
    Answers (run (checkEquals cursor literal) c) (runtimeEq v (fromLiteral literal)) := by
  refine answers_of_children ?_ ?_
  · change some (NodeResult.value (.bool (runtimeEq (valueOf (run cursor.resolve c)) (fromLiteral literal)))) = _
    rw [h.valueOf]
  · change ∀ e ∈ [run cursor.resolve c, run (.value literal) c], clean e
    simp [h.clean, clean_literal]

/-- A disjunction of conditions stops at the first that holds, and tells whether there is one. -/
private theorem answers_runOr {c : Interpret.Ctx} (nodes : List Node) (holds : Node → Bool)
    (h : ∀ n ∈ nodes, Answers (run n c) (holds n)) (found : Bool) :
    (runOr nodes c found).2 = (found || nodes.any holds) ∧ ∀ e ∈ (runOr nodes c found).1, clean e := by
  induction nodes generalizing found with
  | nil => simp [runOr]
  | cons n rest ih =>
    have hrest := ih fun m hm => h m (List.mem_cons_of_mem _ hm)
    cases found with
    | true => simpa [runOr, clean_skip] using hrest true
    | false =>
      have hn := h n List.mem_cons_self
      have := hrest (resultTruthy (run n c))
      rw [hn.truthy] at this
      simpa [runOr, hn.truthy, hn.clean] using this

theorem answers_or {c : Interpret.Ctx} (nodes : List Node) (holds : Node → Bool)
    (h : ∀ n ∈ nodes, Answers (run n c) (holds n)) :
    Answers (run (.action "flow:or" nodes) c) (nodes.any holds) := by
  obtain ⟨hfound, hclean⟩ := answers_runOr nodes holds h false
  have hrun : run (.action "flow:or" nodes) c =
      .action "flow:or" (runOr nodes c false).1 (some (.value (.bool (runOr nodes c false).2))) := by
    rw [run, tooFew_eq_none 0 (by decide) (Nat.zero_le _)]
  rw [hrun]
  refine answers_of_children ?_ hclean
  simp [resultOf, hfound]

/-! Iteration, and the claiming of elements. -/

theorem good_forEach {strict : Bool} {c : Interpret.Ctx} {n item : Node} {v : RuntimeValue} {place : String}
    (h : Yields (run n c) v place) :
    good strict (run (.action "flow:for-each" [.splat [n], item]) c) ↔
      ∀ p ∈ itemPaths (some place) (iterationItems v), good strict (run item (c.push p.1 p.2)) := by
  change good strict (runForEach [.splat [n], item] c) ↔ _
  have hsplat : clean (.splat [run n c] (some (.value (.array (iterationItems v))))) :=
    (clean_of_result rfl).2 ⟨by rw [resultGood_false]; rfl, by simp [childrenOf, h.clean]⟩
  simp only [runForEach, h.valueOf, h.path]
  rw [good_loop hsplat, List.forall_mem_map]

/-- Each node claims the first item not yet claimed at which it does not fail. -/
def claimed (c : Interpret.Ctx) (items : List (RuntimeValue × Option String)) : List Node → List Bool → Bool
  | [], _ => true
  | n :: rest, used =>
    match firstFree (fun p => !childFailed (run n (c.push p.1 p.2))) items used 0 with
    | some i => claimed c items rest (used.set i true)
    | none => false

private theorem firstFit_some (attempt : RuntimeValue × Option String → Executed)
    {items : List (RuntimeValue × Option String)} {used : List Bool} {index i : Nat} (matched : Option (Nat × Executed))
    (h : firstFree (fun p => !childFailed (attempt p)) items used index = some i) :
    ∃ p ∈ items, firstFit attempt items used index matched = some (i, attempt p) ∧ childFailed (attempt p) = false := by
  induction items generalizing used index matched with
  | nil => simp [firstFree] at h
  | cons item rest ih =>
    cases used with
    | nil => simp [firstFree] at h
    | cons u us =>
      cases u with
      | true =>
        simp only [firstFree, if_pos] at h
        obtain ⟨p, hp, hfit, hok⟩ := ih matched h
        exact ⟨p, List.mem_cons_of_mem _ hp, by simpa [firstFit] using hfit, hok⟩
      | false =>
        cases hf : childFailed (attempt item) with
        | true =>
          simp only [firstFree, hf, Bool.false_eq_true, if_false, Bool.not_true] at h
          obtain ⟨p, hp, hfit, hok⟩ := ih (some (index, attempt item)) h
          exact ⟨p, List.mem_cons_of_mem _ hp, by simpa [firstFit, hf] using hfit, hok⟩
        | false =>
          simp [firstFree, hf] at h
          subst h
          exact ⟨item, List.mem_cons_self, by simp [firstFit, hf], hf⟩

private theorem firstFit_none (attempt : RuntimeValue × Option String → Executed)
    {items : List (RuntimeValue × Option String)} {used : List Bool} {index : Nat} (matched : Option (Nat × Executed))
    (h : firstFree (fun p => !childFailed (attempt p)) items used index = none)
    (hm : ∀ r ∈ matched, childFailed r.2 = true) :
    ∀ r ∈ firstFit attempt items used index matched, childFailed r.2 = true := by
  induction items generalizing used index matched with
  | nil => simpa [firstFit] using hm
  | cons item rest ih =>
    cases used with
    | nil => simpa [firstFit] using hm
    | cons u us =>
      cases u with
      | true =>
        simp only [firstFree, if_pos] at h
        simpa [firstFit] using ih matched h hm
      | false =>
        cases hf : childFailed (attempt item) with
        | true =>
          simp only [firstFree, hf, Bool.false_eq_true, if_false, Bool.not_true] at h
          simpa [firstFit, hf] using ih (some (index, attempt item)) h (by simp [hf])
        | false => simp [firstFree, hf] at h

theorem runEntries_claimed (c : Interpret.Ctx) (items : List (RuntimeValue × Option String))
    (nodes : List Node) (used : List Bool) :
    (runEntries nodes c items used).2 = !claimed c items nodes used ∧
      (claimed c items nodes used = true → ∀ e ∈ (runEntries nodes c items used).1,
        ∃ n ∈ nodes, ∃ p ∈ items, e = run n (c.push p.1 p.2) ∧ childFailed e = false) := by
  induction nodes generalizing used with
  | nil => simp [runEntries, claimed]
  | cons n rest ih =>
    cases hfree : firstFree (fun p => !childFailed (run n (c.push p.1 p.2))) items used 0 with
    | some i =>
      obtain ⟨p, hp, hfit, hok⟩ := firstFit_some (fun p => run n (c.push p.1 p.2)) none hfree
      have hrest := ih (used.set i true)
      simp only [runEntries, hfit, hok, claimed, hfree, Bool.false_eq_true, if_false]
      refine ⟨hrest.1, fun hclaimed e he => ?_⟩
      obtain rfl | he := List.mem_cons.1 he
      · exact ⟨n, List.mem_cons_self, p, hp, rfl, hok⟩
      · obtain ⟨m, hm, hrun⟩ := hrest.2 hclaimed e he
        exact ⟨m, List.mem_cons_of_mem _ hm, hrun⟩
    | none =>
      have hfail := firstFit_none (fun p => run n (c.push p.1 p.2)) none hfree (by simp)
      simp only [claimed, hfree, Bool.false_eq_true, false_implies, and_true, Bool.not_false]
      cases hfit : firstFit (fun p => run n (c.push p.1 p.2)) items used 0 none with
      | none => simp [runEntries, hfit]
      | some r =>
        have hr : childFailed r.2 = true := hfail r (by simp [hfit])
        obtain ⟨j, e⟩ := r
        simp only at hr
        simp [runEntries, hfit, hr]

theorem good_contains {strict : Bool} {c : Interpret.Ctx} {n : Node} {entries : List Node} {items : List RuntimeValue}
    {place : String} (h : Yields (run n c) (.array items) place)
    (hclean : ∀ m ∈ entries, ∀ p ∈ itemPaths (some place) items,
      childFailed (run m (c.push p.1 p.2)) = false → clean (run m (c.push p.1 p.2))) :
    good strict (run (.action "match:contains" (n :: entries)) c) ↔
      claimed c (itemPaths (some place) items) entries (items.map fun _ => false) = true := by
  have hrun : run (.action "match:contains" (n :: entries)) c = runContains (n :: entries) c := by
    rw [run, tooFew_eq_none 1 (by decide) (by simp)]
  rw [hrun]
  have hused : (itemPaths (some place) items).map (fun _ => false) = items.map fun _ => false := by
    simp [itemPaths, List.mapIdx_eq_zipIdx_map, Function.comp_def]
  simp only [runContains, h.valueOf, h.path, hused]
  obtain ⟨hfailed, hkept⟩ := runEntries_claimed c (itemPaths (some place) items) entries
    (items.map fun _ => false)
  cases hc : claimed c (itemPaths (some place) items) entries (items.map fun _ => false) with
  | true =>
    rw [hc, Bool.not_true] at hfailed
    rw [hfailed, good_of_result rfl]
    · simp [containsResult]
    · intro e he
      obtain rfl | he := List.mem_cons.1 he
      · exact h.clean
      · obtain ⟨m, hm, p, hp, rfl, hok⟩ := hkept hc e he
        exact hclean m hm p hp hok
  | false =>
    rw [hc, Bool.not_false] at hfailed
    rw [hfailed]
    cases strict with
    | true => rw [good_true, childFailed_of_result rfl]; simp [containsResult]
    | false => rw [good_false, clean_of_result rfl]; simp [containsResult]

end PactJanus.Plan.Flow
