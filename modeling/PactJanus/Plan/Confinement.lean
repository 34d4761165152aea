import Mathlib.Data.Set.Basic
import PactJanus.Component.Content
import PactJanus.Lib.Fallible
import PactJanus.Plan.Flow
import PactJanus.Plan.Splice

namespace PactJanus.Plan.Confinement

open PactJanus.Data.Json PactJanus.Lib PactJanus.Component.Content PactJanus.Plan.Model PactJanus.Plan.Value
  PactJanus.Plan.Resolve PactJanus.Plan.Result PactJanus.Plan.Interpret PactJanus.Plan.Fragment PactJanus.Plan.Splice

/-! Where the values of a fragment can come from, and that it reads nothing of another slot. -/

/-- Places a value may come from, `none` being no place. -/
abbrev Places := Set (Option String)

/-- Where the items may be of what comes from one of some places. -/
def itemsOf (places : Places) : Places :=
  {p | ∃ source ∈ places, ∃ index item, p = source.map fun s => itemPath s index item}

mutual

/-- Where a node's value may come from, when what is current is at one of some places. -/
def located (here : Places) : Node → Places
  | .resolve path => {some path}
  | .resolveCurrent path =>
    {p | (none ∈ here ∧ p = some path) ∨ ∃ item base, some item ∈ here ∧ p = some (absolutePath item base (withoutSigil path))}
  | .action name children =>
    match tooFew name children.length with
    | some _ => {locus (skipAll children)}
    | none => locatedFirst here children
  | .pipeline children => locatedFirst here children
  | .splat children => locatedFirst here children
  | .container .. | .value _ | Node.annotation _ => {none}
termination_by structural node => node

def locatedFirst (here : Places) : List Node → Places
  | [] => {none}
  | first :: _ => located here first
termination_by structural nodes => nodes

end

mutual

/-- Each `match:content-type` of a node is of a value that comes from an allowed place. -/
def Confined (allowed : Places) : Node → Places → Prop
  | .container _ children, here => ConfinedAll allowed children here
  | .pipeline children, here => ConfinedSteps allowed children here
  | .splat children, here => ConfinedAll allowed children here
  | .action name children, here =>
    match name with
    | "flow:for-each" => ConfinedLoop allowed children here
    | "match:contains" => ConfinedEntries allowed children here
    | "legacy:array-contains" => ConfinedVariant allowed children here
    | "match:content-type" => locatedFirst here children ⊆ allowed ∧ ConfinedAll allowed children here
    | _ => ConfinedAll allowed children here
  | .value _, _ | .resolve _, _ | .resolveCurrent _, _ | Node.annotation _, _ => True
termination_by structural node => node

def ConfinedAll (allowed : Places) : List Node → Places → Prop
  | [], _ => True
  | node :: rest, here => Confined allowed node here ∧ ConfinedAll allowed rest here
termination_by structural nodes => nodes

/-- What a step of a pipeline yields may be current for those after it. -/
def ConfinedSteps (allowed : Places) : List Node → Places → Prop
  | [], _ => True
  | node :: rest, here => Confined allowed node here ∧ ConfinedSteps allowed rest (here ∪ located here node)
termination_by structural nodes => nodes

def ConfinedLoop (allowed : Places) : List Node → Places → Prop
  | source :: template :: _, here =>
    Confined allowed source here ∧ Confined allowed template (itemsOf (located here source))
  | _, _ => True
termination_by structural nodes => nodes

def ConfinedEntries (allowed : Places) : List Node → Places → Prop
  | source :: entries, here =>
    Confined allowed source here ∧ ConfinedAll allowed entries (itemsOf (located here source))
  | [], _ => True
termination_by structural nodes => nodes

def ConfinedVariant (allowed : Places) : List Node → Places → Prop
  | source :: template :: rest, here =>
    Confined allowed source here ∧ Confined allowed template (itemsOf (located here source)) ∧
      ConfinedAll allowed rest here
  | _, _ => True
termination_by structural nodes => nodes

end

mutual

/-- Each `resolve` of a node is of a path inside a slot. -/
def Within (slotPath : String) : Node → Prop
  | .resolve path => insideSlot slotPath path = true
  | .container _ children => WithinAll slotPath children
  | .action _ children => WithinAll slotPath children
  | .pipeline children => WithinAll slotPath children
  | .splat children => WithinAll slotPath children
  | .value _ | .resolveCurrent _ | Node.annotation _ => True
termination_by structural node => node

def WithinAll (slotPath : String) : List Node → Prop
  | [] => True
  | node :: rest => Within slotPath node ∧ WithinAll slotPath rest
termination_by structural nodes => nodes

end

/-- Two executions that differ only outside a slot, as far as what is at an allowed place tells. -/
structure Alike (allowed : Places) (slotPath : String) (c c' : Ctx) : Prop where
  libraries : c.libraries = c'.libraries
  actions : c.actions = c'.actions
  current : c.current = c'.current
  currentPaths : c.currentPaths = c'.currentPaths
  resolver : ∀ path, insideSlot slotPath path = true → c.resolver path = c'.resolver path
  content : ∀ children, locus children ∈ allowed → matchContentType c.content children = matchContentType c'.content children

variable {allowed here : Places} {slotPath : String} {c c' : Ctx}

theorem Alike.push (h : Alike allowed slotPath c c') (value : RuntimeValue) (path : Option String) :
    Alike allowed slotPath (c.push value path) (c'.push value path) where
  libraries := h.libraries
  actions := h.actions
  current := congrArg (value :: ·) h.current
  currentPaths := congrArg (path :: ·) h.currentPaths
  resolver := h.resolver
  content := h.content

/-- Where what is current may be. -/
def Current (here : Places) (c : Ctx) : Prop := c.currentPaths.headD none ∈ here

/-- A node executes to the same in two such executions, and its value comes from where it may. -/
def Agrees (allowed : Places) (slotPath : String) (node : Node) : Prop :=
  ∀ {here : Places} {c c' : Ctx}, Alike allowed slotPath c c' → Current here c → Confined allowed node here →
    Within slotPath node → run node c = run node c' ∧ pathOf (run node c) ∈ located here node

theorem dispatch_congr {name : String} {children : List Executed} (hlib : c.libraries = c'.libraries)
    (hcontent : name = "match:content-type" → matchContentType c.content children = matchContentType c'.content children) :
    dispatch name children c = dispatch name children c' := by
  unfold dispatch
  rw [hlib]
  split
  all_goals first | rfl | exact hcontent rfl

/-! What a node hands on, from what its children do. -/

theorem pathOf_action (name : String) (children : List Executed) (result : Option NodeResult) :
    pathOf (.action name children result) = locus children := by cases children <;> rfl

theorem pathOf_pipeline (children : List Executed) (result : Option NodeResult) :
    pathOf (.pipeline children result) = locus children := by cases children <;> rfl

theorem pathOf_splat (children : List Executed) (result : Option NodeResult) :
    pathOf (.splat children result) = locus children := by cases children <;> rfl

theorem current_push {p : RuntimeValue × Option String} (h : p.2 ∈ here) : Current here (c.push p.1 p.2) := h

theorem itemPaths_within {source : Option String} {items : List RuntimeValue} {places : Places} (h : source ∈ places)
    {p : RuntimeValue × Option String} (hp : p ∈ itemPaths source items) : p.2 ∈ itemsOf places := by
  obtain ⟨index, hindex, rfl⟩ := List.mem_mapIdx.1 hp
  exact ⟨source, h, index, items[index], rfl⟩

theorem firstFit_congr {attempt attempt' : RuntimeValue × Option String → Executed}
    {items : List (RuntimeValue × Option String)} (h : ∀ p ∈ items, attempt p = attempt' p) (used : List Bool)
    (index : Nat) (matched : Option (Nat × Executed)) :
    firstFit attempt items used index matched = firstFit attempt' items used index matched := by
  induction items generalizing used index matched with
  | nil => rfl
  | cons item rest ih =>
    have hrest := ih fun p hp => h p (List.mem_cons_of_mem _ hp)
    cases used with
    | nil => rfl
    | cons u us => simp only [firstFit, h item List.mem_cons_self, hrest]

theorem firstMatching_congr {attempt attempt' : RuntimeValue × Option String → Executed}
    {items : List (RuntimeValue × Option String)} (h : ∀ p ∈ items, attempt p = attempt' p) :
    firstMatching attempt items = firstMatching attempt' items := by
  induction items with
  | nil => rfl
  | cons item rest ih =>
    simp only [firstMatching, h item List.mem_cons_self, ih fun p hp => h p (List.mem_cons_of_mem _ hp)]

theorem confinedAll_iff (nodes : List Node) : ConfinedAll allowed nodes here ↔ ∀ n ∈ nodes, Confined allowed n here := by
  induction nodes with
  | nil => simp [ConfinedAll]
  | cons n rest ih => rw [ConfinedAll, ih, List.forall_mem_cons]

theorem withinAll_iff (nodes : List Node) : WithinAll slotPath nodes ↔ ∀ n ∈ nodes, Within slotPath n := by
  induction nodes with
  | nil => simp [WithinAll]
  | cons n rest ih => rw [WithinAll, ih, List.forall_mem_cons]

section

variable {nodes : List Node} (ih : ∀ n ∈ nodes, Agrees allowed slotPath n) (halike : Alike allowed slotPath c c')
  (hcurrent : Current here c) (hwithin : WithinAll slotPath nodes)
include ih halike hcurrent hwithin

theorem runAll_agrees (h : ConfinedAll allowed nodes here) :
    runAll nodes c = runAll nodes c' ∧ locus (runAll nodes c) ∈ locatedFirst here nodes := by
  induction nodes with
  | nil => exact ⟨rfl, rfl⟩
  | cons node rest ihr =>
    obtain ⟨heq, hpath⟩ := ih node List.mem_cons_self halike hcurrent h.1 hwithin.1
    obtain ⟨hrest, -⟩ := ihr (fun n hn => ih n (List.mem_cons_of_mem _ hn)) hwithin.2 h.2
    exact ⟨by rw [runAll, runAll, heq, hrest], hpath⟩

theorem runPipeline_agrees (last : NodeResult) (h : ConfinedSteps allowed nodes here) :
    runPipeline nodes c last = runPipeline nodes c' last ∧ locus (runPipeline nodes c last).1 ∈ locatedFirst here nodes := by
  induction nodes generalizing here c c' last with
  | nil => exact ⟨rfl, rfl⟩
  | cons node rest ihr =>
    obtain ⟨heq, hpath⟩ := ih node List.mem_cons_self halike hcurrent h.1 hwithin.1
    have hrest : ∀ {d d' : Ctx} (last : NodeResult), Alike allowed slotPath d d' →
        Current (here ∪ located here node) d → runPipeline rest d last = runPipeline rest d' last :=
      fun last hd hcur => (ihr (fun n hn => ih n (List.mem_cons_of_mem _ hn)) hd hcur hwithin.2 last h.2).1
    constructor
    · simp only [runPipeline, ← heq]
      split
      · rename_i v _
        rw [hrest _ (halike.push v (pathOf (run node c))) (Or.inr hpath)]
      · rw [hrest _ halike (Or.inl hcurrent)]
    · exact hpath

theorem runOr_agrees (success : Bool) (h : ConfinedAll allowed nodes here) :
    runOr nodes c success = runOr nodes c' success := by
  induction nodes generalizing success with
  | nil => rfl
  | cons node rest ihr =>
    obtain ⟨heq, -⟩ := ih node List.mem_cons_self halike hcurrent h.1 hwithin.1
    have hrest := fun success => ihr (fun n hn => ih n (List.mem_cons_of_mem _ hn)) hwithin.2 success h.2
    cases success with
    | true => simp only [runOr, if_true, hrest]
    | false => simp only [runOr, Bool.false_eq_true, if_false, heq, hrest]

omit hcurrent in
theorem runEntries_agrees (items : List (RuntimeValue × Option String)) (used : List Bool) {places : Places}
    (hitems : ∀ p ∈ items, p.2 ∈ places) (h : ConfinedAll allowed nodes places) :
    runEntries nodes c items used = runEntries nodes c' items used := by
  induction nodes generalizing used with
  | nil => rfl
  | cons node rest ihr =>
    have hattempt : ∀ p ∈ items, run node (c.push p.1 p.2) = run node (c'.push p.1 p.2) := fun p hp =>
      (ih node List.mem_cons_self (halike.push p.1 p.2) (current_push (hitems p hp)) h.1 hwithin.1).1
    have hrest := fun used => ihr (fun n hn => ih n (List.mem_cons_of_mem _ hn)) hwithin.2 used h.2
    simp only [runEntries, firstFit_congr hattempt, hrest]

theorem runIf_agrees (hleast : 2 ≤ nodes.length) (h : ConfinedAll allowed nodes here) :
    runIf nodes c = runIf nodes c' ∧ pathOf (runIf nodes c) ∈ locatedFirst here nodes := by
  have hrun : ∀ n ∈ nodes, run n c = run n c' := fun n hn =>
    (ih n hn halike hcurrent ((confinedAll_iff nodes).1 h n hn) ((withinAll_iff nodes).1 hwithin n hn)).1
  have hpath : ∀ n ∈ nodes, pathOf (run n c) ∈ located here n := fun n hn =>
    (ih n hn halike hcurrent ((confinedAll_iff nodes).1 h n hn) ((withinAll_iff nodes).1 hwithin n hn)).2
  match nodes, hleast with
  | [cond, branch], _ =>
    refine ⟨by simp only [runIf, hrun cond (by simp), hrun branch (by simp)], ?_⟩
    have hcond := hpath cond (by simp)
    simp only [runIf]
    split <;> exact hcond
  | cond :: branch :: otherwise :: more, _ =>
    refine ⟨by simp only [runIf, hrun cond (by simp), hrun branch (by simp), hrun otherwise (by simp)], ?_⟩
    have hcond := hpath cond (by simp)
    simp only [runIf]
    split <;> exact hcond

theorem runForEach_agrees (hleast : 2 ≤ nodes.length) (h : ConfinedLoop allowed nodes here) :
    runForEach nodes c = runForEach nodes c' ∧ pathOf (runForEach nodes c) ∈ locatedFirst here nodes := by
  match nodes, hleast with
  | source :: template :: more, _ =>
    obtain ⟨hsource, hpath⟩ := ih source (by simp) halike hcurrent h.1 hwithin.1
    have hitems : ∀ {place : Option String}, place ∈ located here source → ∀ items,
        (itemPaths place items).map (fun p => run template (c.push p.1 p.2)) =
          (itemPaths place items).map fun p => run template (c'.push p.1 p.2) := fun hplace items =>
      List.map_congr_left fun p hp =>
        (ih template (by simp) (halike.push p.1 p.2) (current_push (itemPaths_within hplace hp)) h.2 hwithin.2.1).1
    rcases Classical.em (∃ children, source = .splat children) with ⟨children, rfl⟩ | hnot
    · cases children with
      | nil => exact ⟨rfl, rfl⟩
      | cons first others =>
        have hfirst : run first c = run first c' := by
          rw [run, run, runAll, runAll] at hsource
          injection hsource with hall
          exact (List.cons.inj hall).1
        have hplace : pathOf (run first c) ∈ located here (.splat (first :: others)) := hpath
        refine ⟨?_, hpath⟩
        rw [runForEach, runForEach, ← hfirst, hitems hplace]
    · have hfor := fun d : Ctx => runForEach.eq_3 d source template more (fun heq => hnot ⟨_, heq⟩)
        fun _ _ heq => hnot ⟨_, heq⟩
      rw [hfor, hfor, ← hsource]
      exact ⟨by rw [hitems hpath], hpath⟩

theorem runContains_agrees (hleast : 1 ≤ nodes.length) (h : ConfinedEntries allowed nodes here) :
    runContains nodes c = runContains nodes c' ∧ pathOf (runContains nodes c) ∈ locatedFirst here nodes := by
  cases nodes with
  | nil => exact absurd hleast (by simp)
  | cons source entries =>
    obtain ⟨hsource, hpath⟩ := ih source (by simp) halike hcurrent h.1 hwithin.1
    refine ⟨?_, hpath⟩
    have hentries : ∀ items : List (RuntimeValue × Option String), (∀ p ∈ items, p.2 ∈ itemsOf (located here source)) →
        ∀ used, runEntries entries c items used = runEntries entries c' items used := fun items hitems used =>
      runEntries_agrees (fun n hn => ih n (List.mem_cons_of_mem _ hn)) halike hwithin.2 items used hitems h.2
    simp only [runContains, ← hsource]
    split
    · rw [hentries _ fun p hp => itemPaths_within hpath hp]
    · rw [hentries [] fun p hp => absurd hp List.not_mem_nil]

theorem runArrayContains_agrees (hleast : 2 ≤ nodes.length) (h : ConfinedVariant allowed nodes here) :
    runArrayContains nodes c = runArrayContains nodes c' ∧ pathOf (runArrayContains nodes c) ∈ locatedFirst here nodes := by
  match nodes, hleast with
  | source :: template :: rest, _ =>
    obtain ⟨hsource, hpath⟩ := ih source (by simp) halike hcurrent h.1 hwithin.1
    refine ⟨?_, hpath⟩
    have hrest := (runAll_agrees (fun n hn => ih n (List.mem_cons_of_mem _ (List.mem_cons_of_mem _ hn))) halike hcurrent
      hwithin.2.2 h.2.2).1
    have hmatching : ∀ items, firstMatching (fun p => run template (c.push p.1 p.2))
        (itemPaths (pathOf (run source c)) items) = firstMatching (fun p => run template (c'.push p.1 p.2))
        (itemPaths (pathOf (run source c)) items) := fun items => firstMatching_congr fun p hp =>
      (ih template (by simp) (halike.push p.1 p.2) (current_push (itemPaths_within hpath hp)) h.2.1 hwithin.2.1).1
    simp only [runArrayContains, ← hsource, ← hrest, hmatching]

end

theorem locus_runOr (nodes : List Node) (c : Ctx) : locus (runOr nodes c false).1 = locus (runAll nodes c) := by
  cases nodes <;> rfl

/-! Every node. -/

private theorem least_of {name : String} {count : Nat} (least : Nat) (h : Actions.leastChildren name = some least)
    (htake : tooFew name count = none) : least ≤ count := by
  unfold tooFew at htake
  rw [h] at htake
  by_contra hlt
  simp only [if_pos (Nat.lt_of_not_le hlt)] at htake
  exact nomatch htake

/-- The actions whose children are not all run as they stand. -/
def branching : List String := ["flow:if", "flow:or", "flow:for-each", "match:contains", "legacy:array-contains"]

private theorem run_other {name : String} {children : List Node} (hfew : tooFew name children.length = none)
    (h : name ∉ branching) : run (.action name children) c = .action name (runAll children c)
      (some (if Actions.isComponentAction name then applyComponent name (runAll children c) c.actions
        else dispatch name (runAll children c) c)) := by
  simp only [branching, List.mem_cons, List.not_mem_nil, not_or, or_false] at h
  rw [run.eq_def]
  simp only [hfew]
  split
  case h_6 => rfl
  all_goals simp at h

theorem other_agrees {name : String} {children : List Node} (ih : ∀ n ∈ children, Agrees allowed slotPath n)
    (halike : Alike allowed slotPath c c') (hcurrent : Current here c) (hwithin : WithinAll slotPath children)
    (hfew : tooFew name children.length = none) (h : name ∉ branching) (hconfined : ConfinedAll allowed children here)
    (hallowed : name = "match:content-type" → locatedFirst here children ⊆ allowed) :
    run (.action name children) c = run (.action name children) c' ∧
      pathOf (run (.action name children) c) ∈ locatedFirst here children := by
  obtain ⟨heq, hpath⟩ := runAll_agrees ih halike hcurrent hwithin hconfined
  have hresult := dispatch_congr halike.libraries fun hname => halike.content _ (hallowed hname hpath)
  rw [run_other hfew h, run_other hfew h, pathOf_action, ← heq, halike.actions, hresult]
  exact ⟨rfl, hpath⟩

theorem action_agrees {name : String} {children : List Node} (ih : ∀ n ∈ children, Agrees allowed slotPath n) :
    Agrees allowed slotPath (.action name children) := by
  intro here c c' halike hcurrent hconfined hwithin
  rw [Within] at hwithin
  rw [Confined.eq_def] at hconfined
  rw [located]
  simp only at hconfined
  cases hfew : tooFew name children.length with
  | some message =>
    rw [run.eq_def, run.eq_def]
    simp only [hfew, true_and]
    exact pathOf_action .. ▸ rfl
  | none =>
    by_cases hif : name = "flow:if"
    · subst hif
      rw [run.eq_def, run.eq_def]
      simp only [hfew]
      exact runIf_agrees ih halike hcurrent hwithin (least_of 2 rfl hfew) hconfined
    by_cases hor : name = "flow:or"
    · subst hor
      have hpath := (runAll_agrees ih halike hcurrent hwithin hconfined).2
      rw [run.eq_def, run.eq_def]
      simp only [hfew, pathOf_action, ← runOr_agrees ih halike hcurrent hwithin false hconfined, locus_runOr, true_and]
      exact hpath
    split at hconfined
    · rw [run.eq_def, run.eq_def]
      simp only [hfew]
      exact runForEach_agrees ih halike hcurrent hwithin (least_of 2 rfl hfew) hconfined
    · rw [run.eq_def, run.eq_def]
      simp only [hfew]
      exact runContains_agrees ih halike hcurrent hwithin (least_of 1 rfl hfew) hconfined
    · rw [run.eq_def, run.eq_def]
      simp only [hfew]
      exact runArrayContains_agrees ih halike hcurrent hwithin (least_of 2 rfl hfew) hconfined
    · exact other_agrees ih halike hcurrent hwithin hfew (by decide) hconfined.2 fun _ => hconfined.1
    · rename_i hfor hcontains harray hcontent
      have hother : name ∉ branching := by
        simp only [branching, List.mem_cons, List.not_mem_nil, not_or, or_false]
        exact ⟨hif, hor, hfor, hcontains, harray⟩
      exact other_agrees ih halike hcurrent hwithin hfew hother hconfined fun hname => absurd hname hcontent

/-- A fragment run where nothing differs but outside its slot, and its content types are asked for allowed places only. -/
theorem run_agrees (node : Node) : Agrees allowed slotPath node := by
  induction node with
  | container label children ih =>
    intro here c c' halike hcurrent hconfined hwithin
    rw [run, run, (runAll_agrees ih halike hcurrent hwithin hconfined).1]
    exact ⟨rfl, rfl⟩
  | action name children ih => exact action_agrees ih
  | value literal => exact fun _ _ _ _ => ⟨rfl, rfl⟩
  | resolve path =>
    intro here c c' halike _ _ hwithin
    rw [run, run, halike.resolver path hwithin]
    exact ⟨rfl, rfl⟩
  | resolveCurrent path =>
    intro here c c' halike hcurrent _ _
    rw [run, run, halike.current, halike.currentPaths]
    refine ⟨rfl, ?_⟩
    rw [Current, halike.currentPaths] at hcurrent
    rw [pathOf, located]
    cases hplace : c'.currentPaths.headD none with
    | none => exact Or.inl ⟨hplace ▸ hcurrent, rfl⟩
    | some item => exact Or.inr ⟨item, _, hplace ▸ hcurrent, rfl⟩
  | pipeline children ih =>
    intro here c c' halike hcurrent hconfined hwithin
    obtain ⟨heq, hpath⟩ := runPipeline_agrees ih halike hcurrent hwithin .ok hconfined
    rw [run, run, ← heq, pathOf_pipeline]
    exact ⟨rfl, hpath⟩
  | splat children ih =>
    intro here c c' halike hcurrent hconfined hwithin
    obtain ⟨heq, hpath⟩ := runAll_agrees ih halike hcurrent hwithin hconfined
    rw [run, run, ← heq, pathOf_splat]
    exact ⟨rfl, hpath⟩
  | annotation text => exact fun _ _ _ _ => ⟨rfl, rfl⟩

/-! What validation leaves of a fragment. -/

mutual

theorem within_of_checked {grammar : Actions.Grammar} {component : String} {contributed : List String} :
    ∀ {node checked : Node}, checkActions grammar component contributed slotPath node = .ok checked →
      Within slotPath checked
  | .action name children, checked, h => by
    rw [checkActions] at h
    obtain ⟨name', -, h⟩ := Fallible.bind_eq_ok h
    obtain ⟨children', hchildren, rfl⟩ := Fallible.map_eq_ok h
    exact within_of_checkedAll hchildren
  | .resolve path, checked, h => by
    rw [checkActions] at h
    split at h
    · rename_i hinside
      obtain rfl := Except.ok.inj h
      exact hinside
    · exact nomatch h
  | .container label children, checked, h => by
    rw [checkActions] at h
    obtain ⟨children', hchildren, rfl⟩ := Fallible.map_eq_ok h
    exact within_of_checkedAll hchildren
  | .pipeline children, checked, h => by
    rw [checkActions] at h
    obtain ⟨children', hchildren, rfl⟩ := Fallible.map_eq_ok h
    exact within_of_checkedAll hchildren
  | .splat children, checked, h => by
    rw [checkActions] at h
    obtain ⟨children', hchildren, rfl⟩ := Fallible.map_eq_ok h
    exact within_of_checkedAll hchildren
  | .value literal, checked, h => by obtain rfl := Except.ok.inj h; trivial
  | .resolveCurrent path, checked, h => by obtain rfl := Except.ok.inj h; trivial
  | Node.annotation text, checked, h => by obtain rfl := Except.ok.inj h; trivial

theorem within_of_checkedAll {grammar : Actions.Grammar} {component : String} {contributed : List String} :
    ∀ {nodes checked : List Node}, checkAll grammar component contributed slotPath nodes = .ok checked →
      WithinAll slotPath checked
  | [], checked, h => by obtain rfl := Except.ok.inj h; trivial
  | node :: rest, checked, h => by
    rw [checkAll] at h
    obtain ⟨node', hnode, h⟩ := Fallible.bind_eq_ok h
    obtain ⟨rest', hrest, rfl⟩ := Fallible.map_eq_ok h
    exact ⟨within_of_checked hnode, within_of_checkedAll hrest⟩

end

/-- A fragment that validation accepts for a slot. -/
def Accepted (slotPath : String) (fragment : Node) : Prop :=
  ∃ document declared component contributed, validate document declared component contributed slotPath = .ok fragment

theorem within_of_accepted {fragment : Node} (h : Accepted slotPath fragment) : Within slotPath fragment := by
  obtain ⟨document, declared, component, contributed, h⟩ := h
  obtain ⟨-, -, h⟩ := Fallible.bind_eq_ok h
  split at h
  · exact nomatch h
  · split at h
    · exact nomatch h
    · exact within_of_checked h

theorem accepted_of_checked {component : String} {contributed : List String} {fragment : Node}
    (h : checkActions .v1 component contributed slotPath fragment = .ok fragment) : Accepted slotPath fragment := by
  refine ⟨Rendering.nodeJson fragment, some "v1", component, contributed, ?_⟩
  have hread : readable (some "v1") = .ok () := rfl
  have hgrammar : (some "v1").bind grammarOf = some .v1 := by decide
  simp only [validate, hread, Except.bind, hgrammar, Rendering.nodeFromJson_nodeJson, h]

/-! What was received. -/

/-- Captured values that agree under a slot. -/
def AgreeUnder (slotPath : String) (captured captured' : CapturedValues) : Prop :=
  ∀ path, insideSlot slotPath path = true → resolve captured path = resolve captured' path

private theorem slot_path_extends {path : String} (h : insideSlot slotPath path = true) : slotPath.toList <+: path.toList := by
  simp only [insideSlot, Text.startsWith, String.toList_append, Bool.or_eq_true, beq_iff_eq,
    List.isPrefixOf_iff_prefix] at h
  rcases h with (rfl | h) | h
  · exact List.prefix_rfl
  · exact (List.prefix_append _ _).trans h
  · exact (List.prefix_append _ _).trans h

private theorem resolveFrom_congr {captured captured' : CapturedValues} {path : List Char}
    (h : ∀ n, captured.lookup (String.ofList (path.take n)) = captured'.lookup (String.ofList (path.take n))) (n : Nat) :
    resolveFrom captured path n = resolveFrom captured' path n := by
  induction n using Nat.strong_induction_on with
  | _ n ih =>
    rw [resolveFrom, resolveFrom, h n]
    split
    · rfl
    · split
      · rename_i cut hcut
        have hlt := lastCut_lt hcut
        rw [List.length_take] at hlt
        exact ih cut (by omega)
      · rfl

/-- Captured values agree under a slot when they do at each place above it and each below. -/
theorem agreeUnder_of_lookup {captured captured' : CapturedValues}
    (h : ∀ key : String, key.toList <+: slotPath.toList ∨ slotPath.toList <+: key.toList →
      captured.lookup key = captured'.lookup key) : AgreeUnder slotPath captured captured' := by
  intro path hpath
  refine resolveFrom_congr (fun n => h _ ?_) _
  rw [String.toList_ofList]
  exact List.prefix_or_prefix_of_prefix (List.take_prefix n _) (slot_path_extends hpath)

/-- Two arrivals behind one content component that agree under a slot. -/
structure SameArrival (slotPath : String) (detection detection' : ContentDetection) : Prop where
  detect : detection.detect = detection'.detect
  declared : detection.declared = detection'.declared
  byLabel : detection.byLabel = detection'.byLabel
  arrived : ∀ part slot, insideSlot slotPath ("$." ++ part ++ "." ++ slot) = true →
    detection.arrived part slot = detection'.arrived part slot

/-- Any place but another whole slot. -/
def notElsewhere (slotPath : String) : Places :=
  {p | ∀ path, p = some path → slotAt path ≠ none → insideSlot slotPath path = true}

/-- What a plan is executed against when nothing is current yet. -/
def against (libraries : Libraries) (captured : CapturedValues) (content : Option ContentDetector)
    (actions : Option ActionApplier) : Ctx := ⟨libraries, resolve captured, content, actions, [], []⟩

private theorem arrived_same {detection detection' : ContentDetection} (h : SameArrival slotPath detection detection')
    {path : Option String} (hpath : path ∈ notElsewhere slotPath) :
    ((path.bind slotAt).bind fun (part, slot) => (detection.arrived part slot).map fun raw => (part, slot, raw)) =
      (path.bind slotAt).bind fun (part, slot) => (detection'.arrived part slot).map fun raw => (part, slot, raw) := by
  cases path with
  | none => rfl
  | some path =>
    cases hslot : slotAt path with
    | none => simp [hslot]
    | some found =>
      obtain ⟨part, slot⟩ := found
      have hinside := hpath path rfl (by rw [hslot]; exact Option.some_ne_none _)
      rw [slotAt_eq hslot] at hinside
      simp [hslot, h.arrived part slot hinside]

theorem detector_same {detection detection' : ContentDetection} (h : SameArrival slotPath detection detection')
    (value : RuntimeValue) {path : Option String} (hpath : path ∈ notElsewhere slotPath) :
    detection.detector value path = detection'.detector value path := by
  unfold ContentDetection.detector
  simp only [arrived_same h hpath, h.detect, h.declared, h.byLabel]

theorem matchContentType_same {detection detection' : ContentDetection} (h : SameArrival slotPath detection detection')
    {children : List Executed} (hplace : locus children ∈ notElsewhere slotPath) :
    matchContentType (some detection.detector) children = matchContentType (some detection'.detector) children := by
  unfold matchContentType
  simp only [detector_same h _ hplace]

theorem confined_univ (node : Node) : ∀ here, Confined Set.univ node here := by
  induction node with
  | container label children ih => exact fun here => (confinedAll_iff children).2 fun n hn => ih n hn here
  | action name children ih =>
    intro here
    have hall : ∀ places, ConfinedAll Set.univ children places := fun places =>
      (confinedAll_iff children).2 fun n hn => ih n hn places
    rw [Confined.eq_def]
    simp only
    split
    · match children with
      | [] | [_] => trivial
      | source :: template :: _ => exact ⟨ih source (by simp) _, ih template (by simp) _⟩
    · match children with
      | [] => trivial
      | source :: entries =>
        exact ⟨ih source (by simp) _, (confinedAll_iff entries).2 fun n hn => ih n (List.mem_cons_of_mem _ hn) _⟩
    · match children with
      | [] | [_] => trivial
      | source :: template :: rest =>
        exact ⟨ih source (by simp) _, ih template (by simp) _, (confinedAll_iff rest).2 fun n hn =>
          ih n (List.mem_cons_of_mem _ (List.mem_cons_of_mem _ hn)) _⟩
    · exact ⟨Set.subset_univ _, hall here⟩
    · exact hall here
  | pipeline children ih =>
    intro here
    rw [Confined]
    induction children generalizing here with
    | nil => trivial
    | cons n rest ihr => exact ⟨ih n List.mem_cons_self _, ihr (fun m hm => ih m (List.mem_cons_of_mem _ hm)) _⟩
  | splat children ih => exact fun here => (confinedAll_iff children).2 fun n hn => ih n hn here
  | value literal => exact fun _ => trivial
  | resolve path => exact fun _ => trivial
  | resolveCurrent path => exact fun _ => trivial
  | annotation text => exact fun _ => trivial

theorem captured_alone {fragment : Node} (h : Within slotPath fragment) {libraries : Libraries}
    {content : Option ContentDetector} {actions : Option ActionApplier} {captured captured' : CapturedValues}
    (hagree : AgreeUnder slotPath captured captured') :
    run fragment (against libraries captured content actions) = run fragment (against libraries captured' content actions) :=
  have halike : Alike Set.univ slotPath (against libraries captured content actions)
      (against libraries captured' content actions) := ⟨rfl, rfl, rfl, rfl, hagree, fun _ _ => rfl⟩
  (run_agrees fragment halike (Set.mem_singleton none) (confined_univ fragment {none}) h).1

theorem arrival_alone {fragment : Node} (h : Within slotPath fragment)
    (hconfined : Confined (notElsewhere slotPath) fragment {none}) {libraries : Libraries}
    {actions : Option ActionApplier} {captured captured' : CapturedValues} {detection detection' : ContentDetection}
    (hagree : AgreeUnder slotPath captured captured') (hsame : SameArrival slotPath detection detection') :
    run fragment (against libraries captured (some detection.detector) actions) =
      run fragment (against libraries captured' (some detection'.detector) actions) :=
  have halike : Alike (notElsewhere slotPath) slotPath (against libraries captured (some detection.detector) actions)
      (against libraries captured' (some detection'.detector) actions) :=
    ⟨rfl, rfl, rfl, rfl, hagree, fun _ hplace => matchContentType_same hsame hplace⟩
  (run_agrees fragment halike (Set.mem_singleton none) hconfined h).1

theorem splicing_iff {part slot description : String} {parts : Parts} (hnames : DistinctNames parts) :
    (∀ fragment, Accepted slotPath fragment → ∃ contents, spliced part slot fragment (planRoot description parts) =
      planRoot description (withContents part slot contents parts)) ↔ FoundFirst part slot parts := by
  refine ⟨fun h => ?_, fun h fragment _ => ⟨_, spliced_root hnames h⟩⟩
  have hroot : ∀ fragment contents, spliced part slot fragment (planRoot description parts) =
      planRoot description (withContents part slot contents parts) →
      (spliceAll part slot fragment (parts.map partNode)).getD (parts.map partNode) =
        (withContents part slot contents parts).map partNode := by
    intro fragment contents heq
    rw [spliced, planRoot, splice, planRoot] at heq
    cases hs : spliceAll part slot fragment (parts.map partNode) with
    | some after =>
      rw [hs] at heq
      injection heq
    | none =>
      rw [hs] at heq
      injection heq
  have hempty : checkActions .v1 "" [] slotPath (.container none []) = .ok (.container none []) := rfl
  have htext : checkActions .v1 "" [] slotPath (Node.annotation "") = .ok (Node.annotation "") := rfl
  have hne : Node.container none [] ≠ Node.annotation "" := fun heq => by cases heq
  obtain ⟨one, hone⟩ := h _ (accepted_of_checked hempty)
  obtain ⟨two, htwo⟩ := h _ (accepted_of_checked htext)
  exact foundFirst_of_spliced hne (hroot _ _ hone) (hroot _ _ htwo)

/-- A fragment accepted for a slot reads nothing captured outside it, nor of another slot as it arrived where no
content type is asked for by another slot's place; and it replaces what its own slot holds where nothing comes first. -/
theorem fragment_stays_in_its_slot (part slot : String) :
    (∀ fragment, Accepted ("$." ++ part ++ "." ++ slot) fragment → ∀ libraries content actions captured captured',
      AgreeUnder ("$." ++ part ++ "." ++ slot) captured captured' →
      run fragment (against libraries captured content actions) =
        run fragment (against libraries captured' content actions)) ∧
    (∀ fragment, Accepted ("$." ++ part ++ "." ++ slot) fragment →
      Confined (notElsewhere ("$." ++ part ++ "." ++ slot)) fragment {none} →
      ∀ libraries actions captured captured' detection detection',
        AgreeUnder ("$." ++ part ++ "." ++ slot) captured captured' →
        SameArrival ("$." ++ part ++ "." ++ slot) detection detection' →
        run fragment (against libraries captured (some detection.detector) actions) =
          run fragment (against libraries captured' (some detection'.detector) actions)) ∧
    ∀ description parts, DistinctNames parts →
      ((∀ fragment, Accepted ("$." ++ part ++ "." ++ slot) fragment →
        ∃ contents, spliced part slot fragment (planRoot description parts) =
          planRoot description (withContents part slot contents parts)) ↔ FoundFirst part slot parts) :=
  ⟨fun _ h _ _ _ _ _ => captured_alone (within_of_accepted h),
    fun _ h hconfined _ _ _ _ _ _ => arrival_alone (within_of_accepted h) hconfined,
    fun _ _ hnames => splicing_iff hnames⟩

/-- A response of one slot in text and another with a label. -/
def labelled (label : String) : ContentDetection :=
  ⟨fun _ => none, some [("response", [("body", ⟨.string "a,b", some "text", some "text/csv"⟩),
    ("headers", ⟨.object [], none, some label⟩)])], none, true⟩

private theorem labelled_same (label label' : String) :
    SameArrival "$.response.body" (labelled label) (labelled label') where
  detect := rfl
  declared := rfl
  byLabel := rfl
  arrived := by
    intro part slot h
    by_cases hpart : part = "response"
    · subst hpart
      by_cases hslot : slot = "headers"
      · subst hslot
        exact absurd h (by decide)
      · simp [labelled, ContentDetection.arrived, List.lookup_cons, beq_eq_false_iff_ne.2 hslot]
    · simp [labelled, ContentDetection.arrived, List.lookup_cons, beq_eq_false_iff_ne.2 hpart]

def asksElsewhere : Node :=
  .action "match:content-type" [.resolveCurrent "$.response.headers", .value (Literal.string "text/plain")]

def asksItself : Node :=
  .action "match:content-type" [.resolve "$.response.body", .value (Literal.string "text/csv")]

theorem fragment_stays_in_its_slot_body :
    run asksItself (against ⟨fun _ _ => .ok true, fun _ => true, fun _ _ => .ok (), id, id⟩
        [("$.response.body", .string "a,b"), ("$.response.headers", .null)] (some (labelled "text/plain").detector) none) =
      run asksItself (against ⟨fun _ _ => .ok true, fun _ => true, fun _ _ => .ok (), id, id⟩
        [("$.response.body", .string "a,b"), ("$.response.headers", .bool true)]
        (some (labelled "application/json").detector) none) := by
  have hchecked : checkActions .v1 "" [] "$.response.body" asksItself = .ok asksItself := rfl
  have hconfined : Confined (notElsewhere "$.response.body") asksItself {none} := by
    refine ⟨?_, trivial, trivial, trivial⟩
    rintro _ rfl path hpath -
    obtain rfl := Option.some.inj hpath
    decide
  refine (fragment_stays_in_its_slot "response" "body").2.1 asksItself (accepted_of_checked hchecked) hconfined
    _ _ _ _ _ _ (agreeUnder_of_lookup fun key hkey => ?_) (labelled_same _ _)
  by_cases hbody : key = "$.response.body"
  · simp [List.lookup_cons, hbody]
  · have hheaders : key ≠ "$.response.headers" := by
      rintro rfl
      exact absurd hkey (by decide)
    simp [List.lookup_cons, beq_eq_false_iff_ne.2 hbody, beq_eq_false_iff_ne.2 hheaders]

private theorem detected_elsewhere (label : String) (value : RuntimeValue) :
    (labelled label).detector value (some "$.response.headers") = some label := by
  have hslot : slotAt "$.response.headers" = some ("response", "headers") := by decide
  simp [ContentDetection.detector, hslot, labelled, ContentDetection.arrived, List.lookup_cons, declaredType]

private theorem matchContentType_detected {detect : ContentDetector} {children : List Executed} {detected : String}
    (h : detect (valueAt children 0) (locus children) = some detected) :
    matchContentType (some detect) children =
      if mediaTypeMatches (plainText (valueAt children 1)) detected then .value (.bool true)
      else failed ["Expected content type ", quoted (plainText (valueAt children 1)), " but detected ", quoted detected]
        (locus children) := by
  simp only [matchContentType, h]

private theorem asked_elsewhere (label : String) {c : Ctx} (hcontent : c.content = some (labelled label).detector)
    (hplace : c.currentPaths = []) : childFailed (run asksElsewhere c) = !mediaTypeMatches "text/plain" label := by
  have hrun : resultOf (run asksElsewhere c) = some (matchContentType c.content
      (runAll [.resolveCurrent "$.response.headers", .value (Literal.string "text/plain")] c)) := rfl
  have hlocus : locus (runAll [.resolveCurrent "$.response.headers", .value (Literal.string "text/plain")] c) =
      some "$.response.headers" := by
    rw [runAll, run, hplace]
    rfl
  rw [childFailed, hrun, hcontent, matchContentType_detected (hlocus ▸ detected_elsewhere label _)]
  have htext : plainText (valueAt (runAll [.resolveCurrent "$.response.headers",
      .value (Literal.string "text/plain")] c) 1) = "text/plain" := rfl
  rw [htext]
  cases mediaTypeMatches "text/plain" label <;> rfl

def carriesASlot : Node := .container (some "response") [.container (some "body") []]

def plainParts : Parts := [("request", [("body", [])]), ("response", [("body", [])])]

/-- A fragment that asks for the content type of another slot, and one that goes into another fragment. -/
theorem fragment_leaves_its_slot :
    (Accepted "$.response.body" asksElsewhere ∧ SameArrival "$.response.body" (labelled "text/plain") (labelled "text/csv") ∧
      ∀ libraries captured actions,
        resultOf (run asksElsewhere (against libraries captured (some (labelled "text/plain").detector) actions)) ≠
          resultOf (run asksElsewhere (against libraries captured (some (labelled "text/csv").detector) actions))) ∧
    Accepted "$.request.body" carriesASlot ∧
      ¬ ∃ contents, spliced "response" "body" asksElsewhere (spliced "request" "body" carriesASlot (planRoot "" plainParts)) =
        planRoot "" (withContents "response" "body" contents (withContents "request" "body" [carriesASlot] plainParts)) := by
  have hasks : checkActions .v1 "" [] "$.response.body" asksElsewhere = .ok asksElsewhere := rfl
  have hcarries : checkActions .v1 "" [] "$.request.body" carriesASlot = .ok carriesASlot := rfl
  refine ⟨⟨accepted_of_checked hasks, labelled_same _ _, fun libraries captured actions => ?_⟩,
    accepted_of_checked hcarries, ?_⟩
  · have hasked : ∀ label, childFailed (run asksElsewhere (against libraries captured (some (labelled label).detector)
        actions)) = !mediaTypeMatches "text/plain" label := fun label => asked_elsewhere label rfl rfl
    intro heq
    have hfailed := hasked "text/plain"
    rw [childFailed, heq, ← childFailed.eq_1, hasked "text/csv"] at hfailed
    exact absurd hfailed (by decide +kernel)
  · rintro ⟨contents, h⟩
    have hspliced : spliced "response" "body" asksElsewhere (spliced "request" "body" carriesASlot (planRoot "" plainParts)) =
        planRoot "" [("request", [("body", [.container (some "response") [.container (some "body") [asksElsewhere]]])]),
          ("response", [("body", [])])] := rfl
    rw [hspliced] at h
    simp [planRoot, partNode, slotNode, withContents, partWith, plainParts, carriesASlot] at h

end PactJanus.Plan.Confinement
