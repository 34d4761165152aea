import PactJanus.Lib.Lists
import PactJanus.Plan.Outcome
import PactJanus.Plan.Reading

namespace PactJanus.Plan.Faults

open PactJanus.Data.Json PactJanus.Plan.Model PactJanus.Plan.Value PactJanus.Plan.Resolve PactJanus.Plan.Result
  PactJanus.Plan.Actions PactJanus.Plan.Interpret PactJanus.Plan.Outcome PactJanus.Lib.Lists

/-! The interpreter as it keeps its stacks: an index may be out of bounds, and a stack empty. -/

/-- What would stop the interpreter where it stands. -/
inductive Fault where
  | noChild | noArgument | noItem | emptyStack

/-- The current values, and beside each where it is, the last first. -/
structure Stacks where
  current : List RuntimeValue
  currentPaths : List (Option String)

abbrev Exec := StateT Stacks (Except Fault)

/-- What a plan is executed against, whatever is current. -/
structure Around where
  env : Env
  resolver : String → RuntimeValue

def Around.ctx (around : Around) (st : Stacks) : Ctx :=
  ⟨around.env.libraries, around.resolver, around.env.content, around.env.actions, st.current, st.currentPaths⟩

def Stacks.push (st : Stacks) (value : RuntimeValue) (path : Option String) : Stacks :=
  ⟨value :: st.current, path :: st.currentPaths⟩

def pushCurrent (value : RuntimeValue) (path : Option String) : Exec Unit := modify fun st => st.push value path

def popCurrent : Exec Unit := do
  match ← get with
  | ⟨_ :: current, _ :: paths⟩ => set (Stacks.mk current paths)
  | _ => throw .emptyStack

def popTimes : Nat → Exec Unit
  | 0 => return ()
  | n + 1 => do
    popCurrent
    popTimes n

def index {α : Type} (l : List α) (i : Nat) : Exec α :=
  match l[i]? with
  | some a => return a
  | none => throw .noItem

def setIndex {α : Type} (l : List α) (i : Nat) (a : α) : Exec (List α) :=
  if i < l.length then return l.set i a else throw .noItem

/-- How many children, from the first on, the branch of an action reads by their position. -/
def positions : List (String × Nat) :=
  [("flow:error", 1), ("value:join-with", 1), ("value:length", 1), ("value:lower-case", 1), ("value:upper-case", 1),
    ("value:to-string", 1), ("check:exists", 1), ("check:null", 1), ("check:equals", 2), ("expect:absent", 1),
    ("expect:object", 1), ("expect:array", 1), ("expect:not-empty", 1), ("expect:empty", 1), ("expect:count", 2),
    ("expect:entries", 2), ("expect:size", 3), ("legacy:only-entries", 1), ("match:any", 1), ("match:equality", 2),
    ("match:type", 2), ("match:string", 1), ("match:boolean", 1), ("match:null", 1), ("match:number", 1),
    ("match:integer", 1), ("match:decimal", 1), ("match:regex", 2), ("match:datetime", 1), ("match:date", 1),
    ("match:time", 1), ("match:include", 2), ("match:content-type", 2), ("match:semver", 1), ("match:any-of", 1),
    ("legacy:min-type", 3), ("legacy:max-type", 3), ("legacy:min-max-type", 4), ("legacy:header-value", 2),
    ("legacy:xml-children", 1), ("legacy:xml-only-children", 1), ("legacy:mime-part", 3), ("legacy:parses-as", 2),
    ("legacy:body-type", 2), ("legacy:message-type", 2)]

/-- The result of a core action, each of its children read by position. -/
def dispatchAt (name : String) (children : List Executed) (ctx : Ctx) : Exec NodeResult :=
  if children.length < (positions.lookup name).getD 0 then throw .noArgument else return dispatch name children ctx

/-- The loop over the items of `flow:for-each`. -/
def eachItem (attempt : Exec Executed) : List (RuntimeValue × Option String) → Exec (List Executed)
  | [] => return []
  | (item, path) :: rest => do
    pushCurrent item path
    let executed ← attempt
    popCurrent
    let others ← eachItem attempt rest
    return executed :: others

/-- The loop over the items an entry of `match:contains` may claim. -/
def search (attempt : Exec Executed) (paths : List (Option String)) (used : List Bool) :
    List RuntimeValue → Nat → Option (Nat × Executed) → Exec (Option (Nat × Executed))
  | [], _, matched => return matched
  | item :: rest, i, matched => do
    if ← index used i then search attempt paths used rest (i + 1) matched
    else
      let path ← index paths i
      pushCurrent item path
      let executed ← attempt
      popCurrent
      if childFailed executed then search attempt paths used rest (i + 1) (some (i, executed))
      else return some (i, executed)

/-- The loop over the elements of `legacy:array-contains`. -/
def findMatching (attempt : Exec Executed) : List (RuntimeValue × Option String) → Exec (Option Executed)
  | [] => return none
  | (item, path) :: rest => do
    pushCurrent item path
    let executed ← attempt
    popCurrent
    if childFailed executed then findMatching attempt rest else return some executed

mutual

def runNode : Node → Around → Exec Executed
  | .container label children, around => do
    let executed ← runNodes children around
    return .container label executed (some (.value (.bool (!executed.any childFailed))))
  | .value literal, _ => return .value literal (some (.value (fromLiteral literal)))
  | .resolve path, around => return .resolve path (some (.value (around.resolver path)))
  | .resolveCurrent path, _ => do
    let st ← get
    let base := st.current.headD .absent
    let suffix := withoutSigil path
    return .resolveCurrent path ((st.currentPaths.headD none).map fun item => absolutePath item base suffix)
      (some (.value (navigate base suffix)))
  | Node.annotation text, _ => return Executed.annotation text none
  | .pipeline children, around => do
    let (executed, last, pushed) ← pipelineNodes children around .ok 0
    popTimes pushed
    return .pipeline executed (some last)
  | .splat children, around => do
    let executed ← runNodes children around
    return .splat executed (executed.head?.bind resultOf)
  | .action name children, around =>
    match tooFew name children.length with
    | some message => return malformed name children message
    | none =>
      match name with
      | "flow:if" => ifNodes children around
      | "flow:or" => do
        let (executed, success) ← orNodes children around false
        return .action "flow:or" executed (some (.value (.bool success)))
      | "flow:for-each" => forEachNodes children around
      | "match:contains" => containsNodes children around
      | "legacy:array-contains" => arrayContainsNodes children around
      | _ => do
        let executed ← runNodes children around
        let st ← get
        let result ← if isComponentAction name then pure (applyComponent name executed around.env.actions)
          else dispatchAt name executed (around.ctx st)
        return .action name executed (some result)
termination_by structural node => node

def runNodes : List Node → Around → Exec (List Executed)
  | [], _ => return []
  | node :: rest, around => do
    let executed ← runNode node around
    let others ← runNodes rest around
    return executed :: others
termination_by structural nodes => nodes

/-- The children of a pipeline, with its result and how many values were made current on the way. -/
def pipelineNodes : List Node → Around → NodeResult → Nat → Exec (List Executed × NodeResult × Nat)
  | [], _, last, pushed => return ([], last, pushed)
  | node :: rest, around, _, pushed => do
    let executed ← runNode node around
    let last := (resultOf executed).getD .ok
    match last with
    | .value v => do
      pushCurrent v (pathOf executed)
      let (others, result, total) ← pipelineNodes rest around last (pushed + 1)
      return (executed :: others, result, total)
    | _ => do
      let (others, result, total) ← pipelineNodes rest around last pushed
      return (executed :: others, result, total)
termination_by structural nodes => nodes

def ifNodes : List Node → Around → Exec Executed
  | [], _ => throw .noChild
  | [cond], around => do
    let _ ← runNode cond around
    throw .noChild
  | [cond, branch], around => do
    let c ← runNode cond around
    if resultTruthy c then
      let b ← runNode branch around
      return .action "flow:if" [c, b] (some (.value (.bool (!childFailed b))))
    else return .action "flow:if" [c, skip branch] (some .ok)
  | cond :: branch :: otherwise :: _, around => do
    let c ← runNode cond around
    if resultTruthy c then
      let b ← runNode branch around
      return .action "flow:if" [c, b, skip otherwise] (some (.value (.bool (!childFailed b))))
    else
      let o ← runNode otherwise around
      return .action "flow:if" [c, skip branch, o] (some (.value (.bool (!childFailed o))))
termination_by structural nodes => nodes

def orNodes : List Node → Around → Bool → Exec (List Executed × Bool)
  | [], _, success => return ([], success)
  | node :: rest, around, success => do
    if success then
      let (others, found) ← orNodes rest around true
      return (skip node :: others, found)
    else
      let executed ← runNode node around
      let (others, found) ← orNodes rest around (resultTruthy executed)
      return (executed :: others, found)
termination_by structural nodes => nodes

def forEachNodes : List Node → Around → Exec Executed
  | [], _ => throw .noChild
  | .splat [] :: rest, _ =>
    return malformed "flow:for-each" (.splat [] :: rest)
      "'flow:for-each' was given a splat with nothing in it to iterate over"
  | [.splat (source :: _)], around => do
    let _ ← runNode source around
    throw .noChild
  | .splat (source :: _) :: template :: _, around => do
    let inner ← runNode source around
    let items := iterationItems (valueOf inner)
    let executed ← eachItem (runNode template around) (itemPaths (pathOf inner) items)
    return .action "flow:for-each" (.splat [inner] (some (.value (.array items))) :: executed)
      (some (.value (.bool (!executed.any childFailed))))
  | [source], around => do
    let _ ← runNode source around
    throw .noChild
  | source :: template :: _, around => do
    let inner ← runNode source around
    let executed ← eachItem (runNode template around) (itemPaths (pathOf inner) (iterationItems (valueOf inner)))
    return .action "flow:for-each" (inner :: executed) (some (.value (.bool (!executed.any childFailed))))
termination_by structural nodes => nodes

def containsNodes : List Node → Around → Exec Executed
  | [], _ => throw .noChild
  | source :: entries, around => do
    let inner ← runNode source around
    let items := match valueOf inner with
      | .array items => items
      | _ => []
    let paths := (itemPaths (pathOf inner) items).map Prod.snd
    let (executed, anyFailed) ← entryNodes entries around items paths (items.map fun _ => false)
    return .action "match:contains" (inner :: executed) (some (containsResult anyFailed))
termination_by structural nodes => nodes

def entryNodes : List Node → Around → List RuntimeValue → List (Option String) → List Bool →
    Exec (List Executed × Bool)
  | [], _, _, _, _ => return ([], false)
  | entry :: rest, around, items, paths, used => do
    match ← search (runNode entry around) paths used items 0 none with
    | some (i, attempt) =>
      if childFailed attempt then
        let (others, _) ← entryNodes rest around items paths used
        return (attempt :: others, true)
      else
        let used ← setIndex used i true
        let (others, anyFailed) ← entryNodes rest around items paths used
        return (attempt :: others, anyFailed)
    | none =>
      let (others, _) ← entryNodes rest around items paths used
      return (skip entry :: others, true)
termination_by structural nodes => nodes

def arrayContainsNodes : List Node → Around → Exec Executed
  | [], _ => throw .noChild
  | [source], around => do
    let _ ← runNode source around
    throw .noChild
  | source :: template :: rest, around => do
    let inner ← runNode source around
    let described ← runNodes rest around
    let matched ← match valueOf inner with
      | .array items => findMatching (runNode template around) (itemPaths (pathOf inner) items)
      | _ => pure none
    return .action "legacy:array-contains" (inner :: matched.getD (skip template) :: described)
      (some (arrayContainsResult inner described matched.isSome))
termination_by structural nodes => nodes

end

/-- A plan executed with nothing current yet. -/
def executePlan (plan : MatchingPlan) (around : Around) : Except Fault (Executed × Stacks) :=
  runNode plan.root around ⟨[], []⟩

section

-- The equations of these definitions are made here, once for all who rewrite with them.
attribute [local simp] runNode runNodes pipelineNodes ifNodes orNodes forEachNodes containsNodes entryNodes
  arrayContainsNodes eachItem search findMatching

end

section

variable {α β : Type} {around : Around} {st st' : Stacks} {children : List Node}

private theorem exec_bind {x : Exec α} {f : α → Exec β} {a : α} (h : x st = .ok (a, st')) :
    (x >>= f) st = f a st' := by
  show (x st >>= fun p => f p.1 p.2) = f a st'
  rw [h]
  rfl

private theorem exec_push (value : RuntimeValue) (path : Option String) :
    pushCurrent value path st = .ok ((), st.push value path) := rfl

private theorem exec_pop (value : RuntimeValue) (path : Option String) :
    popCurrent (st.push value path) = .ok ((), st) := rfl

private theorem exec_index {l rest : List α} {i : Nat} {a : α} (h : l.drop i = a :: rest) :
    index l i st = .ok (a, st) := by
  have ha : l[i]? = some a := by
    rw [← Nat.add_zero i, ← List.getElem?_drop, h, List.getElem?_cons_zero]
  rw [index, ha]
  rfl

private theorem drop_succ_of_cons {l rest : List α} {i : Nat} {a : α} (h : l.drop i = a :: rest) :
    l.drop (i + 1) = rest := by
  rw [← List.tail_drop, h, List.tail_cons]

/-- A node is executed to its result, and leaves the stacks as it found them. -/
def Runs (node : Node) : Prop :=
  ∀ (around : Around) (st : Stacks), runNode node around st = .ok (run node (around.ctx st), st)

/-- The result of an attempt with an item current. -/
def Tries (attempt : Exec Executed) (tried : RuntimeValue × Option String → Executed) (st : Stacks) : Prop :=
  ∀ item, attempt (st.push item.1 item.2) = .ok (tried item, st.push item.1 item.2)

private theorem Runs.tries {node : Node} (h : Runs node) :
    Tries (runNode node around) (fun p => run node ((around.ctx st).push p.1 p.2)) st :=
  fun item => h around (st.push item.1 item.2)

private theorem exec_eachItem {attempt : Exec Executed} {tried : RuntimeValue × Option String → Executed}
    (h : Tries attempt tried st) (items : List (RuntimeValue × Option String)) :
    eachItem attempt items st = .ok (items.map tried, st) := by
  induction items with
  | nil => rfl
  | cons item rest ih =>
    rw [eachItem, exec_bind (exec_push item.1 item.2), exec_bind (h item), exec_bind (exec_pop item.1 item.2),
      exec_bind ih]
    rfl

private theorem exec_findMatching {attempt : Exec Executed} {tried : RuntimeValue × Option String → Executed}
    (h : Tries attempt tried st) (items : List (RuntimeValue × Option String)) :
    findMatching attempt items st = .ok (firstMatching tried items, st) := by
  induction items with
  | nil => rfl
  | cons item rest ih =>
    rw [findMatching, exec_bind (exec_push item.1 item.2), exec_bind (h item), exec_bind (exec_pop item.1 item.2),
      firstMatching]
    cases childFailed (tried item) with
    | false => rfl
    | true => exact ih

/-- The loop reads the flags and the paths by index, which keep pace with the items. -/
private theorem exec_search {attempt : Exec Executed} {tried : RuntimeValue × Option String → Executed}
    (h : Tries attempt tried st) {paths : List (Option String)} {used free : List Bool} {i : Nat}
    (items : List (RuntimeValue × Option String)) (matched : Option (Nat × Executed))
    (hpaths : paths.drop i = items.map Prod.snd) (hused : used.drop i = free) (hlen : free.length = items.length) :
    search attempt paths used (items.map Prod.fst) i matched st = .ok (firstFit tried items free i matched, st) := by
  induction items generalizing free i matched with
  | nil => rfl
  | cons item rest ih =>
    obtain ⟨flag, flags, rfl⟩ := List.exists_cons_of_length_eq_add_one hlen
    have hrest : ∀ matched, search attempt paths used (rest.map Prod.fst) (i + 1) matched st =
        .ok (firstFit tried rest flags (i + 1) matched, st) :=
      fun matched => ih matched (drop_succ_of_cons hpaths) (drop_succ_of_cons hused) (Nat.succ.inj hlen)
    rw [List.map_cons, search, exec_bind (exec_index hused), firstFit]
    cases flag with
    | true => exact hrest matched
    | false =>
      simp only [Bool.false_eq_true, if_false]
      rw [exec_bind (exec_index hpaths), exec_bind (exec_push item.1 item.2), exec_bind (h item),
        exec_bind (exec_pop item.1 item.2)]
      cases childFailed (tried item) with
      | true => exact hrest (some (i, tried item))
      | false => rfl

private theorem firstFit_lt {tried : RuntimeValue × Option String → Executed} {free : List Bool} {i j : Nat}
    {executed : Executed} (items : List (RuntimeValue × Option String)) {matched : Option (Nat × Executed)}
    (hmatched : ∀ m ∈ matched, m.1 < i) (h : firstFit tried items free i matched = some (j, executed)) :
    j < i + items.length := by
  induction items generalizing free i matched with
  | nil => exact hmatched _ h
  | cons item rest ih =>
    rw [List.length_cons, Nat.add_comm rest.length, ← Nat.add_assoc]
    have hnext : ∀ m ∈ matched, m.1 < i + 1 := fun m hm => Nat.lt_succ_of_lt (hmatched m hm)
    cases free with
    | nil => exact Nat.lt_of_lt_of_le (hnext _ h) (Nat.le_add_right _ _)
    | cons flag flags =>
      rw [firstFit] at h
      split at h
      · exact ih hnext h
      · split at h
        · exact ih (by simp) h
        · obtain ⟨rfl, -⟩ := Prod.mk.inj (Option.some.inj h)
          exact Nat.lt_of_lt_of_le (Nat.lt_succ_self i) (Nat.le_add_right _ _)

private theorem exec_nodes (h : ∀ n ∈ children, Runs n) :
    runNodes children around st = .ok (runAll children (around.ctx st), st) := by
  induction children with
  | nil => rfl
  | cons node rest ih =>
    obtain ⟨hnode, hrest⟩ := List.forall_mem_cons.1 h
    rw [runNodes, exec_bind (hnode around st), exec_bind (ih hrest)]
    rfl

/-- The values a pipeline makes current are popped by as many pops as it counts. -/
private theorem exec_pipeline (around : Around) (st : Stacks) (h : ∀ n ∈ children, Runs n)
    (last : NodeResult) (pushed : Nat) :
    ∃ st' total, pipelineNodes children around last pushed st =
        .ok (((runPipeline children (around.ctx st) last).1, (runPipeline children (around.ctx st) last).2, total),
          st') ∧
      popTimes total st' = popTimes pushed st := by
  induction children generalizing st last pushed with
  | nil => exact ⟨st, pushed, rfl, rfl⟩
  | cons node rest ih =>
    obtain ⟨hnode, hrest⟩ := List.forall_mem_cons.1 h
    rw [pipelineNodes, exec_bind (hnode around st), runPipeline]
    simp only
    cases (resultOf (run node (around.ctx st))).getD .ok with
    | value v =>
      obtain ⟨st', total, hpipe, hpops⟩ :=
        ih (st.push v (pathOf (run node (around.ctx st)))) hrest (.value v) (pushed + 1)
      refine ⟨st', total, ?_, hpops⟩
      simp only
      rw [exec_bind (exec_push v _), exec_bind hpipe]
      rfl
    | ok =>
      obtain ⟨st', total, hpipe, hpops⟩ := ih st hrest .ok pushed
      refine ⟨st', total, ?_, hpops⟩
      simp only
      rw [exec_bind hpipe]
      rfl
    | error message path =>
      obtain ⟨st', total, hpipe, hpops⟩ := ih st hrest (.error message path) pushed
      refine ⟨st', total, ?_, hpops⟩
      simp only
      rw [exec_bind hpipe]
      rfl

private theorem exec_or (h : ∀ n ∈ children, Runs n) (success : Bool) :
    orNodes children around success st = .ok (runOr children (around.ctx st) success, st) := by
  induction children generalizing success with
  | nil => rfl
  | cons node rest ih =>
    obtain ⟨hnode, hrest⟩ := List.forall_mem_cons.1 h
    rw [orNodes, runOr]
    cases success with
    | true =>
      simp only [if_true]
      rw [exec_bind (ih hrest true)]
      rfl
    | false =>
      simp only [Bool.false_eq_true, if_false]
      rw [exec_bind (hnode around st), exec_bind (ih hrest _)]
      rfl

private theorem exec_if (h : ∀ n ∈ children, Runs n) (hlen : 2 ≤ children.length) :
    ifNodes children around st = .ok (runIf children (around.ctx st), st) := by
  match children, hlen with
  | [cond, branch], _ =>
    rw [ifNodes, exec_bind (h cond (by simp) around st), runIf]
    simp only
    cases resultTruthy (run cond (around.ctx st)) with
    | true =>
      simp only [if_true]
      rw [exec_bind (h branch (by simp) around st)]
      rfl
    | false => rfl
  | cond :: branch :: otherwise :: rest, _ =>
    rw [ifNodes, exec_bind (h cond (by simp) around st), runIf]
    simp only
    cases resultTruthy (run cond (around.ctx st)) with
    | true =>
      simp only [if_true]
      rw [exec_bind (h branch (by simp) around st)]
      rfl
    | false =>
      simp only [Bool.false_eq_true, if_false]
      rw [exec_bind (h otherwise (by simp) around st)]
      rfl

/-- A splat runs as its children do, so what it holds runs too. -/
def RunsIn (node : Node) : Prop :=
  Runs node ∧ ∀ inner, node = .splat inner → ∀ n ∈ inner, Runs n

private theorem exec_forEach (h : ∀ n ∈ children, RunsIn n) (hlen : 2 ≤ children.length) :
    forEachNodes children around st = .ok (runForEach children (around.ctx st), st) := by
  match children, hlen with
  | source :: template :: rest, _ =>
    have hsource := h source (by simp)
    have htemplate := (h template (by simp)).1
    cases source with
    | splat inner =>
      cases inner with
      | nil => rfl
      | cons first others =>
        rw [forEachNodes, exec_bind (hsource.2 _ rfl first (by simp) around st), runForEach,
          exec_bind (exec_eachItem htemplate.tries _)]
        rfl
    | _ =>
      rw [forEachNodes, exec_bind (hsource.1 around st), runForEach, exec_bind (exec_eachItem htemplate.tries _)]
      · rfl
      all_goals exact nofun

private theorem exec_entries (h : ∀ n ∈ children, Runs n) (items : List (RuntimeValue × Option String))
    {used : List Bool} (hlen : used.length = items.length) :
    entryNodes children around (items.map Prod.fst) (items.map Prod.snd) used st =
      .ok (runEntries children (around.ctx st) items used, st) := by
  induction children generalizing used with
  | nil => rfl
  | cons entry rest ih =>
    obtain ⟨hentry, hrest⟩ := List.forall_mem_cons.1 h
    rw [entryNodes, exec_bind (exec_search hentry.tries items none List.drop_zero List.drop_zero hlen), runEntries]
    cases hfit : firstFit (fun p => run entry ((around.ctx st).push p.1 p.2)) items used 0 none with
    | none =>
      simp only
      rw [exec_bind (ih hrest hlen)]
      rfl
    | some claimed =>
      obtain ⟨i, attempt⟩ := claimed
      simp only
      cases childFailed attempt with
      | true =>
        simp only [if_true]
        rw [exec_bind (ih hrest hlen)]
        rfl
      | false =>
        have hi : i < used.length := by
          have hlt := firstFit_lt items (by simp) hfit
          rwa [Nat.zero_add, ← hlen] at hlt
        have hset : setIndex used i true st = .ok (used.set i true, st) := by
          rw [setIndex, if_pos hi]
          rfl
        simp only [Bool.false_eq_true, if_false]
        rw [exec_bind hset, exec_bind (ih hrest (by rw [List.length_set, hlen]))]
        rfl

private theorem itemPaths_fst (source : Option String) (items : List RuntimeValue) :
    (itemPaths source items).map Prod.fst = items := by
  exact List.ext_getElem? fun i => by simp [itemPaths, Function.comp_def]

private theorem exec_contains (h : ∀ n ∈ children, Runs n) (hlen : 1 ≤ children.length) :
    containsNodes children around st = .ok (runContains children (around.ctx st), st) := by
  match children, hlen with
  | source :: entries, _ =>
    obtain ⟨hsource, hentries⟩ := List.forall_mem_cons.1 h
    have hall (items : List RuntimeValue) (path : Option String) :
        entryNodes entries around items ((itemPaths path items).map Prod.snd) (items.map fun _ => false) st =
          .ok (runEntries entries (around.ctx st) (itemPaths path items)
            ((itemPaths path items).map fun _ => false), st) := by
      have hflags : ((itemPaths path items).map fun _ => false) = items.map fun _ => false := by
        rw [List.map_const', List.map_const', itemPaths, List.length_mapIdx]
      have hrun : entryNodes entries around ((itemPaths path items).map Prod.fst) ((itemPaths path items).map Prod.snd)
          ((itemPaths path items).map fun _ => false) st = _ := exec_entries hentries _ (List.length_map _)
      rw [itemPaths_fst, hflags] at hrun
      rw [hrun, hflags]
    rw [containsNodes, exec_bind (hsource around st), runContains]
    simp only
    cases valueOf (run source (around.ctx st)) with
    | array items =>
      simp only
      rw [exec_bind (hall items _)]
      rfl
    | _ =>
      simp only
      rw [exec_bind (hall [] _)]
      rfl

private theorem exec_arrayContains (h : ∀ n ∈ children, Runs n) (hlen : 2 ≤ children.length) :
    arrayContainsNodes children around st = .ok (runArrayContains children (around.ctx st), st) := by
  match children, hlen with
  | source :: template :: rest, _ =>
    obtain ⟨hsource, htemplate, hrest⟩ := List.forall_mem_cons.1 h |>.imp id List.forall_mem_cons.1
    rw [arrayContainsNodes, exec_bind (hsource around st), exec_bind (exec_nodes hrest), runArrayContains]
    simp only
    cases valueOf (run source (around.ctx st)) with
    | array items =>
      simp only
      rw [exec_bind (exec_findMatching htemplate.tries _)]
      rfl
    | _ => rfl

private theorem takes {name : String} {count least : Nat} (h : tooFew name count = none)
    (hleast : leastChildren name = some least) : least ≤ count := by
  refine Nat.le_of_not_lt fun hlt => ?_
  simp [tooFew, hleast, hlt] at h

private theorem positions_within : positions.all (fun p => (leastChildren p.1).any (p.2 ≤ ·)) = true := by decide

/-- An action that was not turned away has every child its branch reads. -/
theorem positions_le {name : String} {count : Nat} (h : tooFew name count = none) :
    (positions.lookup name).getD 0 ≤ count := by
  cases hread : positions.lookup name with
  | none => exact Nat.zero_le count
  | some read =>
    have hwithin := List.all_eq_true.1 positions_within _ (mem_of_lookup hread)
    obtain ⟨least, hleast, hle⟩ := (Option.any_eq_true _ _).1 hwithin
    exact (of_decide_eq_true hle).trans (takes h hleast)

private theorem length_runAll (children : List Node) (ctx : Ctx) :
    (runAll children ctx).length = children.length := by
  induction children with
  | nil => rfl
  | cons node rest ih => rw [runAll, List.length_cons, List.length_cons, ih]

private theorem exec_dispatch {name : String} {executed : List Executed} {ctx : Ctx}
    (h : tooFew name executed.length = none) :
    dispatchAt name executed ctx st = .ok (dispatch name executed ctx, st) := by
  rw [dispatchAt, if_neg (Nat.not_lt.2 (positions_le h))]
  rfl

private theorem exec_action (h : ∀ n ∈ children, RunsIn n) (name : String) : Runs (.action name children) := by
  intro around st
  have hruns : ∀ n ∈ children, Runs n := fun n hn => (h n hn).1
  unfold runNode
  cases hfew : tooFew name children.length with
  | some message =>
    unfold run
    rw [hfew]
    rfl
  | none =>
    simp only
    split
    · rw [run, hfew]
      exact exec_if hruns (takes hfew (by decide))
    · rw [run, hfew, exec_bind (exec_or hruns false)]
      rfl
    · rw [run, hfew]
      exact exec_forEach h (takes hfew (by decide))
    · rw [run, hfew]
      exact exec_contains hruns (takes hfew (by decide))
    · rw [run, hfew]
      exact exec_arrayContains hruns (takes hfew (by decide))
    next hif hor hforEach hcontains hvariant =>
      have hget : (get : Exec Stacks) st = .ok (st, st) := rfl
      rw [exec_bind (exec_nodes hruns), exec_bind hget, run, hfew] <;> try assumption
      rw [← length_runAll children (around.ctx st)] at hfew
      cases isComponentAction name with
      | true => rfl
      | false =>
        simp only [Bool.false_eq_true, if_false]
        rw [exec_bind (exec_dispatch hfew)]
        rfl

private theorem runs_in (node : Node) : RunsIn node := by
  induction node with
  | container label children ih =>
    refine ⟨fun around st => ?_, nofun⟩
    rw [runNode, exec_bind (exec_nodes fun n hn => (ih n hn).1)]
    rfl
  | action name children ih => exact ⟨exec_action ih name, nofun⟩
  | pipeline children ih =>
    refine ⟨fun around st => ?_, nofun⟩
    obtain ⟨st', total, hpipe, hpops⟩ := exec_pipeline around st (fun n hn => (ih n hn).1) .ok 0
    rw [runNode, exec_bind hpipe]
    simp only
    rw [exec_bind hpops]
    rfl
  | splat children ih =>
    refine ⟨fun around st => ?_, fun inner heq n hn => (ih n (Node.splat.inj heq ▸ hn)).1⟩
    rw [runNode, exec_bind (exec_nodes fun n hn => (ih n hn).1)]
    rfl
  | value literal => exact ⟨fun _ _ => rfl, nofun⟩
  | resolve path => exact ⟨fun _ _ => rfl, nofun⟩
  | resolveCurrent path => exact ⟨fun _ _ => rfl, nofun⟩
  | annotation text => exact ⟨fun _ _ => rfl, nofun⟩

/-- Every node runs to its result, whatever it is made of and whatever is current, and leaves the stacks alone. -/
theorem node_runs (node : Node) (around : Around) (st : Stacks) :
    runNode node around st = .ok (run node (around.ctx st), st) :=
  (runs_in node).1 around st

/-- Executing a plan meets no fault: the plan runs to its outcome with nothing left current, and each of the nodes it
could be made of, wherever it stands, takes the stacks it is given back to where they were. -/
theorem execution_never_faults (plan : MatchingPlan) (around : Around) :
    executePlan plan around = .ok (execute plan around.env around.resolver, ⟨[], []⟩) ∧
      ∀ (node : Node) (st : Stacks), runNode node around st = .ok (run node (around.ctx st), st) :=
  ⟨node_runs plan.root around ⟨[], []⟩, fun node => node_runs node around⟩

end

end PactJanus.Plan.Faults
