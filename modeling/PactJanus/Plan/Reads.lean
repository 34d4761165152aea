import PactJanus.Plan.Compile
import PactJanus.Plan.Flow
import PactJanus.Plan.Places

namespace PactJanus.Plan.Reads

open PactJanus.Plan.Model PactJanus.Plan.Value PactJanus.Plan.Resolve PactJanus.Plan.Result PactJanus.Plan.Interpret
  PactJanus.Plan.Navigation PactJanus.Plan.Places

/-! What an execution read of the items that were current, and where it says each of it was. -/

/-- An executed read of a current item; `ofEntry` says whether the item was an object's entry. -/
structure CurrentRead where
  path : String
  absolute : Option String
  value : RuntimeValue
  ofEntry : Bool

/-- Whether a loop over what was executed went through an object's entries. -/
def throughEntries : Executed → Bool
  | .splat (inner :: _) _ => isObject (valueOf inner)
  | inner => isObject (valueOf inner)

mutual

/-- The reads of current items in an execution. -/
def currentReads (ofEntry : Bool) : Executed → List CurrentRead
  | .resolveCurrent path absolute (some (.value v)) => [⟨path, absolute, v, ofEntry⟩]
  | .container _ children _ => readsOfAll ofEntry children
  | .action name children _ => readsUnder ofEntry name children
  | .pipeline children _ => readsOfAll ofEntry children
  | .splat children _ => readsOfAll ofEntry children
  | _ => []
termination_by structural e => e

/-- The children of a loop, after its source, are of the items it goes through. -/
def readsUnder (ofEntry : Bool) (name : String) : List Executed → List CurrentRead
  | [] => []
  | first :: rest =>
    currentReads ofEntry first ++
      readsOfAll (if name = "flow:for-each" then throughEntries first
        else if name = "match:contains" then false else ofEntry) rest
termination_by structural es => es

def readsOfAll (ofEntry : Bool) : List Executed → List CurrentRead
  | [] => []
  | e :: rest => currentReads ofEntry e ++ readsOfAll ofEntry rest
termination_by structural es => es

end

/-- Whether a path leads under an entry's value. -/
def underValue (path : String) : Bool :=
  match withoutSigil path with
  | '.' :: 'v' :: 'a' :: 'l' :: 'u' :: 'e' :: rest => rest.head?.all isCut
  | _ => false

/-- A read is recorded at a path that resolves to what was read; at its own member's, when it is of a whole entry. -/
def Named (captured : CapturedValues) (r : CurrentRead) : Prop :=
  ∃ absolute, r.absolute = some absolute ∧
    (r.ofEntry = false ∨ underValue r.path = true → resolve captured absolute = r.value) ∧
      (r.ofEntry = true → r.path = "~>" → ∃ key v, r.value = .entry key v ∧ resolve captured absolute = v)

/-! A path of steps, read in a current item. -/

section Current

variable {captured : CapturedValues} {place key : String} {item v : RuntimeValue} {steps : List Step}

/-- The path of steps under the current item. -/
def currentPath (steps : List Step) : String := along "~>" steps

theorem withoutSigil_currentPath (steps : List Step) : withoutSigil (currentPath steps) = pathText steps := by
  have hpath : (currentPath steps).toList = '~' :: '>' :: pathText steps := by simp [currentPath, along]
  rw [withoutSigil, hpath]
  rfl

private theorem value_text : pathText [.member "value"] = ".value".toList := by decide

private theorem key_text : pathText [.member "key"] = ".key".toList := by decide

private theorem pathText_cons (step : Step) (rest : List Step) : pathText (step :: rest) = step.text ++ pathText rest := rfl

private theorem value_path (rest : List Step) : pathText (.member "value" :: rest) = ".value".toList ++ pathText rest := by
  rw [pathText_cons, ← value_text, pathText_cons]
  simp [pathText]

theorem steps_of_underValue (hs : ∀ s ∈ steps, s.fits) (h : underValue (currentPath steps) = true) :
    ∃ rest, steps = .member "value" :: rest := by
  rw [underValue, withoutSigil_currentPath] at h
  split at h
  · rename_i rest hpath
    have hcut : ∀ c ∈ rest.head?, (!endsMember c) = false := fun c hc => by
      have hcut : isCut c = true := (Option.all_eq_true _ _).1 h c hc
      simpa [isCut, endsMember, Decidable.imp_iff_not_or] using hcut
    have hread := readSteps_member (List.all_eq_true.1 (by decide : "value".toList.all (fun c => !endsMember c) = true)) hcut
    have hsame : '.' :: ("value".toList ++ rest) = pathText steps := hpath.symm
    rw [hsame, readSteps_pathText hs] at hread
    cases hrest : readSteps rest with
    | none =>
      rw [hrest] at hread
      exact absurd hread (by simp)
    | some more =>
      rw [hrest, Option.map_some] at hread
      exact ⟨more, Option.some.inj hread⟩
  · exact absurd h (by simp)

theorem read_element (hentry : isEntry item = false) (h : CurrentAt captured place item) (hs : ∀ s ∈ steps, s.fits) :
    At captured (absolutePath place item (pathText steps)) (navigate item (pathText steps)) := by
  have hat : At captured place item := by
    cases item with
    | entry => exact nomatch hentry
    | _ => exact h
  have hplace : absolutePath place item (pathText steps) = along place steps := by
    cases item with
    | entry => exact nomatch hentry
    | _ => rfl
  rw [hplace, navigate_pathText (isDocument_of_isDecoded hat.decoded) hs]
  exact At.along hat hs

theorem read_value (h : At captured place v) (hs : ∀ s ∈ steps, s.fits) :
    At captured (absolutePath place (.entry key v) (pathText (.member "value" :: steps)))
      (navigate (.entry key v) (pathText (.member "value" :: steps))) := by
  have hplace : absolutePath place (.entry key v) (".value".toList ++ pathText steps) = along place steps := rfl
  rw [value_path, navigate_value, hplace, navigate_pathText (isDocument_of_isDecoded h.decoded) hs]
  exact At.along h hs

private theorem walkSteps_string (s : String) (steps : List Step) :
    iterationItems (walkSteps (.string s) steps) = [] := by
  cases steps with
  | nil => rfl
  | cons step rest =>
    have habsent : stepOf (.string s) step = .absent := by cases step <;> rfl
    rw [walkSteps, List.foldl_cons, habsent, ← walkSteps, walkSteps_absent]
    rfl

private theorem navigate_entry_bracket (rest : List Char) : navigate (.entry key v) ('[' :: rest) = .absent := by
  rw [navigate.eq_def]
  split
  · rename_i heq
    exact absurd heq (by simp)
  · rename_i heq
    exact absurd (List.cons.inj heq).1 (by decide)
  · rfl
  · simp only
    split
    · rename_i heq
      cases heq
    · rfl
  · rfl

/-- There is nothing to go through in what is read of an entry other than under its value. -/
theorem no_items_of_entry (hsteps : ∀ rest, steps ≠ .member "value" :: rest) (hs : ∀ s ∈ steps, s.fits) :
    iterationItems (navigate (.entry key v) (pathText steps)) = [] := by
  cases steps with
  | nil =>
    rw [pathText, List.flatMap_nil, navigate]
    rfl
  | cons step rest =>
    rw [pathText_cons]
    cases step with
    | index i =>
      show iterationItems (navigate _ ('[' :: _)) = []
      rw [navigate_entry_bracket]
      rfl
    | member name =>
      by_cases hplain : plain name = true
      · have htext : (Step.member name).text = '.' :: name.toList := by simp [Step.text, memberSegment, hplain]
        have hvalue : name ≠ "value" := by
          rintro rfl
          exact hsteps rest rfl
        rw [htext, List.cons_append, navigate_entry _ (plain_chars hplain), String.ofList_toList, if_neg hvalue]
        split
        · rw [navigate_pathText rfl fun s hs' => hs s (List.mem_cons_of_mem _ hs')]
          exact walkSteps_string key rest
        · rfl
      · have htext : (Step.member name).text = '[' :: '\'' :: escape name.toList ++ ['\'', ']'] := by
          simp [Step.text, memberSegment, hplain]
        rw [htext]
        show iterationItems (navigate _ ('[' :: _)) = []
        rw [navigate_entry_bracket]
        rfl

end Current

/-! A plan whose paths are along steps, from places or from the items that are current. -/

def loops : List String := ["flow:for-each", "match:contains"]

/-- What a loop goes through is read, not computed. -/
inductive IsRead : Node → Prop
  | resolve {path : String} : IsRead (.resolve path)
  | resolveCurrent {path : String} : IsRead (.resolveCurrent path)
  | splat {source : Node} {rest : List Node} : IsRead source → IsRead (.splat (source :: rest))

/-- A plan's node, under a loop or not. -/
inductive Addressed (captured : CapturedValues) : Bool → Node → Prop
  | value {inside : Bool} {literal : Literal} : Addressed captured inside (.value literal)
  | resolve {inside : Bool} {path : String} {v : RuntimeValue} : At captured path v → Addressed captured inside (.resolve path)
  | current {steps : List Step} : (∀ s ∈ steps, s.fits) → Addressed captured true (.resolveCurrent (currentPath steps))
  | container {inside : Bool} {label : Option String} {children : List Node} :
      (∀ n ∈ children, Addressed captured inside n) → Addressed captured inside (.container label children)
  | splat {inside : Bool} {children : List Node} :
      (∀ n ∈ children, Addressed captured inside n) → Addressed captured inside (.splat children)
  | action {inside : Bool} {name : String} {children : List Node} : name ∉ loops → name ≠ "legacy:array-contains" →
      (∀ n ∈ children, Addressed captured inside n) → Addressed captured inside (.action name children)
  | loop {inside : Bool} {name : String} {source : Node} {items : List Node} : name ∈ loops → IsRead source →
      Addressed captured inside source → (∀ n ∈ items, Addressed captured true n) →
        Addressed captured inside (.action name (source :: items))

/-- A context whose current item, where a loop made one current, is where the context says it is. -/
structure Ready (captured : CapturedValues) (inside ofEntry : Bool) (ctx : Ctx) : Prop where
  resolver : ctx.resolver = resolve captured
  current : inside = true → ∃ item items place places, ctx.current = item :: items ∧
    ctx.currentPaths = some place :: places ∧ CurrentAt captured place item ∧ isEntry item = ofEntry

section Runs

variable {captured : CapturedValues} {inside ofEntry : Bool} {ctx : Ctx}

theorem readsOfAll_iff {es : List Executed} {r : CurrentRead} :
    r ∈ readsOfAll ofEntry es ↔ ∃ e ∈ es, r ∈ currentReads ofEntry e := by
  induction es with
  | nil => simp [readsOfAll]
  | cons e rest ih => simp [readsOfAll, ih]

/-- The reads under a container's child are the container's. -/
theorem reads_container {label : Option String} {children : List Node} {node : Node} (hnode : node ∈ children)
    {r : CurrentRead} (hr : r ∈ currentReads ofEntry (run node ctx)) :
    r ∈ currentReads ofEntry (run (.container label children) ctx) := by
  rw [run, currentReads, Flow.runAll_eq_map, readsOfAll_iff]
  exact ⟨_, List.mem_map_of_mem hnode, hr⟩

/-- Nothing is read where nothing is executed. -/
theorem currentReads_skip (node : Node) : currentReads ofEntry (skip node) = [] := by
  have hall {children : List Node} (h : ∀ n ∈ children, ∀ ofEntry, currentReads ofEntry (skip n) = []) (ofEntry : Bool) :
      readsOfAll ofEntry (skipAll children) = [] := by
    induction children with
    | nil => rfl
    | cons n rest ih =>
      obtain ⟨hn, hrest⟩ := List.forall_mem_cons.1 h
      rw [skipAll, readsOfAll, hn, ih hrest]
      rfl
  induction node generalizing ofEntry with
  | container label children ih => exact hall (fun n hn ofEntry => ih n hn) ofEntry
  | pipeline children ih => exact hall (fun n hn ofEntry => ih n hn) ofEntry
  | splat children ih => exact hall (fun n hn ofEntry => ih n hn) ofEntry
  | action name children ih =>
    cases children with
    | nil => rfl
    | cons first rest =>
      obtain ⟨hfirst, hrest⟩ := List.forall_mem_cons.1 ih
      show currentReads ofEntry (skip first) ++ readsOfAll _ (skipAll rest) = []
      rw [hfirst, hall fun n hn ofEntry => hrest n hn]
      rfl
  | _ => rfl

private theorem skipAll_eq (nodes : List Node) : skipAll nodes = nodes.map skip := by
  induction nodes with
  | nil => rfl
  | cons n rest ih => rw [skipAll, ih, List.map_cons]

/-- What is executed under a node, in the context of the node, or skipped. -/
def RunOrSkipped (children : List Node) (ctx : Ctx) (e : Executed) : Prop :=
  (∃ n ∈ children, e = run n ctx) ∨ ∃ n, e = skip n

private theorem runOr_children (children : List Node) (success : Bool) :
    ∀ e ∈ (runOr children ctx success).1, RunOrSkipped children ctx e := by
  induction children generalizing success with
  | nil => simp [runOr]
  | cons n rest ih =>
    have hrest (success : Bool) (e : Executed) (he : e ∈ (runOr rest ctx success).1) : RunOrSkipped (n :: rest) ctx e := by
      obtain ⟨m, hm, rfl⟩ | hskip := ih success e he
      · exact Or.inl ⟨m, List.mem_cons_of_mem _ hm, rfl⟩
      · exact Or.inr hskip
    rw [runOr]
    split
    · exact List.forall_mem_cons.2 ⟨Or.inr ⟨n, rfl⟩, hrest true⟩
    · exact List.forall_mem_cons.2 ⟨Or.inl ⟨n, List.mem_cons_self, rfl⟩, hrest _⟩

private theorem skipped_children (children : List Node) : ∀ e ∈ skipAll children, RunOrSkipped children ctx e := by
  intro e he
  rw [skipAll_eq] at he
  obtain ⟨n, -, rfl⟩ := List.mem_map.1 he
  exact Or.inr ⟨n, rfl⟩

private theorem runIf_children (children : List Node) :
    ∃ es result, runIf children ctx = .action "flow:if" es result ∧ ∀ e ∈ es, RunOrSkipped children ctx e := by
  have hskip (n : Node) : RunOrSkipped children ctx (skip n) := Or.inr ⟨n, rfl⟩
  have hrun (n : Node) (hn : n ∈ children) : RunOrSkipped children ctx (run n ctx) := Or.inl ⟨n, hn, rfl⟩
  rcases children with _ | ⟨cond, _ | ⟨branch, _ | ⟨otherwise, rest⟩⟩⟩
  · exact ⟨_, _, rfl, by simp [skipAll]⟩
  · exact ⟨_, _, rfl, List.forall_mem_singleton.2 (hskip cond)⟩
  · have hcond := hrun cond (by simp)
    rw [runIf]
    split
    · exact ⟨_, _, rfl, List.forall_mem_cons.2 ⟨hcond, List.forall_mem_singleton.2 (hrun branch (by simp))⟩⟩
    · exact ⟨_, _, rfl, List.forall_mem_cons.2 ⟨hcond, List.forall_mem_singleton.2 (hskip branch)⟩⟩
  · have hcond := hrun cond (by simp)
    rw [runIf]
    split
    · exact ⟨_, _, rfl, List.forall_mem_cons.2 ⟨hcond, List.forall_mem_cons.2 ⟨hrun branch (by simp),
        List.forall_mem_singleton.2 (hskip otherwise)⟩⟩⟩
    · exact ⟨_, _, rfl, List.forall_mem_cons.2 ⟨hcond, List.forall_mem_cons.2 ⟨hskip branch,
        List.forall_mem_singleton.2 (hrun otherwise (by simp))⟩⟩⟩

private theorem runAll_children (children : List Node) : ∀ e ∈ runAll children ctx, RunOrSkipped children ctx e := by
  intro e he
  rw [Flow.runAll_eq_map] at he
  obtain ⟨n, hn, rfl⟩ := List.mem_map.1 he
  exact Or.inl ⟨n, hn, rfl⟩

/-- An action that is no loop executes its children where it is executed. -/
theorem run_plain {name : String} (children : List Node) (hloop : name ∉ loops) (hlegacy : name ≠ "legacy:array-contains") :
    ∃ es result, run (.action name children) ctx = .action name es result ∧ ∀ e ∈ es, RunOrSkipped children ctx e := by
  rw [run.eq_def]
  simp only
  split
  · exact ⟨_, _, rfl, skipped_children children⟩
  · split
    · exact runIf_children children
    · exact ⟨_, _, rfl, runOr_children children false⟩
    · exact absurd (by simp [loops]) hloop
    · exact absurd (by simp [loops]) hloop
    · exact absurd rfl hlegacy
    · exact ⟨_, _, rfl, runAll_children children⟩

/-! A read of the current item, and what a loop goes through, are where the execution has them. -/

theorem named_current {steps : List Step} (hs : ∀ s ∈ steps, s.fits) (h : Ready captured true ofEntry ctx) :
    ∀ r ∈ currentReads ofEntry (run (.resolveCurrent (currentPath steps)) ctx), Named captured r := by
  obtain ⟨item, items, place, places, hcurrent, hpaths, hat, hentry⟩ := h.current rfl
  have hrun : run (.resolveCurrent (currentPath steps)) ctx = .resolveCurrent (currentPath steps)
      (some (absolutePath place item (pathText steps))) (some (.value (navigate item (pathText steps)))) := by
    rw [run, hcurrent, hpaths, withoutSigil_currentPath]
    rfl
  rw [hrun]
  refine List.forall_mem_singleton.2 ⟨_, rfl, ?_, ?_⟩
  · rintro (helement | hunder)
    · exact (read_element (hentry.trans helement) hat hs).here
    · obtain ⟨rest, rfl⟩ := steps_of_underValue hs hunder
      cases hitem : isEntry item with
      | false => exact (read_element hitem hat hs).here
      | true =>
        cases item with
        | entry key v => exact (read_value hat fun s hs' => hs s (List.mem_cons_of_mem _ hs')).here
        | _ => cases hitem
  · rintro rfl hpath
    have htext : pathText steps = [] := by
      rw [← withoutSigil_currentPath, show currentPath steps = "~>" from hpath]
      decide
    cases item with
    | entry key v =>
      have hplace : absolutePath place (.entry key v) [] = place := by simp [absolutePath]
      rw [htext, navigate, hplace]
      exact ⟨key, v, rfl, At.here hat⟩
    | _ => cases hentry

/-- The items of a loop over what was executed are where the loop has them. -/
def Found (captured : CapturedValues) (e : Executed) : Prop :=
  ∀ p ∈ itemPaths (pathOf e) (iterationItems (valueOf e)),
    ∃ item, p.2 = some item ∧ CurrentAt captured item p.1 ∧ isEntry p.1 = isObject (valueOf e)

private theorem found_of_at {e : Executed} {place : String} (hpath : pathOf e = some place)
    (h : At captured place (valueOf e)) : Found captured e := by
  intro p hp
  rw [hpath] at hp
  exact currentAt_items h hp

private theorem found_of_nothing {e : Executed} (h : iterationItems (valueOf e) = []) : Found captured e := by
  intro p hp
  rw [h] at hp
  exact nomatch hp

theorem found_read {source : Node} (hread : IsRead source) (h : Addressed captured inside source)
    (hctx : Ready captured inside ofEntry ctx) : Found captured (run source ctx) := by
  induction hread with
  | resolve =>
    cases h with
    | resolve hat =>
      refine found_of_at rfl ?_
      show At captured _ (ctx.resolver _)
      rw [hctx.resolver, At.here hat]
      exact hat
  | resolveCurrent =>
    cases h with
    | current hs =>
      obtain ⟨item, items, place, places, hcurrent, hpaths, hat, -⟩ := hctx.current rfl
      rename_i steps
      have hrun : run (.resolveCurrent (currentPath steps)) ctx = .resolveCurrent (currentPath steps)
          (some (absolutePath place item (pathText steps))) (some (.value (navigate item (pathText steps)))) := by
        rw [run, hcurrent, hpaths, withoutSigil_currentPath]
        rfl
      rw [hrun]
      cases hitem : isEntry item with
      | false => exact found_of_at rfl (read_element hitem hat hs)
      | true =>
        cases item with
        | entry key v =>
          by_cases hvalue : ∃ rest, steps = .member "value" :: rest
          · obtain ⟨rest, rfl⟩ := hvalue
            exact found_of_at rfl (read_value hat fun s hs' => hs s (List.mem_cons_of_mem _ hs'))
          · exact found_of_nothing (no_items_of_entry (fun rest heq => hvalue ⟨rest, heq⟩) hs)
        | _ => cases hitem
  | splat _ ih =>
    cases h with
    | splat hchildren => exact ih (hchildren _ List.mem_cons_self)

private theorem ready_item (hctx : Ready captured inside ofEntry ctx) {p : RuntimeValue × Option String} {place : String}
    (hplace : p.2 = some place) (hat : CurrentAt captured place p.1) :
    Ready captured true (isEntry p.1) (ctx.push p.1 p.2) :=
  ⟨hctx.resolver, fun _ => ⟨p.1, ctx.current, place, ctx.currentPaths, rfl, by rw [← hplace]; rfl, hat, rfl⟩⟩

private theorem firstFit_tried {attempt : RuntimeValue × Option String → Executed}
    {items : List (RuntimeValue × Option String)} {used : List Bool} {index : Nat} {matched : Option (Nat × Executed)}
    {found : Nat × Executed} (h : firstFit attempt items used index matched = some found) :
    (∃ p ∈ items, found.2 = attempt p) ∨ matched = some found := by
  induction items generalizing used index matched with
  | nil => exact Or.inr h
  | cons item rest ih =>
    cases used with
    | nil => exact Or.inr h
    | cons flag flags =>
      have hrest {matched : Option (Nat × Executed)} (h : (∃ p ∈ rest, found.2 = attempt p) ∨ matched = some found) :
          (∃ p ∈ item :: rest, found.2 = attempt p) ∨ matched = some found :=
        h.imp_left fun ⟨p, hp, hfound⟩ => ⟨p, List.mem_cons_of_mem _ hp, hfound⟩
      rw [firstFit] at h
      split at h
      · exact hrest (ih h)
      · split at h
        · obtain hp | hlast := hrest (ih h)
          · exact Or.inl hp
          · obtain rfl := Option.some.inj hlast
            exact Or.inl ⟨item, List.mem_cons_self, rfl⟩
        · obtain rfl := Option.some.inj h
          exact Or.inl ⟨item, List.mem_cons_self, rfl⟩

/-- Each entry is executed at one of the items, or skipped. -/
theorem runEntries_tried (entries : List Node) (items : List (RuntimeValue × Option String)) (used : List Bool) :
    ∀ e ∈ (runEntries entries ctx items used).1,
      (∃ n ∈ entries, ∃ p ∈ items, e = run n (ctx.push p.1 p.2)) ∨ ∃ n, e = skip n := by
  induction entries generalizing used with
  | nil => simp [runEntries]
  | cons entry rest ih =>
    have hrest (used : List Bool) (e : Executed) (he : e ∈ (runEntries rest ctx items used).1) :
        (∃ n ∈ entry :: rest, ∃ p ∈ items, e = run n (ctx.push p.1 p.2)) ∨ ∃ n, e = skip n :=
      (ih used e he).imp_left (Exists.imp fun _ htried => ⟨List.mem_cons_of_mem _ htried.1, htried.2⟩)
    rw [runEntries]
    split
    · rename_i index attempt hfit
      obtain ⟨p, hp, rfl⟩ := (firstFit_tried hfit).resolve_right (by simp)
      split <;> exact List.forall_mem_cons.2 ⟨Or.inl ⟨entry, List.mem_cons_self, p, hp, rfl⟩, hrest _⟩
    · exact List.forall_mem_cons.2 ⟨Or.inr ⟨entry, rfl⟩, hrest _⟩

/-- A node whose reads of current items are all named, wherever it is executed. -/
def AllNamed (captured : CapturedValues) (node : Node) : Prop :=
  ∀ inside ofEntry ctx, Addressed captured inside node → Ready captured inside ofEntry ctx →
    ∀ r ∈ currentReads ofEntry (run node ctx), Named captured r

private theorem named_all {es : List Executed}
    (h : ∀ e ∈ es, ∀ r ∈ currentReads ofEntry e, Named captured r) : ∀ r ∈ readsOfAll ofEntry es, Named captured r := by
  intro r hr
  obtain ⟨e, he, hre⟩ := readsOfAll_iff.1 hr
  exact h e he r hre

private theorem named_skip (node : Node) : ∀ r ∈ currentReads ofEntry (skip node), Named captured r := by
  rw [currentReads_skip]
  exact fun r hr => nomatch hr

private theorem named_skipped (children : List Node) : ∀ r ∈ readsOfAll ofEntry (skipAll children), Named captured r := by
  refine named_all fun e he => ?_
  rw [skipAll_eq] at he
  obtain ⟨n, -, rfl⟩ := List.mem_map.1 he
  exact named_skip n

private theorem named_malformed (name : String) (children : List Node) (message : String) :
    ∀ r ∈ currentReads ofEntry (malformed name children message), Named captured r := by
  cases children with
  | nil => exact fun r hr => nomatch hr
  | cons n rest =>
    intro r hr
    obtain hfirst | hrest := List.mem_append.1 hr
    · exact named_skip n r hfirst
    · exact named_skipped rest r hrest

private theorem named_plain {name : String} {es : List Executed} {result : Option NodeResult} (hloop : name ∉ loops)
    (h : ∀ e ∈ es, ∀ r ∈ currentReads ofEntry e, Named captured r) :
    ∀ r ∈ currentReads ofEntry (.action name es result), Named captured r := by
  simp only [loops, List.mem_cons, not_or] at hloop
  cases es with
  | nil => exact fun r hr => by cases hr
  | cons e rest =>
    obtain ⟨he, hrest⟩ := List.forall_mem_cons.1 h
    intro r hr
    rw [currentReads, readsUnder, if_neg hloop.1, if_neg hloop.2.1] at hr
    obtain hfirst | hothers := List.mem_append.1 hr
    · exact he r hfirst
    · exact named_all hrest r hothers

/-- The items of a loop are executed where they are. -/
private theorem named_items {items : List Node} (h : ∀ n ∈ items, AllNamed captured n ∧ Addressed captured true n)
    (hctx : Ready captured inside ofEntry ctx) {e : Executed} (hfound : Found captured e) {n : Node} (hn : n ∈ items)
    {p : RuntimeValue × Option String} (hp : p ∈ itemPaths (pathOf e) (iterationItems (valueOf e))) :
    ∀ r ∈ currentReads (isObject (valueOf e)) (run n (ctx.push p.1 p.2)), Named captured r := by
  obtain ⟨place, hplace, hat, hentry⟩ := hfound p hp
  rw [← hentry]
  exact (h n hn).1 true _ _ (h n hn).2 (ready_item hctx hplace hat)

/-- What a loop executes after its source. -/
private theorem named_loop {first inner : Executed} {template : Node} {items : List Node} {result : Option NodeResult}
    (hfirst : ∀ r ∈ currentReads ofEntry first, Named captured r)
    (hthrough : throughEntries first = isObject (valueOf inner)) (hfound : Found captured inner)
    (hitems : ∀ n ∈ template :: items, AllNamed captured n ∧ Addressed captured true n)
    (hctx : Ready captured inside ofEntry ctx) :
    ∀ r ∈ currentReads ofEntry (.action "flow:for-each" (first ::
      (itemPaths (pathOf inner) (iterationItems (valueOf inner))).map fun p => run template (ctx.push p.1 p.2)) result),
      Named captured r := by
  intro r hr
  rw [currentReads, readsUnder, if_pos rfl, hthrough] at hr
  obtain hsource | hothers := List.mem_append.1 hr
  · exact hfirst r hsource
  · refine named_all (fun e he => ?_) r hothers
    obtain ⟨p, hp, rfl⟩ := List.mem_map.1 he
    exact named_items hitems hctx hfound List.mem_cons_self hp

private theorem named_forEach {source : Node} {items : List Node} (hread : IsRead source)
    (hsource : AllNamed captured source) (haddressed : Addressed captured inside source)
    (hitems : ∀ n ∈ items, AllNamed captured n ∧ Addressed captured true n) (hctx : Ready captured inside ofEntry ctx) :
    ∀ r ∈ currentReads ofEntry (runForEach (source :: items) ctx), Named captured r := by
  have hnamed := hsource inside ofEntry ctx haddressed hctx
  have hfound := found_read hread haddressed hctx
  cases items with
  | nil =>
    cases hread <;> exact named_malformed _ _ _
  | cons template more =>
    cases hread with
    | resolve => exact named_loop hnamed rfl hfound hitems hctx
    | resolveCurrent => exact named_loop hnamed rfl hfound hitems hctx
    | splat hinner =>
      refine named_loop ?_ rfl hfound hitems hctx
      intro r hr
      refine hnamed r ?_
      obtain ⟨e, he, hre⟩ := readsOfAll_iff.1 hr
      obtain rfl := List.mem_singleton.1 he
      exact readsOfAll_iff.2 ⟨_, List.mem_cons_self, hre⟩

private theorem named_contains {source : Node} {items : List Node} (hread : IsRead source)
    (hsource : AllNamed captured source) (haddressed : Addressed captured inside source)
    (hitems : ∀ n ∈ items, AllNamed captured n ∧ Addressed captured true n) (hctx : Ready captured inside ofEntry ctx) :
    ∀ r ∈ currentReads ofEntry (runContains (source :: items) ctx), Named captured r := by
  have hfound := found_read hread haddressed hctx
  intro r hr
  rw [runContains, currentReads, readsUnder, if_neg (by decide), if_pos rfl] at hr
  obtain hfirst | hothers := List.mem_append.1 hr
  · exact hsource inside ofEntry ctx haddressed hctx r hfirst
  · refine named_all (fun e he => ?_) r hothers
    obtain ⟨n, hn, p, hp, rfl⟩ | ⟨n, rfl⟩ := runEntries_tried _ _ _ e he
    · split at hp
      · rename_i elements helements
        have hp' : p ∈ itemPaths (pathOf (run source ctx)) (iterationItems (valueOf (run source ctx))) := by
          rw [helements]
          exact hp
        have hnamed := named_items hitems hctx hfound hn hp'
        rwa [helements] at hnamed
      · cases hp
    · exact named_skip n

/-- Every read of a current item is recorded at a path that resolves to what was read. -/
theorem reads_named (node : Node) : AllNamed captured node := by
  have hall {children : List Node} (ih : ∀ n ∈ children, AllNamed captured n) {inside ofEntry : Bool} {ctx : Ctx}
      (h : ∀ n ∈ children, Addressed captured inside n) (hctx : Ready captured inside ofEntry ctx) :
      ∀ r ∈ readsOfAll ofEntry (runAll children ctx), Named captured r := by
    refine named_all fun e he => ?_
    rw [Flow.runAll_eq_map] at he
    obtain ⟨n, hn, rfl⟩ := List.mem_map.1 he
    exact ih n hn inside ofEntry ctx (h n hn) hctx
  induction node with
  | container label children ih =>
    intro inside ofEntry ctx haddressed hctx
    cases haddressed with
    | container h => exact hall ih h hctx
  | splat children ih =>
    intro inside ofEntry ctx haddressed hctx
    cases haddressed with
    | splat h => exact hall ih h hctx
  | pipeline children ih => exact fun _ _ _ haddressed => by cases haddressed
  | action name children ih =>
    intro inside ofEntry ctx haddressed hctx
    cases haddressed with
    | action hloop hlegacy h =>
      obtain ⟨es, result, hrun, hes⟩ := run_plain children hloop hlegacy
      rw [hrun]
      refine named_plain hloop fun e he => ?_
      obtain ⟨n, hn, rfl⟩ | ⟨n, rfl⟩ := hes e he
      · exact ih n hn inside ofEntry ctx (h n hn) hctx
      · exact named_skip n
    | loop hloop hread hsource hitems =>
      obtain ⟨hfirst, hrest⟩ := List.forall_mem_cons.1 ih
      have hboth : ∀ n ∈ _, AllNamed captured n ∧ Addressed captured true n := fun n hn => ⟨hrest n hn, hitems n hn⟩
      rw [run.eq_def]
      simp only
      split
      · exact named_malformed _ _ _
      · rcases List.mem_cons.1 hloop with rfl | hloop
        · exact named_forEach hread hfirst hsource hboth hctx
        · obtain rfl := List.mem_singleton.1 hloop
          exact named_contains hread hfirst hsource hboth hctx
  | resolveCurrent path =>
    intro inside ofEntry ctx haddressed hctx
    cases haddressed with
    | current hs => exact named_current hs hctx
  | _ => exact fun _ _ _ _ _ r hr => by cases hr

end Runs

end PactJanus.Plan.Reads
