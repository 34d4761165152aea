import PactJanus.Lib.Fallible
import PactJanus.Lib.Lists
import PactJanus.Plan.Interpret
import PactJanus.Plan.Reading

namespace PactJanus.Plan.Translation

open PactJanus.Data.Json PactJanus.Lib PactJanus.Plan.Actions PactJanus.Plan.Model PactJanus.Plan.Result
  PactJanus.Plan.Interpret PactJanus.Plan.Rendering PactJanus.Plan.Fragment PactJanus.Plan.Reading

/-! What a name means under each grammar, and what reading a plan of the previous one makes of it. -/

/-- Whose an action is: the specification's own, nobody's, or a component's. -/
inductive Treatment where
  | core | refused | component
deriving DecidableEq

def namespaceOf (name : String) : Option String := (Text.splitOnce ':' name).map Prod.fst

def treatment (grammar : Grammar) (name : String) : Treatment :=
  if (grammar.core name).isSome then .core
  else if grammar.reserves name || (namespaceOf name).isNone then .refused
  else .component

mutual

/-- The names of a plan's actions, each above those of its children. -/
def actionNames : Node → List String
  | .action name children => name :: actionNamesAll children
  | .container _ children => actionNamesAll children
  | .pipeline children => actionNamesAll children
  | .splat children => actionNamesAll children
  | .value _ => []
  | .resolve _ => []
  | .resolveCurrent _ => []
  | Node.annotation _ => []
termination_by structural node => node

def actionNamesAll : List Node → List String
  | [] => []
  | node :: rest => actionNames node ++ actionNamesAll rest
termination_by structural nodes => nodes

end

/-- An action of the previous grammar is kept under a current name: a core action's is its own, any other's the same. -/
structure Kept (was now : String) : Prop where
  name : now = (Grammar.v0.core was).getD was
  treatment : treatment .v1 now = treatment .v0 was

/-- The namespaces the two grammars disagree on. -/
def contestedNamespaces : List String := ["flow", "value", "legacy", "convert"]

/-- A name that means the same to both grammars. -/
def Uncontested (name : String) : Prop :=
  Grammar.v0.core name = none → ∀ ns ∈ contestedNamespaces, namespaceOf name ≠ some ns

/-! The table of core actions. -/

private theorem core_v1_isSome {name : String} :
    (Grammar.v1.core name).isSome = true ↔ ∃ row ∈ Actions.core, row.1 = name := by
  simp [Grammar.core, List.find?_isSome]

private theorem core_v0_eq_none {name : String} :
    Grammar.v0.core name = none ↔ ∀ row ∈ Actions.core, row.2.1 ≠ some name := by
  simp [Grammar.core]

private theorem core_v0_eq_some {name core : String} (h : Grammar.v0.core name = some core) :
    (Grammar.v1.core core).isSome = true := by
  obtain ⟨row, hrow, rfl⟩ := Option.map_eq_some_iff.1 h
  exact core_v1_isSome.2 ⟨row, List.mem_of_find?_eq_some hrow, rfl⟩

private theorem core_namespace :
    ∀ row ∈ Actions.core, (∃ ns ∈ reservedNamespaces, namespaceOf row.1 = some ns) ∧
      ((∀ ns ∈ contestedNamespaces, namespaceOf row.1 ≠ some ns) → row.2.1 = some row.1) := by
  decide

/-- A name that is no core action of the previous grammar is one of the current only in a contested namespace. -/
private theorem not_core_of_uncontested {name : String} (hcore : Grammar.v0.core name = none)
    (h : ∀ ns ∈ contestedNamespaces, namespaceOf name ≠ some ns) : (Grammar.v1.core name).isSome = false := by
  rw [← Bool.not_eq_true, core_v1_isSome]
  rintro ⟨row, hrow, rfl⟩
  exact core_v0_eq_none.1 hcore row hrow ((core_namespace row hrow).2 h)

private theorem leastChildren_isSome {name : String} :
    (leastChildren name).isSome = (Grammar.v1.core name).isSome := by
  rw [Bool.eq_iff_iff, leastChildren, Option.isSome_map, Lists.lookup_isSome_iff, core_v1_isSome, List.mem_map]

/-! The interpreter treats a name as the current grammar does. -/

private theorem leastChildren_eq_none {name : String} (h : treatment .v1 name ≠ .core) : leastChildren name = none := by
  rw [← Option.not_isSome_iff_eq_none, leastChildren_isSome]
  exact fun hcore => h (by rw [treatment, if_pos hcore])

private theorem treatment_unscoped {grammar : Grammar} {name : String} (hcore : (grammar.core name).isSome = false)
    (h : namespaceOf name = none) : treatment grammar name = .refused := by
  rw [treatment, hcore, h]
  simp

private theorem treatment_v0 {name ns : String} (hcore : (Grammar.v0.core name).isSome = false)
    (h : namespaceOf name = some ns) : treatment .v0 name = if ns ∈ v0Families then .refused else .component := by
  obtain ⟨parts, hsplit, rfl⟩ := Option.map_eq_some_iff.1 h
  have hreserves : Grammar.v0.reserves name = decide (parts.1 ∈ v0Families) := by simp only [Grammar.reserves, hsplit]
  rw [treatment, hcore, hreserves, h]
  simp

private theorem treatment_v1 {name ns : String} (hcore : (Grammar.v1.core name).isSome = false)
    (h : namespaceOf name = some ns) :
    treatment .v1 name = if ns ∈ reservedNamespaces then .refused else .component := by
  obtain ⟨parts, hsplit, rfl⟩ := Option.map_eq_some_iff.1 h
  have hreserves : Grammar.v1.reserves name = decide (parts.1 ∈ reservedNamespaces) := by
    simp only [Grammar.reserves, hsplit]
  rw [treatment, hcore, hreserves, h]
  simp

private theorem isComponentAction_iff {name : String} (h : treatment .v1 name ≠ .core) :
    isComponentAction name = true ↔ treatment .v1 name = .component := by
  have hcore : (Grammar.v1.core name).isSome = false :=
    Bool.eq_false_iff.2 fun hcore => h (by rw [treatment, if_pos hcore])
  cases hsplit : Text.splitOnce ':' name with
  | none =>
    rw [treatment_unscoped hcore (by rw [namespaceOf, hsplit]; rfl), isComponentAction, hsplit]
    simp
  | some parts =>
    rw [treatment_v1 hcore (by rw [namespaceOf, hsplit]; rfl), isComponentAction, hsplit]
    by_cases hreserved : parts.1 ∈ reservedNamespaces <;> simp [hreserved]

private theorem dispatch_unknown {name : String} (h : leastChildren name = none) (children : List Executed) (ctx : Ctx) :
    dispatch name children ctx = failed ["unknown or unavailable action ", quoted name] none := by
  unfold dispatch
  split <;> first | exact absurd h (by decide) | rfl

/-- An action that is not core is run as its treatment says: handed to a component, or an error that names it. -/
theorem run_not_core {name : String} (h : treatment .v1 name ≠ .core) (children : List Node) (ctx : Ctx) :
    run (.action name children) ctx = .action name (runAll children ctx)
      (some (if treatment .v1 name = .component then applyComponent name (runAll children ctx) ctx.actions
        else failed ["unknown or unavailable action ", quoted name] none)) := by
  have hleast := leastChildren_eq_none h
  have hfew : tooFew name children.length = none := by simp only [tooFew, hleast]
  simp only [run, hfew]
  split
  iterate 5 exact absurd hleast (by decide)
  simp only [isComponentAction_iff h, dispatch_unknown hleast]

/-! One name, and with it all the names of a plan. -/

private theorem treatment_core {core : String} (h : (Grammar.v1.core core).isSome = true) : treatment .v1 core = .core :=
  if_pos h

private theorem reserved_iff {ns : String} (h : ns ∉ contestedNamespaces) : ns ∈ reservedNamespaces ↔ ns ∈ v0Families := by
  simp only [contestedNamespaces, reservedNamespaces, v0Families, List.mem_cons, List.not_mem_nil, or_false] at h ⊢
  tauto

private theorem treatment_uncontested {name : String} (hcore : Grammar.v0.core name = none)
    (h : ∀ ns ∈ contestedNamespaces, namespaceOf name ≠ some ns) : treatment .v1 name = treatment .v0 name := by
  have hv1 := not_core_of_uncontested hcore h
  have hv0 : (Grammar.v0.core name).isSome = false := by rw [hcore]; rfl
  cases hname : namespaceOf name with
  | none => rw [treatment_unscoped hv1 hname, treatment_unscoped hv0 hname]
  | some ns => rw [treatment_v1 hv1 hname, treatment_v0 hv0 hname, if_congr (reserved_iff fun hns => h ns hns hname) rfl rfl]

/-- In a namespace only one of the grammars reserves, one of them refuses or runs what the other hands to a component. -/
private theorem treatment_contested {name ns : String} (hcore : Grammar.v0.core name = none)
    (hns : ns ∈ contestedNamespaces) (hname : namespaceOf name = some ns) :
    treatment .v1 name ≠ treatment .v0 name := by
  have hv0 := treatment_v0 (by rw [hcore]; rfl) hname
  have hcontested : ∀ ns ∈ contestedNamespaces, ns ∈ v0Families ↔ ns ∉ reservedNamespaces := by decide
  rw [hv0]
  cases hv1 : (Grammar.v1.core name).isSome with
  | true =>
    rw [treatment_core hv1]
    split <;> exact nofun
  | false =>
    rw [treatment_v1 hv1 hname]
    by_cases hreserved : ns ∈ reservedNamespaces <;> simp [hcontested ns hns, hreserved]

/-- A name's translation is treated as the name was if and only if the two grammars agree on it. -/
theorem kept_iff {name : String} : Kept name ((Grammar.v0.core name).getD name) ↔ Uncontested name := by
  cases hcore : Grammar.v0.core name with
  | some core =>
    have hkept : Kept name core := by
      refine ⟨by rw [hcore]; rfl, ?_⟩
      rw [treatment_core (core_v0_eq_some hcore), treatment, hcore]
      exact (if_pos rfl).symm
    exact iff_of_true hkept fun h => nomatch hcore.symm.trans h
  | none =>
    refine ⟨fun hkept _ ns hns hname => treatment_contested hcore hns hname hkept.treatment, fun h => ?_⟩
    exact ⟨by rw [hcore], treatment_uncontested hcore (h hcore)⟩

private theorem actionNamesAll_eq (children : List Node) : actionNamesAll children = children.flatMap actionNames := by
  induction children with
  | nil => rfl
  | cons node rest ih => rw [actionNamesAll, ih, List.flatMap_cons]

private theorem actionNamesAll_renameAll {children : List Node}
    (ih : ∀ node ∈ children,
      actionNames (renameFromV0 node) = (actionNames node).map fun name => (Grammar.v0.core name).getD name) :
    actionNamesAll (renameAll children) =
      (actionNamesAll children).map fun name => (Grammar.v0.core name).getD name := by
  induction children with
  | nil => rfl
  | cons node rest ihRest =>
    obtain ⟨hnode, hrest⟩ := List.forall_mem_cons.1 ih
    rw [renameAll, actionNamesAll, actionNamesAll, List.map_append, hnode, ihRest hrest]

/-- The translation replaces each name by itself, whatever stands around it. -/
theorem actionNames_renameFromV0 (node : Node) :
    actionNames (renameFromV0 node) = (actionNames node).map fun name => (Grammar.v0.core name).getD name := by
  induction node with
  | container label children ih => exact actionNamesAll_renameAll ih
  | action name children ih => exact congrArg ((Grammar.v0.core name).getD name :: ·) (actionNamesAll_renameAll ih)
  | pipeline children ih => exact actionNamesAll_renameAll ih
  | splat children ih => exact actionNamesAll_renameAll ih
  | value literal => rfl
  | resolve path => rfl
  | resolveCurrent path => rfl
  | annotation text => rfl

private theorem forall₂_kept_iff (names : List String) :
    List.Forall₂ Kept names (names.map fun name => (Grammar.v0.core name).getD name) ↔
      ∀ name ∈ names, Uncontested name := by
  rw [List.forall₂_map_right_iff, List.forall₂_same]
  exact forall₂_congr fun _ _ => kept_iff

/-! A fragment keeps to the namespace of its component. -/

section Checked

variable {component slotPath : String} {contributed : List String}

private theorem checkAction_kept (hcomponent : component ∉ reservedNamespaces) {name now : String} {count : Nat}
    (h : checkAction .v0 component contributed name count = .ok now) : Kept name now := by
  unfold checkAction at h
  split at h
  · rename_i core hcore
    dsimp only at h
    split at h
    · cases h
    · obtain rfl := Except.ok.inj h
      have hkept : Kept name ((Grammar.v0.core name).getD name) := kept_iff.2 fun hnone => by cases hcore.symm.trans hnone
      rwa [hcore] at hkept
  · rename_i hcore
    split_ifs at h with hreserves hscope hcontributed
    obtain rfl := Except.ok.inj h
    have hkept : Kept name ((Grammar.v0.core name).getD name) := by
      refine kept_iff.2 fun _ ns hns hname => ?_
      obtain rfl : ns = component := Option.some.inj (hname.symm.trans (not_not.1 hscope))
      obtain ⟨parts, hsplit, rfl⟩ := Option.map_eq_some_iff.1 hname
      have hfamily : parts.1 ∉ v0Families := by simpa [Grammar.reserves, hsplit] using hreserves
      exact hfamily ((by decide : ∀ ns ∈ contestedNamespaces, ns ∉ reservedNamespaces → ns ∈ v0Families) _ hns hcomponent)
    rwa [hcore] at hkept

private theorem checkAll_kept {children now : List Node}
    (ih : ∀ node ∈ children, ∀ now, checkActions .v0 component contributed slotPath node = .ok now →
      List.Forall₂ Kept (actionNames node) (actionNames now))
    (h : checkAll .v0 component contributed slotPath children = .ok now) :
    List.Forall₂ Kept (actionNamesAll children) (actionNamesAll now) := by
  induction children generalizing now with
  | nil =>
    obtain rfl := Except.ok.inj h
    exact .nil
  | cons node rest ihRest =>
    obtain ⟨hnode, hrest⟩ := List.forall_mem_cons.1 ih
    obtain ⟨first, hfirst, h⟩ := Fallible.bind_eq_ok h
    obtain ⟨others, hothers, rfl⟩ := Fallible.map_eq_ok h
    exact List.rel_append (hnode first hfirst) (ihRest hrest hothers)

/-- The actions of a fragment that passes its check are all kept. -/
theorem checkActions_kept (hcomponent : component ∉ reservedNamespaces) {node now : Node}
    (h : checkActions .v0 component contributed slotPath node = .ok now) :
    List.Forall₂ Kept (actionNames node) (actionNames now) := by
  induction node generalizing now with
  | container label children ih =>
    obtain ⟨others, hothers, rfl⟩ := Fallible.map_eq_ok h
    exact checkAll_kept (fun node hnode _ => ih node hnode) hothers
  | action name children ih =>
    obtain ⟨current, hcurrent, h⟩ := Fallible.bind_eq_ok h
    obtain ⟨others, hothers, rfl⟩ := Fallible.map_eq_ok h
    exact .cons (checkAction_kept hcomponent hcurrent) (checkAll_kept (fun node hnode _ => ih node hnode) hothers)
  | pipeline children ih =>
    obtain ⟨others, hothers, rfl⟩ := Fallible.map_eq_ok h
    exact checkAll_kept (fun node hnode _ => ih node hnode) hothers
  | splat children ih =>
    obtain ⟨others, hothers, rfl⟩ := Fallible.map_eq_ok h
    exact checkAll_kept (fun node hnode _ => ih node hnode) hothers
  | resolve path =>
    unfold checkActions at h
    split_ifs at h
    obtain rfl := Except.ok.inj h
    exact .nil
  | value literal =>
    obtain rfl := Except.ok.inj h
    exact .nil
  | resolveCurrent path =>
    obtain rfl := Except.ok.inj h
    exact .nil
  | annotation text =>
    obtain rfl := Except.ok.inj h
    exact .nil

private theorem validate_kept (hcomponent : component ∉ reservedNamespaces) {fragment : Json} {version : String}
    (hgrammar : grammarOf version = some .v0) {source now : Node} (hsource : nodeFromJson fragment = .ok source)
    (h : validate fragment (some version) component contributed slotPath = .ok now) :
    List.Forall₂ Kept (actionNames source) (actionNames now) := by
  obtain ⟨-, -, h⟩ := Fallible.bind_eq_ok h
  simp only [Option.bind_some, hgrammar, hsource] at h
  exact checkActions_kept hcomponent h

end Checked

/-- The node a plan document holds, as it was written. -/
def writtenRoot (document : Json) : Except String Node :=
  match get "root" document with
  | some root => nodeFromJson root
  | none => .error "a plan needs a 'root'"

private theorem fromJson_v0 {document : Json} {source : Node} {plan : MatchingPlan}
    (hgrammar : (textMember "grammar" document).bind grammarOf = some .v0)
    (hsource : writtenRoot document = .ok source) (h : fromJson document = .ok plan) :
    plan.root = renameFromV0 source := by
  obtain ⟨version, hversion, hgrammar⟩ := Option.bind_eq_some_iff.1 hgrammar
  unfold fromJson at h
  unfold writtenRoot at hsource
  simp only [hversion] at h
  split at h
  · cases h
  · split at h
    · cases h
    · rename_i root hroot
      rw [hroot] at hsource
      obtain ⟨node, hnode, rfl⟩ := Fallible.map_eq_ok h
      obtain rfl := Except.ok.inj (hsource.symm.trans hnode)
      exact if_pos hgrammar

/-- Reading a plan of the previous grammar keeps every action exactly where each name that is not core under it stands
in a namespace the two grammars agree on; a fragment of a component that may be loaded keeps every action. -/
theorem v0_reading_keeps_actions (document : Json) (source : Node) (plan : MatchingPlan) :
    ((textMember "grammar" document).bind grammarOf = some .v0 →
      writtenRoot document = .ok source → fromJson document = .ok plan →
      (List.Forall₂ Kept (actionNames source) (actionNames plan.root) ↔
        ∀ name ∈ actionNames source, Uncontested name)) ∧
    ∀ fragment version component contributed slotPath source now, grammarOf version = some .v0 →
      component ∉ reservedNamespaces → nodeFromJson fragment = .ok source →
      validate fragment (some version) component contributed slotPath = .ok now →
      List.Forall₂ Kept (actionNames source) (actionNames now) := by
  constructor
  · intro hgrammar hsource hread
    rw [fromJson_v0 hgrammar hsource hread, actionNames_renameFromV0]
    exact forall₂_kept_iff _
  · intro fragment version component contributed slotPath source now hgrammar hcomponent hsource hvalid
    exact validate_kept hcomponent hgrammar hsource hvalid

/-- A plan of the previous grammar over one action. -/
private def oneAction (name : String) : Json := toJson ⟨"v0", .action name [], none⟩

private theorem oneAction_read (name : String) :
    fromJson (oneAction name) = .ok ⟨grammarVersion, renameFromV0 (.action name []), none⟩ := by
  have hread : readable (some "v0") = .ok () := by
    have hany : readableGrammarVersions.any (fun engine => readableBy engine "v0") = true := by decide
    simp only [readable, hany, if_true]
  have hgrammar : textMember "grammar" (oneAction name) = some "v0" := rfl
  have hroot : get "root" (oneAction name) = some (nodeJson (.action name [])) := rfl
  have hvariant : textMember "variant" (oneAction name) = none := rfl
  simp only [fromJson, hgrammar, hread, hroot, hvariant, nodeFromJson_nodeJson, Except.map,
    if_pos (show grammarOf "v0" = some .v0 by decide)]

theorem v0_reading_keeps_actions_tee :
    List.Forall₂ Kept (actionNames (.action "tee" [])) (actionNames (renameFromV0 (.action "tee" []))) ∧
      List.Forall₂ Kept (actionNames (.action "csv:integer" [])) (actionNames (.action "csv:integer" [])) := by
  constructor
  · refine ((v0_reading_keeps_actions (oneAction "tee") _ _).1 rfl rfl (oneAction_read "tee")).2 ?_
    intro name hname hcore
    obtain rfl := List.mem_singleton.1 hname
    exact absurd hcore (by decide)
  · exact (v0_reading_keeps_actions (oneAction "tee") (.action "tee" []) ⟨grammarVersion, .action "tee" [], none⟩).2
      (nodeJson (.action "csv:integer" [])) "v0" "csv" ["csv:integer"] "$.response.body" _ _ rfl (by decide) (nodeFromJson_nodeJson _) (by rfl)

/-- An action a component contributed under the previous grammar is the kernel's own once its plan is read. -/
theorem component_action_becomes_core :
    ∃ document source plan, (textMember "grammar" document).bind grammarOf = some .v0 ∧
      writtenRoot document = .ok source ∧ fromJson document = .ok plan ∧
      actionNames source = ["flow:or"] ∧ treatment .v0 "flow:or" = .component ∧
      actionNames plan.root = ["flow:or"] ∧ treatment .v1 "flow:or" = .core :=
  ⟨oneAction "flow:or", _, _, rfl, rfl, oneAction_read "flow:or", rfl, by decide, by decide, by decide⟩

end PactJanus.Plan.Translation
