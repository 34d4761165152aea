import PactJanus.Contracts.Files
import PactJanus.Lib.Fallible
import PactJanus.Variant.Assignment
import PactJanus.Variant.References

namespace PactJanus.Variant.Params

open PactJanus.Data.Json PactJanus.Lib PactJanus.Lib.Collect PactJanus.Contracts.Files PactJanus.Contracts.Model
  PactJanus.Shape.VariantSpace PactJanus.Plan.Compile PactJanus.Variant.References

/-! State parameters bound to a dimension, and the values a variant gives them. -/

structure Case where
  point : String
  value : Json

/-- One parameter bound to a dimension: the reference as it was written, and the id it resolved to. -/
structure Binding where
  name : String
  reference : String
  dimension : String
  cases : List Case
  default : Option Json

/-- A member that is a string with something in it. -/
def nonEmpty (name : String) (v : Json) : Option String := ((get name v).bind asStr).filter fun s => s ≠ ""

def isLiteral (state : State) (name : String) : Bool := state.params.any fun params => params.any fun p => p.1 == name

def literalProblems (state : State) (name at' : String) : List Problem :=
  if isLiteral state name then
    [⟨at' ++ "/name", "parameter '" ++ name ++ "' is both a literal parameter and a variant-bound one"⟩]
  else []

def bindDimension (space : List Dimension) (reference at' : String) : Except Problem Dimension :=
  match resolveDimensionRef space reference with
  | .found d => .ok d
  | .notFound =>
    .error ⟨at' ++ "/dimension", "'" ++ reference ++ "' matches no dimension of this interaction; it has " ++
      (if space.isEmpty then "none" else ", ".intercalate (space.map Dimension.id))⟩
  | .ambiguous candidates =>
    .error ⟨at' ++ "/dimension", "'" ++ reference ++ "' matches more than one dimension: " ++
      ", ".intercalate candidates ++ " — name one of them"⟩

def hasPoint (d : Dimension) (point : String) : Bool := d.points.any fun p => p.name == point

def bindCase (d : Dimension) (at' : String) (raw : Json) : Option Case × List Problem :=
  match nonEmpty "point" raw, get "value" raw with
  | some point, some value =>
    if hasPoint d point then (some ⟨point, value⟩, [])
    else (none, [⟨at' ++ "/point", "dimension '" ++ d.id ++ "' has no point '" ++ point ++ "'; its points are " ++
      ", ".intercalate (d.points.map Point.name)⟩])
  | _, _ => (none, [⟨at', "a case must have a non-empty 'point' and a 'value'"⟩])

def bindCases (d : Dimension) (at' : String) (entry : Json) : List Case × List Problem :=
  match get "cases" entry with
  | some (.array (first :: rest)) => collect (fun k => bindCase d (at' ++ "/cases/" ++ k.repr)) 0 (first :: rest)
  | _ => ([], [⟨at' ++ "/cases", "'cases' is required and must be a non-empty array"⟩])

/-- A gated dimension is inactive in some variants, and a parameter bound to it needs a value there. -/
def gateProblems (d : Dimension) (default : Option Json) (at' : String) : List Problem :=
  if d.gatedBy ≠ [] ∧ default.isNone = true then
    [⟨at', "dimension '" ++ d.id ++ "' is gated (" ++
      ", ".intercalate (d.gatedBy.map fun gate => gate.dimension ++ "=" ++ gate.point) ++
      "), so this binding needs a 'default' for the variants where it is inactive"⟩]
  else []

/-- A binding, with what is wrong with it. -/
def bindOne (state : State) (space : List Dimension) (at' : String) (entry : Json) : Option Binding × List Problem :=
  match entry with
  | .object _ =>
    match nonEmpty "name" entry, nonEmpty "dimension" entry with
    | none, _ => (none, [⟨at' ++ "/name", "'name' is required and must be a non-empty string"⟩])
    | some _, none => (none, [⟨at' ++ "/dimension", "'dimension' is required and must be a non-empty string"⟩])
    | some name, some reference =>
      match bindDimension space reference at' with
      | .error problem => (none, literalProblems state name at' ++ [problem])
      | .ok d =>
        let cases := bindCases d at' entry
        let default := get "default" entry
        (some ⟨name, reference, d.id, cases.1, default⟩,
          literalProblems state name at' ++ cases.2 ++ gateProblems d default at')
  | _ => (none, [⟨at', "a variant-params entry must be an object"⟩])

/-- A state's bindings as they are written. -/
def entries (state : State) : List Document := state.variantParams.getD []

def bindState (space : List Dimension) (at' : String) (state : State) : List Binding × List Problem :=
  collect (fun j entry => bindOne state space (at' ++ "/variant-params/" ++ j.repr) entry.val) 0 (entries state)

/-- Every state's bindings, or all that is wrong with them. -/
def bind (states : List State) (space : List Dimension) (pointerBase : String) :
    Except (List Problem) (List (List Binding)) :=
  let bound := collect (fun i state =>
    let bindings := bindState space (pointerBase ++ "/" ++ i.repr) state
    (some bindings.1, bindings.2)) 0 states
  if bound.2.isEmpty then .ok bound.1 else .error bound.2

/-- The value a variant gives a bound parameter. `none` is absent, which is not null. -/
def resolveBinding (b : Binding) (α : Assignment) : Option Json :=
  (((α.lookup b.dimension).bind fun point => b.cases.find? fun c => c.point == point).map Case.value).or b.default

def resolveParam (α : Assignment) (params : List (String × Json)) (b : Binding) : List (String × Json) :=
  match resolveBinding b α with
  | some v => SortedMap.insert b.name v params
  | none => params.filter fun p => p.1 ≠ b.name

def resolveState (α : Assignment) (state : State) (bindings : List Binding) : ResolvedState :=
  let params := bindings.foldl (resolveParam α) ((state.params.getD []).map fun p => (p.1, p.2.val))
  ⟨state.name, if params.isEmpty then none else some params⟩

/-- The states of an interaction as one variant needs them. Bindings that do not validate are left out. -/
def resolveStates (states : Option (List State)) (space : List Dimension) (α : Assignment) :
    Option (List ResolvedState) :=
  states.map fun states =>
    let bound := match bind states space "/states" with
      | .ok bound => bound
      | .error _ => states.map fun _ => []
    List.zipWith (resolveState α) states bound

/-! What an accepted binding is. -/

/-- A case as it is written. -/
structure ReadsCase (d : Dimension) (raw : Json) (c : Case) : Prop where
  point : nonEmpty "point" raw = some c.point
  value : get "value" raw = some c.value
  known : hasPoint d c.point = true

/-- A binding's cases as they are written. -/
def ReadsCases (d : Dimension) (entry : Json) (cases : List Case) : Prop :=
  ∃ raw, raw ≠ [] ∧ get "cases" entry = some (.array raw) ∧ List.Forall₂ (ReadsCase d) raw cases

/-- A binding that is accepted, and what it is read as. -/
structure Binds (state : State) (space : List Dimension) (entry : Json) (b : Binding) : Prop where
  name : nonEmpty "name" entry = some b.name
  reference : nonEmpty "dimension" entry = some b.reference
  fresh : isLiteral state b.name = false
  default : get "default" entry = b.default
  dimension : ∃ d, space.filter (refersTo b.reference) = [d] ∧ d.id = b.dimension ∧ ReadsCases d entry b.cases ∧
    (d.gatedBy ≠ [] → b.default.isNone = false)

private theorem bindCase_reads (d : Dimension) (at' : Nat → String) :
    Reads (fun k => bindCase d (at' k)) (ReadsCase d) where
  reads := by
    intro k raw c
    constructor
    · intro h
      unfold bindCase at h
      split at h
      · rename_i point value hpoint hvalue
        split at h
        · rename_i hknown
          obtain rfl := Option.some.inj (Prod.mk.inj h).1
          exact ⟨hpoint, hvalue, hknown⟩
        · exact nomatch (Prod.mk.inj h).1
      · exact nomatch (Prod.mk.inj h).1
    · rintro ⟨hpoint, hvalue, hknown⟩
      rw [bindCase, hpoint, hvalue]
      exact if_pos hknown
  names := by
    intro k raw h
    unfold bindCase at h
    split at h
    · split at h
      · exact nomatch (Prod.mk.inj h).1
      · exact nomatch (Prod.mk.inj h).2
    · exact nomatch (Prod.mk.inj h).2

private theorem bindCases_iff {d : Dimension} {at' : String} {entry : Json} {cases : List Case} :
    bindCases d at' entry = (cases, []) ↔ ReadsCases d entry cases := by
  have hreads := bindCase_reads d fun k => at' ++ "/cases/" ++ k.repr
  constructor
  · intro h
    unfold bindCases at h
    split at h
    · rename_i first rest hraw
      exact ⟨first :: rest, List.cons_ne_nil _ _, hraw, hreads.collect_iff.1 h⟩
    · exact nomatch (Prod.mk.inj h).2
  · rintro ⟨raw, hne, hraw, hcases⟩
    obtain ⟨first, rest, rfl⟩ := List.exists_cons_of_ne_nil hne
    rw [bindCases, hraw]
    exact hreads.collect_iff.2 hcases

private theorem bindDimension_ok {space : List Dimension} {reference at' : String} {d : Dimension} :
    bindDimension space reference at' = .ok d ↔ space.filter (refersTo reference) = [d] := by
  unfold bindDimension resolveDimensionRef
  rcases space.filter (refersTo reference) with - | ⟨e, - | ⟨f, rest⟩⟩
  · simp
  · simp
  · simp

private theorem literalProblems_nil {state : State} {name at' : String} :
    literalProblems state name at' = [] ↔ isLiteral state name = false := by
  unfold literalProblems
  split <;> simp_all

private theorem gateProblems_nil {d : Dimension} {default : Option Json} {at' : String} :
    gateProblems d default at' = [] ↔ (d.gatedBy ≠ [] → default.isNone = false) := by
  unfold gateProblems
  split <;> simp_all [Option.ne_none_iff_isSome]

private theorem bindOne_iff {state : State} {space : List Dimension} {at' : String} {entry : Json} {b : Binding} :
    bindOne state space at' entry = (some b, []) ↔ Binds state space entry b := by
  constructor
  · intro h
    unfold bindOne at h
    split at h
    · split at h
      · exact nomatch (Prod.mk.inj h).1
      · exact nomatch (Prod.mk.inj h).1
      · rename_i name reference hname hreference
        split at h
        · exact nomatch (Prod.mk.inj h).1
        · rename_i d hd
          obtain ⟨hb, hproblems⟩ := Prod.mk.inj h
          obtain ⟨hbefore, hgates⟩ := List.append_eq_nil_iff.1 hproblems
          obtain ⟨hliteral, hcases⟩ := List.append_eq_nil_iff.1 hbefore
          obtain rfl := Option.some.inj hb
          exact ⟨hname, hreference, literalProblems_nil.1 hliteral, rfl, d, bindDimension_ok.1 hd, rfl,
            bindCases_iff.1 (Prod.ext rfl hcases), gateProblems_nil.1 hgates⟩
    · exact nomatch (Prod.mk.inj h).1
  · rintro ⟨hname, hreference, hfresh, hdefault, d, hd, hid, hcases, hgates⟩
    cases entry with
    | object members =>
      simp only [bindOne, hname, hreference, bindDimension_ok.2 hd, bindCases_iff.2 hcases, hdefault, hid,
        literalProblems_nil.2 hfresh, gateProblems_nil.2 hgates, List.append_nil]
    | _ => exact nomatch hname

private theorem bindOne_reads (state : State) (space : List Dimension) (at' : Nat → String) :
    Reads (fun j (entry : Document) => bindOne state space (at' j) entry.val) fun entry => Binds state space entry.val where
  reads := fun _ _ _ => bindOne_iff
  names := by
    intro j entry h
    unfold bindOne at h
    split at h
    · split at h
      · exact nomatch (Prod.mk.inj h).2
      · exact nomatch (Prod.mk.inj h).2
      · split at h
        · exact List.cons_ne_nil _ _ (List.append_eq_nil_iff.1 (Prod.mk.inj h).2).2
        · exact nomatch (Prod.mk.inj h).1
    · exact nomatch (Prod.mk.inj h).2

/-- The bindings of states that are accepted: one for each entry. -/
theorem bind_ok_iff {states : List State} {space : List Dimension} {pointerBase : String}
    {bound : List (List Binding)} :
    bind states space pointerBase = .ok bound ↔
      List.Forall₂ (fun state => List.Forall₂ (fun entry => Binds state space entry.val) (entries state)) states bound := by
  have hreads : Reads (fun i state => (some (bindState space (pointerBase ++ "/" ++ i.repr) state).1,
      (bindState space (pointerBase ++ "/" ++ i.repr) state).2))
      fun state => List.Forall₂ (fun entry => Binds state space entry.val) (entries state) := by
    refine ⟨fun i state bindings => ?_, fun i state h => nomatch (Prod.mk.inj h).1⟩
    have hentries := bindOne_reads state space fun j => pointerBase ++ "/" ++ i.repr ++ "/variant-params/" ++ j.repr
    rw [Prod.mk.injEq, Option.some.injEq, ← hentries.collect_iff, Prod.ext_iff]
    rfl
  simp only [bind]
  split
  · rename_i hclean
    rw [← hreads.collect_iff]
    refine ⟨fun h => ?_, fun h => ?_⟩
    · exact Prod.ext (Except.ok.inj h) (List.isEmpty_iff.1 hclean)
    · exact congrArg Except.ok (Prod.mk.inj h).1
  · rename_i hproblems
    refine ⟨fun h => (nomatch h), fun h => ?_⟩
    rw [hreads.collect_iff.2 h] at hproblems
    exact absurd rfl hproblems

end PactJanus.Variant.Params
