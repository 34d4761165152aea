import PactJanus.Contracts.Files
import PactJanus.Variant.Assignment
import PactJanus.Variant.References

namespace PactJanus.Variant.Policy

open PactJanus.Lib PactJanus.Contracts.Files PactJanus.Shape.VariantSpace PactJanus.Plan.Compile
  PactJanus.Variant.References

/-! The sampling policy, and its pins and exclusions read against a space. -/

structure PointRef where
  dimension : String
  point : String

structure Pin where
  assignment : List PointRef

structure Exclusion where
  when' : List PointRef
  reason : String

/-- A resolved sampling policy. -/
structure SamplingPolicy where
  strategy : String
  strength : UInt32
  exhaustiveThreshold : UInt64
  maxVariants : UInt64
  boundaries : Bool
  algorithm : String
  pin : List Pin
  exclude : List Exclusion

/-- The policy where no layer says anything. -/
def SamplingPolicy.default : SamplingPolicy := ⟨"auto", 2, 8, 50, true, "janus-ipog-v1", [], []⟩

/-- An exclusion by the ids and points it names, with the number of targets it removed. -/
structure ResolvedExclusion where
  when' : List (String × String)
  reason : String
  removed : Nat

/-- Every pair is one the assignment has. -/
def assignmentMatches (α : Assignment) (pairs : List (String × String)) : Bool :=
  pairs.all fun p => α.lookup p.1 == some p.2

def matchingExclusion (α : Assignment) (exclusions : List ResolvedExclusion) : Option ResolvedExclusion :=
  exclusions.find? fun e => assignmentMatches α e.when'

/-- An assignment that no exclusion matches. -/
def Clear (exclusions : List ResolvedExclusion) (α : Assignment) : Prop :=
  ∀ e ∈ exclusions, assignmentMatches α e.when' = false

instance (exclusions : List ResolvedExclusion) (α : Assignment) : Decidable (Clear exclusions α) :=
  inferInstanceAs (Decidable (∀ e ∈ exclusions, assignmentMatches α e.when' = false))

theorem matchingExclusion_isNone {exclusions : List ResolvedExclusion} {α : Assignment} :
    (matchingExclusion α exclusions).isNone = true ↔ Clear exclusions α := by
  simp only [matchingExclusion, Option.isNone_iff_eq_none, List.find?_eq_none, Clear, Bool.not_eq_true]

def resolvePointRef (space : List Dimension) (pointRef : PointRef) : Except Problem (String × String) :=
  match resolveDimensionRef space pointRef.dimension with
  | .notFound => .error ⟨"/policy", "'" ++ pointRef.dimension ++ "' does not name any dimension of this interaction"⟩
  | .ambiguous candidates =>
    .error ⟨"/policy", "'" ++ pointRef.dimension ++ "' names more than one dimension (" ++
      ", ".intercalate candidates ++ ")"⟩
  | .found d =>
    if d.points.any fun p => p.name == pointRef.point then .ok (d.id, pointRef.point)
    else .error ⟨"/policy", "dimension '" ++ d.id ++ "' has no point '" ++ pointRef.point ++ "'"⟩

/-- The pairs some references resolve to, and what is wrong with the others. -/
def resolvePointRefs (space : List Dimension) : List PointRef → List (String × String) × List Problem
  | [] => ([], [])
  | pointRef :: rest =>
    let (pairs, problems) := resolvePointRefs space rest
    match resolvePointRef space pointRef with
    | .ok pair => (pair :: pairs, problems)
    | .error problem => (pairs, problem :: problems)

/-- A pin as a partial assignment: of two points it names for one dimension, the later. -/
def pinAssignment (pairs : List (String × String)) : Assignment :=
  pairs.foldl (fun α p => SortedMap.insert p.1 p.2 α) []

/-- The pins as partial assignments and the exclusions by ids, or every reference that cannot be read. -/
def resolveRefs (space : List Dimension) (policy : SamplingPolicy) :
    Except (List Problem) (List Assignment × List ResolvedExclusion) :=
  let pins := policy.pin.map fun pin => resolvePointRefs space pin.assignment
  let exclusions := policy.exclude.map fun excl => (excl.reason, resolvePointRefs space excl.when')
  let problems := pins.flatMap Prod.snd ++ exclusions.flatMap fun e => e.2.2
  if problems.isEmpty then
    .ok (pins.map fun pin => pinAssignment pin.1, exclusions.map fun e => ⟨e.2.1, e.1, 0⟩)
  else .error problems

/-! What is resolved names points of the space. -/

section Resolved

variable {space : List Dimension}

end Resolved

end PactJanus.Variant.Policy
