import PactJanus.Recording.Observe
import PactJanus.Shape.Model

namespace PactJanus.Recording.Emission

open PactJanus.Data.Json PactJanus.Shape.Model PactJanus.Recording.Observe

/-! The shape a profile adds up to. -/

def withExample (kind : ShapeKind) (value : Option Json) : ShapeNode := ⟨value.map fun v => ⟨v, none⟩, none, kind⟩

/-- The distinct values are a set the provider chooses from, not samples of an open domain. -/
def keepsLiterals (policy : RecordingPolicy) (flat : Flat) : Bool :=
  if policy.maxOptions < flat.literals.length then false
  else !(flat.literals.length == flat.scalars && decide (policy.minEvidence ≤ flat.scalars))

/-- The kind of an open domain, none where its values are of different kinds. -/
def domainKind (flat : Flat) : Option ValueKind :=
  match flat.strings, flat.booleans, flat.integers, flat.decimals with
  | true, false, false, false => some .string
  | false, true, false, false => some .boolean
  | false, false, true, false => some .integer
  | false, false, false, true => some .decimal
  | false, false, true, true => some .number
  | _, _, _, _ => none

def onlyBooleans (flat : Flat) : Bool := flat.booleans && !flat.strings && !flat.integers && !flat.decimals

/-- A scalar position: a set of literals while the evidence supports one, else the predicate of their kind. -/
def scalarShape (policy : RecordingPolicy) (flat : Flat) : ShapeNode :=
  let values := flat.literals.map Prod.snd
  if onlyBooleans flat && values.length == 2 then .of (.kind .boolean)
  else if keepsLiterals policy flat then
    if values.length = 1 then withExample .equality values.head? else withExample (.anyOf values) values.head?
  else
    match domainKind flat with
    | some kind => withExample (.kind kind) values.head?
    | none => .of .any

/-- How many structurally different things a position held: an object, a list, a scalar. -/
def structuralKinds (flat : Flat) (object array : Option ShapeNode) : Nat :=
  object.isSome.toNat + array.isSome.toNat + (decide (0 < flat.scalars)).toNat

/-- The shape of what was not `null`. -/
def valueShape (policy : RecordingPolicy) (flat : Flat) (object array : Option ShapeNode) : ShapeNode :=
  if structuralKinds flat object array = 1 then
    match object, array with
    | some object, _ => object
    | none, some array => array
    | none, none => scalarShape policy flat
  else .of .any

def shapeOf (policy : RecordingPolicy) (flat : Flat) (object array : Option ShapeNode) : Option ShapeNode :=
  if flat.seen = 0 then none
  else if flat.seen - flat.nulls = 0 then some (.of (.kind .null))
  else
    let value := valueShape policy flat object array
    some (if 0 < flat.nulls then .of (.nullable value) else value)

mutual

/-- The shape the evidence adds up to, none where the position was never reached. -/
def toShape (policy : RecordingPolicy) : Profile → Option ShapeNode
  | ⟨flat, object, array⟩ => shapeOf policy flat (objectShape policy object) (arrayShape policy array)
termination_by structural p => p

def objectShape (policy : RecordingPolicy) : Option ObjectProfile → Option ShapeNode
  | none => none
  | some ⟨count, members⟩ => some (.of (.object (memberShapes policy count members)))
termination_by structural o => o

/-- A member that was not in every object is optional. -/
def memberShapes (policy : RecordingPolicy) (count : Nat) : List (String × Profile) → List (String × ShapeNode)
  | [] => []
  | (name, member) :: rest =>
    match toShape policy member with
    | some shape =>
      (name, if member.flat.seen < count then .of (.optional shape) else shape) :: memberShapes policy count rest
    | none => memberShapes policy count rest
termination_by structural ms => ms

/-- A list only ever seen empty has no evidence of its elements. -/
def arrayShape (policy : RecordingPolicy) : Option ArrayProfile → Option ShapeNode
  | none => none
  | some ⟨_, min, max, items⟩ =>
    some (.of (.eachLike ((toShape policy items).getD (.of .any)) min (some max)))
termination_by structural a => a

end

/-! The document. -/

structure ProviderInteraction where
  description : String
  states : Option (List String)
  observations : Nat
  parts : List (String × List (String × ShapeNode))

structure ProviderShape where
  format : String
  provider : String
  provenance : String
  interactions : List ProviderInteraction

def slotShapes (policy : RecordingPolicy) (slots : List (String × Profile)) : List (String × ShapeNode) :=
  slots.filterMap fun (slot, profile) => (toShape policy profile).map fun shape => (slot, shape)

def partShapes (policy : RecordingPolicy) (parts : List (String × List (String × Profile))) :
    List (String × List (String × ShapeNode)) :=
  (parts.map fun (part, slots) => (part, slotShapes policy slots)).filter fun part => !part.2.isEmpty

def finish (recorder : Recorder) : ProviderShape :=
  { format := "janus-provider-shape/1"
    provider := recorder.provider
    provenance := "recorded"
    interactions := recorder.interactions.map fun (key, observed) =>
      { description := (ofLex key).1
        states := if (ofLex key).2.isEmpty then none else some (ofLex key).2
        observations := observed.observations
        parts := partShapes recorder.policy observed.parts } }

end PactJanus.Recording.Emission
