import PactJanus.Contracts.Canonical

namespace PactJanus.Contracts.Model

open PactJanus.Data.Json PactJanus.Contracts.Canonical

/-! The contract, and the document it is written as. A map is a list of entries in the order of their keys. -/

/-- A document no object of which names a member twice. -/
abbrev Document := { v : Json // distinctKeys v = true }

structure Transport where
  kind : String
  mode : Option String
deriving DecidableEq

/-- A provider state, with the parameters it is given and those a running variant decides. -/
structure State where
  name : String
  params : Option (List (String × Document))
  variantParams : Option (List Document)

structure Requirement where
  component : String
  minVersion : Option UInt64
deriving DecidableEq

/-- Why a variant is in a selection. -/
inductive Origin where
  | base | boundary | pinned | covering
deriving DecidableEq

/-- A state as one variant needs it. -/
structure ResolvedState where
  name : String
  params : Option (List (String × Json))

/-- The value a slot carried. -/
structure SlotValue where
  content : Json
  encoded : Option String
  contentType : Option String

abbrev ShapePart := List (String × Json)

abbrev ValuePart := List (String × SlotValue)

abbrev ContentTypes := List (String × List (String × String))

structure RecordedVariant where
  id : String
  origin : Origin
  assignment : List Json
  states : Option (List ResolvedState)
  parts : List (String × ValuePart)

structure RecordedSelection where
  variants : List RecordedVariant
  report : List (String × Json)

/-- One interaction: its shape recorded once, with what each of its variants exchanged. -/
structure Interaction where
  description : String
  transport : Option Transport
  states : Option (List State)
  parts : List (String × ShapePart)
  contentTypes : Option ContentTypes
  requires : Option (List Requirement)
  selection : RecordedSelection

structure Party where
  name : String
deriving DecidableEq

structure Metadata where
  writer : Option (List (String × String))
  created : Option String
  buildUrl : Option String

structure Contract where
  format : String
  schema : Option String
  consumer : Party
  provider : Party
  interactions : List Interaction
  metadata : Option Metadata

/-! The documents, their members in the order of the schema. -/

/-- A member written only where there is something to write. -/
def optional (member : String) (value : Option Json) : List (String × Json) := (value.map fun v => (member, v)).toList

def mapJson {α : Type} (write : α → Json) (entries : List (String × α)) : Json :=
  .object (entries.map fun (name, v) => (name, write v))

def listJson {α : Type} (write : α → Json) (items : List α) : Json := .array (items.map write)

def transportJson (transport : Transport) : Json :=
  .object (("kind", .string transport.kind) :: optional "mode" (transport.mode.map .string))

def stateJson (state : State) : Json :=
  .object (("name", .string state.name) :: (optional "params" (state.params.map (mapJson Subtype.val)) ++
    optional "variant-params" (state.variantParams.map (listJson fun document => binding document.val))))

def requirementJson (requirement : Requirement) : Json :=
  .object (("component", .string requirement.component) ::
    optional "min-version" (requirement.minVersion.map fun n => .number (.posInt n)))

def originName : Origin → String
  | .base => "base"
  | .boundary => "boundary"
  | .pinned => "pinned"
  | .covering => "covering"

def resolvedStateJson (state : ResolvedState) : Json :=
  .object (("name", .string state.name) :: optional "params" (state.params.map (mapJson id)))

def slotValueJson (value : SlotValue) : Json :=
  .object (("content", value.content) :: (optional "encoded" (value.encoded.map .string) ++
    optional "content-type" (value.contentType.map .string)))

def recordedVariantJson (variant : RecordedVariant) : Json :=
  .object ([("id", .string variant.id), ("origin", .string (originName variant.origin)),
      ("assignment", listJson sorted variant.assignment)] ++
    optional "states" (variant.states.map (listJson resolvedStateJson)) ++
    [("parts", mapJson (mapJson slotValueJson) variant.parts)])

def recordedSelectionJson (selection : RecordedSelection) : Json :=
  .object [("variants", listJson recordedVariantJson selection.variants), ("report", mapJson sorted selection.report)]

def statesJson (states : List State) : Json := listJson stateJson states

def interactionJson (interaction : Interaction) : Json :=
  .object ([("description", .string interaction.description)] ++
    optional "transport" (interaction.transport.map transportJson) ++
    optional "states" (interaction.states.map statesJson) ++
    [("parts", mapJson (mapJson canonical) interaction.parts)] ++
    optional "content-types" (interaction.contentTypes.map (mapJson (mapJson .string))) ++
    optional "requires" (interaction.requires.map (listJson requirementJson)) ++
    [("selection", recordedSelectionJson interaction.selection)])

def partyJson (party : Party) : Json := .object [("name", .string party.name)]

def metadataJson (metadata : Metadata) : Json :=
  .object (optional "writer" (metadata.writer.map (mapJson .string)) ++
    optional "created" (metadata.created.map .string) ++ optional "build-url" (metadata.buildUrl.map .string))

def contractJson (contract : Contract) : Json :=
  .object ([("$format", .string contract.format)] ++ optional "$schema" (contract.schema.map .string) ++
    [("consumer", partyJson contract.consumer), ("provider", partyJson contract.provider),
      ("interactions", listJson interactionJson contract.interactions)] ++
    optional "metadata" (contract.metadata.map metadataJson))

/-- The canonical text of a contract. -/
def writeCanonical (contract : Contract) : String := text (contractJson contract) ++ "\n"

/-- The format token a contract is written under. -/
def formatToken : String := "janus-contract/1"

end PactJanus.Contracts.Model
