import PactJanus.Contracts.Identity
import PactJanus.Lib.Distinct

namespace PactJanus.Legacy.Upgrade

open PactJanus.Data.Json PactJanus.Lib PactJanus.Contracts.Canonical PactJanus.Contracts.Model
  PactJanus.Contracts.Merge PactJanus.Contracts.Files PactJanus.Contracts.Identity

/-! A pact converted into a contract: which of its interactions are converted, and what identity each is given. -/

/-- A provider state as a pact gives it. -/
structure ProviderState where
  name : String
  params : List (String × Document)

/-- An interaction as the pact declares it. The plugins are those it needs; what is neither an HTTP interaction nor a
message has no content. -/
structure Declared (η μ : Type) where
  description : String
  pending : Bool
  providerStates : List ProviderState
  plugins : List String
  content : Option (η ⊕ μ)

/-- What an interaction the engine takes on carries whatever it is of. -/
structure Taken (β : Type) where
  description : String
  pending : Bool
  providerStates : List ProviderState
  content : β

structure PluginInteraction where
  description : String
  pending : Bool
  providerStates : List ProviderState
  plugins : List String

/-- One interaction of a pact that the engine takes on. -/
inductive PactInteraction (η μ : Type) where
  | http (interaction : Taken η)
  | message (interaction : Taken μ)
  | needsPlugins (interaction : PluginInteraction)

variable {η μ : Type}

namespace PactInteraction

def pending : PactInteraction η μ → Bool
  | http i => i.pending
  | message i => i.pending
  | needsPlugins i => i.pending

def description : PactInteraction η μ → String
  | http i => i.description
  | message i => i.description
  | needsPlugins i => i.description

def providerStates : PactInteraction η μ → List ProviderState
  | http i => i.providerStates
  | message i => i.providerStates
  | needsPlugins i => i.providerStates

end PactInteraction

/-- An interaction as the engine takes it on, where it does. -/
def takenOn (d : Declared η μ) : Option (PactInteraction η μ) :=
  if !d.plugins.isEmpty then some (.needsPlugins ⟨d.description, d.pending, d.providerStates, d.plugins⟩)
  else
    match d.content with
    | some (.inl http) => some (.http ⟨d.description, d.pending, d.providerStates, http⟩)
    | some (.inr message) => some (.message ⟨d.description, d.pending, d.providerStates, message⟩)
    | none => none

/-- Every interaction of a pact the engine takes on, in the pact's order. -/
def interactions (declared : List (Declared η μ)) : List (PactInteraction η μ) := declared.filterMap takenOn

/-! Findings. -/

/-- Where in a pact an interaction stands: the array the author wrote, and its position. -/
structure Pointer where
  key : String
  index : Nat

def Pointer.text (at' : Pointer) : String := "/" ++ at'.key ++ "/" ++ at'.index.repr

structure Finding where
  code : String
  kind : String
  path : String
  message : String
  target : Option String

def Finding.new (code kind path message : String) : Finding := ⟨code, kind, path, message, none⟩

structure Options where
  excludePending : Bool

def pendingExcluded (key : String) (index : Nat) (description : String) : Finding :=
  .new "pending-excluded" "lossy" (Pointer.text ⟨key, index⟩)
    ("'" ++ description ++ "' is pending and was left out, as asked: the contract says nothing about it. Pending is the " ++
      "broker's to decide for a contract, from the provider's results (ADR 0051)")

def unknownDropped (key : String) (unknown declared : Nat) : Finding :=
  .new "interaction-dropped" "lossy" ("/" ++ key)
    (unknown.repr ++ " of " ++ declared.repr ++ " interactions are neither HTTP request/response nor messages and were " ++
      "not converted")

def pluginDropped (key : String) (needs : PluginInteraction) : Finding :=
  .new "interaction-dropped" "lossy" ("/" ++ key)
    ("'" ++ needs.description ++ "' needs the pact plugin(s) " ++
      String.intercalate ", " (needs.plugins.map fun plugin => "'" ++ plugin ++ "'") ++
      " and was not converted; pact plugins have no contract form yet")

/-! Converting one interaction. -/

/-- The states of an interaction, and whether any has parameters. -/
def statesOf (providerStates : List ProviderState) : Option (List State) × Bool :=
  if providerStates.isEmpty then (none, false)
  else
    (some (providerStates.map fun state =>
        ⟨state.name, if state.params.isEmpty then none else some (byName state.params), none⟩),
      providerStates.any fun state => !state.params.isEmpty)

def paramsUntyped (at' : Pointer) : Finding :=
  .new "state-params-untyped" "note" (at'.text ++ "/providerStates")
    ("state parameters were carried across as they stand — the contract format types them, the pact did not, so check " ++
      "that each value has the type the provider expects")

def states (providerStates : List ProviderState) (at' : Pointer) : Option (List State) × List Finding :=
  let (states, typed) := statesOf providerStates
  (states, if typed then [paramsUntyped at'] else [])

/-- An interaction's description with its position, from one, after it. -/
def disambiguated (description : String) (at' : Pointer) : String :=
  description ++ " (" ++ (at'.index + 1).repr ++ ")"

def duplicateDescription (at' : Pointer) (description : String) : Finding :=
  .new "duplicate-description" "lossy" (at'.text ++ "/description")
    ("another interaction already has the description '" ++ description ++ "' and the same states; this one was " ++
      "renamed to '" ++ disambiguated description at' ++ "' so both survive")

abbrev Seen := List (String × Option (List State))

def sameName (a b : String × Option (List State)) : Bool := a.1 == b.1 && statesEq a.2 b.2

/-- The description an interaction is given among those already seen. -/
def identity (description : String) (states : Option (List State)) (at' : Pointer) (seen : Seen) :
    String × List Finding :=
  if seen.any fun other => sameName other (description, states) then
    (disambiguated description at', [duplicateDescription at' description])
  else (description, [])

def pendingDropped (at' : Pointer) : Finding :=
  .new "pending-dropped" "lossy" (at'.text ++ "/pending")
    ("the interaction is pending, so v1–v4 report its failure without failing the run; a contract has no pending " ++
      "interactions, so a failure of this one fails the run. Pending is the broker's to decide for a contract, from " ++
      "the provider's results; to leave the interaction out instead, ask the conversion to exclude pending " ++
      "interactions (ADR 0051)")

/-- What the conversion of an interaction's messages and of its selection leaves of it. -/
structure Converted where
  transport : Option Transport
  parts : List (String × ShapePart)
  contentTypes : Option ContentTypes
  requires : Option (List Requirement)
  selection : RecordedSelection

/-- What is wrong with a document that is not read: at least one thing. -/
abbrev Problems := { problems : List Problem // problems ≠ [] }

/-- The conversion of an interaction's content, under the description and the states it has been given. -/
structure Converter (η μ : Type) where
  http : Pointer → Taken η → String → Option (List State) → Except Problems Converted × List Finding
  message : Pointer → Taken μ → String → Option (List State) → Except Problems Converted × List Finding

/-- A converted interaction: the identity it is given first, then its content. -/
def convert {β : Type} (content : Pointer → Taken β → String → Option (List State) →
    Except Problems Converted × List Finding) (at' : Pointer) (i : Taken β) (seen : Seen) :
    Except Problems Interaction × List Finding × Seen :=
  let (states, ofStates) := states i.providerStates at'
  let (description, ofIdentity) := identity i.description states at' seen
  let ofPending := if i.pending then [pendingDropped at'] else []
  let (converted, ofContent) := content at' i description states
  (converted.map fun c => ⟨description, c.transport, states, c.parts, c.contentTypes, c.requires, c.selection⟩,
    ofStates ++ ofIdentity ++ ofPending ++ ofContent, seen ++ [(description, states)])

def convertOne (converter : Converter η μ) (at' : Pointer) (i : PactInteraction η μ) (seen : Seen) :
    Option (Except Problems Interaction × List Finding × Seen) :=
  match i with
  | .http i => some (convert converter.http at' i seen)
  | .message i => some (convert converter.message at' i seen)
  | .needsPlugins _ => none

/-- The interactions to convert, each at its position: what was made of them, the problems found, and the findings. -/
def convertAll (converter : Converter η μ) (key : String) :
    List (PactInteraction η μ × Nat) → Seen → List Interaction × List Problem × List Finding
  | [], _ => ([], [], [])
  | (i, index) :: rest, seen =>
    match convertOne converter ⟨key, index⟩ i seen with
    | none => convertAll converter key rest seen
    | some (converted, found, seen) =>
      let (made, problems, findings) := convertAll converter key rest seen
      match converted with
      | .ok interaction => (interaction :: made, problems, found ++ findings)
      | .error errors => (made, errors.val ++ problems, found ++ findings)

/-! Converting a pact. -/

structure Upgraded where
  contract : Contract
  findings : List Finding

/-- Whether an interaction is left out because it is pending. -/
def isExcluded (options : Options) (i : PactInteraction η μ) : Bool := options.excludePending && i.pending

def needing : PactInteraction η μ → Option PluginInteraction
  | .needsPlugins needs => some needs
  | _ => none

/-- Converts a pact's declared interactions to a contract between its parties. -/
def pactWith (converter : Converter η μ) (consumer provider : Party) (key : String) (declared : List (Declared η μ))
    (options : Options) : Except (List Problem) Upgraded :=
  let placed := (interactions declared).zipIdx
  let excluded := placed.filter fun p => isExcluded options p.1
  let kept := placed.filter fun p => !isExcluded options p.1
  let needingPlugins := kept.filterMap fun p => needing p.1
  let converting := kept.filter fun p => (needing p.1).isNone
  let unknown := declared.length - excluded.length - converting.length - needingPlugins.length
  let (made, problems, findings) := convertAll converter key converting []
  if !problems.isEmpty then .error problems
  else
    .ok ⟨⟨formatToken, none, consumer, provider, sort made, none⟩,
      excluded.map (fun p => pendingExcluded key p.2 p.1.description) ++
        (if 0 < unknown then [unknownDropped key unknown declared.length] else []) ++
        needingPlugins.map (pluginDropped key) ++ findings⟩

end PactJanus.Legacy.Upgrade
