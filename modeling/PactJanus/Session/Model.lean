import PactJanus.Contracts.Identity
import PactJanus.Session.Exchange

namespace PactJanus.Session.Model

open PactJanus.Data.Json PactJanus.Lib PactJanus.Lib.PartialMap PactJanus.Contracts.Model PactJanus.Contracts.Files
open PactJanus.Contracts.Identity PactJanus.Plan.Model PactJanus.Shape PactJanus.Shape.VariantSpace PactJanus.Plan.Compile
open PactJanus.Variant.Generate PactJanus.Session.Exchange

/-! A consumer session: its interactions, the evidence of their variants, and what it answers from them. -/

/-- An interaction as it was added, with the shapes of its parts. -/
structure InteractionSpec extends Plan.Compile.InteractionSpec where
  transport : Option Transport
  states : Option (List State)
  contentTypes : Option ContentTypes
  requires : Option (List Requirement)

structure Variant where
  id : String
  origin : Origin
  assignment : Assignment

/-- A selection of an interaction's variants, with its report. -/
structure Selected where
  variants : List Variant
  report : List (String × Json)

/-- The test's verdict on one variant. -/
structure TestVerdict where
  passed : Bool
  status : String
  reason : Option String

/-- Any status but `passed` is a failure. -/
def TestVerdict.new (status : String) (reason : Option String) : TestVerdict := ⟨status == "passed", status, reason⟩

/-- What arming one variant takes. -/
structure Arming where
  parts : Payload
  requestPlan : Option MatchingPlan

/-- A converted interaction's example: what a mock serves, and what the contract records. -/
structure Converted where
  served : Payload
  recorded : List (String × ValuePart)

/-- One interaction of a session; `armed` is the variant armed last. -/
structure InteractionEntry (ε : Type) where
  spec : InteractionSpec
  rawParts : List (String × ShapePart)
  selection : Option Selected
  armed : Option String
  exercised : PMap String ε
  reports : PMap String TestVerdict
  armings : PMap String Arming
  converted : Option Converted

structure ConsumerSession (ε : Type) where
  consumer : Party
  provider : Party
  interactions : PMap String (InteractionEntry ε)
  order : List String
  nextHandle : Nat
  verdictsRequired : Bool
  refused : List Json

/-- What the session calls: its components, the fragments they contribute to a plan, and the resolving of states. -/
structure World extends Scope where
  names : String → ExchangeParts
  contribute : InteractionSpec → List (String × ShapePart) → MatchingPlan → MatchingPlan
  resolveStates : Option (List State) → List Dimension → Assignment → Option (List ResolvedState)

/-- The payload a whole interaction produces under one variant, without the slots that hold nothing. -/
def interactionPayload (spec : InteractionSpec) (assignment : Assignment) : Payload :=
  spec.parts.map fun part => (part.1, part.2.filterMap fun slot =>
    (generated assignment slot.2 (Path.root part.1 slot.1)).map fun value => (slot.1, value))

def assignmentJson (variant : Variant) (space : List Dimension) : List Json :=
  space.filterMap fun dimension => (variant.assignment.lookup dimension.id).map fun point =>
    .object [("dimension", .string dimension.id), ("point", .string point)]

namespace ConsumerSession

variable {ε : Type}

/-- A new session. -/
def new (consumer provider : Party) (verdictsRequired : Bool) : ConsumerSession ε :=
  ⟨consumer, provider, PMap.empty, [], 1, verdictsRequired, []⟩

def handleName (n : Nat) : String := "i-" ++ n.repr

def recordRefusal (session : ConsumerSession ε) (refusal : Json) : ConsumerSession ε :=
  { session with refused := session.refused ++ [refusal] }

/-- Adds an interaction that has been validated, with its example where it was converted. -/
def addInteraction (session : ConsumerSession ε) (spec : InteractionSpec) (rawParts : List (String × ShapePart))
    (converted : Option Converted) : ConsumerSession ε :=
  let handle := handleName session.nextHandle
  { session with
    interactions := session.interactions.insert handle
      ⟨spec, rawParts, none, none, PMap.empty, PMap.empty, PMap.empty, converted⟩
    order := session.order ++ [handle]
    nextHandle := session.nextHandle + 1 }

/-- Makes what was selected for an interaction its selection. -/
def variants (session : ConsumerSession ε) (handle : String) (selected : Selected) : ConsumerSession ε :=
  { session with interactions := session.interactions.modify handle fun entry =>
      { entry with selection := some selected } }

end ConsumerSession

/-! Arming a variant. -/

inductive ServeVariantError where
  | handleNotFound
  | variantNotFound (selection : List String)
  | deliveryUnsupported (kind : String)

/-- What serving a variant comes to: its parts in the test's hands, or an arming for the transports of a kind. -/
inductive Served where
  | handed (parts : Payload)
  | armed (arming : Option (String × ArmedExchange))

def selectionIds (selection : Option Selected) : List String :=
  (selection.map fun selected => selected.variants.map Variant.id).getD []

def isEmissive (transport : Transport) : Bool := transport.mode = some "emissive"

/-- The kind of the transports an interaction is armed on. -/
def passiveKind (spec : InteractionSpec) : Option String :=
  (spec.transport.filter fun transport => !isEmissive transport).map Transport.kind

/-- The kind of the transport an interaction is delivered through. -/
def emissiveKind (spec : InteractionSpec) : Option String := (spec.transport.filter isEmissive).map Transport.kind

/-- The arming of a variant, worked out the first time it is armed. -/
def InteractionEntry.arming {ε : Type} (world : World) (entry : InteractionEntry ε) (variant : Variant) : Arming :=
  match entry.armings variant.id with
  | some arming => arming
  | none =>
    ⟨(entry.converted.map Converted.served).getD (interactionPayload entry.spec variant.assignment),
      (passiveKind entry.spec).map fun _ => world.contribute entry.spec entry.rawParts
        (compile entry.spec.toInteractionSpec variant.assignment (some variant.id))⟩

namespace ConsumerSession

variable {ε : Type} [Evidence ε]

/-- Arms a variant of a selection; `running` is the kinds of the transports started. -/
def serveVariant (world : World) (running : List String) (session : ConsumerSession ε) (handle variantId : String) :
    ConsumerSession ε × Except ServeVariantError Served :=
  match session.interactions handle with
  | none => (session, .error .handleNotFound)
  | some entry =>
    match entry.selection.bind fun selected => selected.variants.find? fun v => v.id = variantId with
    | none => (session, .error (.variantNotFound (selectionIds entry.selection)))
    | some variant =>
      let arming := entry.arming world variant
      let entry := { entry with
        armings := entry.armings.insert variantId arming
        armed := some variantId }
      let put := fun entry => { session with interactions := session.interactions.insert handle entry }
      match emissiveKind entry.spec with
      | some kind =>
        let handed := entry.exercised.insert variantId (Evidence.handed ⟨.verified, arming.parts, []⟩)
        if kind ∈ running then (put entry, .error (.deliveryUnsupported kind))
        else (put { entry with exercised := handed }, .ok (.handed arming.parts))
      | none =>
        match passiveKind entry.spec, arming.requestPlan with
        | some kind, some requestPlan =>
          (put entry, .ok (.armed (some (kind, ⟨handle, variantId, requestPlan, arming.parts,
            entry.spec.contentTypes.getD []⟩))))
        | _, _ => (put entry, .ok (.armed none))

/-- Why a verdict on a variant is refused, if it is. -/
def reportRefused (session : ConsumerSession ε) (handle variantId : String) : Option ServeVariantError :=
  match session.interactions handle with
  | none => some .handleNotFound
  | some entry =>
    if variantId ∈ selectionIds entry.selection then none else some (.variantNotFound (selectionIds entry.selection))

/-- Takes in a verdict on a variant with what the transports recorded for it, in their order. -/
def collect (session : ConsumerSession ε) (handle variantId : String) (verdict : TestVerdict) (settled : List ε) :
    ConsumerSession ε :=
  { session with interactions := session.interactions.modify handle fun entry =>
      { entry with
        exercised := settled.foldl (fun exercised e => exercised.record Evidence.merge variantId e) entry.exercised
        armed := if entry.armed = some variantId then none else entry.armed
        reports := entry.reports.insert variantId verdict } }

/-- Takes in all a stopped transport recorded. -/
def drain (session : ConsumerSession ε) (outcomes : PMap Key ε) : ConsumerSession ε :=
  { session with interactions := fun handle => (session.interactions handle).map fun entry =>
      { entry with exercised := fun variantId =>
          Option.merge Evidence.merge (entry.exercised variantId) (outcomes (handle, variantId)) } }

end ConsumerSession

/-! What a session answers from its evidence. -/

/-- A variant's status, worst first. -/
inductive VariantStatus where
  | failed | notExercised | notReported | verified
deriving DecidableEq

def VariantStatus.rank : VariantStatus → Nat
  | .failed => 0
  | .notExercised => 1
  | .notReported => 2
  | .verified => 3

def variantStatus (session : ConsumerSession Exercised) (entry : InteractionEntry Exercised) (variantId : String) :
    VariantStatus :=
  let report := entry.reports variantId
  if report.any fun report => !report.passed then .failed
  else
    match (entry.exercised variantId).map Exercised.outcome with
    | some .failed => .failed
    | none => .notExercised
    | some .verified => if session.verdictsRequired && report.isNone then .notReported else .verified

structure VariantResult where
  variant : String
  status : VariantStatus
  mismatches : List Json
  test : Option TestVerdict

def variantResult (session : ConsumerSession Exercised) (entry : InteractionEntry Exercised) (variantId : String) :
    VariantResult :=
  ⟨variantId, variantStatus session entry variantId, ((entry.exercised variantId).map Exercised.mismatches).getD [],
    entry.reports variantId⟩

/-- An interaction's result, with its variants' where a selection was made. -/
structure InteractionResult where
  handle : String
  status : VariantStatus
  variants : Option (List VariantResult)

/-- The worst of some statuses. -/
def worst : List VariantStatus → Option VariantStatus
  | [] => none
  | status :: rest =>
    match worst rest with
    | none => some status
    | some other => some (if other.rank < status.rank then other else status)

def interactionResult (session : ConsumerSession Exercised) (handle : String) (entry : InteractionEntry Exercised) :
    InteractionResult :=
  match entry.selection with
  | none => ⟨handle, .notExercised, none⟩
  | some selected =>
    let results := selected.variants.map fun v => variantResult session entry v.id
    ⟨handle, (worst (results.map VariantResult.status)).getD .verified, some results⟩

/-- One result an interaction, in the order they were added. -/
def results (session : ConsumerSession Exercised) : List InteractionResult :=
  session.order.filterMap fun handle => (session.interactions handle).map (interactionResult session handle)

/-- A generated payload as a contract records it. -/
def toValueParts (parts : Payload) (contentTypes : Option ContentTypes) : List (String × ValuePart) :=
  parts.map fun part => (part.1, part.2.map fun slot =>
    let contentType := contentTypes.bind fun declared => declaredType declared part.1 slot.1
    (slot.1, match slot.2 with
      | .document content => ⟨content, none, contentType⟩
      | .octets bytes => ⟨.string (Base64.encode bytes), some "base64", contentType⟩))

/-- One selected variant as the contract records it. -/
def recordedVariant (world : World) (entry : InteractionEntry Exercised) (variant : Variant) : RecordedVariant :=
  let space := variantSpace entry.spec.toInteractionSpec
  ⟨variant.id, variant.origin, assignmentJson variant space,
    world.resolveStates entry.spec.states space variant.assignment,
    match entry.converted with
    | some converted => converted.recorded
    | none => toValueParts (((entry.exercised variant.id).map Exercised.parts).getD []) entry.spec.contentTypes⟩

/-- One interaction as the contract records it, `none` where a selected variant is not verified. -/
def recordedInteraction (world : World) (session : ConsumerSession Exercised) (entry : InteractionEntry Exercised) :
    Option Interaction :=
  match entry.selection with
  | none => none
  | some selected =>
    if selected.variants.all fun v => variantStatus session entry v.id = .verified then
      some ⟨entry.spec.description, entry.spec.transport, entry.spec.states, entry.rawParts, entry.spec.contentTypes,
        entry.spec.requires, ⟨selected.variants.map (recordedVariant world entry), selected.report⟩⟩
    else none

/-- What the session refused keeps its contract from being written. -/
def withheld (session : ConsumerSession Exercised) : Bool := session.verdictsRequired && !session.refused.isEmpty

/-- The contract, if every selected variant of every interaction is verified. -/
def contract (world : World) (session : ConsumerSession Exercised) : Except (List Problem) (Option Contract) :=
  if withheld session then .ok none
  else
    match session.order.mapM fun handle => (session.interactions handle).bind (recordedInteraction world session) with
    | none => .ok none
    | some interactions => (assembled session.consumer session.provider interactions).map some

end PactJanus.Session.Model
