import PactJanus.Events.Stream
import PactJanus.Recording.Emission
import PactJanus.Session.Interleaving
import PactJanus.Variant.Selection
import PactJanus.Verification.Targets

namespace PactJanus.Protocol.Dispatcher

open PactJanus.Data.Json PactJanus.Lib.Effects PactJanus.Lib.PartialMap PactJanus.Contracts.Model PactJanus.Contracts.Files
open PactJanus.Session.Exchange PactJanus.Session.Model
open PactJanus.Variant.Selection (VariantError)
open PactJanus.Verification.Run (countJson)
open PactJanus.Verification.Targets (Component ComponentError componentUnavailable componentFailed internal)
open PactJanus.Recording.Observe (Recorder RecordingPolicy Observation)
open PactJanus.Recording.Emission (ProviderShape finish)

/-! The dispatcher of a pipe: frames answered one at a time over tables of sessions and streams, and the work that goes
on beside them. -/

/-! The errors it answers with. -/

def malformedFrame (message : String) : EngineError := ⟨"malformed-frame", "protocol", message, none⟩

def handshakeRequired : EngineError :=
  ⟨"handshake-required", "protocol", "the first request on a pipe must be engine/hello", none⟩

def engineShutDown : EngineError :=
  ⟨"engine-shut-down", "protocol", "the engine has been shut down (engine/shutdown); open a new engine", none⟩

def operationUnsupported (op : String) : EngineError :=
  ⟨"operation-unsupported", "protocol", "unknown operation '" ++ op ++ "'", some [("op", .string op)]⟩

def protocolVersion : Nat := 1

def protocolVersionUnsupported (supported : List Nat) : EngineError :=
  ⟨"protocol-version-unsupported", "protocol",
    "this engine speaks protocol versions [" ++ String.intercalate ", " (supported.map Nat.repr) ++ "]",
    some [("supported", .array (supported.map countJson))]⟩

def sessionNotFound (session : String) : EngineError :=
  ⟨"session-not-found", "session", "session '" ++ session ++ "' does not exist or has ended",
    some [("session", .string session)]⟩

def streamNotFound (stream : String) : EngineError :=
  ⟨"stream-not-found", "session", "event stream '" ++ stream ++ "' does not exist or has ended",
    some [("stream", .string stream)]⟩

def handleNotFound (handle : String) : EngineError :=
  ⟨"handle-not-found", "session", "interaction handle '" ++ handle ++ "' does not exist in this session",
    some [("handle", .string handle)]⟩

def variantNotFound (variant : String) (selection : List String) : EngineError :=
  ⟨"variant-not-found", "session", "'" ++ variant ++ "' is not in this interaction's selection",
    some [("variant", .string variant), ("selection", .array (selection.map .string))]⟩

def interactionInvalid (problems : List Problem) : EngineError :=
  ⟨"interaction-invalid", "document", "interaction specification is not valid",
    some [("problems", .array (problems.map problemJson))]⟩

def invalidPolicy (problems : List Problem) : EngineError :=
  ⟨"interaction-invalid", "document", "sampling policy is not valid",
    some [("problems", .array (problems.map problemJson))]⟩

def variantBudgetExceeded (space : UInt64) (selected : Nat) (budget : UInt64) (dimensions : List String) : EngineError :=
  ⟨"variant-budget-exceeded", "document",
    "the selection would need " ++ selected.repr ++ " variants, above the budget of " ++ budget.toNat.repr,
    some [("space", .number (.posInt space)), ("selected", countJson selected), ("budget", .number (.posInt budget)),
      ("dimensions", .array (dimensions.map .string))]⟩

def contractInvalid (problems : List Problem) : EngineError :=
  ⟨"contract-invalid", "document", "the session's interactions cannot produce a valid contract",
    some [("problems", .array (problems.map problemJson))]⟩

def backgroundUnavailable (what : String) : EngineError :=
  ⟨"component-unavailable", "component", "this engine cannot run work in the background, so it cannot " ++ what,
    some [("component", .string "background")]⟩

/-- A declared component that could not be resolved, or a requirement nothing satisfies. -/
structure Unavailable where
  message : String
  details : List (String × Json)

def componentUnresolved (unavailable : Unavailable) : EngineError :=
  ⟨"component-unavailable", "component", unavailable.message, some unavailable.details⟩

/-- A panic that reached the dispatch boundary. -/
def panicCaught : EngineError := internal "the engine encountered an internal error handling this request"

inductive AddInteractionError where
  | invalid (problems : List Problem)
  | unavailable (unavailable : Unavailable)

def addInteractionError : AddInteractionError → EngineError
  | .invalid problems => interactionInvalid problems
  | .unavailable unavailable => componentUnresolved unavailable

def variantsError : VariantError → EngineError
  | .invalidPolicy problems => invalidPolicy problems
  | .budgetExceeded space selected budget dimensions => variantBudgetExceeded space selected budget dimensions

def serveVariantError (handle variant : String) : ServeVariantError → EngineError
  | .handleNotFound => handleNotFound handle
  | .variantNotFound selection => variantNotFound variant selection
  | .deliveryUnsupported kind =>
    { operationUnsupported "consumer-session/serve-variant" with
      message := "a '" ++ kind ++ "' transport is started in this session, and delivering an emissive interaction " ++
        "through a transport is not built yet (staged plan S6.2); start none, and serve-variant answers with the " ++
        "message for the test to use (ADR 0067)" }

/-! What the dispatcher calls. -/

/-- What a session's declared components come to. -/
structure SessionScope where
  world : World
  transport : String → Option Component

/-- A facade's builder calls, built and converted into an interaction specification. -/
structure Built where
  spec : Json
  converted : InteractionSpec → List (String × ShapePart) → Converted
  findings : List Json

/-- What an attempt to start a verification came to, and how many transports were started for it. -/
inductive Attempt (ω : Type) where
  | refused (error : EngineError) (transports : Nat)
  | unready (error : EngineError) (transports : Nat)
  | notSpawned (message : String) (transports : Nat)
  | started (transports : Nat) (observer : Option ω)

/-- What an embedding gives its engine, and what the operations come to that keep nothing in it. -/
structure Host (ω : Type) where
  version : String
  loaders : List String
  broker : Bool
  configLoader : Bool
  background : Option (String → Except String Unit)
  writer : Option (String → (List UInt8 → Except EngineError (List UInt8)) → Except EngineError Unit)
  transports : String → Option Component
  scope : List Json → Except Unavailable SessionScope
  accept : World → Json → Except AddInteractionError (InteractionSpec × List (String × ShapePart))
  build : Json → Except (List Problem) Built
  select : Option Json → Option Json → InteractionEntry Exercised → Except VariantError (Selected × Json)
  read : List UInt8 → Except ContractError Contract
  document : (op : String) → (segments contractText : Bool) → Json → Except EngineError Json
  verify : (body : Json) → (nextTransport nextVerification : Nat) → Attempt ω
  publish : Json → Except EngineError (Except String Unit)
  observe : ω → String → Json → List (String × Json) × ω

/-! What it keeps. -/

/-- A consumer session as the engine holds it. -/
structure Held where
  scope : SessionScope
  policy : Option Json
  system : Session.Interleaving.System Exercised

structure RecordingSession where
  recorder : Recorder
  observations : Nat

/-- The frame being answered, where answering it takes more than one step. -/
inductive Handling where
  | idle
  | serving (frame session handle variant : String) (served : Except ServeVariantError Served)
  | reporting (frame session handle variant : String)
  | finalising (frame session : String) (held : Held) (write : Option (String × Mode))
  | polling (frame : String) (named left : List String) (max : Nat) (events : List Events.Stream.Event) (wait : Bool)

structure Engine (ρ ω : Type) where
  helloDone : Bool
  segments : Bool
  contractText : Bool
  testVerdicts : Bool
  shutDown : Bool
  sessions : PMap String Held
  nextSession : Nat
  nextTransport : Nat
  streams : PMap String (Events.Stream.System ρ ω)
  nextStream : Nat
  /-- The stream of each run under way. -/
  verifications : PMap String String
  nextVerification : Nat
  recordings : PMap String RecordingSession
  nextRecording : Nat
  publications : PMap String String
  nextPublication : Nat
  handling : Handling

def Handling.isIdle : Handling → Bool
  | .idle => true
  | _ => false

/-! Its frames, once they are read. -/

structure SessionConfig where
  consumer : Party
  provider : Party
  policy : Option Json
  components : List Json

structure ContractWrite where
  path : String
  mode : Option String

/-- A request's body, or why it does not match its operation's schema. -/
inductive Request where
  | hello (versions : List Nat) (capabilities : Json)
  | shutdown
  | create (config : SessionConfig)
  | addInteraction (session : String) (interaction : Json)
  | addPactInteraction (session : String) (pact : Json)
  | variants (session handle : String) (policy : Option Json)
  | startTransport (session transport : String) (options : Option Json)
  | serveVariant (session handle variant : String)
  | reportVariant (session handle variant status : String) (reason : Option String)
  | finalise (session : String) (write : Option ContractWrite)
  | verify (body : Json)
  | publishContracts (body : Json)
  | createRecording (provider : Party) (maxOptions minEvidence : Option Nat)
  | observe (session : String) (observation : Observation)
  | finaliseRecording (session : String)
  | document (op : String) (body : Json)
  | poll (streams : List String) (max : Option Nat) (waitMs : Nat)
  | unsupported (op : String)
  | malformed (op message : String)

inductive Frame where
  | notJson (message : String)
  | notRequest (id : String)
  | unreadable (id message : String)
  | request (id : String) (request : Request)

/-- What became of the contract a session came to. -/
inductive Outcome where
  | withheld
  | contract (contract : Contract)
  | text (text : String)
  | written (path : String)

inductive Result where
  | hello (capabilities : Json)
  | nothing
  | session (session : String)
  | handle (handle : String) (findings : List Json)
  | selection (selection : Json)
  | endpoint (endpoint : Json)
  | parts (parts : Payload)
  | variant (result : VariantResult)
  | finalised (results : List InteractionResult) (outcome : Outcome) (refused : Option (List Json))
  | run (session stream : String)
  | progress (observations interactions : Nat)
  | providerShape (shape : ProviderShape)
  | document (document : Json)
  | events (events : List Events.Stream.Event)

/-- A step of a transport's loop, which goes on beside the frames. -/
inductive Beside where
  | arrival (instance' : String) (inbound : Parts)
  | delivery (instance' : String) (undelivered : Option String)
  | ending (instance' : String)

def Beside.event : Beside → Session.Interleaving.Event
  | .arrival instance' inbound => .arrival instance' inbound
  | .delivery instance' undelivered => .delivery instance' undelivered
  | .ending instance' => .ending instance'

/-- A step of a stream's producer, which goes on beside the frames. -/
inductive Produce (ρ : Type) where
  | call (producer : ρ) (kind : String) (payload : Json) (last : Bool)
  | push (producer : ρ)
  | wake (producer : ρ)

def Produce.act {ρ ω : Type} : Produce ρ → Events.Stream.Act ρ ω
  | .call producer kind payload last => .call producer kind payload last
  | .push producer => .push producer
  | .wake producer => .wake producer

/-- What can happen: a frame is taken, the frame being answered goes a step on, or the work beside it does. -/
inductive Act (ρ : Type) where
  | frame (frame : Frame)
  | advance
  | beside (session : String) (beside : Beside)
  | produce (stream : String) (produce : Produce ρ)

/-- What is seen from outside, of the frames and of the work beside them. -/
inductive Note where
  | answered (frame : String) (answer : Except EngineError Result)
  | session (session : String) (note : Session.Interleaving.Note)
  | stream (stream : String) (note : Events.Stream.Note)

def sessionName (n : Nat) : String := "cs-" ++ n.repr
def verificationName (n : Nat) : String := "vs-" ++ n.repr
def recordingName (n : Nat) : String := "r-" ++ n.repr
def publicationName (n : Nat) : String := "bs-" ++ n.repr
def streamName (n : Nat) : String := "s-" ++ n.repr

/-- The host's capability, which is declared by an object. -/
def declares (capability : String) (capabilities : Json) : Bool :=
  (get capability capabilities).any fun declared => (asObject declared).isSome

/-- A frame's cap on the events of its answer: the engine's own where the host names none. -/
def pollMax : Option Nat → Nat
  | none => 128
  | some 0 => 128
  | some max => min max Events.Stream.bufferCap

def parseMode : Option String → Except EngineError Mode
  | none => .ok .merge
  | some mode =>
    if mode = "merge" then .ok .merge
    else if mode = "overwrite" then .ok .overwrite
    else .error (malformedFrame ("write.mode: '" ++ mode ++ "' is neither 'merge' nor 'overwrite'"))

/-- A refused interaction as `finalise` lists it. -/
def refusal (interaction : Json) (error : EngineError) : Json :=
  .object (optional "description" (((get "description" interaction).bind asStr).map .string) ++
    [("code", .string error.code), ("message", .string error.message)])

/-- The description builder calls give, the last where they give several. -/
def builtDescription (pact : Json) : Json :=
  let steps := ((get "steps" pact).bind asArray).getD []
  let called := steps.filter fun step => (get "call" step).bind asStr = some "upon_receiving"
  .object (optional "description" (called.filterMap (get "description")).getLast?)

namespace Request

def isHello : Request → Bool
  | .hello _ _ => true
  | .malformed op _ => op == "engine/hello"
  | _ => false

end Request

namespace Engine

variable {ρ ω : Type}

def new : Engine ρ ω :=
  ⟨false, false, false, false, false, PMap.empty, 0, 0, PMap.empty, 0, PMap.empty, 0, PMap.empty, 0, PMap.empty, 0, .idle⟩

/-- A consumer session: in its table, or in the hands of the frame that ends it. -/
def held (engine : Engine ρ ω) (session : String) : Option Held :=
  match engine.handling with
  | .finalising _ ending held _ => if session = ending then some held else engine.sessions session
  | _ => engine.sessions session

def put (engine : Engine ρ ω) (session : String) (held : Held) : Engine ρ ω :=
  match engine.handling with
  | .finalising frame ending _ write =>
    if session = ending then { engine with handling := .finalising frame ending held write }
    else { engine with sessions := engine.sessions.insert session held }
  | _ => { engine with sessions := engine.sessions.insert session held }

/-- One step of a consumer session and its transports. -/
def within (engine : Engine ρ ω) (session : String) (event : Session.Interleaving.Event) :
    Option (Engine ρ ω × List Note) :=
  (engine.held session).bind fun held =>
    (Session.Interleaving.step held.scope.world held.system event).map fun system =>
      (engine.put session { held with system := system },
        (Session.Interleaving.notes held.scope.world held.system event).map (.session session))

/-- The end of a frame. -/
def answer (engine : Engine ρ ω) (frame : String) (answer : Except EngineError Result) : Engine ρ ω × List Note :=
  ({ engine with handling := .idle }, [.answered frame answer])

/-- A consumer session takes a step, and the frame is answered or goes on. -/
def withinThen (engine : Engine ρ ω) (session : String) (event : Session.Interleaving.Event)
    (next : Engine ρ ω → Engine ρ ω × List Note) : Option (Engine ρ ω × List Note) :=
  (engine.within session event).map fun (engine, seen) => ((next engine).1, seen ++ (next engine).2)

variable (host : Host ω)

/-- One step of a stream. -/
def stream [DecidableEq ρ] (engine : Engine ρ ω) (id : String) (act : Events.Stream.Act ρ ω) : Option (Engine ρ ω × List Note) :=
  (engine.streams id).bind fun system =>
    (Events.Stream.step host.observe system act).map fun system' =>
      ({ engine with streams := engine.streams.insert id system' },
        (Events.Stream.notes host.observe system act).map (.stream id))

/-- What the engine says of itself. -/
def helloResult : Json :=
  .object [("protocol-version", countJson protocolVersion),
    ("engine", .object [("name", .string "janus-engine"), ("version", .string host.version)]),
    ("capabilities", .object ([("provider-shape-recording", .object []), ("subsumption-check", .object []),
      ("components", .object [("loaders", .array (("in-tree" :: host.loaders).map .string))]),
      ("segments", .object []), ("contract-text", .object []), ("test-verdicts", .object [])] ++
      (if host.broker then [("broker", .object [])] else []) ++
      (if host.configLoader then [("config-loading", .object [])] else []) ++
      (if host.writer.isSome then [("contract-writing", .object [])] else []) ++
      (if host.background.isSome then [("background", .object [])] else [])))]

def handleHello (engine : Engine ρ ω) (versions : List Nat) (capabilities : Json) :
    Engine ρ ω × Except EngineError Result :=
  if protocolVersion ∈ versions then
    ({ engine with
      helloDone := true
      segments := declares "segments" capabilities
      contractText := declares "contract-text" capabilities
      testVerdicts := declares "test-verdicts" capabilities }, .ok (.hello (helloResult host)))
  else (engine, .error (protocolVersionUnsupported [protocolVersion]))

/-- Every session and stream is released. What goes on beside them can no longer be seen. -/
def handleShutdown (engine : Engine ρ ω) : Engine ρ ω × Except EngineError Result :=
  ({ engine with
    sessions := PMap.empty, streams := PMap.empty, verifications := PMap.empty, publications := PMap.empty
    recordings := PMap.empty, shutDown := true }, .ok .nothing)

def handleCreate (engine : Engine ρ ω) (config : SessionConfig) : Engine ρ ω × Except EngineError Result :=
  match host.scope config.components with
  | .error unavailable => (engine, .error (componentUnresolved unavailable))
  | .ok scope =>
    let id := sessionName (engine.nextSession + 1)
    ({ engine with
      sessions := engine.sessions.insert id
        ⟨scope, config.policy, .start config.consumer config.provider engine.testVerdicts⟩
      nextSession := engine.nextSession + 1 }, .ok (.session id))

/-- Allocates and registers a stream for work that is about to start. -/
def openStream (engine : Engine ρ ω) (observer : Option ω) : Engine ρ ω × String :=
  let id := streamName (engine.nextStream + 1)
  ({ engine with
    streams := engine.streams.insert id { (Events.Stream.System.start id : Events.Stream.System ρ ω) with observer := observer }
    nextStream := engine.nextStream + 1 }, id)

/-- A stream whose work could not be started. -/
def spentStream (engine : Engine ρ ω) : Engine ρ ω := { engine with nextStream := engine.nextStream + 1 }

def handleVerify (engine : Engine ρ ω) (body : Json) : Engine ρ ω × Except EngineError Result :=
  let counted (engine : Engine ρ ω) (transports : Nat) :=
    { engine with nextTransport := engine.nextTransport + transports }
  let numbered (engine : Engine ρ ω) := { engine with nextVerification := engine.nextVerification + 1 }
  match host.verify body engine.nextTransport engine.nextVerification with
  | .refused error transports => (counted engine transports, .error error)
  | .unready error transports => (numbered (counted engine transports), .error error)
  | .notSpawned message transports => (spentStream (numbered (counted engine transports)), .error (internal message))
  | .started transports observer =>
    let id := verificationName (engine.nextVerification + 1)
    let (engine, stream) := openStream (numbered (counted engine transports)) observer
    ({ engine with verifications := engine.verifications.insert id stream }, .ok (.run id stream))

def handlePublishContracts (engine : Engine ρ ω) (body : Json) : Engine ρ ω × Except EngineError Result :=
  let numbered := { engine with nextPublication := engine.nextPublication + 1 }
  match host.publish body with
  | .error error => (engine, .error error)
  | .ok (.error message) => (spentStream numbered, .error (internal message))
  | .ok (.ok _) =>
    let id := publicationName (engine.nextPublication + 1)
    let (engine, stream) := openStream numbered none
    ({ engine with publications := engine.publications.insert id stream }, .ok (.run id stream))

def handleCreateRecording (engine : Engine ρ ω) (provider : Party) (maxOptions minEvidence : Option Nat) :
    Engine ρ ω × Except EngineError Result :=
  let id := recordingName (engine.nextRecording + 1)
  ({ engine with
    recordings := engine.recordings.insert id ⟨⟨provider.name, ⟨maxOptions.getD 8, minEvidence.getD 3⟩, []⟩, 0⟩
    nextRecording := engine.nextRecording + 1 }, .ok (.session id))

def handleObserve (engine : Engine ρ ω) (session : String) (observation : Observation) :
    Engine ρ ω × Except EngineError Result :=
  match engine.recordings session with
  | none => (engine, .error (sessionNotFound session))
  | some recording =>
    let recorder := recording.recorder.observe observation
    ({ engine with recordings := engine.recordings.insert session ⟨recorder, recording.observations + 1⟩ },
      .ok (.progress (recording.observations + 1) recorder.interactions.length))

def handleFinaliseRecording (engine : Engine ρ ω) (session : String) : Engine ρ ω × Except EngineError Result :=
  match engine.recordings session with
  | none => (engine, .error (sessionNotFound session))
  | some recording =>
    ({ engine with recordings := engine.recordings.remove session }, .ok (.providerShape (finish recording.recorder)))

/-! The requests of a consumer session. -/

def handleAddInteraction (engine : Engine ρ ω) (frame session : String) (held : Held) (interaction : Json)
    (converted : InteractionSpec → List (String × ShapePart) → Option Converted) (findings : List Json) :
    Option (Engine ρ ω × List Note) :=
  match host.accept held.scope.world interaction with
  | .ok (spec, rawParts) =>
    engine.withinThen session (.addInteraction spec rawParts (converted spec rawParts)) fun engine =>
      engine.answer frame
        (.ok (.handle (ConsumerSession.handleName held.system.session.nextHandle) findings))
  | .error err =>
    engine.withinThen session (.refuse (refusal interaction (addInteractionError err))) fun engine =>
      engine.answer frame (.error (addInteractionError err))

def handleAddPactInteraction (engine : Engine ρ ω) (frame session : String) (held : Held) (pact : Json) :
    Option (Engine ρ ω × List Note) :=
  match host.build pact with
  | .ok built =>
    handleAddInteraction host engine frame session held built.spec
      (fun spec rawParts => some (built.converted spec rawParts)) built.findings
  | .error problems =>
    engine.withinThen session (.refuse (refusal (builtDescription pact) (interactionInvalid problems))) fun engine =>
      engine.answer frame (.error (interactionInvalid problems))

def handleVariants (engine : Engine ρ ω) (frame session : String) (held : Held) (handle : String)
    (policy : Option Json) : Option (Engine ρ ω × List Note) :=
  match held.system.session.interactions handle with
  | none => some (engine.answer frame (.error (handleNotFound handle)))
  | some entry =>
    match host.select held.policy policy entry with
    | .error err => some (engine.answer frame (.error (variantsError err)))
    | .ok (selected, selection) =>
      engine.withinThen session (.variants handle selected) fun engine => engine.answer frame (.ok (.selection selection))

/-- A transport the session's project declared, ahead of the embedding's own, is started under a number of its own, and
stopped again where nothing can drive it. -/
def handleStartTransport (engine : Engine ρ ω) (frame session : String) (held : Held) (transport : String)
    (options : Option Json) : Option (Engine ρ ω × List Note) :=
  match host.background with
  | none => some (engine.answer frame (.error (backgroundUnavailable "serve a transport")))
  | some spawn =>
    match (held.scope.transport transport).or (host.transports transport) with
    | none => some (engine.answer frame (.error (componentUnavailable transport)))
    | some component =>
      let number := engine.nextTransport + 1
      let engine := { engine with nextTransport := number }
      let name := Session.Interleaving.instanceName number
      match component.start name transport "serve" options with
      | .panicked => some (engine.answer frame (.error panicCaught))
      | .failed error => some (engine.answer frame (.error (componentFailed transport error)))
      | .done endpoint =>
        match spawn name with
        | .error message => some (engine.answer frame (.error (internal message)))
        | .ok _ =>
          engine.withinThen session (.startTransport transport number) fun engine =>
            engine.answer frame (.ok (.endpoint endpoint))

def handleServeVariant (engine : Engine ρ ω) (frame session : String) (held : Held) (handle variant : String) :
    Option (Engine ρ ω × List Note) :=
  let running := held.system.transports.map Session.Interleaving.TransportRun.kind
  let served := (held.system.session.serveVariant held.scope.world running handle variant).2
  engine.withinThen session (.serveVariant handle variant) fun engine =>
    ({ engine with handling := .serving frame session handle variant served }, [])

def handleReportVariant (engine : Engine ρ ω) (frame session : String) (held : Held) (handle variant status : String)
    (reason : Option String) : Option (Engine ρ ω × List Note) :=
  match held.system.session.reportRefused handle variant with
  | some err => some (engine.answer frame (.error (serveVariantError handle variant err)))
  | none =>
    engine.withinThen session (.reportVariant handle variant (.new status reason)) fun engine =>
      ({ engine with handling := .reporting frame session handle variant }, [])

/-- The session has ended either way: it leaves its table before its transports are stopped. -/
def handleFinalise (engine : Engine ρ ω) (frame session : String) (held : Held) (write : Option (String × Mode)) :
    Option (Engine ρ ω × List Note) :=
  { engine with
    sessions := engine.sessions.remove session
    handling := .finalising frame session held write }.within session .finalise

/-- What `finalise` answers once every transport of the session has stopped. -/
def finaliseAnswer (engine : Engine ρ ω) (held : Held) (write : Option (String × Mode)) : Except EngineError Result :=
  let session := held.system.session
  let refused := if session.verdictsRequired then some session.refused else none
  if write.isSome && host.writer.isNone then .error (componentUnavailable "contract-writer")
  else
    match contract held.scope.world session with
    | .error problems => .error (contractInvalid problems)
    | .ok none => .ok (.finalised (results session) .withheld refused)
    | .ok (some contract) =>
      match write, host.writer with
      | some (path, mode), some update =>
        (update path fun existing => nextBytes host.read path existing contract mode).map fun _ =>
          .finalised (results session) (.written path) refused
      | _, _ =>
        .ok (.finalised (results session)
          (if engine.contractText then .text (writeCanonical contract) else .contract contract) refused)

/-- A request that names a consumer session. -/
def naming (engine : Engine ρ ω) (frame session : String) (f : Held → Option (Engine ρ ω × List Note)) :
    Option (Engine ρ ω × List Note) :=
  match engine.sessions session with
  | none => some (engine.answer frame (.error (sessionNotFound session)))
  | some held => f held

/-! Polling. -/

def ended (engine : Engine ρ ω) (stream : String) : Bool :=
  (engine.streams stream).any fun system => system.inner.deliveredLast

/-- Delivery is what ends a stream, and the session it belongs to with it. -/
def prune (engine : Engine ρ ω) : Engine ρ ω :=
  { engine with
    streams := fun id => (engine.streams id).filter fun _ => !engine.ended id
    verifications := fun id => (engine.verifications id).filter fun stream => !engine.ended stream
    publications := fun id => (engine.publications id).filter fun stream => !engine.ended stream }

/-- Every named stream must be live. -/
def handlePoll (engine : Engine ρ ω) (frame : String) (streams : List String) (max : Option Nat) (waitMs : Nat) :
    Engine ρ ω × List Note :=
  match streams.find? fun stream => (engine.streams stream).isNone with
  | some stream => engine.answer frame (.error (streamNotFound stream))
  | none => ({ engine with handling := .polling frame streams streams (pollMax max) [] (decide (0 < waitMs)) }, [])

/-- One stream is drained, the pass starts once more where it came to nothing and the host waits, or the poll is over. -/
def pollStep [DecidableEq ρ] (engine : Engine ρ ω) (frame : String) (named left : List String) (max : Nat)
    (events : List Events.Stream.Event) (wait : Bool) : Option (Engine ρ ω × List Note) :=
  match left with
  | stream :: left =>
    if max ≤ events.length then some ({ engine with handling := .polling frame named [] max events wait }, [])
    else
      (engine.streams stream).bind fun system =>
        (engine.stream host stream (.drain (max - events.length))).map fun (engine, seen) =>
          ({ engine with
            handling := .polling frame named left max (events ++ system.inner.pending.take (max - events.length)) wait },
            seen)
  | [] =>
    if events.isEmpty && wait then some ({ engine with handling := .polling frame named named max [] false }, [])
    else some (engine.prune.answer frame (.ok (.events events)))

/-! The dispatch. -/

def handle (engine : Engine ρ ω) (frame : String) : Request → Option (Engine ρ ω × List Note)
  | .hello versions capabilities =>
    let (engine, result) := engine.handleHello host versions capabilities
    some (engine.answer frame result)
  | .shutdown =>
    let (engine, result) := engine.handleShutdown
    some (engine.answer frame result)
  | .create config =>
    let (engine, result) := engine.handleCreate host config
    some (engine.answer frame result)
  | .addInteraction session interaction =>
    engine.naming frame session fun held =>
      engine.handleAddInteraction host frame session held interaction (fun _ _ => none) []
  | .addPactInteraction session pact =>
    engine.naming frame session fun held => engine.handleAddPactInteraction host frame session held pact
  | .variants session handle policy =>
    engine.naming frame session fun held => engine.handleVariants host frame session held handle policy
  | .startTransport session transport options =>
    engine.naming frame session fun held => engine.handleStartTransport host frame session held transport options
  | .serveVariant session handle variant =>
    engine.naming frame session fun held => engine.handleServeVariant frame session held handle variant
  | .reportVariant session handle variant status reason =>
    engine.naming frame session fun held => engine.handleReportVariant frame session held handle variant status reason
  | .finalise session write =>
    match (write.map fun write => (parseMode write.mode).map fun mode => (write.path, mode)) with
    | some (.error error) => some (engine.answer frame (.error error))
    | some (.ok write) => engine.naming frame session fun held => engine.handleFinalise frame session held (some write)
    | none => engine.naming frame session fun held => engine.handleFinalise frame session held none
  | .verify body =>
    let (engine, result) := engine.handleVerify host body
    some (engine.answer frame result)
  | .publishContracts body =>
    let (engine, result) := engine.handlePublishContracts host body
    some (engine.answer frame result)
  | .createRecording provider maxOptions minEvidence =>
    let (engine, result) := engine.handleCreateRecording provider maxOptions minEvidence
    some (engine.answer frame result)
  | .observe session observation =>
    let (engine, result) := engine.handleObserve session observation
    some (engine.answer frame result)
  | .finaliseRecording session =>
    let (engine, result) := engine.handleFinaliseRecording session
    some (engine.answer frame result)
  | .document op body =>
    some (engine.answer frame ((host.document op engine.segments engine.contractText body).map .document))
  | .poll streams max waitMs => some (engine.handlePoll frame streams max waitMs)
  | .unsupported op => some (engine.answer frame (.error (operationUnsupported op)))
  | .malformed _ message => some (engine.answer frame (.error (malformedFrame message)))

def dispatch (engine : Engine ρ ω) : Frame → Option (Engine ρ ω × List Note)
  | .notJson message =>
    some (engine.answer "" (.error (malformedFrame ("frame body is not valid JSON (" ++ message ++ ")"))))
  | .notRequest id => some (engine.answer id (.error (malformedFrame "frame 'type' must be 'request' on this pipe")))
  | .unreadable id message => some (engine.answer id (.error (malformedFrame message)))
  | .request id request =>
    if engine.shutDown then some (engine.answer id (.error engineShutDown))
    else if !request.isHello && !engine.helloDone then some (engine.answer id (.error handshakeRequired))
    else engine.handle host id request

/-- The frame being answered goes a step on. -/
def advance [DecidableEq ρ] (engine : Engine ρ ω) : Option (Engine ρ ω × List Note) :=
  match engine.handling with
  | .idle => none
  | .serving frame session handle variant served =>
    (engine.sessions session).bind fun held =>
      match held.system.dispatch with
      | .arming _ _ => engine.within session .arm
      | _ => some (engine.answer frame (match served with
          | .ok (.handed parts) => .ok (.parts parts)
          | .ok (.armed _) => .ok .nothing
          | .error err => .error (serveVariantError handle variant err)))
  | .reporting frame session handle variant =>
    (engine.sessions session).bind fun held =>
      match held.system.dispatch with
      | .settling _ _ _ (_ :: _) _ _ => engine.within session .settle
      | _ =>
        engine.withinThen session .answer fun engine =>
          engine.answer frame (match (engine.sessions session).bind fun held =>
              (held.system.session.interactions handle).map fun entry =>
                variantResult held.system.session entry variant with
            | some result => .ok (.variant result)
            | none => .error panicCaught)
  | .finalising frame session held write =>
    match held.system.dispatch with
    | .finalised => some (engine.answer frame (engine.finaliseAnswer host held write))
    | _ => engine.within session .drain
  | .polling frame named left max events wait => engine.pollStep host frame named left max events wait

def move [DecidableEq ρ] (engine : Engine ρ ω) : Act ρ → Option (Engine ρ ω × List Note)
  | .frame frame => if engine.handling.isIdle then engine.dispatch host frame else none
  | .advance => engine.advance host
  | .beside session beside => engine.within session beside.event
  | .produce stream produce => engine.stream host stream produce.act

end Engine

variable {ρ ω : Type} [DecidableEq ρ]

def step (host : Host ω) (engine : Engine ρ ω) (act : Act ρ) : Option (Engine ρ ω) := (engine.move host act).map Prod.fst

def notes (host : Host ω) (engine : Engine ρ ω) (act : Act ρ) : List Note := (engine.move host act).elim [] Prod.snd

end PactJanus.Protocol.Dispatcher
