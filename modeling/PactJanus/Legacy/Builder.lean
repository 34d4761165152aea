import PactJanus.Legacy.Parts

namespace PactJanus.Legacy.Builder

open PactJanus.Data.Json PactJanus.Lib PactJanus.Lib.Text PactJanus.Contracts.Files PactJanus.Legacy.Steps
open PactJanus.Legacy.Parts

/-! The interaction a pact's steps build. -/

variable {R G C : Type} (ffi : Ffi R G C)

def readRules (rules : List (String × Json)) : Except String R :=
  let rules := if (rules.lookup "matchingRules").isSome then Json.object rules
    else .object [("matchingRules", .object rules)]
  (ffi.matchersFromJson rules).mapError ("the matching rules cannot be read: " ++ ·)

def readGenerators (generators : List (String × Json)) : Except String G :=
  let generators := if (generators.lookup "generators").isSome then Json.object generators
    else .object [("generators", .object generators)]
  (ffi.generatorsFromJson generators).mapError ("the generators cannot be read: " ++ ·)

def partOf (built : SynchronousHttp R G C) : Part → HttpPart R G C
  | .request => built.request.toHttpPart
  | .response => built.response.toHttpPart

def setPart (built : SynchronousHttp R G C) (http : HttpPart R G C) : Part → SynchronousHttp R G C
  | .request => { built with request := { built.request with toHttpPart := http } }
  | .response => { built with response := { built.response with toHttpPart := http } }

/-- A synchronous message with one of its parts changed: its request, or one more response. -/
def withPart (message : SynchronousMessage R G C) (part : Part)
    (change : MessageContents R G C → MessageContents R G C × List String) : SynchronousMessage R G C × List String :=
  match part with
  | .request =>
    let (request, problems) := change message.request
    ({ message with request }, problems)
  | .response =>
    let (response, problems) := change (noContents ffi)
    ({ message with response := message.response ++ [response] }, problems)

/-- A synchronous message with its request, or every response it has, changed. -/
def withParts (message : SynchronousMessage R G C) (part : Part)
    (change : MessageContents R G C → MessageContents R G C) : SynchronousMessage R G C :=
  match part with
  | .request => { message with request := change message.request }
  | .response => { message with response := message.response.map change }

/-- A status as the text of a number of 16 bits, or 0. -/
def statusOf (status : String) : UInt16 := ((parseUnsigned status.toList).filter (· < 2 ^ 16)).elim 0 UInt16.ofNat

def applyToHttp (specification : PactSpecification) (built : SynchronousHttp R G C) :
    Step → Except Fault (SynchronousHttp R G C × List String)
  | .withRequest method path =>
    let (path, ledger) := fromIntegrationJsonV2 ffi path [] "path" 0 built.request.toHttpPart.ledger
    let request := { built.request with toHttpPart := built.request.toHttpPart.recorded ledger, method, path := first path }
    .ok ({ built with request }, ledger.problems)
  | .withQueryParameter name index value =>
    (withQueryParameter ffi built.request name index value).map fun (request, problems) =>
      ({ built with request }, problems)
  | .withHeader part name index value =>
    (withHeader ffi (partOf built part) name index value).map fun (http, problems) => (setPart built http part, problems)
  | .responseStatus status =>
    let (status, ledger) := fromIntegrationJsonV2 ffi status [] "status" 0 built.response.toHttpPart.ledger
    let response := { built.response with
      toHttpPart := built.response.toHttpPart.recorded ledger, status := statusOf (first status) }
    .ok ({ built with response }, ledger.problems)
  | .withBody part contentType body =>
    let (http, problems) := withBody ffi (partOf built part) body (contentType.bind ffi.parseContentType)
    .ok (setPart built http part, problems)
  | .withBinaryFile part contentType body =>
    .ok (setPart built (withBinaryFile ffi (partOf built part) contentType body (specification != .v2)) part, [])
  | .withMatchingRules part rules =>
    match readRules ffi rules with
    | .ok rules =>
      let http := partOf built part
      .ok (setPart built { http with matchingRules := ffi.mergeRules http.matchingRules rules } part, [])
    | .error message => .ok (built, [message])
  | .withBinaryBody part contentType body header =>
    .ok (setPart built (withBinaryBody ffi (partOf built part) contentType body header) part, [])
  | .withGenerators part generators =>
    match readGenerators ffi generators with
    | .ok generators =>
      let http := partOf built part
      .ok (setPart built { http with generators := ffi.addGenerators http.generators generators } part, [])
    | .error message => .ok (built, [message])
  | .withMultipartFile file => .ok (setPart built (withMultipartFile ffi (partOf built file.part) file) file.part, [])
  | .begin .. | .description _ | .given .. | .messageWithContents .. | .messageWithMetadata .. =>
    .error (.unreachable "applied to any interaction, or refused, by `apply`")

def kind : Building R G C → String
  | .http _ => "an HTTP interaction"
  | .asynchronous _ => "an asynchronous message"
  | .synchronous _ => "a synchronous message"

def setDescription (description : String) : Building R G C → Building R G C
  | .http built => .http { built with description }
  | .asynchronous message => .asynchronous { message with description }
  | .synchronous message => .synchronous { message with description }

def addState (state : ProviderState) : Building R G C → Building R G C
  | .http built => .http { built with providerStates := built.providerStates ++ [state] }
  | .asynchronous message => .asynchronous { message with providerStates := message.providerStates ++ [state] }
  | .synchronous message => .synchronous { message with providerStates := message.providerStates ++ [state] }

/-- A provider state's parameters: the members of an object, or the one value there is. -/
def stateParams (params : Option Json) : OrderedMap String Json :=
  match params with
  | none => OrderedMap.empty
  | some (.object members) => members.foldl (fun map member => map.insert member.1 member.2) OrderedMap.empty
  | some other => OrderedMap.empty.insert "value" other

def apply (specification : PactSpecification) (step : Step) (built : Building R G C) :
    Except Fault (Building R G C × List String) :=
  match step, built with
  | .begin .., _ => .error (.unreachable "a step that begins an interaction is applied by `build`")
  | .description description, built => .ok (setDescription description built, [])
  | .given name params, built => .ok (addState ⟨name, stateParams params⟩ built, [])
  | .withBody _ contentType body, .asynchronous message =>
    let (contents, problems) := messageBody ffi message.contents contentType body
    .ok (.asynchronous { message with contents }, problems)
  | .withBody part contentType body, .synchronous message =>
    let (message, problems) := withPart ffi message part fun contents => messageBody ffi contents contentType body
    .ok (.synchronous message, problems)
  | .withBinaryFile _ contentType body, .asynchronous message =>
    .ok (.asynchronous { message with contents := messageBinary ffi message.contents contentType body specification }, [])
  | .withBinaryFile part contentType body, .synchronous message =>
    let (message, problems) := withPart ffi message part fun contents =>
      (messageBinary ffi contents contentType body specification, [])
    .ok (.synchronous message, problems)
  | .withMatchingRules _ rules, .asynchronous message =>
    match readRules ffi rules with
    | .ok rules =>
      let contents := message.contents
      .ok (.asynchronous { message with
        contents := { contents with matchingRules := ffi.mergeRules contents.matchingRules rules } }, [])
    | .error problem => .ok (.asynchronous message, [problem])
  | .withMatchingRules part rules, .synchronous message =>
    match readRules ffi rules with
    | .ok rules =>
      .ok (.synchronous (withParts message part fun contents =>
        { contents with matchingRules := ffi.mergeRules contents.matchingRules rules }), [])
    | .error problem => .ok (.synchronous message, [problem])
  | .withBinaryBody _ contentType body _, .asynchronous message =>
    .ok (.asynchronous { message with contents := messageBinaryBody ffi message.contents contentType body }, [])
  | .withBinaryBody part contentType body _, .synchronous message =>
    let (message, problems) := withPart ffi message part fun contents =>
      (messageBinaryBody ffi contents contentType body, [])
    .ok (.synchronous message, problems)
  | .withGenerators _ generators, .asynchronous message =>
    match readGenerators ffi generators with
    | .ok generators =>
      let contents := message.contents
      .ok (.asynchronous { message with
        contents := { contents with generators := ffi.addGenerators contents.generators generators } }, [])
    | .error problem => .ok (.asynchronous message, [problem])
  | .withGenerators part generators, .synchronous message =>
    match readGenerators ffi generators with
    | .ok generators =>
      .ok (.synchronous (withParts message part fun contents =>
        { contents with generators := ffi.addGenerators contents.generators generators }), [])
    | .error problem => .ok (.synchronous message, [problem])
  | .messageWithContents contentType given, .asynchronous message =>
    let (contents, problems) := messageWithContents ffi message.contents contentType given
    .ok (.asynchronous { message with contents }, problems)
  | .messageWithMetadata name value, .asynchronous message =>
    let (contents, problems) := messageWithMetadata ffi message.contents name value
    .ok (.asynchronous { message with contents }, problems)
  | .messageWithMetadata .., .synchronous message => .ok (.synchronous message, [])
  | step@(.messageWithContents ..), built | step@(.messageWithMetadata ..), built =>
    .ok (built, ["'" ++ step.call ++ "' builds an asynchronous message, and these steps build " ++ kind built])
  | step, .http http =>
    (applyToHttp ffi specification http step).map fun (http, problems) => (.http http, problems)
  | step, built => .ok (built, ["'" ++ step.call ++ "' builds an HTTP interaction, and these steps build " ++ kind built])

def emptyPart : HttpPart R G C := ⟨none, .missing, ffi.noRules, ffi.noGenerators⟩

def emptyHttp : SynchronousHttp R G C where
  description := ""
  providerStates := []
  request := { emptyPart ffi with method := "GET", path := "/", query := none }
  response := { emptyPart ffi with status := 200 }

def begin' (kind : MessageKind) (description : String) : Building R G C :=
  match kind with
  | .asynchronous => .asynchronous ⟨description, [], noContents ffi⟩
  | .synchronous => .synchronous ⟨description, [], noContents ffi, []⟩

/-- One step after those before it, with the problems found so far. -/
def buildStep (specification : PactSpecification) (state : Building R G C × List Problem) (entry : Json × Nat) :
    Except Fault (Building R G C × List Problem) :=
  let (built, problems) := state
  let (step, index) := entry
  let at' := "/pact/steps/" ++ index.repr
  match Step.read step at' with
  | .ok (.begin kind description) =>
    if index = 0 then .ok (begin' ffi kind description, problems)
    else .ok (built, problems ++
      [⟨at' ++ "/call", "a call that begins an interaction is the first step, and only the first"⟩])
  | .ok step =>
    (apply ffi specification step built).map fun (built, found) =>
      (built, problems ++ found.map fun message => ⟨at', message⟩)
  | .error problem => .ok (built, problems ++ [problem])

def specificationOf (form : List (String × Json)) : Except Problem PactSpecification :=
  match form.lookup "specification" with
  | none => .ok .v4
  | some (.string version) =>
    match version with
    | "V2" => .ok .v2
    | "V3" => .ok .v3
    | "V4" => .ok .v4
    | _ => .error ⟨"/pact/specification", "'" ++ version ++ "' is not V2, V3 or V4"⟩
  | some other => .error ⟨"/pact/specification", text other ++ " is not V2, V3 or V4"⟩

/-- The interaction a pact's steps build, or every problem with them. -/
def build (pact : Json) : Except Fault (Except (List Problem) (Building R G C)) :=
  match asObject pact with
  | none => .ok (.error [⟨"/pact", "'pact' is not an object of 'specification' and 'steps'"⟩])
  | some form =>
    match specificationOf form with
    | .error problem => .ok (.error [problem])
    | .ok specification =>
      match form.lookup "steps" with
      | some (.array steps) =>
        (steps.zipIdx.foldlM (buildStep ffi specification) (.http (emptyHttp ffi), [])).map fun (built, problems) =>
          if problems.isEmpty then .ok built else .error problems
      | _ => .ok (.error [⟨"/pact/steps", "'steps' is missing or not a list"⟩])

end PactJanus.Legacy.Builder
