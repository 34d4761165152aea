import PactJanus.Legacy.Steps
import PactJanus.Lib.SortedMap
import PactJanus.Lib.Text
import PactJanus.Lib.Utf8

namespace PactJanus.Legacy.Parts

open PactJanus.Data.Json PactJanus.Lib PactJanus.Lib.Text PactJanus.Contracts.Files PactJanus.Legacy.Steps

/-! An interaction in the making, and what a call does to a part of it. -/

/-- What stops the program itself. -/
inductive Fault where
  | unreachable (message : String)
  | missing (message : String)
  | overflow | capacityOverflow | outOfBounds
deriving DecidableEq

/-- How many texts a list can have room for, each of 24 octets. -/
def capacity : Nat := (2 ^ 63 - 1) / 24

theorem one_le_capacity : 1 ≤ capacity := by decide

abbrev Values (α : Type) := { values : List α // values.length ≤ capacity }

def Values.empty {α : Type} : Values α := ⟨[], Nat.zero_le _⟩

/-- A list with room for an index. -/
def resized {α : Type} (values : Values α) (index : UInt64) (filler : α) : Except Fault (Values α) :=
  if index.toNat < values.1.length then .ok values
  else if index.toNat + 1 = 2 ^ 64 then .error .overflow
  else if h : (values.1 ++ List.replicate (index.toNat + 1 - values.1.length) filler).length ≤ capacity then .ok ⟨_, h⟩
  else .error .capacityOverflow

def putAt {α : Type} (values : Values α) (index : UInt64) (v : α) : Except Fault (Values α) :=
  if index.toNat < values.1.length then .ok ⟨values.1.set index.toNat v, by rw [List.length_set]; exact values.2⟩
  else .error .outOfBounds

/-- One value put at an index, the places before it filled. -/
def placed {α : Type} (values : Values α) (index : UInt64) (filler v : α) : Except Fault (Values α) :=
  (resized values index filler).bind fun room => putAt room index v

inductive Token where
  | root | field (name : String) | index (index : UInt64)
deriving DecidableEq

abbrev DocPath := List Token

inductive Rule where
  | contentType (contentType : String) | regex (pattern : String)
deriving DecidableEq

inductive PactSpecification where
  | v2 | v3 | v4
deriving DecidableEq

inductive OptionalBody (C : Type) where
  | missing | empty | null
  | present (bytes : List UInt8) (contentType : Option C)

structure ProviderState where
  name : String
  params : OrderedMap String Json

abbrev Headers := OrderedMap String (Values String)

/-- What a request and a response both have. -/
structure HttpPart (R G C : Type) where
  headers : Option Headers
  body : OptionalBody C
  matchingRules : R
  generators : G

structure HttpRequest (R G C : Type) extends HttpPart R G C where
  method : String
  path : String
  query : Option (OrderedMap String (Values (Option String)))

structure HttpResponse (R G C : Type) extends HttpPart R G C where
  status : UInt16

structure MessageContents (R G C : Type) where
  contents : OptionalBody C
  metadata : OrderedMap String Json
  matchingRules : R
  generators : G

structure SynchronousHttp (R G C : Type) where
  description : String
  providerStates : List ProviderState
  request : HttpRequest R G C
  response : HttpResponse R G C

structure AsynchronousMessage (R G C : Type) where
  description : String
  providerStates : List ProviderState
  contents : MessageContents R G C

structure SynchronousMessage (R G C : Type) where
  description : String
  providerStates : List ProviderState
  request : MessageContents R G C
  response : List (MessageContents R G C)

inductive Building (R G C : Type) where
  | http (http : SynchronousHttp R G C)
  | asynchronous (message : AsynchronousMessage R G C)
  | synchronous (message : SynchronousMessage R G C)

/-- The rules and generators a value is read into, and the problems it has. -/
structure Ledger (R G : Type) where
  rules : R
  generators : G
  problems : List String

/-- The documents, rules, generators, media types and headers of the pact library, and the reading of bodies with
matchers in them. -/
structure Ffi (R G C : Type) where
  noRules : R
  noGenerators : G
  mergeRules : R → R → R
  addGenerators : G → G → G
  matchersFromJson : Json → Except String R
  generatorsFromJson : Json → Except String G
  addCategory : R → String → R
  addRule : R → String → DocPath → Rule → R
  parseJson : String → Option Json
  processObject : String → DocPath → List (String × Json) → Ledger R G → Json × Ledger R G
  processArray : String → DocPath → Bool → List Json → Ledger R G → List Json × Ledger R G
  addMatchers : String → DocPath → UInt64 → List (String × Json) → Ledger R G → Ledger R G
  generateXmlBody : List (String × Json) → R → G → Except String (List UInt8) × R × G
  processFormUrlencodedJson : String → Ledger R G → String × Ledger R G
  parseContentType : String → Option C
  contentTypeFrom : String → C
  contentTypeText : C → String
  isJson : C → Bool
  isXml : C → Bool
  isText : C → Bool
  isFormUrlencoded : C → Bool
  plainText : C
  detectContentType : String → Option C
  partContentType : HttpPart R G C → Option C
  messageContentType : MessageContents R G C → Option C
  hasHeader : Option Headers → String → Bool
  setHeader : Option Headers → String → List String → Option Headers
  parseHeader : String → String → Values String
  parsePath : String → Option DocPath
  toLowercase : String → String
  keyOrder : (keys : List String) → { order : List String // order.Perm keys }

variable {R G C : Type} (ffi : Ffi R G C)

def jsonToString : Json → String
  | .string text => text
  | other => text other

/-! Values with matchers in them. -/

/-- A query value: an object is processed, anything else is the text as given. -/
def fromIntegrationJson (value : String) (path : DocPath) (category : String) (ledger : Ledger R G) :
    String × Ledger R G :=
  let ledger := { ledger with rules := ffi.addCategory ledger.rules category }
  match ffi.parseJson value with
  | some (.object map) =>
    let (result, ledger) := ffi.processObject category path map ledger
    (jsonToString result, ledger)
  | _ => (value, ledger)

def exampleOf (path : DocPath) (category : String) (map : List (String × Json)) (ledger : Ledger R G) :
    Json × Ledger R G :=
  match map.lookup "value" with
  | some (.array items) =>
    let (items, ledger) := ffi.processArray category path true items ledger
    (.array items, ledger)
  | some value => (value, ledger)
  | none => (.null, ledger)

/-- The example of a matcher, its rules and its generator recorded. -/
def matcherExample (path : DocPath) (category : String) (index : UInt64) (map : List (String × Json))
    (ledger : Ledger R G) : Json × Ledger R G :=
  let (example', ledger) := exampleOf ffi path category map ledger
  (example', ffi.addMatchers category path index map ledger)

/-- What an object stands for: the example of a matcher, or its value. -/
def objectValue (path : DocPath) (category : String) (index : UInt64) (map : List (String × Json)) (ledger : Ledger R G) :
    Json × Ledger R G :=
  if (map.lookup "pact:matcher:type").isSome then matcherExample ffi path category index map ledger
  else ((map.lookup "value").getD .null, ledger)

def oneOrSeveral : Json → String ⊕ List String
  | .array values => .inr (values.map jsonToString)
  | other => .inl (jsonToString other)

/-- A path, header or status value: one text, or several where its value is a list. -/
def fromIntegrationJsonV2 (value : String) (path : DocPath) (category : String) (index : UInt64) (ledger : Ledger R G) :
    (String ⊕ List String) × Ledger R G :=
  let ledger := { ledger with rules := ffi.addCategory ledger.rules category }
  match ffi.parseJson value with
  | some (.object map) =>
    let (result, ledger) := objectValue ffi path category index map ledger
    (oneOrSeveral result, ledger)
  | _ => (.inl value, ledger)

def first : String ⊕ List String → String
  | .inl value => value
  | .inr values => values.headD ""

def processJson (body : String) (ledger : Ledger R G) : String × Ledger R G :=
  let ledger := { ledger with rules := ffi.addCategory ledger.rules "body" }
  match ffi.parseJson body with
  | some (.object map) =>
    let (result, ledger) := ffi.processObject "body" [.root] map ledger
    (text result, ledger)
  | some (.array items) =>
    let (items, ledger) := ffi.processArray "body" [.root] false items ledger
    (text (.array items), ledger)
  | _ => (body, ledger)

/-- An XML body from the document that describes it. -/
def xmlBody (body : String) (ledger : Ledger R G) : List UInt8 × Ledger R G :=
  match ffi.parseJson body with
  | some (.object document) =>
    match ffi.generateXmlBody document (ffi.addCategory ledger.rules "body") ledger.generators with
    | (.ok bytes, rules, generators) => (bytes, ⟨rules, generators, ledger.problems⟩)
    | (.error message, rules, generators) => ([], ⟨rules, generators, ledger.problems ++ [message]⟩)
  | _ => ([], { ledger with problems := ledger.problems ++ ["an XML builder document is a JSON object"] })

/-- A body's text, processed by its content type: the call's, else the part's, else the one it looks to be of. -/
def processBody (body : String) (contentType hint : Option C) (ledger : Ledger R G) : OptionalBody C × Ledger R G :=
  if body.isEmpty then (.empty, ledger)
  else
    let detected := ffi.detectContentType body
    let contentType := ((contentType.or hint).or detected).getD ffi.plainText
    let describedAsJson := detected.any ffi.isJson
    let (bytes, ledger) :=
      if ffi.isJson contentType then
        let (result, ledger) := processJson ffi body ledger
        (Utf8.bytes result, ledger)
      else if ffi.isXml contentType && describedAsJson then xmlBody ffi body ledger
      else if ffi.isFormUrlencoded contentType && describedAsJson then
        let (result, ledger) := ffi.processFormUrlencodedJson body
          { ledger with rules := ffi.addCategory ledger.rules "body" }
        (Utf8.bytes result, ledger)
      else (Utf8.bytes body, ledger)
    (.present bytes (some contentType), ledger)

/-! Parts of an HTTP interaction. -/

def contentTypeHeader : String := "Content-Type"

def HttpPart.ledger (http : HttpPart R G C) : Ledger R G := ⟨http.matchingRules, http.generators, []⟩

def HttpPart.recorded (http : HttpPart R G C) (ledger : Ledger R G) : HttpPart R G C :=
  { http with matchingRules := ledger.rules, generators := ledger.generators }

def withQueryParameter (built : HttpRequest R G C) (name : String) (index : UInt64) (value : String) :
    Except Fault (HttpRequest R G C × List String) :=
  let (value, ledger) := fromIntegrationJson ffi value [.root, .field name, .index index] "query" built.toHttpPart.ledger
  let query := built.query.getD OrderedMap.empty
  (placed ((query.get name).getD Values.empty) index none (some value)).map fun values =>
    ({ built with toHttpPart := built.toHttpPart.recorded ledger, query := some (query.insert name values) },
      ledger.problems)

/-- A header that is there, with a value that may be several in the place of its first. -/
def overFirst (headers : Headers) (key value : String) (existing : Values String) : Except Fault Headers :=
  let parsed := ffi.parseHeader key value
  if existing.1.isEmpty then .ok (headers.insert key parsed)
  else if parsed.1.isEmpty then (putAt existing 0 "").map (headers.insert key)
  else if parsed.1.length = 1 then (putAt existing 0 value).map (headers.insert key)
  else .ok (headers.insert key parsed)

/-- A header's values with one put at a later place, or in the first. -/
def headerValue (headers : Headers) (name : String) (index : UInt64) (value : String) : Except Fault Headers :=
  let lookup := ffi.toLowercase name
  let key := (ffi.keyOrder (headers.entries.map Prod.fst)).1.find? fun key => ffi.toLowercase key == lookup
  if 0 < index then
    let entry := key.getD name
    (placed ((headers.get entry).getD Values.empty) index "" value).map (headers.insert entry)
  else match key with
    | some key =>
      match headers.get key with
      | none => .error (.missing "the key was found above")
      | some existing => overFirst ffi headers key value existing
    | none => .ok (headers.insert name (ffi.parseHeader name value))

def withHeader (http : HttpPart R G C) (name : String) (index : UInt64) (value : String) :
    Except Fault (HttpPart R G C × List String) :=
  let path := [.root, .field name] ++ (if 0 < index then [.index index] else [])
  let (value, ledger) := fromIntegrationJsonV2 ffi value path "header" index http.ledger
  let http := http.recorded ledger
  match value with
  | .inr values => .ok ({ http with headers := ffi.setHeader http.headers name values }, ledger.problems)
  | .inl value =>
    (headerValue ffi (http.headers.getD OrderedMap.empty) name index value).map fun headers =>
      ({ http with headers := some headers }, ledger.problems)

def withBody (http : HttpPart R G C) (body : String) (contentType : Option C) : HttpPart R G C × List String :=
  let (processed, ledger) := processBody ffi body contentType (ffi.partContentType http) http.ledger
  let http := { http.recorded ledger with body := processed }
  match ffi.partContentType http with
  | some contentType =>
    let headers := http.headers.getD OrderedMap.empty
    let value := (headers.get contentTypeHeader).getD ⟨[ffi.contentTypeText contentType], one_le_capacity⟩
    ({ http with headers := some (headers.insert contentTypeHeader value) }, ledger.problems)
  | none => (http, ledger.problems)

/-- The content type as a header, where there is none. -/
def withContentTypeHeader (http : HttpPart R G C) (contentType : String) : HttpPart R G C :=
  if ffi.hasHeader http.headers contentTypeHeader then http
  else { http with
    headers := some ((http.headers.getD OrderedMap.empty).insert contentTypeHeader
      ⟨[contentType], one_le_capacity⟩) }

def contentTypeRule (rules : R) (contentType : String) : R := ffi.addRule rules "body" [.root] (.contentType contentType)

def withBinaryFile (http : HttpPart R G C) (contentType : String) (body : List UInt8) (rule : Bool) : HttpPart R G C :=
  let http := { http with body := if body.isEmpty then .empty else .present body none }
  let http := withContentTypeHeader ffi http contentType
  if rule then { http with matchingRules := contentTypeRule ffi http.matchingRules contentType } else http

def binaryBody (contentType : Option String) (body : List UInt8) : OptionalBody C × String :=
  let contentType := contentType.getD "application/octet-stream"
  (if body.isEmpty then .empty else .present body (ffi.parseContentType contentType), contentType)

def withBinaryBody (http : HttpPart R G C) (contentType : Option String) (body : List UInt8) (header : Bool) :
    HttpPart R G C :=
  let (body, contentType) := binaryBody ffi contentType body
  let http := { http with body }
  if header then withContentTypeHeader ffi http contentType else http

/-! Files in a multipart body. -/

def isMarkerChar (c : Char) : Bool := c.isAlphanum || "'()+_,-./:=? ".toList.contains c

/-- What stands between two dashes and the line's end, where the text begins so. -/
def markerHere : List Char → Option (List Char)
  | '-' :: '-' :: rest =>
    if "\r\n".toList.isPrefixOf (rest.dropWhile isMarkerChar) then some (rest.takeWhile isMarkerChar) else none
  | _ => none

/-- The first marker of a text. -/
def marker : List Char → Option (List Char)
  | [] => none
  | c :: rest => (markerHere (c :: rest)).or (marker rest)

/-- The last part of a file's path. -/
def fileName (file : String) : Option String :=
  (((split '/' file).filter fun segment => segment != "" && segment != ".").getLast?).filter (· != "..")

def fnvPrime : UInt64 := 0x100000001b3

def fnv (octets : List UInt8) : UInt64 := octets.foldl (fun hash b => (hash ^^^ b.toUInt64) * fnvPrime) 0xcbf29ce484222325

/-- Sixteen digits of a number to the base sixteen. -/
def hex16 (n : UInt64) : String := String.ofList ((List.range 16).map fun i => hexDigit (n.toNat / 16 ^ (15 - i) % 16))

def derivedBoundary (file : MultipartFile) : String :=
  hex16 (fnv (Utf8.bytes file.partName ++ [0] ++ Utf8.bytes file.file ++ [0] ++ file.contents))

/-- A file as a part: its headers, an empty line, its octets and a line's end. -/
def filePart (file : MultipartFile) : List UInt8 :=
  Utf8.bytes ("Content-Disposition: form-data; name=\"" ++ file.partName ++ "\"; filename=\"" ++
    (fileName file.file).getD file.file ++ "\"\r\nContent-Type: " ++ file.contentType ++ "\r\n\r\n") ++
    file.contents ++ Utf8.bytes "\r\n"

def opening (boundary : String) : List UInt8 := Utf8.bytes ("--" ++ boundary ++ "\r\n")

def ending (boundary : String) : List UInt8 := Utf8.bytes ("--" ++ boundary ++ "--\r\n")

/-- A body without the end it has, or as it is. -/
def stripEnd (suffix bytes : List UInt8) : List UInt8 :=
  if suffix.isSuffixOf bytes then bytes.take (bytes.length - suffix.length) else bytes

/-- A body that has a marker, with the marker. -/
def existingMultipart (http : HttpPart R G C) : Option (List UInt8 × String) :=
  match http.body with
  | .present bytes _ => (marker (Utf8.lossy bytes).toList).map fun found => (bytes, String.ofList found)
  | _ => none

def bodyContentType : OptionalBody C → Option C
  | .present _ contentType => contentType
  | _ => none

def multipartPattern : String := "multipart/form-data;(\\s*charset=[^;]*;)?\\s*boundary=.*"

/-- A file added to a multipart body, or put in one of its own. -/
def withMultipartFile (http : HttpPart R G C) (file : MultipartFile) : HttpPart R G C :=
  let boundary := file.boundary.getD (derivedBoundary file)
  let http := match existingMultipart http with
    | some (bytes, marker) =>
      { http with
        body := .present (stripEnd (ending marker) bytes ++ opening marker ++ filePart file ++ ending marker)
          (bodyContentType http.body) }
    | none =>
      { http with
        headers := ffi.setHeader http.headers contentTypeHeader ["multipart/form-data; boundary=" ++ boundary]
        body := .present (opening boundary ++ filePart file ++ ending boundary)
          (some (ffi.contentTypeFrom "multipart/form-data"))
        matchingRules := ffi.addRule http.matchingRules "header" [.field contentTypeHeader] (.regex multipartPattern) }
  { http with
    matchingRules := ffi.addRule http.matchingRules "body" [.root, .field file.partName] (.contentType file.contentType) }

/-! Messages. -/

def messageContentTypeMember : String := "contentType"

namespace MessageContents

def ledger (contents : MessageContents R G C) : Ledger R G := ⟨contents.matchingRules, contents.generators, []⟩

def recorded (contents : MessageContents R G C) (ledger : Ledger R G) : MessageContents R G C :=
  { contents with matchingRules := ledger.rules, generators := ledger.generators }

end MessageContents

def noContents : MessageContents R G C := ⟨.missing, OrderedMap.empty, ffi.noRules, ffi.noGenerators⟩

def messageBody (contents : MessageContents R G C) (contentType : Option String) (body : String) :
    MessageContents R G C × List String :=
  let (processed, ledger) := processBody ffi body (contentType.bind ffi.parseContentType) none contents.ledger
  let contents := { contents.recorded ledger with contents := processed }
  match ffi.messageContentType contents with
  | some contentType =>
    let value := (contents.metadata.get messageContentTypeMember).getD (.string (ffi.contentTypeText contentType))
    ({ contents with metadata := contents.metadata.insert messageContentTypeMember value }, ledger.problems)
  | none => (contents, ledger.problems)

def messageBinary (contents : MessageContents R G C) (contentType : String) (body : List UInt8)
    (specification : PactSpecification) : MessageContents R G C :=
  { contents with
    contents := if body.isEmpty then .empty else .present body none
    matchingRules :=
      if specification = .v2 then contents.matchingRules else contentTypeRule ffi contents.matchingRules contentType
    metadata := contents.metadata.insert messageContentTypeMember (.string contentType) }

def messageBinaryBody (contents : MessageContents R G C) (contentType : Option String) (body : List UInt8) :
    MessageContents R G C :=
  let (body, contentType) := binaryBody ffi contentType body
  { contents with
    contents := body
    metadata := contents.metadata.insert messageContentTypeMember (.string contentType) }

def givenText : Contents → String
  | .text text => text
  | .octets octets => Utf8.lossy octets

def givenOctets : Contents → List UInt8
  | .text text => Utf8.bytes text
  | .octets octets => octets

def messageWithContents (contents : MessageContents R G C) (contentType : Option String) (given : Contents) :
    MessageContents R G C × List String :=
  match ffi.parseContentType (contentType.getD "text/plain") with
  | some contentType =>
    let ledger := { contents.ledger with rules := ffi.addCategory contents.matchingRules "body" }
    let (bytes, ledger) :=
      if ffi.isXml contentType then xmlBody ffi (givenText given) ledger
      else if ffi.isText contentType || ffi.isJson contentType then
        let (result, ledger) := processJson ffi (givenText given) ledger
        (Utf8.bytes result, ledger)
      else (givenOctets given, ledger)
    ({ contents.recorded ledger with contents := .present bytes (some contentType) }, ledger.problems)
  | none => ({ contents with contents := .present (givenOctets given) none }, [])

def messageWithMetadata (contents : MessageContents R G C) (name value : String) : MessageContents R G C × List String :=
  match ffi.parsePath name with
  | none => (contents, ["the metadata name '" ++ name ++ "' is not one the FFI can write a rule for"])
  | some path =>
    let ledger := { contents.ledger with rules := ffi.addCategory contents.matchingRules "metadata" }
    let (value, ledger) := match ffi.parseJson value with
      | some (.object map) => ffi.processObject "metadata" path map ledger
      | some (.array items) =>
        let (items, ledger) := ffi.processArray "metadata" path false items ledger
        (.array items, ledger)
      | some json => (json, ledger)
      | none => (.string value, ledger)
    ({ contents.recorded ledger with metadata := contents.metadata.insert name value }, ledger.problems)

end PactJanus.Legacy.Parts
