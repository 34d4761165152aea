import PactJanus.Contracts.Model
import PactJanus.Lib.Base64
import PactJanus.Lib.Multimap
import PactJanus.Lib.Text
import PactJanus.Lib.Utf8

namespace PactJanus.Http.Message

open PactJanus.Data.Json PactJanus.Lib PactJanus.Lib.Text PactJanus.Contracts.Model

/-! HTTP requests, the part a mock records of one and the request a driver makes of a part. -/

def isTokenChar (c : Char) : Bool := c.isAlphanum || "!#$%&'*+-.^_`|~".toList.contains c

abbrev Method := { text : String // text ≠ "" ∧ text.toList.all isTokenChar = true }

def methodFromBytes (text : String) : Option Method :=
  if h : text ≠ "" ∧ text.toList.all isTokenChar = true then some ⟨text, h⟩ else none

/-- A header's name, in lower case. -/
@[ext]
structure HeaderName where
  text : String
  valid : text ≠ "" ∧ text.length < 65536 ∧ text.toList.all (fun c => isTokenChar c && !c.isUpper) = true
deriving DecidableEq

def headerNameFromBytes (text : String) : Option HeaderName :=
  let folded := toAsciiLowercase text
  if h : folded ≠ "" ∧ folded.length < 65536 ∧ folded.toList.all (fun c => isTokenChar c && !c.isUpper) = true then
    some ⟨folded, h⟩
  else none

def isValueOctet (b : UInt8) : Bool := (32 ≤ b && b != 127) || b == 9

abbrev HeaderValue := { octets : List UInt8 // octets.all isValueOctet = true }

def headerValueFromBytes (octets : List UInt8) : Option HeaderValue :=
  if h : octets.all isValueOctet = true then some ⟨octets, h⟩ else none

/-- The values of every header, the headers in the order they first came in. -/
structure HeaderMap where
  entries : List (HeaderName × List HeaderValue)
  nodup : (entries.map Prod.fst).Nodup
  filled : ∀ p ∈ entries, p.2 ≠ []

namespace HeaderMap

def empty : HeaderMap := ⟨[], List.nodup_nil, nofun⟩

def append (headers : HeaderMap) (name : HeaderName) (value : HeaderValue) : HeaderMap :=
  ⟨Multimap.append name value headers.entries, Multimap.append_nodup headers.nodup name value,
    Multimap.append_filled headers.filled name value⟩

/-- A header with one value in the place of those it had. -/
def insert (headers : HeaderMap) (name : HeaderName) (value : HeaderValue) : HeaderMap :=
  if (headers.entries.lookup name).isSome then
    ⟨headers.entries.map fun (n, values) => (n, if n = name then [value] else values), by
      rw [List.map_map]
      exact headers.nodup, by
      intro p hp
      obtain ⟨entry, hentry, rfl⟩ := List.mem_map.1 hp
      dsimp only
      split
      · exact List.cons_ne_nil _ _
      · exact headers.filled entry hentry⟩
  else headers.append name value

def get (headers : HeaderMap) (name : HeaderName) : Option HeaderValue :=
  (headers.entries.lookup name).bind List.head?

def iter (headers : HeaderMap) : List (HeaderName × HeaderValue) := Multimap.pairsOf headers.entries

end HeaderMap

/-- The headers as text, octets that are none replaced. -/
def HeaderMap.texts (headers : HeaderMap) : List (String × String) :=
  headers.iter.map fun (name, value) => (name.1, Utf8.lossy value.1)

namespace HeaderMap

theorem get_insert (headers : HeaderMap) (name : HeaderName) (value : HeaderValue) (other : HeaderName) :
    (headers.insert name value).get other = if other = name then some value else headers.get other := by
  unfold get insert
  split
  · rename_i hpresent
    dsimp only
    rw [Lists.lookup_map_key fun n values => if n = name then [value] else values]
    by_cases hother : other = name
    · obtain ⟨values, hvalues⟩ := Option.isSome_iff_exists.1 hpresent
      rw [hother, hvalues, if_pos rfl]
      simp
    · rw [if_neg hother]
      cases headers.entries.lookup other with
      | none => rfl
      | some values => simp [hother]
  · rename_i habsent
    rw [append]
    dsimp only
    have hadds := Multimap.adds_append headers.entries (name, value) other
    dsimp only at hadds
    rw [hadds]
    by_cases hother : other = name
    · rw [if_pos hother, if_pos hother, hother, Option.not_isSome_iff_eq_none.1 habsent]
      rfl
    · rw [if_neg hother, if_neg hother]

/-- The value of a header once others are set one after another. -/
theorem get_foldl_insert (fields : List (HeaderName × HeaderValue)) (headers : HeaderMap) (name : HeaderName) :
    (fields.foldl (fun headers (name, value) => headers.insert name value) headers).get name =
      ((Multimap.valuesOf name fields).getLast?).or (headers.get name) := by
  induction fields generalizing headers with
  | nil => rfl
  | cons f rest ih =>
    rw [List.foldl_cons, ih, get_insert, Multimap.valuesOf_cons]
    by_cases hname : f.1 = name
    · rw [if_pos hname, if_pos hname.symm]
      cases h : Multimap.valuesOf name rest with
      | nil => rfl
      | cons v values =>
        rw [List.getLast?_cons_cons, List.getLast?_eq_getLast_of_ne_nil (List.cons_ne_nil v values)]
        rfl
    · rw [if_neg hname, if_neg (Ne.symm hname)]

theorem text_injective : Function.Injective HeaderName.text := fun _ _ h => HeaderName.ext h

theorem lookup_texts (headers : HeaderMap) (name : HeaderName) :
    headers.texts.lookup name.1 = (headers.get name).map fun value => Utf8.lossy value.1 := by
  rw [texts, iter, Lists.lookup_map_injective text_injective fun value : HeaderValue => Utf8.lossy value.1,
    Multimap.lookup_pairsOf headers.filled]
  rfl

end HeaderMap

def contentType : HeaderName := ⟨"content-type", by decide +kernel⟩

structure Uri where
  path : String
  query : Option String

structure Request where
  method : Method
  uri : Uri
  headers : HeaderMap
  body : List UInt8

/-- The form encoding of a query, and the reading of a URL. -/
structure Libraries where
  formParse : String → List (String × String)
  formSerialize : List (String × String) → String
  uri : String → Except String Uri

/-- How a slot of values by name treats the names. -/
inductive Names where
  | foldCase | asSent

def textSlot (text : String) : SlotValue := ⟨.string text, none, none⟩

def multiMapSlot (entries : List (String × String)) (names : Names) : SlotValue :=
  let named := match names with
    | .foldCase => entries.map fun (name, value) => (toAsciiLowercase name, value)
    | .asSent => entries
  ⟨.object ((Multimap.grouped named).map fun (name, values) => (name, .array (values.map .string))), none, none⟩

/-- A request as the slots of a part, in the order of their names. -/
def requestParts (libraries : Libraries) (request : Request) : ValuePart :=
  [("body", ⟨.string (Base64.encode request.body), some "base64",
      (request.headers.get contentType).map fun value => Utf8.lossy value.1⟩),
    ("headers", multiMapSlot request.headers.texts .foldCase),
    ("method", textSlot request.method.1),
    ("path", textSlot request.uri.path),
    ("query", multiMapSlot (libraries.formParse (request.uri.query.getD "")) .asSent)]

def strings (values : Json) : List String := ((asArray values).getD []).filterMap asStr

def queryString (libraries : Libraries) (slot : SlotValue) : String :=
  match slot.content with
  | .object query =>
    libraries.formSerialize (query.flatMap fun (name, values) => (strings values).map fun value => (name, value))
  | content => (asStr content).getD ""

def slotBytes (slot : SlotValue) : Except String (List UInt8) :=
  match slot.encoded with
  | some "base64" =>
    match asStr slot.content with
    | some text => (Base64.decode text).elim (.error "invalid base64") .ok
    | none => .error "a base64-tagged slot's content must be a string"
  | some "text" | none => .ok ((asStr slot.content).elim [] Utf8.bytes)
  | some other => .error ("unrecognised content encoding '" ++ other ++ "'")

def toAsciiUppercase (s : String) : String := String.ofList (s.toList.map Char.toUpper)

/-- Where a driver sends its requests, and the headers it adds to each. -/
structure DriveInstance where
  baseUrl : String
  headers : HeaderMap

def sentMethod (part : ValuePart) : Except String Method :=
  let method := toAsciiUppercase (((part.lookup "method").bind fun slot => asStr slot.content).getD "GET")
  (methodFromBytes method).elim (.error ("'" ++ method ++ "' is not an HTTP method")) .ok

/-- The URL of a request to a path, with the query there is. -/
def url (baseUrl path query : String) : String :=
  baseUrl ++ path ++ (if query.isEmpty then "" else "?" ++ query)

def sentUri (libraries : Libraries) (drive : DriveInstance) (part : ValuePart) : Except String Uri :=
  let path := ((part.lookup "path").bind fun slot => asStr slot.content).getD "/"
  let query := ((part.lookup "query").map (queryString libraries)).getD ""
  (libraries.uri (url drive.baseUrl path query)).mapError ("the request's URL " ++ ·)

def sentValues (name : String) (header : HeaderName) (values : List String) (headers : HeaderMap) :
    Except String HeaderMap :=
  values.foldlM (fun headers value =>
    match headerValueFromBytes (Utf8.bytes value) with
    | some value => .ok (headers.append header value)
    | none => .error ("the value of header '" ++ name ++ "' cannot be sent")) headers

def sentHeader (headers : HeaderMap) (entry : String × Json) : Except String HeaderMap :=
  match headerNameFromBytes entry.1 with
  | some header => sentValues entry.1 header (strings entry.2) headers
  | none => .error ("'" ++ entry.1 ++ "' is not a header name")

def sentHeaders (slot : List (String × Json)) : Except String HeaderMap := slot.foldlM sentHeader HeaderMap.empty

/-- The body's own content type, where the headers have none. -/
def withContentType (contentTypeOf : Option String) (headers : HeaderMap) : HeaderMap :=
  match contentTypeOf.bind fun text => headerValueFromBytes (Utf8.bytes text) with
  | some value => if (headers.get contentType).isSome then headers else headers.insert contentType value
  | none => headers

/-- A part as a request: the method, the base URL and the path, the query encoded again, every value of every header,
the driver's own headers over them. -/
def DriveInstance.request (libraries : Libraries) (drive : DriveInstance) (part : ValuePart) :
    Except String Request := do
  let method ← sentMethod part
  let uri ← sentUri libraries drive part
  let slot := ((part.lookup "headers").bind fun slot => asObject slot.content).getD []
  let headers ← sentHeaders slot
  let headers := drive.headers.iter.foldl (fun headers (name, value) => headers.insert name value) headers
  let headers := withContentType ((part.lookup "body").bind SlotValue.contentType) headers
  let body ← ((part.lookup "body").map slotBytes).getD (.ok [])
  .ok ⟨method, uri, headers, body⟩

end PactJanus.Http.Message
