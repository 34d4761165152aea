import Mathlib.Data.List.Infix
import Mathlib.Data.List.Sublists
import Mathlib.Data.Set.Finite.Basic
import PactJanus.Data.Spelling
import PactJanus.Http.Message
import PactJanus.Lib.Multipart
import PactJanus.Plan.Interpret

namespace PactJanus.Component.MultipartContent

open PactJanus.Data.Json PactJanus.Lib PactJanus.Lib.Text PactJanus.Lib.Delimited
open PactJanus.Lib.Multipart (crlf dashes delimiter bodyParts rawPart)
open PactJanus.Contracts.Model PactJanus.Plan.Value PactJanus.Plan.Interpret PactJanus.Http.Message

/-! Multipart bodies, as documents of parts by name and back. -/

/-- A component a part's body is read and written by. -/
structure ContentComponent where
  handles : String → Bool
  decode : String → SlotValue → Except String RuntimeValue
  encode : String → RuntimeValue → Except String SlotValue

/-- The reading of media types and of dispositions, and what the splitter reports of a body it does not read. -/
structure Libraries where
  /-- The `boundary` parameter of a media type, or why the text is none. -/
  mime : String → Except String (Option String)
  /-- The name and the file name a Content-Disposition gives. -/
  disposition : List UInt8 → Option String × Option String
  malformed : List UInt8 → String

def containsOctets (haystack needle : List UInt8) : Bool := decide (needle <:+: haystack)

def textOrBytes (data : List UInt8) : RuntimeValue :=
  match Utf8.decode data with
  | some decoded => .string decoded
  | none => .bytes data

def octets (data : List UInt8) (contentType : String) : SlotValue :=
  ⟨.string (Base64.encode data), some "base64", some contentType⟩

def slotBytes (value : SlotValue) : Except String (List UInt8) :=
  match value.content, value.encoded with
  | .string content, some "base64" => (Base64.decode content).elim (.error "invalid base64") .ok
  | .string content, _ => .ok (Utf8.bytes content)
  | other, _ => .ok (Utf8.bytes (text other))

section Parts

variable (parts : List ContentComponent)

def partComponent (contentType : String) : Option ContentComponent :=
  parts.find? fun component => component.handles contentType

/-- A part's body by its type, if its type's component reads it. -/
def decodePart (contentType : Option String) (data : List UInt8) : Option RuntimeValue :=
  match contentType with
  | none => some (textOrBytes data)
  | some contentType =>
    match partComponent parts contentType with
    | none => some (.bytes data)
    | some component =>
      match component.decode contentType (octets data contentType) with
      | .ok document => some document
      | .error _ => if mediaTypeMatches "text/*" contentType then some (.bytes data) else none

def encodePart (name : String) (contentType : Option String) (body : RuntimeValue) : Except String (List UInt8) :=
  match body, contentType.bind (partComponent parts) with
  | .absent, _ => .ok []
  | .bytes bytes, _ => .ok bytes
  | body, some component =>
    ((component.encode (contentType.getD "") body).mapError fun err => "part '" ++ name ++ "': " ++ err).bind slotBytes
  | .string body, none => .ok (Utf8.bytes body)
  | _, none => .error ("part '" ++ name ++ "': a structured body needs a content type a built-in component writes (JSON, " ++
      "XML, text or form)")

end Parts

/-! The reading of a body. -/

/-- One part as the splitter reads it, a transfer encoding undone. -/
structure RawPart where
  name : String
  filename : Option String
  headers : List (String × String)
  data : List UInt8

def RawPart.contentType (part : RawPart) : Option String := part.headers.lookup "content-type"

def isBlank (b : UInt8) : Bool := b == 32 || b == 9

def trimBlank (l : List UInt8) : List UInt8 := ((l.dropWhile isBlank).reverse.dropWhile isBlank).reverse

/-- A header's line: a name, a colon, and a value whose blanks at the ends are no part of it. -/
def readHeader (line : List UInt8) : Option (HeaderName × HeaderValue) :=
  (cutAt [58] line).bind fun (name, value) =>
    (headerNameFromBytes (Utf8.lossy name)).bind fun name =>
      (headerValueFromBytes (trimBlank value)).map fun value => (name, value)

/-- The headers of a part, the last value of each. -/
def readHeaders (lines : List (List UInt8)) : Option HeaderMap :=
  (lines.mapM readHeader).map fun fields => fields.foldl (fun headers (name, value) => headers.insert name value) .empty

def contentDisposition : HeaderName := ⟨"content-disposition", by decide +kernel⟩

def isBase64 (encoding : Option String) : Bool := encoding.any fun encoding => eqIgnoreAsciiCase encoding "base64"

def undone (encoding : Option String) (data : List UInt8) : List UInt8 :=
  if isBase64 encoding then (Base64.decode (Utf8.lossy data)).getD data else data

variable (libraries : Libraries)

def field (text : List UInt8) : Option RawPart :=
  (rawPart text).bind fun raw => (readHeaders raw.lines).map fun headers =>
    let named := (headers.get contentDisposition).map fun value => libraries.disposition value.1
    ⟨(named.bind Prod.fst).getD "", named.bind Prod.snd, headers.texts,
      undone (headers.texts.lookup "content-transfer-encoding") raw.content⟩

/-- The boundary a content type names. -/
def boundary (contentType : String) : Except String String :=
  match libraries.mime contentType with
  | .error err => .error ("'" ++ contentType ++ "' is not a media type: " ++ err)
  | .ok none => .error ("'" ++ contentType ++ "' names no boundary")
  | .ok (some boundary) => .ok boundary

/-- The parts of a body, split where a boundary stands. -/
def split (body : List UInt8) (boundary : String) : Except String (List RawPart) :=
  match (bodyParts (Utf8.bytes boundary) body).bind fun texts => texts.mapM (field libraries) with
  | some parts => .ok parts
  | none => .error (libraries.malformed body)

variable (parts : List ContentComponent)

def partObject (part : RawPart) : RuntimeValue :=
  .object (("headers", .object (part.headers.map fun (name, value) => (name, .string value))) ::
    ((part.filename.map fun filename => ("filename", RuntimeValue.string filename)).toList ++
      ((decodePart parts part.contentType part.data).map fun body => ("body", body)).toList))

def named (read : List RawPart) : List (String × List RuntimeValue) :=
  read.foldl (fun names part => Multimap.append part.name (partObject parts part) names) []

/-- A body as a document: under each name, in the order they first come in, the parts that have it. -/
def document (body : List UInt8) (contentType : String) : Except String RuntimeValue :=
  (boundary libraries contentType).bind fun boundary =>
    (split libraries body boundary).map fun read =>
      .object ((named parts read).map fun (name, parts) => (name, .array parts))

/-! The writing of a document. -/

def stringHeader (name : String) (entry : String × RuntimeValue) : Except String (String × String) :=
  match entry.2 with
  | .string value => .ok (toAsciiLowercase entry.1, value)
  | _ => .error ("part '" ++ name ++ "': header '" ++ entry.1 ++ "' must be a string")

def headersOf (name : String) (members : List (String × RuntimeValue)) : Except String (List (String × String)) :=
  match members.lookup "headers" with
  | none | some .absent => .ok []
  | some (.object headers) => headers.mapM (stringHeader name)
  | some _ => .error ("part '" ++ name ++ "': its headers must be an object")

def filenameOf (name : String) (members : List (String × RuntimeValue)) : Except String (Option String) :=
  match members.lookup "filename" with
  | none | some .absent => .ok none
  | some (.string filename) => .ok (some filename)
  | some _ => .error ("part '" ++ name ++ "': its filename must be a string")

def isLineBreak (c : Char) : Bool := c == '\r' || c == '\n'

def quoted (name value : String) : Except String String :=
  if value.toList.any fun c => c == '"' || isLineBreak c then
    .error ("part '" ++ name ++ "': '" ++ value ++ "' cannot be written in a Content-Disposition")
  else .ok ("\"" ++ value ++ "\"")

/-- The disposition of a part that has a name and none of its own. -/
def dispositionLine (name : String) (headers : List (String × String)) (filename : Option String) :
    Except String (List String) :=
  if !name.isEmpty && (headers.lookup "content-disposition").isNone then
    (quoted name name).bind fun written =>
      match filename with
      | none => .ok ["content-disposition: form-data; name=" ++ written]
      | some filename =>
        (quoted name filename).map fun file => ["content-disposition: form-data; name=" ++ written ++ "; filename=" ++ file]
  else .ok []

def headerLine (name : String) (header : String × String) : Except String String :=
  if header.2.toList.any isLineBreak then
    .error ("part '" ++ name ++ "': header '" ++ header.1 ++ "' cannot hold a line break")
  else .ok (header.1 ++ ": " ++ header.2)

def applied (encoding : Option String) (data : List UInt8) : List UInt8 :=
  if isBase64 encoding then Utf8.bytes (Base64.encode data) else data

/-- A part's header lines and octets. -/
def writePart (name : String) (part : RuntimeValue) : Except String (List String × List UInt8) :=
  match part with
  | .object members =>
    (headersOf name members).bind fun headers =>
      (filenameOf name members).bind fun filename =>
        (dispositionLine name headers filename).bind fun first =>
          (headers.mapM (headerLine name)).bind fun lines =>
            (encodePart parts name (headers.lookup "content-type") ((members.lookup "body").getD .absent)).map fun data =>
              (first ++ lines, applied (headers.lookup "content-transfer-encoding") data)
  | _ => .error ("part '" ++ name ++ "' must be an object of headers, filename and body")

def defaultBoundary : String := "janus-multipart-boundary"

def candidate (n : Nat) : String := if n = 0 then defaultBoundary else defaultBoundary ++ "-" ++ n.repr

def anyHolds (written : List (List String × List UInt8)) (text : String) : Bool :=
  written.any fun (_, data) => containsOctets data (Utf8.bytes text)

def listed : RuntimeValue → List RuntimeValue
  | .array parts => parts
  | part => [part]

/-- The parts of a document, each with its name. -/
def partList (names : List (String × RuntimeValue)) : List (String × RuntimeValue) :=
  names.flatMap fun (name, parts) => (listed parts).map fun part => (name, part)

def partText (part : List String × List UInt8) : List UInt8 :=
  part.1.flatMap (fun line => Utf8.bytes line ++ crlf) ++ crlf ++ part.2

def bodyText (boundary : String) (written : List (List String × List UInt8)) : List UInt8 :=
  written.flatMap (fun part => Utf8.bytes ("--" ++ boundary) ++ crlf ++ partText part ++ crlf) ++
    Utf8.bytes ("--" ++ boundary) ++ dashes ++ crlf

private theorem candidate_injective : Function.Injective candidate := by
  have hlater : ∀ n, candidate (n + 1) = defaultBoundary ++ "-" ++ (n + 1).repr := fun n => rfl
  have hzero : ∀ n, candidate 0 ≠ candidate (n + 1) := by
    intro n h
    have hlength := congrArg (fun s : String => s.toList.length) h
    rw [hlater] at hlength
    simp [candidate] at hlength
  intro m n h
  cases m with
  | zero =>
    cases n with
    | zero => rfl
    | succ n => exact absurd h (hzero n)
  | succ m =>
    cases n with
    | zero => exact absurd h.symm (hzero m)
    | succ n =>
      rw [hlater, hlater, ← String.toList_inj] at h
      simp only [String.toList_append] at h
      exact PactJanus.Data.Spelling.repr_injective (String.toList_inj.1 (List.append_cancel_left h))

/-- Octets that are finite do not hold every numbered boundary. -/
theorem exists_fresh (written : List (List String × List UInt8)) : ∃ n, anyHolds written (candidate n) = false := by
  by_contra hall
  have hheld : ∀ n, anyHolds written (candidate n) = true := fun n => by
    cases h : anyHolds written (candidate n) with
    | true => rfl
    | false => exact absurd ⟨n, h⟩ hall
  have hinjective : Function.Injective fun n => Utf8.bytes (candidate n) := by
    intro m n h
    have htexts := congrArg Utf8.lossy h
    rw [Utf8.lossy_bytes, Utf8.lossy_bytes] at htexts
    exact candidate_injective htexts
  refine Set.infinite_range_of_injective hinjective
    (Set.Finite.subset (List.finite_toSet (written.flatMap fun part => part.2.sublists)) ?_)
  rintro _ ⟨n, rfl⟩
  obtain ⟨part, hpart, hholds⟩ := List.any_eq_true.1 (hheld n)
  exact List.mem_flatMap.2 ⟨part, hpart, List.mem_sublists.2 (of_decide_eq_true hholds).sublist⟩

/-- The first boundary of the numbered ones that no part holds. -/
def freshBoundary (written : List (List String × List UInt8)) : String := candidate (Nat.find (exists_fresh written))

/-- The boundary a content type names, or a fresh one and the type with it. -/
def boundaryFor (contentType : String) (written : List (List String × List UInt8)) : String × String :=
  match boundary libraries contentType with
  | .ok boundary => (boundary, contentType)
  | .error _ => (freshBoundary written, contentType ++ "; boundary=" ++ freshBoundary written)

/-- A document as a body, and the content type that names its boundary. -/
def write (document : RuntimeValue) (contentType : String) : Except String (List UInt8 × String) :=
  match document with
  | .object names =>
    ((partList names).mapM fun (name, part) => writePart parts name part).bind fun written =>
      let (boundary, contentType) := boundaryFor libraries contentType written
      if anyHolds written ("--" ++ boundary) then .error ("a part holds the boundary '" ++ boundary ++ "'")
      else .ok (bodyText boundary written, contentType)
  | _ => .error "a multipart body is an object of part names, each with a list of parts"

end PactJanus.Component.MultipartContent
