import PactJanus.Contracts.Files
import PactJanus.Data.Json
import PactJanus.Lib.Base64

namespace PactJanus.Legacy.Steps

open PactJanus.Data.Json PactJanus.Lib PactJanus.Contracts.Files

/-! The calls a pact's interaction is built by, read from their documents. -/

inductive Part where
  | request | response
deriving DecidableEq

inductive MessageKind where
  | asynchronous | synchronous
deriving DecidableEq

inductive Contents where
  | text (text : String)
  | octets (octets : List UInt8)

structure MultipartFile where
  part : Part
  contentType : String
  file : String
  contents : List UInt8
  partName : String
  boundary : Option String

/-- One call, its arguments read. -/
inductive Step where
  | begin (kind : MessageKind) (description : String)
  | description (description : String)
  | given (name : String) (params : Option Json)
  | withRequest (method path : String)
  | withQueryParameter (name : String) (index : UInt64) (value : String)
  | withHeader (part : Part) (name : String) (index : UInt64) (value : String)
  | responseStatus (status : String)
  | withBody (part : Part) (contentType : Option String) (body : String)
  | withBinaryFile (part : Part) (contentType : String) (body : List UInt8)
  | withMatchingRules (part : Part) (rules : List (String × Json))
  | withBinaryBody (part : Part) (contentType : Option String) (body : List UInt8) (header : Bool)
  | withGenerators (part : Part) (generators : List (String × Json))
  | withMultipartFile (file : MultipartFile)
  | messageWithContents (contentType : Option String) (contents : Contents)
  | messageWithMetadata (name value : String)

/-! Arguments by name, each failure at the argument. -/

section Args

variable (step : List (String × Json)) (at' : String)

def value (name : String) : Except Problem Json :=
  (step.lookup name).elim (.error ⟨at' ++ "/" ++ name, "'" ++ name ++ "' is missing"⟩) .ok

def string (name : String) : Except Problem String := do
  match ← value step at' name with
  | .string text => .ok text
  | other => .error ⟨at' ++ "/" ++ name, "'" ++ name ++ "' is " ++ text other ++ ", not a string"⟩

def optionalString (name : String) : Except Problem (Option String) :=
  match step.lookup name with
  | none | some .null => .ok none
  | some _ => (string step at' name).map some

def optionalBool (name : String) : Except Problem (Option Bool) :=
  match step.lookup name with
  | none | some .null => .ok none
  | some (.bool b) => .ok (some b)
  | some other => .error ⟨at' ++ "/" ++ name, "'" ++ name ++ "' is " ++ text other ++ ", not true or false"⟩

/-- A value taken as text: a string as given, any other as its text. -/
def textArg (name : String) : Except Problem String :=
  (value step at' name).map fun
    | .string text => text
    | other => text other

def index : Except Problem UInt64 :=
  match step.lookup "index" with
  | none => .ok 0
  | some value =>
    (asUnsigned value).elim (.error ⟨at' ++ "/index", "'index' is " ++ text value ++ ", not a whole number"⟩) .ok

def part : Except Problem Part := do
  match ← string step at' "part" with
  | "request" => .ok .request
  | "response" => .ok .response
  | other => .error ⟨at' ++ "/part", "'" ++ other ++ "' is not 'request' or 'response'"⟩

def octets (name : String) : Except Problem (List UInt8) := do
  let text ← string step at' name
  (Base64.decode text).elim (.error ⟨at' ++ "/" ++ name, "'" ++ name ++ "' is not base64"⟩) .ok

def object (name : String) : Except Problem (List (String × Json)) := do
  match ← value step at' name with
  | .object members => .ok members
  | other => .error ⟨at' ++ "/" ++ name, "'" ++ name ++ "' is " ++ text other ++ ", not an object"⟩

def multipartFile : Except Problem MultipartFile := do
  let part ← part step at'
  let contentType ← string step at' "content_type"
  let file ← string step at' "file"
  let contents ← octets step at' "contents"
  let partName ← optionalString step at' "part_name"
  let boundary ← optionalString step at' "boundary"
  .ok ⟨part, contentType, file, contents, partName.getD "file", boundary⟩

/-- A message's contents, given as text or as octets. -/
def contents : Except Problem Contents :=
  match step.lookup "body", step.lookup "contents" with
  | some _, none => (textArg step at' "body").map .text
  | none, some _ => (octets step at' "contents").map .octets
  | _, _ => .error ⟨at', "'message_with_contents' takes its contents as 'body', text, or as 'contents', base64, " ++
      "and not both"⟩

def readCall (call : String) : Except Problem Step := do
  match call with
  | "new_async_message" | "new_message" => (string step at' "description").map (.begin .asynchronous)
  | "new_sync_message_interaction" => (string step at' "description").map (.begin .synchronous)
  | "upon_receiving" | "message_expects_to_receive" => (string step at' "description").map .description
  | "given" | "message_given" => (string step at' "description").map (.given · none)
  | "given_with_params" =>
    let description ← string step at' "description"
    let params ← value step at' "params"
    .ok (.given description (some params))
  | "with_request" =>
    let method ← string step at' "method"
    let path ← textArg step at' "path"
    .ok (.withRequest method path)
  | "with_query_parameter" =>
    let name ← string step at' "name"
    let index ← index step at'
    let value ← textArg step at' "value"
    .ok (.withQueryParameter name index value)
  | "with_header_v2" =>
    let part ← part step at'
    let name ← string step at' "name"
    let index ← index step at'
    let value ← textArg step at' "value"
    .ok (.withHeader part name index value)
  | "response_status_v2" => (textArg step at' "status").map .responseStatus
  | "with_body" =>
    let part ← part step at'
    let contentType ← optionalString step at' "content_type"
    let body ← textArg step at' "body"
    .ok (.withBody part contentType body)
  | "with_binary_file" =>
    let part ← part step at'
    let contentType ← string step at' "content_type"
    let body ← octets step at' "body"
    .ok (.withBinaryFile part contentType body)
  | "with_matching_rules" =>
    let rules ← object step at' "rules"
    let part ← part step at'
    .ok (.withMatchingRules part rules)
  | "with_binary_body" =>
    let part ← part step at'
    let contentType ← optionalString step at' "content_type"
    let body ← octets step at' "body"
    let header ← optionalBool step at' "content_type_header"
    .ok (.withBinaryBody part contentType body (header.getD true))
  | "with_generators" =>
    let generators ← object step at' "generators"
    let part ← part step at'
    .ok (.withGenerators part generators)
  | "with_multipart_file_v2" => (multipartFile step at').map .withMultipartFile
  | "message_with_contents" =>
    let contentType ← optionalString step at' "content_type"
    let contents ← contents step at'
    .ok (.messageWithContents contentType contents)
  | "message_with_metadata_v2" =>
    let name ← string step at' "name"
    let value ← textArg step at' "value"
    .ok (.messageWithMetadata name value)
  | other => .error ⟨at' ++ "/call", "'" ++ other ++ "' is not a call this engine makes (ADR 0066 lists them)"⟩

end Args

def Step.read (step : Json) (at' : String) : Except Problem Step :=
  match asObject step with
  | some members => do
    let call ← string members at' "call"
    readCall members at' call
  | none => .error ⟨at', "a step is an object naming its 'call'"⟩

/-- The call's name, as a refusal gives it. -/
def Step.call : Step → String
  | .begin .. => "a call that begins a message"
  | .description _ => "upon_receiving"
  | .given .. => "given"
  | .withRequest .. => "with_request"
  | .withQueryParameter .. => "with_query_parameter"
  | .withHeader .. => "with_header_v2"
  | .responseStatus _ => "response_status_v2"
  | .withBody .. => "with_body"
  | .withBinaryFile .. => "with_binary_file"
  | .withMatchingRules .. => "with_matching_rules"
  | .withBinaryBody .. => "with_binary_body"
  | .withGenerators .. => "with_generators"
  | .withMultipartFile _ => "with_multipart_file_v2"
  | .messageWithContents .. => "message_with_contents"
  | .messageWithMetadata .. => "message_with_metadata_v2"

/-! Where a step that cannot be read is pointed at. -/

/-- A pointer at a place or below it. -/
def Below (at' pointer : String) : Prop := pointer = at' ∨ ∃ rest, pointer = at' ++ "/" ++ rest

theorem Below.trans {outer at' pointer : String} (h : Below at' pointer) (ho : Below outer at') : Below outer pointer := by
  rcases h with rfl | ⟨rest, rfl⟩
  · exact ho
  · rcases ho with rfl | ⟨middle, rfl⟩
    · exact .inr ⟨rest, rfl⟩
    · exact .inr ⟨middle ++ "/" ++ rest, by simp only [String.append_assoc]⟩

/-- What a reading fails with is at the step it reads. -/
def FailsBelow {α : Type} (at' : String) (read : Except Problem α) : Prop := ∀ p, read = .error p → Below at' p.pointer

section

variable {step : List (String × Json)} {at' : String} {α β : Type}

private theorem failsBelow_ok (a : α) : FailsBelow at' (.ok a) := nofun

private theorem failsBelow_here (message : String) : FailsBelow (α := α) at' (.error ⟨at', message⟩) := by
  rintro _ ⟨⟩
  exact .inl rfl

private theorem failsBelow_member (name message : String) :
    FailsBelow (α := α) at' (.error ⟨at' ++ "/" ++ name, message⟩) := by
  rintro _ ⟨⟩
  exact .inr ⟨name, rfl⟩

private theorem failsBelow_index (message : String) : FailsBelow (α := α) at' (.error ⟨at' ++ "/index", message⟩) := by
  rintro _ ⟨⟩
  exact .inr ⟨"index", by rw [String.append_assoc]; rfl⟩

private theorem failsBelow_part (message : String) : FailsBelow (α := α) at' (.error ⟨at' ++ "/part", message⟩) := by
  rintro _ ⟨⟩
  exact .inr ⟨"part", by rw [String.append_assoc]; rfl⟩

private theorem failsBelow_call (message : String) : FailsBelow (α := α) at' (.error ⟨at' ++ "/call", message⟩) := by
  rintro _ ⟨⟩
  exact .inr ⟨"call", by rw [String.append_assoc]; rfl⟩

private theorem failsBelow_bind {read : Except Problem α} {next : α → Except Problem β} (h : FailsBelow at' read)
    (hnext : ∀ a, FailsBelow at' (next a)) : FailsBelow at' (read >>= next) := by
  cases read with
  | error p =>
    rintro _ ⟨⟩
    exact h p rfl
  | ok a => exact hnext a

private theorem failsBelow_map {read : Except Problem α} (f : α → β) (h : FailsBelow at' read) :
    FailsBelow at' (read.map f) := by
  cases read with
  | error p =>
    rintro _ ⟨⟩
    exact h p rfl
  | ok a => exact failsBelow_ok (f a)

private theorem failsBelow_value (name : String) : FailsBelow at' (value step at' name) := by
  unfold value
  cases step.lookup name with
  | none => exact failsBelow_member name _
  | some v => exact failsBelow_ok v

private theorem failsBelow_string (name : String) : FailsBelow at' (string step at' name) := by
  refine failsBelow_bind (failsBelow_value name) fun v => ?_
  split
  · exact failsBelow_ok _
  · exact failsBelow_member name _

private theorem failsBelow_optionalString (name : String) : FailsBelow at' (optionalString step at' name) := by
  unfold optionalString
  split
  · exact failsBelow_ok _
  · exact failsBelow_ok _
  · exact failsBelow_map _ (failsBelow_string name)

private theorem failsBelow_optionalBool (name : String) : FailsBelow at' (optionalBool step at' name) := by
  unfold optionalBool
  split
  · exact failsBelow_ok _
  · exact failsBelow_ok _
  · exact failsBelow_ok _
  · exact failsBelow_member name _

private theorem failsBelow_textArg (name : String) : FailsBelow at' (textArg step at' name) :=
  failsBelow_map _ (failsBelow_value name)

private theorem failsBelow_indexArg : FailsBelow at' (index step at') := by
  unfold index
  split
  · exact failsBelow_ok _
  · rename_i v _
    cases asUnsigned v with
    | none => exact failsBelow_index _
    | some n => exact failsBelow_ok n

private theorem failsBelow_partArg : FailsBelow at' (part step at') := by
  refine failsBelow_bind (failsBelow_string "part") fun v => ?_
  split
  · exact failsBelow_ok _
  · exact failsBelow_ok _
  · exact failsBelow_part _

private theorem failsBelow_octets (name : String) : FailsBelow at' (octets step at' name) := by
  refine failsBelow_bind (failsBelow_string name) fun v => ?_
  cases Base64.decode v with
  | none => exact failsBelow_member name _
  | some bytes => exact failsBelow_ok bytes

private theorem failsBelow_object (name : String) : FailsBelow at' (object step at' name) := by
  refine failsBelow_bind (failsBelow_value name) fun v => ?_
  split
  · exact failsBelow_ok _
  · exact failsBelow_member name _

private theorem failsBelow_multipartFile : FailsBelow at' (multipartFile step at') :=
  failsBelow_bind failsBelow_partArg fun _ => failsBelow_bind (failsBelow_string _) fun _ =>
    failsBelow_bind (failsBelow_string _) fun _ => failsBelow_bind (failsBelow_octets _) fun _ =>
      failsBelow_bind (failsBelow_optionalString _) fun _ => failsBelow_bind (failsBelow_optionalString _) fun _ =>
        failsBelow_ok _

private theorem failsBelow_contents : FailsBelow at' (contents step at') := by
  unfold contents
  split
  · exact failsBelow_map _ (failsBelow_textArg _)
  · exact failsBelow_map _ (failsBelow_octets _)
  · exact failsBelow_here _

private theorem failsBelow_readCall (call : String) : FailsBelow at' (readCall step at' call) := by
  unfold readCall
  split
  case h_1 | h_2 | h_3 | h_4 | h_5 | h_6 | h_7 => exact failsBelow_map _ (failsBelow_string _)
  case h_8 =>
    exact failsBelow_bind (failsBelow_string _) fun _ => failsBelow_bind (failsBelow_value _) fun _ => failsBelow_ok _
  case h_9 =>
    exact failsBelow_bind (failsBelow_string _) fun _ => failsBelow_bind (failsBelow_textArg _) fun _ => failsBelow_ok _
  case h_10 =>
    exact failsBelow_bind (failsBelow_string _) fun _ => failsBelow_bind failsBelow_indexArg fun _ =>
      failsBelow_bind (failsBelow_textArg _) fun _ => failsBelow_ok _
  case h_11 =>
    exact failsBelow_bind failsBelow_partArg fun _ => failsBelow_bind (failsBelow_string _) fun _ =>
      failsBelow_bind failsBelow_indexArg fun _ => failsBelow_bind (failsBelow_textArg _) fun _ => failsBelow_ok _
  case h_12 => exact failsBelow_map _ (failsBelow_textArg _)
  case h_13 =>
    exact failsBelow_bind failsBelow_partArg fun _ => failsBelow_bind (failsBelow_optionalString _) fun _ =>
      failsBelow_bind (failsBelow_textArg _) fun _ => failsBelow_ok _
  case h_14 =>
    exact failsBelow_bind failsBelow_partArg fun _ => failsBelow_bind (failsBelow_string _) fun _ =>
      failsBelow_bind (failsBelow_octets _) fun _ => failsBelow_ok _
  case h_15 | h_17 =>
    exact failsBelow_bind (failsBelow_object _) fun _ => failsBelow_bind failsBelow_partArg fun _ => failsBelow_ok _
  case h_16 =>
    exact failsBelow_bind failsBelow_partArg fun _ => failsBelow_bind (failsBelow_optionalString _) fun _ =>
      failsBelow_bind (failsBelow_octets _) fun _ => failsBelow_bind (failsBelow_optionalBool _) fun _ => failsBelow_ok _
  case h_18 => exact failsBelow_map _ failsBelow_multipartFile
  case h_19 =>
    exact failsBelow_bind (failsBelow_optionalString _) fun _ => failsBelow_bind failsBelow_contents fun _ =>
      failsBelow_ok _
  case h_20 =>
    exact failsBelow_bind (failsBelow_string _) fun _ => failsBelow_bind (failsBelow_textArg _) fun _ => failsBelow_ok _
  case h_21 => exact failsBelow_call _

end

/-- A step that cannot be read is a problem at the step. -/
theorem read_problem {step : Json} {at' : String} {p : Problem} (h : Step.read step at' = .error p) :
    Below at' p.pointer := by
  revert p
  change FailsBelow at' (Step.read step at')
  unfold Step.read
  split
  · exact failsBelow_bind (failsBelow_string _) fun call => failsBelow_readCall call
  · exact failsBelow_here _

end PactJanus.Legacy.Steps
