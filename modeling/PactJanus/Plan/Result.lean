import PactJanus.Plan.Resolve

namespace PactJanus.Plan.Result

open PactJanus.Data.Json PactJanus.Plan.Model PactJanus.Plan.Value PactJanus.Lib

/-- What executing one node produced. -/
inductive NodeResult where
  | ok
  | value (v : RuntimeValue)
  | error (message : String) (path : Option String)

/-- A plan node with what executing it produced: no result where it was not executed. -/
inductive Executed where
  | container (label : Option String) (children : List Executed) (result : Option NodeResult)
  | action (name : String) (children : List Executed) (result : Option NodeResult)
  | value (literal : Literal) (result : Option NodeResult)
  | resolve (path : String) (result : Option NodeResult)
  | resolveCurrent (path : String) (absolute : Option String) (result : Option NodeResult)
  | pipeline (children : List Executed) (result : Option NodeResult)
  | splat (children : List Executed) (result : Option NodeResult)
  | annotation (text : String) (result : Option NodeResult)

def resultOf : Executed → Option NodeResult
  | .container _ _ r => r
  | .action _ _ r => r
  | .value _ r => r
  | .resolve _ r => r
  | .resolveCurrent _ _ r => r
  | .pipeline _ r => r
  | .splat _ r => r
  | Executed.annotation _ r => r

def childrenOf : Executed → List Executed
  | .container _ children _ => children
  | .action _ children _ => children
  | .pipeline children _ => children
  | .splat children _ => children
  | _ => []

def childFailed (executed : Executed) : Bool :=
  match resultOf executed with
  | some (.error _ _) => true
  | some (.value (.bool false)) => true
  | _ => false

def truthy : NodeResult → Bool
  | .ok => true
  | .value (.bool true) => true
  | _ => false

def resultTruthy (executed : Executed) : Bool :=
  match resultOf executed with
  | some r => truthy r
  | none => false

def valueOf (executed : Executed) : RuntimeValue :=
  match resultOf executed with
  | some (.value v) => v
  | _ => .absent

/-- The value of the child at a position. -/
def valueAt (children : List Executed) (index : Nat) : RuntimeValue :=
  match children[index]? with
  | some child => valueOf child
  | none => .absent

/-- Where an executed node's value came from. -/
def pathOf : Executed → Option String
  | .resolve path _ => some path
  | .resolveCurrent path absolute _ => some (absolute.getD path)
  | .action _ (first :: _) _ => pathOf first
  | .pipeline (first :: _) _ => pathOf first
  | .splat (first :: _) _ => pathOf first
  | _ => none

/-- The path a mismatch is blamed on: where the value under test, the first child, came from. -/
def locus (children : List Executed) : Option String := children.head?.bind pathOf

/-! Values as a message shows them. -/

def renderBytes (bytes : List UInt8) : String :=
  let encoded := Base64.encode bytes
  let shown := if 48 < encoded.length then String.ofList (encoded.toList.take 48) ++ "..." else encoded
  "BYTES(" ++ bytes.length.repr ++ ", " ++ shown ++ ")"

def display : RuntimeValue → String
  | .absent => "<absent>"
  | .null => "null"
  | .bool b => if b then "true" else "false"
  | .number n => numberText n
  | .string s => "'" ++ s ++ "'"
  | .bytes bytes => renderBytes bytes
  | .entry key _ => "entry '" ++ key ++ "'"
  | .array items => text (toJson (.array items))
  | .object members => text (toJson (.object members))

/-- A value's own text, unquoted. -/
def plainText : RuntimeValue → String
  | .string s => s
  | other => display other

def quoted (s : String) : String := "'" ++ s ++ "'"

/-- A failure whose message is its pieces in order. -/
def failed (pieces : List String) (path : Option String) : NodeResult := .error (String.join pieces) path

def countOf (n : Nat) : String := if n = 1 then "1 item" else n.repr ++ " items"

def kindOf : RuntimeValue → String
  | .absent => "absent"
  | .null => "null"
  | .bool _ => "boolean"
  | .number _ => "number"
  | .string _ => "string"
  | .array _ => "array"
  | .object _ => "object"
  | .bytes _ => "bytes"
  | .entry .. => "entry"

def aKind (kind : String) : String :=
  if kind = "bytes" then kind
  else if kind.toList.head?.any (· ∈ ['a', 'e', 'i', 'o', 'u']) then "an " ++ kind
  else "a " ++ kind

def isEmpty : RuntimeValue → Bool
  | .string s => s.isEmpty
  | .array items => items.isEmpty
  | .object members => members.isEmpty
  | .bytes bytes => bytes.isEmpty
  | .absent | .null => true
  | _ => false

def lengthOpt : RuntimeValue → Option Nat
  | .string s => some s.toList.length
  | .array items => some items.length
  | .object members => some members.length
  | .bytes bytes => some bytes.length
  | _ => none

def lengthOf (value : RuntimeValue) : Nat := (lengthOpt value).getD 0

def valueAsU64 : RuntimeValue → Option Nat
  | .number n => some (asU64 n).toNat
  | _ => none

/-- The text of a string, or of octets that are UTF-8. -/
def asText : RuntimeValue → Option String
  | .string s => some s
  | .bytes bytes => String.fromUTF8? (ByteArray.mk bytes.toArray)
  | _ => none

def asMatchableText : RuntimeValue → Option String
  | .number n => some (plainText (.number n))
  | .bool b => some (plainText (.bool b))
  | other => asText other

mutual

/-- Equality of runtime values under the shape language's numeric rule. -/
def runtimeEq : RuntimeValue → RuntimeValue → Bool
  | .absent, .absent => true
  | .null, .null => true
  | .bool x, .bool y => x == y
  | .number x, .number y => numbersEqual x y
  | .string x, .string y => x == y
  | .bytes x, .bytes y => x == y
  | .array x, .array y => x.length == y.length && runtimeEqAll x y
  | .object x, .object y => x.length == y.length && runtimeEqMembers x y
  | _, _ => false
termination_by structural a => a

def runtimeEqAll : List RuntimeValue → List RuntimeValue → Bool
  | a :: as, b :: bs => runtimeEq a b && runtimeEqAll as bs
  | _, _ => true
termination_by structural as => as

def runtimeEqMembers : List (String × RuntimeValue) → List (String × RuntimeValue) → Bool
  | [], _ => true
  | (name, a) :: rest, bs =>
    (match bs.lookup name with
      | some b => runtimeEq a b
      | none => false) && runtimeEqMembers rest bs
termination_by structural as => as

end

/-- What a plan asks of code outside the engine: regular expressions, semantic versions, date formats, case. -/
structure Libraries where
  regexMatch : (pattern text : String) → Except String Bool
  semver : String → Bool
  validateDatetime : (text format : String) → Except String Unit
  toLowercase : String → String
  toUppercase : String → String

/-- What runs a component's own action; `none` when no component in scope contributes it. -/
abbrev ActionApplier := (action : String) → (arguments : List RuntimeValue) → (path : Option String) →
  Option NodeResult

end PactJanus.Plan.Result
