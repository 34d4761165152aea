import PactJanus.Lib.Text
import PactJanus.Plan.Model

namespace PactJanus.Plan.Value

open PactJanus.Data.Json PactJanus.Plan.Model PactJanus.Lib

/-- What a node of a plan may yield: a document, octets, an entry, or nothing at all. -/
inductive RuntimeValue where
  | absent
  | null
  | bool (b : Bool)
  | number (n : Number)
  | string (s : String)
  | array (items : List RuntimeValue)
  | object (members : List (String × RuntimeValue))
  | bytes (bytes : List UInt8)
  | entry (key : String) (value : RuntimeValue)

mutual

def fromJson : Json → RuntimeValue
  | .null => .null
  | .bool b => .bool b
  | .number n => .number n
  | .string s => .string s
  | .array items => .array (fromJsonAll items)
  | .object members => .object (fromJsonMembers members)
termination_by structural v => v

def fromJsonAll : List Json → List RuntimeValue
  | [] => []
  | v :: rest => fromJson v :: fromJsonAll rest
termination_by structural vs => vs

def fromJsonMembers : List (String × Json) → List (String × RuntimeValue)
  | [] => []
  | (name, v) :: rest => (name, fromJson v) :: fromJsonMembers rest
termination_by structural ms => ms

end

/-- The value a literal stands for: octets that do not decode are absent. -/
def fromLiteral (literal : Literal) : RuntimeValue :=
  match literal.of with
  | .bytes =>
    if literal.encoded = some "base64" then
      match (asStr literal.value).bind Base64.decode with
      | some bytes => .bytes bytes
      | none => .absent
    else fromJson literal.value
  | .entry => .entry (literal.key.getD "") (fromJson literal.value)
  | _ => fromJson literal.value

mutual

/-- Back to the document model, for a message. -/
def toJson : RuntimeValue → Json
  | .absent => .null
  | .null => .null
  | .bool b => .bool b
  | .number n => .number n
  | .string s => .string s
  | .array items => .array (toJsonAll items)
  | .object members => .object (toJsonMembers members)
  | .bytes bytes => .string (Base64.encode bytes)
  | .entry key value => .object [(key, toJson value)]
termination_by structural v => v

def toJsonAll : List RuntimeValue → List Json
  | [] => []
  | v :: rest => toJson v :: toJsonAll rest
termination_by structural vs => vs

def toJsonMembers : List (String × RuntimeValue) → List (String × Json)
  | [] => []
  | (name, v) :: rest => (name, toJson v) :: toJsonMembers rest
termination_by structural ms => ms

end

def plainChar (c : Char) : Bool := !(Text.isWhitespace c || c ∈ ['.', '[', ']', '\'', '\\', '\x7b', '\x7d', '~'])

/-- A name that a path can hold without quotes. -/
def plain (name : String) : Bool := !name.isEmpty && name.toList.all plainChar

def escape (name : List Char) : List Char :=
  name.flatMap fun c => if c = '\\' ∨ c = '\'' then ['\\', c] else [c]

/-- The step of a path to a member. -/
def memberSegment (name : String) : String :=
  if plain name then "." ++ name else "['" ++ String.ofList (escape name.toList) ++ "']"

/-- A member of `base`, quoted where its name has a character the plain form would end at. -/
def memberPath (base name : String) : String := base ++ memberSegment name

/-- A quoted member's name, and what follows its closing quote and bracket. -/
def unquote : List Char → List Char × List Char
  | '\\' :: c :: rest => let (name, remaining) := unquote rest; (c :: name, remaining)
  | ['\\'] => ([], [])
  | '\'' :: ']' :: rest => ([], rest)
  | c :: rest => let (name, remaining) := unquote rest; (c :: name, remaining)
  | [] => ([], [])

theorem unquote_length (cs : List Char) : (unquote cs).2.length ≤ cs.length := by
  fun_induction unquote cs <;> grind

def endsMember (c : Char) : Bool := c = '.' ∨ c = '['

theorem length_dropWhile_le {α : Type} (p : α → Bool) (l : List α) : (l.dropWhile p).length ≤ l.length :=
  (List.dropWhile_sublist p).length_le

/-- The value at a path relative to `value`: what is not there is absent. -/
def navigate (value : RuntimeValue) (suffix : List Char) : RuntimeValue :=
  match suffix with
  | [] => value
  | '.' :: after =>
    let member := String.ofList (after.takeWhile fun c => !endsMember c)
    let remaining := after.dropWhile fun c => !endsMember c
    match value with
    | .object members =>
      match members.lookup member with
      | some v => navigate v remaining
      | none => .absent
    | .entry key v =>
      if member = "key" then navigate (.string key) remaining
      else if member = "value" then navigate v remaining
      else .absent
    | _ => .absent
  | '[' :: '\'' :: quoted =>
    match value with
    | .object members =>
      match members.lookup (String.ofList (unquote quoted).1) with
      | some v => navigate v (unquote quoted).2
      | none => .absent
    | _ => .absent
  | '[' :: after =>
    let indexText := after.takeWhile (· ≠ ']')
    let remaining := (after.dropWhile (· ≠ ']')).drop 1
    match Text.parseUnsigned indexText, value with
    | some index, .array items =>
      match items[index]? with
      | some v => navigate v remaining
      | none => .absent
    | _, _ => .absent
  | _ => .absent
termination_by suffix.length
decreasing_by
  all_goals simp only [List.length_cons]
  · exact Nat.lt_succ_of_le (length_dropWhile_le _ _)
  · exact Nat.lt_succ_of_le (length_dropWhile_le _ _)
  · exact Nat.lt_succ_of_le (length_dropWhile_le _ _)
  · have := unquote_length quoted
    omega
  · have := length_dropWhile_le (· ≠ ']') after
    simp only [List.length_drop]
    omega

section

-- The equations of these definitions are made here, once for all who rewrite with them.
attribute [local simp] fromJson fromJsonAll fromJsonMembers toJson toJsonAll toJsonMembers navigate unquote memberSegment

end

end PactJanus.Plan.Value
