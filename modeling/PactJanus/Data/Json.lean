import PactJanus.Lib.Binary64

namespace PactJanus.Data.Json

open PactJanus.Lib.Binary64

/-- A JSON number as the document model keeps it: how it was written decides its form. -/
inductive Number where
  | posInt (n : UInt64)
  /-- The integer `-(n + 1)`. -/
  | negInt (n : Fin (2 ^ 63))
  | float (x : Binary64)
deriving DecidableEq

def asF64 : Number → Binary64
  | .posInt n => ofMagnitude false n.toNat n.toNat_lt
  | .negInt n => ofMagnitude true (n.val + 1) (by omega)
  | .float x => x

/-- `as_u64`, or the saturating cast of the number's double. -/
def asU64 : Number → UInt64
  | .posInt n => n
  | .negInt _ => 0
  | .float x => if x.negative then 0 else UInt64.ofNat (min (truncMagnitude x) (2 ^ 64 - 1))

def isWrittenInteger : Number → Bool
  | .posInt _ => true
  | .negInt _ => true
  | .float _ => false

/-- Numbers as the shape language compares them: `1` and `1.0` are one value. -/
def numbersEqual (a b : Number) : Bool := key (asF64 a) == key (asF64 b)

/-- Numbers as they are stored: `1` and `1.0` differ. -/
def numbersSame : Number → Number → Bool
  | .posInt a, .posInt b => a == b
  | .negInt a, .negInt b => a == b
  | .float a, .float b => key a == key b
  | _, _ => false

def numberText : Number → String
  | .posInt n => n.toNat.repr
  | .negInt n => "-" ++ (n.val + 1).repr
  | .float x => jsonText x

/-- A JSON document. An object keeps its members in the order they were written. -/
inductive Json where
  | null
  | bool (b : Bool)
  | number (n : Number)
  | string (s : String)
  | array (items : List Json)
  | object (members : List (String × Json))

def isNull : Json → Bool
  | .null => true
  | _ => false

def asStr : Json → Option String
  | .string s => some s
  | _ => none

def asArray : Json → Option (List Json)
  | .array items => some items
  | _ => none

def asObject : Json → Option (List (String × Json))
  | .object members => some members
  | _ => none

def asUnsigned : Json → Option UInt64
  | .number (.posInt n) => some n
  | _ => none

/-- A member of an object, the first of that name. -/
def get (name : String) : Json → Option Json
  | .object members => members.lookup name
  | _ => none

mutual

/-- No object in the document names a member twice. -/
def distinctKeys : Json → Bool
  | .null => true
  | .bool _ => true
  | .number _ => true
  | .string _ => true
  | .array items => distinctKeysAll items
  | .object members => decide (members.map Prod.fst).Nodup && distinctKeysMembers members
termination_by structural v => v

def distinctKeysAll : List Json → Bool
  | [] => true
  | v :: rest => distinctKeys v && distinctKeysAll rest
termination_by structural vs => vs

def distinctKeysMembers : List (String × Json) → Bool
  | [] => true
  | (_, v) :: rest => distinctKeys v && distinctKeysMembers rest
termination_by structural ms => ms

end

mutual

/-- Structural equality of documents, members in any order, numbers compared by `eq`. -/
def equalBy (eq : Number → Number → Bool) : Json → Json → Bool
  | .null, .null => true
  | .bool a, .bool b => a == b
  | .number a, .number b => eq a b
  | .string a, .string b => a == b
  | .array a, .array b => a.length == b.length && itemsEqualBy eq a b
  | .object a, .object b => a.length == b.length && membersEqualBy eq a b
  | _, _ => false
termination_by structural a => a

def itemsEqualBy (eq : Number → Number → Bool) : List Json → List Json → Bool
  | a :: as, b :: bs => equalBy eq a b && itemsEqualBy eq as bs
  | _, _ => true
termination_by structural as => as

def membersEqualBy (eq : Number → Number → Bool) : List (String × Json) → List (String × Json) → Bool
  | [], _ => true
  | (name, a) :: rest, bs =>
    (match bs.lookup name with
      | some b => equalBy eq a b
      | none => false) && membersEqualBy eq rest bs
termination_by structural as => as

end

section

-- The equations of these definitions are made here, once for all who rewrite with them.
attribute [local simp] distinctKeys distinctKeysAll distinctKeysMembers equalBy itemsEqualBy membersEqualBy

end

/-- Equality of values under the shape language's numeric rule. -/
def valuesEqual (a b : Json) : Bool := equalBy numbersEqual a b

/-- The document model's own equality. -/
def same (a b : Json) : Bool := equalBy numbersSame a b

/-! The compact text of a document. -/

def hexDigit (n : Nat) : Char := "0123456789abcdef".toList.getD n '0'

def escapeChar (c : Char) : List Char :=
  if c = '"' then ['\\', '"']
  else if c = '\\' then ['\\', '\\']
  else if c = '\n' then ['\\', 'n']
  else if c = '\r' then ['\\', 'r']
  else if c = '\t' then ['\\', 't']
  else if c.toNat = 8 then ['\\', 'b']
  else if c.toNat = 12 then ['\\', 'f']
  else if c.toNat < 32 then ['\\', 'u', '0', '0', hexDigit (c.toNat / 16), hexDigit (c.toNat % 16)]
  else [c]

def stringText (s : String) : String := "\"" ++ String.ofList (s.toList.flatMap escapeChar) ++ "\""

mutual

def text : Json → String
  | .null => "null"
  | .bool b => if b then "true" else "false"
  | .number n => numberText n
  | .string s => stringText s
  | .array items => "[" ++ String.intercalate "," (itemTexts items) ++ "]"
  | .object members => "\x7b" ++ String.intercalate "," (memberTexts members) ++ "\x7d"
termination_by structural v => v

def itemTexts : List Json → List String
  | [] => []
  | v :: rest => text v :: itemTexts rest
termination_by structural vs => vs

def memberTexts : List (String × Json) → List String
  | [] => []
  | (name, v) :: rest => (stringText name ++ ":" ++ text v) :: memberTexts rest
termination_by structural ms => ms

end

example : text (.object [("a", .array [.number (.posInt 1), .null]), ("b", .string "x\"y")])
    = "\x7b\"a\":[1,null],\"b\":\"x\\\"y\"\x7d" := by decide

end PactJanus.Data.Json
