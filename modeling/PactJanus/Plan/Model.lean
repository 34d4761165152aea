import PactJanus.Shape.Model
import PactJanus.Lib.Base64

namespace PactJanus.Plan.Model

open PactJanus.Data.Json PactJanus.Shape.Model

/-- The kind a literal carries: the document model's, and an entry's key paired with its value. -/
inductive DocumentKind where
  | null | boolean | number | string | array | object | bytes | entry
deriving DecidableEq

/-- A literal of a plan: `encoded` says whether its value stands for itself or for octets. -/
structure Literal where
  of : DocumentKind
  value : Json
  encoded : Option String
  key : Option String

def Literal.null : Literal := ⟨.null, .null, none, none⟩

def Literal.string (s : String) : Literal := ⟨.string, .string s, none, none⟩

def Literal.number (n : UInt64) : Literal := ⟨.number, .number (.posInt n), none, none⟩

def documentKind : Json → DocumentKind
  | .null => .null
  | .bool _ => .boolean
  | .number _ => .number
  | .string _ => .string
  | .array _ => .array
  | .object _ => .object

def Literal.fromJson (value : Json) : Literal := ⟨documentKind value, value, none, none⟩

def Literal.fromExample (e : Example) : Literal :=
  if e.encoded = some "base64" then ⟨.bytes, e.value, some "base64", none⟩ else Literal.fromJson e.value

/-- One node of a plan. -/
inductive Node where
  | container (label : Option String) (children : List Node)
  | action (name : String) (children : List Node)
  | value (literal : Literal)
  | resolve (path : String)
  | resolveCurrent (path : String)
  | pipeline (children : List Node)
  | splat (children : List Node)
  | annotation (text : String)

/-- Induction on a node. -/
@[induction_eliminator]
theorem node_induction {motive : Node → Prop}
    (container : ∀ label children, (∀ n ∈ children, motive n) → motive (.container label children))
    (action : ∀ name children, (∀ n ∈ children, motive n) → motive (.action name children))
    (value : ∀ literal, motive (.value literal)) (resolve : ∀ path, motive (.resolve path))
    (resolveCurrent : ∀ path, motive (.resolveCurrent path))
    (pipeline : ∀ children, (∀ n ∈ children, motive n) → motive (.pipeline children))
    (splat : ∀ children, (∀ n ∈ children, motive n) → motive (.splat children))
    ( annotation : ∀ text, motive (Node.annotation text)) (node : Node) : motive node := by
  refine Node.rec (motive_1 := motive) (motive_2 := fun ns => ∀ n ∈ ns, motive n)
    container action value resolve resolveCurrent pipeline splat annotation ?none ?more node
  case none => exact fun _ h => nomatch h
  case more => exact fun _ _ ihHead ihTail n hn => (List.mem_cons.1 hn).elim (fun h => h ▸ ihHead) (ihTail n)

/-- A compiled matching plan; `variant` names the variant it was compiled under, if any. -/
structure MatchingPlan where
  grammar : String
  root : Node
  variant : Option String

def grammarVersion : String := "v1"

end PactJanus.Plan.Model
