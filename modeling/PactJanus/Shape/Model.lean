import Mathlib.Data.List.Sort
import Mathlib.Data.String.Basic
import PactJanus.Data.Json

namespace PactJanus.Shape.Model

open PactJanus.Data.Json

/-- A value a shape admits; `encoded` says whether it stands for itself or for octets. -/
structure Example where
  value : Json
  encoded : Option String

inductive ValueKind where
  | string | number | integer | decimal | boolean | null
deriving DecidableEq

inductive TemporalKind where
  | datetime | date | time
deriving DecidableEq

def ValueKind.operatorName : ValueKind → String
  | .string => "string"
  | .number => "number"
  | .integer => "integer"
  | .decimal => "decimal"
  | .boolean => "boolean"
  | .null => "null"

def TemporalKind.operatorName : TemporalKind → String
  | .datetime => "datetime"
  | .date => "date"
  | .time => "time"

mutual

/-- One shape node: an operator with the members every node may carry. -/
inductive ShapeNode where
  | mk (example? : Option Example) (generator : Option Json) (kind : ShapeKind)

/-- The operator a node names, with the members that are specific to it. -/
inductive ShapeKind where
  | component (operator : String) (raw : List (String × Json))
  | any
  | equality
  | type
  | kind (kind : ValueKind)
  | notEmpty
  | regex (pattern : String)
  | temporal (kind : TemporalKind) (format : Option String)
  | includes (substring : String)
  | contentType (contentType : String)
  | semver
  | object (members : List (String × ShapeNode))
  | array (entries : List ShapeNode)
  | eachLike (items : ShapeNode) (min : UInt64) (max : Option UInt64)
  | eachEntry (keys : Option ShapeNode) (values : ShapeNode) (min : UInt64) (max : Option UInt64)
  | contains (entries : List ShapeNode)
  | optional (of : ShapeNode)
  | forbidden
  | nullable (of : ShapeNode)
  | anyOf (options : List Json)
  | oneOf (discriminator : String) (alternatives : List (String × ShapeNode)) (default : Option String)

end

namespace ShapeNode

def example? : ShapeNode → Option Example
  | ⟨e, _, _⟩ => e

def generator : ShapeNode → Option Json
  | ⟨_, g, _⟩ => g

def kind : ShapeNode → ShapeKind
  | ⟨_, _, k⟩ => k

end ShapeNode

@[simp] theorem ShapeNode.example?_mk (e : Option Example) (g : Option Json) (k : ShapeKind) :
    ShapeNode.example? ⟨e, g, k⟩ = e := rfl

@[simp] theorem ShapeNode.kind_mk (e : Option Example) (g : Option Json) (k : ShapeKind) :
    ShapeNode.kind ⟨e, g, k⟩ = k := rfl

/-- A node that carries nothing but its operator. -/
def ShapeNode.of (kind : ShapeKind) : ShapeNode := ⟨none, none, kind⟩

/-- An equality to a document. -/
def ShapeNode.equalTo (value : Json) : ShapeNode := ⟨some ⟨value, none⟩, none, .equality⟩

def operatorName : ShapeKind → String
  | .component operator _ => operator
  | .any => "any"
  | .equality => "equality"
  | .type => "type"
  | .kind k => k.operatorName
  | .notEmpty => "not-empty"
  | .regex _ => "regex"
  | .temporal k _ => k.operatorName
  | .includes _ => "include"
  | .contentType _ => "content-type"
  | .semver => "semver"
  | .object _ => "object"
  | .array _ => "array"
  | .eachLike .. => "each-like"
  | .eachEntry .. => "each-entry"
  | .contains _ => "contains"
  | .optional _ => "optional"
  | .forbidden => "forbidden"
  | .nullable _ => "nullable"
  | .anyOf _ => "any-of"
  | .oneOf .. => "one-of"

def operator (node : ShapeNode) : String := operatorName node.kind

def coreOperators : List String :=
  ["any", "equality", "type", "string", "number", "integer", "decimal", "boolean", "null", "regex", "datetime",
    "date", "time", "include", "content-type", "semver", "not-empty", "object", "array", "each-like", "each-entry",
    "contains", "optional", "nullable", "forbidden", "any-of", "one-of"]

/-- Whether a node admits absence: only `optional` and `forbidden` do. -/
def admitsAbsent (node : ShapeNode) : Bool :=
  match node.kind with
  | .optional _ | .forbidden => true
  | _ => false

/-- Keyed things by name, the order a plan and a variant space visit an object's members in. -/
def membersByName {α : Type} (members : List (String × α)) : List (String × α) :=
  members.insertionSort fun a b => a.1 ≤ b.1

theorem mem_membersByName {α : Type} {members : List (String × α)} {p : String × α} :
    p ∈ membersByName members ↔ p ∈ members := List.mem_insertionSort _

/-- A node with no node under it. -/
def isLeaf : ShapeKind → Bool
  | .object _ | .array _ | .eachLike .. | .eachEntry .. | .contains _ | .optional _ | .nullable _ | .oneOf .. => false
  | _ => true

/-- Induction on a shape tree, one case for each operator with nodes under it. -/
@[induction_eliminator]
theorem shape_induction {motive : ShapeNode → Prop}
    (leaf : ∀ e g k, isLeaf k = true → motive ⟨e, g, k⟩)
    (object : ∀ e g members, (∀ p ∈ members, motive p.2) → motive ⟨e, g, .object members⟩)
    (array : ∀ e g entries, (∀ s ∈ entries, motive s) → motive ⟨e, g, .array entries⟩)
    (eachLike : ∀ e g items min max, motive items → motive ⟨e, g, .eachLike items min max⟩)
    (eachEntry : ∀ e g keys values min max, (∀ k ∈ keys, motive k) → motive values →
      motive ⟨e, g, .eachEntry keys values min max⟩)
    (contains : ∀ e g entries, (∀ s ∈ entries, motive s) → motive ⟨e, g, .contains entries⟩)
    (optional : ∀ e g of, motive of → motive ⟨e, g, .optional of⟩)
    (nullable : ∀ e g of, motive of → motive ⟨e, g, .nullable of⟩)
    (oneOf : ∀ e g discriminator alternatives default, (∀ p ∈ alternatives, motive p.2) →
      motive ⟨e, g, .oneOf discriminator alternatives default⟩) (node : ShapeNode) : motive node := by
  refine ShapeNode.rec (motive_1 := motive) (motive_2 := fun k => ∀ e g, motive ⟨e, g, k⟩)
    (motive_3 := fun ms => ∀ p ∈ ms, motive p.2) (motive_4 := fun ss => ∀ s ∈ ss, motive s)
    (motive_5 := fun o => ∀ s ∈ o, motive s) (motive_6 := fun p => motive p.2)
    (fun e g _ ih => ih e g) ?component ?any ?equality ?type ?kind ?notEmpty ?regex ?temporal ?includes ?contentType
    ?semver ?object ?array ?eachLike ?eachEntry ?contains ?optional ?forbidden ?nullable ?anyOf ?oneOf
    ?noMember ?member ?noEntry ?entry ?noKeys ?keys (fun _ _ ih => ih) node
  case object => exact fun members ih e g => object e g members ih
  case array => exact fun entries ih e g => array e g entries ih
  case eachLike => exact fun items min max ih e g => eachLike e g items min max ih
  case eachEntry => exact fun keys values min max ihk ihv e g => eachEntry e g keys values min max ihk ihv
  case contains => exact fun entries ih e g => contains e g entries ih
  case optional => exact fun of ih e g => optional e g of ih
  case nullable => exact fun of ih e g => nullable e g of ih
  case oneOf => exact fun d alternatives default ih e g => oneOf e g d alternatives default ih
  case noMember => exact fun _ h => nomatch h
  case member => exact fun _ _ ihHead ihTail p hp => (List.mem_cons.1 hp).elim (fun h => h ▸ ihHead) (ihTail p)
  case noEntry => exact fun _ h => nomatch h
  case entry => exact fun _ _ ihHead ihTail s hs => (List.mem_cons.1 hs).elim (fun h => h ▸ ihHead) (ihTail s)
  case noKeys => exact fun _ h => nomatch h
  case keys => exact fun _ ih s hs => Option.mem_some.1 hs ▸ ih
  all_goals intros; exact leaf _ _ _ rfl

end PactJanus.Shape.Model
