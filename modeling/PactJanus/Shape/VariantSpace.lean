import PactJanus.Shape.Model

namespace PactJanus.Shape.Path

/-! The syntax of dimension ids, `<path>#<facet>`: one builder for each step of a path. -/

def root (part slot : String) : String := part ++ "." ++ slot

def member (base name : String) : String := base ++ "." ++ name

def eachLikeItem (base : String) : String := base ++ "[*]"

def eachEntryValue (base : String) : String := base ++ "\x7b*\x7d"

def eachEntryKey (base : String) : String := base ++ "\x7bkey\x7d"

def arrayIndex (base : String) (index : Nat) : String := base ++ "[" ++ index.repr ++ "]"

def alternative (base name : String) : String := base ++ "@" ++ name

def dimensionId (path facet : String) : String := path ++ "#" ++ facet

end PactJanus.Shape.Path

namespace PactJanus.Shape.VariantSpace

open PactJanus.Data.Json PactJanus.Shape.Model PactJanus.Shape

/-- A point of another dimension that must be selected for a dimension to be active. -/
structure Gate where
  dimension : String
  point : String
deriving DecidableEq

/-- One point of a dimension, with the literal or the cardinality it selects. -/
structure Point where
  name : String
  value : Option Json
  size : Option UInt64

def Point.named (name : String) : Point := ⟨name, none, none⟩

inductive Facet where
  | presence | nullability | value | alternative | cardinality
deriving DecidableEq

def Facet.text : Facet → String
  | .presence => "presence"
  | .nullability => "nullability"
  | .value => "value"
  | .alternative => "alternative"
  | .cardinality => "cardinality"

/-- One axis along which a shape's admitted set is deliberately wider than one case. -/
structure Dimension where
  id : String
  path : String
  facet : Facet
  operator : String
  points : List Point
  default : String
  gatedBy : List Gate

structure CardinalityPoint where
  name : String
  size : UInt64
deriving DecidableEq

/-- A string option is its own text, any other its JSON text. -/
def canonicalPointName : Json → String
  | .string s => s
  | other => text other

/-- `min`; `min+1` when there is room above it; `max` when it is finite and distinct from both. -/
def cardinalityPoints (min : UInt64) (max : Option UInt64) : List CardinalityPoint :=
  let hasMinPlus1 : Bool :=
    match max with
    | none => true
    | some m => min < m
  let wider := if hasMinPlus1 then [⟨"min+1", min + 1⟩] else []
  let bounded :=
    match max with
    | some m => if m ≠ min ∧ (hasMinPlus1 = false ∨ m ≠ min + 1) then [⟨"max", m⟩] else []
    | none => []
  ⟨"min", min⟩ :: (wider ++ bounded)

/-- The lengths a cardinality point admits when a value is matched under it, `none` above for no bound. -/
def cardinalityRegion (min : UInt64) (max : Option UInt64) (pointName : String) : Option (UInt64 × Option UInt64) :=
  let points := cardinalityPoints min max
  match points.find? (fun p => p.name == pointName) with
  | none => none
  | some point =>
    if point.name ≠ "min+1" then some (point.size, some point.size)
    else
      match max with
      | some m => some (point.size, if points.any (fun p => p.name == "max") then some (m - 1) else some m)
      | none => some (point.size, none)

def dimension (at' : String) (facet : Facet) (operator : String) (points : List Point) (default : String)
    (gates : List Gate) : Dimension :=
  ⟨Path.dimensionId at' facet.text, at', facet, operator, points, default, gates⟩

/-- The dimension of a collection's size, where it has more than one point. -/
def cardinalityDimension (at' operator : String) (min : UInt64) (max : Option UInt64) (gates : List Gate) :
    List Dimension :=
  let points := cardinalityPoints min max
  if 2 ≤ points.length then
    [dimension at' .cardinality operator (points.map fun p => ⟨p.name, none, some p.size⟩) "min" gates]
  else []

def anyOfDimension (at' : String) (example? : Option Example) (options : List Json) (gates : List Gate) :
    List Dimension :=
  match options with
  | first :: _ :: _ =>
    [dimension at' .value "any-of" (options.map fun v => ⟨canonicalPointName v, some v, none⟩)
      (match example? with
        | some e => canonicalPointName e.value
        | none => canonicalPointName first) gates]
  | _ => []

mutual

/-- The dimensions a shape contributes at a path, parents before the dimensions they gate. -/
def walk : ShapeNode → String → List Gate → List Dimension
  | ⟨_, _, .optional of⟩, at', gates =>
    dimension at' .presence "optional" [Point.named "present", Point.named "absent"] "present" gates ::
      walk of at' (gates ++ [⟨Path.dimensionId at' Facet.presence.text, "present"⟩])
  | ⟨_, _, .nullable of⟩, at', gates =>
    dimension at' .nullability "nullable" [Point.named "non-null", Point.named "null"] "non-null" gates ::
      walk of at' (gates ++ [⟨Path.dimensionId at' Facet.nullability.text, "non-null"⟩])
  | ⟨example?, _, .anyOf options⟩, at', gates => anyOfDimension at' example? options gates
  | ⟨_, _, .oneOf _ alternatives default⟩, at', gates =>
    match alternatives with
    | first :: _ :: _ =>
      dimension at' .alternative "one-of" (alternatives.map fun p => Point.named p.1) (default.getD first.1) gates ::
        walkAlternatives alternatives at' gates
    | _ => []
  | ⟨_, _, .eachLike items min max⟩, at', gates =>
    cardinalityDimension at' "each-like" min max gates ++ walk items (Path.eachLikeItem at') gates
  | ⟨_, _, .eachEntry keys values min max⟩, at', gates =>
    cardinalityDimension at' "each-entry" min max gates ++ walkKeys keys (Path.eachEntryKey at') gates ++
      walk values (Path.eachEntryValue at') gates
  -- Each member is walked before they are put in name order, which is the same: only the order is by name.
  | ⟨_, _, .object members⟩, at', gates =>
    (membersByName (walkMembers members at' gates)).flatMap Prod.snd
  | ⟨_, _, .array entries⟩, at', gates => walkEntries entries at' 0 gates
  | ⟨_, _, .contains entries⟩, at', gates => walkEntries entries at' 0 gates
  | _, _, _ => []
termination_by structural node => node

def walkMembers : List (String × ShapeNode) → String → List Gate → List (String × List Dimension)
  | [], _, _ => []
  | (name, member) :: rest, at', gates =>
    (name, walk member (Path.member at' name) gates) :: walkMembers rest at' gates
termination_by structural members => members

def walkAlternatives : List (String × ShapeNode) → String → List Gate → List Dimension
  | [], _, _ => []
  | (name, alternative) :: rest, at', gates =>
    walk alternative (Path.alternative at' name)
      (gates ++ [⟨Path.dimensionId at' Facet.alternative.text, name⟩]) ++ walkAlternatives rest at' gates
termination_by structural alternatives => alternatives

def walkEntries : List ShapeNode → String → Nat → List Gate → List Dimension
  | [], _, _, _ => []
  | entry :: rest, at', index, gates =>
    walk entry (Path.arrayIndex at' index) gates ++ walkEntries rest at' (index + 1) gates
termination_by structural entries => entries

def walkKeys : Option ShapeNode → String → List Gate → List Dimension
  | none, _, _ => []
  | some keys, at', gates => walk keys at' gates
termination_by structural keys => keys

end

/-- The variant space of one shape tree rooted at a dimension path. -/
def compute (shape : ShapeNode) (at' : String) : List Dimension := walk shape at' []

/-- The variant spaces of several shape trees, one after the other. -/
def computeMany (shapes : List (String × ShapeNode)) : List Dimension :=
  shapes.flatMap fun p => compute p.2 p.1

end PactJanus.Shape.VariantSpace
