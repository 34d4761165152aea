import PactJanus.Lib.Base64
import PactJanus.Variant.Assignment

namespace PactJanus.Variant.Generate

open PactJanus.Data.Json PactJanus.Lib PactJanus.Shape PactJanus.Shape.Model PactJanus.Shape.VariantSpace
  PactJanus.Plan.Compile

/-! The value one variant of a shape produces. -/

/-- What a slot holds: a document, or octets. -/
inductive Generated where
  | document (value : Json)
  | octets (bytes : List UInt8)

/-- As a document: octets are their base64 text inside one. -/
def Generated.intoJson : Generated → Json
  | .document value => value
  | .octets bytes => .string (Base64.encode bytes)

/-- An example as it produces a value: octets where it is tagged as base64 and is. -/
def exampleOf (e : Example) : Generated :=
  match if e.encoded = some "base64" then (asStr e.value).bind Base64.decode else none with
  | some bytes => .octets bytes
  | none => .document e.value

def cardinalitySize (at' : String) (min : UInt64) (max : Option UInt64) (α : Assignment) : UInt64 :=
  match α.lookup (Path.dimensionId at' Facet.cardinality.text) with
  | some point => (((cardinalityPoints min max).find? fun p => p.name == point).map CardinalityPoint.size).getD min
  | none => min

/-- A member put into an object: a name the object has keeps its place. -/
def insertField (name : String) (value : Json) : List (String × Json) → List (String × Json)
  | [] => [(name, value)]
  | (key, v) :: rest => if key = name then (key, value) :: rest else (key, v) :: insertField name value rest

def entryKey (key? : Option Json) (index : Nat) : String := (key?.bind asStr).getD ("key" ++ index.repr)

/-- The entries of a map of one key and value, the key numbered where it is no string. -/
def entryFields (key? : Option Json) (value : Json) (size : Nat) : List (String × Json) :=
  (List.range size).foldl (fun fields index => insertField (entryKey key? index) value fields) []

def generatedAnyOf (example? : Option Example) (options : List Json) (at' : String) (α : Assignment) : Option Generated :=
  match (α.lookup (Path.dimensionId at' Facet.value.text)).bind fun point =>
      options.find? fun o => canonicalPointName o == point, example? with
  | some option, _ => some (.document option)
  | none, some declared => some (exampleOf declared)
  | none, none => options.head?.map .document

/-- The name of the alternative produced. -/
def chosenName (alternatives : List (String × ShapeNode)) (default : Option String) (at' : String) (α : Assignment) :
    Option String :=
  ((α.lookup (Path.dimensionId at' Facet.alternative.text)).or default).or (alternatives.head?.map Prod.fst)

mutual

/-- What a shape produces in a slot, `none` where nothing is there. -/
def generated (α : Assignment) : ShapeNode → String → Option Generated
  | ⟨example?, _, .component _ _⟩, _ => example?.map exampleOf
  | ⟨_, _, .optional of⟩, at' =>
    if (α.lookup (Path.dimensionId at' Facet.presence.text)).getD "present" ≠ "absent" then generated α of at' else none
  | ⟨_, _, .forbidden⟩, _ => none
  | ⟨_, _, .nullable of⟩, at' =>
    if α.lookup (Path.dimensionId at' Facet.nullability.text) = some "null" then some (.document .null)
    else generated α of at'
  | ⟨example?, _, .anyOf options⟩, at' => generatedAnyOf example? options at' α
  | ⟨_, _, .oneOf _ alternatives default⟩, at' =>
    (chosenName alternatives default at' α).bind fun name => generatedAlternative α alternatives name at'
  | ⟨_, _, .eachLike items min max⟩, at' =>
    let item := ((generated α items (Path.eachLikeItem at')).map Generated.intoJson).getD .null
    some (.document (.array (List.replicate (cardinalitySize at' min max α).toNat item)))
  | ⟨_, _, .eachEntry keys values min max⟩, at' =>
    let entry := ((generated α values (Path.eachEntryValue at')).map Generated.intoJson).getD .null
    let key? := generatedKey α keys (Path.eachEntryKey at')
    some (.document (.object (entryFields key? entry (cardinalitySize at' min max α).toNat)))
  | ⟨_, _, .object members⟩, at' => some (.document (.object (generatedMembers α members at')))
  | ⟨_, _, .array entries⟩, at' =>
    some (.document (.array ((generatedEntries α entries at' 0).map fun v => v.getD .null)))
  | ⟨_, _, .contains entries⟩, at' =>
    some (.document (.array ((generatedEntries α entries at' 0).filterMap id)))
  | ⟨example?, _, _⟩, _ => some ((example?.map exampleOf).getD (.document .null))
termination_by structural node => node

/-- The members produced, in the order they are declared in. -/
def generatedMembers (α : Assignment) : List (String × ShapeNode) → String → List (String × Json)
  | [], _ => []
  | (name, member) :: rest, at' =>
    match (generated α member (Path.member at' name)).map Generated.intoJson with
    | some v => (name, v) :: generatedMembers α rest at'
    | none => generatedMembers α rest at'
termination_by structural members => members

def generatedEntries (α : Assignment) : List ShapeNode → String → Nat → List (Option Json)
  | [], _, _ => []
  | entry :: rest, at', index =>
    (generated α entry (Path.arrayIndex at' index)).map Generated.intoJson :: generatedEntries α rest at' (index + 1)
termination_by structural entries => entries

def generatedKey (α : Assignment) : Option ShapeNode → String → Option Json
  | none, _ => none
  | some keys, at' => (generated α keys at').map Generated.intoJson
termination_by structural keys => keys

def generatedAlternative (α : Assignment) : List (String × ShapeNode) → String → String → Option Generated
  | [], _, _ => none
  | (name, alternative) :: rest, chosen, at' =>
    if name = chosen then generated α alternative (Path.alternative at' name)
    else generatedAlternative α rest chosen at'
termination_by structural alternatives => alternatives

end

/-- A shape's value as a position inside a document. -/
def value (α : Assignment) (shape : ShapeNode) (at' : String) : Option Json :=
  (generated α shape at').map Generated.intoJson

section Lists

variable {α : Assignment} {at' : String}

theorem generatedMembers_eq (members : List (String × ShapeNode)) :
    generatedMembers α members at' =
      members.filterMap fun p => (value α p.2 (Path.member at' p.1)).map fun v => (p.1, v) := by
  induction members with
  | nil => rfl
  | cons p rest ih =>
    obtain ⟨name, member⟩ := p
    simp only [generatedMembers, List.filterMap_cons, ih, value]
    cases generated α member (Path.member at' name) <;> rfl

theorem generatedEntries_eq (entries : List ShapeNode) (index : Nat) :
    generatedEntries α entries at' index = entries.mapIdx fun i s => value α s (Path.arrayIndex at' (index + i)) := by
  induction entries generalizing index with
  | nil => rfl
  | cons s rest ih => simp [generatedEntries, ih, List.mapIdx_cons, value, Nat.add_assoc, Nat.add_comm 1]

theorem generatedAlternative_eq (alternatives : List (String × ShapeNode)) (chosen : String) :
    generatedAlternative α alternatives chosen at' =
      (alternatives.find? fun p => p.1 == chosen).bind fun p => generated α p.2 (Path.alternative at' p.1) := by
  induction alternatives with
  | nil => rfl
  | cons p rest ih => by_cases h : p.1 = chosen <;> simp [generatedAlternative, h, ih]

end Lists

end PactJanus.Variant.Generate
