import PactJanus.Data.Equality
import PactJanus.Lib.Base64
import PactJanus.Shape.Nodes

namespace PactJanus.Shape.Admits

open PactJanus.Data.Json PactJanus.Lib PactJanus.Shape.Model PactJanus.Shape.Valid PactJanus.Shape.Nodes

/-! What a shape admits, as the language's specification says it: a document, or absence where nothing is there.
Of the operators that need code from outside the language, and of `contains`, nothing is said. -/

/-- A value whose length is not zero: a string, an array or an object with something in it. -/
def hasLength : Json → Bool
  | .string s => !s.isEmpty
  | .array items => !items.isEmpty
  | .object members => !members.isEmpty
  | _ => false

/-- The engine's reading of the same, where a number or a boolean is never empty. -/
def hasContent : Json → Bool
  | .bool _ | .number _ => true
  | v => hasLength v

def sameKind : Json → Json → Bool
  | .null, .null => true
  | .bool _, .bool _ => true
  | .number _, .number _ => true
  | .string _, .string _ => true
  | .array _, .array _ => true
  | .object _, .object _ => true
  | _, _ => false

def ofKind : ValueKind → Json → Bool
  | .string, .string _ => true
  | .number, .number _ => true
  | .integer, .number n => isWrittenInteger n
  | .decimal, .number n => !isWrittenInteger n
  | .boolean, .bool _ => true
  | .null, .null => true
  | _, _ => false

/-- The document an example is, unless it is of octets: no document of a part is. -/
def exampleDocument : Option Example → Option Json
  | some e => if e.encoded = some "base64" then none else some e.value
  | none => none

/-- What a shape with no shape under it admits of values. -/
def admitsValue (nonEmpty : Json → Bool) (example? : Option Example) : ShapeKind → Json → Bool
  | .any, _ => true
  | .equality, v => (exampleDocument example?).any (valuesEqual v)
  | .type, v => (exampleDocument example?).any (sameKind v)
  | .kind k, v => ofKind k v
  | .notEmpty, v => nonEmpty v
  | .anyOf options, v => options.any (valuesEqual v)
  | _, _ => false

/-- Whether a value's discriminator is one of an alternative's literals. -/
def selectedBy (discriminator : String) (alternative : ShapeNode) (v : Json) : Bool :=
  (get discriminator v).any fun tag =>
    (discriminatorOptions discriminator alternative).any fun options => options.any (valuesEqual tag)

def withinBounds (min : UInt64) (max : Option UInt64) (size : Nat) : Bool :=
  decide (min.toNat ≤ size) && max.all fun upper => decide (size ≤ upper.toNat)

mutual

/-- What a shape admits in a slot, `none` being that nothing is in it. -/
def admitsWith (nonEmpty : Json → Bool) : ShapeNode → Option Json → Bool
  | ⟨_, _, .object members⟩, slot =>
    match slot with
    | some (.object fields) => admitsMembers nonEmpty members fields
    | _ => false
  | ⟨_, _, .array entries⟩, slot =>
    match slot with
    | some (.array items) => admitsEntries nonEmpty entries items
    | _ => false
  | ⟨_, _, .eachLike items min max⟩, slot =>
    match slot with
    | some (.array elements) =>
      withinBounds min max elements.length && elements.all fun v => admitsWith nonEmpty items (some v)
    | _ => false
  | ⟨_, _, .eachEntry keys values min max⟩, slot =>
    match slot with
    | some (.object fields) =>
      withinBounds min max fields.length && fields.all fun p =>
        admitsKey nonEmpty keys p.1 && admitsWith nonEmpty values (some p.2)
    | _ => false
  | ⟨_, _, .optional of⟩, slot => slot.isNone || admitsWith nonEmpty of slot
  | ⟨_, _, .forbidden⟩, slot => slot.isNone
  | ⟨_, _, .nullable of⟩, slot => slot.any isNull || admitsWith nonEmpty of slot
  | ⟨_, _, .oneOf discriminator alternatives _⟩, slot =>
    slot.any fun v => admitsAlternative nonEmpty alternatives discriminator v
  | ⟨example?, _, kind⟩, slot => slot.any (admitsValue nonEmpty example? kind)
termination_by structural node => node

def admitsMembers (nonEmpty : Json → Bool) : List (String × ShapeNode) → List (String × Json) → Bool
  | [], _ => true
  | (name, member) :: rest, fields =>
    admitsWith nonEmpty member (fields.lookup name) && admitsMembers nonEmpty rest fields
termination_by structural members => members

def admitsEntries (nonEmpty : Json → Bool) : List ShapeNode → List Json → Bool
  | [], items => items.isEmpty
  | _ :: _, [] => false
  | entry :: rest, v :: items => admitsWith nonEmpty entry (some v) && admitsEntries nonEmpty rest items
termination_by structural entries => entries

def admitsKey (nonEmpty : Json → Bool) : Option ShapeNode → String → Bool
  | none, _ => true
  | some keys, key => admitsWith nonEmpty keys (some (.string key))
termination_by structural keys => keys

/-- An alternative that the value's discriminator selects admits the value. -/
def admitsAlternative (nonEmpty : Json → Bool) : List (String × ShapeNode) → String → Json → Bool
  | [], _, _ => false
  | (_, alternative) :: rest, discriminator, v =>
    (selectedBy discriminator alternative v && admitsWith nonEmpty alternative (some v)) ||
      admitsAlternative nonEmpty rest discriminator v
termination_by structural alternatives => alternatives

end

/-- What a shape admits, as the specification says it. -/
def admits (node : ShapeNode) (slot : Option Json) : Bool := admitsWith hasLength node slot

/-- What a shape admits when `not-empty` is read as the engine reads it. -/
def admitsContent (node : ShapeNode) (slot : Option Json) : Bool := admitsWith hasContent node slot

section Lists

variable {nonEmpty : Json → Bool}

theorem admitsMembers_iff {members : List (String × ShapeNode)} {fields : List (String × Json)} :
    admitsMembers nonEmpty members fields = true ↔
      ∀ p ∈ members, admitsWith nonEmpty p.2 (fields.lookup p.1) = true := by
  induction members with
  | nil => simp [admitsMembers]
  | cons p rest ih => simp only [admitsMembers, Bool.and_eq_true, ih, List.forall_mem_cons]

theorem admitsEntries_iff {entries : List ShapeNode} {items : List Json} :
    admitsEntries nonEmpty entries items = true ↔
      List.Forall₂ (fun s v => admitsWith nonEmpty s (some v) = true) entries items := by
  induction entries generalizing items with
  | nil => cases items <;> simp [admitsEntries]
  | cons s rest ih => cases items <;> simp [admitsEntries, ih]

theorem admitsAlternative_iff {alternatives : List (String × ShapeNode)} {discriminator : String} {v : Json} :
    admitsAlternative nonEmpty alternatives discriminator v = true ↔
      ∃ p ∈ alternatives, selectedBy discriminator p.2 v = true ∧ admitsWith nonEmpty p.2 (some v) = true := by
  induction alternatives with
  | nil => simp [admitsAlternative]
  | cons p rest ih => simp [admitsAlternative, ih]

theorem admitsWith_oneOf {e : Option Example} {g : Option Json} {discriminator : String}
    {alternatives : List (String × ShapeNode)} {default : Option String} {slot : Option Json} :
    admitsWith nonEmpty ⟨e, g, .oneOf discriminator alternatives default⟩ slot = true ↔
      ∃ v, slot = some v ∧ ∃ p ∈ alternatives, selectedBy discriminator p.2 v = true ∧
        admitsWith nonEmpty p.2 slot = true := by
  cases slot with
  | none => simp [admitsWith]
  | some v => simp [admitsWith, admitsAlternative_iff]

end Lists

/-! The operators the semantics is stated of. -/

/-- An operator whose meaning needs nothing outside the language, and is no search. -/
def isDescribed : ShapeKind → Bool
  | .component .. | .regex _ | .temporal .. | .includes _ | .contentType _ | .semver | .contains _ => false
  | _ => true

def isNullable (node : ShapeNode) : Bool :=
  match node.kind with
  | .nullable _ => true
  | _ => false

/-- A union none of whose alternatives is wrapped in `nullable`. -/
def plainAlternatives : ShapeKind → Bool
  | .oneOf _ alternatives _ => alternatives.all fun p => !isNullable p.2
  | _ => true

/-- An equality whose octets, if it is to octets, are well written. -/
def octetsDecode (node : ShapeNode) : Bool :=
  match node.kind, node.example? with
  | .equality, some e => e.encoded ≠ some "base64" || ((asStr e.value).bind Base64.decode).isSome
  | _, _ => true

end PactJanus.Shape.Admits
