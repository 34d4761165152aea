import PactJanus.Shape.Parse

namespace PactJanus.Shape.Documents

open PactJanus.Data.Json PactJanus.Shape.Model PactJanus.Shape.Parse

/-! The members of a document that a shape represents: those that the operators of its nodes read. -/

def ExampleOf (example? : Option Example) (document : Json) : Prop :=
  match example? with
  | none => get "example" document = none
  | some e => get "example" document = some e.value ∧ get "encoded" document = e.encoded.map .string

def unsigned (n : UInt64) : Json := .number (.posInt n)

/-- The bounds on a size; at least one where the document gives none. -/
def CardinalityOf (min : UInt64) (max : Option UInt64) (document : Json) : Prop :=
  (∃ given : Option UInt64, get "min" document = given.map unsigned ∧ min = given.getD 1) ∧
    get "max" document = max.map unsigned

mutual

/-- A shape says what a document says, member by member of each of its nodes. -/
def Represents : ShapeNode → Json → Prop
  | ⟨example?, generator, kind⟩, document =>
    get "shape" document = some (.string (operatorName kind)) ∧ ExampleOf example? document ∧
      get "generator" document = generator ∧ RepresentsKind kind document
termination_by structural node => node

def RepresentsKind : ShapeKind → Json → Prop
  | .component _ raw, document => ∃ obj, document = .object obj ∧ raw = rawMembers obj
  | .regex pattern, document => get "pattern" document = some (.string pattern)
  | .temporal _ format, document => get "format" document = format.map .string
  | .includes substring, document => get "substring" document = some (.string substring)
  | .contentType contentType, document => get "content-type" document = some (.string contentType)
  | .object members, document =>
    ∃ documents, get "members" document = some (.object documents) ∧ RepresentsMembers members documents
  | .array entries, document =>
    ∃ documents, get "entries" document = some (.array documents) ∧ RepresentsEntries entries documents
  | .contains entries, document =>
    ∃ documents, get "entries" document = some (.array documents) ∧ RepresentsEntries entries documents
  | .eachLike items min max, document =>
    (∃ under, get "items" document = some under ∧ Represents items under) ∧ CardinalityOf min max document
  | .eachEntry keys values min max, document =>
    (∃ under, get "values" document = some under ∧ Represents values under) ∧
      RepresentsKeys keys (get "keys" document) ∧ CardinalityOf min max document
  | .optional of, document => ∃ under, get "of" document = some under ∧ Represents of under
  | .nullable of, document => ∃ under, get "of" document = some under ∧ Represents of under
  | .anyOf options, document => get "options" document = some (.array options)
  | .oneOf discriminator alternatives default, document =>
    get "discriminator" document = some (.string discriminator) ∧
      (∃ documents written, get "alternatives" document = some (.object documents) ∧ written.Perm documents ∧
        RepresentsMembers alternatives written) ∧
      get "default" document = default.map .string
  | _, _ => True
termination_by structural kind => kind

def RepresentsMembers : List (String × ShapeNode) → List (String × Json) → Prop
  | [], [] => True
  | (name, node) :: rest, (name', document) :: documents =>
    name = name' ∧ Represents node document ∧ RepresentsMembers rest documents
  | _, _ => False
termination_by structural members => members

def RepresentsEntries : List ShapeNode → List Json → Prop
  | [], [] => True
  | node :: rest, document :: documents => Represents node document ∧ RepresentsEntries rest documents
  | _, _ => False
termination_by structural entries => entries

def RepresentsKeys : Option ShapeNode → Option Json → Prop
  | none, none => True
  | some node, some document => Represents node document
  | _, _ => False
termination_by structural keys => keys

end

section

-- The equations of these definitions are made here, once for all who rewrite with them.
attribute [local simp] Represents RepresentsKind RepresentsMembers RepresentsEntries RepresentsKeys

end

theorem representsMembers_iff {members : List (String × ShapeNode)} {documents : List (String × Json)} :
    RepresentsMembers members documents ↔
      List.Forall₂ (fun p q => p.1 = q.1 ∧ Represents p.2 q.2) members documents := by
  induction members generalizing documents with
  | nil => cases documents <;> simp [RepresentsMembers]
  | cons p rest ih => cases documents <;> simp [RepresentsMembers, ih, and_assoc]

theorem representsEntries_iff {entries : List ShapeNode} {documents : List Json} :
    RepresentsEntries entries documents ↔ List.Forall₂ Represents entries documents := by
  induction entries generalizing documents with
  | nil => cases documents <;> simp [RepresentsEntries]
  | cons node rest ih => cases documents <;> simp [RepresentsEntries, ih]

end PactJanus.Shape.Documents
