import PactJanus.Plan.Actions
import PactJanus.Shape.Model

namespace PactJanus.Shape.Valid

open PactJanus.Data.Json PactJanus.Shape.Model

/-- The most nodes a shape tree may have, and the most nodes above one of them. -/
def maxNodes : Nat := 20000

def maxDepth : Nat := 64

/-- A component's operator, `<component>:<name>`, in a namespace that is not the plan's own. -/
def isComponentOperator (operator : String) : Bool :=
  match Lib.Text.splitOnce ':' operator with
  | some (component, name) => component ≠ "" && name ≠ "" && component ∉ Plan.Actions.reservedNamespaces
  | none => false

/-- The members of an object, or of the object a `nullable` wraps. -/
def unwrapObjectMembers (node : ShapeNode) : Option (List (String × ShapeNode)) :=
  match node.kind with
  | .object members => some members
  | .nullable ⟨_, _, .object members⟩ => some members
  | _ => none

/-- The literals an alternative's discriminator member is bound to. -/
def discriminatorOptions (discriminator : String) (alternative : ShapeNode) : Option (List Json) :=
  match (unwrapObjectMembers alternative).bind fun members => members.lookup discriminator with
  | some ⟨some e, _, .equality⟩ => some [e.value]
  | some ⟨_, _, .anyOf options⟩ => some options
  | _ => none

/-- No value of one list equals a value of the other. -/
def disjointValues (a b : List Json) : Bool := a.all fun x => b.all fun y => !valuesEqual x y

/-- Every two elements, the later with the earlier, are related. -/
def pairwise {α : Type} (related : α → α → Bool) : List α → Bool
  | [] => true
  | a :: rest => rest.all (related a) && pairwise related rest

def sortedNames : List String → Bool
  | a :: b :: rest => a < b && sortedNames (b :: rest)
  | _ => true

def exampleValid : Option Example → Bool
  | some e => distinctKeys e.value
  | none => true

/-- The alternatives of a union: objects, each telling its own literals apart from the others'. -/
def alternativesValid (discriminator : String) (alternatives : List (String × ShapeNode)) : Bool :=
  decide (2 ≤ alternatives.length) && sortedNames (alternatives.map Prod.fst) &&
    alternatives.all (fun p => (discriminatorOptions discriminator p.2).isSome) &&
    pairwise disjointValues (alternatives.map fun p => (discriminatorOptions discriminator p.2).getD [])

/-- What a node must satisfy whatever is under it. -/
def nodeValid (example? : Option Example) : ShapeKind → Bool
  | .component operator raw => isComponentOperator operator && distinctKeysMembers raw
  | .equality => example?.isSome
  | .type => example?.isSome
  | .object members => decide (members.map Prod.fst).Nodup
  | .array entries => decide (entries.length ≤ maxNodes) && entries.all fun s => !admitsAbsent s
  | .eachLike items min max => (max.all fun m => min ≤ m) && !admitsAbsent items
  | .eachEntry keys values min max =>
    (max.all fun m => min ≤ m) && keys.all (fun s => !admitsAbsent s) && !admitsAbsent values
  | .contains entries => decide (entries.length ≤ maxNodes) && entries.all fun s => !admitsAbsent s
  | .optional of => !admitsAbsent of
  | .nullable of =>
    !admitsAbsent of &&
      match of.kind with
      | .nullable _ => false
      | _ => true
  | .anyOf options =>
    !options.isEmpty && options.all distinctKeys && pairwise (fun a b => !valuesEqual b a) options &&
      example?.all fun e => options.any fun o => valuesEqual o e.value
  | .oneOf discriminator alternatives default =>
    alternativesValid discriminator alternatives && alternatives.all (fun p => !admitsAbsent p.2) &&
      default.all fun name => name ∈ alternatives.map Prod.fst
  | _ => true

mutual

/-- Every node of the tree is valid. -/
def wellFormed : ShapeNode → Bool
  | ⟨example?, _, kind⟩ => exampleValid example? && nodeValid example? kind && wellFormedKind kind
termination_by structural node => node

def wellFormedKind : ShapeKind → Bool
  | .object members => wellFormedMembers members
  | .array entries => wellFormedEntries entries
  | .eachLike items _ _ => wellFormed items
  | .eachEntry keys values _ _ => wellFormedKeys keys && wellFormed values
  | .contains entries => wellFormedEntries entries
  | .optional of => wellFormed of
  | .nullable of => wellFormed of
  | .oneOf _ alternatives _ => wellFormedMembers alternatives
  | _ => true
termination_by structural kind => kind

def wellFormedMembers : List (String × ShapeNode) → Bool
  | [] => true
  | (_, node) :: rest => wellFormed node && wellFormedMembers rest
termination_by structural members => members

def wellFormedEntries : List ShapeNode → Bool
  | [] => true
  | node :: rest => wellFormed node && wellFormedEntries rest
termination_by structural entries => entries

def wellFormedKeys : Option ShapeNode → Bool
  | none => true
  | some node => wellFormed node
termination_by structural keys => keys

end

mutual

/-- The nodes of a tree. -/
def nodeCount : ShapeNode → Nat
  | ⟨_, _, kind⟩ => 1 + nodeCountKind kind
termination_by structural node => node

def nodeCountKind : ShapeKind → Nat
  | .object members => nodeCountMembers members
  | .array entries => nodeCountEntries entries
  | .eachLike items _ _ => nodeCount items
  | .eachEntry keys values _ _ => nodeCountKeys keys + nodeCount values
  | .contains entries => nodeCountEntries entries
  | .optional of => nodeCount of
  | .nullable of => nodeCount of
  | .oneOf _ alternatives _ => nodeCountMembers alternatives
  | _ => 0
termination_by structural kind => kind

def nodeCountMembers : List (String × ShapeNode) → Nat
  | [] => 0
  | (_, node) :: rest => nodeCount node + nodeCountMembers rest
termination_by structural members => members

def nodeCountEntries : List ShapeNode → Nat
  | [] => 0
  | node :: rest => nodeCount node + nodeCountEntries rest
termination_by structural entries => entries

def nodeCountKeys : Option ShapeNode → Nat
  | none => 0
  | some node => nodeCount node
termination_by structural keys => keys

end

mutual

/-- The most nodes above a node of the tree. -/
def depth : ShapeNode → Nat
  | ⟨_, _, kind⟩ => depthKind kind
termination_by structural node => node

def depthKind : ShapeKind → Nat
  | .object members => depthMembers members
  | .array entries => depthEntries entries
  | .eachLike items _ _ => depth items + 1
  | .eachEntry keys values _ _ => max (depthKeys keys) (depth values + 1)
  | .contains entries => depthEntries entries
  | .optional of => depth of + 1
  | .nullable of => depth of + 1
  | .oneOf _ alternatives _ => depthMembers alternatives
  | _ => 0
termination_by structural kind => kind

def depthMembers : List (String × ShapeNode) → Nat
  | [] => 0
  | (_, node) :: rest => max (depth node + 1) (depthMembers rest)
termination_by structural members => members

def depthEntries : List ShapeNode → Nat
  | [] => 0
  | node :: rest => max (depth node + 1) (depthEntries rest)
termination_by structural entries => entries

def depthKeys : Option ShapeNode → Nat
  | none => 0
  | some node => depth node + 1
termination_by structural keys => keys

end

/-- A shape document the engine reads: every node valid, no absence at its root, and within the limits. -/
structure WellFormed (shape : ShapeNode) : Prop where
  tree : wellFormed shape = true
  root : admitsAbsent shape = false
  nodes : nodeCount shape ≤ maxNodes
  depth : depth shape ≤ maxDepth

instance (shape : ShapeNode) : Decidable (WellFormed shape) :=
  decidable_of_iff (wellFormed shape = true ∧ admitsAbsent shape = false ∧ nodeCount shape ≤ maxNodes ∧
      depth shape ≤ maxDepth)
    ⟨fun ⟨a, b, c, d⟩ => ⟨a, b, c, d⟩, fun ⟨a, b, c, d⟩ => ⟨a, b, c, d⟩⟩

/-! What a valid tree says of the nodes under its root. -/

theorem wellFormed_mk {e : Option Example} {g : Option Json} {k : ShapeKind} :
    wellFormed ⟨e, g, k⟩ = true ↔ exampleValid e = true ∧ nodeValid e k = true ∧ wellFormedKind k = true := by
  simp [wellFormed, and_assoc]

theorem wellFormedMembers_iff {members : List (String × ShapeNode)} :
    wellFormedMembers members = true ↔ ∀ p ∈ members, wellFormed p.2 = true := by
  induction members with
  | nil => simp [wellFormedMembers]
  | cons p rest ih => simp [wellFormedMembers, ih]

theorem wellFormedEntries_iff {entries : List ShapeNode} :
    wellFormedEntries entries = true ↔ ∀ s ∈ entries, wellFormed s = true := by
  induction entries with
  | nil => simp [wellFormedEntries]
  | cons s rest ih => simp [wellFormedEntries, ih]

theorem wellFormedKeys_iff {keys : Option ShapeNode} :
    wellFormedKeys keys = true ↔ ∀ s ∈ keys, wellFormed s = true := by
  cases keys <;> simp [wellFormedKeys]

end PactJanus.Shape.Valid
