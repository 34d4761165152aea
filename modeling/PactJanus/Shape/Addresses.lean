import Mathlib.Data.List.Nodup
import Mathlib.Data.List.Perm.Basic
import PactJanus.Lib.Lists
import PactJanus.Shape.Placed

namespace PactJanus.Shape.Addresses

open PactJanus.Data.Json PactJanus.Lib.Lists PactJanus.Shape.Model PactJanus.Shape.Valid PactJanus.Shape.Nodes PactJanus.Shape.VariantSpace
  PactJanus.Shape.Placed

/-! Where a tree's dimensions are: structurally, and as the text of a dimension's path. -/

/-- One step from a shape to a shape under it. -/
inductive Step where
  | member (name : String)
  | item
  | value
  | key
  | index (i : Nat)
  | alternative (name : String)
deriving DecidableEq

/-- The path a step leads to. -/
def Step.on (path : String) : Step → String
  | .member name => Path.member path name
  | .item => Path.eachLikeItem path
  | .value => Path.eachEntryValue path
  | .key => Path.eachEntryKey path
  | .index i => Path.arrayIndex path i
  | .alternative name => Path.alternative path name

/-- The path some steps lead to. -/
def pathOf (path : String) (steps : List Step) : String := steps.foldl Step.on path

/-- What is found at some steps from a shape, further on by a step. -/
def further (step : Step) (found : List (List Step × ShapeNode)) : List (List Step × ShapeNode) :=
  found.map fun l => (step :: l.1, l.2)

mutual

/-- The nodes of a tree, each with the steps to it. -/
def located : ShapeNode → List (List Step × ShapeNode)
  | ⟨e, g, kind⟩ => ([], ⟨e, g, kind⟩) :: locatedUnder kind
termination_by structural node => node

def locatedUnder : ShapeKind → List (List Step × ShapeNode)
  | .object members => locatedMembers members
  | .array entries => locatedEntries entries 0
  | .eachLike items _ _ => further .item (located items)
  | .eachEntry keys values _ _ => locatedKeys keys ++ further .value (located values)
  | .contains entries => locatedEntries entries 0
  | .optional of => located of
  | .nullable of => located of
  | .oneOf _ alternatives _ => locatedAlternatives alternatives
  | _ => []
termination_by structural kind => kind

def locatedMembers : List (String × ShapeNode) → List (List Step × ShapeNode)
  | [] => []
  | (name, member) :: rest => further (.member name) (located member) ++ locatedMembers rest
termination_by structural members => members

def locatedAlternatives : List (String × ShapeNode) → List (List Step × ShapeNode)
  | [] => []
  | (name, alternative) :: rest => further (.alternative name) (located alternative) ++ locatedAlternatives rest
termination_by structural alternatives => alternatives

def locatedEntries : List ShapeNode → Nat → List (List Step × ShapeNode)
  | [], _ => []
  | entry :: rest, i => further (.index i) (located entry) ++ locatedEntries rest (i + 1)
termination_by structural entries => entries

def locatedKeys : Option ShapeNode → List (List Step × ShapeNode)
  | none => []
  | some keys => further .key (located keys)
termination_by structural keys => keys

end

/-- The facet of the dimension a node declares, if its operator is wider than one case. -/
def facetOf (n : ShapeNode) : Option Facet :=
  match n.kind with
  | .optional _ => some .presence
  | .nullable _ => some .nullability
  | .anyOf options => if 2 ≤ options.length then some .value else none
  | .oneOf _ alternatives _ => if 2 ≤ alternatives.length then some .alternative else none
  | .eachLike _ min max => if 2 ≤ (cardinalityPoints min max).length then some .cardinality else none
  | .eachEntry _ _ min max => if 2 ≤ (cardinalityPoints min max).length then some .cardinality else none
  | _ => none

/-- Where a tree's dimensions are. -/
def facets (S : ShapeNode) : List (List Step × Facet) := (located S).filterMap fun l => (facetOf l.2).map fun f => (l.1, f)

section Walk

end Walk

section Nodup

theorem sortedNames_iff {names : List String} : sortedNames names = true ↔ names.Pairwise (· < ·) := by
  induction names with
  | nil => exact iff_of_true rfl List.Pairwise.nil
  | cons a rest ih =>
    cases rest with
    | nil => exact iff_of_true rfl (List.pairwise_singleton _ _)
    | cons b rest =>
      rw [sortedNames, Bool.and_eq_true, decide_eq_true_iff, ih, List.pairwise_cons (a := a)]
      refine and_congr_left fun hrest => ⟨fun hlt c hc => ?_, fun hall => hall b List.mem_cons_self⟩
      rcases List.mem_cons.1 hc with rfl | hc
      · exact hlt
      · exact lt_trans hlt ((List.pairwise_cons.1 hrest).1 c hc)

end Nodup

end PactJanus.Shape.Addresses
