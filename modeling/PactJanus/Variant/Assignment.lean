import PactJanus.Lib.SortedMap
import PactJanus.Plan.Compile

namespace PactJanus.Variant.Assignment

open PactJanus.Lib PactJanus.Shape.VariantSpace PactJanus.Plan.Compile

/-! Assignments of points to dimensions, kept in the order of the dimensions' ids. -/

/-- Whether every gate of a dimension stands open. -/
def isActive (α : Assignment) (d : Dimension) : Bool := d.gatedBy.all fun g => α.lookup g.dimension == some g.point

/-- The assignment walked on from `α` through the dimensions: each active one keeps the point `partial'` gives it,
or takes its default. -/
def completeFrom (partial' : Assignment) : List Dimension → Assignment → Assignment
  | [], α => α
  | d :: rest, α =>
    completeFrom partial' rest
      (if isActive α d then SortedMap.insert d.id ((partial'.lookup d.id).getD d.default) α else α)

def complete (space : List Dimension) (partial' : Assignment) : Assignment := completeFrom partial' space []

/-- An assignment that `complete` leaves as it is, and that gives each active dimension one of its points. -/
structure CompleteFor (space : List Dimension) (α : Assignment) : Prop where
  fixed : complete space α = α
  points : ∀ d ∈ space, isActive α d = true → ∃ p ∈ d.points, α.lookup d.id = some p.name

end PactJanus.Variant.Assignment
