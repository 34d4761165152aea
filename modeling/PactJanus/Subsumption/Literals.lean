import PactJanus.Contracts.Model
import PactJanus.Data.Equality
import PactJanus.Plan.Documents

namespace PactJanus.Subsumption.Literals

open PactJanus.Lib.Binary64 PactJanus.Data.Json PactJanus.Data.Equality PactJanus.Contracts.Model PactJanus.Plan.Value
  PactJanus.Plan.Result PactJanus.Plan.Documents

/-! Equality of literals as the parser, the comparison of shapes and the interpreter each decide it. -/

/-- The double of a number as a reader asks for it. Every number that is kept has one. -/
def asDouble (n : Number) : Option Binary64 := some (asF64 n)

/-- Numbers by their doubles, and as they are stored where one of them has none. -/
def doublesEqual (x y : Number) : Bool :=
  match asDouble x, asDouble y with
  | some x, some y => key x == key y
  | _, _ => numbersSame x y

/-- Structural equality as the comparison of shapes decides it. -/
def valueEq (a b : Json) : Bool := equalBy doublesEqual a b

theorem valueEq_eq (a b : Json) : valueEq a b = valuesEqual a b := by
  have hnumbers : doublesEqual = numbersEqual := by
    funext x y
    rfl
  rw [valueEq, hnumbers, valuesEqual]

theorem valuesEqual_equivalence : Equivalence fun a b : Document => valuesEqual a.val b.val = true where
  refl a := valuesEqual_refl a.property
  symm {a b} := valuesEqual_symm a.property b.property
  trans := valuesEqual_trans

/-- The comparison and the interpreter decide the equality of two documents as the parser does, and what they decide is
an equivalence. -/
theorem literal_equalities_agree :
    (∀ a b : Document, valueEq a.val b.val = valuesEqual a.val b.val ∧
      runtimeEq (fromJson a.val) (fromJson b.val) = valuesEqual a.val b.val) ∧
    Equivalence fun a b : Document => valuesEqual a.val b.val = true :=
  ⟨fun a b => ⟨valueEq_eq a.val b.val, runtimeEq_fromJson a.val b.val⟩, valuesEqual_equivalence⟩

end PactJanus.Subsumption.Literals
