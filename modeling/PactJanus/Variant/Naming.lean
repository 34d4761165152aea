import PactJanus.Shape.Valid
import PactJanus.Variant.Assignment

namespace PactJanus.Variant.Naming

open PactJanus.Data.Json PactJanus.Lib PactJanus.Lib.Lists PactJanus.Shape.Model PactJanus.Shape.Valid PactJanus.Shape.VariantSpace
  PactJanus.Plan.Compile PactJanus.Variant.Assignment

/-! The id a variant is looked up by. -/

/-- The point an assignment gives a dimension, where it is not the default. -/
def choice (α : Assignment) (d : Dimension) : Option String := (α.lookup d.id).filter fun point => point ≠ d.default

/-- A dimension's name and its point, where it is not the default. -/
def renderPart (names : String → String) (α : Assignment) (d : Dimension) : Option String :=
  (choice α d).map fun point => names d.id ++ "=" ++ point

def renderAssignment (space : List Dimension) (α : Assignment) (names : String → String) : String :=
  let parts := space.filterMap (renderPart names α)
  if parts.isEmpty then "base" else ";".intercalate parts

/-- The id of a variant: its assignment rendered by the dimensions' ids. -/
def variantId (space : List Dimension) (α : Assignment) : String := renderAssignment space α id

/-- The texts of the choices an id is made of. -/
def choiceTexts (space : List Dimension) (α : Assignment) : List String := space.filterMap (renderPart id α)

/-- The texts of the choices cut at every semicolon, those inside a name or a point as well. -/
def pieces (space : List Dimension) (α : Assignment) : List (List Char) :=
  (choiceTexts space α).flatMap fun text => text.toList.splitOn ';'

section Join

private theorem toList_join (parts : List String) : (";".intercalate parts).toList = [';'].intercalate (parts.map String.toList) := by
  rw [String.toList_intercalate]
  rfl

end Join

section Ids

variable {space : List Dimension} {α β : Assignment}

private theorem text_injective {p q : String × String} (hp : '=' ∉ p.1.toList) (hq : '=' ∉ q.1.toList)
    (h : p.1 ++ "=" ++ p.2 = q.1 ++ "=" ++ q.2) : p = q := by
  have hchars : p.1.toList ++ '=' :: p.2.toList = q.1.toList ++ '=' :: q.2.toList := by
    simpa [String.toList_append] using congrArg String.toList h
  have hsplit := congrArg (List.splitOn '=') hchars
  rw [List.splitOn_append_cons_self_of_not_mem hp, List.splitOn_append_cons_self_of_not_mem hq] at hsplit
  obtain ⟨hname, hpoint⟩ := List.cons.inj hsplit
  have hpoint' := congrArg (List.intercalate ['=']) hpoint
  rw [List.intercalate_splitOn, List.intercalate_splitOn] at hpoint'
  exact Prod.ext (String.toList_inj.1 hname) (String.toList_inj.1 hpoint')

end Ids

end PactJanus.Variant.Naming
