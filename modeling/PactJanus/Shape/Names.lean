import PactJanus.Data.Spelling
import PactJanus.Plan.Compile
import PactJanus.Shape.Addresses
import PactJanus.Shape.Alternatives

namespace PactJanus.Shape.Names

open PactJanus.Data.Json PactJanus.Data.Equality PactJanus.Data.Spelling PactJanus.Shape.Model PactJanus.Shape.Valid
  PactJanus.Shape.Nodes PactJanus.Shape.VariantSpace PactJanus.Shape.Placed PactJanus.Shape.Addresses PactJanus.Plan.Compile

/-! The text of an address tells it apart where no name has a character that begins a step. -/

def beginsStep (c : Char) : Bool := c == '.' || c == '[' || c == '\x7b' || c == '@'

/-- A name with no character in it that begins a step. -/
def Clean (name : String) : Prop := ∀ c ∈ name.toList, beginsStep c = false

/-- The text of a step: the character it begins with, and what follows it. -/
def Step.token : Step → Char × List Char
  | .member name => ('.', name.toList)
  | .item => ('[', ['*', ']'])
  | .value => ('\x7b', ['*', '\x7d'])
  | .key => ('\x7b', ['k', 'e', 'y', '\x7d'])
  | .index i => ('[', i.repr.toList ++ [']'])
  | .alternative name => ('@', name.toList)

section Tokens

private def chars (token : Char × List Char) : List Char := token.1 :: token.2

/-- What begins a step, or nothing. -/
private def Begins (cs : List Char) : Prop := ∀ c ∈ cs.head?, beginsStep c = true

end Tokens

/-! The places of an interaction. -/

/-- A place in an interaction: a slot of a part, and the steps from its shape. -/
@[ext]
structure Address where
  part : String
  slot : String
  steps : List Step
deriving DecidableEq

/-- The dimension path of a place. -/
def Address.text (a : Address) : String := pathOf (Path.root a.part a.slot) a.steps

section Points

end Points

/-! An interaction's dimensions. -/

/-- Where an interaction's dimensions are. -/
def places (spec : InteractionSpec) : List (Address × Facet) :=
  spec.parts.flatMap fun part => part.2.flatMap fun slot => (facets slot.2).map fun l => (⟨part.1, slot.1, l.1⟩, l.2)

section Interactions

variable {interaction : AcceptedInteraction}

end Interactions

/-- An enumeration of a number and of the string it is written as. -/
private def oneTwice : ShapeNode := .of (.anyOf [.string "1", .number (.posInt 1)])

end PactJanus.Shape.Names
