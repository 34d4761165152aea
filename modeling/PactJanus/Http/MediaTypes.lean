import PactJanus.Plan.Legacy

namespace PactJanus.Http.MediaTypes

open PactJanus.Lib PactJanus.Lib.Text PactJanus.Plan.Legacy

/-! A header's value compared as a media type. -/

/-- A media type, in lower case, and its parameters by their names in lower case. -/
structure MediaType where
  essence : String
  parameters : List (String × String)
deriving DecidableEq

/-- Whether a text is a type and a subtype. -/
def isEssence (essence : String) : Bool :=
  (splitOnce '/' essence).any fun (main, sub) => !(trim main).isEmpty && !(trim sub).isEmpty

def parameter (segment : String) : Option (String × String) :=
  (splitOnce '=' segment).map fun (name, value) => (toAsciiLowercase (trim name), trimMatches (· == '"') (trim value))

def parse (text : String) : Option MediaType :=
  let segments := (split ';' text).map trim
  let essence := toAsciiLowercase (segments.headD "")
  if isEssence essence then some ⟨essence, (segments.drop 1).filterMap parameter⟩ else none

def MediaType.admits (expected actual : MediaType) : Bool :=
  expected.essence == actual.essence &&
    expected.parameters.all fun (name, value) =>
      actual.parameters.any fun (n, v) => n == name && eqIgnoreAsciiCase v value

/-- Whether a received value is admitted: one that is no media type is refused. -/
def admitted (expected : MediaType) (actual : String) : Bool := (parse actual).any expected.admits

variable {expected actual : String} {e a : MediaType}

/-! What is read of a value, from the parts the other comparison reads. -/

end PactJanus.Http.MediaTypes
