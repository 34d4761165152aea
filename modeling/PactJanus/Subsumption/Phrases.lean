import PactJanus.Shape.Model

namespace PactJanus.Subsumption.Phrases

open PactJanus.Data.Json PactJanus.Shape.Model

/-! How a shape node is described to a person: a function of its operator and parameters. -/

def join (parts : List String) : String := String.intercalate " | " parts

def quoted (s : String) : String := "'" ++ s ++ "'"

/-- A string in single quotes, anything else as its JSON text. -/
def value : Json → String
  | .string s => quoted s
  | other => text other

def literals (options : List Json) : String := join (options.map value)

def literal (e : Example) : String := if e.encoded.isSome then "an octet sequence" else value e.value

def cardinalityOf (unit : String) (min : UInt64) (max : Option UInt64) : String :=
  min.toNat.repr ++ " to " ++ (max.map fun m => m.toNat.repr).getD "unbounded" ++ " " ++ unit

def cardinality : UInt64 → Option UInt64 → String := cardinalityOf "elements"

def cardinalityEntries : UInt64 → Option UInt64 → String := cardinalityOf "entries"

def kindPhrase : ValueKind → String
  | .string => "any string"
  | .number => "any number"
  | .integer => "a whole number"
  | .decimal => "a number with a fractional part"
  | .boolean => "any boolean"
  | .null => "null"

def classPhrase (e : Example) : String :=
  if e.encoded.isSome then "octet sequence"
  else
    match e.value with
    | .null => "null"
    | .bool _ => "boolean"
    | .number _ => "number"
    | .string _ => "string"
    | .array _ => "array"
    | .object _ => "object"

/-- One node, as a finding's summary. -/
def describe : ShapeNode → String
  | ⟨_, _, .component operator _⟩ => "component operator " ++ quoted operator
  | ⟨_, _, .any⟩ => "any value"
  | ⟨example?, _, .equality⟩ => (example?.map fun e => "exactly " ++ literal e).getD "exactly one value"
  | ⟨example?, _, .type⟩ => (example?.map fun e => "any " ++ classPhrase e).getD "any value of one kind"
  | ⟨_, _, .kind k⟩ => kindPhrase k
  | ⟨_, _, .notEmpty⟩ => "any non-empty value"
  | ⟨_, _, .regex pattern⟩ => "strings matching " ++ quoted pattern
  | ⟨_, _, .temporal .datetime _⟩ => "a datetime"
  | ⟨_, _, .temporal .date _⟩ => "a date"
  | ⟨_, _, .temporal .time _⟩ => "a time"
  | ⟨_, _, .includes substring⟩ => "strings containing " ++ quoted substring
  | ⟨_, _, .contentType contentType⟩ => "octets detected as " ++ contentType
  | ⟨_, _, .semver⟩ => "a semantic version"
  | ⟨_, _, .object _⟩ => "an object"
  | ⟨_, _, .array entries⟩ => "an array of exactly " ++ entries.length.repr ++ " elements"
  | ⟨_, _, .eachLike _ min max⟩ => cardinality min max
  | ⟨_, _, .eachEntry _ _ min max⟩ => cardinalityEntries min max
  | ⟨_, _, .contains entries⟩ => "an array containing " ++ entries.length.repr ++ " matched elements"
  | ⟨_, _, .optional of⟩ => describe of ++ ", or absent"
  | ⟨_, _, .forbidden⟩ => "absent"
  | ⟨_, _, .nullable of⟩ => describe of ++ ", or null"
  | ⟨_, _, .anyOf options⟩ => "one of " ++ literals options
  | ⟨_, _, .oneOf _ alternatives _⟩ => "one of the alternatives " ++ join (alternatives.map fun p => quoted p.1)
termination_by structural node => node

/-- A node that must be present. -/
def describePresent (node : ShapeNode) : String := describe node ++ ", always present"

end PactJanus.Subsumption.Phrases
