import PactJanus.Plan.Verdict
import PactJanus.Lib.SortedMap

namespace PactJanus.Subsumption.Classes

open PactJanus.Data.Json PactJanus.Lib PactJanus.Shape.Model PactJanus.Plan.Result PactJanus.Plan.Value
  PactJanus.Plan.Interpret PactJanus.Plan.Outcome PactJanus.Plan.Verdict

/-! The questions a comparison asks of one node: its presence, its comparability class, the values it lists. -/

/-! Presence, nullability, and the residual value shape. -/

/-- Whether a node admits absence and null, and what is left without them: `none` when nothing else is. -/
structure Presence where
  absent : Bool
  null : Bool
  rest : Option ShapeNode

def isNullExample (e : Example) : Bool := e.encoded.isNone && isNull e.value

def decompose : ShapeNode → Presence
  | ⟨_, _, .optional of⟩ => ⟨true, (decompose of).null, (decompose of).rest⟩
  | ⟨_, _, .forbidden⟩ => ⟨true, false, none⟩
  | ⟨_, _, .nullable of⟩ => ⟨(decompose of).absent, true, (decompose of).rest⟩
  | ⟨_, _, .kind .null⟩ => ⟨false, true, none⟩
  | ⟨e, g, .equality⟩ => if e.any isNullExample then ⟨false, true, none⟩ else ⟨false, false, some ⟨e, g, .equality⟩⟩
  | ⟨e, g, .anyOf options⟩ =>
    if options.any isNull then
      let rest := options.filter fun o => !isNull o
      ⟨false, true, if rest.isEmpty then none else some ⟨e.filter fun x => !isNullExample x, none, .anyOf rest⟩⟩
    else ⟨false, false, some ⟨e, g, .anyOf options⟩⟩
  | ⟨e, g, .any⟩ => ⟨false, true, some ⟨e, g, .any⟩⟩
  | node => ⟨false, false, some node⟩
termination_by structural node => node

/-! Comparability classes. -/

/-- Whether a node has shapes under it that a comparison goes into. -/
def hasChildren (node : ShapeNode) : Bool :=
  match node.kind with
  | .object _ | .array _ | .eachLike .. | .eachEntry .. | .oneOf .. | .optional _ | .nullable _ => true
  | _ => false

def isOpaque (node : ShapeNode) : Bool :=
  match node.kind with
  | .component .. | .contains _ => true
  | _ => false

def isConservative : ShapeKind → Bool
  | .regex _ | .temporal .. | .includes _ | .contentType _ => true
  | _ => false

/-- Of the conservative operators, those whose values are strings. -/
def stringValued : ShapeKind → Bool
  | .regex _ | .temporal .. | .includes _ => true
  | _ => false

def conservativeReason (p c : ShapeKind) : String :=
  match p, c with
  | .regex _, .regex _ => "two different regexes: conservative class, no guessing"
  | .temporal pk _, .temporal ck _ =>
    if pk = ck then "two different " ++ pk.operatorName ++ " formats: conservative class, no guessing"
    else "'" ++ pk.operatorName ++ "' against '" ++ ck.operatorName ++ "': conservative class, no guessing"
  | _, _ => "'" ++ operatorName p ++ "' against '" ++ operatorName c ++ "': conservative class, no guessing"

/-- The kinds of values a shape's values can be of. -/
inductive Class where
  | null | boolean | number | string | array | object | bytes
deriving DecidableEq

def classOfValue : Json → Class
  | .null => .null
  | .bool _ => .boolean
  | .number _ => .number
  | .string _ => .string
  | .array _ => .array
  | .object _ => .object

def classOfExample (e : Example) : Class := if e.encoded.isSome then .bytes else classOfValue e.value

def classOfKind : ValueKind → Class
  | .string => .string
  | .number | .integer | .decimal => .number
  | .boolean => .boolean
  | .null => .null

/-- The classes of a node's values where they are known exactly. -/
def classes (node : ShapeNode) : Option (List Class) :=
  match node.kind with
  | .equality | .type => node.example?.map fun e => [classOfExample e]
  | .kind k => some [classOfKind k]
  | .regex _ | .temporal .. | .includes _ | .semver => some [.string]
  | .contentType _ => some [.bytes]
  | .object _ | .eachEntry .. => some [.object]
  | .array _ | .eachLike .. | .contains _ => some [.array]
  | .anyOf options => some (options.map classOfValue)
  | .oneOf _ alternatives _ =>
    some (.object :: if alternatives.any fun p => (decompose p.2).null then [.null] else [])
  | _ => none

def disjointClasses (p c : ShapeNode) : Bool :=
  match classes p, classes c with
  | some ps, some cs => ps.all fun class' => class' ∉ cs
  | _, _ => false

def kindSubset (provider consumer : ValueKind) : Bool :=
  provider == consumer || ((provider == .integer || provider == .decimal) && consumer == .number)

def anyNode : ShapeNode := .of .any

/-- `type` rewritten as the operator it is equivalent to. -/
def desugar (node : ShapeNode) : Option ShapeNode :=
  match node.kind, node.example? with
  | .type, some e =>
    if e.encoded.isSome then none
    else
      some (.of (match e.value with
        | .null => .kind .null
        | .bool _ => .kind .boolean
        | .number _ => .kind .number
        | .string _ => .kind .string
        | .object _ => .object []
        | .array _ => .eachLike anyNode 0 none))
  | _, _ => none

/-- The one consumer shape an unnamed member of the provider's is inside: an optional anything. -/
def admitsAnythingOrAbsence (node : ShapeNode) : Bool :=
  (decompose node).absent && (decompose node).rest.any fun rest =>
    match rest.kind with
    | .any => true
    | _ => false

def isEmptyValue : Json → Bool
  | .null => true
  | .string s => s.isEmpty
  | .array items => items.isEmpty
  | .object members => members.isEmpty
  | _ => false

def isEmptyExample (e : Example) : Bool :=
  match e.encoded with
  | some _ => (asStr e.value).any String.isEmpty
  | none => isEmptyValue e.value

/-- Whether every value a shape admits is non-empty, `none` where that is not decided. -/
def admitsOnlyNonEmpty (node : ShapeNode) : Option Bool :=
  match node.kind with
  | .kind .string | .kind .null => some false
  | .kind _ => some true
  | .semver => some true
  | .equality => node.example?.map fun e => !isEmptyExample e
  | .anyOf options => some (options.all fun o => !isEmptyValue o)
  | .array entries => some !entries.isEmpty
  | .eachLike _ min _ => some (1 ≤ min)
  | .eachEntry _ _ min _ => some (1 ≤ min)
  | .object members => some (members.any fun p => !(decompose p.2).absent)
  | _ => none

/-- The document an example is, where it is no octets. -/
def plainExample (node : ShapeNode) : Option Json :=
  (node.example?.filter fun e => e.encoded.isNone).map Example.value

/-- Every value a shape admits, where there are few enough to list. -/
def enumerate (node : ShapeNode) : Option (List Json) :=
  match node.kind with
  | .kind .null => some [.null]
  | .kind .boolean => some [.bool true, .bool false]
  | .equality => (plainExample node).map fun v => [v]
  | .anyOf options => some options
  | .array [] => some [.array []]
  | _ => none

def kindAdmits : ValueKind → Json → Bool
  | .string, .string _ => true
  | .number, .number _ => true
  | .integer, .number n => isWrittenInteger n
  | .decimal, .number n => !isWrittenInteger n
  | .boolean, .bool _ => true
  | .null, .null => true
  | _, _ => false

/-- Whether a node admits a value, `none` where only matching would tell. -/
def admitsValue (libraries : Libraries) : ShapeNode → Json → Option Bool
  | ⟨_, _, .any⟩, _ => some true
  | ⟨_, _, .kind k⟩, v => some (kindAdmits k v)
  | ⟨e, g, .equality⟩, v => (plainExample ⟨e, g, .equality⟩).map fun x => valuesEqual x v
  | ⟨_, _, .anyOf options⟩, v => some (options.any fun o => valuesEqual o v)
  | ⟨_, _, .notEmpty⟩, v => some !isEmptyValue v
  | ⟨_, _, .semver⟩, v => some ((asStr v).any libraries.semver)
  | ⟨_, _, .optional of⟩, v => admitsValue libraries of v
  | ⟨_, _, .nullable of⟩, v => if isNull v then some true else admitsValue libraries of v
  | ⟨_, _, .forbidden⟩, _ => some false
  | _, _ => none
termination_by structural node => node

/-- Membership decided by the engine's own matcher: the node as the only slot of an interaction, run on the value. -/
def matchedBy (libraries : Libraries) (node : ShapeNode) (v : Json) : Bool :=
  decide (Slot.verdict ⟨"membership", "subsumption", "value", none⟩ ⟨libraries, none, none⟩ node [] (fromJson v) = .matched)

def admitsExample (libraries : Libraries) (node : ShapeNode) (e : Example) : Option Bool :=
  if e.encoded.isSome then none else admitsValue libraries node e.value

/-! Discriminated unions. -/

/-- The literals an alternative binds its discriminator to. -/
def discriminatorLiterals (alternative : ShapeNode) (discriminator : String) : List Json :=
  match (decompose alternative).rest with
  | some ⟨_, _, .object members⟩ =>
    match members.lookup discriminator with
    | some ⟨e, g, .equality⟩ => (plainExample ⟨e, g, .equality⟩).toList
    | some ⟨_, _, .anyOf options⟩ => options
    | _ => []
  | _ => []

/-- A literal's canonical text: a number is keyed by its double. -/
def literalKey : Json → String
  | .number n => "n:" ++ Binary64.displayText (asF64 n)
  | other => text other

/-- Each literal's key with the alternative that has it, the later of two that share one. -/
def byDiscriminator (alternatives : List (String × ShapeNode)) (discriminator : String) :
    List (String × (String × ShapeNode)) :=
  (alternatives.flatMap fun p => (discriminatorLiterals p.2 discriminator).map fun literal => (literalKey literal, p)).foldl
    (fun map entry => SortedMap.insert entry.1 entry.2 map) []

/-- The names of the alternatives that some of the literals are of. -/
def matchedNames (byLiteral : List (String × (String × ShapeNode))) (literals : List Json) : List String :=
  (literals.filterMap fun literal => (byLiteral.lookup (literalKey literal)).map Prod.fst).dedup

/-- The one alternative that any of the literals are of, `none` where there is none or more than one. -/
def matchedAlternative (byLiteral : List (String × (String × ShapeNode))) (literals : List Json) :
    Option (String × ShapeNode) :=
  match matchedNames byLiteral literals with
  | [name] => (byLiteral.map Prod.snd).find? fun p => p.1 == name
  | _ => none

/-! The identity floor. -/

/-- Identity of what an operator without shapes under it depends on: everything it carries. -/
def sameLeaf (pe ce : Option Example) : ShapeKind → ShapeKind → Bool
  | .component po pr, .component co cr => po == co && same (.object pr) (.object cr)
  | .equality, .equality =>
    match pe, ce with
    | some p, some c => p.encoded == c.encoded && valuesEqual p.value c.value
    | _, _ => false
  | .type, .type =>
    match pe, ce with
    | some p, some c => classOfExample p == classOfExample c
    | _, _ => false
  | .anyOf ps, .anyOf cs => ps.length == cs.length && ps.all fun o => cs.any fun candidate => valuesEqual o candidate
  | .any, .any => true
  | .kind p, .kind c => p == c
  | .notEmpty, .notEmpty => true
  | .regex p, .regex c => p == c
  | .temporal pk pf, .temporal ck cf => pk == ck && pf == cf
  | .includes p, .includes c => p == c
  | .contentType p, .contentType c => p == c
  | .semver, .semver => true
  | .forbidden, .forbidden => true
  | _, _ => false

mutual

/-- Whether two nodes are the same in everything that what they admit depends on. -/
def sameAdmits : ShapeNode → ShapeNode → Bool
  | ⟨_, _, .object ps⟩, ⟨_, _, .object cs⟩ => ps.length == cs.length && sameMembers ps cs
  | ⟨_, _, .array ps⟩, ⟨_, _, .array cs⟩ => ps.length == cs.length && sameEntries ps cs
  | ⟨_, _, .contains ps⟩, ⟨_, _, .contains cs⟩ => ps.length == cs.length && sameEntries ps cs
  | ⟨_, _, .eachLike p pmin pmax⟩, ⟨_, _, .eachLike c cmin cmax⟩ => pmin == cmin && pmax == cmax && sameAdmits p c
  | ⟨_, _, .eachEntry pk p pmin pmax⟩, ⟨_, _, .eachEntry ck c cmin cmax⟩ =>
    pmin == cmin && pmax == cmax && sameKeys pk ck && sameAdmits p c
  | ⟨_, _, .optional p⟩, ⟨_, _, .optional c⟩ => sameAdmits p c
  | ⟨_, _, .nullable p⟩, ⟨_, _, .nullable c⟩ => sameAdmits p c
  | ⟨_, _, .oneOf pd ps _⟩, ⟨_, _, .oneOf cd cs _⟩ => pd == cd && ps.length == cs.length && sameAlternatives ps cs
  | ⟨pe, _, pk⟩, ⟨ce, _, ck⟩ => sameLeaf pe ce pk ck
termination_by structural p => p

def sameMembers : List (String × ShapeNode) → List (String × ShapeNode) → Bool
  | [], _ => true
  | (name, p) :: ps, cs =>
    (match cs.lookup name with
      | some c => sameAdmits p c
      | none => false) && sameMembers ps cs
termination_by structural ps => ps

def sameEntries : List ShapeNode → List ShapeNode → Bool
  | p :: ps, c :: cs => sameAdmits p c && sameEntries ps cs
  | _, _ => true
termination_by structural ps => ps

def sameKeys : Option ShapeNode → Option ShapeNode → Bool
  | none, none => true
  | some p, some c => sameAdmits p c
  | _, _ => false
termination_by structural ps => ps

def sameAlternatives : List (String × ShapeNode) → List (String × ShapeNode) → Bool
  | (pn, p) :: ps, (cn, c) :: cs => pn == cn && sameAdmits p c && sameAlternatives ps cs
  | _, _ => true
termination_by structural ps => ps

end

end PactJanus.Subsumption.Classes
