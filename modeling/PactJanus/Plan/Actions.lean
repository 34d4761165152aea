import PactJanus.Lib.Text

namespace PactJanus.Plan.Actions

/-- The namespaces no component may contribute an action in. -/
def reservedNamespaces : List String := ["flow", "value", "expect", "check", "match", "legacy"]

/-- Every core action: its name, its name in the previous grammar if it had one, and its least children. -/
def core : List (String × Option String × Nat) :=
  [("flow:and", some "and", 0), ("flow:or", some "or", 0), ("flow:if", some "if", 2),
    ("flow:error", some "error", 1), ("flow:apply", some "apply", 0), ("flow:for-each", some "for-each", 2),
    ("flow:tee", some "tee", 0), ("value:join", some "join", 0), ("value:join-with", some "join-with", 1),
    ("value:length", some "length", 1), ("value:lower-case", some "lower-case", 1),
    ("value:upper-case", some "upper-case", 1), ("value:to-string", some "to-string", 1),
    ("expect:object", some "expect:object", 1), ("expect:array", some "expect:array", 1),
    ("expect:empty", some "expect:empty", 1), ("expect:not-empty", some "expect:not-empty", 1),
    ("expect:count", some "expect:count", 2), ("expect:size", some "expect:size", 3),
    ("expect:entries", some "expect:entries", 2), ("expect:absent", some "expect:absent", 1),
    ("check:exists", some "check:exists", 1), ("check:equals", some "check:equals", 2),
    ("check:null", some "check:null", 1), ("match:any", some "match:any", 1),
    ("match:equality", some "match:equality", 2), ("match:type", some "match:type", 2),
    ("match:string", some "match:string", 1), ("match:number", some "match:number", 1),
    ("match:integer", some "match:integer", 1), ("match:decimal", some "match:decimal", 1),
    ("match:boolean", some "match:boolean", 1), ("match:null", some "match:null", 1),
    ("match:regex", some "match:regex", 2), ("match:datetime", some "match:datetime", 1),
    ("match:date", some "match:date", 1), ("match:time", some "match:time", 1),
    ("match:include", some "match:include", 2), ("match:content-type", some "match:content-type", 2),
    ("match:semver", some "match:semver", 1), ("match:any-of", some "match:any-of", 1),
    ("match:contains", some "match:contains", 1), ("legacy:only-entries", some "expect:only-entries", 1),
    ("legacy:array-contains", some "match:array-contains", 2), ("legacy:min-type", some "match:min-type", 3),
    ("legacy:max-type", some "match:max-type", 3), ("legacy:min-max-type", some "match:min-max-type", 4),
    ("legacy:header-value", some "match:header-value", 2), ("legacy:body-type", none, 2),
    ("legacy:message-type", none, 2), ("legacy:xml-children", none, 1), ("legacy:xml-only-children", none, 1),
    ("legacy:parses-as", none, 2), ("legacy:mime-part", none, 3)]

/-- What the previous grammar treated as core families. -/
def v0Families : List String := ["match", "expect", "check", "convert"]

/-- The grammar a document's action names are read under. -/
inductive Grammar where
  | v0 | v1
deriving DecidableEq

/-- The core action `name` is in this grammar, by its name in the current one. -/
def Grammar.core (grammar : Grammar) (name : String) : Option String :=
  (Actions.core.find? fun (current, previous, _) =>
    match grammar with
    | .v0 => previous == some name
    | .v1 => current == name).map Prod.fst

/-- Whether a name is the specification's to define in this grammar, implemented here or not. -/
def Grammar.reserves (grammar : Grammar) (name : String) : Bool :=
  match grammar, Lib.Text.splitOnce ':' name with
  | .v0, none => true
  | .v0, some (family, _) => family ∈ v0Families
  | .v1, none => false
  | .v1, some (ns, _) => ns ∈ reservedNamespaces

/-- The least number of children a core action takes. -/
def leastChildren (name : String) : Option Nat := (core.lookup name).map Prod.snd

/-- Whether an action is a component's: in a namespace the specification has not reserved. -/
def isComponentAction (name : String) : Bool :=
  (Lib.Text.splitOnce ':' name).any fun (ns, _) => ns ∉ reservedNamespaces

end PactJanus.Plan.Actions
