import PactJanus.Plan.Model

namespace PactJanus.Plan.Rendering

open PactJanus.Data.Json PactJanus.Plan.Model

/-! The structured document form of a plan, and the node a document describes. -/

def kindName : DocumentKind → String
  | .null => "null"
  | .boolean => "boolean"
  | .number => "number"
  | .string => "string"
  | .array => "array"
  | .object => "object"
  | .bytes => "bytes"
  | .entry => "entry"

/-- A member of an object that is written only where there is a text for it. -/
def optionalText (member : String) (text : Option String) : List (String × Json) :=
  match text with
  | some s => [(member, .string s)]
  | none => []

def literalJson (literal : Literal) : Json :=
  .object ([("of", .string (kindName literal.of)), ("value", literal.value)] ++
    optionalText "encoded" literal.encoded ++ optionalText "key" literal.key)

mutual

def nodeJson : Node → Json
  | .container label children =>
    .object ([("kind", .string "container")] ++ optionalText "label" label ++
      [("children", .array (childrenJson children))])
  | .action name children =>
    .object [("kind", .string "action"), ("name", .string name), ("children", .array (childrenJson children))]
  | .value literal => .object [("kind", .string "value"), ("value", literalJson literal)]
  | .resolve path => .object [("kind", .string "resolve"), ("path", .string path)]
  | .resolveCurrent path => .object [("kind", .string "resolve-current"), ("path", .string path)]
  | .pipeline children => .object [("kind", .string "pipeline"), ("children", .array (childrenJson children))]
  | .splat children => .object [("kind", .string "splat"), ("children", .array (childrenJson children))]
  | Node.annotation text => .object [("kind", .string "annotation"), ("text", .string text)]
termination_by structural node => node

def childrenJson : List Node → List Json
  | [] => []
  | node :: rest => nodeJson node :: childrenJson rest
termination_by structural nodes => nodes

end

/-- A plan as a document. -/
def toJson (plan : MatchingPlan) : Json :=
  .object ([("grammar", .string plan.grammar), ("root", nodeJson plan.root)] ++ optionalText "variant" plan.variant)

def kindNamed (name : String) : Except String DocumentKind :=
  match name with
  | "null" => .ok .null
  | "boolean" => .ok .boolean
  | "number" => .ok .number
  | "string" => .ok .string
  | "array" => .ok .array
  | "object" => .ok .object
  | "bytes" => .ok .bytes
  | "entry" => .ok .entry
  | other => .error ("unknown literal kind '" ++ other ++ "'")

def textMember (member : String) (document : Json) : Option String := (get member document).bind asStr

def literalFromJson (document : Json) : Except String Literal :=
  (kindNamed ((textMember "of" document).getD "null")).map fun of =>
    ⟨of, (get "value" document).getD .null, textMember "encoded" document, textMember "key" document⟩

/-- A text a node of its kind cannot be without. -/
def neededText (kind member : String) (document : Json) : Except String String :=
  match textMember member document with
  | some s => .ok s
  | none => .error ("a '" ++ kind ++ "' node needs a '" ++ member ++ "'")

/-- The node a document of a given kind describes, its children as they were read. -/
def nodeOf (kind : String) (document : Json) (children : Except String (List Node)) : Except String Node :=
  match kind with
  | "container" => children.map (.container (textMember "label" document))
  | "action" => (neededText kind "name" document).bind fun name => children.map (.action name)
  | "value" =>
    match get "value" document with
    | some literal => (literalFromJson literal).map .value
    | none => .error "a 'value' node needs a 'value'"
  | "resolve" => (neededText kind "path" document).map .resolve
  | "resolve-current" => (neededText kind "path" document).map .resolveCurrent
  | "pipeline" => children.map .pipeline
  | "splat" => children.map .splat
  | "annotation" => (neededText kind "text" document).map Node.annotation
  | other => .error ("unknown plan node kind '" ++ other ++ "'")

mutual

def nodeFromJson : Json → Except String Node
  | .object members =>
    match textMember "kind" (.object members) with
    | some kind => nodeOf kind (.object members) (childrenMember members)
    | none => .error "a node needs a 'kind'"
  | _ => .error "a node needs a 'kind'"
termination_by structural document => document

/-- The nodes of the first member that is named for them. -/
def childrenMember : List (String × Json) → Except String (List Node)
  | [] => .ok []
  | (name, v) :: rest => if name = "children" then childrenFromJson v else childrenMember rest
termination_by structural members => members

def childrenFromJson : Json → Except String (List Node)
  | .array items => nodesFromJson items
  | _ => .ok []
termination_by structural document => document

def nodesFromJson : List Json → Except String (List Node)
  | [] => .ok []
  | v :: rest => (nodeFromJson v).bind fun node => (nodesFromJson rest).map (node :: ·)
termination_by structural documents => documents

end

/-! What is written reads back. -/

theorem kindNamed_kindName (of : DocumentKind) : kindNamed (kindName of) = .ok of := by
  cases of <;> rfl

theorem literalFromJson_literalJson (literal : Literal) : literalFromJson (literalJson literal) = .ok literal := by
  obtain ⟨of, value, encoded, key⟩ := literal
  have hof : textMember "of" (literalJson ⟨of, value, encoded, key⟩) = some (kindName of) := rfl
  have hvalue : get "value" (literalJson ⟨of, value, encoded, key⟩) = some value := rfl
  have hencoded : textMember "encoded" (literalJson ⟨of, value, encoded, key⟩) = encoded := by
    cases encoded <;> cases key <;> rfl
  have hkey : textMember "key" (literalJson ⟨of, value, encoded, key⟩) = key := by
    cases encoded <;> cases key <;> rfl
  simp only [literalFromJson, hof, hvalue, hencoded, hkey, Option.getD_some, kindNamed_kindName, Except.map]

private theorem nodesFromJson_childrenJson {children : List Node}
    (ih : ∀ node ∈ children, nodeFromJson (nodeJson node) = .ok node) :
    nodesFromJson (childrenJson children) = .ok children := by
  induction children with
  | nil => rfl
  | cons node rest ihRest =>
    obtain ⟨hnode, hrest⟩ := List.forall_mem_cons.1 ih
    simp only [childrenJson, nodesFromJson, hnode, ihRest hrest, Except.bind, Except.map]

/-- The document form of a node names its kind and holds all of its parts. -/
theorem nodeFromJson_nodeJson (node : Node) : nodeFromJson (nodeJson node) = .ok node := by
  induction node with
  | container label children ih =>
    have hchildren := nodesFromJson_childrenJson ih
    cases label with
    | none => exact congrArg (Except.map (Node.container none)) hchildren
    | some label => exact congrArg (Except.map (Node.container (some label))) hchildren
  | action name children ih => exact congrArg (Except.map (Node.action name)) (nodesFromJson_childrenJson ih)
  | value literal => exact congrArg (Except.map Node.value) (literalFromJson_literalJson literal)
  | pipeline children ih => exact congrArg (Except.map Node.pipeline) (nodesFromJson_childrenJson ih)
  | splat children ih => exact congrArg (Except.map Node.splat) (nodesFromJson_childrenJson ih)
  | resolve path => rfl
  | resolveCurrent path => rfl
  | annotation text => rfl

end PactJanus.Plan.Rendering
