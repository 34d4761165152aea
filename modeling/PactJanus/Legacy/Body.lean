import Mathlib.Data.List.Sort
import PactJanus.Lib.Base64
import PactJanus.Plan.Compile

namespace PactJanus.Legacy.Body

open PactJanus.Data.Json PactJanus.Lib PactJanus.Shape PactJanus.Plan.Model PactJanus.Plan.Value PactJanus.Plan.Compile

/-! The body part of the plan an older contract's request or response compiles to, under no matching rules. -/

inductive Part where
  | request | response
deriving DecidableEq

def Part.name : Part → String
  | .request => "request"
  | .response => "response"

/-- Whether the objects of the part's body may have no other members. -/
def Part.closed (part : Part) : Bool := part = .request

/-- A declared body: empty, or one document. -/
inductive LegacyBody where
  | empty
  | document (value : RuntimeValue)

/-- A literal of a decoded body's value: octets are tagged, an entry keeps its key. -/
def Literal.fromDocument : RuntimeValue → Literal
  | .bytes bytes => ⟨.bytes, .string (Base64.encode bytes), some "base64", none⟩
  | .entry key value => ⟨.entry, toJson value, none, some key⟩
  | other => Literal.fromJson (toJson other)

/-- A member's cursor: its name is written as it is, whatever characters it has. -/
def memberCursor (name : String) : Cursor → Cursor
  | .absolute p => .absolute (Path.member p name)
  | .relative p => .relative (Path.member p name)

/-- Where the walk of a body is; `closedObjects` says whether an object there may have other members. -/
structure BodyCtx where
  cursor : Cursor
  labelPath : String
  closedObjects : Bool

namespace BodyCtx

def member (ctx : BodyCtx) (name : String) : BodyCtx :=
  ⟨memberCursor name ctx.cursor, Path.member ctx.labelPath name, ctx.closedObjects⟩

def index (ctx : BodyCtx) (i : Nat) : BodyCtx :=
  ⟨ctx.cursor.arrayIndex i, Path.arrayIndex ctx.labelPath i, ctx.closedObjects⟩

def resolve (ctx : BodyCtx) : Node := ctx.cursor.resolve

end BodyCtx

def byName (members : List (String × Node)) : List (String × Node) := members.insertionSort fun a b => a.1 ≤ b.1

def compileBodyScalar (value : RuntimeValue) (ctx : BodyCtx) : Node :=
  .action "match:equality" [ctx.resolve, .value (Literal.fromDocument value)]

/-- The check that closes an object to the names of its members. -/
def onlyNamed (ctx : BodyCtx) (names : List String) : List Node :=
  if ctx.closedObjects then
    [.action "legacy:only-entries" (ctx.resolve :: names.map fun name => .value (Literal.string name))]
  else []

mutual

def compileBodyValue : RuntimeValue → BodyCtx → List Node
  | .object members, ctx =>
    let nodes := byName (compileBodyMembers members ctx)
    nodes.map Prod.snd ++ onlyNamed ctx (nodes.map Prod.fst)
  | .array items, ctx =>
    .action "expect:count" [ctx.resolve, .value (Literal.number (UInt64.ofNat items.length))] ::
      compileBodyItems items ctx 0
  | value, ctx => [compileBodyScalar value ctx]
termination_by structural value => value

/-- Each member of an object with its container. -/
def compileBodyMembers : List (String × RuntimeValue) → BodyCtx → List (String × Node)
  | [], _ => []
  | (name, value) :: rest, ctx =>
    (name, .container (some (ctx.member name).labelPath) (compileBodyValue value (ctx.member name))) ::
      compileBodyMembers rest ctx
termination_by structural members => members

def compileBodyItems : List RuntimeValue → BodyCtx → Nat → List Node
  | [], _, _ => []
  | value :: rest, ctx, i =>
    .container (some (ctx.index i).labelPath) (compileBodyValue value (ctx.index i)) :: compileBodyItems rest ctx (i + 1)
termination_by structural items => items

end

def hasContent : Option LegacyBody → Bool
  | some (.document .null) => false
  | some (.document .absent) => false
  | some (.document _) => true
  | _ => false

def typePath (part : Part) : String := "$." ++ Path.root part.name "headers" ++ ".content-type"

/-- The check that a received body is of the declared type, where no header's own check covers it. -/
def bodyTypeCheck (body : Option LegacyBody) (headers : List (String × String)) (contentType : Option String)
    (part : Part) : Option Node :=
  let named := headers.any fun h => Text.eqIgnoreAsciiCase h.1 "content-type"
  match contentType.filter fun t => '*' ∉ t.toList with
  | some expected =>
    if hasContent body && !named then
      some (.action "legacy:body-type"
        [.resolve (typePath part), .value (Literal.string expected)])
    else none
  | none => none

def rootPath (part : Part) : String := "$." ++ Path.root part.name "body"

def compileBodyContent (value : RuntimeValue) (closed : Bool) (root : String) : List Node :=
  compileBodyValue value ⟨.absolute root, root, closed⟩

def compileBodySlot (body : Option LegacyBody) (part : Part) (check : Option Node) : Option Node :=
  let container nodes := Node.container (some "body") (check.toList ++ nodes)
  let absent := container [.action "expect:absent" [.resolve (rootPath part)]]
  match body with
  | none => none
  | some .empty => some absent
  | some (.document .null) => some absent
  | some (.document .absent) => some absent
  | some (.document value) => some (container (compileBodyContent value part.closed (rootPath part)))

/-- What a request or a response declares, as far as its body is compiled from it. -/
structure Declared where
  headers : List (String × String)
  contentType : Option String
  body : Option LegacyBody

/-- The body part of the plan. -/
def bodyPart (part : Part) (declared : Declared) : Option Node :=
  compileBodySlot declared.body part (bodyTypeCheck declared.body declared.headers declared.contentType part)

end PactJanus.Legacy.Body
