import PactJanus.Plan.Value
import PactJanus.Shape.VariantSpace

namespace PactJanus.Plan.Compile

open PactJanus.Data.Json PactJanus.Shape PactJanus.Shape.Model PactJanus.Shape.VariantSpace PactJanus.Plan.Model
  PactJanus.Plan.Value

/-- Dimension ids with the name of the point pinned for each. -/
abbrev Assignment := List (String × String)

/-- Where a node resolves its value from: the interaction, or the item that is current. -/
inductive Cursor where
  | absolute (path : String)
  | relative (path : String)

def Cursor.member (name : String) : Cursor → Cursor
  | .absolute p => .absolute (memberPath p name)
  | .relative p => .relative (memberPath p name)

def Cursor.arrayIndex (index : Nat) : Cursor → Cursor
  | .absolute p => .absolute (Path.arrayIndex p index)
  | .relative p => .relative (Path.arrayIndex p index)

def Cursor.resolve : Cursor → Node
  | .absolute p => .resolve p
  | .relative p => .resolveCurrent p

/-- The compiler's running position: the cursor, the dimension path, the path labels print, and the pins. -/
structure Ctx where
  cursor : Cursor
  path : String
  labelled : String
  assignment : Assignment

namespace Ctx

def member (ctx : Ctx) (name : String) : Ctx :=
  ⟨ctx.cursor.member name, Path.member ctx.path name, memberPath ctx.labelled name, ctx.assignment⟩

def arrayIndex (ctx : Ctx) (index : Nat) : Ctx :=
  ⟨ctx.cursor.arrayIndex index, Path.arrayIndex ctx.path index, Path.arrayIndex ctx.labelled index, ctx.assignment⟩

/-- The position of an item being iterated over, `step` being the dimension path's step to it. -/
def iterationItem (ctx : Ctx) (cursor : String) (step : String → String) : Ctx :=
  ⟨.relative cursor, step ctx.path, step ctx.labelled, ctx.assignment⟩

def alternative (ctx : Ctx) (name : String) : Ctx :=
  ⟨ctx.cursor, Path.alternative ctx.path name, Path.alternative ctx.labelled name, ctx.assignment⟩

def resolve (ctx : Ctx) : Node := ctx.cursor.resolve

/-- The point pinned for one facet of this position. -/
def pinned (ctx : Ctx) (facet : Facet) : Option String := ctx.assignment.lookup (Path.dimensionId ctx.path facet.text)

def label (ctx : Ctx) : Option String := some ("$." ++ ctx.labelled)

end Ctx

/-- The position of an element an array-wide operator goes through. -/
def itemCtx (ctx : Ctx) : Ctx := ctx.iterationItem "~>" Path.eachLikeItem

def keyCtx (ctx : Ctx) : Ctx := ctx.iterationItem "~>.key" Path.eachEntryKey

def valueCtx (ctx : Ctx) : Ctx := ctx.iterationItem "~>.value" Path.eachEntryValue

def entryCtx (ctx : Ctx) (index : Nat) : Ctx := ctx.iterationItem "~>" fun base => Path.arrayIndex base index

/-- The single node there is, or an unlabelled container of all of them. -/
def asSingleUnlabeled : List Node → Node
  | [node] => node
  | nodes => .container none nodes

/-- The empty conjunction, for a branch that holds trivially. -/
def okNode : Node := .action "flow:and" []

def exampleLiteral (example? : Option Example) : Literal :=
  match example? with
  | some e => Literal.fromExample e
  | none => Literal.null

def compileComponent (operator : String) (raw : List (String × Json)) (ctx : Ctx) : Node :=
  .action operator [ctx.resolve, .value (Literal.fromJson (.object raw))]

/-- The bounds of a collection's size: all of them, or those of the point pinned. -/
def cardinalityBounds (ctx : Ctx) (min : UInt64) (max : Option UInt64) : UInt64 × Option UInt64 :=
  ((ctx.pinned .cardinality).bind (cardinalityRegion min max)).getD (min, max)

/-- The assertion of a collection's size: a count where one length is pinned, else a range. -/
def cardinalityAssertion (ctx : Ctx) (min : UInt64) (max : Option UInt64) : Node :=
  match (ctx.pinned .cardinality).bind (cardinalityRegion min max) with
  | some (size, some upper) =>
    if size = upper then .action "expect:count" [ctx.resolve, .value (Literal.number size)]
    else
      .action "expect:size" [ctx.resolve, .value (Literal.number size), .value (Literal.number upper)]
  | _ =>
    let (lower, upper) := cardinalityBounds ctx min max
    .action "expect:size" [ctx.resolve, .value (Literal.number lower),
      .value (match upper with
        | some u => Literal.number u
        | none => Literal.null)]

def forEach (ctx : Ctx) (item : Node) : Node := .action "flow:for-each" [.splat [ctx.resolve], item]

def compileOptional (of : List Node) (ctx : Ctx) : Node :=
  match ctx.pinned .presence with
  | some "absent" => .action "expect:absent" [ctx.resolve]
  | some "present" => asSingleUnlabeled of
  | _ => .action "flow:if" [.action "check:exists" [ctx.resolve], asSingleUnlabeled of]

def compileNullable (of : List Node) (ctx : Ctx) : Node :=
  match ctx.pinned .nullability with
  | some "null" => .action "match:null" [ctx.resolve]
  | some "non-null" => asSingleUnlabeled of
  | _ => .action "flow:if" [.action "check:null" [ctx.resolve], okNode, asSingleUnlabeled of]

def compileAnyOf (options : List Json) (ctx : Ctx) : Node :=
  match (ctx.pinned .value).bind fun point => options.find? fun o => canonicalPointName o == point with
  | some pinned => .action "match:equality" [ctx.resolve, .value (Literal.fromJson pinned)]
  | none => .action "match:any-of" (ctx.resolve :: options.map fun o => .value (Literal.fromJson o))

/-- The members of an object, or of the object a `nullable` wraps. -/
def objectMembers (node : ShapeNode) : Option (List (String × ShapeNode)) :=
  match node.kind with
  | .object members => some members
  | .nullable ⟨_, _, .object members⟩ => some members
  | _ => none

/-- The literals an alternative binds its discriminator to. -/
def discriminatorLiterals (alternative : ShapeNode) (discriminator : String) : List Json :=
  match (objectMembers alternative).bind fun members => members.lookup discriminator with
  | some ⟨example?, _, .equality⟩ => (example?.map fun e => e.value).toList
  | some ⟨_, _, .anyOf options⟩ => options
  | _ => []

def checkEquals (cursor : Cursor) (literal : Literal) : Node :=
  .action "check:equals" [cursor.resolve, .value literal]

def discriminatorCondition (literals : List Json) (cursor : Cursor) : Node :=
  match literals with
  | [] => checkEquals cursor Literal.null
  | [literal] => checkEquals cursor (Literal.fromJson literal)
  | _ => .action "flow:or" (literals.map fun literal => checkEquals cursor (Literal.fromJson literal))

def oneOfErrorBranch (discriminator : String) (names : List String) (cursor : Cursor) : Node :=
  .action "flow:error" [.action "value:join"
    [.value (Literal.string ("Expected " ++ discriminator ++ " to be one of " ++ String.intercalate ", " names ++
      " but got ")), cursor.resolve]]

/-- An alternative as it is compiled: its name, the literals that select it, and its nodes. -/
structure Alternative where
  name : String
  literals : List Json
  nodes : List Node

def Alternative.branch (alternative : Alternative) : Node := .container (some alternative.name) alternative.nodes

def compileOneOf (discriminator : String) (alternatives : List Alternative) (ctx : Ctx) : Node :=
  match (ctx.pinned .alternative).bind fun point => alternatives.find? fun a => a.name == point with
  | some pinned => pinned.branch
  | none =>
    let cursor := ctx.cursor.member discriminator
    alternatives.foldr
      (fun a chain => .action "flow:if" [discriminatorCondition a.literals cursor, a.branch, chain])
      (oneOfErrorBranch discriminator (alternatives.map Alternative.name) cursor)

def expect (name : String) (ctx : Ctx) : Node := .action name [ctx.resolve]

mutual

def compileShape : ShapeNode → Ctx → List Node
  | ⟨_, _, .component operator raw⟩, ctx => [compileComponent operator raw ctx]
  | ⟨_, _, .any⟩, ctx => [expect "match:any" ctx]
  | ⟨example?, _, .equality⟩, ctx => [.action "match:equality" [ctx.resolve, .value (exampleLiteral example?)]]
  | ⟨example?, _, .type⟩, ctx => [.action "match:type" [ctx.resolve, .value (exampleLiteral example?)]]
  | ⟨_, _, .kind kind⟩, ctx => [expect ("match:" ++ kind.operatorName) ctx]
  | ⟨_, _, .notEmpty⟩, ctx => [expect "expect:not-empty" ctx]
  | ⟨_, _, .regex pattern⟩, ctx => [.action "match:regex" [ctx.resolve, .value (Literal.string pattern)]]
  | ⟨_, _, .temporal kind format⟩, ctx =>
    [.action ("match:" ++ kind.operatorName)
      (ctx.resolve :: (format.map fun f => Node.value (Literal.string f)).toList)]
  | ⟨_, _, .includes substring⟩, ctx => [.action "match:include" [ctx.resolve, .value (Literal.string substring)]]
  | ⟨_, _, .contentType contentType⟩, ctx =>
    [.action "match:content-type" [ctx.resolve, .value (Literal.string contentType)]]
  | ⟨_, _, .semver⟩, ctx => [expect "match:semver" ctx]
  -- Each member is compiled before they are put in name order, which is the same: only the order is by name.
  | ⟨_, _, .object members⟩, ctx =>
    expect "expect:object" ctx :: (membersByName (compileMembers members ctx)).map Prod.snd
  | ⟨_, _, .array entries⟩, ctx =>
    expect "expect:array" ctx ::
      .action "expect:count" [ctx.resolve, .value (Literal.number (UInt64.ofNat entries.length))] ::
      compileEntries entries ctx 0
  | ⟨_, _, .eachLike items min max⟩, ctx =>
    [expect "expect:array" ctx, cardinalityAssertion ctx min max,
      forEach ctx (.container (itemCtx ctx).label (compileShape items (itemCtx ctx)))]
  | ⟨_, _, .eachEntry keys values min max⟩, ctx =>
    [expect "expect:object" ctx, cardinalityAssertion ctx min max,
      forEach ctx (.container ctx.label
        (compileKeys keys (keyCtx ctx) ++ [.container (valueCtx ctx).label (compileShape values (valueCtx ctx))]))]
  | ⟨_, _, .contains entries⟩, ctx =>
    [expect "expect:array" ctx, .action "match:contains" (ctx.resolve :: compileContains entries ctx 0)]
  | ⟨_, _, .optional of⟩, ctx => [compileOptional (compileShape of ctx) ctx]
  | ⟨_, _, .forbidden⟩, ctx => [expect "expect:absent" ctx]
  | ⟨_, _, .nullable of⟩, ctx => [compileNullable (compileShape of ctx) ctx]
  | ⟨_, _, .anyOf options⟩, ctx => [compileAnyOf options ctx]
  | ⟨_, _, .oneOf discriminator alternatives _⟩, ctx =>
    [compileOneOf discriminator (compileAlternatives alternatives discriminator ctx) ctx]
termination_by structural node => node

def compileMembers : List (String × ShapeNode) → Ctx → List (String × Node)
  | [], _ => []
  | (name, member) :: rest, ctx =>
    (name, .container (ctx.member name).label (compileShape member (ctx.member name))) :: compileMembers rest ctx
termination_by structural members => members

def compileEntries : List ShapeNode → Ctx → Nat → List Node
  | [], _, _ => []
  | entry :: rest, ctx, index =>
    .container (ctx.arrayIndex index).label (compileShape entry (ctx.arrayIndex index)) ::
      compileEntries rest ctx (index + 1)
termination_by structural entries => entries

def compileKeys : Option ShapeNode → Ctx → List Node
  | none, _ => []
  | some keys, ctx => [.container ctx.label (compileShape keys ctx)]
termination_by structural keys => keys

def compileContains : List ShapeNode → Ctx → Nat → List Node
  | [], _, _ => []
  | entry :: rest, ctx, index =>
    .container (entryCtx ctx index).label (compileShape entry (entryCtx ctx index)) ::
      compileContains rest ctx (index + 1)
termination_by structural entries => entries

def compileAlternatives : List (String × ShapeNode) → String → Ctx → List Alternative
  | [], _, _ => []
  | (name, alternative) :: rest, discriminator, ctx =>
    ⟨name, discriminatorLiterals alternative discriminator, compileShape alternative (ctx.alternative name)⟩ ::
      compileAlternatives rest discriminator ctx
termination_by structural alternatives => alternatives

end

/-! The recursions over lists, as maps. -/

theorem compileMembers_eq (members : List (String × ShapeNode)) (ctx : Ctx) :
    compileMembers members ctx = members.map fun p =>
      (p.1, .container (ctx.member p.1).label (compileShape p.2 (ctx.member p.1))) := by
  induction members with
  | nil => rfl
  | cons p rest ih => simp [compileMembers, ih]

theorem compileEntries_eq (entries : List ShapeNode) (ctx : Ctx) (index : Nat) :
    compileEntries entries ctx index = entries.mapIdx fun i s =>
      .container (ctx.arrayIndex (index + i)).label (compileShape s (ctx.arrayIndex (index + i))) := by
  induction entries generalizing index with
  | nil => rfl
  | cons s rest ih => simp [compileEntries, ih, List.mapIdx_cons, Nat.add_assoc, Nat.add_comm 1]

theorem compileContains_eq (entries : List ShapeNode) (ctx : Ctx) (index : Nat) :
    compileContains entries ctx index = entries.mapIdx fun i s =>
      .container (entryCtx ctx (index + i)).label (compileShape s (entryCtx ctx (index + i))) := by
  induction entries generalizing index with
  | nil => rfl
  | cons s rest ih => simp [compileContains, ih, List.mapIdx_cons, Nat.add_assoc, Nat.add_comm 1]

theorem compileAlternatives_eq (alternatives : List (String × ShapeNode)) (discriminator : String) (ctx : Ctx) :
    compileAlternatives alternatives discriminator ctx = alternatives.map fun p =>
      ⟨p.1, discriminatorLiterals p.2 discriminator, compileShape p.2 (ctx.alternative p.1)⟩ := by
  induction alternatives with
  | nil => rfl
  | cons p rest ih => simp [compileAlternatives, ih]

/-- An interaction: its parts by name, each with its slots' shapes by name. -/
structure InteractionSpec where
  description : String
  parts : List (String × List (String × ShapeNode))

/-- The position a slot's shape is compiled at. -/
def rootCtx (part slot : String) (assignment : Assignment) : Ctx :=
  ⟨.absolute ("$." ++ Path.root part slot), Path.root part slot, Path.root part slot, assignment⟩

/-- Compiles a whole interaction under an assignment, stamped with the id of the variant it is. -/
def compile (spec : InteractionSpec) (assignment : Assignment) (variantId : Option String) : MatchingPlan :=
  ⟨grammarVersion,
    .container (some spec.description) (spec.parts.map fun part =>
      .container (some part.1) (part.2.map fun slot =>
        .container (some slot.1) (compileShape slot.2 (rootCtx part.1 slot.1 assignment)))),
    variantId⟩

/-- The variant space of a whole interaction: every part's every slot, in name order. -/
def variantSpace (spec : InteractionSpec) : List Dimension :=
  computeMany (spec.parts.flatMap fun part => part.2.map fun slot => (Path.root part.1 slot.1, slot.2))

end PactJanus.Plan.Compile
