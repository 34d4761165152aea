import PactJanus.Lib.Fallible
import PactJanus.Shape.Valid

namespace PactJanus.Shape.Parse

open PactJanus.Data.Json PactJanus.Lib.Reporting PactJanus.Shape.Model PactJanus.Shape.Valid

/-! The parser of a shape document, with every problem it reports. -/

structure Problem where
  pointer : String
  message : String

/-- Where a node sits, for the rule on absence. -/
inductive Position where
  | objectMember | notASlot
deriving DecidableEq

/-- How far the parser has come. The limit is a problem like any other, reported once. -/
structure Budget where
  nodes : Nat
  limitReported : Bool
  problems : List Problem
  limit : limitReported = true → problems ≠ []

theorem not_reported : false = true → ([] : List Problem) ≠ [] := fun h => by cases h

def Budget.new : Budget := ⟨0, false, [], not_reported⟩

def Budget.note (problem : Problem) (budget : Budget) : Budget :=
  ⟨budget.nodes, budget.limitReported, budget.problems ++ [problem], by simp⟩

def Failed (budget : Budget) : Prop := budget.problems ≠ []

abbrev Parser := Reporter Budget Failed

theorem failed_note (problem : Problem) (budget : Budget) : Failed (budget.note problem) := by
  simp [Failed, Budget.note]

def report (pointer message : String) : Parser Unit := Reporter.report (Budget.note ⟨pointer, message⟩) (failed_note _)

def fail {α : Type} (pointer message : String) : Parser α :=
  Reporter.fail (Budget.note ⟨pointer, message⟩) (failed_note _)

/-- A segment of a pointer after it, escaped. -/
def pushPointerSegment (pointer segment : String) : String :=
  pointer ++ "/" ++ Lib.Text.replace "/" "~1" (Lib.Text.replace "~" "~0" segment)

def Budget.count (budget : Budget) : Budget := ⟨budget.nodes + 1, budget.limitReported, budget.problems, budget.limit⟩

def Budget.reportLimit (path : String) (budget : Budget) : Budget :=
  ⟨budget.nodes, true, budget.problems ++ [⟨path,
    "shape tree exceeds this engine's limits (depth <= 64, nodes <= 20000)"⟩], by simp⟩

/-- One more node, at a depth, unless that is beyond the limits. -/
def enter (depth : Nat) (path : String) : Parser Unit where
  run budget :=
    if budget.limitReported then (none, budget)
    else if maxDepth < depth ∨ maxNodes < budget.count.nodes then (none, budget.count.reportLimit path)
    else (some (), budget.count)
  keeps budget h := by
    split
    · exact h
    · split
      · simp [Failed, Budget.reportLimit]
      · exact h
  honest budget := by
    split
    · rename_i hlimit
      exact fun _ => budget.limit hlimit
    · split
      · simp [Failed, Budget.reportLimit]
      · exact fun h => nomatch h

/-! The members of a node that are not nodes themselves. -/

section Members

variable (obj : List (String × Json))

/-- The tagged example, if the node has one. -/
def parseExample (path : String) : Parser (Option Example) :=
  match obj.lookup "example" with
  | none => return none
  | some value =>
    match obj.lookup "encoded" with
    | none => return some ⟨value, none⟩
    | some (.string tag) => return some ⟨value, some tag⟩
    | some _ => fail (path ++ "/encoded") "'encoded' must be a string"

def require (member operator path : String) : Parser Json :=
  match obj.lookup member with
  | some value => return value
  | none => fail path ("'" ++ operator ++ "' requires '" ++ member ++ "'")

def requireString (member operator path : String) : Parser String := do
  match ← require obj member operator path with
  | .string value => return value
  | _ => fail (path ++ "/" ++ member) ("'" ++ member ++ "' must be a string")

def requireExample (operator : String) (example? : Option Example) (path : String) : Parser Unit :=
  if example?.isNone then report path ("'" ++ operator ++ "' requires 'example'") else return ()

/-- A member that is a text or is not there: one of another form is reported, and taken as not there. -/
def optionalString (member path : String) : Parser (Option String) :=
  match obj.lookup member with
  | none => return none
  | some (.string text) => return some text
  | some _ => do
    report (path ++ "/" ++ member) ("'" ++ member ++ "' must be a string")
    return none

def unsignedMember (member path : String) : Parser (Option UInt64) :=
  match obj.lookup member with
  | none => return none
  | some value =>
    match asUnsigned value with
    | some n => return some n
    | none => fail (path ++ "/" ++ member) ("'" ++ member ++ "' must be a non-negative integer")

/-- The bounds on a size: at least one where nothing is said, and any number where no more is. -/
def parseCardinality (path : String) : Parser (UInt64 × Option UInt64) := do
  let min := (← unsignedMember obj "min" path).getD 1
  let max ← unsignedMember obj "max" path
  match max with
  | some m =>
    if m < min then
      fail path ("'min' (" ++ min.toNat.repr ++ ") must not be greater than 'max' (" ++ m.toNat.repr ++ ") (spec §5.5)")
    else return (min, max)
  | none => return (min, max)

/-- Every option that equals one before it is reported. -/
def checkDistinct (path : String) (earlier : List Json) : List Json → Nat → Parser Unit
  | [], _ => return ()
  | option :: rest, index => do
    if earlier.any (valuesEqual option) then
      report (path ++ "/options/" ++ index.repr) "'options' must be distinct (spec §5.3)"
    checkDistinct path (earlier ++ [option]) rest (index + 1)

def parseAnyOf (example? : Option Example) (path : String) : Parser ShapeKind := do
  match ← require obj "options" "any-of" path with
  | .array options =>
    if options.isEmpty then fail (path ++ "/options") "'options' must be non-empty (spec §5.3)"
    else
      checkDistinct path [] options 0
      if example?.any fun e => !options.any (valuesEqual · e.value) then
        report (path ++ "/example") "'example' is not among 'options' (spec §5.3)"
      return .anyOf options
  | _ => fail (path ++ "/options") "'options' must be an array"

end Members

/-- The literals an alternative's discriminator member is bound to, or why there are none. -/
def parseDiscriminator (node : ShapeNode) (discriminator altPath altName : String) : Parser (Option (List Json)) :=
  match unwrapObjectMembers node with
  | none =>
    fail altPath
      ("alternative '" ++ altName ++ "' must be an 'object' shape, optionally wrapped in 'nullable' (spec §5.4)")
  | some members =>
    match members.lookup discriminator with
    | none =>
      fail altPath
        ("alternative '" ++ altName ++ "' does not declare the discriminator member '" ++ discriminator ++
        "' (spec §5.4)")
    | some member =>
      match member.kind with
      | .equality => return member.example?.map fun e => [e.value]
      | .anyOf options => return some options
      | _ =>
        fail (pushPointerSegment (altPath ++ "/members") discriminator)
          ("the discriminator member of alternative '" ++ altName ++ "' must be 'equality' or 'any-of', not '" ++
            operator member ++ "' (spec §5.4)")

def reportOverlaps (path name : String) (options : List Json) : List (String × List Json) → Parser Unit
  | [] => return ()
  | (other, literals) :: rest => do
    if options.any fun a => literals.any fun b => valuesEqual a b then
      report (path ++ "/alternatives")
        ("alternatives '" ++ other ++ "' and '" ++ name ++ "' do not have disjoint discriminator values (spec §5.4)")
    reportOverlaps path name options rest

/-- Every pair of alternatives that share a literal is reported. -/
def checkDisjoint (path : String) (earlier : List (String × List Json)) : List (String × List Json) → Parser Unit
  | [] => return ()
  | (name, options) :: rest => do
    reportOverlaps path name options earlier
    checkDisjoint path (earlier ++ [(name, options)]) rest

def parseDefault (obj : List (String × Json)) (alternatives : List (String × ShapeNode)) (path : String) :
    Parser (Option String) :=
  match obj.lookup "default" with
  | none => return none
  | some (.string name) => do
    if name ∉ alternatives.map Prod.fst then
      report (path ++ "/default") ("'default' names an alternative that does not exist: '" ++ name ++ "'")
    return some name
  | some _ => do
    report (path ++ "/default") "'default' must be a string"
    return none

/-- What parses the nodes under a node: nothing comes of a member that is not there. -/
structure Under where
  child : String → String → Nat → Parser (Option ShapeNode)
  entries : String → Nat → Parser (Option (List ShapeNode))
  members : String → Nat → Parser (Option (List (String × ShapeNode)))
  alternatives : String → String → Nat → Parser (Option (List (String × ShapeNode) × List (String × List Json)))

def needed {α : Type} (member operator path : String) : Option α → Parser α
  | some a => return a
  | none => fail path ("'" ++ operator ++ "' requires '" ++ member ++ "'")

section Core

variable (obj : List (String × Json)) (under : Under) (path : String) (depth : Nat)

/-- A member that must be there, as a node. -/
def requireChild (member operator : String) : Parser ShapeNode := do
  needed member operator path (← under.child member (path ++ "/" ++ member) (depth + 1))

def parseTemporal (kind : TemporalKind) : Parser ShapeKind := do
  return .temporal kind (← optionalString obj "format" path)

def isNullable (node : ShapeNode) : Bool :=
  match node.kind with
  | .nullable _ => true
  | _ => false

def parseNullable : Parser ShapeKind := do
  let of ← requireChild under path depth "of" "nullable"
  if isNullable of then report (path ++ "/of") "'nullable' must not wrap 'nullable' (spec §5.2)"
  return .nullable of

def parseOneOf : Parser ShapeKind := do
  let discriminator ← requireString obj "discriminator" "one-of" path
  let (alternatives, sets) ← needed "alternatives" "one-of" path (← under.alternatives discriminator path depth)
  checkDisjoint path [] sets
  let default ← parseDefault obj alternatives path
  return .oneOf discriminator (membersByName alternatives) default

def parseCore (operator : String) (example? : Option Example) : Parser ShapeKind :=
  match operator with
  | "any" => return .any
  | "equality" => do
    requireExample operator example? path
    return .equality
  | "type" => do
    requireExample operator example? path
    return .type
  | "string" => return .kind .string
  | "number" => return .kind .number
  | "integer" => return .kind .integer
  | "decimal" => return .kind .decimal
  | "boolean" => return .kind .boolean
  | "null" => return .kind .null
  | "not-empty" => return .notEmpty
  | "regex" => do return .regex (← requireString obj "pattern" operator path)
  | "datetime" => parseTemporal obj path .datetime
  | "date" => parseTemporal obj path .date
  | "time" => parseTemporal obj path .time
  | "include" => do return .includes (← requireString obj "substring" operator path)
  | "content-type" => do return .contentType (← requireString obj "content-type" operator path)
  | "semver" => return .semver
  | "object" => do return .object (← needed "members" operator path (← under.members path depth))
  | "array" => do return .array (← needed "entries" operator path (← under.entries path depth))
  | "contains" => do return .contains (← needed "entries" operator path (← under.entries path depth))
  | "each-like" => do
    let items ← requireChild under path depth "items" operator
    let (min, max) ← parseCardinality obj path
    return .eachLike items min max
  | "each-entry" => do
    let values ← requireChild under path depth "values" operator
    let keys ← (under.child "keys" (path ++ "/keys") (depth + 1)).attempt
    let (min, max) ← parseCardinality obj path
    return .eachEntry keys.join values min max
  | "optional" => do return .optional (← requireChild under path depth "of" operator)
  | "forbidden" => return .forbidden
  | "nullable" => parseNullable under path depth
  | "any-of" => parseAnyOf obj example? path
  | "one-of" => parseOneOf obj under path depth
  | _ => fail path ("unknown operator '" ++ operator ++ "' (spec §3.7)")

/-- The members a component's operator is handed as they are. -/
def rawMembers : List (String × Json) := obj.filter fun p => p.1 ∉ ["shape", "example", "encoded", "generator"]

/-- A component's operator, in a namespace that is not the plan's own. -/
def parseComponent (operator component name : String) : Parser ShapeKind :=
  if component.isEmpty || name.isEmpty then
    fail path ("'" ++ operator ++ "' is not a valid namespaced operator (spec §3.5)")
  else if component ∈ Plan.Actions.reservedNamespaces then
    fail path ("'" ++ operator ++ "' is not an operator: '" ++ component ++
      "' is a namespace reserved for core plan actions, which no component can contribute (spec §3.7)")
  else return .component operator (rawMembers obj)

/-- A node that is an object. -/
def parseObject : Parser ShapeNode :=
  match obj.lookup "shape" with
  | none => fail path "a shape node requires a 'shape' member naming its operator"
  | some (.string operator) => do
    let example? := (← (parseExample obj path).attempt).join
    match Lib.Text.splitOnce ':' operator with
    | some (component, name) =>
      return ⟨example?, obj.lookup "generator", ← parseComponent obj path operator component name⟩
    | none => return ⟨example?, obj.lookup "generator", ← parseCore obj under path depth operator example?⟩
  | some _ => fail path "'shape' must be a string naming the operator"

end Core

/-- A node where it sits: one that admits absence may only be an object's member. -/
def parsePlaced (position : Position) (path : String) (depth : Nat) (parsed : Parser ShapeNode) : Parser ShapeNode := do
  enter depth path
  let node ← parsed
  if position = .notASlot ∧ admitsAbsent node = true then
    report path ("'" ++ operator node ++ "' admits absence, which may only appear as an object member (spec §5.1)")
  return node

mutual

def parseNode : Json → String → Nat → Parser ShapeNode
  | .object obj, path, depth =>
    parseObject obj
      ⟨fun member path depth => childMember member obj path depth, fun path depth => entriesMember obj path depth,
        fun path depth => membersMember obj path depth,
        fun discriminator path depth => alternativesMember discriminator obj path depth⟩ path depth
  | .null, path, _ => fail path "a shape node must be a JSON object"
  | .bool _, path, _ => fail path "a shape node must be a JSON object"
  | .number _, path, _ => fail path "a shape node must be a JSON object"
  | .string _, path, _ => fail path "a shape node must be a JSON object"
  | .array _, path, _ => fail path "a shape node must be a JSON object"
termination_by structural value => value

/-- The member of a name, as a node. -/
def childMember (member : String) : List (String × Json) → String → Nat → Parser (Option ShapeNode)
  | [], _, _ => return none
  | (name, value) :: rest, path, depth =>
    if name = member then do return some (← parsePlaced .notASlot path depth (parseNode value path depth))
    else childMember member rest path depth
termination_by structural members => members

def entriesMember : List (String × Json) → String → Nat → Parser (Option (List ShapeNode))
  | [], _, _ => return none
  | (name, value) :: rest, path, depth =>
    if name = "entries" then parseEntries value path depth else entriesMember rest path depth
termination_by structural members => members

def parseEntries : Json → String → Nat → Parser (Option (List ShapeNode))
  | .array items, path, depth => do return some (← parseItems items path (depth + 1) 0)
  | .null, path, _ => fail (path ++ "/entries") "'entries' must be an array"
  | .bool _, path, _ => fail (path ++ "/entries") "'entries' must be an array"
  | .number _, path, _ => fail (path ++ "/entries") "'entries' must be an array"
  | .string _, path, _ => fail (path ++ "/entries") "'entries' must be an array"
  | .object _, path, _ => fail (path ++ "/entries") "'entries' must be an array"
termination_by structural value => value

def parseItems : List Json → String → Nat → Nat → Parser (List ShapeNode)
  | [], _, _, _ => return []
  | value :: rest, path, depth, index => do
    let at' := path ++ "/entries/" ++ index.repr
    let node? ← (parsePlaced .notASlot at' depth (parseNode value at' depth)).attempt
    let others ← parseItems rest path depth (index + 1)
    return node?.toList ++ others
termination_by structural items => items

def membersMember : List (String × Json) → String → Nat → Parser (Option (List (String × ShapeNode)))
  | [], _, _ => return none
  | (name, value) :: rest, path, depth =>
    if name = "members" then parseMembers value path depth else membersMember rest path depth
termination_by structural members => members

def parseMembers : Json → String → Nat → Parser (Option (List (String × ShapeNode)))
  | .object members, path, depth => do return some (← parseEach members path (depth + 1))
  | .null, path, _ => fail (path ++ "/members") "'members' must be an object"
  | .bool _, path, _ => fail (path ++ "/members") "'members' must be an object"
  | .number _, path, _ => fail (path ++ "/members") "'members' must be an object"
  | .string _, path, _ => fail (path ++ "/members") "'members' must be an object"
  | .array _, path, _ => fail (path ++ "/members") "'members' must be an object"
termination_by structural value => value

def parseEach : List (String × Json) → String → Nat → Parser (List (String × ShapeNode))
  | [], _, _ => return []
  | (name, value) :: rest, path, depth => do
    let at' := pushPointerSegment (path ++ "/members") name
    let node? ← (parsePlaced .objectMember at' depth (parseNode value at' depth)).attempt
    let others ← parseEach rest path depth
    return (node?.toList.map fun node => (name, node)) ++ others
termination_by structural members => members

def alternativesMember (discriminator : String) :
    List (String × Json) → String → Nat → Parser (Option (List (String × ShapeNode) × List (String × List Json)))
  | [], _, _ => return none
  | (name, value) :: rest, path, depth =>
    if name = "alternatives" then parseAlternatives discriminator value path depth
    else alternativesMember discriminator rest path depth
termination_by structural members => members

def parseAlternatives (discriminator : String) :
    Json → String → Nat → Parser (Option (List (String × ShapeNode) × List (String × List Json)))
  | .object alternatives, path, depth => do
    if alternatives.length < 2 then
      report (path ++ "/alternatives") "'one-of' requires at least two alternatives (spec §5.4)"
    return some (← parseEachAlternative discriminator alternatives path (depth + 1))
  | .null, path, _ => fail (path ++ "/alternatives") "'alternatives' must be an object"
  | .bool _, path, _ => fail (path ++ "/alternatives") "'alternatives' must be an object"
  | .number _, path, _ => fail (path ++ "/alternatives") "'alternatives' must be an object"
  | .string _, path, _ => fail (path ++ "/alternatives") "'alternatives' must be an object"
  | .array _, path, _ => fail (path ++ "/alternatives") "'alternatives' must be an object"
termination_by structural value => value

/-- The alternatives of a union, and the literals that tell each of them apart. -/
def parseEachAlternative (discriminator : String) :
    List (String × Json) → String → Nat → Parser (List (String × ShapeNode) × List (String × List Json))
  | [], _, _ => return ([], [])
  | (name, value) :: rest, path, depth => do
    let at' := pushPointerSegment (path ++ "/alternatives") name
    let node? ← (parsePlaced .notASlot at' depth (parseNode value at' depth)).attempt
    match node? with
    | none => parseEachAlternative discriminator rest path depth
    | some node =>
      let options? ← (parseDiscriminator node discriminator at' name).attempt
      let (others, sets) ← parseEachAlternative discriminator rest path depth
      return ((name, node) :: others, (options?.join.toList.map fun options => (name, options)) ++ sets)
termination_by structural members => members

end

/-- A shape document, or every problem with it. -/
def parse (value : Json) (path : String) : Except (List Problem) ShapeNode :=
  let (node?, budget) := (parsePlaced .notASlot path 0 (parseNode value path 0)).run .new
  match node?, budget.problems with
  | some node, [] => .ok node
  | _, problems => .error problems

section

-- The equations of these definitions are made here, once for all who rewrite with them.
attribute [local simp] parseNode childMember entriesMember parseEntries parseItems membersMember parseMembers parseEach
  alternativesMember parseAlternatives parseEachAlternative

end

end PactJanus.Shape.Parse
