import PactJanus.Plan.Actions
import PactJanus.Plan.Rendering

namespace PactJanus.Plan.Fragment

open PactJanus.Data.Json PactJanus.Lib PactJanus.Plan.Actions PactJanus.Plan.Model PactJanus.Plan.Rendering

/-! A fragment a component contributes, and the grammar it declares. -/

def readableGrammarVersions : List String := ["v0", "v1"]

/-- Why a fragment cannot be used: a question of versions, or its author's error. -/
inductive FragmentError where
  | skew (declared : Option String) (message : String)
  | invalid (message : String)

/-- A version's major and minor. -/
def parseVersion (version : String) : Option (Nat × Nat) :=
  match version.toList with
  | 'v' :: digits =>
    let (major, minor) := (Text.splitOnceBy (· == '.') digits).getD (digits, ['0'])
    (Text.parseUnsigned major).bind fun major => (Text.parseUnsigned minor).map fun minor => (major, minor)
  | _ => none

/-- Whether an engine of one version reads a fragment of another. -/
def readableBy (engine fragment : String) : Bool :=
  match parseVersion engine, parseVersion fragment with
  | some (engineMajor, engineMinor), some (major, minor) => major == engineMajor && minor ≤ engineMinor
  | _, _ => false

/-- The grammar a declared version names, when this engine reads its major. -/
def grammarOf (version : String) : Option Grammar :=
  match parseVersion version with
  | some (0, _) => some .v0
  | some (1, _) => some .v1
  | _ => none

def readable (declared : Option String) : Except FragmentError Unit :=
  let versions := String.intercalate ", " readableGrammarVersions
  match declared with
  | none =>
    .error (.skew none
      ("the fragment does not say which plan grammar it was written against; this engine reads " ++ versions))
  | some version =>
    if readableGrammarVersions.any fun engine => readableBy engine version then .ok ()
    else
      .error (.skew (some version) ("the fragment was written against plan grammar '" ++ version ++
        "', and this engine reads " ++ versions))

/-- The name an action of a fragment is left under, or why the fragment may not use it. -/
def checkAction (grammar : Grammar) (component : String) (contributed : List String) (name : String)
    (count : Nat) : Except FragmentError String :=
  match grammar.core name with
  | some core =>
    let least := (leastChildren core).getD 0
    if count < least then
      .error (.invalid ("'" ++ name ++ "' takes at least " ++ least.repr ++
        " child node(s) and the fragment gives it " ++ count.repr))
    else .ok core
  | none =>
    if grammar.reserves name then
      .error (.invalid ("'" ++ name ++ "' is not a core action of the grammar the fragment declared"))
    else if (Text.splitOnce ':' name).map Prod.fst ≠ some component then
      .error (.invalid ("'" ++ name ++ "' is in another component's namespace; a fragment may use core actions and '" ++
        component ++ ":' ones"))
    else if name ∉ contributed then
      .error (.invalid ("'" ++ name ++ "' is not among the actions '" ++ component ++ "' contributed in its handshake"))
    else .ok name

def insideSlot (slotPath path : String) : Bool :=
  path == slotPath || Text.startsWith (slotPath ++ ".") path || Text.startsWith (slotPath ++ "[") path

mutual

/-- A fragment written in `grammar`, each of its core actions left under its current name. -/
def checkActions (grammar : Grammar) (component : String) (contributed : List String) (slotPath : String) :
    Node → Except FragmentError Node
  | .action name children =>
    (checkAction grammar component contributed name children.length).bind fun name =>
      (checkAll grammar component contributed slotPath children).map (.action name)
  | .resolve path =>
    if insideSlot slotPath path then .ok (.resolve path)
    else .error (.invalid ("resolves '" ++ path ++ "', outside the slot '" ++ slotPath ++ "' it was compiled for"))
  | .container label children =>
    (checkAll grammar component contributed slotPath children).map (.container label)
  | .pipeline children => (checkAll grammar component contributed slotPath children).map .pipeline
  | .splat children => (checkAll grammar component contributed slotPath children).map .splat
  | .value literal => .ok (.value literal)
  | .resolveCurrent path => .ok (.resolveCurrent path)
  | Node.annotation text => .ok (Node.annotation text)
termination_by structural node => node

def checkAll (grammar : Grammar) (component : String) (contributed : List String) (slotPath : String) :
    List Node → Except FragmentError (List Node)
  | [] => .ok []
  | node :: rest =>
    (checkActions grammar component contributed slotPath node).bind fun node =>
      (checkAll grammar component contributed slotPath rest).map (node :: ·)
termination_by structural nodes => nodes

end

/-- A fragment as its component sent it, read and checked. -/
def validate (fragment : Json) (declared : Option String) (component : String) (contributed : List String)
    (slotPath : String) : Except FragmentError Node :=
  (readable declared).bind fun _ =>
    match declared.bind grammarOf with
    | none => .error (.invalid "a readable version names a grammar this engine has")
    | some grammar =>
      match nodeFromJson fragment with
      | .error message => .error (.invalid ("not a plan node: " ++ message))
      | .ok node => checkActions grammar component contributed slotPath node

mutual

/-- A whole plan of the previous grammar under the current names: a name it did not define is left as it is. -/
def renameFromV0 : Node → Node
  | .action name children => .action ((Grammar.v0.core name).getD name) (renameAll children)
  | .container label children => .container label (renameAll children)
  | .pipeline children => .pipeline (renameAll children)
  | .splat children => .splat (renameAll children)
  | .value literal => .value literal
  | .resolve path => .resolve path
  | .resolveCurrent path => .resolveCurrent path
  | Node.annotation text => Node.annotation text
termination_by structural node => node

def renameAll : List Node → List Node
  | [] => []
  | node :: rest => renameFromV0 node :: renameAll rest
termination_by structural nodes => nodes

end

/-! Where a fragment goes: the search is over containers, depth first, and `none` is a plan left as it is. -/

/-- The slots of a part with the first of them that is named so holding a fragment alone. -/
def intoSlot (slot : String) (fragment : Node) : List Node → Option (List Node)
  | [] => none
  | .container (some name) contents :: rest =>
    if name = slot then some (.container (some name) [fragment] :: rest)
    else (intoSlot slot fragment rest).map (.container (some name) contents :: ·)
  | node :: rest => (intoSlot slot fragment rest).map (node :: ·)

/-- A node that is labelled as the part is, and directly holds a container labelled as the slot is. -/
def intoPart (part slot : String) (fragment : Node) : Node → Option Node
  | .container (some label) slots =>
    if label = part then (intoSlot slot fragment slots).map (.container (some label)) else none
  | _ => none

mutual

/-- Replaces the generic plan of a part's slot. -/
def splice (part slot : String) (fragment : Node) : Node → Option Node
  | .container label children => (spliceAll part slot fragment children).map (.container label)
  | .action .. | .value _ | .resolve _ | .resolveCurrent _ | .pipeline _ | .splat _ | Node.annotation _ => none
termination_by structural node => node

def spliceAll (part slot : String) (fragment : Node) : List Node → Option (List Node)
  | [] => none
  | child :: rest =>
    match intoPart part slot fragment child with
    | some child => some (child :: rest)
    | none =>
      match splice part slot fragment child with
      | some child => some (child :: rest)
      | none => (spliceAll part slot fragment rest).map (child :: ·)
termination_by structural nodes => nodes

end

end PactJanus.Plan.Fragment
