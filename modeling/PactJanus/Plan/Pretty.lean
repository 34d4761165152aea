import PactJanus.Lib.Affixes
import PactJanus.Lib.Base64
import PactJanus.Lib.Runs
import PactJanus.Plan.Value

namespace PactJanus.Plan.Pretty

open PactJanus.Data.Json PactJanus.Lib PactJanus.Lib.Affixes PactJanus.Lib.Runs PactJanus.Plan.Model
open PactJanus.Plan.Value

/-! The pretty form of a plan, with what each piece of it is. -/

/-- What a piece of display text is, where it is not plain. -/
inductive Kind where
  | pass | fail | path | string | number | literal | label | action | operator | annotation | arrow
deriving DecidableEq

/-- Display text with its segments. -/
abbrev Marked : Type := RunText (Option Kind) Char

namespace Marked

def plain (text : String) : Marked := RunText.of none text.toList

def ofKind (kind : Kind) (text : String) : Marked := RunText.of (some kind) text.toList

def textPlain (text : String) (marked : Marked) : Marked := marked.push none text.toList

/-- Texts, with a separator between each. -/
def join (separator : String) : List Marked → Marked
  | [] => .new
  | part :: rest => rest.foldl (fun joined part => (textPlain separator joined).append part) (RunText.append .new part)

end Marked

/-! Labels, quoted strings and literals. -/

def isLabelChar (c : Char) : Bool := c.isAlphanum || c == '-' || c == '_'

def isBareLabel (s : String) : Bool :=
  match s.toList with
  | c :: rest => c.isAlpha && rest.all isLabelChar
  | [] => false

/-- A text in quotes, which stand in it behind a backslash, as the backslash does. -/
def quoted (quote : Char) (s : String) : String :=
  String.ofList (quote :: (s.toList.flatMap fun c => if c = '\\' ∨ c = quote then ['\\', c] else [c]) ++ [quote])

def quoteLabel (s : String) : String := if isBareLabel s then s else quoted '"' s

def quoteString (s : String) : String := quoted '\'' s

/-- How many characters of octets the text forms show. -/
def bytesShown : Nat := 48

def renderBytes (bytes : List UInt8) : String :=
  let encoded := Base64.encode bytes
  let shown := if encoded.length > bytesShown then String.ofList (encoded.toList.take bytesShown) ++ "..." else encoded
  "BYTES(" ++ bytes.length.repr ++ ", " ++ shown ++ ")"

/-- A member of an object or an entry. -/
def member (key : String) (value : Marked) : Marked :=
  (Marked.textPlain ": " (Marked.ofKind .string (quoteString key))).append value

mutual

def renderValue : RuntimeValue → Marked
  | .absent => Marked.ofKind .literal "ABSENT"
  | .null => Marked.ofKind .literal "NULL"
  | .bool b => Marked.ofKind .literal (if b then "true" else "false")
  | .number n => Marked.ofKind .number (numberText n)
  | .string s => Marked.ofKind .string (quoteString s)
  | .bytes bytes => Marked.ofKind .literal (renderBytes bytes)
  | .array items => Marked.textPlain "]" ((Marked.plain "[").append (Marked.join ", " (renderItems items)))
  | .object members => Marked.textPlain "\x7d" ((Marked.plain "\x7b").append (Marked.join ", " (renderMembers members)))
  | .entry key value => Marked.textPlain "\x7d" ((Marked.plain "\x7b").append (member key (renderValue value)))
termination_by structural value => value

def renderItems : List RuntimeValue → List Marked
  | [] => []
  | item :: rest => renderValue item :: renderItems rest
termination_by structural items => items

def renderMembers : List (String × RuntimeValue) → List Marked
  | [] => []
  | (key, value) :: rest => member key (renderValue value) :: renderMembers rest
termination_by structural members => members

end

def renderLiteral (literal : Literal) : Marked := renderValue (fromLiteral literal)

def indentStr (depth : Nat) : String := String.ofList (List.replicate (2 * depth) ' ')

/-- Children, each with what separates it from the next. -/
def separated : List Marked → List Marked
  | [] => []
  | [child] => [Marked.textPlain "\n" child]
  | child :: rest => Marked.textPlain ",\n" child :: separated rest

def wrap (pad : String) (head : Marked) (children : List Marked) : Marked :=
  let out := (Marked.plain pad).append head
  if children.isEmpty then Marked.textPlain "()" out
  else
    Marked.textPlain (pad ++ ")")
      ((separated children).foldl (fun out child => out.append child) (Marked.textPlain "(\n" out))

/-- A full dimensional path as it is shown under containers that name its beginning. -/
def shortenLabel (label : String) (plainAncestors : List String) : String :=
  if !Text.startsWithChar '$' label then label
  else
    let shortened := plainAncestors.tails.findSome? fun ancestors =>
      let joined := ".".intercalate ancestors
      let candidate := if joined.isEmpty then "$" else "$." ++ joined
      (stripPrefix candidate.toList label.toList).filter fun rest => rest.head? = some '.' || rest.head? = some '['
    (shortened.map fun rest => "$" ++ String.ofList rest).getD label

def containerPrefix (label : Option String) (plainAncestors : List String) : Marked :=
  match label with
  | some label => Marked.textPlain " " (Marked.ofKind .label (":" ++ quoteLabel (shortenLabel label plainAncestors)))
  | none => .new

def actionPrefix (name : String) : Marked := Marked.textPlain " " (Marked.ofKind .action ("%" ++ name))

def operatorPrefix (operator : String) : Marked := Marked.textPlain " " (Marked.ofKind .operator operator)

def annotated (pad text : String) : Marked :=
  (Marked.plain pad).push (some Kind.annotation) ("#\x7b" ++ quoteString text ++ "\x7d").toList

def leaf (pad : String) (body : Marked) : Marked := (Marked.plain pad).append body

/-- What a container's children are under: its label too, where it is plain. -/
def extendAncestors (plainAncestors : List String) (label : Option String) : List String :=
  match label with
  | some label => if Text.startsWithChar '$' label then plainAncestors else plainAncestors ++ [label]
  | none => plainAncestors

mutual

def renderNode (depth : Nat) (plainAncestors : List String) : Node → Marked
  | .container label children =>
    wrap (indentStr depth) (containerPrefix label plainAncestors)
      (renderNodes (depth + 1) (extendAncestors plainAncestors label) children)
  | .action name children =>
    wrap (indentStr depth) (actionPrefix name) (renderNodes (depth + 1) plainAncestors children)
  | .pipeline children => wrap (indentStr depth) (operatorPrefix "->") (renderNodes (depth + 1) plainAncestors children)
  | .splat children => wrap (indentStr depth) (operatorPrefix "**") (renderNodes (depth + 1) plainAncestors children)
  | .value literal => leaf (indentStr depth) (renderLiteral literal)
  | .resolve path => leaf (indentStr depth) (Marked.ofKind .path path)
  | .resolveCurrent path => leaf (indentStr depth) (Marked.ofKind .path path)
  | Node.annotation text => annotated (indentStr depth) text
termination_by structural node => node

def renderNodes (depth : Nat) (plainAncestors : List String) : List Node → List Marked
  | [] => []
  | node :: rest => renderNode depth plainAncestors node :: renderNodes depth plainAncestors rest
termination_by structural nodes => nodes

end

def envelope (root : Marked) : Marked := Marked.textPlain "\n)" ((Marked.plain "(\n").append root)

def prettyMarked (plan : MatchingPlan) : Marked := envelope (renderNode 1 [] plan.root)

/-- The pretty form of a compiled plan. -/
def pretty (plan : MatchingPlan) : String := String.ofList (prettyMarked plan).text

end PactJanus.Plan.Pretty
