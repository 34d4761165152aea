import Mathlib.Data.List.Sort
import Mathlib.Data.Prod.Lex
import Mathlib.Data.String.Basic
import PactJanus.Lib.Multimap
import PactJanus.Lib.Utf8
import PactJanus.Lib.Xml
import PactJanus.Plan.Value

namespace PactJanus.Component.XmlContent

open PactJanus.Data.Json PactJanus.Lib PactJanus.Lib.Text PactJanus.Lib.Xml PactJanus.Plan.Value

/-! XML bodies, as documents of elements by name and back. -/

def xmlnsNamespace : String := "http://www.w3.org/2000/xmlns/"

/-- The XML library: what a text is read as, or why it is none, and the order it keeps an element's attributes in. -/
structure Libraries where
  notUtf8 : List UInt8 → String
  parser : String → Except String (List Node)
  order : (l : List Attribute) → { l' : List Attribute // l'.Perm l }

/-- A name in Clark notation. -/
def clark (ns : Option String) (l : String) : String :=
  match ns with
  | some uri => "\x7b" ++ uri ++ "\x7d" ++ l
  | none => l

def splitClark (name : String) : Option String × String :=
  match name.toList with
  | '{' :: rest =>
    match splitOnce '}' (String.ofList rest) with
    | some (uri, l) => (some uri, l)
    | none => (none, name)
  | _ => (none, name)

/-! The reading of a body. -/

def isDeclaration (a : Attribute) : Bool :=
  a.namespaceUri == some xmlnsNamespace || (a.namespaceUri.isNone && a.localPart == "xmlns")

def attributeKey (a : Attribute) : String := "@" ++ clark a.namespaceUri a.localPart

/-- The attributes of an element that are no declarations, by name. -/
def attributePairs (attributes : List Attribute) : List (String × String) :=
  ((attributes.filter fun a => !isDeclaration a).map fun a => (attributeKey a, a.value)).insertionSort
    fun a b => toLex a ≤ toLex b

/-- Each text trimmed, then joined. -/
def textOf (children : List Node) : String :=
  String.ofList (children.flatMap fun child =>
    match child with
    | .text s => (trim s).toList
    | _ => [])

def insertMember (name : String) (v : RuntimeValue) : List (String × RuntimeValue) → List (String × RuntimeValue)
  | [] => [(name, v)]
  | (other, w) :: rest => if other = name then (name, v) :: rest else (other, w) :: insertMember name v rest

/-- A child element after those of its name, in a new member where there are none. -/
def pushChild (name : String) (v : RuntimeValue) : List (String × RuntimeValue) → List (String × RuntimeValue)
  | [] => [(name, .array [v])]
  | (other, w) :: rest =>
    if other = name then
      match w with
      | .array items => (other, .array (items ++ [v])) :: rest
      | w => (other, w) :: rest
    else (other, w) :: pushChild name v rest

/-- The members an element has of its own. -/
def ownMembers (ns : Option String) (attributes : List Attribute) (children : List Node) :
    List (String × RuntimeValue) :=
  let members := ns.elim [] fun uri => [("#namespace", RuntimeValue.string uri)]
  let members := (attributePairs attributes).foldl (fun members (key, value) => insertMember key (.string value) members)
    members
  if (textOf children).isEmpty then members else insertMember "#text" (.string (textOf children)) members

mutual

/-- An element as a document: nothing for what is none. -/
def element : Node → RuntimeValue
  | .element ns _ attributes children =>
    .object ((childElements children).foldl (fun members (name, v) => pushChild name v members)
      (ownMembers ns attributes children))
  | _ => .absent
termination_by structural n => n

def childElements : List Node → List (String × RuntimeValue)
  | [] => []
  | child :: rest =>
    match child.localName with
    | some name => (name, element child) :: childElements rest
    | none => childElements rest
termination_by structural ns => ns

end

/-- The root element of a body. -/
def rootOf (libraries : Libraries) (body : List UInt8) : Except String Node :=
  match Utf8.decode body with
  | none => .error ("an XML body must be UTF-8: " ++ libraries.notUtf8 body)
  | some text =>
    ((libraries.parser text).mapError fun err => "not well-formed XML: " ++ err).bind fun nodes =>
      (nodes.find? Node.isElement).elim (.error "an XML document needs a root element") .ok

def parse (libraries : Libraries) (body : List UInt8) : Except String RuntimeValue :=
  (rootOf libraries body).map fun root => .object [(root.localName.getD "", element root)]

/-! The writing of a document. -/

def isInvalid (c : Char) : Bool := isWhitespace c || "<>&\"'/=\x7b\x7d".toList.contains c

def checkName (name : String) : Except String Unit :=
  if name.isEmpty || name.toList.any isInvalid || name.toList.head?.any (fun c => c.isDigit || c == '-' || c == '.') then
    .error ("'" ++ name ++ "' is not an XML name")
  else .ok ()

/-- The text of a scalar. -/
def scalarText : RuntimeValue → Option String
  | .string s => some s
  | .number n => some (numberText n)
  | .bool b => some (if b then "true" else "false")
  | .null => some ""
  | _ => none

/-- What is written of an element before its children: the namespaces with a prefix, the attributes, the text. -/
structure Written where
  prefixes : List String
  attributes : String
  text : Option String

/-- A name in a namespace with its prefix, and the namespaces that have one. -/
def qualify (prefixes : List String) (ns : Option String) (l : String) : List String × String :=
  match ns with
  | none => (prefixes, l)
  | some uri =>
    if uri = xmlNamespace then (prefixes, "xml" ++ ":" ++ l)
    else
      match prefixes.idxOf? uri with
      | some index => (prefixes, "ns" ++ index.repr ++ ":" ++ l)
      | none => (prefixes ++ [uri], "ns" ++ prefixes.length.repr ++ ":" ++ l)

def writeAttribute (name key : String) (value : RuntimeValue) (written : Written) : Except String Written :=
  let (ns, l) := splitClark key
  (checkName l).bind fun _ =>
    match scalarText value with
    | none => .error ("the attribute '" ++ key ++ "' of '" ++ name ++ "' must be text")
    | some value =>
      let (prefixes, qualified) := qualify written.prefixes ns l
      .ok ⟨prefixes, written.attributes ++ attributeText qualified value, written.text⟩

def writeMember (name : String) (written : Written) (member : String × RuntimeValue) : Except String Written :=
  match member.1.toList with
  | '@' :: key => writeAttribute name (String.ofList key) member.2 written
  | cs =>
    if member.1 = "#text" then
      (scalarText member.2).elim (.error ("the text of '" ++ name ++ "' must be text")) fun text =>
        .ok { written with text := some text }
    else if member.1 = "#namespace" then .ok written
    else if cs.head? = some '#' then .error ("'" ++ member.1 ++ "' is not a member an XML element has")
    else .ok written

/-- Whether a member holds child elements. -/
def isChild (key : String) : Bool := key.toList.head? != some '@' && key.toList.head? != some '#'

def namespaceOf (name : String) (members : List (String × RuntimeValue)) : Except String (Option String) :=
  match members.lookup "#namespace" with
  | none => .ok none
  | some (.string uri) => .ok (some uri)
  | some _ => .error ("the namespace of '" ++ name ++ "' must be a string")

def prefixesText (prefixes : List String) : String :=
  attributesText (prefixes.zipIdx.map fun (uri, index) => ("xmlns:ns" ++ index.repr, uri))

def startText (name : String) (ns default : Option String) (written : Written) : String :=
  "<" ++ name ++ (if ns = default then "" else attributeText "xmlns" (ns.getD "")) ++ prefixesText written.prefixes ++
    written.attributes

mutual

def writeElement (name : String) (default : Option String) : RuntimeValue → Except String String
  | .object members =>
    (checkName name).bind fun _ =>
      (namespaceOf name members).bind fun ns =>
        (members.foldlM (writeMember name) ⟨[], "", none⟩).bind fun written =>
          let start := startText name ns default written
          if written.text.isNone && !members.any (fun member => isChild member.1) then .ok (start ++ "/>")
          else
            (writeChildren ns members).map fun children =>
              start ++ ">" ++ written.text.elim "" escape ++ children ++ "</" ++ name ++ ">"
  | _ => .error ("the element '" ++ name ++ "' must be an object")
termination_by structural v => v

/-- The members that are child elements, in their order. -/
def writeChildren (default : Option String) : List (String × RuntimeValue) → Except String String
  | [] => .ok ""
  | (name, value) :: rest =>
    if isChild name then
      (match value with
        | .array items => writeItems name default items
        | value => writeElement name default value).bind fun first =>
          (writeChildren default rest).map fun others => first ++ others
    else writeChildren default rest
termination_by structural members => members

def writeItems (name : String) (default : Option String) : List RuntimeValue → Except String String
  | [] => .ok ""
  | item :: rest => (writeElement name default item).bind fun first =>
      (writeItems name default rest).map fun others => first ++ others
termination_by structural items => items

end

def prolog : String := "<?xml version=\"1.0\" encoding=\"UTF-8\"?>"

/-- A document as a body. -/
def write (document : RuntimeValue) : Except String String :=
  match document with
  | .object [(name, .array [root])] => (writeElement name none root).map fun text => prolog ++ text
  | .object [(name, root)] => (writeElement name none root).map fun text => prolog ++ text
  | .object members => .error ("an XML document has one root element, and this one has " ++ members.length.repr)
  | _ => .error "an XML document is an object with one member, its root element"

end PactJanus.Component.XmlContent
