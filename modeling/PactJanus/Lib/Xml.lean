import Mathlib.Data.List.Basic
import PactJanus.Lib.Text

namespace PactJanus.Lib.Xml

open PactJanus.Lib.Text

/-! Elements in namespaces, and the texts they are read from. -/

structure Attribute where
  namespaceUri : Option String
  localPart : String
  value : String

def Attribute.expanded (a : Attribute) : Option String × String := (a.namespaceUri, a.localPart)

/-- An element, a text, or what is neither. -/
inductive Node where
  | element (namespaceUri : Option String) (localPart : String) (attributes : List Attribute) (children : List Node)
  | text (s : String)
  | other

namespace Node

def localName : Node → Option String
  | .element _ l _ _ => some l
  | _ => none

def isElement (n : Node) : Bool := n.localName.isSome

def isText : Node → Bool
  | .text _ => true
  | _ => false

@[elab_as_elim]
theorem induct {motive : Node → Prop} (element : ∀ ns l attributes children, (∀ c ∈ children, motive c) →
    motive (.element ns l attributes children)) (text : ∀ s, motive (.text s)) (other : motive .other) (n : Node) :
    motive n :=
  @Node.rec motive (fun children => ∀ c ∈ children, motive c) element text other (List.forall_mem_nil _)
    (fun _ _ hc hrest => List.forall_mem_cons.2 ⟨hc, hrest⟩) n

end Node

/-! Characters and names. -/

def inRanges (ranges : List (Nat × Nat)) (c : Char) : Bool := ranges.any fun (low, high) => low ≤ c.toNat && c.toNat ≤ high

def isNameStart : Char → Bool := inRanges
  [(0x41, 0x5A), (0x5F, 0x5F), (0x61, 0x7A), (0xC0, 0xD6), (0xD8, 0xF6), (0xF8, 0x2FF), (0x370, 0x37D), (0x37F, 0x1FFF),
    (0x200C, 0x200D), (0x2070, 0x218F), (0x2C00, 0x2FEF), (0x3001, 0xD7FF), (0xF900, 0xFDCF), (0xFDF0, 0xFFFD),
    (0x10000, 0xEFFFF)]

def isNameChar (c : Char) : Bool :=
  isNameStart c || inRanges [(0x2D, 0x2E), (0x30, 0x39), (0xB7, 0xB7), (0x300, 0x36F), (0x203F, 0x2040)] c

/-- A name without a colon. -/
def isNCName (s : String) : Bool :=
  match s.toList with
  | [] => false
  | c :: rest => isNameStart c && rest.all isNameChar

def isQName (s : String) : Bool :=
  match splitOnce ':' s with
  | none => isNCName s
  | some (before, l) => isNCName before && isNCName l

/-- A text of characters a document may have. -/
def isLegal (s : String) : Bool :=
  s.toList.all (inRanges [(0x9, 0xA), (0xD, 0xD), (0x20, 0xD7FF), (0xE000, 0xFFFD), (0x10000, 0x10FFFF)])

def IsUri (ns : Option String) : Prop := ∀ uri, ns = some uri → uri ≠ "" ∧ isLegal uri = true

structure Attribute.WellFormed (a : Attribute) : Prop where
  uri : IsUri a.namespaceUri
  name : isNCName a.localPart = true
  value : isLegal a.value = true

inductive Node.WellFormed : Node → Prop where
  | element {ns : Option String} {l : String} {attributes : List Attribute} {children : List Node} (uri : IsUri ns)
      (name : isNCName l = true) (each : ∀ a ∈ attributes, a.WellFormed)
      (distinct : (attributes.map Attribute.expanded).Nodup) (inner : ∀ c ∈ children, c.WellFormed) :
      Node.WellFormed (.element ns l attributes children)
  | text {s : String} (legal : isLegal s = true) : Node.WellFormed (.text s)
  | other : Node.WellFormed .other

/-! Texts of elements. -/

def escapeChar : Char → List Char
  | '&' => "&amp;".toList
  | '<' => "&lt;".toList
  | '>' => "&gt;".toList
  | '"' => "&quot;".toList
  | '\'' => "&apos;".toList
  | c => [c]

def escape (s : String) : String := String.ofList (s.toList.flatMap escapeChar)

def attributeText (name value : String) : String := " " ++ name ++ "=\"" ++ escape value ++ "\""

def attributesText : List (String × String) → String
  | [] => ""
  | a :: rest => attributeText a.1 a.2 ++ attributesText rest

def joined : List String → String
  | [] => ""
  | s :: rest => s ++ joined rest

def elementText (name : String) (attributes : List (String × String)) (content : List String) : String :=
  "<" ++ name ++ attributesText attributes ++
    if content.isEmpty then "/>" else ">" ++ joined content ++ "</" ++ name ++ ">"

/-! The namespaces names are in. -/

def xmlNamespace : String := "http://www.w3.org/XML/1998/namespace"

/-- The namespaces declared where an element stands. -/
structure Scope where
  default : Option String
  prefixes : List (String × String)

namespace Scope

def initial : Scope := ⟨none, [("xml", xmlNamespace)]⟩

def declare (scope : Scope) (a : String × String) : Scope :=
  if a.1 = "xmlns" then { scope with default := if a.2 = "" then none else some a.2 }
  else
    match splitOnce ':' a.1 with
    | none => scope
    | some (before, l) => if before = "xmlns" then { scope with prefixes := (l, a.2) :: scope.prefixes } else scope

def within (scope : Scope) (attributes : List (String × String)) : Scope := attributes.foldl declare scope

def declaresPrefix (name : String) : Bool := (splitOnce ':' name).any fun p => p.1 == "xmlns"

def element (scope : Scope) (name : String) : Option (Option String × String) :=
  match splitOnce ':' name with
  | none => some (scope.default, name)
  | some (before, l) => (scope.prefixes.lookup before).map fun uri => (some uri, l)

def resolve (scope : Scope) (a : String × String) : Option Attribute :=
  match splitOnce ':' a.1 with
  | none => some ⟨none, a.1, a.2⟩
  | some (before, l) => (scope.prefixes.lookup before).map fun uri => ⟨some uri, l, a.2⟩

/-- The attributes that declare no namespace, their names in the namespaces declared. -/
def attributes (scope : Scope) (written : List (String × String)) : Option (List Attribute) :=
  (written.filter fun a => a.1 != "xmlns" && !declaresPrefix a.1).mapM scope.resolve

end Scope

/-- A text that a node is read from, under the namespaces declared around it, attributes being kept in some order. -/
inductive Serialises (order : (l : List Attribute) → { l' : List Attribute // l'.Perm l }) : Scope → String → Node → Prop where
  | text {scope : Scope} {s : String} (filled : s ≠ "") (legal : isLegal s = true) :
      Serialises order scope (escape s) (.text s)
  | element {scope : Scope} {name : String} {attributes : List (String × String)} {ns : Option String} {l : String}
      {resolved : List Attribute} {content : List (String × Node)} (qualified : isQName name = true)
      (each : ∀ a ∈ attributes, isQName a.1 = true ∧ isLegal a.2 = true ∧ (Scope.declaresPrefix a.1 = true → a.2 ≠ ""))
      (names : (attributes.map Prod.fst).Nodup) (named : (scope.within attributes).element name = some (ns, l))
      (resolves : (scope.within attributes).attributes attributes = some resolved)
      (distinct : (resolved.map Attribute.expanded).Nodup)
      (inner : ∀ p ∈ content, Serialises order (scope.within attributes) p.1 p.2)
      (apart : (content.map Prod.snd).IsChain fun a b => ¬(a.isText = true ∧ b.isText = true)) :
      Serialises order scope (elementText name attributes (content.map Prod.fst))
        (.element ns l (order resolved).1 (content.map Prod.snd))

end PactJanus.Lib.Xml
