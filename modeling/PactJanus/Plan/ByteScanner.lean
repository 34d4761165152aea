import PactJanus.Lib.Delimited
import PactJanus.Plan.Tokens

namespace PactJanus.Plan.ByteScanner

open PactJanus.Lib.Affixes PactJanus.Lib.Delimited PactJanus.Lib.Offsets PactJanus.Plan.Pretty
open PactJanus.Plan.Tokens (TokenKind Token tokens isNumberPart startsDigit endsName)

/-! The scanner of a text form at the byte offsets it cuts at, with nothing where a cut is inside a character. -/

/-- How many bytes a quoted run takes after its opening quote, with its closing one. -/
def quotedLen (quote : Char) : (escaped : Bool) → List Char → Nat
  | _, [] => 0
  | true, c :: rest => c.utf8Size + quotedLen quote false rest
  | false, c :: rest =>
    if c = '\\' then c.utf8Size + quotedLen quote true rest
    else if c = quote then 1
    else c.utf8Size + quotedLen quote false rest

/-- How many bytes a value of octets takes, where the text starts with one. -/
def bytesLen (rest : List Char) : Option (Option Nat) :=
  match (stripPrefix "BYTES(".toList rest).bind (cutAt ", ".toList) with
  | none => some none
  | some (length, tail) =>
    if length.isEmpty || !length.all Char.isDigit then some none
    else
      match find (· = ')') tail with
      | none => some none
      | some close =>
        (upTo close tail).map fun shown =>
          let encoded := if "...".toList <:+ shown then shown.take (shown.length - 3) else shown
          if encoded.all fun c => c.isAlphanum || c ∈ ['+', '/', '='] then
            some (width "BYTES(".toList + width length + width ", ".toList + close + 1)
          else none

def lineLen (rest : List Char) : Nat := (find (· = '\n') rest).getD (width rest)

def pathLen (rest : List Char) : Option Nat :=
  (upTo (lineLen rest) rest).map fun line =>
    let stop := (findText " => ".toList line).getD (lineLen rest)
    if stop = lineLen rest ∧ line.getLast? = some ',' then stop - 1 else stop

def labelLen (label : List Char) : Nat :=
  match stripPrefix ['"'] label with
  | some quoted => 1 + quotedLen '"' false quoted
  | none => (find (fun c => !isLabelChar c) label).getD (width label)

/-- What starts a node, after its indentation. -/
def nodeHead (rest : List Char) : Option (TokenKind × Nat) :=
  match rest with
  | ':' :: label => some (.container, 1 + labelLen label)
  | '%' :: _ => some (.action, (find endsName rest).getD (width rest))
  | '$' :: _ => (pathLen rest).map fun len => (.resolve, len)
  | '~' :: '>' :: _ => (pathLen rest).map fun len => (.resolve, len)
  | '-' :: '>' :: _ => some (.operator, 2)
  | '*' :: '*' :: _ => some (.operator, 2)
  | '#' :: '\x7b' :: '\'' :: text =>
    let stop := 3 + quotedLen '\'' false text
    (after stop rest).map fun tail => (TokenKind.annotation, if tail.head? = some '\x7d' then stop + 1 else stop)
  | _ => some (.plain, 0)

/-- What follows the arrow to a result. -/
def result (rest : List Char) : Option (TokenKind × Nat) :=
  if "BOOL(true)".toList <+: rest then some (.pass, width "BOOL(true)".toList)
  else if "BOOL(false)".toList <+: rest then some (.fail, width "BOOL(false)".toList)
  else if "ERROR(".toList <+: rest then
    (upTo (lineLen rest) rest).map fun line =>
      (.error, if "),".toList <:+ line then lineLen rest - 1 else lineLen rest)
  else some (.plain, 0)

def startsWord (rest : List Char) (word : String) : Option Bool :=
  if word.toList <+: rest then (after (width word.toList) rest).map fun tail => !tail.head?.any Char.isAlphanum
  else some false

def findWord (rest : List Char) : List String → Option (Option String)
  | [] => some none
  | word :: words => (startsWord rest word).bind fun found => if found then some (some word) else findWord rest words

def startsNumber (first : Char) (rest : List Char) : Option Bool :=
  if first.isDigit then some true
  else if first = '-' then (after 1 rest).map startsDigit
  else some false

/-- One value, or one character of what stands between values. -/
def value (rest : List Char) : Option (TokenKind × Nat) :=
  let first := rest.head?.getD ' '
  if first = '\'' then (after 1 rest).map fun text => (.string, 1 + quotedLen '\'' false text)
  else
    (startsNumber first rest).bind fun number =>
      if number then
        (after 1 rest).map fun more => (.number, 1 + (find (fun c => !isNumberPart c) more).getD (width rest - 1))
      else
        (findWord rest ["true", "false", "NULL", "ABSENT"]).bind fun word =>
          match word with
          | some word => some (.literal, width word.toList)
          | none =>
            (bytesLen rest).map fun len =>
              match len with
              | some len => (.literal, len)
              | none => (.plain, first.utf8Size)

/-- The indentation of a line. -/
def spaces (rest : List Char) : Option (TokenKind × Nat) :=
  some (.plain, (find (· ≠ ' ') rest).getD (width rest))

structure Scanner where
  text : List Char
  at' : Nat
  out : List Token

namespace Scanner

def rest (s : Scanner) : Option (List Char) := after s.at' s.text

/-- The next bytes as one token, joined to the one before when both are plain. -/
def push (kind : TokenKind) (len : Nat) (s : Scanner) : Option Scanner :=
  if len = 0 then some s
  else
    (between s.at' (s.at' + len) s.text).bind fun text =>
      match s.out.getLast? with
      | some last =>
        if last.kind = .plain ∧ kind = .plain then
          if s.at' < width last.text then none
          else
            (between (s.at' - width last.text) (s.at' + len) s.text).map fun joined =>
              ⟨s.text, s.at' + len, s.out.dropLast ++ [⟨.plain, joined⟩]⟩
        else some ⟨s.text, s.at' + len, s.out ++ [⟨kind, text⟩]⟩
      | none => some ⟨s.text, s.at' + len, s.out ++ [⟨kind, text⟩]⟩

def take (token : List Char → Option (TokenKind × Nat)) (s : Scanner) : Option Scanner :=
  s.rest.bind fun rest => (token rest).bind fun (kind, len) => s.push kind len

end Scanner

/-- One turn of the loop, and whether a line starts after it. -/
def turn (lineStart : Bool) (s : Scanner) : Option (Bool × Scanner) :=
  if lineStart then ((s.take spaces).bind fun s => s.take nodeHead).map fun s => (false, s)
  else
    s.rest.bind fun rest =>
      if ['\n'] <+: rest then (s.push .plain 1).map fun s => (true, s)
      else if " => ".toList <+: rest then
        ((s.push .plain 1).bind fun s => (s.push .arrow 2).bind fun s => (s.push .plain 1).bind fun s =>
          s.take result).map fun s => (false, s)
      else (s.take value).map fun s => (false, s)

/-- What the loop comes to within some turns. -/
inductive Outcome where
  | unfinished
  | panicked
  | finished (out : List Token)

def run : (turns : Nat) → (lineStart : Bool) → Scanner → Outcome
  | 0, _, _ => .unfinished
  | turns + 1, lineStart, s =>
    if s.at' < width s.text then
      match turn lineStart s with
      | none => .panicked
      | some (lineStart, s) => run turns lineStart s
    else .finished s.out

def scan (turns : Nat) (text : String) : Outcome := run turns true ⟨text.toList, 0, []⟩

end PactJanus.Plan.ByteScanner
