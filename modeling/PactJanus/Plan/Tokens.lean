import PactJanus.Lib.Delimited
import PactJanus.Plan.Pretty

namespace PactJanus.Plan.Tokens

open PactJanus.Lib PactJanus.Lib.Affixes PactJanus.Lib.Delimited PactJanus.Lib.Runs PactJanus.Plan.Pretty

/-! The text forms of a plan, read back as tokens. -/

inductive TokenKind where
  | container | action | resolve | operator | annotation | string | number | literal | arrow | pass | fail | error | plain
deriving DecidableEq

/-- What a token's kind is called in display text. -/
def TokenKind.kind : TokenKind → Option Kind
  | container => some .label
  | action => some .action
  | resolve => some .path
  | operator => some .operator
  | TokenKind.annotation => some Kind.annotation
  | string => some .string
  | number => some .number
  | literal => some .literal
  | arrow => some .arrow
  | pass => some .pass
  | fail => some .fail
  | error => some .fail
  | plain => none

structure Token where
  kind : TokenKind
  text : List Char

structure Scanner where
  rest : List Char
  out : List Token

/-- A token at the end, joined to the one before when both are plain. -/
def joinPlain (kind : TokenKind) (text : List Char) (out : List Token) : List Token :=
  match out.getLast? with
  | some last =>
    if last.kind = .plain ∧ kind = .plain then out.dropLast ++ [⟨.plain, last.text ++ text⟩] else out ++ [⟨kind, text⟩]
  | none => out ++ [⟨kind, text⟩]

/-- How long a quoted run is after its opening quote, with its closing one. -/
def quotedLen (quote : Char) : List Char → Nat
  | [] => 0
  | [_] => 1
  | c :: d :: rest =>
    if c = '\\' then 2 + quotedLen quote rest else if c = quote then 1 else 1 + quotedLen quote (d :: rest)

def startsDigit (rest : List Char) : Bool := rest.head?.any Char.isDigit

/-- How long a value of octets is, where the text starts with one. -/
def bytesLen (rest : List Char) : Option Nat :=
  (stripPrefix "BYTES(".toList rest).bind fun body =>
    (cutAt ", ".toList body).bind fun (length, tail) =>
      if length.isEmpty || !length.all Char.isDigit then none
      else
        (cutAt [')'] tail).bind fun (shown, _) =>
          let encoded := if "...".toList <:+ shown then shown.take (shown.length - 3) else shown
          if encoded.all fun c => c.isAlphanum || c ∈ ['+', '/', '='] then
            some ("BYTES(".length + length.length + ", ".length + shown.length + 1)
          else none

def isNumberPart (c : Char) : Bool := c.isDigit || c ∈ ['.', 'e', 'E', '+', '-']

/-- A word, and nothing after it that would make it part of another. -/
def startsWord (rest : List Char) (word : String) : Bool :=
  (stripPrefix word.toList rest).any fun after => !after.head?.any Char.isAlphanum

/-- How long a path is: the rest of its line, up to its result or the comma after it. -/
def pathLen (rest : List Char) : Nat :=
  let line := rest.takeWhile (· ≠ '\n')
  match cutAt " => ".toList line with
  | some (before, _) => before.length
  | none => if line.getLast? = some ',' then line.length - 1 else line.length

def labelLen : List Char → Nat
  | '"' :: rest => 1 + quotedLen '"' rest
  | label => (label.takeWhile isLabelChar).length

/-- What ends an action's name. -/
def endsName (c : Char) : Bool := c ∈ [' ', '(', '\n']

/-- What starts a node, after its indentation: a token's kind, and how long it is. -/
def nodeHead (rest : List Char) : TokenKind × Nat :=
  match rest with
  | ':' :: label => (.container, 1 + labelLen label)
  | '%' :: _ => (.action, (rest.takeWhile fun c => !endsName c).length)
  | '$' :: _ => (.resolve, pathLen rest)
  | '~' :: '>' :: _ => (.resolve, pathLen rest)
  | '-' :: '>' :: _ => (.operator, 2)
  | '*' :: '*' :: _ => (.operator, 2)
  | '#' :: '\x7b' :: '\'' :: text =>
    let len := 3 + quotedLen '\'' text
    (TokenKind.annotation, if (rest.drop len).head? = some '\x7d' then len + 1 else len)
  | _ => (.plain, 0)

/-- What follows the arrow to a result. -/
def result (rest : List Char) : TokenKind × Nat :=
  if "BOOL(true)".toList <+: rest then (.pass, "BOOL(true)".length)
  else if "BOOL(false)".toList <+: rest then (.fail, "BOOL(false)".length)
  else if "ERROR(".toList <+: rest then
    let line := rest.takeWhile (· ≠ '\n')
    (.error, if "),".toList <:+ line then line.length - 1 else line.length)
  else (.plain, 0)

/-- One value, or one character of what stands between values. -/
def value (rest : List Char) : TokenKind × Nat :=
  match rest with
  | [] => (.plain, 0)
  | '\'' :: text => (.string, 1 + quotedLen '\'' text)
  | c :: more =>
    if c.isDigit || (c == '-' && startsDigit more) then (.number, 1 + (more.takeWhile isNumberPart).length)
    else
      match ["true", "false", "NULL", "ABSENT"].find? (startsWord rest) with
      | some word => (.literal, word.length)
      | none =>
        match bytesLen rest with
        | some len => (.literal, len)
        | none => (.plain, 1)

namespace Scanner

/-- The next characters as one token. -/
def push (kind : TokenKind) (len : Nat) (s : Scanner) : Scanner :=
  if len = 0 then s else ⟨s.rest.drop len, joinPlain kind (s.rest.take len) s.out⟩

def take (token : List Char → TokenKind × Nat) (s : Scanner) : Scanner := s.push (token s.rest).1 (token s.rest).2

theorem push_rest (kind : TokenKind) (len : Nat) (s : Scanner) : (s.push kind len).rest = s.rest.drop len := by
  unfold push
  split
  · rename_i h
    rw [h, List.drop_zero]
  · rfl

theorem take_rest (token : List Char → TokenKind × Nat) (s : Scanner) :
    (s.take token).rest = s.rest.drop (token s.rest).2 :=
  push_rest _ _ s

end Scanner

private theorem bytesLen_pos {rest : List Char} {len : Nat} (h : bytesLen rest = some len) : 0 < len := by
  unfold bytesLen at h
  obtain ⟨body, -, h⟩ := Option.bind_eq_some_iff.1 h
  obtain ⟨⟨length, tail⟩, -, h⟩ := Option.bind_eq_some_iff.1 h
  dsimp only at h
  split_ifs at h
  obtain ⟨⟨shown, after⟩, -, h⟩ := Option.bind_eq_some_iff.1 h
  dsimp only at h
  split_ifs at h
  all_goals
    obtain rfl := Option.some.inj h
    omega

theorem value_pos {rest : List Char} (h : rest ≠ []) : 0 < (value rest).2 := by
  unfold value
  split
  · contradiction
  · exact Nat.add_pos_left Nat.one_pos _
  · split
    · exact Nat.add_pos_left Nat.one_pos _
    · split
      · rename_i word hword
        have hmem := List.mem_of_find?_eq_some hword
        simp only [List.mem_cons, List.not_mem_nil, or_false] at hmem
        rcases hmem with rfl | rfl | rfl | rfl <;> decide
      · split
        · rename_i hlen
          exact bytesLen_pos hlen
        · exact Nat.one_pos

/-- The rest of the text as tokens. -/
def run (lineStart : Bool) (s : Scanner) : List Token :=
  if _hnil : s.rest = [] then s.out
  else if lineStart then run false ((s.push .plain (s.rest.takeWhile (· = ' ')).length).take nodeHead)
  else if s.rest.head? = some '\n' then run true (s.push .plain 1)
  else if " => ".toList <+: s.rest then run false ((((s.push .plain 1).push .arrow 2).push .plain 1).take result)
  else run false (s.take value)
termination_by 2 * s.rest.length + lineStart.toNat
decreasing_by
  · have htrue : lineStart = true := by assumption
    rw [Scanner.take_rest, Scanner.push_rest, List.length_drop, List.length_drop, htrue]
    simp only [Bool.toNat_true, Bool.toNat_false]
    omega
  · have hpos := List.length_pos_iff.2 _hnil
    rw [Scanner.push_rest, List.length_drop, Bool.toNat_true]
    omega
  · have hpos := List.length_pos_iff.2 _hnil
    simp only [Scanner.take_rest, Scanner.push_rest, List.length_drop, Bool.toNat_false]
    omega
  · have hpos := List.length_pos_iff.2 _hnil
    have hvalue := value_pos _hnil
    rw [Scanner.take_rest, List.length_drop, Bool.toNat_false]
    omega

/-- A text form as tokens. -/
def tokens (text : String) : List Token := run true ⟨text.toList, []⟩

end PactJanus.Plan.Tokens
