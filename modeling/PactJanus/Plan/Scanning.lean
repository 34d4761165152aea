import PactJanus.Lib.Decimal
import PactJanus.Data.Spelling
import PactJanus.Plan.Tokens

namespace PactJanus.Plan.Scanning

open PactJanus.Data PactJanus.Data.Json PactJanus.Lib PactJanus.Lib.Affixes PactJanus.Lib.Delimited PactJanus.Lib.Runs
open PactJanus.Plan.Model PactJanus.Plan.Pretty PactJanus.Plan.Tokens PactJanus.Plan.Value

/-! What the scanner makes of the texts of the pretty form. -/

/-- A text, each letter with its kind. -/
def lettered (kind : Option Kind) (text : List Char) : List (Option Kind × Char) := text.map fun c => (kind, c)

def spreadTokens (tokens : List Token) : List (Option Kind × Char) :=
  tokens.flatMap fun token => lettered token.kind.kind token.text

private theorem spreadTokens_append (a b : List Token) : spreadTokens (a ++ b) = spreadTokens a ++ spreadTokens b :=
  List.flatMap_append

/-! What the scanner makes of a text, letter by letter. -/

private theorem spread_joinPlain (kind : TokenKind) (text : List Char) (out : List Token) :
    spreadTokens (joinPlain kind text out) = spreadTokens out ++ lettered kind.kind text := by
  unfold joinPlain
  split
  · rename_i last hlast
    obtain ⟨before, rfl⟩ := List.getLast?_eq_some_iff.1 hlast
    split
    · rename_i hplain
      obtain ⟨hlast, rfl⟩ := hplain
      simp [spreadTokens, lettered, hlast]
    · simp [spreadTokens]
  · simp [spreadTokens]

private theorem spread_push (kind : TokenKind) (len : Nat) (s : Scanner) :
    spreadTokens (s.push kind len).out = spreadTokens s.out ++ lettered kind.kind (s.rest.take len) := by
  unfold Scanner.push
  split
  · rename_i h
    simp [h, lettered]
  · exact spread_joinPlain kind _ _

def scan (lineStart : Bool) (text : List Char) : List (Option Kind × Char) := spreadTokens (run lineStart ⟨text, []⟩)

/-- What a token takes of a text, with its kind. -/
def taken (token : TokenKind × Nat) (text : List Char) : List (Option Kind × Char) :=
  lettered token.1.kind (text.take token.2)

private theorem spread_take (token : List Char → TokenKind × Nat) (s : Scanner) :
    spreadTokens (s.take token).out = spreadTokens s.out ++ taken (token s.rest) s.rest :=
  spread_push _ _ s

/-- One turn of the scanner, whatever is behind it: the letters it reads, and what it goes on from. -/
def Moves (lineStart : Bool) (text : List Char) (next : Bool) (letters : List (Option Kind × Char)) (rest : List Char) :
    Prop :=
  ∀ out, ∃ more, run lineStart ⟨text, out⟩ = run next ⟨rest, more⟩ ∧ spreadTokens more = spreadTokens out ++ letters

/-- What is left of a line after its indentation. -/
def unindented (text : List Char) : List Char := text.dropWhile (· = ' ')

theorem drop_takeWhile_length {α : Type} (p : α → Bool) (l : List α) :
    l.drop (l.takeWhile p).length = l.dropWhile p :=
  calc l.drop (l.takeWhile p).length
      = (l.takeWhile p ++ l.dropWhile p).drop (l.takeWhile p).length := by rw [List.takeWhile_append_dropWhile]
    _ = l.dropWhile p := List.drop_left

theorem take_takeWhile_length {α : Type} (p : α → Bool) (l : List α) :
    l.take (l.takeWhile p).length = l.takeWhile p :=
  (List.prefix_iff_eq_take.1 (List.takeWhile_prefix p)).symm

private theorem moves_lineStart {text : List Char} (h : text ≠ []) :
    Moves true text false
      (lettered none (text.takeWhile (· = ' ')) ++ taken (nodeHead (unindented text)) (unindented text))
      ((unindented text).drop (nodeHead (unindented text)).2) := by
  intro out
  refine ⟨((Scanner.push .plain (text.takeWhile (· = ' ')).length ⟨text, out⟩).take nodeHead).out, ?_, ?_⟩
  · rw [run, dif_neg h, if_pos rfl]
    congr 1
    rw [Scanner.mk.injEq]
    simp only [Scanner.take_rest, Scanner.push_rest, drop_takeWhile_length, unindented, and_self]
  · rw [spread_take, spread_push, Scanner.push_rest, drop_takeWhile_length, take_takeWhile_length, List.append_assoc]
    rfl

private theorem moves_newline (text : List Char) : Moves false ('\n' :: text) true [(none, '\n')] text := by
  intro out
  refine ⟨(Scanner.push .plain 1 ⟨'\n' :: text, out⟩).out, ?_, spread_push _ _ _⟩
  have hline : (Scanner.mk ('\n' :: text) out).rest.head? = some '\n' := rfl
  rw [run, dif_neg (List.cons_ne_nil _ _), if_neg Bool.false_ne_true, if_pos hline]
  congr 1

private theorem moves_arrow {text : List Char} (h : " => ".toList <+: text) :
    Moves false text false (lettered none [' '] ++ lettered (some .arrow) ['=', '>'] ++ lettered none [' '] ++
      taken (result (text.drop 4)) (text.drop 4)) ((text.drop 4).drop (result (text.drop 4)).2) := by
  obtain ⟨rest, rfl⟩ := h
  intro out
  refine ⟨((((Scanner.push .plain 1 ⟨" => ".toList ++ rest, out⟩).push .arrow 2).push .plain 1).take result).out, ?_, ?_⟩
  · rw [run, dif_neg (by simp), if_neg Bool.false_ne_true, if_neg (by simp), if_pos (List.prefix_append _ _)]
    congr 1
    rw [Scanner.mk.injEq]
    exact ⟨by simp only [Scanner.take_rest, Scanner.push_rest, List.drop_drop], rfl⟩
  · simp only [spread_take, spread_push, Scanner.push_rest, List.append_assoc]
    rfl

private theorem moves_value {text : List Char} (hne : text ≠ []) (hline : text.head? ≠ some '\n')
    (h : ¬" => ".toList <+: text) : Moves false text false (taken (value text) text) (text.drop (value text).2) := by
  intro out
  refine ⟨(Scanner.take value ⟨text, out⟩).out, ?_, spread_take _ _⟩
  rw [run, dif_neg hne, if_neg Bool.false_ne_true, if_neg hline, if_neg h]
  congr 1
  rw [Scanner.mk.injEq]
  exact ⟨Scanner.take_rest _ _, rfl⟩

/-- The scanner always moves on. -/
private theorem moves (lineStart : Bool) {text : List Char} (h : text ≠ []) : ∃ next letters rest,
    Moves lineStart text next letters rest ∧ 2 * rest.length + next.toNat < 2 * text.length + lineStart.toNat := by
  have hpos := List.length_pos_iff.2 h
  cases lineStart with
  | true =>
    refine ⟨_, _, _, moves_lineStart h, ?_⟩
    have hle : (unindented text).length ≤ text.length := (List.dropWhile_sublist _).length_le
    simp only [List.length_drop, Bool.toNat_true, Bool.toNat_false]
    omega
  | false =>
    by_cases hline : text.head? = some '\n'
    · obtain ⟨rest, rfl⟩ := List.head?_eq_some_iff.1 hline
      refine ⟨_, _, _, moves_newline rest, ?_⟩
      simp only [List.length_cons, Bool.toNat_true, Bool.toNat_false]
      omega
    · by_cases harrow : " => ".toList <+: text
      · refine ⟨_, _, _, moves_arrow harrow, ?_⟩
        simp only [List.length_drop]
        omega
      · refine ⟨_, _, _, moves_value h hline harrow, ?_⟩
        have hvalue := value_pos h
        simp only [List.length_drop]
        omega

/-- What is behind the scanner does not change what it makes of the rest. -/
private theorem spread_run (lineStart : Bool) (text : List Char) (out : List Token) :
    spreadTokens (run lineStart ⟨text, out⟩) = spreadTokens out ++ scan lineStart text := by
  induction hn : 2 * text.length + lineStart.toNat using Nat.strong_induction_on generalizing lineStart text out with
  | _ n ih =>
    by_cases hnil : text = []
    · simp [scan, run, hnil, spreadTokens]
    · obtain ⟨next, letters, rest, hmoves, hless⟩ := moves lineStart hnil
      have hrun (out : List Token) :
          spreadTokens (run lineStart ⟨text, out⟩) = spreadTokens out ++ (letters ++ scan next rest) := by
        obtain ⟨more, hrun, hmore⟩ := hmoves out
        rw [hrun, ih _ (hn ▸ hless) next rest more rfl, hmore, List.append_assoc]
      have hscan : scan lineStart text = letters ++ scan next rest := hrun []
      rw [hrun, hscan]

private theorem Moves.scan_eq {lineStart next : Bool} {text rest : List Char} {letters : List (Option Kind × Char)}
    (h : Moves lineStart text next letters rest) : scan lineStart text = letters ++ scan next rest := by
  obtain ⟨more, hrun, hmore⟩ := h []
  rw [scan, hrun, spread_run, hmore]
  rfl

/-! The texts of the pretty form, from the scanner's place in a line. -/

theorem scan_nil (lineStart : Bool) : scan lineStart [] = [] := by simp [scan, run, spreadTokens]

theorem scan_lineStart (text : List Char) :
    scan true text = lettered none (text.takeWhile (· = ' ')) ++ taken (nodeHead (unindented text)) (unindented text) ++
      scan false ((unindented text).drop (nodeHead (unindented text)).2) := by
  by_cases h : text = []
  · simp [h, scan_nil, unindented, nodeHead, taken, lettered]
  · exact (moves_lineStart h).scan_eq

theorem scan_newline (text : List Char) : scan false ('\n' :: text) = (none, '\n') :: scan true text :=
  (moves_newline text).scan_eq

theorem scan_arrow {text : List Char} (h : " => ".toList <+: text) : ∃ letters, scan false text = (none, ' ') :: letters :=
  ⟨_, (moves_arrow h).scan_eq⟩

theorem scan_value {text : List Char} (hne : text ≠ []) (hline : text.head? ≠ some '\n') (h : ¬" => ".toList <+: text) :
    scan false text = taken (value text) text ++ scan false (text.drop (value text).2) :=
  (moves_value hne hline h).scan_eq

/-! Values. -/

def punctuation : List Char := ['[', ']', '\x7b', '\x7d', ',', ':', '(', ')']

private theorem value_punctuation {c : Char} (hc : c ∈ punctuation) (rest : List Char) : value (c :: rest) = (.plain, 1) := by
  simp only [punctuation, List.mem_cons, List.not_mem_nil, or_false] at hc
  rcases hc with rfl | rfl | rfl | rfl | rfl | rfl | rfl | rfl <;>
    simp [value, startsWord, bytesLen, stripPrefix, Char.isDigit, List.find?]

theorem scan_punctuation {c : Char} (hc : c ∈ punctuation) (rest : List Char) :
    scan false (c :: rest) = (none, c) :: scan false rest := by
  have hnot : c ≠ '\n' ∧ c ≠ ' ' := by
    constructor <;> rintro rfl <;> exact absurd hc (by decide)
  rw [scan_value (List.cons_ne_nil _ _) (by simpa using hnot.1) (by simp [hnot.2.symm]), value_punctuation hc]
  rfl

theorem scan_space {rest : List Char} (h : rest.head? ≠ some '=') : scan false (' ' :: rest) = (none, ' ') :: scan false rest := by
  have hvalue : value (' ' :: rest) = (.plain, 1) := by
    simp [value, startsWord, bytesLen, stripPrefix, Char.isDigit, List.find?]
  have harrow : ¬" => ".toList <+: ' ' :: rest := by
    rintro ⟨more, hmore⟩
    obtain rfl := (List.cons.inj hmore).2
    exact h rfl
  rw [scan_value (List.cons_ne_nil _ _) (by simp) harrow, hvalue]
  rfl

/-- A text of quotes and backslashes, with a backslash before each. -/
def escaped (quote : Char) (cs : List Char) : List Char := cs.flatMap fun c => if c = '\\' ∨ c = quote then ['\\', c] else [c]

theorem toList_quoted (quote : Char) (s : String) :
    (quoted quote s).toList = quote :: (escaped quote s.toList ++ [quote]) := by
  rw [quoted, String.toList_ofList]
  rfl

theorem quotedLen_escaped {quote : Char} (hquote : quote ≠ '\\') (cs rest : List Char) :
    quotedLen quote (escaped quote cs ++ quote :: rest) = (escaped quote cs).length + 1 := by
  induction cs with
  | nil => cases rest <;> simp [escaped, quotedLen, hquote]
  | cons c cs ih =>
    have hcons : escaped quote (c :: cs) = (if c = '\\' ∨ c = quote then ['\\', c] else [c]) ++ escaped quote cs := rfl
    rw [hcons, List.append_assoc]
    split
    · rw [List.cons_append, List.cons_append, List.nil_append, quotedLen, if_pos rfl, ih]
      simp only [List.cons_append, List.nil_append, List.length_cons]
      omega
    · rename_i hc
      obtain ⟨hslash, hquoted⟩ := not_or.1 hc
      obtain ⟨d, more, hmore⟩ := List.exists_cons_of_ne_nil (show escaped quote cs ++ quote :: rest ≠ [] by simp)
      rw [List.singleton_append, hmore, quotedLen, if_neg hslash, if_neg hquoted, ← hmore, ih]
      simp only [List.singleton_append, List.length_cons]
      omega

theorem taken_append (kind : TokenKind) (text rest : List Char) :
    taken (kind, text.length) (text ++ rest) = lettered kind.kind text := by
  rw [taken, List.take_left]

private theorem scan_token (kind : TokenKind) {text rest : List Char} (hne : text ≠ []) (hline : text.head? ≠ some '\n')
    (harrow : text.head? ≠ some ' ') (hvalue : value (text ++ rest) = (kind, text.length)) :
    scan false (text ++ rest) = lettered kind.kind text ++ scan false rest := by
  obtain ⟨c, more, rfl⟩ := List.exists_cons_of_ne_nil hne
  have harrow : ¬" => ".toList <+: c :: more ++ rest := by
    rintro ⟨after, hafter⟩
    exact harrow (congrArg some (List.cons.inj hafter).1.symm)
  have hline : (c :: more ++ rest).head? ≠ some '\n' := by simpa using hline
  rw [scan_value (by simp) hline harrow, hvalue, taken_append, List.drop_left]

theorem scan_string (s : String) (rest : List Char) :
    scan false ((quoteString s).toList ++ rest) = lettered (some .string) (quoteString s).toList ++ scan false rest := by
  have htext : (quoteString s).toList = '\'' :: (escaped '\'' s.toList ++ ['\'']) := toList_quoted _ _
  refine scan_token .string ?_ ?_ ?_ ?_
  · simp [htext]
  · simp [htext]
  · simp [htext]
  · have hvalue : value ((quoteString s).toList ++ rest) =
        (.string, 1 + quotedLen '\'' (escaped '\'' s.toList ++ '\'' :: rest)) := by
      rw [htext]
      simp [value]
    rw [hvalue, quotedLen_escaped (by decide), htext]
    simp [Nat.add_comm]

/-- What can follow a value of the pretty form. -/
def Follows (rest : List Char) : Prop := ∀ c ∈ rest.head?, c ∈ [',', ']', '\x7d', '\n']

theorem takeWhile_append_stop {p : Char → Bool} {text rest : List Char} (htext : ∀ c ∈ text, p c = true)
    (hrest : ∀ c ∈ rest.head?, p c = false) : (text ++ rest).takeWhile p = text := by
  rw [List.takeWhile_append_of_pos htext]
  cases rest with
  | nil => simp
  | cons c rest => simp [hrest c rfl]

private theorem value_cons {c : Char} (hc : c ≠ '\'') (more : List Char) :
    value (c :: more) =
      if c.isDigit || (c == '-' && startsDigit more) then (.number, 1 + (more.takeWhile isNumberPart).length)
      else
        match ["true", "false", "NULL", "ABSENT"].find? (startsWord (c :: more)) with
        | some word => (.literal, word.length)
        | none =>
          match bytesLen (c :: more) with
          | some len => (.literal, len)
          | none => (.plain, 1) := by
  unfold value
  split
  · contradiction
  · rename_i heq
    exact absurd (List.cons.inj heq).1 hc
  · rename_i heq
    obtain ⟨rfl, rfl⟩ := List.cons.inj heq
    rfl

private theorem value_number {c : Char} {more : List Char} (h : (c.isDigit || (c == '-' && startsDigit more)) = true) :
    value (c :: more) = (.number, 1 + (more.takeWhile isNumberPart).length) := by
  have hc : c ≠ '\'' := by
    rintro rfl
    simp [Char.isDigit] at h
  rw [value_cons hc, if_pos h]

private theorem isNumberPart_of_char {c : Char} (h : Decimal.isNumberChar c = true) : isNumberPart c = true := by
  simp only [Decimal.isNumberChar, isNumberPart, Bool.or_eq_true, decide_eq_true_eq, List.mem_cons, List.not_mem_nil,
    or_false] at h ⊢
  tauto

theorem scan_number (n : Number) {rest : List Char} (h : Follows rest) :
    scan false ((numberText n).toList ++ rest) = lettered (some .number) (numberText n).toList ++ scan false rest := by
  have hchars : ∀ c ∈ (numberText n).toList, isNumberPart c = true := fun c hc =>
    isNumberPart_of_char (Spelling.numberText_chars n c hc)
  have hrest : ∀ c ∈ rest.head?, isNumberPart c = false := by
    intro c hc
    have hmem := h c hc
    simp only [List.mem_cons, List.not_mem_nil, or_false] at hmem
    rcases hmem with rfl | rfl | rfl | rfl <;> decide
  obtain ⟨body, ⟨d, hd, hdigit⟩, htext⟩ := Spelling.numberText_head n
  obtain ⟨digits, rfl⟩ := List.head?_eq_some_iff.1 hd
  obtain ⟨c, more, hcons, hstart⟩ : ∃ c more, (numberText n).toList = c :: more ∧
      (c.isDigit || (c == '-' && startsDigit (more ++ rest))) = true := by
    rcases htext with htext | htext
    · exact ⟨d, digits, htext, by simp [hdigit]⟩
    · exact ⟨'-', d :: digits, htext, by simp [startsDigit, hdigit]⟩
  have hplain : c ≠ '\n' ∧ c ≠ ' ' := by
    constructor <;> rintro rfl <;> simp [Char.isDigit] at hstart
  rw [hcons] at hchars ⊢
  refine scan_token .number (List.cons_ne_nil _ _) (by simpa using hplain.1) (by simpa using hplain.2) ?_
  rw [List.cons_append, value_number hstart, takeWhile_append_stop (List.forall_mem_cons.1 hchars).2 hrest, List.length_cons,
    Nat.add_comm]

theorem scan_word {word : String} (hword : word ∈ ["true", "false", "NULL", "ABSENT"]) {rest : List Char} (h : Follows rest) :
    scan false (word.toList ++ rest) = lettered (some .literal) word.toList ++ scan false rest := by
  have hrest : rest.head?.any Char.isAlphanum = false := by
    cases hhead : rest.head? with
    | none => rfl
    | some c =>
      have hmem := h c hhead
      simp only [List.mem_cons, List.not_mem_nil, or_false] at hmem
      rcases hmem with rfl | rfl | rfl | rfl <;> decide
  simp only [List.mem_cons, List.not_mem_nil, or_false] at hword
  rcases hword with rfl | rfl | rfl | rfl <;>
    exact scan_token .literal (by decide) (by decide) (by decide)
      (by simp [value_cons, Char.isDigit, startsDigit, List.find?, startsWord, stripPrefix, hrest]; rfl)

private theorem bytesLen_of {length shown rest : List Char} (hne : length ≠ []) (hdigits : ∀ c ∈ length, c.isDigit = true)
    (hclose : ')' ∉ shown)
    (hshown : ∀ c ∈ if "...".toList <:+ shown then shown.take (shown.length - 3) else shown,
      Base64.isBase64Char c = true) :
    bytesLen ("BYTES(".toList ++ (length ++ ", ".toList ++ (shown ++ [')'] ++ rest))) =
      some ("BYTES(".length + length.length + ", ".length + shown.length + 1) := by
  have hlength : cutAt ", ".toList (length ++ ", ".toList ++ (shown ++ [')'] ++ rest)) =
      some (length, shown ++ [')'] ++ rest) := by
    refine cutAt_of_absent (by decide) (fun hwithin => ?_) _
    exact absurd (hdigits ',' (hwithin.subset (by decide))) (by decide)
  have hcut : cutAt [')'] (shown ++ [')'] ++ rest) = some (shown, rest) :=
    cutAt_of_absent (List.not_mem_nil) (fun hwithin => hclose (hwithin.subset List.mem_cons_self)) _
  rw [bytesLen, stripPrefix_append, Option.bind_some, hlength, Option.bind_some]
  dsimp only
  rw [if_neg (by simpa [hne] using hdigits), hcut, Option.bind_some]
  dsimp only
  rw [if_pos]
  exact List.all_eq_true.2 fun c hc => by simpa [Base64.isBase64Char] using hshown c hc

/-- What is shown of the base64 of octets. -/
private def shownOf (bytes : List UInt8) : List Char :=
  if (Base64.encodeBytes bytes).length > bytesShown then (Base64.encodeBytes bytes).take bytesShown ++ "...".toList
  else Base64.encodeBytes bytes

private theorem toList_renderBytes (bytes : List UInt8) : (renderBytes bytes).toList =
    "BYTES(".toList ++ (bytes.length.repr.toList ++ ", ".toList ++ (shownOf bytes ++ [')'])) := by
  unfold renderBytes shownOf Base64.encode
  dsimp only
  rw [String.length_ofList, String.toList_ofList]
  split <;> simp [String.toList_append]

private theorem shownOf_chars (bytes : List UInt8) :
    (∀ c ∈ shownOf bytes, Base64.isBase64Char c = true ∨ c = '.') ∧
      ∀ c ∈ if "...".toList <:+ shownOf bytes then (shownOf bytes).take ((shownOf bytes).length - 3) else shownOf bytes,
        Base64.isBase64Char c = true := by
  have hchars := Base64.encodeBytes_chars bytes
  unfold shownOf
  split
  · have htake : ∀ c ∈ (Base64.encodeBytes bytes).take bytesShown, Base64.isBase64Char c = true := fun c hc =>
      hchars c (List.mem_of_mem_take hc)
    constructor
    · intro c hc
      rcases List.mem_append.1 hc with hc | hc
      · exact .inl (htake c hc)
      · right
        simpa using hc
    · rw [if_pos (List.suffix_append _ _), List.length_append]
      simpa using htake
  · refine ⟨fun c hc => .inl (hchars c hc), fun c hc => hchars c ?_⟩
    split at hc
    · exact List.mem_of_mem_take hc
    · exact hc

theorem scan_bytes (bytes : List UInt8) (rest : List Char) :
    scan false ((renderBytes bytes).toList ++ rest) = lettered (some .literal) (renderBytes bytes).toList ++ scan false rest := by
  obtain ⟨hplain, hshown⟩ := shownOf_chars bytes
  have hclose : ')' ∉ shownOf bytes := fun hmem => absurd (hplain ')' hmem) (by decide)
  have hne : bytes.length.repr.toList ≠ [] := by
    rw [Nat.toList_repr]
    exact Nat.toDigits_ne_nil
  have hlen := @bytesLen_of _ _ rest hne (fun c hc => Text.isDigit_of_mem_repr hc) hclose hshown
  refine scan_token .literal (by simp [toList_renderBytes]) (by simp [toList_renderBytes])
    (by simp [toList_renderBytes]) ?_
  have hwords : ["true", "false", "NULL", "ABSENT"].find? (startsWord ((renderBytes bytes).toList ++ rest)) = none := by
    simp [toList_renderBytes, List.find?, startsWord, stripPrefix]
  have htext : (renderBytes bytes).toList ++ rest =
      "BYTES(".toList ++ (bytes.length.repr.toList ++ ", ".toList ++ (shownOf bytes ++ [')'] ++ rest)) := by
    rw [toList_renderBytes]
    simp only [List.append_assoc]
  have hcons : (renderBytes bytes).toList ++ rest =
      'B' :: ("YTES(".toList ++ (bytes.length.repr.toList ++ ", ".toList ++ (shownOf bytes ++ [')'] ++ rest))) := htext
  have hvalue : value ((renderBytes bytes).toList ++ rest) = (.literal,
      "BYTES(".length + bytes.length.repr.toList.length + ", ".length + (shownOf bytes).length + 1) := by
    rw [hcons, value_cons (by decide), ← hcons, hwords, htext, hlen]
    rfl
  rw [hvalue, toList_renderBytes]
  simp only [List.length_append, List.length_cons, List.length_nil, String.length_toList, Nat.add_assoc]

/-- The scanner reads a text as it was marked, in the middle of a line, before what can follow a value. -/
def ReadsInline (marked : Marked) : Prop := ∀ rest, Follows rest → scan false (marked.text ++ rest) = marked.spread ++ scan false rest

theorem text_eq (marked : Marked) : marked.text = marked.spread.map Prod.snd := rfl

theorem map_snd_lettered (kind : Option Kind) (text : List Char) : (lettered kind text).map Prod.snd = text := by
  simp [lettered]

@[simp] theorem spread_plain (text : String) : (Marked.plain text).spread = lettered none text.toList :=
  RunText.spread_of _ _

@[simp] theorem spread_ofKind (kind : Kind) (text : String) :
    (Marked.ofKind kind text).spread = lettered (some kind) text.toList :=
  RunText.spread_of _ _

@[simp] theorem spread_textPlain (text : String) (marked : Marked) :
    (Marked.textPlain text marked).spread = marked.spread ++ lettered none text.toList :=
  RunText.spread_push _ _ _

/-- What starts a value of the pretty form: nothing that starts a node of another kind. -/
def StartsValue (text : List Char) : Prop :=
  ∃ c more, text = c :: more ∧ (c ∈ ['\'', '[', '\x7b', 't', 'f', 'N', 'A', 'B'] ∨ c.isDigit = true ∨ c = '-' ∧ startsDigit more)

theorem StartsValue.append {text : List Char} (h : StartsValue text) (rest : List Char) : StartsValue (text ++ rest) := by
  obtain ⟨c, more, rfl, hc⟩ := h
  refine ⟨c, more ++ rest, rfl, hc.imp_right fun hc => hc.imp_right fun ⟨hminus, hdigit⟩ => ⟨hminus, ?_⟩⟩
  cases more with
  | nil => exact nomatch hdigit
  | cons d more => exact hdigit

theorem StartsValue.head_ne {text : List Char} (h : StartsValue text) {c : Char}
    (hc : c ∉ ['\'', '[', '\x7b', 't', 'f', 'N', 'A', 'B']) (hdigit : c.isDigit = false) (hminus : c ≠ '-') :
    text.head? ≠ some c := by
  obtain ⟨d, more, rfl, hd⟩ := h
  intro hhead
  obtain rfl := Option.some.inj hhead
  rcases hd with hd | hd | hd
  · exact hc hd
  · exact absurd (hdigit.symm.trans hd) (by decide)
  · exact hminus hd.1

/-- A value's text as the scanner and what is around it meet it. -/
structure Readable (marked : Marked) : Prop where
  reads : ReadsInline marked
  starts : StartsValue marked.text

private theorem readable_ofKind {kind : Kind} {text : String}
    (h : ∀ rest, Follows rest → scan false (text.toList ++ rest) = lettered (some kind) text.toList ++ scan false rest)
    (hstarts : StartsValue text.toList) : Readable (Marked.ofKind kind text) := by
  have htext : (Marked.ofKind kind text).text = text.toList := by rw [text_eq, spread_ofKind, map_snd_lettered]
  exact ⟨fun rest hrest => by rw [htext, spread_ofKind]; exact h rest hrest, htext ▸ hstarts⟩

private theorem readable_word {word : String} (hword : word ∈ ["true", "false", "NULL", "ABSENT"]) :
    Readable (Marked.ofKind .literal word) := by
  refine readable_ofKind (fun rest h => scan_word hword h) ?_
  simp only [List.mem_cons, List.not_mem_nil, or_false] at hword
  rcases hword with rfl | rfl | rfl | rfl <;> exact ⟨_, _, rfl, .inl (by decide)⟩

private theorem readable_number (n : Number) : Readable (Marked.ofKind .number (numberText n)) := by
  refine readable_ofKind (fun rest h => scan_number n h) ?_
  obtain ⟨body, ⟨d, hd, hdigit⟩, htext⟩ := Spelling.numberText_head n
  obtain ⟨digits, rfl⟩ := List.head?_eq_some_iff.1 hd
  rcases htext with htext | htext
  · exact ⟨d, digits, htext, .inr (.inl hdigit)⟩
  · exact ⟨'-', d :: digits, htext, .inr (.inr ⟨rfl, by simp [startsDigit, hdigit]⟩)⟩

private theorem readable_string (s : String) : Readable (Marked.ofKind .string (quoteString s)) :=
  readable_ofKind (fun rest _ => scan_string s rest) ⟨_, _, toList_quoted _ _, .inl (by decide)⟩

private theorem readable_bytes (bytes : List UInt8) : Readable (Marked.ofKind .literal (renderBytes bytes)) :=
  readable_ofKind (fun rest _ => scan_bytes bytes rest) ⟨_, _, toList_renderBytes bytes, .inl (by decide)⟩

/-- A separator of values, in the middle of a line. -/
private theorem scan_separator {c : Char} (hc : c ∈ punctuation) {text : List Char} (h : StartsValue text) :
    scan false (c :: ' ' :: text) = (none, c) :: (none, ' ') :: scan false text := by
  rw [scan_punctuation hc, scan_space (h.head_ne (by decide) (by decide) (by decide))]

private theorem spread_join (parts : List Marked) :
    (Marked.join ", " parts).spread =
      match parts with
      | [] => []
      | part :: rest => part.spread ++ rest.flatMap fun part => lettered none ", ".toList ++ part.spread := by
  cases parts with
  | nil => rfl
  | cons part rest =>
    suffices h : ∀ (joined : Marked), (rest.foldl (fun joined part => (Marked.textPlain ", " joined).append part) joined).spread =
        joined.spread ++ rest.flatMap fun part => lettered none ", ".toList ++ part.spread by
      simpa [Marked.join] using h (RunText.append .new part)
    induction rest with
    | nil => simp
    | cons next rest ih =>
      intro joined
      rw [List.foldl_cons, ih, RunText.spread_append, spread_textPlain, List.flatMap_cons]
      simp only [List.append_assoc]

private theorem follows_cons {c : Char} (hc : c ∈ [',', ']', '\x7d', '\n']) (rest : List Char) : Follows (c :: rest) := by
  intro d hd
  exact Option.some.inj hd ▸ hc

private theorem scan_parts {parts : List Marked} (h : ∀ part ∈ parts, Readable part) {rest : List Char} (hrest : Follows rest) :
    scan false ((parts.flatMap fun part => lettered none ", ".toList ++ part.spread).map Prod.snd ++ rest) =
      (parts.flatMap fun part => lettered none ", ".toList ++ part.spread) ++ scan false rest := by
  induction parts with
  | nil => simp
  | cons part others ih =>
    obtain ⟨hpart, hothers⟩ := List.forall_mem_cons.1 h
    have hfollows : Follows ((others.flatMap fun part => lettered none ", ".toList ++ part.spread).map Prod.snd ++ rest) := by
      cases others with
      | nil => simpa using hrest
      | cons next others => exact follows_cons (by decide) _
    have hstep := scan_separator (c := ',') (by decide) (hpart.starts.append
      ((others.flatMap fun part => lettered none ", ".toList ++ part.spread).map Prod.snd ++ rest))
    rw [hpart.reads _ hfollows, ih hothers] at hstep
    rw [List.flatMap_cons, List.map_append, List.map_append, map_snd_lettered]
    simpa [lettered, text_eq] using hstep

private theorem scan_join {parts : List Marked} (h : ∀ part ∈ parts, Readable part) {rest : List Char} (hrest : Follows rest) :
    scan false ((Marked.join ", " parts).text ++ rest) = (Marked.join ", " parts).spread ++ scan false rest := by
  rw [text_eq, spread_join]
  cases parts with
  | nil => rfl
  | cons part others =>
    obtain ⟨hpart, hothers⟩ := List.forall_mem_cons.1 h
    have hfollows : Follows ((others.flatMap fun part => lettered none ", ".toList ++ part.spread).map Prod.snd ++ rest) := by
      cases others with
      | nil => simpa using hrest
      | cons next others => exact follows_cons (by decide) _
    dsimp only
    rw [List.map_append, List.append_assoc, ← text_eq, hpart.reads _ hfollows, scan_parts hothers hrest, List.append_assoc]

/-- Brackets around what reads in the middle of a line. -/
private theorem readable_bracketed {opening closing : Char} {inside : Marked} (hopen : opening ∈ ['[', '\x7b'])
    (hclose : closing ∈ [']', '\x7d'])
    (h : ∀ rest, Follows rest → scan false (inside.text ++ rest) = inside.spread ++ scan false rest) :
    Readable (Marked.textPlain (String.ofList [closing]) ((Marked.plain (String.ofList [opening])).append inside)) := by
  have hspread : (Marked.textPlain (String.ofList [closing]) ((Marked.plain (String.ofList [opening])).append inside)).spread =
      (none, opening) :: (inside.spread ++ [(none, closing)]) := by
    simp [lettered]
  have htext : (Marked.textPlain (String.ofList [closing]) ((Marked.plain (String.ofList [opening])).append inside)).text =
      opening :: (inside.text ++ [closing]) := by
    rw [text_eq, hspread]
    simp [text_eq]
  constructor
  · intro rest hrest
    have hopen : opening ∈ punctuation := by
      simp only [List.mem_cons, List.not_mem_nil, or_false] at hopen
      rcases hopen with rfl | rfl <;> decide
    have hfollows : Follows (closing :: rest) := follows_cons (by
      simp only [List.mem_cons, List.not_mem_nil, or_false] at hclose
      rcases hclose with rfl | rfl <;> decide) rest
    have hclose : closing ∈ punctuation := by
      simp only [List.mem_cons, List.not_mem_nil, or_false] at hclose
      rcases hclose with rfl | rfl <;> decide
    rw [htext, hspread, List.cons_append, List.append_assoc, List.singleton_append, scan_punctuation hopen, h _ hfollows,
      scan_punctuation hclose]
    simp
  · refine ⟨opening, _, htext, .inl ?_⟩
    simp only [List.mem_cons, List.not_mem_nil, or_false] at hopen
    rcases hopen with rfl | rfl <;> decide

private theorem readable_member (key : String) {value : Marked} (h : Readable value) : Readable (member key value) := by
  have hspread : (member key value).spread = lettered (some .string) (quoteString key).toList ++
      (none, ':') :: (none, ' ') :: value.spread := by
    simp [member, lettered]
  have htext : (member key value).text = (quoteString key).toList ++ ':' :: ' ' :: value.text := by
    rw [text_eq, hspread]
    simp [lettered, text_eq]
  constructor
  · intro rest hrest
    rw [htext, hspread, List.append_assoc, scan_string, List.cons_append, List.cons_append,
      scan_separator (by decide) (h.starts.append rest), h.reads rest hrest]
    simp
  · rw [htext]
    exact StartsValue.append ⟨_, _, toList_quoted _ _, .inl (by decide)⟩ _

mutual

theorem readable_renderValue : (value : RuntimeValue) → Readable (renderValue value)
  | .absent => by rw [renderValue]; exact readable_word (by decide)
  | .null => by rw [renderValue]; exact readable_word (by decide)
  | .bool b => by rw [renderValue]; cases b <;> exact readable_word (by decide)
  | .number n => by rw [renderValue]; exact readable_number n
  | .string s => by rw [renderValue]; exact readable_string s
  | .bytes bytes => by rw [renderValue]; exact readable_bytes bytes
  | .array items => by
    rw [renderValue]
    exact readable_bracketed (by decide) (by decide) fun rest hrest => scan_join (readable_renderItems items) hrest
  | .object members => by
    rw [renderValue]
    exact readable_bracketed (by decide) (by decide) fun rest hrest => scan_join (readable_renderMembers members) hrest
  | .entry key value => by
    rw [renderValue]
    exact readable_bracketed (by decide) (by decide) (readable_member key (readable_renderValue value)).reads
termination_by structural value => value

theorem readable_renderItems : (items : List RuntimeValue) → ∀ part ∈ renderItems items, Readable part
  | [] => by simp [renderItems]
  | item :: rest => by
    rw [renderItems, List.forall_mem_cons]
    exact ⟨readable_renderValue item, readable_renderItems rest⟩
termination_by structural items => items

theorem readable_renderMembers : (members : List (String × RuntimeValue)) → ∀ part ∈ renderMembers members, Readable part
  | [] => by simp [renderMembers]
  | (key, value) :: rest => by
    rw [renderMembers, List.forall_mem_cons]
    exact ⟨readable_member key (readable_renderValue value), readable_renderMembers rest⟩
termination_by structural members => members

end

end PactJanus.Plan.Scanning
