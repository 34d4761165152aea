import PactJanus.Plan.ByteScanner

namespace PactJanus.Plan.Lossless

open PactJanus.Lib.Affixes PactJanus.Lib.Delimited PactJanus.Lib.Offsets PactJanus.Plan.Pretty
open PactJanus.Plan.Tokens (TokenKind Token tokens joinPlain isNumberPart startsDigit endsName)

/-! The scanner of bytes cuts between characters only, reads what the scanner of characters reads, and loses nothing. -/

/-- A token the scanner of bytes starts with is the one the scanner of characters does. -/
def Agrees (rest : List Char) (bytes : Option (TokenKind × Nat)) (chars : TokenKind × Nat) : Prop :=
  chars.2 ≤ rest.length ∧ bytes = some (chars.1, width (rest.take chars.2))

private theorem agrees_some {rest : List Char} {kind : TokenKind} {bytes chars : Nat} (hle : chars ≤ rest.length)
    (hbytes : bytes = width (rest.take chars)) : Agrees rest (some (kind, bytes)) (kind, chars) :=
  ⟨hle, by rw [hbytes]⟩

private theorem width_take_of_start {start rest : List Char} (h : start <+: rest) :
    width (rest.take start.length) = width start := by
  obtain ⟨tail, rfl⟩ := h
  rw [List.take_left]

private theorem take_takeWhile_length (p : Char → Bool) (l : List Char) :
    l.take (l.takeWhile p).length = l.takeWhile p :=
  (List.prefix_iff_eq_take.1 (List.takeWhile_prefix p)).symm

private theorem takeWhile_length_le (p : Char → Bool) (l : List Char) : (l.takeWhile p).length ≤ l.length :=
  (List.takeWhile_sublist p).length_le

theorem quotedLen_eq (quote : Char) (hquote : quote.utf8Size = 1) (rest : List Char) :
    ByteScanner.quotedLen quote false rest = width (rest.take (Tokens.quotedLen quote rest)) ∧
      Tokens.quotedLen quote rest ≤ rest.length := by
  induction rest using Tokens.quotedLen.induct quote with
  | case1 => exact ⟨rfl, Nat.le_refl _⟩
  | case2 c =>
    refine ⟨?_, Nat.le_refl _⟩
    simp only [ByteScanner.quotedLen, Tokens.quotedLen, List.take_succ_cons, List.take_zero, width_cons, width_nil,
      Nat.add_zero]
    split
    · rfl
    · split
      · rename_i hc
        rw [hc, hquote]
      · rfl
  | case3 d rest ih =>
    simp only [ByteScanner.quotedLen, Tokens.quotedLen, if_true, ih.1, Nat.add_comm 2, List.take_succ_cons, width_cons,
      List.length_cons]
    exact ⟨trivial, by have := ih.2; omega⟩
  | case4 d rest hne =>
    simp only [ByteScanner.quotedLen, Tokens.quotedLen, if_neg hne, if_true, List.take_succ_cons, List.take_zero,
      width_cons, width_nil, hquote, List.length_cons]
    exact ⟨trivial, by omega⟩
  | case5 c d rest hne hquote' ih =>
    rw [ByteScanner.quotedLen, Tokens.quotedLen, if_neg hne, if_neg hquote', if_neg hne, if_neg hquote', ih.1,
      Nat.add_comm 1, List.take_succ_cons, width_cons, List.length_cons]
    exact ⟨rfl, Nat.succ_le_succ ih.2⟩

private theorem lineLen_eq (rest : List Char) : ByteScanner.lineLen rest = width (rest.takeWhile (· ≠ '\n')) := by
  rw [ByteScanner.lineLen, find_getD]
  simp

private theorem upTo_line (rest : List Char) :
    upTo (ByteScanner.lineLen rest) rest = some (rest.takeWhile (· ≠ '\n')) := by
  rw [lineLen_eq, ← take_takeWhile_length, upTo_take]

private theorem width_dropLast {line : List Char} (h : line.getLast? = some ',') :
    width line - 1 = width (line.take (line.length - 1)) := by
  obtain ⟨before, rfl⟩ : ∃ before, line = before ++ [','] := ⟨line.dropLast, (List.dropLast_append_getLast? _ h).symm⟩
  have hcomma : width [','] = 1 := by decide
  rw [width_append, hcomma, Nat.add_sub_cancel, List.length_append, List.length_singleton, Nat.add_sub_cancel,
    List.take_left]

private theorem take_of_prefix {start rest : List Char} (h : start <+: rest) {n : Nat} (hn : n ≤ start.length) :
    rest.take n = start.take n := by
  obtain ⟨tail, rfl⟩ := h
  exact List.take_append_of_le_length hn

theorem pathLen_eq (rest : List Char) :
    ByteScanner.pathLen rest = some (width (rest.take (Tokens.pathLen rest))) ∧ Tokens.pathLen rest ≤ rest.length := by
  have hprefix : rest.takeWhile (· ≠ '\n') <+: rest := List.takeWhile_prefix _
  rw [ByteScanner.pathLen, upTo_line, Option.map_some, Tokens.pathLen, findText, lineLen_eq]
  generalize rest.takeWhile (· ≠ '\n') = line at hprefix
  dsimp only
  cases hcut : cutAt " => ".toList line with
  | none =>
    dsimp only [Option.map_none, Option.getD_none]
    by_cases hcomma : line.getLast? = some ','
    · rw [if_pos ⟨rfl, hcomma⟩, if_pos hcomma, width_dropLast hcomma, take_of_prefix hprefix (Nat.sub_le _ _)]
      exact ⟨rfl, (Nat.sub_le _ _).trans hprefix.length_le⟩
    · rw [if_neg fun h => hcomma h.2, if_neg hcomma, width_take_of_start hprefix]
      exact ⟨rfl, hprefix.length_le⟩
  | some cut =>
    obtain ⟨before, behind⟩ := cut
    have hline := eq_of_cutAt hcut
    have hbefore : before <+: rest := by
      refine List.IsPrefix.trans ?_ hprefix
      rw [hline, List.append_assoc]
      exact List.prefix_append _ _
    have hshort : width before ≠ width line := by
      have harrow : width " => ".toList = 4 := by decide
      rw [hline, width_append, width_append, harrow]
      omega
    dsimp only [Option.map_some, Option.getD_some]
    rw [if_neg fun h => hshort h.1, width_take_of_start hbefore]
    exact ⟨rfl, hbefore.length_le⟩

theorem labelLen_eq (label : List Char) :
    ByteScanner.labelLen label = width (label.take (Tokens.labelLen label)) ∧ Tokens.labelLen label ≤ label.length := by
  unfold Tokens.labelLen
  split
  · rename_i quoted
    obtain ⟨hlen, hle⟩ := quotedLen_eq '"' rfl quoted
    have hstrip : stripPrefix ['"'] ('"' :: quoted) = some quoted := stripPrefix_append ['"'] quoted
    rw [ByteScanner.labelLen, hstrip]
    dsimp only
    rw [Nat.add_comm 1 (Tokens.quotedLen '"' quoted), List.take_succ_cons, width_cons,
      ← hlen, List.length_cons]
    exact ⟨rfl, Nat.succ_le_succ hle⟩
  · rename_i hne
    have hstrip : stripPrefix ['"'] label = none := by
      refine stripPrefix_eq_none.2 fun hstart => ?_
      obtain ⟨tail, rfl⟩ := hstart
      exact hne tail rfl
    rw [ByteScanner.labelLen, hstrip, take_takeWhile_length]
    dsimp only
    rw [find_getD]
    simp only [Bool.not_not]
    exact ⟨trivial, takeWhile_length_le _ _⟩

private theorem width_take_succ {rest : List Char} {n : Nat} {c : Char} (h : (rest.drop n).head? = some c) :
    n + 1 ≤ rest.length ∧ width (rest.take n) + c.utf8Size = width (rest.take (n + 1)) := by
  rw [List.head?_drop] at h
  obtain ⟨hn, rfl⟩ := List.getElem?_eq_some_iff.1 h
  refine ⟨hn, ?_⟩
  rw [List.take_succ_eq_append_getElem hn, width_append, width_cons, width_nil, Nat.add_zero]

theorem nodeHead_agrees (rest : List Char) : Agrees rest (ByteScanner.nodeHead rest) (Tokens.nodeHead rest) := by
  unfold ByteScanner.nodeHead
  split
  · rename_i label
    obtain ⟨hlen, hle⟩ := labelLen_eq label
    change Agrees _ (some (.container, 1 + ByteScanner.labelLen label)) (.container, 1 + Tokens.labelLen label)
    refine agrees_some (by rw [List.length_cons]; omega) ?_
    rw [Nat.add_comm 1 (Tokens.labelLen label), List.take_succ_cons, width_cons, ← hlen]
    rfl
  · rename_i name
    change Agrees ('%' :: name) (some (.action, (find endsName ('%' :: name)).getD (width ('%' :: name))))
      (.action, (('%' :: name).takeWhile fun c => !endsName c).length)
    refine agrees_some (takeWhile_length_le _ _) ?_
    rw [find_getD, take_takeWhile_length]
  · rename_i path
    obtain ⟨hlen, hle⟩ := pathLen_eq ('$' :: path)
    change Agrees ('$' :: path) ((ByteScanner.pathLen ('$' :: path)).map fun len => (.resolve, len))
      (.resolve, Tokens.pathLen ('$' :: path))
    rw [hlen]
    exact agrees_some hle rfl
  · rename_i path
    obtain ⟨hlen, hle⟩ := pathLen_eq ('~' :: '>' :: path)
    change Agrees ('~' :: '>' :: path) ((ByteScanner.pathLen ('~' :: '>' :: path)).map fun len => (.resolve, len))
      (.resolve, Tokens.pathLen ('~' :: '>' :: path))
    rw [hlen]
    exact agrees_some hle rfl
  · rename_i more
    change Agrees ('-' :: '>' :: more) (some (.operator, 2)) (.operator, 2)
    exact agrees_some (by simp) rfl
  · rename_i more
    change Agrees ('*' :: '*' :: more) (some (.operator, 2)) (.operator, 2)
    exact agrees_some (by simp) rfl
  · rename_i text
    obtain ⟨hlen, hle⟩ := quotedLen_eq '\'' rfl text
    change Agrees ('#' :: '\x7b' :: '\'' :: text)
      ((after (3 + ByteScanner.quotedLen '\'' false text) ('#' :: '\x7b' :: '\'' :: text)).map fun tail =>
        (TokenKind.annotation, if tail.head? = some '\x7d' then 3 + ByteScanner.quotedLen '\'' false text + 1
          else 3 + ByteScanner.quotedLen '\'' false text))
      (TokenKind.annotation,
        if (('#' :: '\x7b' :: '\'' :: text).drop (3 + Tokens.quotedLen '\'' text)).head? = some '\x7d' then
          3 + Tokens.quotedLen '\'' text + 1
        else 3 + Tokens.quotedLen '\'' text)
    have hstop : 3 + ByteScanner.quotedLen '\'' false text =
        width (('#' :: '\x7b' :: '\'' :: text).take (3 + Tokens.quotedLen '\'' text)) := by
      rw [Nat.add_comm 3 (Tokens.quotedLen '\'' text), hlen]
      simp only [List.take_succ_cons, width_cons]
      have hsizes : '#'.utf8Size = 1 ∧ '\x7b'.utf8Size = 1 ∧ '\''.utf8Size = 1 := by decide
      omega
    rw [hstop, after_take, Option.map_some]
    split
    · rename_i hclosing
      obtain ⟨hbound, hwidth⟩ := width_take_succ hclosing
      exact agrees_some hbound hwidth
    · exact agrees_some (by simp only [List.length_cons]; omega) rfl
  · rename_i hlabel hname hpath hup harrow hsplat hnote
    have hchars : Tokens.nodeHead rest = (.plain, 0) := by
      unfold Tokens.nodeHead
      split
      · exact (hlabel _ rfl).elim
      · exact (hname _ rfl).elim
      · exact (hpath _ rfl).elim
      · exact (hup _ rfl).elim
      · exact (harrow _ rfl).elim
      · exact (hsplat _ rfl).elim
      · exact (hnote _ rfl).elim
      · rfl
    rw [hchars]
    exact agrees_some (Nat.zero_le _) rfl

theorem result_agrees (rest : List Char) : Agrees rest (ByteScanner.result rest) (Tokens.result rest) := by
  unfold ByteScanner.result Tokens.result
  split
  · rename_i hstart
    exact agrees_some hstart.length_le (width_take_of_start hstart).symm
  · split
    · rename_i hstart
      exact agrees_some hstart.length_le (width_take_of_start hstart).symm
    · split
      · have hprefix : rest.takeWhile (· ≠ '\n') <+: rest := List.takeWhile_prefix _
        rw [upTo_line, Option.map_some, lineLen_eq]
        generalize rest.takeWhile (· ≠ '\n') = line at hprefix
        dsimp only
        split
        · rename_i hends
          obtain ⟨before, rfl⟩ := hends
          have hcomma : (before ++ "),".toList).getLast? = some ',' := by simp
          refine agrees_some ((Nat.sub_le _ _).trans hprefix.length_le) ?_
          rw [width_dropLast hcomma, take_of_prefix hprefix (Nat.sub_le _ _)]
        · exact agrees_some hprefix.length_le (width_take_of_start hprefix).symm
      · exact agrees_some (Nat.zero_le _) rfl

private theorem after_one {c : Char} (hc : c.utf8Size = 1) (more : List Char) : after 1 (c :: more) = some more := by
  have hcut := after_append [c] more
  rwa [width_cons, hc, width_nil] at hcut

private theorem utf8Size_of_isDigit {c : Char} (h : c.isDigit = true) : c.utf8Size = 1 := by
  simp only [Char.isDigit, Bool.and_eq_true, decide_eq_true_eq] at h
  have hbound : '9'.val ≤ 127 := by decide
  exact Char.utf8Size_eq_one_iff.2 (UInt32.le_trans h.2 hbound)

theorem startsNumber_eq (c : Char) (more : List Char) :
    ByteScanner.startsNumber c (c :: more) = some (c.isDigit || (c == '-' && startsDigit more)) := by
  unfold ByteScanner.startsNumber
  split
  · rename_i hdigit
    rw [hdigit, Bool.true_or]
  · rename_i hdigit
    rw [Bool.eq_false_iff.2 hdigit, Bool.false_or]
    split
    · rename_i hminus
      subst hminus
      rw [after_one rfl, Option.map_some]
      rfl
    · rename_i hminus
      rw [beq_eq_false_iff_ne.2 hminus, Bool.false_and]

theorem startsWord_eq (rest : List Char) (word : String) :
    ByteScanner.startsWord rest word = some (Tokens.startsWord rest word) := by
  unfold ByteScanner.startsWord Tokens.startsWord
  split
  · rename_i hstart
    obtain ⟨tail, rfl⟩ := hstart
    rw [after_append, stripPrefix_append]
    rfl
  · rename_i hstart
    rw [stripPrefix_eq_none.2 hstart]
    rfl

theorem findWord_eq (rest : List Char) (words : List String) :
    ByteScanner.findWord rest words = some (words.find? (Tokens.startsWord rest)) := by
  induction words with
  | nil => rfl
  | cons word words ih =>
    rw [ByteScanner.findWord, startsWord_eq, Option.bind_some, List.find?_cons]
    cases Tokens.startsWord rest word with
    | true => rfl
    | false => exact ih

private theorem prefix_of_startsWord {rest : List Char} {word : String} (h : Tokens.startsWord rest word = true) :
    word.toList <+: rest := by
  unfold Tokens.startsWord at h
  obtain ⟨tail, htail, -⟩ := (Option.any_eq_true ..).1 h
  exact ⟨tail, (stripPrefix_eq_some.1 htail).symm⟩

theorem bytesLen_eq (rest : List Char) :
    ByteScanner.bytesLen rest = some ((Tokens.bytesLen rest).map fun len => width (rest.take len)) ∧
      ∀ len ∈ Tokens.bytesLen rest, len ≤ rest.length := by
  unfold ByteScanner.bytesLen Tokens.bytesLen
  cases hopen : stripPrefix "BYTES(".toList rest with
  | none => exact ⟨rfl, fun _ h => by cases h⟩
  | some body =>
    rw [Option.bind_some, Option.bind_some]
    cases hcut : cutAt ", ".toList body with
    | none => exact ⟨rfl, fun _ h => by cases h⟩
    | some cut =>
      obtain ⟨length, tail⟩ := cut
      dsimp only [Option.bind_some]
      split
      · exact ⟨rfl, fun _ h => by cases h⟩
      · rw [find_eq_findText, findText]
        cases hclose : cutAt [')'] tail with
        | none => exact ⟨rfl, fun _ h => by cases h⟩
        | some cut =>
          obtain ⟨shown, behind⟩ := cut
          have hrest : rest = "BYTES(".toList ++ length ++ ", ".toList ++ shown ++ [')'] ++ behind := by
            rw [stripPrefix_eq_some.1 hopen, eq_of_cutAt hcut, eq_of_cutAt hclose]
            simp only [List.append_assoc]
          have hlen : "BYTES(".length + length.length + ", ".length + shown.length + 1 =
              ("BYTES(".toList ++ length ++ ", ".toList ++ shown ++ [')']).length := by
            simp only [List.length_append, List.length_singleton]
            rfl
          have hupTo : upTo (width shown) tail = some shown := by
            rw [eq_of_cutAt hclose, List.append_assoc]
            exact upTo_append shown _
          dsimp only [Option.map_some, Option.bind_some]
          rw [hupTo, Option.map_some]
          generalize List.all (if "...".toList <:+ shown then shown.take (shown.length - 3) else shown)
            (fun c => c.isAlphanum || decide (c ∈ ['+', '/', '='])) = octets
          cases octets with
          | false => exact ⟨rfl, fun _ h => by cases h⟩
          | true =>
            rw [if_pos rfl, if_pos rfl, hlen]
            refine ⟨?_, fun len hmem => ?_⟩
            · rw [Option.map_some, hrest, List.take_left]
              simp only [width_append, width_cons, width_nil]
              rfl
            · obtain rfl := Option.some.inj hmem
              rw [hrest]
              exact (List.prefix_append _ behind).length_le

private theorem utf8Size_of_startsNumber {c : Char} {more : List Char}
    (h : (c.isDigit || (c == '-' && startsDigit more)) = true) : c.utf8Size = 1 := by
  rcases Bool.or_eq_true_iff.1 h with hdigit | hminus
  · exact utf8Size_of_isDigit hdigit
  · obtain rfl := beq_iff_eq.1 (Bool.and_eq_true_iff.1 hminus).1
    rfl

private theorem value_bytes {c : Char} (hquote : c ≠ '\'') (more : List Char) :
    ByteScanner.value (c :: more) =
      if c.isDigit || (c == '-' && startsDigit more) then
        some (.number, 1 + width (more.takeWhile isNumberPart))
      else
        match ["true", "false", "NULL", "ABSENT"].find? (Tokens.startsWord (c :: more)) with
        | some word => some (.literal, width word.toList)
        | none => (ByteScanner.bytesLen (c :: more)).map fun len =>
            match len with
            | some len => (.literal, len)
            | none => (.plain, c.utf8Size) := by
  unfold ByteScanner.value
  rw [List.head?_cons, Option.getD_some, if_neg hquote, startsNumber_eq, Option.bind_some, findWord_eq,
    Option.bind_some]
  by_cases hnumber : (c.isDigit || (c == '-' && startsDigit more)) = true
  · have hone := utf8Size_of_startsNumber hnumber
    rw [if_pos hnumber, if_pos hnumber, after_one hone, Option.map_some, width_cons, hone, Nat.add_sub_cancel_left,
      find_getD]
    simp only [Bool.not_not]
  · exact (if_neg hnumber).trans (if_neg hnumber).symm

private theorem value_chars {c : Char} (hquote : c ≠ '\'') (more : List Char) :
    Tokens.value (c :: more) =
      if c.isDigit || (c == '-' && startsDigit more) then (.number, 1 + (more.takeWhile isNumberPart).length)
      else
        match ["true", "false", "NULL", "ABSENT"].find? (Tokens.startsWord (c :: more)) with
        | some word => (.literal, word.length)
        | none =>
          match Tokens.bytesLen (c :: more) with
          | some len => (.literal, len)
          | none => (.plain, 1) := by
  unfold Tokens.value
  split
  · contradiction
  · rename_i hcons
    exact (hquote (List.cons.inj hcons).1).elim
  · rename_i hcons
    obtain ⟨rfl, rfl⟩ := List.cons.inj hcons
    rfl

theorem value_agrees (c : Char) (more : List Char) :
    Agrees (c :: more) (ByteScanner.value (c :: more)) (Tokens.value (c :: more)) := by
  by_cases hquote : c = '\''
  · subst hquote
    obtain ⟨hlen, hle⟩ := quotedLen_eq '\'' rfl more
    have hbytes : ByteScanner.value ('\'' :: more) = some (.string, 1 + ByteScanner.quotedLen '\'' false more) := by
      have hafter : after 1 ('\'' :: more) = some more := after_one rfl more
      unfold ByteScanner.value
      rw [List.head?_cons, Option.getD_some, if_pos rfl, hafter, Option.map_some]
    have hchars : Tokens.value ('\'' :: more) = (.string, 1 + Tokens.quotedLen '\'' more) := rfl
    rw [hbytes, hchars]
    refine agrees_some (by rw [List.length_cons]; omega) ?_
    rw [Nat.add_comm 1 (Tokens.quotedLen '\'' more), List.take_succ_cons, width_cons, hlen]
    rfl
  · rw [value_bytes hquote, value_chars hquote]
    by_cases hnumber : (c.isDigit || (c == '-' && startsDigit more)) = true
    · rw [if_pos hnumber, if_pos hnumber]
      have hle := takeWhile_length_le isNumberPart more
      refine agrees_some (by rw [List.length_cons]; omega) ?_
      rw [Nat.add_comm 1 (more.takeWhile isNumberPart).length, List.take_succ_cons, width_cons, take_takeWhile_length,
        utf8Size_of_startsNumber hnumber]
    · rw [if_neg hnumber, if_neg hnumber]
      cases hword : ["true", "false", "NULL", "ABSENT"].find? (Tokens.startsWord (c :: more)) with
      | some word =>
        have hstart := prefix_of_startsWord (List.find?_some hword)
        exact agrees_some hstart.length_le (width_take_of_start hstart).symm
      | none =>
        obtain ⟨hlen, hle⟩ := bytesLen_eq (c :: more)
        rw [hlen]
        cases hbytes : Tokens.bytesLen (c :: more) with
        | some len => exact agrees_some (hle len hbytes) rfl
        | none =>
          refine agrees_some (by rw [List.length_cons]; omega) ?_
          rw [List.take_succ_cons, List.take_zero, width_cons, width_nil, Nat.add_zero]

private def indentation (rest : List Char) : TokenKind × Nat := (.plain, (rest.takeWhile (· = ' ')).length)

theorem spaces_agrees (rest : List Char) : Agrees rest (ByteScanner.spaces rest) (indentation rest) := by
  refine agrees_some (takeWhile_length_le _ _) ?_
  rw [find_getD, take_takeWhile_length]
  simp

/-- The texts of tokens, joined. -/
def joined (out : List Token) : List Char := out.flatMap Token.text

private theorem joined_append (out more : List Token) : joined (out ++ more) = joined out ++ joined more :=
  List.flatMap_append

private theorem joined_joinPlain (kind : TokenKind) (text : List Char) (out : List Token) :
    joined (joinPlain kind text out) = joined out ++ text := by
  have hnew : joined (out ++ [⟨kind, text⟩]) = joined out ++ text := by
    rw [joined_append]
    simp [joined]
  unfold joinPlain
  split
  · rename_i last hlast
    split
    · rw [← List.dropLast_append_getLast? last hlast, joined_append, joined_append]
      simp [joined]
    · exact hnew
  · exact hnew

/-- The scanner of bytes stands where the scanner of characters does, with what was read before in its tokens. -/
structure Reads (s : ByteScanner.Scanner) (c : Tokens.Scanner) : Prop where
  text : s.text = joined c.out ++ c.rest
  place : s.at' = width (joined c.out)
  out : s.out = c.out

theorem Reads.rest {s : ByteScanner.Scanner} {c : Tokens.Scanner} (h : Reads s c) : s.rest = some c.rest := by
  rw [ByteScanner.Scanner.rest, h.text, h.place, after_append]

theorem Reads.width_lt_iff {s : ByteScanner.Scanner} {c : Tokens.Scanner} (h : Reads s c) :
    s.at' < width s.text ↔ c.rest ≠ [] := by
  rw [h.text, h.place, width_append, ne_eq, ← width_eq_zero]
  omega

private theorem push_joined {s : ByteScanner.Scanner} {c : Tokens.Scanner} (h : Reads s c) (last : Token)
    (hlast : c.out.getLast? = some last) {text more : List Char} (hrest : c.rest = text ++ more) :
    ¬s.at' < width last.text ∧
      between (s.at' - width last.text) (s.at' + width text) s.text = some (last.text ++ text) := by
  have hout : joined c.out = joined c.out.dropLast ++ last.text := by
    rw [← List.dropLast_append_getLast? last hlast, joined_append, List.dropLast_append_getLast? last hlast]
    simp [joined]
  have hplace : s.at' = width (joined c.out.dropLast) + width last.text := by
    rw [h.place, hout, width_append]
  have hcut := between_append (joined c.out.dropLast) (last.text ++ text) more
  refine ⟨by omega, ?_⟩
  rw [h.text, hrest, hplace, Nat.add_sub_cancel, Nat.add_assoc, ← width_append, hout]
  simpa only [List.append_assoc] using hcut

/-- A push of bytes is the push of the characters they are. -/
theorem push_reads {s : ByteScanner.Scanner} {c : Tokens.Scanner} (h : Reads s c) (kind : TokenKind) {len : Nat}
    (hle : len ≤ c.rest.length) :
    ∃ s', s.push kind (width (c.rest.take len)) = some s' ∧ Reads s' (c.push kind len) := by
  by_cases hlen : len = 0
  · refine ⟨s, ?_, ?_⟩
    · rw [hlen, List.take_zero, width_nil, ByteScanner.Scanner.push, if_pos rfl]
    · rw [hlen, Tokens.Scanner.push, if_pos rfl]
      exact h
  have hrest : c.rest = c.rest.take len ++ c.rest.drop len := (List.take_append_drop len c.rest).symm
  have hwidth : width (c.rest.take len) ≠ 0 := by
    rw [Ne, width_eq_zero, List.take_eq_nil_iff]
    rintro (hzero | hnil)
    · exact hlen hzero
    · rw [hnil, List.length_nil] at hle
      exact hlen (Nat.le_zero.1 hle)
  have htext : between s.at' (s.at' + width (c.rest.take len)) s.text = some (c.rest.take len) := by
    have hcut := between_append (joined c.out) (c.rest.take len) (c.rest.drop len)
    rwa [List.append_assoc, ← hrest, ← h.text, ← h.place] at hcut
  have hreads : Reads ⟨s.text, s.at' + width (c.rest.take len), joinPlain kind (c.rest.take len) c.out⟩
      (c.push kind len) := by
    rw [Tokens.Scanner.push, if_neg hlen]
    refine ⟨?_, ?_, rfl⟩
    · dsimp only
      rw [joined_joinPlain, List.append_assoc, ← hrest, h.text]
    · dsimp only
      rw [joined_joinPlain, width_append, h.place]
  refine ⟨_, ?_, hreads⟩
  rw [ByteScanner.Scanner.push, if_neg hwidth, htext, Option.bind_some, h.out, joinPlain]
  cases hlast : c.out.getLast? with
  | none => rfl
  | some last =>
    obtain ⟨hplace, hjoined⟩ := push_joined h last hlast hrest
    dsimp only
    by_cases hplain : last.kind = .plain ∧ kind = .plain
    · rw [if_pos hplain, if_pos hplain, if_neg hplace, hjoined]
      rfl
    · rw [if_neg hplain, if_neg hplain]

theorem take_reads {s : ByteScanner.Scanner} {c : Tokens.Scanner} (h : Reads s c)
    (bytes : List Char → Option (TokenKind × Nat)) (chars : List Char → TokenKind × Nat)
    (hagrees : Agrees c.rest (bytes c.rest) (chars c.rest)) :
    ∃ s', s.take bytes = some s' ∧ Reads s' (c.take chars) := by
  obtain ⟨hle, hbytes⟩ := hagrees
  obtain ⟨s', hpush, hreads⟩ := push_reads h (chars c.rest).1 hle
  refine ⟨s', ?_, hreads⟩
  rw [ByteScanner.Scanner.take, h.rest, Option.bind_some, hbytes, Option.bind_some]
  exact hpush

/-- How many turns are left at most. -/
def turnsLeft (lineStart : Bool) (c : Tokens.Scanner) : Nat := 2 * c.rest.length + lineStart.toNat

private theorem push_one {s : ByteScanner.Scanner} {c : Tokens.Scanner} (h : Reads s c) (kind : TokenKind) {d : Char}
    {more : List Char} (hrest : c.rest = d :: more) (hd : d.utf8Size = 1) :
    ∃ s', s.push kind 1 = some s' ∧ Reads s' (c.push kind 1) ∧ (c.push kind 1).rest = more := by
  obtain ⟨s', hpush, hreads⟩ := push_reads h kind (show 1 ≤ c.rest.length by rw [hrest]; simp)
  have hwidth : width (c.rest.take 1) = 1 := by
    rw [hrest, List.take_succ_cons, List.take_zero, width_cons, width_nil, hd]
  refine ⟨s', hwidth ▸ hpush, hreads, ?_⟩
  rw [Tokens.Scanner.push_rest, hrest, List.drop_succ_cons, List.drop_zero]

/-- A turn over bytes cuts between characters, and does what the scanner of characters does. -/
theorem turn_reads (lineStart : Bool) {s : ByteScanner.Scanner} {c : Tokens.Scanner} (h : Reads s c)
    (hrest : c.rest ≠ []) :
    ∃ next s' c', ByteScanner.turn lineStart s = some (next, s') ∧ Reads s' c' ∧
      Tokens.run lineStart c = Tokens.run next c' ∧ turnsLeft next c' < turnsLeft lineStart c := by
  have hpos := List.length_pos_iff.2 hrest
  unfold ByteScanner.turn
  cases lineStart with
  | true =>
    obtain ⟨indented, hindent, hreads⟩ := take_reads h ByteScanner.spaces indentation (spaces_agrees c.rest)
    obtain ⟨s', hhead, hreads⟩ := take_reads hreads ByteScanner.nodeHead Tokens.nodeHead (nodeHead_agrees _)
    refine ⟨false, s', _, ?_, hreads, ?_, ?_⟩
    · rw [if_pos rfl, hindent, Option.bind_some, hhead, Option.map_some]
    · rw [Tokens.run.eq_1 true, dif_neg hrest, if_pos rfl]
      rfl
    · simp only [turnsLeft, Tokens.Scanner.take_rest, List.length_drop, Bool.toNat_true, Bool.toNat_false]
      omega
  | false =>
    rw [if_neg Bool.false_ne_true, h.rest, Option.bind_some]
    by_cases hline : ['\n'] <+: c.rest
    · obtain ⟨more, hmore⟩ := hline
      have hcons : c.rest = '\n' :: more := hmore.symm
      obtain ⟨s', hpush, hreads, hrest'⟩ := push_one h .plain hcons rfl
      refine ⟨true, s', _, ?_, hreads, ?_, ?_⟩
      · rw [if_pos ⟨more, hmore⟩, hpush, Option.map_some]
      · have hhead : c.rest.head? = some '\n' := by rw [hcons, List.head?_cons]
        rw [Tokens.run.eq_1 false, dif_neg hrest, if_neg Bool.false_ne_true, if_pos hhead]
      · rw [turnsLeft, turnsLeft, hrest', hcons, List.length_cons, Bool.toNat_true, Bool.toNat_false]
        omega
    · have hhead : c.rest.head? ≠ some '\n' := by
        intro hhead
        obtain ⟨more, hmore⟩ := List.head?_eq_some_iff.1 hhead
        exact hline ⟨more, hmore.symm⟩
      have hrun := Tokens.run.eq_1 false c
      rw [dif_neg hrest, if_neg Bool.false_ne_true, if_neg hhead] at hrun
      by_cases harrow : " => ".toList <+: c.rest
      · obtain ⟨more, hmore⟩ := harrow
        obtain ⟨s₁, hpush₁, hreads₁, hrest₁⟩ := push_one h .plain hmore.symm rfl
        obtain ⟨s₂, hpush₂, hreads₂⟩ := push_reads hreads₁ .arrow (show 2 ≤ _ by rw [hrest₁]; simp)
        rw [if_pos ⟨more, hmore⟩] at hrun
        have hrest₂ : ((c.push .plain 1).push .arrow 2).rest = ' ' :: more := by
          rw [Tokens.Scanner.push_rest, hrest₁]
          rfl
        have hwidth₂ : width ((c.push .plain 1).rest.take 2) = 2 := by
          rw [hrest₁]
          rfl
        obtain ⟨s₃, hpush₃, hreads₃, hrest₃⟩ := push_one hreads₂ .plain hrest₂ rfl
        obtain ⟨s', hresult, hreads⟩ := take_reads hreads₃ ByteScanner.result Tokens.result (result_agrees _)
        refine ⟨false, s', _, ?_, hreads, hrun, ?_⟩
        · rw [if_neg hline, if_pos ⟨more, hmore⟩, hpush₁, Option.bind_some, ← hwidth₂, hpush₂, Option.bind_some, hpush₃,
            Option.bind_some, hresult, Option.map_some]
        · simp only [turnsLeft, Tokens.Scanner.take_rest, hrest₃, List.length_drop, ← hmore, List.length_append]
          have hlen : " => ".toList.length = 4 := rfl
          omega
      · have hvalue := Tokens.value_pos hrest
        rw [if_neg harrow] at hrun
        obtain ⟨d, more, hcons⟩ := List.exists_cons_of_ne_nil hrest
        obtain ⟨s', htake, hreads⟩ := take_reads h ByteScanner.value Tokens.value (by rw [hcons]; exact value_agrees d more)
        refine ⟨false, s', _, ?_, hreads, hrun, ?_⟩
        · rw [if_neg hline, if_neg harrow, htake, Option.map_some]
        · simp only [turnsLeft, Tokens.Scanner.take_rest, List.length_drop]
          omega

/-- The scanner of bytes comes to the tokens the scanner of characters does, within two turns for each character. -/
theorem run_reads {turns : Nat} {lineStart : Bool} {s : ByteScanner.Scanner} {c : Tokens.Scanner} (h : Reads s c)
    (hturns : turnsLeft lineStart c < turns) :
    ByteScanner.run turns lineStart s = .finished (Tokens.run lineStart c) := by
  induction turns generalizing lineStart s c with
  | zero => exact (Nat.not_lt_zero _ hturns).elim
  | succ turns ih =>
    rw [ByteScanner.run]
    by_cases hrest : c.rest = []
    · rw [if_neg fun hlt => h.width_lt_iff.1 hlt hrest, Tokens.run, dif_pos hrest, h.out]
    · obtain ⟨next, s', c', hturn, hreads, hrun, hless⟩ := turn_reads lineStart h hrest
      rw [if_pos (h.width_lt_iff.2 hrest), hturn, hrun]
      exact ih hreads (by omega)

/-- What a scanner has read and what it has yet to read. -/
def whole (c : Tokens.Scanner) : List Char := joined c.out ++ c.rest

theorem whole_push (kind : TokenKind) (len : Nat) (c : Tokens.Scanner) : whole (c.push kind len) = whole c := by
  unfold Tokens.Scanner.push whole
  split
  · rfl
  · dsimp only
    rw [joined_joinPlain, List.append_assoc, List.take_append_drop]

theorem whole_take (token : List Char → TokenKind × Nat) (c : Tokens.Scanner) : whole (c.take token) = whole c :=
  whole_push _ _ c

/-- No run drops a character. -/
theorem joined_run (lineStart : Bool) (c : Tokens.Scanner) : joined (Tokens.run lineStart c) = whole c := by
  induction lineStart, c using Tokens.run.induct with
  | case1 lineStart c hnil =>
    rw [Tokens.run, dif_pos hnil, whole, hnil, List.append_nil]
  | case2 c hrest ih =>
    rw [Tokens.run, dif_neg hrest, if_pos rfl, ih, whole_take, whole_push]
  | case3 lineStart c hrest hstart hline ih =>
    rw [Tokens.run, dif_neg hrest, if_neg hstart, if_pos hline, ih, whole_push]
  | case4 lineStart c hrest hstart hline harrow ih =>
    rw [Tokens.run, dif_neg hrest, if_neg hstart, if_neg hline, if_pos harrow, ih, whole_take, whole_push, whole_push,
      whole_push]
  | case5 lineStart c hrest hstart hline harrow ih =>
    rw [Tokens.run, dif_neg hrest, if_neg hstart, if_neg hline, if_neg harrow, ih, whole_take]

/-- Scanning a text ends, cuts between characters only, and its tokens joined are the text. -/
theorem tokens_join (text : String) :
    (∀ turns, 2 * text.toList.length + 1 < turns → ByteScanner.scan turns text = .finished (tokens text)) ∧
      (tokens text).flatMap Token.text = text.toList := by
  have hstart : Reads ⟨text.toList, 0, []⟩ ⟨text.toList, []⟩ := ⟨rfl, rfl, rfl⟩
  exact ⟨fun turns hturns => run_reads hstart hturns, joined_run true ⟨text.toList, []⟩⟩

end PactJanus.Plan.Lossless
