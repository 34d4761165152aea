import PactJanus.Data.Equality
import PactJanus.Lib.Decimal

namespace PactJanus.Data.Spelling

open PactJanus.Data.Json PactJanus.Data.Equality PactJanus.Lib.Decimal PactJanus.Lib.Text

/-! A document's text is no other document's. -/

/-! Numbers. -/

theorem repr_injective {m n : Nat} (h : m.repr = n.repr) : m = n := by
  have hdigits := congrArg (fun s : String => Nat.ofDigitChars 10 s.toList 0) h
  simpa only [Nat.toList_repr, Nat.ofDigitChars_ten_toDigits] using hdigits

private theorem notMem_repr {n : Nat} {c : Char} (hc : c.isDigit = false) : c ∉ n.repr.toList := by
  intro hmem
  rw [isDigit_of_mem_repr hmem] at hc
  exact absurd hc (by decide)

private theorem jsonText_ne_integer {x : Lib.Binary64.Binary64} {cs : List Char} (hpoint : '.' ∉ cs) (he : 'e' ∉ cs) :
    (Lib.Binary64.jsonText x).toList ≠ cs := by
  rintro rfl
  exact (jsonText_chars x).2.elim hpoint he

private theorem negative_ne_repr {m n : Nat} : "-" ++ m.repr ≠ n.repr := by
  intro h
  refine notMem_repr (n := n) (by decide : '-'.isDigit = false) ?_
  rw [← h]
  simp

private theorem negative_notMem {n : Nat} {c : Char} (hc : c.isDigit = false) (hne : c ≠ '-') :
    c ∉ ("-" ++ n.repr).toList := by
  rw [String.toList_append]
  intro hmem
  rcases List.mem_append.1 hmem with hmem | hmem
  · exact hne (List.mem_singleton.1 hmem)
  · exact notMem_repr hc hmem

theorem numberText_injective : Function.Injective numberText := by
  intro a b h
  cases a with
  | posInt m =>
    cases b with
    | posInt n => exact congrArg _ (UInt64.toNat_inj.1 (repr_injective h))
    | negInt n => exact absurd h.symm negative_ne_repr
    | float y =>
      exact absurd (congrArg String.toList h).symm (jsonText_ne_integer (notMem_repr (by decide)) (notMem_repr (by decide)))
  | negInt m =>
    cases b with
    | posInt n => exact absurd h negative_ne_repr
    | negInt n =>
      have hrest : (m.val + 1).repr = (n.val + 1).repr := by
        have hlist := congrArg String.toList h
        rw [numberText, numberText, String.toList_append, String.toList_append, List.append_cancel_left_eq] at hlist
        exact String.toList_injective hlist
      exact congrArg _ (Fin.ext (Nat.succ.inj (repr_injective hrest)))
    | float y =>
      exact absurd (congrArg String.toList h).symm
        (jsonText_ne_integer (negative_notMem (by decide) (by decide)) (negative_notMem (by decide) (by decide)))
  | float x =>
    cases b with
    | posInt n =>
      exact absurd (congrArg String.toList h) (jsonText_ne_integer (notMem_repr (by decide)) (notMem_repr (by decide)))
    | negInt n =>
      exact absurd (congrArg String.toList h)
        (jsonText_ne_integer (negative_notMem (by decide) (by decide)) (negative_notMem (by decide) (by decide)))
    | float y => exact congrArg _ (jsonText_injective h)

theorem numberText_chars (n : Number) : ∀ c ∈ (numberText n).toList, isNumberChar c = true := by
  cases n with
  | posInt n => exact fun c hc => isNumberChar_of_digit (isDigit_of_mem_repr hc)
  | negInt n =>
    intro c hc
    rw [numberText, String.toList_append] at hc
    rcases List.mem_append.1 hc with hc | hc
    · obtain rfl := List.mem_singleton.1 hc
      rfl
    · exact isNumberChar_of_digit (isDigit_of_mem_repr hc)
  | float x => exact (jsonText_chars x).1

/-- A number's text starts with a digit, after a sign. -/
theorem numberText_head (n : Number) :
    ∃ body, DigitFirst body ∧ ((numberText n).toList = body ∨ (numberText n).toList = '-' :: body) := by
  have hrepr (n : Nat) : DigitFirst n.repr.toList := by
    cases h : n.repr.toList with
    | nil => exact absurd (Nat.toList_repr ▸ h) Nat.toDigits_ne_nil
    | cons c rest => exact ⟨c, rfl, isDigit_of_mem_repr (h ▸ List.mem_cons_self)⟩
  cases n with
  | posInt n => exact ⟨_, hrepr n.toNat, .inl rfl⟩
  | negInt n => exact ⟨_, hrepr (n.val + 1), .inr String.toList_append⟩
  | float x =>
    obtain ⟨body, hbody, htext⟩ := jsonText_head x
    refine ⟨body, hbody, ?_⟩
    rw [numberText, htext, Lib.Binary64.signText]
    split
    · exact .inr rfl
    · exact .inl rfl

/-! Strings. -/

private def hexValue (c : Char) : Nat := if c.isDigit then c.toNat - 48 else c.toNat - 87

/-- The character an escape stands for, and what follows it. -/
private def unescape : List Char → Option (Char × List Char)
  | '\\' :: '"' :: rest => some ('"', rest)
  | '\\' :: '\\' :: rest => some ('\\', rest)
  | '\\' :: 'n' :: rest => some ('\n', rest)
  | '\\' :: 'r' :: rest => some ('\r', rest)
  | '\\' :: 't' :: rest => some ('\t', rest)
  | '\\' :: 'b' :: rest => some (Char.ofNat 8, rest)
  | '\\' :: 'f' :: rest => some (Char.ofNat 12, rest)
  | '\\' :: 'u' :: '0' :: '0' :: high :: low :: rest => some (Char.ofNat (hexValue high * 16 + hexValue low), rest)
  | c :: rest => some (c, rest)
  | [] => none

private theorem hexValue_hexDigit : ∀ d : Fin 16, hexValue (hexDigit d.val) = d.val := by decide

private theorem unescape_escapeChar (c : Char) (rest : List Char) : unescape (escapeChar c ++ rest) = some (c, rest) := by
  unfold escapeChar
  split_ifs with h1 h2 h3 h4 h5 h8 h12 h32
  · subst h1; rfl
  · subst h2; rfl
  · subst h3; rfl
  · subst h4; rfl
  · subst h5; rfl
  · rw [← Char.ofNat_toNat c, h8]; rfl
  · rw [← Char.ofNat_toNat c, h12]; rfl
  · have hhigh := hexValue_hexDigit ⟨c.toNat / 16, by omega⟩
    have hlow := hexValue_hexDigit ⟨c.toNat % 16, by omega⟩
    simp only [List.cons_append, List.nil_append, unescape, hhigh, hlow]
    rw [(by omega : c.toNat / 16 * 16 + c.toNat % 16 = c.toNat), Char.ofNat_toNat]
  · rw [List.singleton_append]
    unfold unescape
    split <;> simp_all

private theorem escapeChar_head (c : Char) (rest : List Char) : (escapeChar c ++ rest).head? ≠ some '"' := by
  unfold escapeChar
  split_ifs with h1 <;> simp [*]

/-- Texts that end where they do whatever follows them. -/
theorem stringText_separates {a b : String} {s t : List Char} (h : (stringText a).toList ++ s = (stringText b).toList ++ t) :
    a = b ∧ s = t := by
  have hchars (xs ys : List Char) (s t : List Char)
      (h : xs.flatMap escapeChar ++ '"' :: s = ys.flatMap escapeChar ++ '"' :: t) : xs = ys ∧ s = t := by
    induction xs generalizing ys with
    | nil =>
      cases ys with
      | nil => exact ⟨rfl, (List.cons.inj h).2⟩
      | cons y ys =>
        rw [List.flatMap_cons, List.append_assoc] at h
        exact absurd (congrArg List.head? h).symm (escapeChar_head y _)
    | cons x xs ih =>
      cases ys with
      | nil =>
        rw [List.flatMap_cons, List.append_assoc] at h
        exact absurd (congrArg List.head? h) (escapeChar_head x _)
      | cons y ys =>
        have hread := congrArg unescape h
        rw [List.flatMap_cons, List.flatMap_cons, List.append_assoc, List.append_assoc, unescape_escapeChar,
          unescape_escapeChar] at hread
        obtain ⟨rfl, hrest⟩ := Prod.mk.inj (Option.some.inj hread)
        obtain ⟨rfl, rfl⟩ := ih ys hrest
        exact ⟨rfl, rfl⟩
  have htext (s : String) (rest : List Char) :
      (stringText s).toList ++ rest = '"' :: (s.toList.flatMap escapeChar ++ '"' :: rest) := by
    simp [stringText]
  rw [htext, htext] at h
  obtain ⟨hlist, rfl⟩ := hchars _ _ _ _ (List.cons.inj h).2
  exact ⟨String.toList_injective hlist, rfl⟩

/-! Lists of texts between commas. -/

/-- What may follow a value: nothing, or what ends it. -/
def Stops (s : List Char) : Prop := ∀ c rest, s = c :: rest → isNumberChar c = false

section Separated

variable {α : Type} {f : α → List Char}

/-- No other text of the family is `f a`, whatever follows the two. -/
def Separates (f : α → List Char) (a : α) : Prop :=
  ∀ b s t, Stops s → Stops t → f a ++ s = f b ++ t → a = b ∧ s = t

private theorem stops_cons {c : Char} {rest : List Char} (h : isNumberChar c = false) : Stops (c :: rest) := by
  intro d others heq
  obtain ⟨rfl, -⟩ := List.cons.inj heq
  exact h

private theorem stops_tail {close : Char} (hclose : isNumberChar close = false) (as : List α) (s : List Char) :
    Stops (as.flatMap (fun a => ',' :: f a) ++ close :: s) := by
  cases as with
  | nil => exact stops_cons hclose
  | cons a as => exact stops_cons (by decide)

private theorem tails_separate {close : Char} (hclose : isNumberChar close = false) (hcomma : close ≠ ',') {as bs : List α}
    {s t : List Char} (has : ∀ a ∈ as, Separates f a)
    (h : as.flatMap (fun a => ',' :: f a) ++ close :: s = bs.flatMap (fun a => ',' :: f a) ++ close :: t) :
    as = bs ∧ s = t := by
  induction as generalizing bs with
  | nil =>
    cases bs with
    | nil => exact ⟨rfl, (List.cons.inj h).2⟩
    | cons b bs => exact absurd (List.cons.inj h).1 hcomma
  | cons a as ih =>
    cases bs with
    | nil => exact absurd (List.cons.inj h).1.symm hcomma
    | cons b bs =>
      simp only [List.flatMap_cons, List.cons_append, List.append_assoc, List.cons.injEq, true_and] at h
      obtain ⟨rfl, hrest⟩ :=
        has a List.mem_cons_self b _ _ (stops_tail hclose as s) (stops_tail hclose bs t) h
      obtain ⟨rfl, rfl⟩ := ih (fun a ha => has a (List.mem_cons_of_mem _ ha)) hrest
      exact ⟨rfl, rfl⟩

private theorem intercalate_cons (a : α) (as : List α) :
    [','].intercalate ((a :: as).map f) = f a ++ as.flatMap fun a => ',' :: f a := by
  induction as generalizing a with
  | nil => simp
  | cons b as ih =>
    rw [List.map_cons, List.map_cons, List.intercalate_cons_cons, ← List.map_cons, ih b]
    simp

/-- Texts between commas are those of one list alone, where none of them begins with what closes it. -/
private theorem list_separates {close : Char} (hclose : isNumberChar close = false) (hcomma : close ≠ ',') {as bs : List α}
    {s t : List Char} (hhead : ∀ a rest, (f a ++ rest).head? ≠ some close) (has : ∀ a ∈ as, Separates f a)
    (h : [','].intercalate (as.map f) ++ close :: s = [','].intercalate (bs.map f) ++ close :: t) : as = bs ∧ s = t := by
  cases as with
  | nil =>
    cases bs with
    | nil => exact ⟨rfl, (List.cons.inj h).2⟩
    | cons b bs =>
      rw [intercalate_cons, List.append_assoc] at h
      exact absurd (congrArg List.head? h).symm (hhead b _)
  | cons a as =>
    cases bs with
    | nil =>
      rw [intercalate_cons, List.append_assoc] at h
      exact absurd (congrArg List.head? h) (hhead a _)
    | cons b bs =>
      rw [intercalate_cons, intercalate_cons, List.append_assoc, List.append_assoc] at h
      obtain ⟨rfl, hrest⟩ :=
        has a List.mem_cons_self b _ _ (stops_tail hclose as s) (stops_tail hclose bs t) h
      obtain ⟨rfl, rfl⟩ := tails_separate hclose hcomma (fun a ha => has a (List.mem_cons_of_mem _ ha)) hrest
      exact ⟨rfl, rfl⟩

end Separated

/-! Values. -/

private def chars (v : Json) : List Char := (text v).toList

private def memberChars (p : String × Json) : List Char := (stringText p.1).toList ++ ':' :: chars p.2

private theorem itemTexts_eq (items : List Json) : itemTexts items = items.map text := by
  induction items with
  | nil => rfl
  | cons v rest ih => rw [itemTexts, ih, List.map_cons]

private theorem memberTexts_eq (members : List (String × Json)) :
    memberTexts members = members.map fun p => stringText p.1 ++ ":" ++ text p.2 := by
  induction members with
  | nil => rfl
  | cons p rest ih => rw [memberTexts, ih, List.map_cons]

private theorem chars_array (items : List Json) : chars (.array items) = '[' :: ([','].intercalate (items.map chars) ++ [']']) := by
  simp [chars, text, itemTexts_eq, String.toList_intercalate, Function.comp_def]
  rfl

private theorem chars_object (members : List (String × Json)) :
    chars (.object members) = '\x7b' :: ([','].intercalate (members.map memberChars) ++ ['\x7d']) := by
  simp [chars, text, memberTexts_eq, String.toList_intercalate, Function.comp_def]
  rfl

/-- Which kind of value a text that begins with a character is of. -/
private def kindOfHead (c : Char) : Nat :=
  if c = 'n' then 0 else if c = 't' ∨ c = 'f' then 1 else if c = '"' then 3 else if c = '[' then 4
  else if c = '\x7b' then 5 else if isNumberChar c then 2 else 6

private def kindIndex : Json → Nat
  | .null => 0
  | .bool _ => 1
  | .number _ => 2
  | .string _ => 3
  | .array _ => 4
  | .object _ => 5

private theorem kindOfHead_number {c : Char} (h : isNumberChar c = true) : kindOfHead c = 2 := by
  have hne : c ≠ 'n' ∧ ¬(c = 't' ∨ c = 'f') ∧ c ≠ '"' ∧ c ≠ '[' ∧ c ≠ '\x7b' := by
    refine ⟨?_, ?_, ?_, ?_, ?_⟩
    · rintro rfl; exact absurd h (by decide)
    · rintro (rfl | rfl) <;> exact absurd h (by decide)
    · rintro rfl; exact absurd h (by decide)
    · rintro rfl; exact absurd h (by decide)
    · rintro rfl; exact absurd h (by decide)
  rw [kindOfHead, if_neg hne.1, if_neg hne.2.1, if_neg hne.2.2.1, if_neg hne.2.2.2.1, if_neg hne.2.2.2.2, if_pos h]

private theorem numberText_ne_nil (n : Number) : (numberText n).toList ≠ [] := by
  cases n with
  | posInt n => rw [numberText, Nat.toList_repr]; exact Nat.toDigits_ne_nil
  | negInt n => rw [numberText, String.toList_append]; exact List.cons_ne_nil _ _
  | float x =>
    intro hnil
    have hmark := (jsonText_chars x).2
    rw [numberText] at hnil
    rw [hnil] at hmark
    exact hmark.elim (List.not_mem_nil) (List.not_mem_nil)

private theorem chars_head (v : Json) : ∃ c rest, chars v = c :: rest ∧ kindOfHead c = kindIndex v := by
  cases v with
  | null => exact ⟨_, _, rfl, rfl⟩
  | bool b => cases b <;> exact ⟨_, _, rfl, rfl⟩
  | number n =>
    obtain ⟨c, rest, hchars⟩ := List.exists_cons_of_ne_nil (numberText_ne_nil n)
    exact ⟨c, rest, hchars, kindOfHead_number (numberText_chars n c (hchars ▸ List.mem_cons_self))⟩
  | string s => exact ⟨'"', s.toList.flatMap escapeChar ++ ['"'], by simp [chars, text, stringText], rfl⟩
  | array items => exact ⟨_, _, chars_array items, rfl⟩
  | object members => exact ⟨_, _, chars_object members, rfl⟩

private theorem chars_not_closing (v : Json) (rest : List Char) {close : Char} (hclose : kindOfHead close = 6) :
    (chars v ++ rest).head? ≠ some close := by
  obtain ⟨c, others, hchars, hkind⟩ := chars_head v
  rw [hchars, List.cons_append, List.head?_cons, ne_eq, Option.some.injEq]
  rintro rfl
  rw [hclose] at hkind
  cases v <;> exact absurd hkind (by simp [kindIndex])

private theorem kindIndex_eq {a b : Json} {s t : List Char} (h : chars a ++ s = chars b ++ t) : kindIndex a = kindIndex b := by
  obtain ⟨c, others, ha, hkind⟩ := chars_head a
  obtain ⟨d, others', hb, hkind'⟩ := chars_head b
  rw [ha, hb] at h
  rw [← hkind, ← hkind', (List.cons.inj h).1]

private theorem number_separates (n : Number) : ∀ m s t, Stops s → Stops t →
    (numberText n).toList ++ s = (numberText m).toList ++ t → n = m ∧ s = t := by
  intro m s t hs ht h
  have htake (n : Number) (s : List Char) (hs : Stops s) :
      ((numberText n).toList ++ s).takeWhile isNumberChar = (numberText n).toList := by
    rw [List.takeWhile_append_of_pos (numberText_chars n)]
    cases s with
    | nil => simp
    | cons c s => rw [List.takeWhile_cons_of_neg (by rw [hs c s rfl]; decide), List.append_nil]
  have htext : (numberText n).toList = (numberText m).toList := by rw [← htake n s hs, h, htake m t ht]
  rw [htext] at h
  exact ⟨numberText_injective (String.toList_injective htext), List.append_cancel_left h⟩

private theorem chars_separates (v : Json) : Separates chars v := by
  induction v with
  | null =>
    intro b s t _ _ h
    cases b with
    | null => exact ⟨rfl, List.append_cancel_left h⟩
    | _ => exact absurd (kindIndex_eq h) (by simp [kindIndex])
  | bool a =>
    intro b s t _ _ h
    cases b with
    | bool b =>
      cases a <;> cases b
      · exact ⟨rfl, List.append_cancel_left h⟩
      · exact absurd (congrArg List.head? h) (by simp [chars, text])
      · exact absurd (congrArg List.head? h) (by simp [chars, text])
      · exact ⟨rfl, List.append_cancel_left h⟩
    | _ => exact absurd (kindIndex_eq h) (by simp [kindIndex])
  | number n =>
    intro b s t hs ht h
    cases b with
    | number m =>
      obtain ⟨rfl, rfl⟩ := number_separates n m s t hs ht h
      exact ⟨rfl, rfl⟩
    | _ => exact absurd (kindIndex_eq h) (by simp [kindIndex])
  | string x =>
    intro b s t _ _ h
    cases b with
    | string y =>
      obtain ⟨rfl, rfl⟩ := stringText_separates h
      exact ⟨rfl, rfl⟩
    | _ => exact absurd (kindIndex_eq h) (by simp [kindIndex])
  | array items ih =>
    intro b s t _ _ h
    cases b with
    | array others =>
      rw [chars_array, chars_array] at h
      simp only [List.cons_append, List.append_assoc, List.nil_append, List.cons.injEq, true_and] at h
      obtain ⟨rfl, rfl⟩ :=
        list_separates (by decide) (by decide) (fun v rest => chars_not_closing v rest (by decide)) ih h
      exact ⟨rfl, rfl⟩
    | _ => exact absurd (kindIndex_eq h) (by simp [kindIndex])
  | object members ih =>
    intro b s t _ _ h
    cases b with
    | object others =>
      rw [chars_object, chars_object] at h
      simp only [List.cons_append, List.append_assoc, List.nil_append, List.cons.injEq, true_and] at h
      have hhead (p : String × Json) (rest : List Char) : (memberChars p ++ rest).head? ≠ some '\x7d' := by
        simp [memberChars, stringText]
      have hmember : ∀ p ∈ members, Separates memberChars p := by
        intro p hp q s t hs ht h
        simp only [memberChars, List.append_assoc, List.cons_append] at h
        obtain ⟨hname, hvalue⟩ := stringText_separates h
        obtain ⟨hvalue, hrest⟩ := ih p hp q.2 s t hs ht (List.cons.inj hvalue).2
        exact ⟨Prod.ext hname hvalue, hrest⟩
      obtain ⟨rfl, rfl⟩ := list_separates (by decide) (by decide) hhead hmember h
      exact ⟨rfl, rfl⟩
    | _ => exact absurd (kindIndex_eq h) (by simp [kindIndex])

/-- Two documents of one text are one document, their members in one order and their numbers spelled alike. -/
theorem text_injective : Function.Injective text := by
  intro a b h
  have hstops : Stops [] := fun _ _ h => nomatch h
  refine (chars_separates a b [] [] hstops hstops ?_).1
  rw [chars, chars, h]

end PactJanus.Data.Spelling
