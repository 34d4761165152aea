import Mathlib.Algebra.Ring.Nat

namespace PactJanus.Lib.Text

/-- A character with the Unicode property `White_Space`. -/
def isWhitespace (c : Char) : Bool :=
  let n := c.toNat
  (9 ≤ n && n ≤ 13) || n == 0x20 || n == 0x85 || n == 0xA0 || n == 0x1680 || (0x2000 ≤ n && n ≤ 0x200A) ||
    n == 0x2028 || n == 0x2029 || n == 0x202F || n == 0x205F || n == 0x3000

/-- What stands before the first character that satisfies `p`, and what follows it. -/
def splitOnceBy (p : Char → Bool) (cs : List Char) : Option (List Char × List Char) :=
  match cs.dropWhile (fun c => !p c) with
  | [] => none
  | _ :: rest => some (cs.takeWhile (fun c => !p c), rest)

theorem splitOnceBy_none {p : Char → Bool} {cs : List Char} (h : ∀ c ∈ cs, p c = false) : splitOnceBy p cs = none := by
  have hdrop : cs.dropWhile (fun c => !p c) = [] := by
    have hall : (cs ++ []).dropWhile (fun c => !p c) = [].dropWhile fun c => !p c :=
      List.dropWhile_append_of_pos fun c hc => by simp [h c hc]
    rwa [List.append_nil] at hall
  rw [splitOnceBy, hdrop]

theorem splitOnceBy_append {p : Char → Bool} {before after : List Char} {c : Char} (h : ∀ d ∈ before, p d = false)
    (hc : p c = true) : splitOnceBy p (before ++ c :: after) = some (before, after) := by
  have hbefore : ∀ d ∈ before, (!p d) = true := fun d hd => by simp [h d hd]
  have hdrop : (before ++ c :: after).dropWhile (fun c => !p c) = c :: after := by
    rw [List.dropWhile_append_of_pos hbefore, List.dropWhile_cons_of_neg (by simp [hc])]
  have htake : (before ++ c :: after).takeWhile (fun c => !p c) = before := by
    rw [List.takeWhile_append_of_pos hbefore, List.takeWhile_cons_of_neg (by simp [hc]), List.append_nil]
  rw [splitOnceBy, hdrop, htake]

/-- No character of a text satisfies `p`, or there is a first that does. -/
theorem splitOnceBy_cases (p : Char → Bool) (cs : List Char) :
    (∀ c ∈ cs, p c = false) ∨ ∃ before c after, cs = before ++ c :: after ∧ p c = true ∧ ∀ d ∈ before, p d = false := by
  cases h : cs.find? p with
  | none => exact Or.inl fun c hc => Bool.eq_false_iff.2 (List.find?_eq_none.1 h c hc)
  | some c =>
    obtain ⟨hc, before, after, heq, hbefore⟩ := List.find?_eq_some_iff_append.1 h
    exact Or.inr ⟨before, c, after, heq, hc, fun d hd => by simpa using hbefore d hd⟩

def splitOnce (sep : Char) (s : String) : Option (String × String) :=
  (splitOnceBy (· == sep) s.toList).map fun (before, after) => (String.ofList before, String.ofList after)

/-- What stands before the last `sep`, and what follows it. -/
def rsplitOnce (sep : Char) (s : String) : Option (String × String) :=
  (splitOnceBy (· == sep) s.toList.reverse).map fun (after, before) =>
    (String.ofList before.reverse, String.ofList after.reverse)

def splitChars (sep : Char) : List Char → List (List Char)
  | [] => [[]]
  | c :: rest =>
    match splitChars sep rest with
    | [] => [[c]]
    | piece :: pieces => if c = sep then [] :: piece :: pieces else (c :: piece) :: pieces

/-- The pieces of a text between its `sep`s. -/
def split (sep : Char) (s : String) : List String := (splitChars sep s.toList).map String.ofList

private theorem splitChars_ne_nil (sep : Char) (cs : List Char) : splitChars sep cs ≠ [] := by
  fun_cases splitChars <;> simp_all

private theorem splitChars_cons (sep c : Char) (rest : List Char) :
    ∃ piece pieces, splitChars sep rest = piece :: pieces ∧
      splitChars sep (c :: rest) = if c = sep then [] :: piece :: pieces else (c :: piece) :: pieces := by
  obtain ⟨piece, pieces, h⟩ := List.exists_cons_of_ne_nil (splitChars_ne_nil sep rest)
  exact ⟨piece, pieces, h, by rw [splitChars, h]⟩

/-- What is split in two at its separators has one of them, between the two. -/
theorem splitChars_pair {sep : Char} {cs before after : List Char} (h : splitChars sep cs = [before, after]) :
    cs = before ++ sep :: after := by
  have hone {cs piece : List Char} (h : splitChars sep cs = [piece]) : cs = piece := by
    induction cs generalizing piece with
    | nil => exact (List.cons.inj h).1
    | cons c rest ih =>
      obtain ⟨first, pieces, hrest, heq⟩ := splitChars_cons sep c rest
      rw [heq] at h
      split at h
      · exact absurd h (by simp)
      · obtain ⟨rfl, rfl⟩ := List.cons.inj h
        rw [ih hrest]
  induction cs generalizing before with
  | nil => exact absurd h (by simp [splitChars])
  | cons c rest ih =>
    obtain ⟨first, pieces, hrest, heq⟩ := splitChars_cons sep c rest
    rw [heq] at h
    split at h
    · rename_i hsep
      obtain ⟨rfl, hpieces⟩ := List.cons.inj h
      obtain ⟨rfl, rfl⟩ := List.cons.inj hpieces
      rw [hone hrest, hsep, List.nil_append]
    · obtain ⟨rfl, rfl⟩ := List.cons.inj h
      rw [ih hrest, List.cons_append]

private theorem splitChars_injective (sep : Char) : Function.Injective (splitChars sep) := by
  intro cs ds h
  induction cs generalizing ds with
  | nil =>
    cases ds with
    | nil => rfl
    | cons d ds =>
      obtain ⟨piece, pieces, -, heq⟩ := splitChars_cons sep d ds
      rw [heq, splitChars] at h
      split at h <;> exact absurd h (by simp)
  | cons c cs ih =>
    obtain ⟨piece, pieces, hcs, heq⟩ := splitChars_cons sep c cs
    cases ds with
    | nil =>
      rw [heq, splitChars] at h
      split at h <;> exact absurd h (by simp)
    | cons d ds =>
      obtain ⟨piece', pieces', hds, heq'⟩ := splitChars_cons sep d ds
      have hrest (hp : piece = piece') (hps : pieces = pieces') : cs = ds := ih (by rw [hcs, hds, hp, hps])
      rw [heq, heq'] at h
      split at h <;> split at h
      · rename_i hc hd
        obtain ⟨hp, hps⟩ := List.cons.inj (List.cons.inj h).2
        rw [hc, hd, hrest hp hps]
      · exact absurd (List.cons.inj h).1 (by simp)
      · exact absurd (List.cons.inj h).1 (by simp)
      · obtain ⟨hhead, hps⟩ := List.cons.inj h
        obtain ⟨hc, hp⟩ := List.cons.inj hhead
        rw [hc, hrest hp hps]

/-- A text is known by its pieces. -/
theorem split_injective (sep : Char) : Function.Injective (split sep) := fun s t h => by
  have hchars : splitChars sep s.toList = splitChars sep t.toList :=
    (List.map_inj_right fun _ _ => String.ofList_inj.1).1 h
  exact String.toList_inj.1 (splitChars_injective sep hchars)

def trimMatchesChars (p : Char → Bool) (cs : List Char) : List Char :=
  ((cs.dropWhile p).reverse.dropWhile p).reverse

def trimMatches (p : Char → Bool) (s : String) : String := String.ofList (trimMatchesChars p s.toList)

def trim (s : String) : String := trimMatches isWhitespace s

def toAsciiLowercase (s : String) : String := String.ofList (s.toList.map Char.toLower)

theorem toLower_eq {c : Char} (h : c.isUpper = false) : c.toLower = c := by
  delta Char.toLower
  delta Char.isUpper at h
  rw [dif_neg]
  simpa using h

theorem isUpper_toLower (c : Char) : c.toLower.isUpper = false := by
  cases hupper : c.isUpper with
  | false => rw [toLower_eq hupper, hupper]
  | true =>
    have hrange : 65 ≤ c.toNat ∧ c.toNat ≤ 90 := by
      delta Char.isUpper at hupper
      simpa [UInt32.le_iff_toNat_le, ← Char.toNat_val] using hupper
    have hletters : ∀ n < 91, 65 ≤ n → (Char.ofNat n).toLower.isUpper = false := by decide +kernel
    have hletter := hletters c.toNat (by omega) hrange.1
    rwa [Char.ofNat_toNat] at hletter

theorem toAsciiLowercase_idem (s : String) : toAsciiLowercase (toAsciiLowercase s) = toAsciiLowercase s := by
  rw [toAsciiLowercase, toAsciiLowercase, String.toList_ofList, List.map_map]
  exact congrArg String.ofList (List.map_congr_left fun c _ => toLower_eq (isUpper_toLower c))

def eqIgnoreAsciiCase (a b : String) : Bool := toAsciiLowercase a == toAsciiLowercase b

def startsWithChar (c : Char) (s : String) : Bool := s.toList.head? == some c

/-- Whether `needle` stands somewhere in `hay`. -/
def containsChars (needle : List Char) : List Char → Bool
  | [] => needle.isEmpty
  | c :: rest => needle.isPrefixOf (c :: rest) || containsChars needle rest

def containsText (needle hay : String) : Bool := containsChars needle.toList hay.toList

/-- Every `needle` replaced, from the left; `skip` characters are part of one already replaced. -/
def replaceChars (needle by' : List Char) : Nat → List Char → List Char
  | _, [] => []
  | skip + 1, _ :: rest => replaceChars needle by' skip rest
  | 0, c :: rest =>
    if needle.isPrefixOf (c :: rest) then by' ++ replaceChars needle by' (needle.length - 1) rest
    else c :: replaceChars needle by' 0 rest

/-- Every occurrence of a text that is not empty, replaced by another. -/
def replace (needle by' s : String) : String := String.ofList (replaceChars needle.toList by'.toList 0 s.toList)

def startsWith (start s : String) : Bool := start.toList.isPrefixOf s.toList

def digit? (c : Char) : Option Nat := if c.isDigit then some (c.toNat - '0'.toNat) else none

/-- The number decimal digits stand for, after one they follow. -/
def digitsValue : Nat → List Char → Option Nat
  | acc, [] => some acc
  | acc, c :: rest => (digit? c).bind fun d => digitsValue (acc * 10 + d) rest

/-- A 64-bit unsigned integer as a decimal text, with an optional plus sign. -/
def parseUnsigned (cs : List Char) : Option Nat :=
  let digits := match cs with
    | '+' :: rest => rest
    | _ => cs
  match digits with
  | [] => none
  | _ => (digitsValue 0 digits).filter (· < 2 ^ 64)

/-- Digits with at most one point among them and at least one digit. -/
def isDecimal (cs : List Char) : Bool :=
  match splitOnceBy (· == '.') cs with
  | none => !cs.isEmpty && cs.all Char.isDigit
  | some (whole, fraction) => (whole ++ fraction).all Char.isDigit && !(whole ++ fraction).isEmpty

def dropSign : List Char → List Char
  | '+' :: rest => rest
  | '-' :: rest => rest
  | cs => cs

/-- Whether a text reads as a floating-point number. -/
def isFloatText (s : String) : Bool :=
  let cs := (dropSign s.toList).map Char.toLower
  String.ofList cs ∈ ["inf", "infinity", "nan"] ||
    match splitOnceBy (· == 'e') cs with
    | none => isDecimal cs
    | some (mantissa, exponent) =>
      isDecimal mantissa && !(dropSign exponent).isEmpty && (dropSign exponent).all Char.isDigit

theorem digitsValue_isSome_iff (acc : Nat) (cs : List Char) :
    (digitsValue acc cs).isSome = true ↔ ∀ c ∈ cs, c.isDigit = true := by
  induction cs generalizing acc with
  | nil => simp [digitsValue]
  | cons c rest ih => by_cases hc : c.isDigit = true <;> simp [digitsValue, digit?, hc, ih]

private theorem digitsValue_append (acc : Nat) (xs ys : List Char) :
    digitsValue acc (xs ++ ys) = (digitsValue acc xs).bind fun n => digitsValue n ys := by
  induction xs generalizing acc with
  | nil => rfl
  | cons c rest ih => cases h : digit? c <;> simp [digitsValue, h, ih]

private theorem digit?_digitChar {n : Nat} (h : n < 10) : digit? (Nat.digitChar n) = some n := by
  revert h
  revert n
  decide

private theorem digitsValue_toDigits (n : Nat) : digitsValue 0 (Nat.toDigits 10 n) = some n := by
  induction n using Nat.strongRecOn with
  | _ n ih =>
    by_cases h : n < 10
    · rw [Nat.toDigits_of_lt_base h]
      simp [digitsValue, digit?_digitChar h]
    · rw [Nat.toDigits_eq_if (by omega), if_neg h, digitsValue_append, ih (n / 10) (by omega)]
      simp [digitsValue, digit?_digitChar (Nat.mod_lt n (by omega : 0 < 10))]
      omega

/-- No character of a text has a property when none is found. -/
theorem forall_mem_eq_false {p : Char → Bool} {cs : List Char} (h : cs.any p = false) : ∀ c ∈ cs, p c = false :=
  fun c hc => Bool.eq_false_iff.2 (List.any_eq_false.1 h c hc)

theorem isDigit_of_mem_repr {n : Nat} {c : Char} (h : c ∈ n.repr.toList) : c.isDigit = true := by
  rw [Nat.toList_repr] at h
  exact Nat.isDigit_of_mem_toDigits (by decide) (by decide) h

/-- A number reads back from its decimal text. -/
theorem parseUnsigned_repr {n : Nat} (h : n < 2 ^ 64) : parseUnsigned n.repr.toList = some n := by
  have hvalue : digitsValue 0 n.repr.toList = some n := by rw [Nat.toList_repr]; exact digitsValue_toDigits n
  cases hd : n.repr.toList with
  | nil => exact absurd hd (by rw [Nat.toList_repr]; exact Nat.toDigits_ne_nil)
  | cons c rest =>
    have hc : c.isDigit = true := isDigit_of_mem_repr (n := n) (by rw [hd]; exact List.mem_cons_self)
    have hplus : c ≠ '+' := by rintro rfl; exact absurd hc (by decide)
    rw [hd] at hvalue
    unfold parseUnsigned
    split
    · rename_i heq
      exact absurd (List.cons.inj heq).1 hplus
    · simpa [hvalue] using h

end PactJanus.Lib.Text
