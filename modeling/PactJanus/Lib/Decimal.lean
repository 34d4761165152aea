import Mathlib.Data.List.TakeWhile
import Mathlib.Data.Nat.Basic
import Mathlib.Tactic.Ring
import PactJanus.Lib.Binary64
import PactJanus.Lib.Text

namespace PactJanus.Lib.Decimal

open PactJanus.Lib.Binary64 PactJanus.Lib.Text

/-! The decimals that read back to a number: no two numbers have one in common. -/

/-- Whether `n`, in units of `10 ^ -400`, reads back to `|x|`. -/
def Inside (x : Binary64) (n : Nat) : Prop :=
  if x.mantissa % 2 = 0 then
    (readBack x).1 * 10 ^ decimalScale ≤ n * fineness ∧ n * fineness ≤ (readBack x).2.2 * 10 ^ decimalScale
  else (readBack x).1 * 10 ^ decimalScale < n * fineness ∧ n * fineness < (readBack x).2.2 * 10 ^ decimalScale

/-- The bounds of a number end before those of a greater one begin, or there where one of them is open. -/
private theorem readBack_apart {x y : Binary64}
    (h : x.exponent < y.exponent ∨ x.exponent = y.exponent ∧ x.mantissa < y.mantissa) :
    (readBack x).2.2 ≤ (readBack y).1 ∧
      ((readBack x).2.2 = (readBack y).1 → x.mantissa % 2 = 1 ∨ y.mantissa % 2 = 1) := by
  obtain ⟨hx, -, hxsmall⟩ := x.canonical
  obtain ⟨hy, -, hysmall⟩ := y.canonical
  have hpos : 0 < 2 ^ x.exponent := Nat.two_pow_pos _
  unfold readBack
  dsimp only
  rcases h with hexponent | ⟨hexponent, hmantissa⟩
  · obtain ⟨d, hd⟩ := Nat.exists_eq_add_of_lt hexponent
    have hscale : 2 * 2 ^ x.exponent ≤ 2 ^ y.exponent := by
      rw [← Nat.pow_succ']
      exact Nat.pow_le_pow_right (by omega) (by omega)
    have hmant : 2 ^ 52 ≤ y.mantissa := by omega
    have hxle : 4 * x.mantissa * 2 ^ x.exponent ≤ 4 * (2 ^ 53 - 1) * 2 ^ x.exponent :=
      Nat.mul_le_mul_right _ (by omega)
    split
    · rename_i hedge
      rw [hedge.1]
      refine ⟨by omega, fun heq => ?_⟩
      have hlast : x.mantissa = 2 ^ 53 - 1 := by
        by_contra hne
        have hlt : 4 * x.mantissa * 2 ^ x.exponent ≤ 4 * (2 ^ 53 - 2) * 2 ^ x.exponent :=
          Nat.mul_le_mul_right _ (by omega)
        omega
      omega
    · rename_i hedge
      have hyge : 4 * (2 ^ 52 + 1) * 2 ^ y.exponent ≤ 4 * y.mantissa * 2 ^ y.exponent :=
        Nat.mul_le_mul_right _ (by omega)
      omega
  · rw [← hexponent]
    split
    · omega
    · have hyge : 4 * (x.mantissa + 1) * 2 ^ x.exponent ≤ 4 * y.mantissa * 2 ^ x.exponent :=
        Nat.mul_le_mul_right _ (by omega)
      have hsplit : 4 * (x.mantissa + 1) * 2 ^ x.exponent = 4 * x.mantissa * 2 ^ x.exponent + 4 * 2 ^ x.exponent := by ring
      refine ⟨by omega, fun heq => ?_⟩
      have hnext : y.mantissa = x.mantissa + 1 := by
        by_contra hne
        have hygt : 4 * (x.mantissa + 2) * 2 ^ x.exponent ≤ 4 * y.mantissa * 2 ^ x.exponent :=
          Nat.mul_le_mul_right _ (by omega)
        have hsplit : 4 * (x.mantissa + 2) * 2 ^ x.exponent = 4 * x.mantissa * 2 ^ x.exponent + 8 * 2 ^ x.exponent := by
          ring
        omega
      omega

private theorem not_inside_both {x y : Binary64} {n : Nat}
    (h : x.exponent < y.exponent ∨ x.exponent = y.exponent ∧ x.mantissa < y.mantissa) (hx : Inside x n) :
    ¬Inside y n := by
  intro hy
  obtain ⟨hle, hodd⟩ := readBack_apart h
  have hscaled : (readBack x).2.2 * 10 ^ decimalScale ≤ (readBack y).1 * 10 ^ decimalScale := Nat.mul_le_mul_right _ hle
  have hmeet : (readBack x).2.2 * 10 ^ decimalScale = (readBack y).1 * 10 ^ decimalScale →
      x.mantissa % 2 = 1 ∨ y.mantissa % 2 = 1 := by
    intro heq
    exact hodd (Nat.eq_of_mul_eq_mul_right (Nat.pow_pos (by omega)) heq)
  unfold Inside at hx hy
  split at hx <;> split at hy <;> omega

theorem eq_of_inside {x y : Binary64} {n : Nat} (hx : Inside x n) (hy : Inside y n) :
    x.mantissa = y.mantissa ∧ x.exponent = y.exponent := by
  rcases Nat.lt_trichotomy x.exponent y.exponent with h | h | h
  · exact absurd hy (not_inside_both (Or.inl h) hx)
  · rcases Nat.lt_trichotomy x.mantissa y.mantissa with h' | h' | h'
    · exact absurd hy (not_inside_both (Or.inr ⟨h, h'⟩) hx)
    · exact ⟨h', h⟩
    · exact absurd hx (not_inside_both (Or.inr ⟨h.symm, h'⟩) hy)
  · exact absurd hx (not_inside_both (Or.inl h) hy)

/-! The search finds such a decimal. -/

private def insideBy (unit : Nat) (x : Binary64) (d : Nat) : Bool :=
  if x.mantissa % 2 = 0 then
    (readBack x).1 * 10 ^ decimalScale ≤ d * unit ∧ d * unit ≤ (readBack x).2.2 * 10 ^ decimalScale
  else (readBack x).1 * 10 ^ decimalScale < d * unit ∧ d * unit < (readBack x).2.2 * 10 ^ decimalScale

private def chosen (x : Binary64) (unit below r : Nat) : Option Nat :=
  match insideBy unit x below && below != 0, insideBy unit x (below + 1) with
  | true, true => some (if unit < 2 * r ∨ (2 * r = unit ∧ below % 2 = 1) then below + 1 else below)
  | true, false => some below
  | false, true => some (below + 1)
  | false, false => none

private theorem digitsAt_eq {x : Binary64} {p unit : Nat} (h : unit = 10 ^ p * fineness) :
    digitsAt x p =
      chosen x unit ((readBack x).2.1 * 10 ^ decimalScale / unit) ((readBack x).2.1 * 10 ^ decimalScale % unit) := by
  unfold digitsAt chosen insideBy
  generalize fineness = fine at h ⊢
  subst h
  rfl

private theorem insideBy_iff {x : Binary64} {p d unit : Nat} (h : unit = 10 ^ p * fineness) :
    insideBy unit x d = true ↔ Inside x (d * 10 ^ p) := by
  unfold insideBy Inside
  rw [Nat.mul_assoc d (10 ^ p), ← h]
  split <;> exact decide_eq_true_iff

private theorem chosen_inside {x : Binary64} {unit below r d : Nat} (h : chosen x unit below r = some d) :
    0 < d ∧ insideBy unit x d = true := by
  unfold chosen at h
  split at h
  · rename_i hbelow habove
    obtain ⟨hbelow, hne⟩ := Bool.and_eq_true_iff.1 hbelow
    obtain rfl := Option.some.inj h
    split
    · exact ⟨Nat.succ_pos _, habove⟩
    · exact ⟨Nat.pos_of_ne_zero (by simpa using hne), hbelow⟩
  · rename_i hbelow _
    obtain ⟨hbelow, hne⟩ := Bool.and_eq_true_iff.1 hbelow
    obtain rfl := Option.some.inj h
    exact ⟨Nat.pos_of_ne_zero (by simpa using hne), hbelow⟩
  · rename_i _ habove
    obtain rfl := Option.some.inj h
    exact ⟨Nat.succ_pos _, habove⟩
  · exact nomatch h

private theorem digitsAt_inside {x : Binary64} {p d : Nat} (h : digitsAt x p = some d) :
    0 < d ∧ Inside x (d * 10 ^ p) := by
  rw [digitsAt_eq rfl] at h
  obtain ⟨hpos, hinside⟩ := chosen_inside h
  exact ⟨hpos, (insideBy_iff rfl).1 hinside⟩

private theorem fourth_power {n m : Nat} (h : 4 * n ≤ m) : (10 ^ 4) ^ n ≤ 10 ^ m := by
  rw [← Nat.pow_mul]
  exact Nat.pow_le_pow_right (by omega) h

private theorem fineness_lt : fineness < 10 ^ decimalScale :=
  calc fineness < 2 ^ (13 * 83) := Nat.pow_lt_pow_right (by omega) (by decide)
    _ = (2 ^ 13) ^ 83 := Nat.pow_mul ..
    _ ≤ (10 ^ 4) ^ 83 := Nat.pow_le_pow_left (by omega) _
    _ ≤ 10 ^ decimalScale := fourth_power (by decide)

/-- The multiple of a unit next above a value stays below any bound that is more than a unit above it. -/
private theorem next_multiple {low v high a unit : Nat} (hunit : 0 < unit) (hfine : unit < a) (hlow : low ≤ v)
    (hhigh : v + 1 < high) : low * a < (v * a / unit + 1) * unit ∧ (v * a / unit + 1) * unit < high * a := by
  have hdiv := Nat.div_add_mod (v * a) unit
  have hmod := Nat.mod_lt (v * a) hunit
  have hlow' : low * a ≤ v * a := Nat.mul_le_mul_right _ hlow
  have hhigh' : (v + 1) * a ≤ high * a := Nat.mul_le_mul_right _ hhigh.le
  rw [Nat.mul_comm unit] at hdiv
  rw [Nat.add_mul, Nat.one_mul] at *
  omega

/-- The smallest power is finer than the bounds of any number. -/
private theorem digitsAt_finest (x : Binary64) : (digitsAt x 0).isSome = true := by
  have hpos : 0 < 2 ^ x.exponent := Nat.two_pow_pos _
  have hbounds : (readBack x).1 ≤ (readBack x).2.1 ∧ (readBack x).2.1 + 1 < (readBack x).2.2 := by
    unfold readBack
    dsimp only
    split <;> omega
  obtain ⟨unit, hunit⟩ : ∃ unit, unit = 10 ^ 0 * fineness := ⟨_, rfl⟩
  have hunit' : unit = fineness := by rw [hunit, Nat.pow_zero, Nat.one_mul]
  have hnext : (readBack x).1 * 10 ^ decimalScale <
        ((readBack x).2.1 * 10 ^ decimalScale / unit + 1) * unit ∧
      ((readBack x).2.1 * 10 ^ decimalScale / unit + 1) * unit < (readBack x).2.2 * 10 ^ decimalScale :=
    next_multiple (hunit' ▸ Nat.two_pow_pos finestExponent) (hunit' ▸ fineness_lt) hbounds.1 hbounds.2
  have habove : insideBy unit x ((readBack x).2.1 * 10 ^ decimalScale / unit + 1) = true := by
    unfold insideBy
    split
    · exact decide_eq_true ⟨hnext.1.le, hnext.2.le⟩
    · exact decide_eq_true hnext
  rw [digitsAt_eq hunit, chosen, habove]
  cases insideBy unit x ((readBack x).2.1 * 10 ^ decimalScale / unit) &&
    (readBack x).2.1 * 10 ^ decimalScale / unit != 0 <;> rfl

private theorem searchDigits_inside (x : Binary64) {p : Nat} (hp : 0 < p) :
    ∃ d q : Nat, searchDigits x p = (d, (q : Int) - decimalScale) ∧ 0 < d ∧ Inside x (d * 10 ^ q) := by
  induction p with
  | zero => omega
  | succ p ih =>
    rw [searchDigits]
    cases h : digitsAt x p with
    | some d => exact ⟨d, p, rfl, digitsAt_inside h⟩
    | none =>
      cases p with
      | zero =>
        have hfinest := digitsAt_finest x
        rw [h] at hfinest
        exact nomatch hfinest
      | succ p => exact ih (Nat.succ_pos p)

/-! What a text says, in units of `10 ^ -400`. -/

def readInt : List Char → Int
  | '-' :: cs => -(Nat.ofDigitChars 10 cs 0 : Int)
  | '+' :: cs => Nat.ofDigitChars 10 cs 0
  | cs => Nat.ofDigitChars 10 cs 0

/-- Digits with a point among them, scaled by a power of ten. -/
def readPointed (cs : List Char) (exponent : Int) : Nat :=
  let (whole, fraction) := (splitOnceBy (· == '.') cs).getD (cs, [])
  Nat.ofDigitChars 10 (whole ++ fraction) 0 * 10 ^ (decimalScale + exponent - fraction.length).toNat

def readDecimal (cs : List Char) : Nat :=
  match splitOnceBy (· == 'e') cs with
  | some (mantissa, exponent) => readPointed mantissa (readInt exponent)
  | none => readPointed cs 0

private theorem splitOnceBy_at {p : Char → Bool} {before after : List Char} {c : Char} (hbefore : ∀ x ∈ before, p x = false)
    (hc : p c = true) : splitOnceBy p (before ++ c :: after) = some (before, after) := by
  have hall : ∀ x ∈ before, (!p x) = true := fun x hx => by rw [hbefore x hx]; rfl
  rw [splitOnceBy, List.dropWhile_append_of_pos hall, List.takeWhile_append_of_pos hall]
  simp [hc]

private theorem splitOnceBy_none {p : Char → Bool} {cs : List Char} (h : ∀ x ∈ cs, p x = false) :
    splitOnceBy p cs = none := by
  have hdrop : cs.dropWhile (fun c => !p c) = [] := List.dropWhile_eq_nil_iff.2 fun x hx => by rw [h x hx]; rfl
  rw [splitOnceBy, hdrop]

private theorem digit_ne {c : Char} (h : c.isDigit = true) : (c == 'e') = false ∧ (c == '.') = false := by
  constructor <;> (rw [beq_eq_false_iff_ne]; rintro rfl; exact absurd h (by decide))

private theorem ofDigitChars_repr (n : Nat) : Nat.ofDigitChars 10 n.repr.toList 0 = n := by
  rw [Nat.toList_repr, Nat.ofDigitChars_ten_toDigits]

private theorem readInt_exponentText (n : Int) : readInt (exponentText n).toList = n := by
  have hcons (c : Char) (m : Nat) : (String.ofList [c] ++ m.repr).toList = c :: m.repr.toList := by simp
  rw [exponentText, Int.repr_eq_if]
  split
  · rename_i hn
    rw [if_neg (by omega), hcons '-']
    change -(Nat.ofDigitChars 10 (-n).toNat.repr.toList 0 : Int) = n
    rw [ofDigitChars_repr]
    omega
  · rename_i hn
    rw [if_pos (by omega), hcons '+']
    change (Nat.ofDigitChars 10 n.toNat.repr.toList 0 : Int) = n
    rw [ofDigitChars_repr]
    omega

section Read

variable {whole fraction cs : List Char} {exponent : Int}

private theorem readPointed_at (hwhole : ∀ c ∈ whole, c.isDigit = true) :
    readPointed (whole ++ '.' :: fraction) exponent =
      Nat.ofDigitChars 10 (whole ++ fraction) 0 * 10 ^ (decimalScale + exponent - fraction.length).toNat := by
  rw [readPointed, splitOnceBy_at (fun c hc => (digit_ne (hwhole c hc)).2) rfl]
  rfl

private theorem readPointed_whole (hcs : ∀ c ∈ cs, c.isDigit = true) :
    readPointed cs exponent = Nat.ofDigitChars 10 cs 0 * 10 ^ (decimalScale + exponent).toNat := by
  rw [readPointed, splitOnceBy_none fun c hc => (digit_ne (hcs c hc)).2]
  simp

private theorem readDecimal_plain (hcs : ∀ c ∈ cs, (c == 'e') = false) : readDecimal cs = readPointed cs 0 := by
  rw [readDecimal, splitOnceBy_none hcs]

private theorem readDecimal_exponent (hcs : ∀ c ∈ cs, (c == 'e') = false) :
    readDecimal (cs ++ 'e' :: (exponentText exponent).toList) = readPointed cs exponent := by
  rw [readDecimal, splitOnceBy_at hcs rfl]
  simp only [readInt_exponentText]

private theorem pointed_without_e (hwhole : ∀ c ∈ whole, c.isDigit = true) (hfraction : ∀ c ∈ fraction, c.isDigit = true) :
    ∀ c ∈ whole ++ '.' :: fraction, (c == 'e') = false := by
  intro c hc
  rcases List.mem_append.1 hc with hc | hc
  · exact (digit_ne (hwhole c hc)).1
  · rcases List.mem_cons.1 hc with rfl | hc
    · rfl
    · exact (digit_ne (hfraction c hc)).1

end Read

private theorem isDigit_of_mem_zeros {n : Nat} : ∀ c ∈ List.replicate n '0', c.isDigit = true := by
  intro c hc
  obtain rfl := List.eq_of_mem_replicate hc
  rfl

/-- Digits with a point among them stand for the same digits, and for as many of them as follow the point. -/
private theorem pointed_split {digits : List Char} {point : Int} (hdigits : ∀ c ∈ digits, c.isDigit = true)
    (hpoint : point ≤ digits.length) :
    ∃ whole fraction, (pointed digits point).toList = whole ++ '.' :: fraction ∧ (digits ≠ [] → whole ≠ []) ∧
      (∀ c ∈ whole, c.isDigit = true) ∧ (∀ c ∈ fraction, c.isDigit = true) ∧
      Nat.ofDigitChars 10 (whole ++ fraction) 0 = Nat.ofDigitChars 10 digits 0 ∧
      (fraction.length : Int) = digits.length - point := by
  unfold pointed
  split
  · rename_i hle
    refine ⟨['0'], List.replicate (-point).toNat '0' ++ digits, ?_, by simp, by simp, ?_, ?_, ?_⟩
    · simp [zeros]
    · intro c hc
      exact (List.mem_append.1 hc).elim (isDigit_of_mem_zeros c) (hdigits c)
    · rw [List.singleton_append, Nat.ofDigitChars_cons, Nat.ofDigitChars_append, Nat.ofDigitChars_replicate_zero]
      simp
    · simp only [List.length_append, List.length_replicate]
      omega
  · rename_i hpos
    refine ⟨digits.take point.toNat, digits.drop point.toNat, ?_, ?_, ?_, ?_, ?_, ?_⟩
    · simp
    · intro hne htake
      exact (List.take_eq_nil_iff.1 htake).elim (fun h => by omega) hne
    · exact fun c hc => hdigits c (List.mem_of_mem_take hc)
    · exact fun c hc => hdigits c (List.mem_of_mem_drop hc)
    · rw [List.take_append_drop]
    · rw [List.length_drop]
      omega

/-- The text of `digits * 10 ^ power`, without its sign. -/
private def bodyText (digits : List Char) (k : Int) : String :=
  let point := (digits.length : Int) + k
  if 0 ≤ k ∧ point ≤ 16 then String.ofList digits ++ zeros k ++ ".0"
  else if -5 < point ∧ point ≤ 16 then pointed digits point
  else
    match digits with
    | [c] => String.ofList [c] ++ "e" ++ exponentText (point - 1)
    | _ => pointed digits 1 ++ "e" ++ exponentText (point - 1)

private theorem jsonText_eq (x : Binary64) :
    jsonText x =
      signText x ++ if (shortest x).1 = 0 then "0.0" else bodyText (shortest x).1.repr.toList (shortest x).2 := by
  unfold jsonText bodyText
  dsimp only
  split <;> rfl

private theorem readDecimal_bodyText {digits : List Char} {k : Int} {q : Nat} (hdigits : ∀ c ∈ digits, c.isDigit = true)
    (hne : digits ≠ []) (hk : k = (q : Int) - decimalScale) :
    readDecimal (bodyText digits k).toList = Nat.ofDigitChars 10 digits 0 * 10 ^ q := by
  have hlen : 0 < digits.length := List.length_pos_iff.2 hne
  unfold bodyText
  dsimp only
  split
  · rename_i hsmall
    have htext : (String.ofList digits ++ zeros k ++ ".0").toList =
        (digits ++ List.replicate k.toNat '0') ++ '.' :: ['0'] := by
      simp [zeros]
    have hwhole : ∀ c ∈ digits ++ List.replicate k.toNat '0', c.isDigit = true :=
      fun c hc => (List.mem_append.1 hc).elim (hdigits c) (isDigit_of_mem_zeros c)
    have hq : ((decimalScale : Int) + 0 - (['0'].length : Nat)).toNat + 1 + k.toNat = q := by
      have hscale : decimalScale = 400 := rfl
      simp only [List.length_singleton]
      omega
    rw [htext, readDecimal_plain (pointed_without_e hwhole (by simp)), readPointed_at hwhole, ← hq]
    rw [Nat.ofDigitChars_append, Nat.ofDigitChars_append, Nat.ofDigitChars_replicate_zero, Nat.pow_add, Nat.pow_succ]
    rw [Nat.ofDigitChars_cons, Nat.ofDigitChars_nil]
    simp only [Char.reduceToNat, Nat.sub_self, Nat.add_zero]
    ring
  · split
    · rename_i hlarge hpoint
      obtain ⟨whole, fraction, htext, -, hwhole, hfraction, hvalue, hlength⟩ :=
        pointed_split hdigits (by omega : (digits.length : Int) + k ≤ digits.length)
      rw [htext, readDecimal_plain (pointed_without_e hwhole hfraction), readPointed_at hwhole, hvalue]
      congr 2
      omega
    · split
      · rename_i c _ _
        have htext : (String.ofList [c] ++ "e" ++ exponentText (([c].length : Int) + k - 1)).toList =
            [c] ++ 'e' :: (exponentText (([c].length : Int) + k - 1)).toList := by simp
        rw [htext, readDecimal_exponent fun c hc => (digit_ne (hdigits c hc)).1, readPointed_whole hdigits]
        congr 2
        simp only [List.length_singleton]
        omega
      · have htext : (pointed digits 1 ++ "e" ++ exponentText ((digits.length : Int) + k - 1)).toList =
            (pointed digits 1).toList ++ 'e' :: (exponentText ((digits.length : Int) + k - 1)).toList := by simp
        obtain ⟨whole, fraction, hsplit, -, hwhole, hfraction, hvalue, hlength⟩ :=
          pointed_split hdigits (by omega : (1 : Int) ≤ digits.length)
        rw [htext, hsplit, readDecimal_exponent (pointed_without_e hwhole hfraction), readPointed_at hwhole, hvalue]
        congr 2
        omega

/-- A text that starts with a digit. -/
def DigitFirst (cs : List Char) : Prop := ∃ c ∈ cs.head?, c.isDigit = true

private theorem DigitFirst.ne_minus {cs : List Char} (h : DigitFirst cs) : cs.head? ≠ some '-' := by
  rintro hminus
  obtain ⟨c, hc, hdigit⟩ := h
  obtain rfl := Option.some.inj (hminus.symm.trans hc)
  exact absurd hdigit (by decide)

private theorem head_of_digits {cs rest : List Char} (hcs : ∀ c ∈ cs, c.isDigit = true) (hne : cs ≠ []) :
    DigitFirst (cs ++ rest) := by
  cases cs with
  | nil => exact absurd rfl hne
  | cons c cs => exact ⟨c, rfl, hcs c List.mem_cons_self⟩

private theorem pointed_head {digits rest : List Char} {point : Int} (hdigits : ∀ c ∈ digits, c.isDigit = true)
    (hne : digits ≠ []) (hpoint : point ≤ digits.length) : DigitFirst ((pointed digits point).toList ++ rest) := by
  obtain ⟨whole, fraction, htext, hwholeNe, hwhole, -⟩ := pointed_split hdigits hpoint
  rw [htext, List.append_assoc]
  exact head_of_digits hwhole (hwholeNe hne)

private theorem bodyText_head {digits : List Char} {k : Int} (hdigits : ∀ c ∈ digits, c.isDigit = true)
    (hne : digits ≠ []) : DigitFirst (bodyText digits k).toList := by
  have hlen : 0 < digits.length := List.length_pos_iff.2 hne
  unfold bodyText
  dsimp only
  split
  · rw [String.toList_append, String.toList_append, String.toList_ofList, List.append_assoc]
    exact head_of_digits hdigits hne
  · split
    · rw [← List.append_nil (pointed digits _).toList]
      exact pointed_head hdigits hne (by omega)
    · split
      · rw [String.toList_append, String.toList_append, String.toList_ofList, List.append_assoc]
        exact head_of_digits hdigits hne
      · rw [String.toList_append, String.toList_append, List.append_assoc]
        exact pointed_head hdigits hne (by omega)

private theorem readPointed_zero (exponent : Int) : readPointed (['0'] ++ '.' :: ['0']) exponent = 0 := by
  have hvalue : Nat.ofDigitChars 10 (['0'] ++ ['0']) 0 = 0 := by decide
  rw [readPointed_at (by simp), hvalue, Nat.zero_mul]

private theorem readDecimal_zero : readDecimal "0.0".toList = 0 := by
  have hplain : readDecimal "0.0".toList = readPointed "0.0".toList 0 :=
    readDecimal_plain (forall_mem_eq_false (by decide))
  exact hplain.trans (readPointed_zero 0)

/-- What a way to write `digits * 10 ^ power` without a sign must do for its texts to read back. -/
private structure ReadsBack (zeroText : String) (body : List Char → Int → String) : Prop where
  zeroHead : DigitFirst zeroText.toList
  zero : readDecimal zeroText.toList = 0
  head : ∀ digits k, (∀ c ∈ digits, c.isDigit = true) → digits ≠ [] → DigitFirst (body digits k).toList
  decimal : ∀ digits (k : Int) (q : Nat), (∀ c ∈ digits, c.isDigit = true) → digits ≠ [] → k = (q : Int) - decimalScale →
    readDecimal (body digits k).toList = Nat.ofDigitChars 10 digits 0 * 10 ^ q

/-- A number's sign, then its shortest digits written one way. -/
private def signed (zeroText : String) (body : List Char → Int → String) (x : Binary64) : String :=
  signText x ++ if (shortest x).1 = 0 then zeroText else body (shortest x).1.repr.toList (shortest x).2

/-- What stands after the sign of a number's text: no other sign, and a decimal that reads back to the number. -/
private theorem signed_spec {zeroText : String} {body : List Char → Int → String} (hreads : ReadsBack zeroText body)
    (x : Binary64) : ∃ rest n, (signed zeroText body x).toList = (signText x).toList ++ rest ∧ rest.head? ≠ some '-' ∧
      readDecimal rest = n ∧ (if x.mantissa = 0 then n = 0 else 0 < n ∧ Inside x n) := by
  rw [signed, String.toList_append]
  refine ⟨_, _, rfl, ?_, rfl, ?_⟩
  all_goals unfold shortest
  all_goals by_cases hzero : x.mantissa = 0
  · rw [if_pos hzero]
    exact hreads.zeroHead.ne_minus
  · rw [if_neg hzero]
    obtain ⟨d, q, hsearch, hpos, -⟩ := searchDigits_inside x (by omega : 0 < 710)
    rw [hsearch, if_neg (Nat.ne_of_gt hpos)]
    exact (hreads.head _ _ (fun c hc => isDigit_of_mem_repr hc) (by rw [Nat.toList_repr]; exact Nat.toDigits_ne_nil)).ne_minus
  · rw [if_pos hzero, if_pos hzero]
    exact hreads.zero
  · rw [if_neg hzero, if_neg hzero]
    obtain ⟨d, q, hsearch, hpos, hinside⟩ := searchDigits_inside x (by omega : 0 < 710)
    rw [hsearch, if_neg (Nat.ne_of_gt hpos), hreads.decimal _ _ q (fun c hc => isDigit_of_mem_repr hc)
      (by rw [Nat.toList_repr]; exact Nat.toDigits_ne_nil) rfl, ofDigitChars_repr]
    exact ⟨Nat.mul_pos hpos (Nat.pow_pos (by omega)), hinside⟩

private theorem signed_eq {x y : Binary64} {a b : List Char} (ha : a.head? ≠ some '-') (hb : b.head? ≠ some '-')
    (h : (signText x).toList ++ a = (signText y).toList ++ b) : x.negative = y.negative ∧ a = b := by
  unfold signText at h
  cases hx : x.negative <;> cases hy : y.negative <;> rw [hx, hy] at h
  · exact ⟨rfl, h⟩
  · exact absurd (congrArg List.head? h) ha
  · exact absurd (congrArg List.head? h).symm hb
  · exact ⟨rfl, List.cons.inj h |>.2⟩

private theorem signed_injective {zeroText : String} {body : List Char → Int → String} (hreads : ReadsBack zeroText body) :
    Function.Injective (signed zeroText body) := by
  intro x y h
  obtain ⟨a, m, hx, hxhead, hxread, hxspec⟩ := signed_spec hreads x
  obtain ⟨b, n, hy, hyhead, hyread, hyspec⟩ := signed_spec hreads y
  obtain ⟨hnegative, rfl⟩ := signed_eq hxhead hyhead (hx.symm.trans ((congrArg String.toList h).trans hy))
  obtain rfl : m = n := hxread.symm.trans hyread
  have hmagnitude : x.mantissa = y.mantissa ∧ x.exponent = y.exponent := by
    split at hxspec <;> split at hyspec
    · rename_i hxzero hyzero
      obtain ⟨-, -, hxsmall⟩ := x.canonical
      obtain ⟨-, -, hysmall⟩ := y.canonical
      exact ⟨hxzero.trans hyzero.symm, by omega⟩
    · omega
    · omega
    · exact eq_of_inside hxspec.2 hyspec.2
  obtain ⟨xn, xm, xe, hxc⟩ := x
  obtain ⟨yn, ym, ye, hyc⟩ := y
  obtain ⟨rfl, rfl⟩ : xm = ym ∧ xe = ye := hmagnitude
  obtain rfl : xn = yn := hnegative
  rfl

private theorem jsonText_signed : jsonText = signed "0.0" bodyText := funext jsonText_eq

/-- Two numbers with one text are one number. -/
theorem jsonText_injective : Function.Injective jsonText := by
  rw [jsonText_signed]
  apply signed_injective
  exact ⟨⟨'0', rfl, rfl⟩, readDecimal_zero, fun _ _ => bodyText_head, fun _ _ _ => readDecimal_bodyText⟩

/-- The text of `digits * 10 ^ power` in positional form, without its sign. -/
private def positionalText (digits : List Char) (k : Int) : String :=
  if 0 ≤ k then String.ofList digits ++ zeros k else pointed digits ((digits.length : Int) + k)

private theorem displayText_signed : displayText = signed "0" positionalText := by
  funext x
  unfold displayText signed positionalText
  dsimp only
  split <;> rfl

private theorem readDecimal_positionalText {digits : List Char} {k : Int} {q : Nat}
    (hdigits : ∀ c ∈ digits, c.isDigit = true) (hk : k = (q : Int) - decimalScale) :
    readDecimal (positionalText digits k).toList = Nat.ofDigitChars 10 digits 0 * 10 ^ q := by
  unfold positionalText
  split
  · have htext : (String.ofList digits ++ zeros k).toList = digits ++ List.replicate k.toNat '0' := by simp [zeros]
    have hwhole : ∀ c ∈ digits ++ List.replicate k.toNat '0', c.isDigit = true :=
      fun c hc => (List.mem_append.1 hc).elim (hdigits c) (isDigit_of_mem_zeros c)
    have hq : ((decimalScale : Int) + 0).toNat + k.toNat = q := by
      have hscale : decimalScale = 400 := rfl
      omega
    have hcomm : ∀ a b c : Nat, a * b * c = b * (c * a) := fun a b c => by ring
    rw [htext, readDecimal_plain fun c hc => (digit_ne (hwhole c hc)).1, readPointed_whole hwhole, ← hq,
      Nat.ofDigitChars_append, Nat.ofDigitChars_replicate_zero, Nat.pow_add]
    exact hcomm _ _ _
  · obtain ⟨whole, fraction, htext, -, hwhole, hfraction, hvalue, hlength⟩ :=
      pointed_split hdigits (by omega : (digits.length : Int) + k ≤ digits.length)
    rw [htext, readDecimal_plain (pointed_without_e hwhole hfraction), readPointed_at hwhole, hvalue]
    congr 2
    omega

private theorem positionalText_head {digits : List Char} {k : Int} (hdigits : ∀ c ∈ digits, c.isDigit = true)
    (hne : digits ≠ []) : DigitFirst (positionalText digits k).toList := by
  unfold positionalText
  split
  · rw [String.toList_append, String.toList_ofList]
    exact head_of_digits hdigits hne
  · rw [← List.append_nil (pointed digits _).toList]
    exact pointed_head hdigits hne (by omega)

/-- Two numbers with one positional text are one number. -/
theorem displayText_injective : Function.Injective displayText := by
  rw [displayText_signed]
  apply signed_injective
  have hzero : readDecimal "0".toList = 0 := by
    have hvalue : Nat.ofDigitChars 10 "0".toList 0 = 0 := by decide
    rw [readDecimal_plain (forall_mem_eq_false (by decide)), readPointed_whole (List.all_eq_true.1 (by decide)), hvalue,
      Nat.zero_mul]
  exact ⟨⟨'0', rfl, rfl⟩, hzero, fun _ _ => positionalText_head, fun _ _ _ hdigits _ => readDecimal_positionalText hdigits⟩

/-! The characters of a number's text. -/

def isNumberChar (c : Char) : Bool := c.isDigit || c ∈ ['-', '+', '.', 'e']

theorem isNumberChar_of_digit {c : Char} (h : c.isDigit = true) : isNumberChar c = true := by
  rw [isNumberChar, h]
  rfl

private theorem exponentText_chars (n : Int) : ∀ c ∈ (exponentText n).toList, isNumberChar c = true := by
  intro c hc
  have hrepr (m : Nat) (hc : c ∈ m.repr.toList) : isNumberChar c = true := isNumberChar_of_digit (isDigit_of_mem_repr hc)
  rw [exponentText, Int.repr_eq_if] at hc
  split at hc
  · rw [if_neg (by omega), String.toList_append] at hc
    obtain rfl | hc := List.mem_cons.1 hc
    · rfl
    · exact hrepr _ hc
  · rw [if_pos (by omega), String.toList_append] at hc
    obtain rfl | hc := List.mem_cons.1 hc
    · rfl
    · exact hrepr _ hc

private theorem pointed_chars {digits : List Char} {point : Int} (hdigits : ∀ c ∈ digits, c.isDigit = true)
    (hpoint : point ≤ digits.length) :
    (∀ c ∈ (pointed digits point).toList, isNumberChar c = true) ∧ '.' ∈ (pointed digits point).toList := by
  obtain ⟨whole, fraction, htext, -, hwhole, hfraction, -⟩ := pointed_split hdigits hpoint
  rw [htext]
  refine ⟨fun c hc => ?_, by simp⟩
  rcases List.mem_append.1 hc with hc | hc
  · exact isNumberChar_of_digit (hwhole c hc)
  · obtain rfl | hc := List.mem_cons.1 hc
    · rfl
    · exact isNumberChar_of_digit (hfraction c hc)

private theorem bodyText_chars {digits : List Char} {k : Int} (hdigits : ∀ c ∈ digits, c.isDigit = true)
    (hne : digits ≠ []) :
    (∀ c ∈ (bodyText digits k).toList, isNumberChar c = true) ∧
      ('.' ∈ (bodyText digits k).toList ∨ 'e' ∈ (bodyText digits k).toList) := by
  have hlen : 0 < digits.length := List.length_pos_iff.2 hne
  unfold bodyText
  dsimp only
  split
  · refine ⟨?_, Or.inl (by simp)⟩
    simp only [String.toList_append, String.toList_ofList, zeros, List.forall_mem_append]
    exact ⟨⟨fun c hc => isNumberChar_of_digit (hdigits c hc),
      fun c hc => isNumberChar_of_digit (isDigit_of_mem_zeros c hc)⟩, List.all_eq_true.1 (by decide)⟩
  · split
    · obtain ⟨hchars, hpoint⟩ := pointed_chars hdigits (by omega : (digits.length : Int) + k ≤ digits.length)
      exact ⟨hchars, Or.inl hpoint⟩
    · split
      · refine ⟨?_, Or.inr (by simp)⟩
        simp only [String.toList_append, String.toList_ofList, List.forall_mem_append]
        exact ⟨⟨fun c hc => isNumberChar_of_digit (hdigits c hc), List.all_eq_true.1 (by decide)⟩, exponentText_chars _⟩
      · refine ⟨?_, Or.inr (by simp)⟩
        simp only [String.toList_append, List.forall_mem_append]
        exact ⟨⟨(pointed_chars hdigits (by omega)).1, List.all_eq_true.1 (by decide)⟩, exponentText_chars _⟩

/-- A number's text holds digits, signs, points and an `e`, and is not an integer's. -/
theorem jsonText_chars (x : Binary64) :
    (∀ c ∈ (jsonText x).toList, isNumberChar c = true) ∧ ('.' ∈ (jsonText x).toList ∨ 'e' ∈ (jsonText x).toList) := by
  have hsign : ∀ c ∈ (signText x).toList, isNumberChar c = true := by
    unfold signText
    split <;> exact List.all_eq_true.1 (by decide)
  have hbody : (∀ c ∈ (if (shortest x).1 = 0 then "0.0" else
        bodyText (shortest x).1.repr.toList (shortest x).2).toList, isNumberChar c = true) ∧
      ('.' ∈ (if (shortest x).1 = 0 then "0.0" else bodyText (shortest x).1.repr.toList (shortest x).2).toList ∨
        'e' ∈ (if (shortest x).1 = 0 then "0.0" else bodyText (shortest x).1.repr.toList (shortest x).2).toList) := by
    split
    · exact ⟨List.all_eq_true.1 (by decide), by decide⟩
    · exact bodyText_chars (fun c hc => isDigit_of_mem_repr hc) (by rw [Nat.toList_repr]; exact Nat.toDigits_ne_nil)
  rw [jsonText_eq, String.toList_append]
  refine ⟨List.forall_mem_append.2 ⟨hsign, hbody.1⟩, ?_⟩
  exact hbody.2.imp (List.mem_append_right _) (List.mem_append_right _)

/-- A number's text starts with a digit, after its sign. -/
theorem jsonText_head (x : Binary64) : ∃ body, DigitFirst body ∧ (jsonText x).toList = (signText x).toList ++ body := by
  refine ⟨_, ?_, (congrArg String.toList (jsonText_eq x)).trans String.toList_append⟩
  split
  · exact ⟨'0', rfl, rfl⟩
  · exact bodyText_head (fun c hc => isDigit_of_mem_repr hc) (by rw [Nat.toList_repr]; exact Nat.toDigits_ne_nil)

end PactJanus.Lib.Decimal
