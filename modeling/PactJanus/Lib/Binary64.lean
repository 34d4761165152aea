import Mathlib.Algebra.Ring.Nat

namespace PactJanus.Lib.Binary64

/-- A finite binary64 number `± mantissa * 2 ^ exponent / 2 ^ 1074`, in its canonical form. -/
structure Binary64 where
  negative : Bool
  mantissa : Nat
  exponent : Nat
  canonical : mantissa < 2 ^ 53 ∧ exponent ≤ 2045 ∧ (exponent = 0 ∨ 2 ^ 52 ≤ mantissa)
deriving DecidableEq

/-- What two numbers are compared by: the two zeros have the same key. -/
def key (x : Binary64) : Int × Nat :=
  (if x.negative then -(x.mantissa : Int) else x.mantissa, x.exponent)

def zero (negative : Bool) : Binary64 := ⟨negative, 0, 0, by decide⟩

/-- Drops the low `s` bits of `n`, rounding to nearest and ties to even. -/
def roundBits (n s : Nat) : Nat :=
  let q := n / 2 ^ s
  let r := n % 2 ^ s
  if 2 ^ s < 2 * r ∨ (2 * r = 2 ^ s ∧ q % 2 = 1) then q + 1 else q

private theorem roundBits_bounds {n s : Nat} (hlow : 2 ^ 52 * 2 ^ s ≤ n) (hhigh : n < 2 ^ 53 * 2 ^ s) :
    2 ^ 52 ≤ roundBits n s ∧ roundBits n s ≤ 2 ^ 53 := by
  have hs : 0 < 2 ^ s := Nat.two_pow_pos s
  have h1 : 2 ^ 52 ≤ n / 2 ^ s := (Nat.le_div_iff_mul_le hs).2 hlow
  have h2 : n / 2 ^ s < 2 ^ 53 := (Nat.div_lt_iff_lt_mul hs).2 hhigh
  unfold roundBits
  dsimp only
  split <;> omega

/-- `2 ^ s` times the scale of the mantissa, after a rounding that may have carried to `2 ^ 53`. -/
def ofRounded (negative : Bool) (q s : Nat) (hq : 2 ^ 52 ≤ q ∧ q ≤ 2 ^ 53) (hs : s ≤ 2044) : Binary64 :=
  if h : q = 2 ^ 53 then ⟨negative, 2 ^ 52, s + 1, by omega⟩ else ⟨negative, q, s, by omega⟩

/-- The binary64 number nearest to `± n`, ties to even. -/
def ofMagnitude (negative : Bool) (n : Nat) (hn : n < 2 ^ 64) : Binary64 :=
  if h0 : n = 0 then zero negative
  else if hL : n.log2 ≤ 52 then
    ⟨negative, n * 2 ^ (52 - n.log2), 1022 + n.log2, by
      have hlow : 2 ^ n.log2 ≤ n := Nat.log2_self_le h0
      have hhigh : n < 2 ^ (n.log2 + 1) := Nat.lt_log2_self
      have h1 := Nat.mul_le_mul_right (2 ^ (52 - n.log2)) hlow
      have h2 := (Nat.mul_lt_mul_right (Nat.two_pow_pos (52 - n.log2))).2 hhigh
      rw [← Nat.pow_add] at h1 h2
      have e1 : n.log2 + (52 - n.log2) = 52 := by omega
      have e2 : n.log2 + 1 + (52 - n.log2) = 53 := by omega
      rw [e1] at h1
      rw [e2] at h2
      omega⟩
  else
    ofRounded negative (roundBits n (n.log2 - 52)) (1074 + (n.log2 - 52))
      (by
        have hlow : 2 ^ n.log2 ≤ n := Nat.log2_self_le h0
        have hhigh : n < 2 ^ (n.log2 + 1) := Nat.lt_log2_self
        have e1 : n.log2 = 52 + (n.log2 - 52) := by omega
        have e2 : n.log2 + 1 = 53 + (n.log2 - 52) := by omega
        exact roundBits_bounds (by rw [← Nat.pow_add, ← e1]; exact hlow) (by rw [← Nat.pow_add, ← e2]; exact hhigh))
      (by have : n.log2 < 64 := (Nat.log2_lt h0).2 hn
          omega)

/-- The largest integer not above `|x|`. -/
def truncMagnitude (x : Binary64) : Nat := x.mantissa * 2 ^ x.exponent / 2 ^ 1074

/-! The decimal digits of a number: the fewest that read back to it, and the closest such. -/

def decimalScale : Nat := 400

def finestExponent : Nat := 1076

/-- The units of `readBack` in one. -/
def fineness : Nat := 2 ^ finestExponent

/-- The bounds of the decimals that read back to `x`, and `|x|`, in units of `2 ^ -1076`. -/
def readBack (x : Binary64) : Nat × Nat × Nat :=
  let v := 4 * x.mantissa * 2 ^ x.exponent
  let ulp := 2 ^ x.exponent
  let low := if x.mantissa = 2 ^ 52 ∧ 0 < x.exponent then v - ulp else v - 2 * ulp
  (low, v, v + 2 * ulp)

/-- The multiple of `10 ^ (p - 400)` nearest to `|x|` among those that read back to `x`. -/
def digitsAt (x : Binary64) (p : Nat) : Option Nat :=
  let (low, v, high) := readBack x
  let unit := 10 ^ p * fineness
  let scaled (n : Nat) := n * 10 ^ decimalScale
  let inside (d : Nat) : Bool :=
    if x.mantissa % 2 = 0 then scaled low ≤ d * unit ∧ d * unit ≤ scaled high
    else scaled low < d * unit ∧ d * unit < scaled high
  let below := scaled v / unit
  let r := scaled v % unit
  match inside below && below != 0, inside (below + 1) with
  | true, true => some (if unit < 2 * r ∨ (2 * r = unit ∧ below % 2 = 1) then below + 1 else below)
  | true, false => some below
  | false, true => some (below + 1)
  | false, false => none

/-- The first power, from `10 ^ (p - 400)` down, at which `x` has digits, with those digits. -/
def searchDigits (x : Binary64) : Nat → Nat × Int
  | 0 => (0, 0)
  | p + 1 =>
    match digitsAt x p with
    | some d => (d, (p : Int) - decimalScale)
    | none => searchDigits x p

/-- `|x|` as `digits * 10 ^ power`, with the fewest digits. -/
def shortest (x : Binary64) : Nat × Int :=
  if x.mantissa = 0 then (0, 0) else searchDigits x 710

def signText (x : Binary64) : String := if x.negative then "-" else ""

def zeros (n : Int) : String := String.ofList (List.replicate n.toNat '0')

/-- `digits` with a decimal point `point` places from their left, padded with zeros where needed. -/
def pointed (digits : List Char) (point : Int) : String :=
  if point ≤ 0 then "0." ++ zeros (-point) ++ String.ofList digits
  else String.ofList (digits.take point.toNat) ++ "." ++ String.ofList (digits.drop point.toNat)

/-- An exponent with its sign. -/
def exponentText (n : Int) : String := if n < 0 then n.repr else "+" ++ n.repr

/-- The text of a number as a JSON writer prints it: always a fraction or an exponent. -/
def jsonText (x : Binary64) : String :=
  let (d, k) := shortest x
  if d = 0 then signText x ++ "0.0"
  else
    let digits := d.repr.toList
    let point := (digits.length : Int) + k
    signText x ++
      if 0 ≤ k ∧ point ≤ 16 then String.ofList digits ++ zeros k ++ ".0"
      else if -5 < point ∧ point ≤ 16 then pointed digits point
      else
        match digits with
        | [c] => String.ofList [c] ++ "e" ++ exponentText (point - 1)
        | _ => pointed digits 1 ++ "e" ++ exponentText (point - 1)

/-- The text of a number in positional form: no exponent, and no fraction when it has none. -/
def displayText (x : Binary64) : String :=
  let (d, k) := shortest x
  if d = 0 then signText x ++ "0"
  else
    let digits := d.repr.toList
    signText x ++ if 0 ≤ k then String.ofList digits ++ zeros k else pointed digits ((digits.length : Int) + k)

end PactJanus.Lib.Binary64
