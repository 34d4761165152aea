namespace PactJanus.Lib.Base64

def alphabet : List Char :=
  "ABCDEFGHIJKLMNOPQRSTUVWXYZabcdefghijklmnopqrstuvwxyz0123456789+/".toList

/-- The six bits a character of the standard alphabet stands for. -/
def sextet (c : Char) : Option Nat := alphabet.idxOf? c

private def octet (n : Nat) : UInt8 := UInt8.ofNat n

/-- Strict decoding of the standard alphabet: padding is required, and the bits it leaves over are zero. -/
def decodeChars : List Char → Option (List UInt8)
  | [] => some []
  | [a, b, '=', '='] => do
    let a ← sextet a
    let b ← sextet b
    if b % 16 = 0 then some [octet (a * 4 + b / 16)] else none
  | [a, b, c, '='] => do
    let a ← sextet a
    let b ← sextet b
    let c ← sextet c
    if c % 4 = 0 then some [octet (a * 4 + b / 16), octet (b % 16 * 16 + c / 4)] else none
  | a :: b :: c :: d :: rest => do
    let a ← sextet a
    let b ← sextet b
    let c ← sextet c
    let d ← sextet d
    let decoded ← decodeChars rest
    some (octet (a * 4 + b / 16) :: octet (b % 16 * 16 + c / 4) :: octet (c % 4 * 64 + d) :: decoded)
  | _ => none

def decode (text : String) : Option (List UInt8) := decodeChars text.toList

private def symbol (n : Nat) : Char := alphabet.getD n '='

def encodeBytes : List UInt8 → List Char
  | [] => []
  | [x] => [symbol (x.toNat / 4), symbol (x.toNat % 4 * 16), '=', '=']
  | [x, y] =>
    [symbol (x.toNat / 4), symbol (x.toNat % 4 * 16 + y.toNat / 16), symbol (y.toNat % 16 * 4), '=']
  | x :: y :: z :: rest =>
    symbol (x.toNat / 4) :: symbol (x.toNat % 4 * 16 + y.toNat / 16) ::
      symbol (y.toNat % 16 * 4 + z.toNat / 64) :: symbol (z.toNat % 64) :: encodeBytes rest

def encode (bytes : List UInt8) : String := String.ofList (encodeBytes bytes)

private theorem sextet_symbol : ∀ n < 64, sextet (symbol n) = some n := by decide +kernel

private theorem symbol_ne : ∀ n < 64, symbol n ≠ '=' := by decide +kernel

private theorem decodeChars_four {a b c d : Char} (rest : List Char) (hc : c ≠ '=') (hd : d ≠ '=') :
    decodeChars (a :: b :: c :: d :: rest) = (do
      let a ← sextet a
      let b ← sextet b
      let c ← sextet c
      let d ← sextet d
      let decoded ← decodeChars rest
      some (octet (a * 4 + b / 16) :: octet (b % 16 * 16 + c / 4) :: octet (c % 4 * 64 + d) :: decoded)) := by
  rw [decodeChars]
  · intro h
    exact absurd h hc
  · intro h
    exact absurd h hd

private theorem decodeChars_three {a b c : Char} (hc : c ≠ '=') :
    decodeChars [a, b, c, '='] = (do
      let a ← sextet a
      let b ← sextet b
      let c ← sextet c
      if c % 4 = 0 then some [octet (a * 4 + b / 16), octet (b % 16 * 16 + c / 4)] else none) := by
  rw [decodeChars]
  intro h
  exact absurd h hc

theorem decodeChars_encodeBytes (bytes : List UInt8) : decodeChars (encodeBytes bytes) = some bytes := by
  induction bytes using encodeBytes.induct with
  | case1 => rfl
  | case2 x =>
    have hx := x.toNat_lt
    rw [encodeBytes, decodeChars, sextet_symbol _ (by omega), sextet_symbol _ (by omega)]
    have hzero : x.toNat % 4 * 16 % 16 = 0 := by omega
    have hoctet : x.toNat / 4 * 4 + x.toNat % 4 * 16 / 16 = x.toNat := by omega
    simp only [Option.bind_eq_bind, Option.bind_some, hzero, if_true, hoctet, octet, UInt8.ofNat_toNat]
  | case3 x y =>
    have hx := x.toNat_lt
    have hy := y.toNat_lt
    rw [encodeBytes, decodeChars_three (symbol_ne _ (by omega)), sextet_symbol _ (by omega), sextet_symbol _ (by omega),
      sextet_symbol _ (by omega)]
    have hzero : y.toNat % 16 * 4 % 4 = 0 := by omega
    have hfirst : x.toNat / 4 * 4 + (x.toNat % 4 * 16 + y.toNat / 16) / 16 = x.toNat := by omega
    have hsecond : (x.toNat % 4 * 16 + y.toNat / 16) % 16 * 16 + y.toNat % 16 * 4 / 4 = y.toNat := by omega
    simp only [Option.bind_eq_bind, Option.bind_some, hzero, if_true, hfirst, hsecond, octet, UInt8.ofNat_toNat]
  | case4 x y z rest ih =>
    have hx := x.toNat_lt
    have hy := y.toNat_lt
    have hz := z.toNat_lt
    rw [encodeBytes, decodeChars_four _ (symbol_ne _ (by omega)) (symbol_ne _ (by omega)), sextet_symbol _ (by omega),
      sextet_symbol _ (by omega), sextet_symbol _ (by omega), sextet_symbol _ (by omega), ih]
    have hfirst : x.toNat / 4 * 4 + (x.toNat % 4 * 16 + y.toNat / 16) / 16 = x.toNat := by omega
    have hsecond : (x.toNat % 4 * 16 + y.toNat / 16) % 16 * 16 + (y.toNat % 16 * 4 + z.toNat / 64) / 4 = y.toNat := by
      omega
    have hthird : (y.toNat % 16 * 4 + z.toNat / 64) % 4 * 64 + z.toNat % 64 = z.toNat := by omega
    simp only [Option.bind_eq_bind, Option.bind_some, hfirst, hsecond, hthird, octet, UInt8.ofNat_toNat]

/-- Octets written in base64 are read back. -/
theorem decode_encode (bytes : List UInt8) : decode (encode bytes) = some bytes := by
  rw [decode, encode, String.toList_ofList, decodeChars_encodeBytes]

/-- The characters of base64, with what pads it. -/
def isBase64Char (c : Char) : Bool := c.isAlphanum || c ∈ ['+', '/', '=']

private theorem symbol_chars (n : Nat) : isBase64Char (symbol n) = true := by
  have halphabet : ∀ c ∈ alphabet, isBase64Char c = true := List.all_eq_true.1 (by decide +kernel)
  rw [symbol, List.getD_eq_getElem?_getD]
  cases h : alphabet[n]? with
  | none => rfl
  | some c => exact halphabet c (List.mem_of_getElem? h)

private theorem padding_char : isBase64Char '=' = true := rfl

theorem encodeBytes_chars (bytes : List UInt8) : ∀ c ∈ encodeBytes bytes, isBase64Char c = true := by
  fun_induction encodeBytes bytes with
  | case1 => simp
  | case2 x => simp [symbol_chars, padding_char]
  | case3 x y => simp [symbol_chars, padding_char]
  | case4 x y z rest ih => simpa only [List.forall_mem_cons, symbol_chars, true_and] using ih

example : decode "aGVsbG8=" = some [104, 101, 108, 108, 111] := by decide

end PactJanus.Lib.Base64
