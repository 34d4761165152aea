import Mathlib.Data.List.Basic

namespace PactJanus.Lib.Utf8

/-! Octets read as text, what is no character in them replaced. -/

def encode (cs : List Char) : List UInt8 := cs.flatMap String.utf8EncodeChar

def bytes (s : String) : List UInt8 := encode s.toList

def isContinuation (b : UInt8) : Bool := 0x80 ≤ b && b ≤ 0xBF

/-- Whether an octet may be the second of a character of three or four. -/
def mayFollow (first second : UInt8) : Bool :=
  if first = 0xE0 then 0xA0 ≤ second && second ≤ 0xBF
  else if first = 0xED then 0x80 ≤ second && second ≤ 0x9F
  else if first = 0xF0 then 0x90 ≤ second && second ≤ 0xBF
  else if first = 0xF4 then 0x80 ≤ second && second ≤ 0x8F
  else 0xE1 ≤ first && first ≤ 0xF3 && isContinuation second

/-- How many octets are replaced together: those that could begin a character, one at least. -/
def malformed : List UInt8 → Nat
  | first :: second :: rest =>
    if mayFollow first second then if 0xF0 ≤ first && rest.head?.any isContinuation then 3 else 2 else 1
  | _ => 1

def first? (octets : List UInt8) : Option Char := octets.toByteArray.utf8DecodeChar? 0

theorem one_le_malformed (octets : List UInt8) : 1 ≤ malformed octets := by
  unfold malformed
  repeat' split
  all_goals omega

def lossyChars : List UInt8 → List Char
  | [] => []
  | b :: rest =>
    match first? (b :: rest) with
    | some c => c :: lossyChars (rest.drop (c.utf8Size - 1))
    | none => '\uFFFD' :: lossyChars (rest.drop (malformed (b :: rest) - 1))
termination_by octets => octets.length
decreasing_by all_goals simp only [List.length_drop, List.length_cons]; omega

def lossy (octets : List UInt8) : String := String.ofList (lossyChars octets)

/-- Octets as the text they are, if they are one. -/
def decodeChars : List UInt8 → Option (List Char)
  | [] => some []
  | b :: rest => (first? (b :: rest)).bind fun c => (decodeChars (rest.drop (c.utf8Size - 1))).map (c :: ·)
termination_by octets => octets.length
decreasing_by simp only [List.length_drop, List.length_cons]; omega

def decode (octets : List UInt8) : Option String := (decodeChars octets).map String.ofList

theorem first?_append (c : Char) (rest : List UInt8) : first? (String.utf8EncodeChar c ++ rest) = some c := by
  rw [first?, List.toByteArray_append]
  exact ByteArray.utf8DecodeChar?_utf8EncodeChar_append

theorem exists_of_first? {octets : List UInt8} {c : Char} (h : first? octets = some c) :
    ∃ rest, octets = String.utf8EncodeChar c ++ rest := by
  obtain ⟨rest, hrest⟩ := ByteArray.exists_of_utf8DecodeChar?_eq_some h
  refine ⟨rest.data.toList, ?_⟩
  have hdata := congrArg (fun b : ByteArray => b.data.toList) hrest
  simpa using hdata

theorem lossyChars_append (c : Char) (rest : List UInt8) :
    lossyChars (String.utf8EncodeChar c ++ rest) = c :: lossyChars rest := by
  have hlength := String.length_utf8EncodeChar c
  have hfirst := first?_append c rest
  have hrest : (String.utf8EncodeChar c ++ rest).drop c.utf8Size = rest := by rw [← hlength, List.drop_left]
  obtain ⟨b, bs, hencode⟩ := List.exists_cons_of_ne_nil (l := String.utf8EncodeChar c)
    (List.ne_nil_of_length_pos (by rw [hlength]; exact c.utf8Size_pos))
  rw [hencode] at hfirst hrest ⊢
  rw [List.cons_append] at hfirst hrest ⊢
  obtain ⟨n, hn⟩ : ∃ n, c.utf8Size = n + 1 := ⟨c.utf8Size - 1, by have := c.utf8Size_pos; omega⟩
  rw [hn, List.drop_succ_cons] at hrest
  rw [lossyChars, hfirst]
  simp only [hn, Nat.add_sub_cancel, hrest]

/-- Text written as octets and read back is the text. -/
theorem lossyChars_encode (cs : List Char) : lossyChars (encode cs) = cs := by
  induction cs with
  | nil => rw [encode, List.flatMap_nil, lossyChars]
  | cons c rest ih => rw [encode, List.flatMap_cons, lossyChars_append, ← encode, ih]

theorem encode_of_decodeChars {octets : List UInt8} {cs : List Char} (h : decodeChars octets = some cs) :
    encode cs = octets := by
  induction octets using decodeChars.induct generalizing cs with
  | case1 =>
    rw [decodeChars] at h
    rw [← Option.some.inj h]
    rfl
  | case2 b rest ih =>
    rw [decodeChars] at h
    obtain ⟨c, hc, hmap⟩ := Option.bind_eq_some_iff.1 h
    obtain ⟨others, hothers, rfl⟩ := Option.map_eq_some_iff.1 hmap
    obtain ⟨tail, htail⟩ := exists_of_first? hc
    have hdrop : (b :: rest).drop c.utf8Size = tail := by
      rw [htail, ← String.length_utf8EncodeChar c, List.drop_left]
    obtain ⟨n, hn⟩ : ∃ n, c.utf8Size = n + 1 := ⟨c.utf8Size - 1, by have := c.utf8Size_pos; omega⟩
    rw [hn, List.drop_succ_cons] at hdrop
    have hrest := ih c hothers
    rw [hn, Nat.add_sub_cancel, hdrop] at hrest
    rw [encode, List.flatMap_cons, ← encode, hrest, ← htail]

/-- Octets that are a text are the text's. -/
theorem bytes_of_decode {octets : List UInt8} {s : String} (h : decode octets = some s) : bytes s = octets := by
  obtain ⟨cs, hcs, rfl⟩ := Option.map_eq_some_iff.1 h
  rw [bytes, String.toList_ofList]
  exact encode_of_decodeChars hcs

theorem bytes_append (s t : String) : bytes (s ++ t) = bytes s ++ bytes t := by
  rw [bytes, String.toList_append, encode, List.flatMap_append]
  rfl

theorem lossy_bytes (s : String) : lossy (bytes s) = s := by
  rw [lossy, bytes, lossyChars_encode, String.ofList_toList]

/-- The octets of what is read are those that were there and the replacement's. -/
theorem mem_bytes_lossy {octets : List UInt8} {b : UInt8} (h : b ∈ bytes (lossy octets)) :
    b ∈ octets ∨ b ∈ String.utf8EncodeChar '\uFFFD' := by
  rw [bytes, lossy, String.toList_ofList] at h
  induction octets using lossyChars.induct with
  | case1 => simp [lossyChars, encode] at h
  | case2 first rest c hc ih =>
    rw [lossyChars, hc] at h
    rcases List.mem_append.1 h with hb | hb
    · obtain ⟨tail, htail⟩ := exists_of_first? hc
      exact .inl (htail ▸ List.mem_append_left tail hb)
    · exact (ih hb).imp_left fun hmem => List.mem_cons_of_mem _ (List.mem_of_mem_drop hmem)
  | case3 first rest hnone ih =>
    rw [lossyChars, hnone] at h
    rcases List.mem_append.1 h with hb | hb
    · exact .inr hb
    · exact (ih hb).imp_left fun hmem => List.mem_cons_of_mem _ (List.mem_of_mem_drop hmem)

/-! Octets below 128 stand alone. -/

theorem utf8EncodeChar_of_mem {b : UInt8} {c : Char} (h : b ∈ String.utf8EncodeChar c) (hb : b < 0x80) :
    String.utf8EncodeChar c = [b] ∧ c.toNat = b.toNat := by
  have hsmall : b.toNat < 128 := UInt8.lt_iff_toNat_lt.1 hb
  have hnot : ∀ n, 128 ≤ n → n < 256 → b ≠ UInt8.ofNat n := by
    rintro n hlow hhigh rfl
    rw [UInt8.toNat_ofNat'] at hsmall
    omega
  unfold String.utf8EncodeChar at h ⊢
  dsimp only at h ⊢
  split at h
  · rename_i hv
    rw [if_pos hv]
    obtain rfl := List.mem_singleton.1 h
    refine ⟨rfl, ?_⟩
    change c.val.toNat = _
    rw [UInt8.toNat_ofNat']
    omega
  · exfalso
    split at h
    · rename_i hv
      simp only [List.mem_cons, List.not_mem_nil, or_false] at h
      rcases h with h | h
      · exact hnot _ (by omega) (by omega) h
      · exact hnot _ (by omega) (by omega) h
    · split at h
      · simp only [List.mem_cons, List.not_mem_nil, or_false] at h
        rcases h with h | h | h
        · exact hnot _ (by omega) (by omega) h
        · exact hnot _ (by omega) (by omega) h
        · exact hnot _ (by omega) (by omega) h
      · simp only [List.mem_cons, List.not_mem_nil, or_false] at h
        rcases h with h | h | h | h
        · exact hnot _ (by omega) (by omega) h
        · exact hnot _ (by omega) (by omega) h
        · exact hnot _ (by omega) (by omega) h
        · exact hnot _ (by omega) (by omega) h

/-- Octets below 128 in a text are characters of it. -/
theorem mem_toList_of_mem_bytes {s : String} {b : UInt8} (h : b ∈ bytes s) (hb : b < 0x80) :
    ∃ c ∈ s.toList, c.toNat = b.toNat := by
  obtain ⟨c, hc, hmem⟩ := List.mem_flatMap.1 h
  exact ⟨c, hc, (utf8EncodeChar_of_mem hmem hb).2⟩

example : lossy [0x61, 0xE2, 0x82, 0x62, 0xFF] = "a\uFFFDb\uFFFD" := by
  decide +kernel

end PactJanus.Lib.Utf8
