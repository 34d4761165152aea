import PactJanus.Lib.Regex
import PactJanus.Plan.Interpret

namespace PactJanus.Legacy.TextPatterns

open PactJanus.Data.Json PactJanus.Lib.Regex PactJanus.Lib.Text PactJanus.Plan.Model PactJanus.Plan.Value
  PactJanus.Plan.Result PactJanus.Plan.Legacy PactJanus.Plan.Interpret

/-! The patterns an upgrade writes for the number and boolean rules on a text. -/

def integerText : String := "^\\+?[0-9]+$"

def numberText : String := "^[+-]?(?:(?i:inf|infinity|nan)|(?:[0-9]+\\.?[0-9]*|\\.[0-9]+)(?:[eE][+-]?[0-9]+)?)$"

def booleanText : String := "^(?:true|false)$"

/-- A matching rule that reads a text. -/
inductive TextRule where
  | number | integer | decimal | boolean
deriving DecidableEq

/-- The pattern a number or boolean rule on text becomes. -/
def textPattern : TextRule → String
  | .integer => integerText
  | .number => numberText
  | .decimal => numberText
  | .boolean => booleanText

/-- The kind `legacy:parses-as` is given for the rule. -/
def kindName : TextRule → String
  | .number => "number"
  | .integer => "integer"
  | .decimal => "decimal"
  | .boolean => "boolean"

/-! The patterns as regular expressions. -/

def digit : Pattern := .oneOf [('0', '9')]

def sign : Pattern := .oneOf [('+', '+'), ('-', '-')]

def integerPattern : Pattern := .cat (.opt (.lit ['+'])) (.plus digit)

def specialPattern : Pattern := .anyCase (.alt (.lit ['i', 'n', 'f']) (.alt (.lit ['i', 'n', 'f', 'i', 'n', 'i', 't', 'y']) (.lit ['n', 'a', 'n'])))

def mantissaPattern : Pattern :=
  .alt (.cat (.plus digit) (.cat (.opt (.lit ['.'])) (.star digit))) (.cat (.lit ['.']) (.plus digit))

def exponentPattern : Pattern := .cat (.oneOf [('e', 'e'), ('E', 'E')]) (.cat (.opt sign) (.plus digit))

def numberPattern : Pattern :=
  .cat (.opt sign)
    (.group (.alt specialPattern (.cat (.group mantissaPattern) (.opt (.group exponentPattern)))))

def booleanPattern : Pattern := .group (.alt (.lit ['t', 'r', 'u', 'e']) (.lit ['f', 'a', 'l', 's', 'e']))

def patternOf : TextRule → Pattern
  | .integer => integerPattern
  | .number => numberPattern
  | .decimal => numberPattern
  | .boolean => booleanPattern

theorem whole_patternOf (rule : TextRule) : whole (patternOf rule) = textPattern rule := by
  cases rule <;> rfl

/-! What a text parses as, and the language of its pattern. -/

private theorem within_digit (c : Char) : within [('0', '9')] c = c.isDigit := by
  simp [within, Char.isDigit, Char.le_def]

private theorem within_pair {a b c : Char} : within [(a, a), (b, b)] c = true ↔ c = a ∨ c = b := by
  simp only [within, List.any_cons, List.any_nil, Bool.or_false, Bool.or_eq_true, Bool.and_eq_true, decide_eq_true_eq]
  rw [← le_antisymm_iff, ← le_antisymm_iff, eq_comm, @eq_comm _ b]

private theorem mem_digits {w : List Char} : w ∈ language (.plus digit) ↔ w ≠ [] ∧ ∀ c ∈ w, c.isDigit = true := by
  simp only [digit, mem_plus_oneOf, within_digit]

private theorem mem_digits_star {w : List Char} : w ∈ language (.star digit) ↔ ∀ c ∈ w, c.isDigit = true := by
  simp only [digit, mem_star_oneOf, within_digit]

/-- A text with an optional sign is of a pattern no text of which begins with a sign. -/
private theorem mem_signed {p : Pattern} {w : List Char}
    (h : ∀ c rest, c :: rest ∈ language p → c ≠ '+' ∧ c ≠ '-') :
    w ∈ language (.cat (.opt sign) p) ↔ dropSign w ∈ language p := by
  constructor
  · intro hw
    obtain ⟨a, ha, b, hb, rfl⟩ := mem_cat.1 hw
    rcases mem_opt.1 ha with rfl | ha
    · cases b with
      | nil => exact hb
      | cons c rest =>
        obtain ⟨hplus, hminus⟩ := h c rest hb
        rw [List.nil_append, dropSign]
        · exact hb
        · rintro rest' heq
          exact hplus (List.cons.inj heq).1
        · rintro rest' heq
          exact hminus (List.cons.inj heq).1
    · obtain ⟨c, hc, rfl⟩ := mem_oneOf.1 ha
      rcases within_pair.1 hc with rfl | rfl
      · exact hb
      · exact hb
  · intro hw
    unfold dropSign at hw
    split at hw
    · rename_i rest
      exact ⟨['+'], Or.inr ⟨'+', within_pair.2 (Or.inl rfl), rfl⟩, rest, hw, rfl⟩
    · rename_i rest
      exact ⟨['-'], Or.inr ⟨'-', within_pair.2 (Or.inr rfl), rfl⟩, rest, hw, rfl⟩
    · exact ⟨[], Or.inl rfl, _, hw, rfl⟩

/-- Digits around at most one point, at least one of them. -/
private theorem mem_mantissa {w : List Char} : w ∈ language mantissaPattern ↔ isDecimal w = true := by
  have hpoint {c : Char} (h : c.isDigit = true) : (c == '.') = false := by
    rw [beq_eq_false_iff_ne]
    rintro rfl
    exact absurd h (by decide)
  constructor
  · intro hw
    rcases mem_alt.1 hw with hw | hw
    · obtain ⟨whole, hwhole, rest, hrest, rfl⟩ := mem_cat.1 hw
      obtain ⟨point, hp, fraction, hf, rfl⟩ := mem_cat.1 hrest
      obtain ⟨hne, hwhole⟩ := mem_digits.1 hwhole
      have hf := mem_digits_star.1 hf
      rcases mem_opt.1 hp with rfl | hp
      · have hall : ∀ c ∈ whole ++ ([] ++ fraction), c.isDigit = true :=
          List.forall_mem_append.2 ⟨hwhole, hf⟩
        rw [isDecimal, splitOnceBy_none fun c hc => hpoint (hall c hc)]
        simp only [Bool.and_eq_true, List.all_eq_true]
        exact ⟨by simp [hne], hall⟩
      · obtain rfl := mem_lit.1 hp
        rw [isDecimal, List.singleton_append, splitOnceBy_append (fun c hc => hpoint (hwhole c hc)) (by decide)]
        simp only [Bool.and_eq_true, List.all_eq_true]
        exact ⟨List.forall_mem_append.2 ⟨hwhole, hf⟩, by simp [hne]⟩
    · obtain ⟨point, hp, fraction, hf, rfl⟩ := mem_cat.1 hw
      obtain ⟨hne, hf⟩ := mem_digits.1 hf
      obtain rfl := mem_lit.1 hp
      have hsplit : splitOnceBy (· == '.') ([] ++ '.' :: fraction) = some ([], fraction) :=
        splitOnceBy_append (List.forall_mem_nil _) (by decide)
      rw [isDecimal, List.singleton_append, ← List.nil_append ('.' :: fraction), hsplit]
      simp only [Bool.and_eq_true, List.all_eq_true]
      exact ⟨hf, by simp [hne]⟩
  · intro hw
    rcases splitOnceBy_cases (· == '.') w with hnone | ⟨whole, c, fraction, rfl, hc, hwhole⟩
    · rw [isDecimal, splitOnceBy_none hnone] at hw
      simp only [Bool.and_eq_true, List.all_eq_true] at hw
      refine mem_alt.2 (Or.inl (mem_cat.2 ⟨w, mem_digits.2 ⟨by simpa using hw.1, hw.2⟩, [], ?_, List.append_nil w⟩))
      exact mem_cat.2 ⟨[], mem_opt.2 (Or.inl rfl), [], mem_digits_star.2 (List.forall_mem_nil _), rfl⟩
    · obtain rfl : c = '.' := beq_iff_eq.1 hc
      rw [isDecimal, splitOnceBy_append hwhole hc] at hw
      simp only [Bool.and_eq_true, List.all_eq_true] at hw
      obtain ⟨hwhole, hfraction⟩ := List.forall_mem_append.1 hw.1
      by_cases hempty : whole = []
      · subst hempty
        refine mem_alt.2 (Or.inr (mem_cat.2 ⟨['.'], rfl, fraction, mem_digits.2 ⟨?_, hfraction⟩, rfl⟩))
        simpa using hw.2
      · refine mem_alt.2 (Or.inl (mem_cat.2 ⟨whole, mem_digits.2 ⟨hempty, hwhole⟩, '.' :: fraction, ?_, rfl⟩))
        exact mem_cat.2 ⟨['.'], mem_opt.2 (Or.inr rfl), fraction, mem_digits_star.2 hfraction, rfl⟩

private theorem isDigit_bounds {c : Char} (h : c.isDigit = true) : 48 ≤ c.val.toNat ∧ c.val.toNat ≤ 57 := by
  simp only [Char.isDigit, Bool.and_eq_true, decide_eq_true_eq] at h
  exact ⟨UInt32.le_iff_toNat_le.1 h.1, UInt32.le_iff_toNat_le.1 h.2⟩

/-- What is no letter in lower case was no letter. -/
private theorem eq_of_toLower {c : Char} (h : c.toLower.val.toNat < 97) : c.toLower = c := by
  delta Char.toLower at h ⊢
  split
  · rename_i hupper
    rw [dif_pos hupper] at h
    have hlow : 65 ≤ c.val.toNat := UInt32.le_iff_toNat_le.1 hupper.1
    have hhigh : c.val.toNat ≤ 90 := UInt32.le_iff_toNat_le.1 hupper.2
    have hsum : (c.val + 32).toNat < 97 := h
    rw [UInt32.toNat_add, show (32 : UInt32).toNat = 32 from rfl] at hsum
    omega
  · rfl

/-- A digit, a point or a sign. -/
private def Unlettered (c : Char) : Prop := c.isDigit = true ∨ c = '.' ∨ c = '+' ∨ c = '-'

private theorem toLower_unlettered {c : Char} (h : Unlettered c) : c.toLower = c := by
  rcases h with h | rfl | rfl | rfl
  · obtain ⟨-, hhigh⟩ := isDigit_bounds h
    delta Char.toLower
    rw [dif_neg]
    rintro ⟨hupper, -⟩
    have hlow : 65 ≤ c.val.toNat := UInt32.le_iff_toNat_le.1 hupper
    omega
  all_goals rfl

private theorem of_toLower_unlettered {c : Char} (h : Unlettered c.toLower) : c.toLower = c := by
  apply eq_of_toLower
  rcases h with h | h | h | h
  · have := isDigit_bounds h
    omega
  all_goals rw [h]; decide

private theorem map_unlettered {w : List Char} (h : ∀ c ∈ w, Unlettered c) : w.map Char.toLower = w :=
  (List.map_congr_left fun c hc => toLower_unlettered (h c hc)).trans (List.map_id w)

private theorem of_map_unlettered {w : List Char} (h : ∀ c ∈ w.map Char.toLower, Unlettered c) :
    w.map Char.toLower = w :=
  (List.map_congr_left fun _ hc => of_toLower_unlettered (h _ (List.mem_map_of_mem hc))).trans (List.map_id w)

private theorem isDecimal_chars {w : List Char} (h : isDecimal w = true) : ∀ c ∈ w, c.isDigit = true ∨ c = '.' := by
  intro c hc
  rcases splitOnceBy_cases (· == '.') w with hnone | ⟨whole, point, fraction, rfl, hpoint, hwhole⟩
  · rw [isDecimal, splitOnceBy_none hnone, Bool.and_eq_true, List.all_eq_true] at h
    exact Or.inl (h.2 c hc)
  · rw [isDecimal, splitOnceBy_append hwhole hpoint, Bool.and_eq_true, List.all_eq_true] at h
    obtain ⟨hw, hf⟩ := List.forall_mem_append.1 h.1
    rcases List.mem_append.1 hc with hc | hc
    · exact Or.inl (hw c hc)
    · rcases List.mem_cons.1 hc with rfl | hc
      · exact Or.inr (beq_iff_eq.1 hpoint)
      · exact Or.inl (hf c hc)

private theorem unlettered_of_isDecimal {w : List Char} (h : isDecimal w = true) : ∀ c ∈ w, Unlettered c :=
  fun c hc => (isDecimal_chars h c hc).imp_right Or.inl

private theorem unlettered_of_dropSign {w : List Char} (h : ∀ c ∈ dropSign w, c.isDigit = true) :
    ∀ c ∈ w, Unlettered c := by
  unfold dropSign at h
  split at h
  · exact List.forall_mem_cons.2 ⟨Or.inr (Or.inr (Or.inl rfl)), fun c hc => Or.inl (h c hc)⟩
  · exact List.forall_mem_cons.2 ⟨Or.inr (Or.inr (Or.inr rfl)), fun c hc => Or.inl (h c hc)⟩
  · exact fun c hc => Or.inl (h c hc)

private theorem not_e_of_unlettered {c : Char} (h : Unlettered c) : (c == 'e') = false := by
  rw [beq_eq_false_iff_ne]
  rintro rfl
  rcases h with h | h | h | h <;> exact absurd h (by decide)

/-- The part of a number after its sign, in lower case. -/
private def isUnsigned (cs : List Char) : Bool :=
  match splitOnceBy (· == 'e') cs with
  | none => isDecimal cs
  | some (mantissa, exponent) =>
    isDecimal mantissa && !(dropSign exponent).isEmpty && (dropSign exponent).all Char.isDigit

private theorem mem_exponent_digits {w : List Char} :
    w ∈ language (.cat (.opt sign) (.plus digit)) ↔ dropSign w ≠ [] ∧ ∀ c ∈ dropSign w, c.isDigit = true := by
  rw [mem_signed, mem_digits]
  intro c rest h
  have hc := (mem_digits.1 h).2 c List.mem_cons_self
  exact ⟨by rintro rfl; exact absurd hc (by decide), by rintro rfl; exact absurd hc (by decide)⟩

private theorem toLower_eq_e {c : Char} : c.toLower = 'e' ↔ c = 'e' ∨ c = 'E' := by
  constructor
  · intro h
    change dite _ _ _ = 'e' at h
    split at h
    · rename_i hupper
      right
      have hval : c.val + 32 = 101 := congrArg Char.val h
      apply Char.ext
      have := congrArg UInt32.toNat hval
      rw [UInt32.toNat_add, show (32 : UInt32).toNat = 32 from rfl, show (101 : UInt32).toNat = 101 from rfl] at this
      have hhigh : c.val.toNat ≤ 90 := UInt32.le_iff_toNat_le.1 hupper.2
      apply UInt32.toNat_inj.1
      rw [show ('E' : Char).val.toNat = 69 from rfl]
      omega
    · exact Or.inl h
  · rintro (rfl | rfl) <;> rfl

/-- A mantissa with an optional exponent. -/
private theorem mem_unsigned {w : List Char} :
    w ∈ language (.cat (.group mantissaPattern) (.opt (.group exponentPattern))) ↔
      isUnsigned (w.map Char.toLower) = true := by
  constructor
  · intro hw
    obtain ⟨mantissa, hm, exponent, he, rfl⟩ := mem_cat.1 hw
    have hm := mem_mantissa.1 (mem_group.1 hm)
    have hplain := unlettered_of_isDecimal hm
    have hno : ∀ c ∈ mantissa, (c == 'e') = false := fun c hc => not_e_of_unlettered (hplain c hc)
    rcases mem_opt.1 he with rfl | he
    · rw [List.append_nil, map_unlettered hplain, isUnsigned, splitOnceBy_none hno]
      exact hm
    · obtain ⟨e, hletter, digits, hdigits, rfl⟩ := mem_cat.1 (mem_group.1 he)
      obtain ⟨c, hc, rfl⟩ := mem_oneOf.1 hletter
      obtain ⟨hne, hall⟩ := mem_exponent_digits.1 hdigits
      have hlower : c.toLower = 'e' := toLower_eq_e.2 (within_pair.1 hc)
      rw [List.map_append, List.singleton_append, List.map_cons, hlower, map_unlettered hplain,
        map_unlettered (unlettered_of_dropSign hall), isUnsigned, splitOnceBy_append hno rfl]
      simp only [Bool.and_eq_true, List.all_eq_true]
      exact ⟨⟨hm, by simpa using hne⟩, hall⟩
  · intro hw
    rcases splitOnceBy_cases (· == 'e') (w.map Char.toLower) with hnone | ⟨mantissa, e, exponent, heq, he, hno⟩
    · rw [isUnsigned, splitOnceBy_none hnone] at hw
      rw [of_map_unlettered (unlettered_of_isDecimal hw)] at hw
      exact mem_cat.2 ⟨w, mem_mantissa.2 hw, [], mem_opt.2 (Or.inl rfl), List.append_nil w⟩
    · rw [heq, isUnsigned, splitOnceBy_append hno he] at hw
      simp only [Bool.and_eq_true, List.all_eq_true] at hw
      obtain ⟨⟨hm, hne⟩, hall⟩ := hw
      obtain ⟨mantissa, rest, rfl, rfl, hrest⟩ := List.map_eq_append_iff.1 heq
      obtain ⟨c, exponent, rfl, rfl, rfl⟩ := List.map_eq_cons_iff.1 hrest
      rw [of_map_unlettered (unlettered_of_isDecimal hm)] at hm
      rw [of_map_unlettered (unlettered_of_dropSign hall)] at hne hall
      refine mem_cat.2 ⟨mantissa, mem_mantissa.2 hm, c :: exponent, mem_opt.2 (Or.inr ?_), rfl⟩
      have hc := within_pair.2 (toLower_eq_e.1 (beq_iff_eq.1 he))
      exact mem_cat.2 ⟨[c], mem_oneOf.2 ⟨c, hc, rfl⟩, exponent, mem_exponent_digits.2 ⟨by simpa using hne, hall⟩, rfl⟩

private theorem mem_special {w : List Char} :
    w ∈ language specialPattern ↔ String.ofList (w.map Char.toLower) ∈ ["inf", "infinity", "nan"] := by
  have hlower (word : String) (h : word.toList.map Char.toLower = word.toList) :
      w.map Char.toLower = word.toList.map Char.toLower ↔ String.ofList (w.map Char.toLower) = word := by
    rw [h, ← String.toList_inj, String.toList_ofList]
  simp only [List.mem_cons, List.not_mem_nil, or_false]
  rw [← hlower "inf" rfl, ← hlower "infinity" rfl, ← hlower "nan" rfl, specialPattern, mem_anyCase]
  constructor
  · rintro ⟨v, hv, heq⟩
    rcases mem_alt.1 hv with rfl | hv
    · exact Or.inl heq
    · rcases mem_alt.1 hv with rfl | rfl
      · exact Or.inr (Or.inl heq)
      · exact Or.inr (Or.inr heq)
  · rintro (h | h | h)
    · exact ⟨_, mem_alt.2 (Or.inl rfl), h⟩
    · exact ⟨_, mem_alt.2 (Or.inr (mem_alt.2 (Or.inl rfl))), h⟩
    · exact ⟨_, mem_alt.2 (Or.inr (mem_alt.2 (Or.inr rfl))), h⟩

private theorem unsigned_head {c : Char} {rest : List Char}
    (h : c :: rest ∈ language (.cat (.group mantissaPattern) (.opt (.group exponentPattern)))) :
    c.isDigit = true ∨ c = '.' := by
  obtain ⟨mantissa, hm, exponent, -, heq⟩ := mem_cat.1 h
  have hm := mem_mantissa.1 (mem_group.1 hm)
  cases mantissa with
  | nil => exact absurd hm (by decide)
  | cons d digits =>
    obtain rfl := (List.cons.inj heq).1
    exact isDecimal_chars hm d List.mem_cons_self

/-- The number pattern is of the texts a floating-point number parses from. -/
theorem mem_numberPattern (s : String) : s.toList ∈ language numberPattern ↔ isFloatText s = true := by
  rw [numberPattern, mem_signed]
  · rw [mem_group, mem_alt, mem_special, mem_unsigned, isFloatText, Bool.or_eq_true, decide_eq_true_eq]
    rfl
  · intro c rest h
    rcases mem_alt.1 (mem_group.1 h) with h | h
    · have hspecial := mem_special.1 h
      constructor <;> rintro rfl <;> simp [← String.toList_inj] at hspecial
    · have hhead := unsigned_head h
      constructor <;> rintro rfl <;> exact absurd hhead (by decide)

theorem mem_booleanPattern (s : String) : s.toList ∈ language booleanPattern ↔ (s == "true" || s == "false") = true := by
  rw [booleanPattern, mem_group, mem_alt, mem_lit, mem_lit, Bool.or_eq_true, beq_iff_eq, beq_iff_eq, ← String.toList_inj,
    ← String.toList_inj]
  rfl

/-- A text of decimal digits without the plus sign it may begin with. -/
def dropPlus : List Char → List Char
  | '+' :: rest => rest
  | cs => cs

/-- A text of decimal digits, with or without a plus sign, of a number beyond 64 bits. -/
def TooLarge (s : String) : Prop := ∃ n, digitsValue 0 (dropPlus s.toList) = some n ∧ 2 ^ 64 ≤ n

private theorem mem_integerPattern_iff {w : List Char} :
    w ∈ language integerPattern ↔ dropPlus w ≠ [] ∧ ∀ c ∈ dropPlus w, c.isDigit = true := by
  rw [integerPattern, ← mem_digits]
  constructor
  · intro hw
    obtain ⟨a, ha, b, hb, rfl⟩ := mem_cat.1 hw
    rcases mem_opt.1 ha with rfl | rfl
    · rw [List.nil_append, dropPlus]
      · exact hb
      · rintro rest rfl
        exact absurd ((mem_digits.1 hb).2 '+' List.mem_cons_self) (by decide)
    · exact hb
  · intro hw
    unfold dropPlus at hw
    split at hw
    · exact mem_cat.2 ⟨['+'], Or.inr rfl, _, hw, rfl⟩
    · exact mem_cat.2 ⟨[], Or.inl rfl, _, hw, rfl⟩

private theorem digits_bounded (digits : List Char) :
    (match digits with
      | [] => none
      | _ => (digitsValue 0 digits).filter (· < 2 ^ 64)) =
      if digits = [] then none else (digitsValue 0 digits).filter (· < 2 ^ 64) := by
  cases digits with
  | nil => rfl
  | cons c rest => rw [if_neg (List.cons_ne_nil c rest)]

private theorem parseUnsigned_eq (w : List Char) :
    parseUnsigned w = if dropPlus w = [] then none else (digitsValue 0 (dropPlus w)).filter (· < 2 ^ 64) := by
  fun_cases dropPlus w with
  | case1 rest => exact digits_bounded rest
  | case2 =>
    rename_i hno
    rw [← digits_bounded]
    unfold parseUnsigned
    split
    · exact (hno _ rfl).elim
    · rfl

/-- The integer pattern is of the texts an unsigned integer parses from, and of those too large for 64 bits. -/
theorem mem_integerPattern (s : String) (h : ¬ TooLarge s) :
    s.toList ∈ language integerPattern ↔ (parseUnsigned s.toList).isSome = true := by
  rw [mem_integerPattern_iff, parseUnsigned_eq]
  by_cases hempty : dropPlus s.toList = []
  · simp [hempty]
  · rw [if_neg hempty, ← digitsValue_isSome_iff 0]
    cases hvalue : digitsValue 0 (dropPlus s.toList) with
    | none => simp
    | some n =>
      have hsmall : n < 2 ^ 64 := not_le.1 fun hle => h ⟨n, hvalue, hle⟩
      simpa [hempty] using hsmall

/-! The rule's two readings, as actions of a plan. -/

/-- The regular-expression engine reads a pattern written to match a whole text as what it is. -/
def Reads (libraries : Libraries) (p : Pattern) : Prop :=
  ∀ s, ∃ found, libraries.regexMatch (whole p) s = .ok found ∧ (found = true ↔ s.toList ∈ language p)

/-- An action over a text and a text of the plan's. -/
def asked (name s argument : String) : Node :=
  .action name [.value (Literal.string s), .value (Literal.string argument)]

def Accepts (ctx : Ctx) (node : Node) : Prop := resultOf (run node ctx) = some (.value (.bool true))

variable {ctx : Ctx}

private theorem matchRegex_true {libraries : Libraries} {es : List Executed} {s pattern : String}
    (hs : valueAt es 0 = .string s) (hp : valueAt es 1 = .string pattern) :
    matchRegex libraries es = .value (.bool true) ↔ libraries.regexMatch pattern s = .ok true := by
  unfold matchRegex
  rw [hs, hp]
  simp only [asMatchableText, asText, plainText]
  cases libraries.regexMatch pattern s with
  | error err => simp [failed]
  | ok found => cases found <;> simp [failed]

private theorem accepts_matches {p : Pattern} (h : Reads ctx.libraries p) (s : String) :
    Accepts ctx (asked "match:regex" s (whole p)) ↔ s.toList ∈ language p := by
  obtain ⟨found, hfound, hiff⟩ := h s
  have hrun : Accepts ctx (asked "match:regex" s (whole p)) ↔
      matchRegex ctx.libraries (runAll [.value (Literal.string s), .value (Literal.string (whole p))] ctx) =
        .value (.bool true) := Option.some_inj
  rw [hrun, matchRegex_true rfl rfl, hfound, ← hiff, Except.ok.injEq]

/-- What a text must be to parse as what a rule names. -/
def parses : TextRule → String → Bool
  | .number, s => isFloatText s
  | .decimal, s => isFloatText s
  | .integer, s => (parseUnsigned s.toList).isSome
  | .boolean, s => s == "true" || s == "false"

private theorem parsesAs_true {es : List Executed} {s : String} (rule : TextRule) (hs : valueAt es 0 = .string s)
    (hk : valueAt es 1 = .string (kindName rule)) : parsesAs es = .value (.bool true) ↔ parses rule s = true := by
  unfold parsesAs
  rw [hs, hk]
  simp only [asText, plainText]
  cases rule <;> simp only [kindName, parses]
  case number => cases isFloatText s <;> simp [failed]
  case decimal => cases isFloatText s <;> simp [failed]
  case integer => cases (parseUnsigned s.toList).isSome <;> simp [failed]
  case boolean => cases (s == "true" || s == "false") <;> simp [failed]

private theorem accepts_parsesAs (rule : TextRule) (s : String) :
    Accepts ctx (asked "legacy:parses-as" s (kindName rule)) ↔ parses rule s = true := by
  have hrun : Accepts ctx (asked "legacy:parses-as" s (kindName rule)) ↔
      parsesAs (runAll [.value (Literal.string s), .value (Literal.string (kindName rule))] ctx) =
        .value (.bool true) := Option.some_inj
  rw [hrun, parsesAs_true rule rfl rfl]

private theorem mem_patternOf (rule : TextRule) (s : String) (h : rule = .integer → ¬ TooLarge s) :
    s.toList ∈ language (patternOf rule) ↔ parses rule s = true := by
  cases rule with
  | number => exact mem_numberPattern s
  | integer => exact mem_integerPattern s (h rfl)
  | decimal => exact mem_numberPattern s
  | boolean => exact mem_booleanPattern s

/-- The pattern written for a rule on a text accepts what the rule's own reading of the text does, but for integers too
large for 64 bits. -/
theorem text_pattern_iff (ctx : Ctx) (hengine : ∀ rule, Reads ctx.libraries (patternOf rule)) (rule : TextRule)
    (s : String) (h : rule = .integer → ¬ TooLarge s) :
    Accepts ctx (asked "match:regex" s (textPattern rule)) ↔ Accepts ctx (asked "legacy:parses-as" s (kindName rule)) := by
  rw [← whole_patternOf, accepts_matches (hengine rule), accepts_parsesAs, mem_patternOf rule s h]

/-- An engine that reads these patterns alone. -/
private def engine : Libraries where
  regexMatch pattern s :=
    if pattern = integerText then .ok (!(dropPlus s.toList).isEmpty && (dropPlus s.toList).all Char.isDigit)
    else if pattern = numberText then .ok (isFloatText s)
    else .ok (s == "true" || s == "false")
  semver _ := false
  validateDatetime _ _ := .ok ()
  toLowercase s := s
  toUppercase s := s

private theorem engine_reads (rule : TextRule) : Reads engine (patternOf rule) := by
  intro s
  rw [whole_patternOf]
  cases rule with
  | integer =>
    refine ⟨_, rfl, ?_⟩
    rw [Bool.and_eq_true, List.all_eq_true, patternOf, mem_integerPattern_iff]
    simp
  | number => exact ⟨_, rfl, (mem_numberPattern s).symm⟩
  | decimal => exact ⟨_, rfl, (mem_numberPattern s).symm⟩
  | boolean => exact ⟨_, rfl, (mem_booleanPattern s).symm⟩

private def under (libraries : Libraries) : Ctx := ⟨libraries, fun _ => .absent, none, none, [], []⟩

theorem text_pattern_half :
    Accepts (under engine) (asked "match:regex" "-.5" numberText) ↔
      Accepts (under engine) (asked "legacy:parses-as" "-.5" "decimal") :=
  text_pattern_iff (under engine) engine_reads .decimal "-.5" (fun h => nomatch h)

/-- A number beyond 64 bits with a plus sign is no text of digits, and only the pattern takes it. -/
theorem plus_signed_large :
    ¬ ∀ ctx : Ctx, (∀ rule, Reads ctx.libraries (patternOf rule)) → ∀ rule s,
      (rule = .integer → ¬ ∃ n, digitsValue 0 s.toList = some n ∧ 2 ^ 64 ≤ n) →
        (Accepts ctx (asked "match:regex" s (textPattern rule)) ↔
          Accepts ctx (asked "legacy:parses-as" s (kindName rule))) := by
  intro h
  have hiff := h (under engine) engine_reads .integer "+18446744073709551616"
    (fun _ hn => nomatch (show ∃ n, none = some n ∧ _ from hn))
  rw [accepts_parsesAs] at hiff
  exact absurd (hiff.1 rfl) (by decide)

end PactJanus.Legacy.TextPatterns
