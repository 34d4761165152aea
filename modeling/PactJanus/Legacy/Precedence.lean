import Mathlib.Algebra.BigOperators.Ring.List
import Mathlib.Algebra.GroupWithZero.Nat
import Mathlib.Data.List.Nodup
import Mathlib.Data.String.Basic
import PactJanus.Lib.Foremost
import PactJanus.Lib.Lists
import PactJanus.Lib.Text

namespace PactJanus.Legacy.Precedence

open PactJanus.Lib.Foremost PactJanus.Lib.Text

/-! Which of a category's matching rules governs a path of a document. -/

inductive PathToken where
  | root | field (name : String) | index (i : Nat) | star | starIndex
deriving DecidableEq

/-- A rule's path: its tokens, and the text it is shown as. -/
structure RulePath where
  tokens : List PathToken
  text : String

/-- The rules of a category, each at a path of its own. -/
structure Category (ρ : Type) where
  rules : List (RulePath × ρ)
  distinct : (rules.map fun r => r.1.text).Nodup

def fieldEq (caseInsensitive : Bool) (name fragment : String) : Bool :=
  if caseInsensitive then eqIgnoreAsciiCase name fragment else name == fragment

def tokenWeight (token : PathToken) (fragment : String) (caseInsensitive : Bool) : Nat :=
  match token with
  | .root => if fragment = "$" then 2 else 0
  | .field name => if fieldEq caseInsensitive name fragment then 2 else 0
  | .index i => if parseUnsigned fragment.toList = some i then 2 else 0
  | .starIndex => if fragment = "[*]" ∨ (parseUnsigned fragment.toList).isSome then 1 else 0
  | .star => 1

variable {ρ : Type}

/-- The product of the weights of a path's tokens, in a machine word. -/
def weight (tokens : List PathToken) (fragments : List String) (caseInsensitive : Bool) : UInt64 :=
  (tokens.zip fragments).foldl (fun acc p => acc * UInt64.ofNat (tokenWeight p.1 p.2 caseInsensitive)) 1

/-- A rule that reaches the path, with its score. -/
structure Candidate (ρ : Type) where
  score : UInt64
  path : RulePath
  list : ρ

/-- A rule as a candidate: one longer than the path, or with no weight, is none. -/
def candidate (fragments : List String) (caseInsensitive : Bool) (rule : RulePath × ρ) : Option (Candidate ρ) :=
  if fragments.length < rule.1.tokens.length then none
  else
    let w := weight rule.1.tokens fragments caseInsensitive
    if w = 0 then none else some ⟨w * UInt64.ofNat rule.1.tokens.length, rule.1, rule.2⟩

/-- A candidate replaces another: it scores more, or as much and its path is shown as a lesser text. -/
def replaces (a b : Candidate ρ) : Prop := b.score < a.score ∨ (a.score = b.score ∧ a.path.text < b.path.text)

instance : DecidableRel (replaces (ρ := ρ)) := fun _ _ => inferInstanceAs (Decidable (_ ∨ _))

def winner (rules : List (RulePath × ρ)) (fragments : List String) (caseInsensitive : Bool) : Option (Candidate ρ) :=
  foremost replaces (rules.filterMap (candidate fragments caseInsensitive))

/-- The winning rules at a path, and whether they cascaded down from a shorter one. -/
def bestRule (category : Option (Category ρ)) (fragments : List String) (caseInsensitive : Bool) : Option (ρ × Bool) :=
  category.bind fun c => (winner c.rules fragments caseInsensitive).map fun best =>
    (best.list, best.path.tokens.length != fragments.length)

instance : IsStrictOrder (Candidate ρ) replaces where
  irrefl a h := by
    rcases h with h | ⟨-, h⟩
    · exact UInt64.lt_irrefl _ h
    · exact lt_irrefl _ h
  trans a b c hab hbc := by
    rcases hab with hab | ⟨hab, htext⟩ <;> rcases hbc with hbc | ⟨hbc, htext'⟩
    · exact Or.inl (UInt64.lt_trans hbc hab)
    · exact Or.inl (hbc ▸ hab)
    · exact Or.inl (hab ▸ hbc)
    · exact Or.inr ⟨hab.trans hbc, lt_trans htext htext'⟩

/-! What the weights are when nothing overflows. -/

/-- A token is of a fragment of the path. -/
def Matches (caseInsensitive : Bool) : PathToken → String → Prop
  | .root, fragment => fragment = "$"
  | .field name, fragment => fieldEq caseInsensitive name fragment = true
  | .index i, fragment => parseUnsigned fragment.toList = some i
  | .starIndex, fragment => fragment = "[*]" ∨ (parseUnsigned fragment.toList).isSome = true
  | .star, _ => True

/-- A rule's path matches a document's path token by token, or a beginning of it. -/
def Reaches (tokens : List PathToken) (fragments : List String) (caseInsensitive : Bool) : Prop :=
  tokens.length ≤ fragments.length ∧ ∀ p ∈ tokens.zip fragments, Matches caseInsensitive p.1 p.2

def weights (tokens : List PathToken) (fragments : List String) (caseInsensitive : Bool) : List Nat :=
  (tokens.zip fragments).map fun p => tokenWeight p.1 p.2 caseInsensitive

/-- No product on the way to the score exceeds a machine word. -/
structure NoOverflow (tokens : List PathToken) (fragments : List String) (caseInsensitive : Bool) : Prop where
  partly : ∀ k, ((weights tokens fragments caseInsensitive).take k).prod < 2 ^ 64
  score : (weights tokens fragments caseInsensitive).prod * tokens.length < 2 ^ 64

variable {tokens : List PathToken} {fragments : List String} {ci : Bool}

theorem tokenWeight_eq_zero_iff {token : PathToken} {fragment : String} :
    tokenWeight token fragment ci = 0 ↔ ¬ Matches ci token fragment := by
  cases token <;> simp [tokenWeight, Matches]

private theorem weights_values : ∀ w ∈ weights tokens fragments ci, w = 0 ∨ w = 1 ∨ w = 2 := by
  intro w hw
  obtain ⟨p, -, rfl⟩ := List.mem_map.1 hw
  cases p.1 <;> simp only [tokenWeight] <;> first | split <;> simp | simp

private theorem toNat_foldl (ws : List Nat) (acc : UInt64) :
    (ws.foldl (fun acc w => acc * UInt64.ofNat w) acc).toNat = acc.toNat * ws.prod % 2 ^ 64 := by
  induction ws generalizing acc with
  | nil => simp [Nat.mod_eq_of_lt acc.toNat_lt]
  | cons w rest ih =>
    rw [List.foldl_cons, ih, List.prod_cons, UInt64.toNat_mul, UInt64.toNat_ofNat', Nat.mul_mod_mod, Nat.mod_mul_mod,
      mul_assoc]

private theorem toNat_weight :
    (weight tokens fragments ci).toNat = (weights tokens fragments ci).prod % 2 ^ 64 := by
  have hfold : weight tokens fragments ci =
      (weights tokens fragments ci).foldl (fun acc w => acc * UInt64.ofNat w) 1 := by
    rw [weights, List.foldl_map]
    rfl
  rw [hfold, toNat_foldl]
  exact congrArg (· % 2 ^ 64) (Nat.one_mul _)

private theorem NoOverflow.toNat_weight (h : NoOverflow tokens fragments ci) :
    (weight tokens fragments ci).toNat = (weights tokens fragments ci).prod := by
  have hall := h.partly (weights tokens fragments ci).length
  rw [List.take_length] at hall
  rw [Precedence.toNat_weight, Nat.mod_eq_of_lt hall]

private theorem prod_weights_ne_zero :
    (weights tokens fragments ci).prod ≠ 0 ↔ ∀ p ∈ tokens.zip fragments, Matches ci p.1 p.2 := by
  rw [Ne, List.prod_eq_zero_iff, weights, List.mem_map]
  constructor
  · intro h p hp
    by_contra hno
    exact h ⟨p, hp, tokenWeight_eq_zero_iff.2 hno⟩
  · rintro h ⟨p, hp, hzero⟩
    exact tokenWeight_eq_zero_iff.1 hzero (h p hp)

/-- Where nothing overflows, the rules that reach the path are the candidates, each with its exact score. -/
private theorem candidate_eq_some {rule : RulePath × ρ}
    (h : rule.1.tokens.length ≤ fragments.length → NoOverflow rule.1.tokens fragments ci) {found : Candidate ρ} :
    candidate fragments ci rule = some found ↔
      Reaches rule.1.tokens fragments ci ∧ found.path = rule.1 ∧ found.list = rule.2 ∧
        found.score.toNat = (weights rule.1.tokens fragments ci).prod * rule.1.tokens.length := by
  unfold candidate Reaches
  by_cases hlong : fragments.length < rule.1.tokens.length
  · rw [if_pos hlong]
    exact iff_of_false (by simp) fun hr => absurd hr.1.1 (not_le.2 hlong)
  · rw [if_neg hlong]
    have hno := h (not_lt.1 hlong)
    have hzero : weight rule.1.tokens fragments ci = 0 ↔ (weights rule.1.tokens fragments ci).prod = 0 := by
      rw [← UInt64.toNat_inj, hno.toNat_weight]
      rfl
    by_cases hw : (weights rule.1.tokens fragments ci).prod = 0
    · rw [if_pos (hzero.2 hw)]
      exact iff_of_false (by simp) fun hr => prod_weights_ne_zero.2 hr.1.2 hw
    · rw [if_neg (fun h => hw (hzero.1 h))]
      have hlen : rule.1.tokens.length < 2 ^ 64 :=
        lt_of_le_of_lt (Nat.le_mul_of_pos_left _ (Nat.pos_of_ne_zero hw)) hno.score
      have hscore : (weight rule.1.tokens fragments ci * UInt64.ofNat rule.1.tokens.length).toNat =
          (weights rule.1.tokens fragments ci).prod * rule.1.tokens.length := by
        rw [UInt64.toNat_mul, hno.toNat_weight, UInt64.toNat_ofNat', Nat.mod_eq_of_lt hlen, Nat.mod_eq_of_lt hno.score]
      constructor
      · rintro heq
        obtain rfl := Option.some.inj heq
        exact ⟨⟨not_lt.1 hlong, prod_weights_ne_zero.1 hw⟩, rfl, rfl, hscore⟩
      · rintro ⟨-, hpath, hlist, hs⟩
        obtain ⟨score, path, list⟩ := found
        obtain rfl : path = rule.1 := hpath
        obtain rfl : list = rule.2 := hlist
        obtain rfl : score = _ := UInt64.toNat_inj.1 (hs.trans hscore.symm)
        rfl

/-- How many tokens of a path match exactly before one that does not match at all. -/
def exactMatches (tokens : List PathToken) (fragments : List String) (caseInsensitive : Bool) : Nat :=
  ((weights tokens fragments caseInsensitive).takeWhile (· ≠ 0)).count 2

/-- A path short enough to be scored: fewer than 64 exact matches, and the score of one that reaches in a word. -/
def Scored (tokens : List PathToken) (fragments : List String) (caseInsensitive : Bool) : Prop :=
  exactMatches tokens fragments caseInsensitive < 64 ∧
    (Reaches tokens fragments caseInsensitive →
      2 ^ exactMatches tokens fragments caseInsensitive * tokens.length < 2 ^ 64)

private theorem prod_take_le {ws : List Nat} (h : ∀ w ∈ ws, w = 0 ∨ w = 1 ∨ w = 2) (k : Nat) :
    (ws.take k).prod ≤ 2 ^ (ws.takeWhile (· ≠ 0)).count 2 := by
  induction ws generalizing k with
  | nil => simp
  | cons w rest ih =>
    obtain ⟨hw, hrest⟩ := List.forall_mem_cons.1 h
    cases k with
    | zero => simpa using Nat.one_le_two_pow
    | succ k =>
      rw [List.take_succ_cons, List.prod_cons]
      rcases hw with rfl | rfl | rfl
      · simp
      · simpa using ih hrest k
      · simpa [pow_succ, mul_comm] using Nat.mul_le_mul_left 2 (ih hrest k)

private theorem exists_prod_take {ws : List Nat} (h : ∀ w ∈ ws, w = 0 ∨ w = 1 ∨ w = 2) :
    ∃ k, (ws.take k).prod = 2 ^ (ws.takeWhile (· ≠ 0)).count 2 := by
  induction ws with
  | nil => exact ⟨0, rfl⟩
  | cons w rest ih =>
    obtain ⟨hw, hrest⟩ := List.forall_mem_cons.1 h
    obtain ⟨k, hk⟩ := ih hrest
    rcases hw with rfl | rfl | rfl
    · exact ⟨0, by simp⟩
    · exact ⟨k + 1, by simpa using hk⟩
    · exact ⟨k + 1, by simp [hk, pow_succ, mul_comm]⟩

private theorem prod_eq {ws : List Nat} (h : ∀ w ∈ ws, w = 0 ∨ w = 1 ∨ w = 2) (hne : ws.prod ≠ 0) :
    ws.prod = 2 ^ (ws.takeWhile (· ≠ 0)).count 2 := by
  induction ws with
  | nil => rfl
  | cons w rest ih =>
    obtain ⟨hw, hrest⟩ := List.forall_mem_cons.1 h
    rw [List.prod_cons] at hne ⊢
    have hprod := ih hrest fun hzero => hne (by rw [hzero, Nat.mul_zero])
    rcases hw with rfl | rfl | rfl
    · exact absurd (Nat.zero_mul _) hne
    · simpa using hprod
    · simp [hprod, pow_succ, mul_comm]

/-- Exactly the paths short enough are scored without overflow. -/
theorem noOverflow_iff (h : tokens.length ≤ fragments.length) :
    NoOverflow tokens fragments ci ↔ Scored tokens fragments ci := by
  have hreach : Reaches tokens fragments ci ↔ (weights tokens fragments ci).prod ≠ 0 :=
    (and_iff_right h).trans prod_weights_ne_zero.symm
  constructor
  · intro hno
    obtain ⟨k, hk⟩ := exists_prod_take (@weights_values tokens fragments ci)
    refine ⟨(Nat.pow_lt_pow_iff_right (by decide)).1 (hk ▸ hno.partly k), fun hr => ?_⟩
    rw [exactMatches, ← prod_eq weights_values (hreach.1 hr)]
    exact hno.score
  · rintro ⟨hfew, hscore⟩
    refine ⟨fun k => lt_of_le_of_lt (prod_take_le weights_values k) (Nat.pow_lt_pow_right (by decide) hfew), ?_⟩
    by_cases hzero : (weights tokens fragments ci).prod = 0
    · rw [hzero, Nat.zero_mul]
      decide
    · rw [prod_eq weights_values hzero]
      exact hscore (hreach.2 hzero)

/-! Precedence is well defined where every path is short enough. -/

/-- The rule a category gives for a path is one, whatever order its rules come in, and of the longest that reach. -/
structure WellDefined (c : Category ρ) (fragments : List String) (ci : Bool) : Prop where
  found : (bestRule (some c) fragments ci).isSome = true ↔ ∃ r ∈ c.rules, Reaches r.1.tokens fragments ci
  noOverflow : ∀ r ∈ c.rules, r.1.tokens.length ≤ fragments.length → NoOverflow r.1.tokens fragments ci
  anyOrder : ∀ c' : Category ρ, c.rules.Perm c'.rules → bestRule (some c') fragments ci = bestRule (some c) fragments ci
  longest : ∀ best, winner c.rules fragments ci = some best → ∀ r ∈ c.rules, Reaches r.1.tokens fragments ci →
    best.path.tokens <+: r.1.tokens → best.path.tokens = r.1.tokens
  cascaded : ∀ list flag, bestRule (some c) fragments ci = some (list, flag) →
    ∃ best, winner c.rules fragments ci = some best ∧ best.list = list ∧
      (flag = true ↔ best.path.tokens.length < fragments.length)

variable {c : Category ρ}

private theorem candidate_path {rule : RulePath × ρ} {found : Candidate ρ} (h : candidate fragments ci rule = some found) :
    found.path = rule.1 ∧ found.list = rule.2 := by
  unfold candidate at h
  split at h
  · exact absurd h (by simp)
  · simp only at h
    split at h
    · exact absurd h (by simp)
    · obtain rfl := Option.some.inj h
      exact ⟨rfl, rfl⟩

/-- Of two rules of a category, one replaces the other: their paths are shown as different texts. -/
private theorem replaces_total {a b : Candidate ρ} (ha : a ∈ c.rules.filterMap (candidate fragments ci))
    (hb : b ∈ c.rules.filterMap (candidate fragments ci)) : a = b ∨ replaces a b ∨ replaces b a := by
  obtain ⟨r, hr, ha⟩ := List.mem_filterMap.1 ha
  obtain ⟨r', hr', hb⟩ := List.mem_filterMap.1 hb
  rcases lt_trichotomy a.score.toNat b.score.toNat with hlt | heq | hlt
  · exact Or.inr (Or.inr (Or.inl (UInt64.lt_iff_toNat_lt.2 hlt)))
  · have hscore : a.score = b.score := UInt64.toNat_inj.1 heq
    rcases lt_trichotomy a.path.text b.path.text with hlt | htext | hlt
    · exact Or.inr (Or.inl (Or.inr ⟨hscore, hlt⟩))
    · rw [(candidate_path ha).1, (candidate_path hb).1] at htext
      obtain rfl : r = r' := List.inj_on_of_nodup_map c.distinct hr hr' htext
      exact Or.inl (Option.some.inj (ha.symm.trans hb))
    · exact Or.inr (Or.inr (Or.inr ⟨hscore.symm, hlt⟩))
  · exact Or.inr (Or.inl (Or.inl (UInt64.lt_iff_toNat_lt.2 hlt)))

private theorem winner_perm {c' : Category ρ} (h : c.rules.Perm c'.rules) :
    winner c'.rules fragments ci = winner c.rules fragments ci :=
  (foremost_perm (h.filterMap _) fun _ ha _ hb => replaces_total ha hb).symm

private theorem isSome_bestRule : (bestRule (some c) fragments ci).isSome = true ↔
    ∃ r ∈ c.rules, (candidate fragments ci r).isSome = true := by
  rw [bestRule, Option.bind_some, Option.isSome_map, winner, foremost_isSome_iff, Ne, List.filterMap_eq_nil_iff]
  simp only [not_forall, Option.isSome_iff_ne_none, exists_prop]

private theorem zip_append_left {α β : Type} (a b : List α) (l : List β) :
    (a ++ b).zip l = a.zip l ++ b.zip (l.drop a.length) := by
  induction a generalizing l with
  | nil => rfl
  | cons x rest ih =>
    cases l with
    | nil => simp
    | cons y ys => simp [ih]

/-- A rule at the beginning of another that reaches scores less. -/
private theorem score_lt {short long : List PathToken} (hshort : short <+: long) (hne : short ≠ long)
    (hlong : Reaches long fragments ci) :
    (weights short fragments ci).prod * short.length < (weights long fragments ci).prod * long.length := by
  obtain ⟨rest, rfl⟩ := hshort
  have hpos : 0 < rest.length := List.length_pos_iff.2 fun h => hne (by rw [h, List.append_nil])
  have hsplit : (weights (short ++ rest) fragments ci).prod =
      (weights short fragments ci).prod * (weights rest (fragments.drop short.length) ci).prod := by
    rw [weights, zip_append_left, List.map_append, List.prod_append]
    rfl
  have hprod := prod_weights_ne_zero.2 hlong.2
  rw [hsplit] at hprod ⊢
  rw [List.length_append]
  have h1 : 0 < (weights short fragments ci).prod := Nat.pos_of_ne_zero fun h => hprod (by rw [h, Nat.zero_mul])
  have h2 : 0 < (weights rest (fragments.drop short.length) ci).prod :=
    Nat.pos_of_ne_zero fun h => hprod (by rw [h, Nat.mul_zero])
  calc (weights short fragments ci).prod * short.length
      < (weights short fragments ci).prod * (short.length + rest.length) := Nat.mul_lt_mul_of_pos_left (by omega) h1
    _ ≤ _ := Nat.mul_le_mul_right _ (Nat.le_mul_of_pos_right _ h2)

private theorem longest_of_noOverflow
    (h : ∀ r ∈ c.rules, r.1.tokens.length ≤ fragments.length → NoOverflow r.1.tokens fragments ci) {best : Candidate ρ}
    (hbest : winner c.rules fragments ci = some best) {rule : RulePath × ρ} (hrule : rule ∈ c.rules)
    (hreach : Reaches rule.1.tokens fragments ci) (hp : best.path.tokens <+: rule.1.tokens) :
    best.path.tokens = rule.1.tokens := by
  by_contra hne
  obtain ⟨hmem, hall⟩ := foremost_spec hbest
  obtain ⟨r, hr, hcandidate⟩ := List.mem_filterMap.1 hmem
  obtain ⟨-, hpath, -, hscore⟩ := (candidate_eq_some (h r hr)).1 hcandidate
  have hexact := h rule hrule hreach.1
  have hlong : (weights rule.1.tokens fragments ci).prod * rule.1.tokens.length < UInt64.size := hexact.score
  let longer : Candidate ρ :=
    ⟨UInt64.ofNatLT ((weights rule.1.tokens fragments ci).prod * rule.1.tokens.length) hlong, rule.1, rule.2⟩
  have hlonger : candidate fragments ci rule = some longer :=
    (candidate_eq_some (h rule hrule)).2 ⟨hreach, rfl, rfl, UInt64.toNat_ofNatLT⟩
  refine hall longer (List.mem_filterMap.2 ⟨rule, hrule, hlonger⟩) (Or.inl ?_)
  rw [UInt64.lt_iff_toNat_lt, hscore, UInt64.toNat_ofNatLT, ← hpath]
  exact score_lt hp hne hreach

/-- Precedence is well defined exactly where each rule no longer than the path is short enough to be scored. -/
theorem wellDefined_iff (c : Category ρ) (fragments : List String) (ci : Bool) :
    WellDefined c fragments ci ↔
      ∀ r ∈ c.rules, r.1.tokens.length ≤ fragments.length → Scored r.1.tokens fragments ci := by
  constructor
  · intro h r hr hlen
    exact (noOverflow_iff hlen).1 (h.noOverflow r hr hlen)
  · intro h
    have hno : ∀ r ∈ c.rules, r.1.tokens.length ≤ fragments.length → NoOverflow r.1.tokens fragments ci :=
      fun r hr hlen => (noOverflow_iff hlen).2 (h r hr hlen)
    constructor
    case noOverflow => exact hno
    case found =>
      rw [isSome_bestRule]
      constructor
      · rintro ⟨r, hr, hsome⟩
        obtain ⟨found, hfound⟩ := Option.isSome_iff_exists.1 hsome
        exact ⟨r, hr, ((candidate_eq_some (hno r hr)).1 hfound).1⟩
      · rintro ⟨r, hr, hreach⟩
        have hscore : (weights r.1.tokens fragments ci).prod * r.1.tokens.length < UInt64.size :=
          (hno r hr hreach.1).score
        have hfound : candidate fragments ci r = some ⟨UInt64.ofNatLT _ hscore, r.1, r.2⟩ :=
          (candidate_eq_some (hno r hr)).2 ⟨hreach, rfl, rfl, UInt64.toNat_ofNatLT⟩
        exact ⟨r, hr, Option.isSome_iff_exists.2 ⟨_, hfound⟩⟩
    case anyOrder =>
      intro c' hperm
      rw [bestRule, bestRule, Option.bind_some, Option.bind_some, winner_perm hperm]
    case longest => exact fun best hbest r hr hreach hp => longest_of_noOverflow hno hbest hr hreach hp
    case cascaded =>
      intro list flag hbest
      obtain ⟨best, hwinner, heq⟩ := Option.map_eq_some_iff.1 hbest
      obtain ⟨rfl, rfl⟩ := Prod.mk.inj heq
      refine ⟨best, hwinner, rfl, ?_⟩
      obtain ⟨r, hr, hcandidate⟩ := List.mem_filterMap.1 (foremost_spec hwinner).1
      obtain ⟨hreach, hpath, -⟩ := (candidate_eq_some (hno r hr)).1 hcandidate
      have hle : best.path.tokens.length ≤ fragments.length := hpath ▸ hreach.1
      rw [bne_iff_ne]
      exact ⟨fun hne => lt_of_le_of_ne hle hne, ne_of_lt⟩

/-- The path of 63 members under the root, each of them `a`, as a rule has it and as a value is at it. -/
private def deepTokens : List PathToken := .root :: List.replicate 63 (.field "a")

private def deepFragments : List String := "$" :: List.replicate 63 "a"

private def deep : Category Unit := ⟨[(⟨deepTokens, "$" ++ String.join (List.replicate 63 ".a")⟩, ())], by simp⟩

private theorem weights_deep : weights deepTokens deepFragments false = List.replicate 64 2 := by
  simp [weights, deepTokens, deepFragments, tokenWeight, fieldEq, List.zip, List.replicate_succ]

/-- The one rule of the very path of a value is not found: its weight, 2 ^ 64, is none in a machine word. -/
theorem deep_rule_lost : bestRule (some deep) deepFragments false = none ∧ ¬ WellDefined deep deepFragments false := by
  have hweight : weight deepTokens deepFragments false = 0 := by
    rw [← UInt64.toNat_inj, toNat_weight, weights_deep, List.prod_replicate]
    rfl
  have hlost : bestRule (some deep) deepFragments false = none := by
    have hnone : candidate deepFragments false (⟨deepTokens, "$" ++ String.join (List.replicate 63 ".a")⟩, ()) = none := by
      unfold candidate
      rw [if_neg (by simp [deepTokens, deepFragments])]
      exact if_pos hweight
    rw [bestRule, Option.bind_some, winner, deep, List.filterMap_cons_none hnone]
    rfl
  refine ⟨hlost, fun h => ?_⟩
  have hreach : Reaches deepTokens deepFragments false := by
    refine ⟨by simp [deepTokens, deepFragments], prod_weights_ne_zero.1 ?_⟩
    rw [weights_deep, List.prod_replicate]
    decide
  have hfound := h.found.2 ⟨_, List.mem_singleton_self _, hreach⟩
  rw [hlost] at hfound
  exact absurd hfound (by simp)

end PactJanus.Legacy.Precedence
