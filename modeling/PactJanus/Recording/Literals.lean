import Mathlib.Data.List.Dedup
import Mathlib.Data.List.Perm.Basic
import PactJanus.Data.Spelling
import PactJanus.Plan.Semantics
import PactJanus.Recording.Summary
import PactJanus.Shape.Alternatives

namespace PactJanus.Recording.Literals

open PactJanus.Data.Json PactJanus.Data.Equality PactJanus.Data.Spelling PactJanus.Lib PactJanus.Lib.Lists PactJanus.Lib.Binary64
  PactJanus.Shape.Model PactJanus.Shape.Valid PactJanus.Shape.Nodes PactJanus.Shape.Admits PactJanus.Plan.Semantics
  PactJanus.Recording.Observe PactJanus.Recording.Emission PactJanus.Recording.Evidence PactJanus.Recording.Summary

/-! Scalars as the recorder keys them, and as the shape language compares them. -/

private theorem eq_or_zeros {x y : Binary64} (h : key x = key y) :
    x = y ∨ (x = zero false ∧ y = zero true) ∨ (x = zero true ∧ y = zero false) := by
  obtain ⟨sx, mx, ex, hx⟩ := x
  obtain ⟨sy, my, ey, hy⟩ := y
  obtain ⟨hm, he⟩ := Prod.mk.inj h
  dsimp only at hm he
  cases sx <;> cases sy
  all_goals
    simp only [if_true, if_false, Bool.false_eq_true] at hm
    simp only [zero, Binary64.mk.injEq, true_and, false_and, Bool.false_eq_true, Bool.true_eq_false, or_false, false_or]
    omega

private theorem displayText_zero : displayText (zero false) = "0" ∧ displayText (zero true) = "-0" := ⟨rfl, rfl⟩

private theorem canonical_number {m n : Number} (h : canonical (.number m) = canonical (.number n)) : asF64 m = asF64 n :=
  Decimal.displayText_injective ((String.append_right_inj "n:").1 h)

private def head (v : Json) : Option Char := (canonical v).toList.head?

private theorem head_number (n : Number) : head (.number n) = some 'n' := by
  rw [head, canonical, String.toList_append]
  rfl

private theorem head_string (s : String) : head (.string s) = some '"' := by
  rw [head, canonical, text, stringText, String.append_assoc, String.toList_append]
  · rfl
  · exact fun n h => by cases h

private theorem head_bool (b : Bool) : head (.bool b) ≠ some 'n' ∧ head (.bool b) ≠ some '"' := by
  cases b <;> exact ⟨by decide, by decide⟩

/-- Two scalars of one key are one value, but for the form of a number. -/
theorem of_canonical_eq {a b : Json} (ha : isScalar a = true) (hb : isScalar b = true) (h : canonical a = canonical b) :
    a = b ∨ ∃ m n, a = .number m ∧ b = .number n ∧ asF64 m = asF64 n := by
  have hhead : head a = head b := congrArg (·.toList.head?) h
  cases a <;> cases b <;> simp only [isScalar, Bool.false_eq_true] at ha hb
  case number.number m n => exact Or.inr ⟨m, n, rfl, rfl, canonical_number h⟩
  case bool.bool => exact Or.inl (text_injective h)
  case string.string => exact Or.inl (text_injective h)
  case number.string => rw [head_number, head_string] at hhead; cases hhead
  case string.number => rw [head_number, head_string] at hhead; cases hhead
  case number.bool m b => exact absurd (hhead.symm.trans (head_number m)) (head_bool b).1
  case bool.number b n => exact absurd (hhead.trans (head_number n)) (head_bool b).1
  case string.bool s b => exact absurd (hhead.symm.trans (head_string s)) (head_bool b).2
  case bool.string b s => exact absurd (hhead.trans (head_string s)) (head_bool b).2

theorem valuesEqual_of_canonical {a b : Json} (ha : isScalar a = true) (hb : isScalar b = true)
    (h : canonical a = canonical b) : valuesEqual a b = true := by
  rcases of_canonical_eq ha hb h with rfl | ⟨m, n, rfl, rfl, hf64⟩
  · cases a <;> simp [valuesEqual, equalBy, numbersEqual, isScalar] at ha ⊢
  · simp [valuesEqual, equalBy, numbersEqual, hf64]

/-- Two scalars that are one value have one key, but for the two zeros. -/
theorem canonical_of_valuesEqual {a b : Json} (ha : isScalar a = true) (h : valuesEqual a b = true) :
    canonical a = canonical b ∨ (canonical a = "n:0" ∧ canonical b = "n:-0") ∨ (canonical a = "n:-0" ∧ canonical b = "n:0") := by
  cases a <;> cases b <;> simp only [isScalar, valuesEqual, equalBy, Bool.false_eq_true, beq_iff_eq] at ha h
  case bool.bool => exact Or.inl (h ▸ rfl)
  case string.string => exact Or.inl (h ▸ rfl)
  case number.number m n =>
    rcases eq_or_zeros (beq_iff_eq.1 h) with heq | ⟨hm, hn⟩ | ⟨hm, hn⟩
    · exact Or.inl (by rw [canonical, canonical, heq])
    · exact Or.inr (Or.inl ⟨by rw [canonical, hm]; rfl, by rw [canonical, hn]; rfl⟩)
    · exact Or.inr (Or.inr ⟨by rw [canonical, hm]; rfl, by rw [canonical, hn]; rfl⟩)

private theorem of_canonical_zero {v : Json} (negative : Bool) (hv : isScalar v = true)
    (h : canonical v = canonical (.number (.float (zero negative)))) : ∃ n, v = .number n ∧ asF64 n = zero negative := by
  rcases of_canonical_eq hv rfl h with rfl | ⟨m, n, rfl, hn, hf64⟩
  · exact ⟨_, rfl, rfl⟩
  · obtain rfl := Json.number.inj hn
    exact ⟨m, rfl, hf64⟩

theorem zeros_equal {a b : Json} (ha : isScalar a = true) (hb : isScalar b = true) (hzero : canonical a = "n:0")
    (hnegative : canonical b = "n:-0") : valuesEqual a b = true ∧ valuesEqual b a = true := by
  obtain ⟨m, rfl, hm⟩ := of_canonical_zero false ha hzero
  obtain ⟨n, rfl, hn⟩ := of_canonical_zero true hb hnegative
  simp [valuesEqual, equalBy, numbersEqual, hm, hn, key, zero]

/-! The literals a position keeps. -/

/-- The different scalars among some values, as the recorder keys them. -/
def keys (vs : List Json) : List String := ((scalarsIn vs).map canonical).dedup

/-- The scalars are few, and too few or too often repeated to be samples of an open domain. -/
def KeepsLiterals (policy : RecordingPolicy) (vs : List Json) : Prop :=
  (keys vs).length ≤ policy.maxOptions ∧
    ¬((keys vs).length = (scalarsIn vs).length ∧ policy.minEvidence ≤ (scalarsIn vs).length)

/-- A position whose scalars are kept as literals saw both zeros. -/
structure ZerosTogether (policy : RecordingPolicy) (vs : List Json) : Prop where
  scalars : held vs = .scalars
  kept : KeepsLiterals policy vs
  zero : "n:0" ∈ keys vs
  negative : "n:-0" ∈ keys vs

section Scalars

variable {policy : RecordingPolicy} {vs : List Json} {flat : Flat}

theorem mem_scalarsIn {v : Json} : v ∈ scalarsIn vs ↔ v ∈ vs ∧ isScalar v = true := List.mem_filter

theorem literals_keys (h : FlatOf vs flat) : (flat.literals.map Prod.fst).Perm (keys vs) := by
  apply (List.perm_ext_iff_of_nodup h.sorted.nodup (List.nodup_dedup _)).2
  intro key
  rw [List.mem_dedup, List.mem_map, List.mem_map]
  constructor
  · rintro ⟨p, hp, rfl⟩
    obtain ⟨hmem, hscalar, hkey⟩ := h.seenBefore p hp
    exact ⟨p.2, mem_scalarsIn.2 ⟨hmem, hscalar⟩, hkey⟩
  · rintro ⟨v, hv, rfl⟩
    obtain ⟨hmem, hscalar⟩ := mem_scalarsIn.1 hv
    obtain ⟨w, hw⟩ := h.present v hmem hscalar
    exact ⟨_, mem_of_lookup hw, rfl⟩

theorem keepsLiterals_iff (h : FlatOf vs flat) : keepsLiterals policy flat = true ↔ KeepsLiterals policy vs := by
  have hlength : flat.literals.length = (keys vs).length := by
    rw [← (literals_keys h).length_eq, List.length_map]
  have hscalars : flat.scalars = (scalarsIn vs).length := by
    rw [h.scalars, List.countP_eq_length_filter]
    rfl
  rw [keepsLiterals, KeepsLiterals, hlength, hscalars]
  split_ifs with hmany
  · simp [hmany]
  · simp [Nat.not_lt.1 hmany, imp_iff_not_or]

/-- Some literal stands for every scalar that was seen. -/
private theorem literal_of_scalar (h : FlatOf vs flat) {v : Json} (hv : v ∈ vs) (hscalar : isScalar v = true) :
    ∃ w, (canonical v, w) ∈ flat.literals ∧ isScalar w = true ∧ canonical w = canonical v := by
  obtain ⟨w, hw⟩ := h.present v hv hscalar
  obtain ⟨-, hscalar', hkey⟩ := h.seenBefore _ (mem_of_lookup hw)
  exact ⟨w, mem_of_lookup hw, hscalar', hkey⟩

/-- The literals are told apart, but for the two zeros. -/
private theorem literals_apart (h : FlatOf vs flat) :
    pairwise (fun a b => !valuesEqual b a) (flat.literals.map Prod.snd) = true ↔ ¬("n:0" ∈ keys vs ∧ "n:-0" ∈ keys vs) := by
  rw [Shape.Alternatives.pairwise_iff, List.pairwise_map]
  constructor
  · rintro hapart ⟨hzero, hnegative⟩
    obtain ⟨p, hp, hzero⟩ := List.mem_map.1 ((literals_keys h).mem_iff.2 hzero)
    obtain ⟨q, hq, hnegative⟩ := List.mem_map.1 ((literals_keys h).mem_iff.2 hnegative)
    obtain ⟨-, hscalar, hkey⟩ := h.seenBefore p hp
    obtain ⟨-, hscalar', hkey'⟩ := h.seenBefore q hq
    obtain ⟨hequal, hequal'⟩ := zeros_equal hscalar hscalar' (hkey.trans hzero) (hkey'.trans hnegative)
    have hne : p ≠ q := fun heq => absurd (hzero.symm.trans (heq ▸ hnegative)) (by decide)
    have : Std.Symm fun a b : String × Json => (!valuesEqual b.2 a.2) = true ∨ (!valuesEqual a.2 b.2) = true :=
      ⟨fun _ _ => Or.symm⟩
    have heither : flat.literals.Pairwise fun a b => (!valuesEqual b.2 a.2) = true ∨ (!valuesEqual a.2 b.2) = true :=
      hapart.imp Or.inl
    rcases heither.forall hp hq hne with hdiffer | hdiffer
    · rw [hequal'] at hdiffer
      cases hdiffer
    · rw [hequal] at hdiffer
      cases hdiffer
  · intro hnot
    refine h.sorted.imp_of_mem fun {p q} hp hq hlt => ?_
    rw [Bool.not_eq_true', Bool.eq_false_iff]
    intro hequal
    have hkeys : ∀ r ∈ flat.literals, canonical r.2 ∈ keys vs := by
      intro r hr
      rw [(h.seenBefore r hr).2.2]
      exact (literals_keys h).mem_iff.1 (List.mem_map_of_mem hr)
    obtain ⟨-, -, hkey⟩ := h.seenBefore p hp
    obtain ⟨-, hscalar', hkey'⟩ := h.seenBefore q hq
    rcases canonical_of_valuesEqual hscalar' hequal with hsame | ⟨hzero, hnegative⟩ | ⟨hnegative, hzero⟩
    · exact absurd (hkey.symm.trans (hsame.symm.trans hkey')) hlt.ne
    · exact hnot ⟨hzero ▸ hkeys q hq, hnegative ▸ hkeys p hp⟩
    · exact hnot ⟨hzero ▸ hkeys p hp, hnegative ▸ hkeys q hq⟩

/-! The shape of a position that held scalars. -/

private theorem literals_ne_nil (hheld : held vs = .scalars) (h : FlatOf vs flat) : flat.literals ≠ [] := by
  obtain ⟨v, hv⟩ := List.exists_mem_of_ne_nil _ (held_scalars.1 hheld).2.2
  obtain ⟨hmem, hscalar⟩ := mem_scalarsIn.1 hv
  obtain ⟨w, hw, -⟩ := literal_of_scalar h hmem hscalar
  exact List.ne_nil_of_mem hw

private theorem exampleValid_literal (h : FlatOf vs flat) (v : Json) (hv : v ∈ flat.literals.map Prod.snd) :
    distinctKeys v = true := by
  obtain ⟨p, hp, rfl⟩ := List.mem_map.1 hv
  obtain ⟨-, hscalar, -⟩ := h.seenBefore p hp
  cases hvalue : p.2 <;> simp_all [isScalar, distinctKeys]

/-- A position that held scalars is described by one node, over nothing. -/
structure Single (S : ShapeNode) : Prop where
  present : admitsAbsent S = false
  plain : isNullable S = false
  nodes : nodeCount S = 1
  depth : depth S = 0
  described : Described S

private theorem single {e : Option Example} {k : ShapeKind} (hk : isLeaf k = true) (hdescribed : isDescribed k = true)
    (hoctets : ∀ x ∈ e, x.encoded = none) (hpresent : k ≠ .forbidden) : Single ⟨e, none, k⟩ := by
  have hdescribe : Described ⟨e, none, k⟩ := by
    refine forall_nodes.2 ⟨⟨hdescribed, ?_⟩, ?_⟩
    · cases e with
      | none => cases k <;> rfl
      | some x => cases k <;> simp [octetsDecode, hoctets x rfl]
    · cases k <;> simp [isLeaf, children] at hk ⊢
  refine ⟨?_, ?_, ?_, ?_, hdescribe⟩
  · cases k <;> simp [isLeaf, admitsAbsent] at hk hpresent ⊢
  · cases k <;> simp [isLeaf, isNullable] at hk ⊢
  · cases k <;> simp [isLeaf, nodeCount, nodeCountKind] at hk ⊢
  · cases k <;> simp [isLeaf, Shape.Valid.depth, depthKind] at hk ⊢

private theorem encoded_withExample (kind : ShapeKind) {value : Option Json} :
    ∀ x ∈ (withExample kind value).example?, x.encoded = none := by
  intro x hx
  obtain ⟨v, -, rfl⟩ := Option.map_eq_some_iff.1 hx
  rfl

theorem single_scalarShape (policy : RecordingPolicy) (flat : Flat) : Single (scalarShape policy flat) := by
  unfold scalarShape
  dsimp only
  split_ifs
  · exact single rfl rfl (by simp) (by simp)
  · exact single rfl rfl (encoded_withExample .equality) (by simp)
  · exact single rfl rfl (encoded_withExample (.anyOf (flat.literals.map Prod.snd))) (by simp)
  · cases domainKind flat with
    | none => exact single rfl rfl (by simp) (by simp)
    | some kind => exact single rfl rfl (encoded_withExample (.kind kind)) (by simp)

private theorem number_of_zero (hzero : "n:0" ∈ keys vs) : ∃ n, .number n ∈ vs := by
  obtain ⟨v, hv, hkey⟩ := List.mem_map.1 (List.mem_dedup.1 hzero)
  obtain ⟨hmem, hscalar⟩ := mem_scalarsIn.1 hv
  obtain ⟨n, rfl, -⟩ := of_canonical_zero false hscalar hkey
  exact ⟨n, hmem⟩

theorem onlyBooleans_spec (h : FlatOf vs flat) (honly : onlyBooleans flat = true) {v : Json} (hv : v ∈ vs)
    (hscalar : isScalar v = true) : isBoolean v = true := by
  obtain ⟨⟨⟨-, hstrings⟩, hintegers⟩, hdecimals⟩ : ((_ ∧ vs.any isString = false) ∧ vs.any isInteger = false) ∧
      vs.any isDecimal = false := by
    simpa [onlyBooleans, h.strings, h.integers, h.decimals] using honly
  have hstring := List.any_eq_false.1 hstrings v hv
  have hinteger := List.any_eq_false.1 hintegers v hv
  have hdecimal := List.any_eq_false.1 hdecimals v hv
  cases v <;> simp_all [isScalar, isString, isBoolean, isInteger, isDecimal]

private theorem exampleValid_head (h : FlatOf vs flat) (kind : ShapeKind) :
    exampleValid (withExample kind (flat.literals.map Prod.snd).head?).example? = true := by
  cases hhead : (flat.literals.map Prod.snd).head? with
  | none => rfl
  | some v => exact exampleValid_literal h v (List.mem_of_head? hhead)

/-- A set of literals is valid where they are told apart. -/
private theorem wellFormed_anyOf (h : FlatOf vs flat) (hne : flat.literals ≠ []) :
    wellFormed (withExample (.anyOf (flat.literals.map Prod.snd)) (flat.literals.map Prod.snd).head?) = true ↔
      ¬("n:0" ∈ keys vs ∧ "n:-0" ∈ keys vs) := by
  rw [← literals_apart h, withExample, wellFormed_mk]
  obtain ⟨p, rest, hliterals⟩ := List.exists_cons_of_ne_nil hne
  have hall : (flat.literals.map Prod.snd).all distinctKeys = true :=
    List.all_eq_true.2 (exampleValid_literal h)
  have hfirst : distinctKeys p.2 = true := exampleValid_literal h _ (by simp [hliterals])
  have hself : valuesEqual p.2 p.2 = true := equalBy_refl (fun n => by simp [numbersEqual]) hfirst
  have hvalid := exampleValid_head h (.anyOf (flat.literals.map Prod.snd))
  simp only [nodeValid, hall, Bool.and_eq_true, wellFormedKind, and_true]
  simp only [hliterals, List.map_cons, List.head?_cons, Option.map_some, exampleValid, hfirst, List.any_cons, hself,
    Option.all_some, Bool.true_or, and_true, List.isEmpty_cons, Bool.not_false, true_and]

/-- The shape of a position that held scalars is valid but where it keeps both zeros. -/
theorem wellFormed_scalarShape (hheld : held vs = .scalars) (h : FlatOf vs flat) :
    wellFormed (scalarShape policy flat) = true ↔ ¬ZerosTogether policy vs := by
  have hne := literals_ne_nil hheld h
  unfold scalarShape
  dsimp only
  split_ifs with hbooleans hkept hone
  · refine iff_of_true rfl fun hzeros => ?_
    obtain ⟨n, hn⟩ := number_of_zero hzeros.zero
    rw [Bool.and_eq_true] at hbooleans
    exact absurd (onlyBooleans_spec h hbooleans.1 hn rfl) (by simp [isBoolean])
  · refine iff_of_true ?_ fun hzeros => ?_
    · refine wellFormed_mk.2 ⟨exampleValid_head h .equality, ?_, rfl⟩
      obtain ⟨p, rest, hliterals⟩ := List.exists_cons_of_ne_nil hne
      simp [nodeValid, hliterals]
    · rw [List.length_map, ← List.length_map (f := Prod.fst), (literals_keys h).length_eq] at hone
      obtain ⟨key, hkey⟩ := List.length_eq_one_iff.1 hone
      have hzero := hkey ▸ hzeros.zero
      have hnegative := hkey ▸ hzeros.negative
      exact absurd ((List.mem_singleton.1 hzero).trans (List.mem_singleton.1 hnegative).symm) (by decide)
  · rw [wellFormed_anyOf h hne]
    refine not_congr ⟨fun hzeros => ⟨hheld, (keepsLiterals_iff h).1 hkept, hzeros.1, hzeros.2⟩, fun hzeros => ?_⟩
    exact ⟨hzeros.zero, hzeros.negative⟩
  · refine iff_of_true ?_ fun hzeros => hkept ((keepsLiterals_iff h).2 hzeros.kept)
    cases domainKind flat with
    | none => rfl
    | some kind => exact wellFormed_mk.2 ⟨exampleValid_head h (.kind kind), rfl, rfl⟩

private theorem ofKind_domain (h : FlatOf vs flat) {kind : ValueKind} (hkind : domainKind flat = some kind) {v : Json} (hv : v ∈ vs)
    (hscalar : isScalar v = true) : ofKind kind v = true := by
  have hflag : ∀ {q : Json → Bool}, vs.any q = false → q v = false := fun hq =>
    Bool.eq_false_iff.2 (List.any_eq_false.1 hq v hv)
  rw [domainKind, h.strings, h.booleans, h.integers, h.decimals] at hkind
  split at hkind
  all_goals
    cases hkind
  case h_1 hbooleans hintegers hdecimals =>
    have hboolean := hflag hbooleans
    have hinteger := hflag hintegers
    have hdecimal := hflag hdecimals
    cases v <;> simp_all [isScalar, isBoolean, isInteger, isDecimal, ofKind]
  case h_2 hstrings _ hintegers hdecimals =>
    have hstring := hflag hstrings
    have hinteger := hflag hintegers
    have hdecimal := hflag hdecimals
    cases v <;> simp_all [isScalar, isString, isInteger, isDecimal, ofKind]
  case h_3 hstrings hbooleans _ hdecimals =>
    have hstring := hflag hstrings
    have hboolean := hflag hbooleans
    have hdecimal := hflag hdecimals
    cases v <;> simp_all [isScalar, isString, isBoolean, isDecimal, ofKind]
  case h_4 hstrings hbooleans hintegers _ =>
    have hstring := hflag hstrings
    have hboolean := hflag hbooleans
    have hinteger := hflag hintegers
    cases v <;> simp_all [isScalar, isString, isBoolean, isInteger, ofKind]
  case h_5 hstrings hbooleans _ _ =>
    have hstring := hflag hstrings
    have hboolean := hflag hbooleans
    cases v <;> simp_all [isScalar, isString, isBoolean, ofKind]

/-- The shape of a position that held scalars admits each of them. -/
theorem admits_scalarShape (h : FlatOf vs flat) {v : Json} (hv : v ∈ vs) (hscalar : isScalar v = true) :
    admitsContent (scalarShape policy flat) (some v) = true := by
  obtain ⟨w, hmem, hscalar', hkey⟩ := literal_of_scalar h hv hscalar
  have hequal := valuesEqual_of_canonical hscalar hscalar' hkey.symm
  unfold scalarShape
  dsimp only
  split_ifs with hbooleans hkept hone
  · rw [Bool.and_eq_true] at hbooleans
    have hboolean := onlyBooleans_spec h hbooleans.1 hv hscalar
    cases v <;> simp_all [isBoolean, admitsContent, admitsWith, admitsValue, ofKind, ShapeNode.of]
  · rw [List.length_map] at hone
    obtain ⟨p, hliterals⟩ := List.length_eq_one_iff.1 hone
    rw [hliterals] at hmem ⊢
    obtain rfl := List.mem_singleton.1 hmem
    simp [admitsContent, withExample, admitsWith, admitsValue, exampleDocument, hequal]
  · have hany : (flat.literals.map Prod.snd).any (valuesEqual v) = true :=
      List.any_eq_true.2 ⟨w, List.mem_map_of_mem hmem, hequal⟩
    simpa [admitsContent, withExample, admitsWith, admitsValue] using hany
  · cases hkind : domainKind flat with
    | none => rfl
    | some kind => exact ofKind_domain h hkind hv hscalar

end Scalars

end PactJanus.Recording.Literals
