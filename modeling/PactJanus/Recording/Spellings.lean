import Mathlib.Data.Finset.Max
import PactJanus.Recording.Literals

namespace PactJanus.Recording.Spellings

open PactJanus.Data.Json PactJanus.Lib PactJanus.Lib.Lists PactJanus.Shape.Model PactJanus.Recording.Observe
  PactJanus.Recording.Emission PactJanus.Recording.Evidence PactJanus.Recording.Summary PactJanus.Recording.Literals

/-! The literals a scalar position is written with, and what the order of its values decides of them. -/

/-- The first scalar with a key: the literal that is kept under it. -/
def firstSeen (key : String) (vs : List Json) : Option Json := vs.find? fun v => isScalar v && canonical v == key

def isNumber (v : Json) : Bool := isInteger v || isDecimal v

/-- The scalars are all strings, all booleans or all numbers. -/
def OneKind (vs : List Json) : Prop :=
  (∀ v ∈ scalarsIn vs, isString v = true) ∨ (∀ v ∈ scalarsIn vs, isBoolean v = true) ∨
    ∀ v ∈ scalarsIn vs, isNumber v = true

/-- The shape of a scalar position holds a literal of the key: a set holds all of them, an open domain the least. -/
def Shown (policy : RecordingPolicy) (vs : List Json) (key : String) : Prop :=
  key ∈ keys vs ∧ (KeepsLiterals policy vs ∨ OneKind vs ∧ ∀ other ∈ keys vs, ¬other < key)

variable {policy : RecordingPolicy} {vs ws : List Json}

theorem firstSeen_some {key : String} {v : Json} (h : firstSeen key vs = some v) :
    v ∈ vs ∧ isScalar v = true ∧ canonical v = key := by
  have hmem := List.mem_of_find?_eq_some h
  have hfound := List.find?_some h
  rw [Bool.and_eq_true, beq_iff_eq] at hfound
  exact ⟨hmem, hfound⟩

theorem firstSeen_isSome {key : String} : (firstSeen key vs).isSome = true ↔ key ∈ keys vs := by
  simp only [firstSeen, List.find?_isSome, keys, List.mem_dedup, List.mem_map, mem_scalarsIn, Bool.and_eq_true, beq_iff_eq,
    and_assoc]

/-! The kind of an open domain. -/

private theorem strings_iff :
    (∀ v ∈ scalarsIn vs, isString v = true) ↔ vs.any isBoolean = false ∧ vs.any isInteger = false ∧ vs.any isDecimal = false := by
  simp only [List.any_eq_false, mem_scalarsIn]
  constructor
  · intro h
    refine ⟨fun v hv => ?_, fun v hv => ?_, fun v hv => ?_⟩
    all_goals
      have hstring := h v
      cases v <;> simp_all [isScalar, isString, isBoolean, isInteger, isDecimal]
  · rintro ⟨hboolean, hinteger, hdecimal⟩ v ⟨hv, hscalar⟩
    have hboolean := hboolean v hv
    have hinteger := hinteger v hv
    have hdecimal := hdecimal v hv
    cases v <;> simp_all [isScalar, isString, isBoolean, isInteger, isDecimal]

private theorem booleans_iff :
    (∀ v ∈ scalarsIn vs, isBoolean v = true) ↔ vs.any isString = false ∧ vs.any isInteger = false ∧ vs.any isDecimal = false := by
  simp only [List.any_eq_false, mem_scalarsIn]
  constructor
  · intro h
    refine ⟨fun v hv => ?_, fun v hv => ?_, fun v hv => ?_⟩
    all_goals
      have hboolean := h v
      cases v <;> simp_all [isScalar, isString, isBoolean, isInteger, isDecimal]
  · rintro ⟨hstring, hinteger, hdecimal⟩ v ⟨hv, hscalar⟩
    have hstring := hstring v hv
    have hinteger := hinteger v hv
    have hdecimal := hdecimal v hv
    cases v <;> simp_all [isScalar, isString, isBoolean, isInteger, isDecimal]

private theorem numbers_iff :
    (∀ v ∈ scalarsIn vs, isNumber v = true) ↔ vs.any isString = false ∧ vs.any isBoolean = false := by
  simp only [List.any_eq_false, mem_scalarsIn]
  constructor
  · intro h
    refine ⟨fun v hv => ?_, fun v hv => ?_⟩
    all_goals
      have hnumber := h v
      cases v <;> simp_all [isScalar, isString, isBoolean, isNumber, isInteger, isDecimal]
  · rintro ⟨hstring, hboolean⟩ v ⟨hv, hscalar⟩
    have hstring := hstring v hv
    have hboolean := hboolean v hv
    cases v <;> simp_all [isScalar, isString, isBoolean, isNumber, isInteger, isDecimal]

private theorem some_kind (h : scalarsIn vs ≠ []) :
    vs.any isString = true ∨ vs.any isBoolean = true ∨ vs.any isInteger = true ∨ vs.any isDecimal = true := by
  obtain ⟨v, hv⟩ := List.exists_mem_of_ne_nil _ h
  obtain ⟨hmem, hscalar⟩ := mem_scalarsIn.1 hv
  simp only [List.any_eq_true]
  cases v with
  | string s => exact Or.inl ⟨_, hmem, rfl⟩
  | bool b => exact Or.inr (Or.inl ⟨_, hmem, rfl⟩)
  | number n =>
    cases hwritten : isWrittenInteger n with
    | true => exact Or.inr (Or.inr (Or.inl ⟨_, hmem, hwritten⟩))
    | false => exact Or.inr (Or.inr (Or.inr ⟨_, hmem, by rw [isDecimal, hwritten]; rfl⟩))
  | _ => cases hscalar

private theorem domainKind_isSome (h : scalarsIn vs ≠ []) : (domainKind (evidence vs).flat).isSome = true ↔ OneKind vs := by
  have hflat := flatOf_evidence vs
  have hkind := some_kind h
  rw [OneKind, strings_iff, booleans_iff, numbers_iff, domainKind, hflat.strings, hflat.booleans, hflat.integers, hflat.decimals]
  revert hkind
  cases vs.any isString <;> cases vs.any isBoolean <;> cases vs.any isInteger <;> cases vs.any isDecimal <;> simp

/-! The literals of the same values in another order. -/

private theorem keys_perm (h : vs.Perm ws) : (keys vs).Perm (keys ws) := ((h.filter isScalar).map canonical).dedup

private theorem literals_lookup (vs : List Json) (key : String) :
    (evidence vs).flat.literals.lookup key = firstSeen key vs := lookup_literals vs key

private theorem literals_names (h : vs.Perm ws) :
    (evidence vs).flat.literals.map Prod.fst = (evidence ws).flat.literals.map Prod.fst := by
  have hvs := flatOf_evidence vs
  have hws := flatOf_evidence ws
  have hperm := ((literals_keys hvs).trans (keys_perm h)).trans (literals_keys hws).symm
  have hsorted : ∀ literals : List (String × Json), SortedMap.Sorted literals → (literals.map Prod.fst).Pairwise (· < ·) :=
    fun literals hliterals => List.pairwise_map.2 hliterals
  exact hperm.eq_of_pairwise (fun a b _ _ hab hba => absurd hba (lt_asymm hab)) (hsorted _ hvs.sorted) (hsorted _ hws.sorted)

/-- The flat evidence of the same values in another order, but for how the literals are written. -/
private theorem flat_perm (h : vs.Perm ws) :
    (evidence ws).flat = { (evidence vs).flat with literals := (evidence ws).flat.literals } := by
  have hvs := flatOf_evidence vs
  have hws := flatOf_evidence ws
  have hfields (flat other : Flat) (hseen : flat.seen = other.seen) (hnulls : flat.nulls = other.nulls)
      (hscalars : flat.scalars = other.scalars) (hstrings : flat.strings = other.strings)
      (hbooleans : flat.booleans = other.booleans) (hintegers : flat.integers = other.integers)
      (hdecimals : flat.decimals = other.decimals) : flat = { other with literals := flat.literals } := by
    cases flat
    simp_all
  apply hfields
  · rw [hvs.seen, hws.seen, h.length_eq]
  · rw [hvs.nulls, hws.nulls, h.countP_eq]
  · rw [hvs.scalars, hws.scalars, h.countP_eq]
  · rw [hvs.strings, hws.strings, h.any_eq]
  · rw [hvs.booleans, hws.booleans, h.any_eq]
  · rw [hvs.integers, hws.integers, h.any_eq]
  · rw [hvs.decimals, hws.decimals, h.any_eq]

private theorem firstSeen_none (h : vs.Perm ws) {key : String} (hkey : key ∉ keys vs) : firstSeen key vs = firstSeen key ws := by
  have hvs : firstSeen key vs = none := Option.not_isSome_iff_eq_none.1 (mt firstSeen_isSome.1 hkey)
  have hws : firstSeen key ws = none :=
    Option.not_isSome_iff_eq_none.1 (mt firstSeen_isSome.1 (mt (keys_perm h).mem_iff.2 hkey))
  rw [hvs, hws]

private theorem exists_least (h : scalarsIn vs ≠ []) : ∃ key ∈ keys vs, ∀ other ∈ keys vs, ¬other < key := by
  obtain ⟨v, hv⟩ := List.exists_mem_of_ne_nil _ h
  have hne : (keys vs).toFinset.Nonempty :=
    ⟨canonical v, List.mem_toFinset.2 (List.mem_dedup.2 (List.mem_map_of_mem hv))⟩
  obtain ⟨key, hkey, hleast⟩ := Finset.exists_min_image (keys vs).toFinset id hne
  exact ⟨key, List.mem_toFinset.1 hkey, fun other hother => not_lt.2 (hleast other (List.mem_toFinset.2 hother))⟩

/-- The first literal is that of the least key. -/
private theorem head_literals {key : String} (hkey : key ∈ keys vs) (hleast : ∀ other ∈ keys vs, ¬other < key) :
    ((evidence vs).flat.literals.map Prod.snd).head? = firstSeen key vs := by
  have hflat := flatOf_evidence vs
  have hnames := literals_keys hflat
  rw [← literals_lookup]
  have hsorted := hflat.sorted
  cases hliterals : (evidence vs).flat.literals with
  | nil =>
    rw [hliterals] at hnames
    exact absurd (hnames.mem_iff.2 hkey) List.not_mem_nil
  | cons p rest =>
    rw [hliterals] at hnames hsorted
    have hp : p.1 ∈ keys vs := hnames.mem_iff.1 List.mem_cons_self
    obtain ⟨q, hq, hqkey⟩ := List.mem_map.1 (hnames.mem_iff.2 hkey)
    have hsame : key = p.1 := by
      rcases List.mem_cons.1 hq with rfl | hq
      · exact hqkey.symm
      · exact absurd (hqkey ▸ (List.pairwise_cons.1 hsorted).1 q hq) (hleast p.1 hp)
    rw [hsame, lookup_cons_ite p.1 p.2, if_pos rfl]
    rfl

section Shape

variable {flat : Flat} {literals : List (String × Json)}

private theorem keepsLiterals_with (h : literals.length = flat.literals.length) :
    keepsLiterals policy { flat with literals := literals } = keepsLiterals policy flat := by
  simp only [keepsLiterals, h]

/-- The shape of an open domain is written with its first literal alone. -/
private theorem scalarShape_open (hkeeps : keepsLiterals policy flat = false) (h : literals.length = flat.literals.length)
    (hhead : (domainKind flat).isSome = true → (literals.map Prod.snd).head? = (flat.literals.map Prod.snd).head?) :
    scalarShape policy { flat with literals := literals } = scalarShape policy flat := by
  have hbooleans : onlyBooleans { flat with literals := literals } = onlyBooleans flat := rfl
  have hdomain : domainKind { flat with literals := literals } = domainKind flat := rfl
  simp only [scalarShape, keepsLiterals_with h, hkeeps, hbooleans, hdomain, List.length_map, h, Bool.false_eq_true, if_false]
  cases hkind : domainKind flat with
  | none => rfl
  | some kind => rw [hhead (by rw [hkind]; rfl)]

end Shape

/-- A scalar position has one shape in two orders of its values where each literal it is written with is first seen
written alike. -/
theorem scalarShape_congr (hperm : vs.Perm ws) (hheld : held vs = .scalars)
    (hshown : ∀ key, Shown policy vs key → firstSeen key vs = firstSeen key ws) :
    scalarShape policy (evidence ws).flat = scalarShape policy (evidence vs).flat := by
  have hnames := literals_names hperm
  have hlength : (evidence ws).flat.literals.length = (evidence vs).flat.literals.length := by
    simpa using (congrArg List.length hnames).symm
  have hscalars := (held_scalars.1 hheld).2.2
  rw [flat_perm hperm]
  cases hkeeps : keepsLiterals policy (evidence vs).flat with
  | true =>
    have hsame : (evidence ws).flat.literals = (evidence vs).flat.literals := by
      refine (flatOf_evidence ws).sorted.ext (flatOf_evidence vs).sorted fun key => ?_
      rw [literals_lookup, literals_lookup]
      by_cases hkey : key ∈ keys vs
      · exact (hshown key ⟨hkey, Or.inl ((keepsLiterals_iff (flatOf_evidence vs)).1 hkeeps)⟩).symm
      · exact (firstSeen_none hperm hkey).symm
    rw [hsame]
  | false =>
    refine scalarShape_open hkeeps hlength fun hdomain => ?_
    obtain ⟨key, hkey, hleast⟩ := exists_least hscalars
    rw [head_literals hkey hleast, head_literals ((keys_perm hperm).mem_iff.1 hkey)
      fun other hother => hleast other ((keys_perm hperm).mem_iff.2 hother)]
    exact (hshown key ⟨hkey, Or.inr ⟨(domainKind_isSome hscalars).1 hdomain, hleast⟩⟩).symm

/-! What two shapes of one position say of its literals. -/

private theorem literals_of_values (vs : List Json) :
    (evidence vs).flat.literals = ((evidence vs).flat.literals.map Prod.snd).map fun v => (canonical v, v) := by
  rw [List.map_map]
  refine (List.map_id _).symm.trans (List.map_congr_left fun p hp => ?_)
  exact Prod.ext ((flatOf_evidence vs).seenBefore p hp).2.2.symm rfl

private theorem values_of_anyOf {vs ws : List Json} {e e' : Option Json}
    (h : withExample (.anyOf vs) e = withExample (.anyOf ws) e') : vs = ws := by
  injection h with _ _ hkind
  exact ShapeKind.anyOf.inj hkind

private theorem example_of_shape {kind kind' : ShapeKind} {e e' : Option Json} (h : withExample kind e = withExample kind' e') :
    e = e' := by
  injection h with hexample
  cases e <;> cases e' <;> simp_all

private theorem eq_of_head {vs ws : List Json} (hvs : vs.length = 1) (hws : ws.length = 1) (h : vs.head? = ws.head?) :
    vs = ws := by
  obtain ⟨v, rfl⟩ := List.length_eq_one_iff.1 hvs
  obtain ⟨w, rfl⟩ := List.length_eq_one_iff.1 hws
  exact congrArg (fun u => [u]) (Option.some.inj h)

/-- Where a number was seen, two orders of a position's values that give it one shape first see each literal it is
written with written alike. -/
private theorem firstSeen_of_number (hperm : vs.Perm ws) (hheld : held vs = .scalars)
    (h : scalarShape policy (evidence ws).flat = scalarShape policy (evidence vs).flat) {n : Number} (hn : .number n ∈ vs)
    {key : String} (hkey : Shown policy vs key) : firstSeen key vs = firstSeen key ws := by
  have hvs := flatOf_evidence vs
  have hws := flatOf_evidence ws
  have hlength : ((evidence ws).flat.literals.map Prod.snd).length = ((evidence vs).flat.literals.map Prod.snd).length := by
    simpa using (congrArg List.length (literals_names hperm)).symm
  have hvsBooleans : onlyBooleans (evidence vs).flat = false :=
    Bool.eq_false_iff.2 fun honly => Bool.false_ne_true (onlyBooleans_spec hvs honly hn rfl)
  have hwsBooleans : onlyBooleans (evidence ws).flat = false :=
    Bool.eq_false_iff.2 fun honly => Bool.false_ne_true (onlyBooleans_spec hws honly (hperm.mem_iff.1 hn) rfl)
  have hkeeps : keepsLiterals policy (evidence ws).flat = keepsLiterals policy (evidence vs).flat := by
    rw [flat_perm hperm, keepsLiterals_with (by simpa using hlength)]
  have hdomain : domainKind (evidence ws).flat = domainKind (evidence vs).flat := by
    rw [flat_perm hperm]
    rfl
  simp only [scalarShape, hvsBooleans, hwsBooleans, hkeeps, hdomain, hlength, Bool.false_and, Bool.false_eq_true, if_false] at h
  obtain ⟨hmem, hshown⟩ := hkey
  by_cases hkept : KeepsLiterals policy vs
  · rw [if_pos ((keepsLiterals_iff hvs).2 hkept), if_pos ((keepsLiterals_iff hvs).2 hkept)] at h
    have hvalues : (evidence ws).flat.literals.map Prod.snd = (evidence vs).flat.literals.map Prod.snd := by
      split_ifs at h with hone
      · exact eq_of_head (hlength.trans hone) hone (example_of_shape h)
      · exact values_of_anyOf h
    rw [← literals_lookup, ← literals_lookup, literals_of_values vs, literals_of_values ws, hvalues]
  · obtain ⟨hkind, hleast⟩ := hshown.resolve_left hkept
    obtain ⟨kind, hsome⟩ := Option.isSome_iff_exists.1 ((domainKind_isSome (held_scalars.1 hheld).2.2).2 hkind)
    rw [if_neg (mt (keepsLiterals_iff hvs).1 hkept), if_neg (mt (keepsLiterals_iff hvs).1 hkept), hsome] at h
    rw [← head_literals hmem hleast, ← head_literals ((keys_perm hperm).mem_iff.1 hmem)
      fun other hother => hleast other ((keys_perm hperm).mem_iff.2 hother)]
    exact (example_of_shape h).symm

/-- Two orders of a scalar position's values that give it one shape first see each literal it is written with written
alike. -/
theorem firstSeen_of_scalarShape (hperm : vs.Perm ws) (hheld : held vs = .scalars)
    (h : scalarShape policy (evidence ws).flat = scalarShape policy (evidence vs).flat) {key : String}
    (hkey : Shown policy vs key) : firstSeen key vs = firstSeen key ws := by
  obtain ⟨v, hv⟩ := Option.isSome_iff_exists.1 (firstSeen_isSome.2 hkey.1)
  obtain ⟨w, hw⟩ := Option.isSome_iff_exists.1 (firstSeen_isSome.2 ((keys_perm hperm).mem_iff.1 hkey.1))
  obtain ⟨hmem, hscalar, hvkey⟩ := firstSeen_some hv
  obtain ⟨-, hscalar', hwkey⟩ := firstSeen_some hw
  rcases of_canonical_eq hscalar hscalar' (hvkey.trans hwkey.symm) with rfl | ⟨m, n, rfl, -, -⟩
  · rw [hv, hw]
  · exact firstSeen_of_number hperm hheld h hmem hkey

end PactJanus.Recording.Spellings
