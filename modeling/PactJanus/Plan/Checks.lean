import PactJanus.Plan.Positions

namespace PactJanus.Plan.Checks

open PactJanus.Data.Json PactJanus.Shape.Model PactJanus.Plan.Model PactJanus.Plan.Value PactJanus.Plan.Result
  PactJanus.Plan.Interpret PactJanus.Plan.Compile PactJanus.Plan.Outcome PactJanus.Plan.Accepts PactJanus.Plan.Good
  PactJanus.Plan.Positions PactJanus.Lib.Text

/-! What each check the compiler emits says of the value under test. -/

@[simp] theorem valueAt_zero {e : Executed} {es : List Executed} : valueAt (e :: es) 0 = valueOf e := rfl

@[simp] theorem valueAt_succ {e : Executed} {es : List Executed} (n : Nat) :
    valueAt (e :: es) (n + 1) = valueAt es n := rfl

@[simp] theorem valueOf_literal (literal : Literal) (c : Interpret.Ctx) :
    valueOf (run (.value literal) c) = fromLiteral literal := rfl

theorem clean_literal (literal : Literal) (c : Interpret.Ctx) : clean (run (.value literal) c) := by
  refine (clean_of_result rfl).2 ⟨?_, by simp [childrenOf, run]⟩
  rw [resultGood_false]
  rfl

@[simp] theorem resultGood_failed {strict : Bool} {pieces : List String} {path : Option String} :
    resultGood strict (failed pieces path) = false := rfl

@[simp] theorem resultGood_error {strict : Bool} {message : String} {path : Option String} :
    resultGood strict (.error message path) = false := rfl

@[simp] theorem resultGood_ok {strict : Bool} : resultGood strict .ok = true := rfl

@[simp] theorem resultGood_passed {strict : Bool} : resultGood strict (.value (.bool true)) = true := rfl

theorem good_matchKind {strict : Bool} {es : List Executed} {holds : RuntimeValue → Bool} {kindName : String} :
    resultGood strict (matchKind es holds kindName) = holds (valueAt es 0) := by
  unfold matchKind
  cases h : holds (valueAt es 0) <;> simp [h]

theorem good_expectForm {strict : Bool} {es : List Executed} {holds : RuntimeValue → Bool} {message : String} :
    resultGood strict (expectForm es holds message) = holds (valueAt es 0) := by
  unfold expectForm
  cases h : holds (valueAt es 0) <;> simp [h]

theorem good_expectCount {strict : Bool} {es : List Executed} {size : UInt64}
    (hsize : valueAt es 1 = fromLiteral (Literal.number size)) :
    resultGood strict (expectCount es) = (lengthOpt (valueAt es 0) == some size.toNat) := by
  unfold expectCount
  have hvalue : valueAsU64 (valueAt es 1) = some size.toNat := by rw [hsize]; rfl
  simp only [hvalue]
  cases lengthOpt (valueAt es 0) with
  | none => rfl
  | some len =>
    by_cases h : len = size.toNat
    · simp [h]
    · simp [h, Ne.symm h]

theorem good_expectSize {strict : Bool} {es : List Executed} (min : UInt64) (max : Option UInt64)
    (hmin : valueAt es 1 = fromLiteral (Literal.number min))
    (hmax : valueAsU64 (valueAt es 2) = max.map UInt64.toNat) :
    resultGood strict (expectSize es) =
      (lengthOpt (valueAt es 0)).any fun len => decide (min.toNat ≤ len) && max.all fun m => decide (len ≤ m.toNat) := by
  unfold expectSize
  have hvalue : valueAsU64 (valueAt es 1) = some min.toNat := by rw [hmin]; rfl
  simp only [hvalue, hmax, Option.getD_some]
  cases lengthOpt (valueAt es 0) with
  | none => rfl
  | some len =>
    simp only [Option.any_some, Option.all_map]
    split
    · rename_i h
      simpa [Function.comp_def] using h
    · rename_i h
      rw [resultGood_failed, eq_comm, Bool.and_eq_false_iff]
      by_contra hne
      push Not at hne
      refine h ⟨by simpa using hne.1, by simpa [Function.comp_def] using hne.2⟩

theorem good_matchEquality {strict : Bool} {es : List Executed} :
    resultGood strict (matchEquality es) = runtimeEq (valueAt es 0) (valueAt es 1) := by
  unfold matchEquality
  cases h : runtimeEq (valueAt es 0) (valueAt es 1) <;> simp [h]

theorem good_matchType {strict : Bool} {es : List Executed} :
    resultGood strict (matchType es) = (!isAbsent (valueAt es 0) && kindOf (valueAt es 0) == kindOf (valueAt es 1)) := by
  simp only [matchType]
  split
  · rename_i h
    simp [h.1, h.2]
  · rename_i h
    rw [resultGood_failed, eq_comm, Bool.and_eq_false_iff]
    by_contra hne
    push Not at hne
    exact h ⟨by simpa using hne.1, by simpa using hne.2⟩

theorem good_matchAnyOf {strict : Bool} {e : Executed} {es : List Executed} :
    resultGood strict (matchAnyOf (e :: es)) = es.any fun o => runtimeEq (valueOf o) (valueOf e) := by
  unfold matchAnyOf
  simp only [List.drop_succ_cons, List.drop_zero, valueAt_zero, List.any_map, Function.comp_def]
  cases h : es.any fun o => runtimeEq (valueOf o) (valueOf e) <;> simp

theorem good_matchRegex {strict : Bool} {libraries : Libraries} {es : List Executed} {pattern : String}
    (hp : valueAt es 1 = .string pattern) :
    resultGood strict (matchRegex libraries es) = (asMatchableText (valueAt es 0)).any fun s =>
      match libraries.regexMatch pattern s with
      | .ok matched => matched
      | .error _ => false := by
  unfold matchRegex
  simp only [hp, plainText]
  cases asMatchableText (valueAt es 0) with
  | none => rfl
  | some s =>
    simp only [Option.any_some]
    cases libraries.regexMatch pattern s with
    | error err => rfl
    | ok matched => cases matched <;> rfl

theorem good_matchTemporal {strict : Bool} {libraries : Libraries} {es : List Executed} {name kindName : String} :
    resultGood strict (matchTemporal libraries es name kindName) =
      (asText (valueAt es 0)).any fun s =>
        (libraries.validateDatetime s ((es[1]?.map fun c => plainText (valueOf c)).getD name)).isOk := by
  simp only [matchTemporal]
  cases asText (valueAt es 0) with
  | none => rfl
  | some s =>
    simp only [Option.any_some]
    cases libraries.validateDatetime s ((es[1]?.map fun c => plainText (valueOf c)).getD name) <;> rfl

theorem good_matchInclude {strict : Bool} {es : List Executed} {substring : String}
    (hs : valueAt es 1 = .string substring) :
    resultGood strict (matchInclude es) = (asText (valueAt es 0)).any (containsText substring) := by
  unfold matchInclude
  simp only [hs, plainText]
  cases asText (valueAt es 0) with
  | none => rfl
  | some s => cases h : containsText substring s <;> simp [h]

theorem good_matchContentType {strict : Bool} {content : Option Resolve.ContentDetector} {es : List Executed}
    {contentType : String} (hs : valueAt es 1 = .string contentType) :
    resultGood strict (matchContentType content es) =
      content.any fun detect => (detect (valueAt es 0) (locus es)).any (mediaTypeMatches contentType) := by
  unfold matchContentType
  simp only [hs, plainText]
  cases content with
  | none => rfl
  | some detect =>
    cases hd : detect (valueAt es 0) (locus es) with
    | none => simp [hd]
    | some detected => cases h : mediaTypeMatches contentType detected <;> simp [hd, h]

theorem good_matchSemver {strict : Bool} {libraries : Libraries} {es : List Executed} :
    resultGood strict (matchSemver libraries es) = (asText (valueAt es 0)).any libraries.semver := by
  simp only [matchSemver]
  cases asText (valueAt es 0) with
  | none => rfl
  | some s => cases h : libraries.semver s <;> simp [h]

end PactJanus.Plan.Checks
