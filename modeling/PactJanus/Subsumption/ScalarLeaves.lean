import PactJanus.Subsumption.Soundness

namespace PactJanus.Subsumption.ScalarLeaves

open PactJanus.Data.Json PactJanus.Data.Equality PactJanus.Lib.Text PactJanus.Shape PactJanus.Shape.Model
  PactJanus.Shape.Valid PactJanus.Shape.Nodes PactJanus.Shape.Admits PactJanus.Plan.Value PactJanus.Plan.Result PactJanus.Plan.Interpret
  PactJanus.Plan.Accepts PactJanus.Plan.Compile PactJanus.Plan.Semantics PactJanus.Plan.Outcome PactJanus.Plan.Documents PactJanus.Plan.Verdict
  PactJanus.Subsumption.Findings PactJanus.Subsumption.Classes PactJanus.Subsumption.Residual
  PactJanus.Subsumption.Compare PactJanus.Subsumption.Compare.Walk PactJanus.Subsumption.Soundness

/-! What a comparison's `yes` is worth on shapes of scalar values: literals are compared by value, and some operators
read how a value is written. -/

/-- A JSON value with none under it. -/
def isScalarValue : Json → Bool
  | .array _ | .object _ => false
  | _ => true

/-- The shapes of scalar values: literals, kinds and texts. -/
def isScalarLeaf (S : ShapeNode) : Bool :=
  match S.kind with
  | .equality | .type => S.example?.any fun x => x.encoded.isNone && isScalarValue x.value
  | .anyOf options => options.all isScalarValue
  | .kind _ | .regex _ | .temporal .. | .includes _ | .semver => true
  | _ => false

/-- The text a pattern is matched against: a number and a boolean have one too. -/
def matchableText : Json → Option String
  | .string s => some s
  | .number n => some (numberText n)
  | .bool b => some (if b then "true" else "false")
  | _ => none

def patternMatches (libraries : Libraries) (pattern s : String) : Bool :=
  match libraries.regexMatch pattern s with
  | .ok matched => matched
  | .error _ => false

/-- What the plan of a scalar leaf accepts of a document. -/
def leafAdmits (libraries : Libraries) (S : ShapeNode) (v : Json) : Bool :=
  match S.kind with
  | .equality => S.example?.any fun x => valuesEqual v x.value
  | .type => S.example?.any fun x => decide (classOfValue v = classOfValue x.value)
  | .anyOf options => options.any (valuesEqual v)
  | .kind k => kindAdmits k v
  | .regex pattern => (matchableText v).any (patternMatches libraries pattern)
  | .temporal k format => (asStr v).any fun s => (libraries.validateDatetime s (format.getD (defaultFormat k))).isOk
  | .includes substring => (asStr v).any (containsText substring)
  | .semver => (asStr v).any libraries.semver
  | _ => false

/-- The literals a shape lists. -/
def literals (S : ShapeNode) : List Json :=
  match S.kind with
  | .equality => (S.example?.map Example.value).toList
  | .anyOf options => options
  | _ => []

def asNumber : Json → Option Number
  | .number n => some n
  | _ => none

def numbersListed (S : ShapeNode) : List Number := (literals S).filterMap asNumber

/-- A shape whose values are the strings. -/
def admitsStringsOnly (S : ShapeNode) : Bool :=
  match S.kind with
  | .kind .string => true
  | .type => S.example?.any fun x => decide (classOfValue x.value = .string)
  | _ => false

/-- How a value is written makes no difference to the consumer: every number of the value of a number the provider lists
is an integer, a decimal or a text the pattern matches, as the consumer asks; and of what the provider's own pattern
matches nothing but strings is left where the consumer asks for strings. -/
def WritingIndifferent (libraries : Libraries) (provider consumer : ShapeNode) : Prop :=
  match consumer.kind with
  | .kind .integer => numbersListed provider = []
  | .kind .decimal => ∀ o ∈ numbersListed provider, ∀ n, isWrittenInteger n = true → numbersEqual n o = false
  | .regex pattern =>
    ∀ o ∈ numbersListed provider, ∀ n, numbersEqual n o = true → patternMatches libraries pattern (numberText n) = true
  | _ =>
    ∀ pattern, provider.kind = .regex pattern → admitsStringsOnly consumer = true →
      (∀ n, patternMatches libraries pattern (numberText n) = false) ∧
        ∀ b : Bool, patternMatches libraries pattern (if b then "true" else "false") = false

/-! What a leaf's plan accepts. -/

section Plans

variable {libraries : Libraries} {S : ShapeNode} {v : Json}

private theorem equal_scalar {a b : Json} (h : isScalarValue b = true) : valuesEqual a b = valuesEqual b a := by
  cases b with
  | array | object => exact absurd h (by simp [isScalarValue])
  | bool b => cases a <;> first | rfl | exact Bool.beq_comm
  | number n =>
    cases a with
    | number m => exact Bool.eq_iff_iff.2 ⟨numbersEqual_symm m n, numbersEqual_symm n m⟩
    | _ => rfl
  | string s => cases a <;> first | rfl | exact Bool.beq_comm
  | null => cases a <;> rfl

private theorem asText_fromJson (v : Json) : asText (fromJson v) = asStr v := by
  cases v <;> rfl

private theorem asMatchableText_fromJson (v : Json) : asMatchableText (fromJson v) = matchableText v := by
  cases v <;> rfl

private theorem literal_of_scalar {x : Example} (hx : x.encoded = none) :
    fromLiteral (exampleLiteral (some x)) = fromJson x.value :=
  exampleLiteral_eq (by simp [exampleDocument, hx])

/-- The example of a literal or of a `type` is a scalar document. -/
private theorem scalar_example {e : Option Example}
    (h : (e.any fun x => x.encoded.isNone && isScalarValue x.value) = true) :
    ∃ x, e = some x ∧ x.encoded = none ∧ isScalarValue x.value = true := by
  obtain ⟨x, rfl, hx⟩ := (Option.any_eq_true _ _).1 h
  rw [Bool.and_eq_true, Option.isNone_iff_eq_none] at hx
  exact ⟨x, rfl, hx⟩

theorem accepts_scalarLeaf {strict : Bool} {env : Env} {path place : String} (h : isScalarLeaf S = true) :
    accepts strict env [] S path place (fromJson v) = leafAdmits env.libraries S v := by
  obtain ⟨e, g, k⟩ := S
  cases k with
  | equality =>
    obtain ⟨x, rfl, hx, -⟩ := scalar_example h
    change runtimeEq (fromJson v) (fromLiteral (exampleLiteral (some x))) = valuesEqual v x.value
    rw [literal_of_scalar hx, runtimeEq_fromJson]
  | type =>
    obtain ⟨x, rfl, hx, -⟩ := scalar_example h
    change (!isAbsent (fromJson v) && kindOf (fromJson v) == kindOf (fromLiteral (exampleLiteral (some x)))) =
      decide (classOfValue v = classOfValue x.value)
    rw [literal_of_scalar hx]
    cases v <;> cases x.value <;> rfl
  | anyOf options =>
    change (options.any fun o => runtimeEq (fromJson o) (fromJson v)) = options.any (valuesEqual v)
    refine Lib.Lists.any_congr_mem fun o ho => ?_
    rw [runtimeEq_fromJson, equal_scalar (List.all_eq_true.1 h o ho)]
  | kind k => cases k <;> cases v <;> rfl
  | regex pattern =>
    change (asMatchableText (fromJson v)).any _ = (matchableText v).any (patternMatches env.libraries pattern)
    rw [asMatchableText_fromJson]
    rfl
  | temporal k format =>
    change (asText (fromJson v)).any _ = (asStr v).any _
    rw [asText_fromJson]
  | includes substring =>
    change (asText (fromJson v)).any _ = (asStr v).any _
    rw [asText_fromJson]
  | semver =>
    change (asText (fromJson v)).any _ = (asStr v).any _
    rw [asText_fromJson]
  | _ => exact nomatch h

theorem matched_scalarLeaf {slot : Slot} {env : Env} (h : isScalarLeaf S = true) (hvalid : wellFormed S = true) :
    slot.verdict env S [] (fromJson v) = .matched ↔ leafAdmits env.libraries S v = true := by
  rw [matched_iff hvalid (isDocument_fromJson v), accepts_scalarLeaf h]

theorem matchedBy_scalarLeaf (h : isScalarLeaf S = true) (hvalid : wellFormed S = true) :
    matchedBy libraries S v = leafAdmits libraries S v := by
  rw [Bool.eq_iff_iff, matchedBy, decide_eq_true_iff]
  exact matched_scalarLeaf h hvalid

end Plans

/-! The provider's literals, each in every way it can be written. -/

section Literals

variable {libraries : Libraries} {p c : ShapeNode}

private theorem mem_numbersListed {S : ShapeNode} {n : Number} : n ∈ numbersListed S ↔ Json.number n ∈ literals S := by
  rw [numbersListed, List.mem_filterMap]
  constructor
  · rintro ⟨o, ho, hn⟩
    cases o with
    | number m => exact Option.some.inj hn ▸ ho
    | _ => exact nomatch hn
  · exact fun h => ⟨_, h, rfl⟩

/-- A way of writing a value that is not the value as it is written is one of a number. -/
private theorem rewritten {o v : Json} (ho : isScalarValue o = true) (h : valuesEqual v o = true) :
    v = o ∨ ∃ n m, v = .number n ∧ o = .number m ∧ numbersEqual n m = true := by
  cases o with
  | array | object => exact nomatch ho
  | null => exact Or.inl (isNull_iff.1 ((equal_null rfl).symm.trans h))
  | bool b =>
    cases v with
    | bool a => exact Or.inl (congrArg Json.bool (eq_of_beq h))
    | _ => exact nomatch h
  | string b =>
    cases v with
    | string a => exact Or.inl (congrArg Json.string (eq_of_beq h))
    | _ => exact nomatch h
  | number m =>
    cases v with
    | number n => exact Or.inr ⟨n, m, rfl, rfl, h⟩
    | _ => exact nomatch h

/-- An operator that reads a number by how it is written. -/
private def readsWriting : ShapeKind → Bool
  | .kind .integer | .kind .decimal | .regex _ => true
  | _ => false

private theorem admits_rewritten (hreads : readsWriting c.kind = false) {n m : Number} (h : numbersEqual n m = true)
    (hadmits : leafAdmits libraries c (.number m) = true) : leafAdmits libraries c (.number n) = true := by
  obtain ⟨e, g, k⟩ := c
  cases k with
  | equality =>
    obtain ⟨x, rfl, hx⟩ := (Option.any_eq_true _ _).1 hadmits
    exact valuesEqual_trans (b := .number m) h hx
  | anyOf options =>
    obtain ⟨o, ho, heq⟩ := List.any_eq_true.1 hadmits
    exact List.any_eq_true.2 ⟨o, ho, valuesEqual_trans (b := .number m) h heq⟩
  | type => exact hadmits
  | kind k =>
    cases k with
    | integer | decimal => exact nomatch hreads
    | _ => exact hadmits
  | regex => exact nomatch hreads
  | _ => exact hadmits

/-- The integer and the decimal a number can be written as: the decimal always can. -/
private theorem decimal_of (n : Number) : ∃ m, isWrittenInteger m = false ∧ numbersEqual m n = true :=
  ⟨.float (asF64 n), rfl, by simp [numbersEqual, asF64]⟩

private theorem not_regex_of_literals (hne : literals p ≠ []) (pattern : String) : p.kind ≠ .regex pattern := by
  intro h
  unfold literals at hne
  rw [h] at hne
  exact hne rfl

private theorem indifferent_of_reads (hne : literals p ≠ []) (hreads : readsWriting c.kind = false) :
    WritingIndifferent libraries p c := by
  unfold WritingIndifferent
  generalize c.kind = k at hreads
  cases k with
  | kind k =>
    cases k with
    | integer | decimal => exact nomatch hreads
    | _ => exact fun pattern h => absurd h (not_regex_of_literals hne pattern)
  | regex => exact nomatch hreads
  | _ => exact fun pattern h => absurd h (not_regex_of_literals hne pattern)

/-- Where the writing of values makes no difference, and only there, the consumer admits what the provider does. -/
structure Settled (libraries : Libraries) (p c : ShapeNode) : Prop where
  sound : WritingIndifferent libraries p c → ∀ v, leafAdmits libraries p v = true → leafAdmits libraries c v = true
  necessary : (∀ v, isNull v = false → leafAdmits libraries p v = true → leafAdmits libraries c v = true) →
    WritingIndifferent libraries p c

/-- A shape that admits just the literals it lists. -/
def ListsAll (libraries : Libraries) (p : ShapeNode) : Prop :=
  ∀ v, leafAdmits libraries p v = (literals p).any (valuesEqual v)

/-- A consumer that admits each of the provider's literals. -/
theorem literals_settled (hlists : ListsAll libraries p) (hne : literals p ≠ [])
    (hscalar : ∀ o ∈ literals p, isScalarValue o = true) (hall : ∀ o ∈ literals p, leafAdmits libraries c o = true) :
    Settled libraries p c := by
  have hsound (h : ∀ m ∈ numbersListed p, ∀ n, numbersEqual n m = true → leafAdmits libraries c (.number n) = true) :
      ∀ v, leafAdmits libraries p v = true → leafAdmits libraries c v = true := by
    intro v hv
    obtain ⟨o, ho, heq⟩ := List.any_eq_true.1 (hlists v ▸ hv)
    obtain rfl | ⟨n, m, rfl, rfl, heq⟩ := rewritten (hscalar o ho) heq
    · exact hall v ho
    · exact h m (mem_numbersListed.2 ho) n heq
  have hnecessary (h : ∀ v, isNull v = false → leafAdmits libraries p v = true → leafAdmits libraries c v = true) :
      ∀ m ∈ numbersListed p, ∀ n, numbersEqual n m = true → leafAdmits libraries c (.number n) = true := by
    intro m hm n heq
    exact h (.number n) rfl ((hlists _).trans (List.any_eq_true.2 ⟨_, mem_numbersListed.1 hm, heq⟩))
  cases hreads : readsWriting c.kind with
  | false =>
    refine ⟨fun _ => hsound fun m hm n heq => ?_, fun _ => indifferent_of_reads hne hreads⟩
    exact admits_rewritten hreads heq (hall _ (mem_numbersListed.1 hm))
  | true =>
    suffices hiff : WritingIndifferent libraries p c ↔
        ∀ m ∈ numbersListed p, ∀ n, numbersEqual n m = true → leafAdmits libraries c (.number n) = true from
      ⟨fun h => hsound (hiff.1 h), fun h => hiff.2 (hnecessary h)⟩
    obtain ⟨e, g, k⟩ := c
    cases k with
    | kind k =>
      cases k with
      | integer =>
        refine ⟨fun h m hm => absurd hm (h ▸ List.not_mem_nil), fun h => ?_⟩
        refine List.eq_nil_iff_forall_not_mem.2 fun m hm => ?_
        obtain ⟨n, hn, heq⟩ := decimal_of m
        exact absurd ((h m hm n heq).symm.trans hn) (by decide)
      | decimal =>
        refine forall₂_congr fun m _ => forall_congr' fun n => ?_
        change _ ↔ (numbersEqual n m = true → (!isWrittenInteger n) = true)
        cases isWrittenInteger n <;> cases numbersEqual n m <;> decide
      | _ => exact nomatch hreads
    | regex pattern => exact Iff.rfl
    | _ => exact nomatch hreads

end Literals

/-! The table, on leaves that say nothing of null. -/

section Table

variable {walk : Walk} {node : NodeWalk} {p c : ShapeNode} {at' : String}

/-- A scalar leaf as the table meets it: one that lists values lists some, and one decided by matching is valid. -/
structure Bare (S : ShapeNode) : Prop where
  scalar : isScalarLeaf S = true
  listed : ∀ options, S.kind = .anyOf options → options ≠ []
  valid : isConservative S.kind = true → wellFormed S = true

private def isLiteral : ShapeKind → Bool
  | .equality | .anyOf _ => true
  | _ => false

private theorem Bare.literals (hp : Bare p) (hliteral : isLiteral p.kind = true) :
    (∀ libraries, ListsAll libraries p) ∧ ScalarLeaves.literals p ≠ [] ∧
      (∀ o ∈ ScalarLeaves.literals p, isScalarValue o = true) ∧ enumerate p = some (ScalarLeaves.literals p) := by
  obtain ⟨e, g, k⟩ := p
  cases k with
  | equality =>
    obtain ⟨x, rfl, hx, hscalar⟩ := scalar_example hp.scalar
    refine ⟨fun libraries v => (List.any_cons.trans (Bool.or_false _)).symm, List.cons_ne_nil _ _,
      List.forall_mem_singleton.2 hscalar, ?_⟩
    simp [enumerate, plainExample, hx, ScalarLeaves.literals]
  | anyOf options =>
    exact ⟨fun _ _ => rfl, hp.listed options rfl, List.all_eq_true.1 hp.scalar, rfl⟩
  | _ => cases hliteral

private theorem settled_of_admitted (hp : Bare p) (hliteral : isLiteral p.kind = true) {libraries : Libraries}
    (hall : ∀ o ∈ ScalarLeaves.literals p, leafAdmits libraries c o = true) : Settled libraries p c :=
  literals_settled ((hp.literals hliteral).1 libraries) (hp.literals hliteral).2.1 (hp.literals hliteral).2.2.1 hall

/-- Membership decided without matching is the plan's. -/
private theorem admitsValue_admits {libraries : Libraries} {o : Json} (hc : Bare c) (ho : isScalarValue o = true)
    (h : Classes.admitsValue libraries c o = some true) : leafAdmits libraries c o = true := by
  obtain ⟨e, g, k⟩ := c
  cases k with
  | equality =>
    obtain ⟨x, rfl, hx, hscalar⟩ := scalar_example hc.scalar
    have heq : valuesEqual x.value o = true := by simpa [Classes.admitsValue, plainExample, hx] using h
    exact (equal_scalar ho).symm.trans heq ▸ rfl
  | anyOf options =>
    obtain ⟨x, hx, heq⟩ := List.any_eq_true.1 (Option.some.inj h)
    exact List.any_eq_true.2 ⟨x, hx, (equal_scalar ho).symm.trans heq⟩
  | kind k => exact Option.some.inj h
  | semver => exact Option.some.inj h
  | type | regex | temporal | includes => exact absurd h (by simp [Classes.admitsValue])
  | _ => exact absurd hc.scalar Bool.false_ne_true

private theorem same_settled {libraries : Libraries} (hp : isScalarLeaf p = true) (hc : isScalarLeaf c = true)
    (h : sameAdmits p c = true) : Settled libraries p c := by
  obtain ⟨e, g, k⟩ := p
  obtain ⟨e', g', k'⟩ := c
  have hleaf : isLeaf k = true := by cases k <;> first | rfl | cases hp
  rw [Identity.sameAdmits_leaf hleaf] at h
  cases k with
  | equality =>
    cases k' with
    | equality =>
      obtain ⟨x, rfl, hx, hscalar⟩ := scalar_example hp
      obtain ⟨x', rfl, hx', hscalar'⟩ := scalar_example hc
      have heq : valuesEqual x.value x'.value = true := (Bool.and_eq_true_iff.1 h).2
      refine ⟨fun _ v hv => ?_, fun _ pattern hpattern => by cases hpattern⟩
      exact valuesEqual_trans (b := x.value) hv heq
    | _ => cases h
  | type =>
    cases k' with
    | type =>
      obtain ⟨x, rfl, hx, hscalar⟩ := scalar_example hp
      obtain ⟨x', rfl, hx', hscalar'⟩ := scalar_example hc
      have heq : classOfValue x.value = classOfValue x'.value := by
        simpa [sameLeaf, classOfExample, hx, hx'] using h
      refine ⟨fun _ v hv => ?_, fun _ pattern hpattern => by cases hpattern⟩
      exact decide_eq_true ((of_decide_eq_true hv).trans heq)
    | _ => cases h
  | anyOf options =>
    cases k' with
    | anyOf options' =>
      refine ⟨fun _ v hv => ?_, fun _ pattern hpattern => by cases hpattern⟩
      obtain ⟨o, ho, heq⟩ := List.any_eq_true.1 hv
      obtain ⟨o', ho', heq'⟩ := List.any_eq_true.1 (List.all_eq_true.1 (Bool.and_eq_true_iff.1 h).2 o ho)
      exact List.any_eq_true.2 ⟨o', ho', valuesEqual_trans heq heq'⟩
    | _ => cases h
  | kind k =>
    cases k' with
    | kind k' =>
      obtain rfl := eq_of_beq h
      refine ⟨fun _ _ hv => hv, fun _ => ?_⟩
      cases k with
      | integer => rfl
      | decimal => exact List.forall_mem_nil _
      | _ => exact fun pattern hpattern => by cases hpattern
    | _ => cases h
  | regex pattern =>
    cases k' with
    | regex pattern' =>
      obtain rfl := eq_of_beq h
      exact ⟨fun _ _ hv => hv, fun _ => List.forall_mem_nil _⟩
    | _ => cases h
  | temporal k format =>
    cases k' with
    | temporal k' format' =>
      obtain ⟨hk, hformat⟩ := Bool.and_eq_true_iff.1 h
      obtain rfl := eq_of_beq hk
      obtain rfl := eq_of_beq hformat
      exact ⟨fun _ _ hv => hv, fun _ pattern hpattern => by cases hpattern⟩
    | _ => cases h
  | includes substring =>
    cases k' with
    | includes substring' =>
      obtain rfl := eq_of_beq h
      exact ⟨fun _ _ hv => hv, fun _ pattern hpattern => by cases hpattern⟩
    | _ => cases h
  | semver =>
    cases k' with
    | semver => exact ⟨fun _ _ hv => hv, fun _ pattern hpattern => by cases hpattern⟩
    | _ => cases h
  | _ => cases hp

private theorem asStr_isSome {v : Json} {f : String → Bool} (h : (asStr v).any f = true) : ∃ s, v = .string s := by
  cases v with
  | string s => exact ⟨s, rfl⟩
  | _ => exact nomatch h

/-- A provider of strings by their text, inside the strings. -/
private theorem strings_settled {libraries : Libraries} (hp : isScalarLeaf p = true) (hcons : stringValued p.kind = true)
    (hc : c.kind = .kind .string) : Settled libraries p c := by
  obtain ⟨e, g, k⟩ := p
  obtain ⟨e', g', k'⟩ := c
  obtain rfl : k' = .kind .string := hc
  have hstring {v : Json} (hv : ∃ s, v = .string s) : leafAdmits libraries ⟨e', g', .kind .string⟩ v = true := by
    obtain ⟨s, rfl⟩ := hv
    rfl
  cases k with
  | regex pattern =>
    constructor
    · intro hindifferent v hv
      obtain ⟨hnumber, hbool⟩ := hindifferent pattern rfl rfl
      cases v with
      | string s => rfl
      | number n => exact absurd ((hnumber n).symm.trans hv) (by decide)
      | bool b => exact absurd ((hbool b).symm.trans hv) (by decide)
      | _ => exact nomatch hv
    · intro hwithin pattern' hpattern _
      obtain rfl : pattern = pattern' := ShapeKind.regex.inj hpattern
      constructor
      · intro n
        exact Bool.eq_false_iff.2 fun h => Bool.false_ne_true (hwithin (.number n) rfl h)
      · intro b
        exact Bool.eq_false_iff.2 fun h => Bool.false_ne_true (hwithin (.bool b) rfl h)
  | temporal k format =>
    exact ⟨fun _ v hv => hstring (asStr_isSome hv), fun _ pattern hpattern => nomatch hpattern⟩
  | includes substring =>
    exact ⟨fun _ v hv => hstring (asStr_isSome hv), fun _ pattern hpattern => nomatch hpattern⟩
  | _ => exact nomatch hcons

/-- What has few values and lists none of them has no strings. -/
private theorem disjoint_of_enumerated {values : List Json} (hp : Bare p) (hliteral : isLiteral p.kind = false)
    (henumerate : enumerate p = some values) (hstrings : stringValued c.kind = true) : disjointClasses p c = true := by
  have hclasses : classes c = some [.string] := by
    obtain ⟨e, g, k⟩ := c
    cases k <;> first | rfl | exact nomatch hstrings
  obtain ⟨e, g, k⟩ := p
  unfold disjointClasses
  rw [hclasses]
  cases k with
  | equality | anyOf => exact nomatch hliteral
  | kind k => cases k <;> first | rfl | exact nomatch henumerate
  | type | regex | temporal | includes | semver => exact nomatch henumerate
  | _ => exact nomatch hp.scalar

theorem conservative_settled (hp : Bare p) (hc : Bare c) (hdisjoint : disjointClasses p c = false)
    (h : (walk.conservative p c at').verdict = .yes) : Settled walk.libraries p c := by
  unfold conservative at h
  extract_lets undecided isString at h
  have hundecided : undecided.verdict ≠ .yes := fun h => by cases h
  split at h
  · rename_i hwider
    simp only [Bool.and_eq_true] at hwider
    refine strings_settled hp.scalar hwider.1.2 ?_
    have hstring := hwider.2
    unfold isString at hstring
    split at hstring
    · assumption
    · cases hstring
  · split at h
    · rename_i hstrings
      split at h
      · rename_i values henumerate
        extract_lets outside at h
        split at h
        · rename_i hempty
          have hinside : ∀ o ∈ values, leafAdmits walk.libraries c o = true := by
            intro o ho
            have hnone := List.filter_eq_nil_iff.1 (List.isEmpty_iff.1 hempty) o ho
            have hcons : isConservative c.kind = true := by
              generalize c.kind = k at hstrings
              cases k <;> first | rfl | cases hstrings
            rw [← matchedBy_scalarLeaf hc.scalar (hc.valid hcons)]
            simpa using hnone
          cases hliteral : isLiteral p.kind with
          | true =>
            obtain rfl := Option.some.inj ((hp.literals hliteral).2.2.2.symm.trans henumerate)
            exact settled_of_admitted hp hliteral hinside
          | false => exact absurd (disjoint_of_enumerated hp hliteral henumerate hstrings) (by simp [hdisjoint])
        · cases h
      · exact absurd h hundecided
    · exact absurd h hundecided

/-- A provider of few values that lists none of them: the plan of it accepts just these. -/
private theorem enumerated {libraries : Libraries} {values : List Json} (hp : Bare p) (hliteral : isLiteral p.kind = false)
    (henumerate : enumerate p = some values) : (∀ v, leafAdmits libraries p v = true → v ∈ values) ∧
      ∀ pattern, p.kind ≠ .regex pattern := by
  obtain ⟨e, g, k⟩ := p
  cases k with
  | equality | anyOf => exact nomatch hliteral
  | kind k =>
    refine ⟨fun v hv => ?_, fun pattern => nofun⟩
    cases k with
    | boolean =>
      obtain rfl := Option.some.inj henumerate
      cases v with
      | bool b => cases b <;> simp
      | _ => exact nomatch hv
    | null =>
      obtain rfl := Option.some.inj henumerate
      cases v with
      | null => exact List.mem_singleton_self _
      | _ => exact nomatch hv
    | _ => exact nomatch henumerate
  | type | regex | temporal | includes | semver => exact nomatch henumerate
  | _ => exact nomatch hp.scalar

private theorem literalSet_settled {libraries : Libraries} {options : List Json} (hp : Bare p)
    (hliteral : isLiteral p.kind = false) (hc : ∀ v o, o ∈ options → isScalarValue o = true →
      valuesEqual v o = true → leafAdmits libraries c v = true) (hscalar : ∀ o ∈ options, isScalarValue o = true)
    (hconsumer : isLiteral c.kind = true) (h : (literalSet p c options at').verdict = .yes) :
    Settled libraries p c := by
  unfold literalSet at h
  split at h
  · rename_i values henumerate
    split at h
    · rename_i hall
      obtain ⟨hvalues, hregex⟩ := enumerated hp hliteral henumerate
      refine ⟨fun _ v hv => ?_, fun _ => ?_⟩
      · obtain ⟨o, ho, heq⟩ := List.any_eq_true.1 (List.all_eq_true.1 hall v (hvalues v hv))
        exact hc v o ho (hscalar o ho) ((equal_scalar (hscalar o ho)).trans heq)
      · unfold WritingIndifferent
        generalize c.kind = k at hconsumer
        cases k with
        | equality | anyOf => exact fun pattern hpattern => absurd hpattern (hregex pattern)
        | _ => exact nomatch hconsumer
    · exact nomatch h
  · exact nomatch h

private theorem kinds_settled {libraries : Libraries} (h : (kinds p c at').verdict = .yes) :
    Settled libraries p c := by
  obtain ⟨e, g, k⟩ := p
  obtain ⟨e', g', k'⟩ := c
  unfold kinds at h
  dsimp only [ShapeNode.kind_mk] at h
  split at h
  · rename_i pk ck
    split at h
    · rename_i hsubset
      constructor
      · intro _ v hv
        cases pk <;> cases ck <;> first | exact hv | exact absurd hsubset (by decide) | (cases v <;> first | rfl | exact nomatch hv)
      · intro _
        cases ck with
        | integer => rfl
        | decimal => exact List.forall_mem_nil _
        | _ => exact fun pattern hpattern => nomatch hpattern
    · exact nomatch h
  · refine ⟨fun _ v hv => ?_, fun _ pattern hpattern => nomatch hpattern⟩
    obtain ⟨s, rfl⟩ := asStr_isSome hv
    rfl
  · exact nomatch h
  · exact nomatch h

theorem exact_settled (hp : Bare p) (hc : Bare c) (h : (walk.exact node p c at').verdict = .yes) : Settled walk.libraries p c := by
  have hliterals : walk.exact node p c at' = walk.literals p c at' := by
    obtain ⟨e, g, k⟩ := p
    obtain ⟨e', g', k'⟩ := c
    cases k with
    | equality | type | anyOf | kind | regex | temporal | includes | semver =>
      cases k' with
      | equality | type | anyOf | kind | regex | temporal | includes | semver => rfl
      | _ => exact nomatch hc.scalar
    | _ => exact nomatch hp.scalar
  rw [hliterals] at h
  unfold Walk.literals at h
  split at h
  · rename_i hkind
    have hliteral : isLiteral p.kind = true := hkind ▸ rfl
    split at h
    · rename_i hadmits
      refine settled_of_admitted hp hliteral fun o ho => ?_
      obtain ⟨x, hx, hexample⟩ := Option.bind_eq_some_iff.1 hadmits
      have hlisted : literals p = [x.value] := by simp [ScalarLeaves.literals, hkind, hx]
      obtain rfl : o = x.value := List.mem_singleton.1 (hlisted ▸ ho)
      unfold admitsExample at hexample
      split at hexample
      · exact nomatch hexample
      · exact admitsValue_admits hc ((hp.literals hliteral).2.2.1 _ ho) hexample
    · exact nomatch h
    · exact nomatch h
  · rename_i options hkind
    have hliteral : isLiteral p.kind = true := hkind ▸ rfl
    refine settled_of_admitted hp hliteral fun o ho => ?_
    have hlisted : literals p = options := by simp [ScalarLeaves.literals, hkind]
    unfold providerLiterals at h
    extract_lets decided at h
    split at h
    · exact nomatch h
    · rename_i hno
      split at h
      · exact nomatch h
      · rename_i hunknown
        have hmem : Classes.admitsValue walk.libraries c o ∈ decided := List.mem_map_of_mem (hlisted ▸ ho)
        refine admitsValue_admits hc ((hp.literals hliteral).2.2.1 _ ho) ?_
        cases hdecided : Classes.admitsValue walk.libraries c o with
        | none => exact absurd (List.any_eq_true.2 ⟨_, hmem, by simp [hdecided]⟩) hunknown
        | some answer =>
          cases answer with
          | false => exact absurd (List.any_eq_true.2 ⟨_, hmem, by simp [hdecided]⟩) hno
          | true => rfl
  · rename_i hequality hanyOf
    have hliteral : isLiteral p.kind = false := by
      cases hk : p.kind with
      | equality => exact absurd hk hequality
      | anyOf options => exact absurd hk (hanyOf options)
      | _ => rfl
    split at h
    · rename_i hkind
      split at h
      · rename_i x hplain
        obtain ⟨e, g, k⟩ := c
        obtain rfl : k = .equality := hkind
        obtain ⟨x', rfl, hx', hscalar⟩ := scalar_example hc.scalar
        obtain rfl : x'.value = x := by simpa [plainExample, hx'] using hplain
        refine literalSet_settled hp hliteral (fun v o ho _ heq => ?_) (List.forall_mem_singleton.2 hscalar) rfl h
        obtain rfl := List.mem_singleton.1 ho
        exact heq
      · exact nomatch h
    · rename_i options hkind
      obtain ⟨e, g, k⟩ := c
      obtain rfl : k = .anyOf options := hkind
      refine literalSet_settled hp hliteral (fun v o ho _ heq => ?_) (List.all_eq_true.1 hc.scalar) rfl h
      exact List.any_eq_true.2 ⟨o, ho, heq⟩
    · exact kinds_settled h

/-- Two leaves the table meets, neither of them a `type`. -/
theorem table_settled (hp : Bare p) (hc : Bare c) (h : (walk.table node p c at').verdict = .yes) :
    Settled walk.libraries p c := by
  unfold table at h
  split at h
  · rename_i hsame
    exact same_settled hp.scalar hc.scalar (Bool.and_eq_true_iff.1 hsame).1
  · split at h
    · rename_i hany
      exact absurd hc.scalar (by simp [isScalarLeaf, hany])
    · exact nomatch h
    · cases hdisjoint : disjointClasses p c with
      | true =>
        rw [if_pos hdisjoint] at h
        exact nomatch h
      | false =>
        rw [if_neg (by simp [hdisjoint])] at h
        split at h
        · exact conservative_settled hp hc hdisjoint h
        · exact exact_settled hp hc h

end Table

/-! The whole walk. -/

section Walk

variable {walk : Walk} {libraries : Libraries} {p c P C : ShapeNode} {at' : String}

/-- What makes no difference between two providers. -/
private theorem indifferent_provider (hnumbers : numbersListed p = numbersListed P)
    (hregex : ∀ pattern, p.kind = .regex pattern ↔ P.kind = .regex pattern) :
    WritingIndifferent libraries p c ↔ WritingIndifferent libraries P c := by
  unfold WritingIndifferent
  rw [hnumbers]
  simp only [hregex]

private theorem Settled.congr (hp : ∀ v, leafAdmits libraries p v = leafAdmits libraries P v)
    (hc : ∀ v, leafAdmits libraries c v = leafAdmits libraries C v)
    (hindifferent : WritingIndifferent libraries p c ↔ WritingIndifferent libraries P C) (h : Settled libraries p c) :
    Settled libraries P C := by
  refine ⟨fun hw v hv => ?_, fun hwithin => hindifferent.1 (h.necessary fun v hv hadmits => ?_)⟩
  · exact (hc v).symm.trans (h.sound (hindifferent.2 hw) v ((hp v).trans hv))
  · exact (hc v).trans (hwithin v hv ((hp v).symm.trans hadmits))

private theorem desugar_type {x : Example} {g : Option Json} (hx : x.encoded = none) :
    desugar ⟨some x, g, .type⟩ = some (.of (match x.value with
      | .null => .kind .null
      | .bool _ => .kind .boolean
      | .number _ => .kind .number
      | .string _ => .kind .string
      | .object _ => .object []
      | .array _ => .eachLike anyNode 0 none)) := by
  simp only [desugar, ShapeNode.kind_mk, ShapeNode.example?_mk, hx]
  rfl

/-- A `type` of a scalar, written as the kind it is. -/
private theorem desugar_scalar (h : isScalarLeaf p = true) : (desugar p).getD p = p ∨
    ∃ x g k, p = ⟨some x, g, .type⟩ ∧ (desugar p).getD p = .of (.kind k) ∧
      (∀ v, kindAdmits k v = decide (classOfValue v = classOfValue x.value)) ∧
        k ≠ .integer ∧ k ≠ .decimal ∧ (k = .string ↔ classOfValue x.value = .string) := by
  obtain ⟨e, g, k⟩ := p
  cases k with
  | type =>
    obtain ⟨x, rfl, hx, hscalar⟩ := scalar_example h
    right
    rw [desugar_type hx]
    cases hvalue : x.value with
    | null =>
      refine ⟨x, g, .null, rfl, rfl, fun v => ?_, by simp, by simp, by simp [hvalue, classOfValue]⟩
      cases v <;> simp [kindAdmits, classOfValue, hvalue]
    | bool b =>
      refine ⟨x, g, .boolean, rfl, rfl, fun v => ?_, by simp, by simp, by simp [hvalue, classOfValue]⟩
      cases v <;> simp [kindAdmits, classOfValue, hvalue]
    | number n =>
      refine ⟨x, g, .number, rfl, rfl, fun v => ?_, by simp, by simp, by simp [hvalue, classOfValue]⟩
      cases v <;> simp [kindAdmits, classOfValue, hvalue]
    | string s =>
      refine ⟨x, g, .string, rfl, rfl, fun v => ?_, by simp, by simp, by simp [hvalue, classOfValue]⟩
      cases v <;> simp [kindAdmits, classOfValue, hvalue]
    | array | object => exact absurd hscalar (by simp [hvalue, isScalarValue])
  | _ => exact Or.inl rfl

private theorem desugared_bare (h : Bare p) : Bare ((desugar p).getD p) := by
  obtain hsame | ⟨x, g, k, rfl, hkind, -⟩ := desugar_scalar h.scalar
  · exact hsame.symm ▸ h
  · rw [hkind]
    exact ⟨rfl, fun options hoptions => (nomatch hoptions), fun hcons => nomatch hcons⟩

private theorem desugared_admits (h : isScalarLeaf p = true) (v : Json) :
    leafAdmits libraries ((desugar p).getD p) v = leafAdmits libraries p v := by
  obtain hsame | ⟨x, g, k, rfl, hkind, hadmits, -⟩ := desugar_scalar h
  · rw [hsame]
  · rw [hkind]
    exact hadmits v

private theorem desugared_indifferent (hp : isScalarLeaf p = true) (hc : isScalarLeaf c = true) :
    WritingIndifferent libraries ((desugar p).getD p) ((desugar c).getD c) ↔ WritingIndifferent libraries p c := by
  have hprovider (c : ShapeNode) :
      WritingIndifferent libraries ((desugar p).getD p) c ↔ WritingIndifferent libraries p c := by
    obtain hsame | ⟨x, g, k, rfl, hkind, -⟩ := desugar_scalar hp
    · rw [hsame]
    · rw [hkind]
      exact indifferent_provider rfl fun pattern => ⟨nofun, nofun⟩
  rw [hprovider]
  obtain hsame | ⟨x, g, k, rfl, hkind, -, hinteger, hdecimal, hstring⟩ := desugar_scalar hc
  · rw [hsame]
  · rw [hkind]
    have honly : admitsStringsOnly (.of (.kind k)) = admitsStringsOnly ⟨some x, g, .type⟩ := by
      change admitsStringsOnly (.of (.kind k)) = decide (classOfValue x.value = .string)
      rw [← decide_eq_decide.2 hstring]
      cases k <;> rfl
    have hkinds : WritingIndifferent libraries p (.of (.kind k)) ↔
        ∀ pattern, p.kind = .regex pattern → admitsStringsOnly (.of (.kind k)) = true →
          (∀ n, patternMatches libraries pattern (numberText n) = false) ∧
            ∀ b : Bool, patternMatches libraries pattern (if b then "true" else "false") = false := by
      cases k with
      | integer => exact absurd rfl hinteger
      | decimal => exact absurd rfl hdecimal
      | _ => exact Iff.rfl
    rw [hkinds, honly]
    exact Iff.rfl

theorem operators_settled {node : NodeWalk} (hp : Bare p) (hc : Bare c)
    (h : (walk.operators node p c at').verdict = .yes) : Settled walk.libraries p c := by
  unfold operators at h
  split at h
  · rename_i hsame
    exact same_settled hp.scalar hc.scalar (Bool.and_eq_true_iff.1 hsame).1
  · split at h
    · exact nomatch h
    · exact (table_settled (desugared_bare hp) (desugared_bare hc) h).congr (desugared_admits hp.scalar)
        (desugared_admits hc.scalar) (desugared_indifferent hp.scalar hc.scalar)

/-- A scalar leaf admits null where it says so, and what is left of it without null. -/
private theorem admits_decomposed (h : isScalarLeaf P = true) {v : Json} : leafAdmits libraries P v = true ↔
    (v = .null ∧ (decompose P).null = true) ∨
      ∃ rest, (decompose P).rest = some rest ∧ leafAdmits libraries rest v = true := by
  obtain ⟨e, g, k⟩ := P
  cases k with
  | equality =>
    obtain ⟨x, rfl, hx, hscalar⟩ := scalar_example h
    cases hnull : isNull x.value with
    | true =>
      have hdecompose : decompose ⟨some x, g, .equality⟩ = ⟨false, true, none⟩ := by
        simp [decompose, isNullExample, hx, hnull]
      change valuesEqual v x.value = true ↔ _
      rw [hdecompose, equal_null hnull, isNull_iff]
      simp
    | false =>
      have hdecompose : decompose ⟨some x, g, .equality⟩ = ⟨false, false, some ⟨some x, g, .equality⟩⟩ := by
        simp [decompose, isNullExample, hnull]
      simp [hdecompose]
  | anyOf options =>
    cases hnull : options.any isNull with
    | true =>
      change options.any (valuesEqual v) = true ↔ _
      rw [any_option hnull, Bool.or_eq_true, isNull_iff]
      simp only [decompose, hnull, if_true, and_true, Option.ite_none_left_eq_some, Option.some.injEq]
      refine or_congr_right ⟨fun hrest => ⟨_, ⟨fun hempty => ?_, rfl⟩, hrest⟩, ?_⟩
      · simp [List.isEmpty_iff.1 hempty] at hrest
      · rintro ⟨rest, ⟨-, rfl⟩, hrest⟩
        exact hrest
    | false => simp [decompose, hnull]
  | kind k =>
    cases k with
    | null =>
      change kindAdmits .null v = true ↔ _
      cases v <;> simp [kindAdmits, decompose]
    | _ => simp [decompose]
  | type | regex | temporal | includes | semver => simp [decompose]
  | _ => cases h

/-- What is left of a scalar leaf without null is a leaf the table meets, lists the same numbers, and reads them alike. -/
private theorem rest_bare {rest : ShapeNode} (h : isScalarLeaf P = true) (hvalid : wellFormed P = true)
    (hrest : (decompose P).rest = some rest) : Bare rest ∧ numbersListed rest = numbersListed P ∧
      (rest = P ∨ ∃ options others, P.kind = .anyOf options ∧ rest.kind = .anyOf others) := by
  obtain ⟨e, g, k⟩ := P
  have hsame (heq : some ⟨e, g, k⟩ = some rest) : Bare rest ∧ numbersListed rest = numbersListed ⟨e, g, k⟩ ∧
      (rest = ⟨e, g, k⟩ ∨ ∃ options others, ShapeNode.kind ⟨e, g, k⟩ = .anyOf options ∧ rest.kind = .anyOf others) := by
    obtain rfl := Option.some.inj heq
    refine ⟨⟨h, fun options hoptions hnone => ?_, fun _ => hvalid⟩, rfl, Or.inl rfl⟩
    obtain rfl : k = .anyOf options := hoptions
    have hnodes := (wellFormed_mk.1 hvalid).2.1
    simp [nodeValid, hnone] at hnodes
  cases k with
  | equality =>
    obtain ⟨x, rfl, hx, hscalar⟩ := scalar_example h
    cases hnull : isNull x.value with
    | true => exact absurd hrest (by simp [decompose, isNullExample, hx, hnull])
    | false => exact hsame (by simpa [decompose, isNullExample, hnull] using hrest)
  | anyOf options =>
    cases hnull : options.any isNull with
    | true =>
      simp only [decompose, hnull, if_true, Option.ite_none_left_eq_some, Option.some.injEq] at hrest
      obtain ⟨hsome, rfl⟩ := hrest
      refine ⟨⟨?_, ?_, fun hcons => by cases hcons⟩, ?_, Or.inr ⟨_, _, rfl, rfl⟩⟩
      · exact List.all_eq_true.2 fun o ho => List.all_eq_true.1 h o (List.mem_filter.1 ho).1
      · intro others hothers hnone
        obtain rfl := ShapeKind.anyOf.inj hothers
        exact hsome (List.isEmpty_iff.2 hnone)
      · change (options.filter fun o => !isNull o).filterMap asNumber = options.filterMap asNumber
        rw [List.filterMap_filter]
        refine List.filterMap_congr fun o _ => ?_
        cases o <;> rfl
    | false => exact hsame (by simpa [decompose, hnull] using hrest)
  | kind k =>
    cases k with
    | null => exact absurd hrest (by simp [decompose])
    | _ => exact hsame hrest
  | type | regex | temporal | includes | semver => exact hsame hrest
  | _ => cases h

/-- What admits nothing but null lists no number, and is no pattern. -/
private theorem indifferent_of_null (h : isScalarLeaf P = true) (hrest : (decompose P).rest = none) :
    WritingIndifferent libraries P C := by
  have hnothing : numbersListed P = [] ∧ ∀ pattern, P.kind ≠ .regex pattern := by
    obtain ⟨e, g, k⟩ := P
    cases k with
    | equality =>
      obtain ⟨x, rfl, hx, hscalar⟩ := scalar_example h
      cases hnull : isNull x.value with
      | true =>
        refine ⟨?_, fun pattern hpattern => by cases hpattern⟩
        change [x.value].filterMap asNumber = []
        rw [isNull_iff.1 hnull]
        rfl
      | false => exact absurd hrest (by simp [decompose, isNullExample, hnull])
    | anyOf options =>
      cases hnull : options.any isNull with
      | true =>
        refine ⟨List.eq_nil_iff_forall_not_mem.2 fun n hn => ?_, fun pattern hpattern => by cases hpattern⟩
        have hmem : Json.number n ∈ options.filter fun o => !isNull o :=
          List.mem_filter.2 ⟨mem_numbersListed.1 hn, rfl⟩
        simp only [decompose, hnull, if_true, ite_eq_left_iff, reduceCtorEq, imp_false, not_not] at hrest
        exact absurd hmem (by simp [List.isEmpty_iff.1 hrest])
      | false => exact absurd hrest (by simp [decompose, hnull])
    | kind k => exact ⟨rfl, fun pattern hpattern => by cases hpattern⟩
    | type | regex | temporal | includes | semver => cases hrest
    | _ => cases h
  unfold WritingIndifferent
  rw [hnothing.1]
  split
  · rfl
  · exact List.forall_mem_nil _
  · exact List.forall_mem_nil _
  · exact fun pattern hpattern => absurd hpattern (hnothing.2 pattern)

private theorem rest_indifferent (hp : isScalarLeaf P = true) (hc : isScalarLeaf C = true)
    (hpvalid : wellFormed P = true) (hcvalid : wellFormed C = true) (hprest : (decompose P).rest = some p)
    (hcrest : (decompose C).rest = some c) :
    WritingIndifferent libraries p c ↔ WritingIndifferent libraries P C := by
  obtain ⟨-, hnumbers, hpkind⟩ := rest_bare hp hpvalid hprest
  obtain ⟨-, -, hckind⟩ := rest_bare hc hcvalid hcrest
  have hprovider : WritingIndifferent libraries p c ↔ WritingIndifferent libraries P c := by
    refine indifferent_provider hnumbers fun pattern => ?_
    rcases hpkind with rfl | ⟨options, others, hP, hp⟩
    · exact Iff.rfl
    · rw [hP, hp]
      exact ⟨nofun, nofun⟩
  rw [hprovider]
  rcases hckind with rfl | ⟨options, others, hC, hc⟩
  · exact Iff.rfl
  · simp only [WritingIndifferent, admitsStringsOnly, hC, hc]

/-- A pair of leaves, presence and null taken out of it. -/
theorem valueNode_settled {node : NodeWalk} (hp : isScalarLeaf P = true) (hc : isScalarLeaf C = true)
    (hpvalid : wellFormed P = true) (hcvalid : wellFormed C = true)
    (h : (walk.valueNode node P C at').verdict = .yes) : Settled walk.libraries P C := by
  unfold valueNode at h
  split at h
  · rename_i hsame
    exact same_settled hp hc (Bool.and_eq_true_iff.1 hsame).1
  · extract_lets provider consumer widenedAbsence widenedNull presence at h
    have hnull : presence.verdict = .yes → (decompose P).null = true → (decompose C).null = true := by
      intro hyes hprovider
      unfold presence at hyes
      split at hyes
      · exact nomatch hyes
      · rename_i hkept
        simp only [Bool.or_eq_true, not_or] at hkept
        simpa [widenedNull, provider, consumer, hprovider] using hkept.2
    split at h
    · rename_i hprest
      refine ⟨fun _ v hv => ?_, fun _ => indifferent_of_null hp hprest⟩
      obtain ⟨rfl, hprovider⟩ | ⟨rest, hrest, -⟩ := (admits_decomposed hp).1 hv
      · exact (admits_decomposed hc).2 (Or.inl ⟨rfl, hnull h hprovider⟩)
      · exact nomatch hprest.symm.trans hrest
    · exact absurd h (by simp [Verdict.and_eq_yes])
    · rename_i p c hprest hcrest
      rw [Out.verdict_and, Verdict.and_eq_yes] at h
      have hsettled := operators_settled (rest_bare hp hpvalid hprest).1 (rest_bare hc hcvalid hcrest).1 h.2
      have hindifferent : WritingIndifferent walk.libraries p c ↔ WritingIndifferent walk.libraries P C :=
        rest_indifferent hp hc hpvalid hcvalid hprest hcrest
      constructor
      · intro hw v hv
        obtain ⟨rfl, hprovider⟩ | ⟨rest, hrest, hadmits⟩ := (admits_decomposed hp).1 hv
        · exact (admits_decomposed hc).2 (Or.inl ⟨rfl, hnull h.1 hprovider⟩)
        · obtain rfl : p = rest := Option.some.inj (hprest.symm.trans hrest)
          exact (admits_decomposed hc).2 (Or.inr ⟨c, hcrest, hsettled.sound (hindifferent.2 hw) v hadmits⟩)
      · intro hwithin
        refine hindifferent.1 (hsettled.necessary fun v hv hadmits => ?_)
        have hadmitted := hwithin v hv ((admits_decomposed hp).2 (Or.inr ⟨p, hprest, hadmits⟩))
        obtain ⟨rfl, -⟩ | ⟨rest, hrest, hrestadmits⟩ := (admits_decomposed hc).1 hadmitted
        · exact nomatch hv
        · obtain rfl : c = rest := Option.some.inj (hcrest.symm.trans hrest)
          exact hrestadmits

end Walk

/-- The verdict `yes` on two scalar leaves is sound exactly where the writing of values makes no difference: the plan of
the consumer's accepts whatever the plan of the provider's does. -/
theorem yes_is_sound_iff {slot : Slot} {env : Env} {P C : ShapeNode} {at' : String} (hp : isScalarLeaf P = true)
    (hc : isScalarLeaf C = true) (hpvalid : wellFormed P = true) (hcvalid : wellFormed C = true)
    (hyes : (compare env.libraries P C at').1 = .yes) :
    (∀ v, slot.verdict env P [] (fromJson v) = .matched → slot.verdict env C [] (fromJson v) = .matched) ↔
      WritingIndifferent env.libraries P C := by
  have hsettled : Settled env.libraries P C := by
    have hnode : ((Walk.mk env.libraries []).node P C at').verdict = .yes := hyes
    rw [Weight.node_eq, caveat_verdict] at hnode
    exact valueNode_settled hp hc hpvalid hcvalid hnode
  simp only [matched_scalarLeaf hp hpvalid, matched_scalarLeaf hc hcvalid]
  exact ⟨fun hwithin => hsettled.necessary fun v _ => hwithin v, hsettled.sound⟩

private def exactlyOne : ShapeNode := .equalTo (.number (.posInt 1))

private def anInteger : ShapeNode := .of (.kind .integer)

/-- The number 1 with a fraction written. -/
private def oneAsDecimal : Json := .number (.float (asF64 (.posInt 1)))

theorem yes_is_sound_iff_number :
    (∀ v, bodySlot.verdict bareEnv exactlyOne [] (fromJson v) = .matched →
      bodySlot.verdict bareEnv (.of (.kind .number)) [] (fromJson v) = .matched) ↔
      WritingIndifferent bareEnv.libraries exactlyOne (.of (.kind .number)) :=
  yes_is_sound_iff rfl rfl (by decide) (by decide)
    (by decide : (compare bareEnv.libraries exactlyOne (.of (.kind .number)) "response.body").1 = .yes)

/-- Exactly 1 is found to be within the integers, and accepts `1.0`, which the integers do not. -/
theorem yes_on_a_value_written_otherwise :
    isScalarLeaf exactlyOne = true ∧ isScalarLeaf anInteger = true ∧ WellFormed exactlyOne ∧ WellFormed anInteger ∧
      (compare bareEnv.libraries exactlyOne anInteger "response.body").1 = .yes ∧
      bodySlot.verdict bareEnv exactlyOne [] (fromJson oneAsDecimal) = .matched ∧
      bodySlot.verdict bareEnv anInteger [] (fromJson oneAsDecimal) ≠ .matched := by
  refine ⟨rfl, rfl, by decide, by decide, by decide, ?_, ?_⟩
  · exact (matched_scalarLeaf rfl (by decide)).2 (by decide)
  · exact fun h => absurd ((matched_scalarLeaf rfl (by decide)).1 h) (by decide)

end PactJanus.Subsumption.ScalarLeaves
