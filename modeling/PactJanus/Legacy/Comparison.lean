import PactJanus.Legacy.Misread

namespace PactJanus.Legacy.Comparison

open PactJanus.Data.Json PactJanus.Data.Equality PactJanus.Lib.Lists PactJanus.Shape
  PactJanus.Shape.Alternatives PactJanus.Plan.Model
  PactJanus.Plan.Value PactJanus.Plan.Resolve PactJanus.Plan.Result PactJanus.Plan.Legacy PactJanus.Plan.Interpret
  PactJanus.Plan.Navigation PactJanus.Plan.Documents PactJanus.Plan.Replacement PactJanus.Plan.Outcome
  PactJanus.Plan.Accepts PactJanus.Plan.Good PactJanus.Plan.Positions PactJanus.Plan.Checks PactJanus.Plan.Flow
  PactJanus.Plan.Leaves PactJanus.Legacy.Body PactJanus.Legacy.Covers PactJanus.Legacy.Checked PactJanus.Legacy.Misread

/-! When the plan of a body without rules compares it as older contracts define the comparison. -/

variable {closed : Bool}

/-- What a check reads in a document. -/
def reading (v : Json) (steps : List Step) : RuntimeValue := walkRead (fromJson v) (readAs steps)

theorem reading_of_some {steps read : List Step} (h : readAs steps = some read) (v : Json) :
    reading v steps = ofSlot (jsonAt v read) := by
  rw [reading, h, ← walkSteps_fromJson]
  rfl

theorem reading_of_none {steps : List Step} (h : readAs steps = none) (v : Json) : reading v steps = .absent := by
  rw [reading, h]
  rfl

/-! What is known of the positions of checks. -/

section Positions

variable {e u : Json}

theorem distinctKeys_step {s : Step} (he : distinctKeys e = true) (hs : stepInto s e = some u) :
    distinctKeys u = true := by
  cases s with
  | member name => exact distinctKeys_get he hs
  | index i =>
    cases e with
    | array items => exact distinctKeysAll_iff.1 he u (List.mem_of_getElem? hs)
    | _ => exact absurd hs (by simp [stepInto])

theorem countable_step {s : Step} (he : countable e = true) (hs : stepInto s e = some u) :
    countable u = true ∧ s.fits := by
  cases s with
  | member name =>
    cases e with
    | object members => exact ⟨countable_object.1 he (name, u) (mem_of_lookup hs), trivial⟩
    | _ => exact absurd hs (by simp [stepInto, Data.Json.get])
  | index i =>
    cases e with
    | array items =>
      obtain ⟨hlen, hitems⟩ := countable_array.1 he
      have hi : i < items.length := (List.getElem?_eq_some_iff.1 hs).1
      exact ⟨hitems u (List.mem_of_getElem? hs), Nat.lt_trans hi hlen⟩
    | _ => exact absurd hs (by simp [stepInto])

/-- A check under a step is a check of what the step leads to. -/
theorem checks_step {s : Step} {steps : List Step} {k : Check} (he : distinctKeys e = true)
    (h : (s :: steps, k) ∈ checks closed e) : ∃ u, stepInto s e = some u ∧ (steps, k) ∈ checks closed u := by
  cases e with
  | object members =>
    rcases mem_checks_object.1 h with ⟨m, hm, q, hq, heq⟩ | ⟨-, heq⟩
    · obtain ⟨hstep, rfl⟩ := Prod.mk.inj heq
      obtain ⟨rfl, rfl⟩ := List.cons.inj hstep
      exact ⟨m.2, lookup_of_mem (distinctKeys_object.1 he).1 hm, hq⟩
    · exact absurd (Prod.mk.inj heq).1 (by simp)
  | array items =>
    rcases mem_checks_array.1 h with heq | ⟨i, u, hi, q, hq, heq⟩
    · exact absurd (Prod.mk.inj heq).1 (by simp)
    · obtain ⟨hstep, rfl⟩ := Prod.mk.inj heq
      obtain ⟨rfl, rfl⟩ := List.cons.inj hstep
      exact ⟨u, hi, hq⟩
  | _ => exact absurd (Prod.mk.inj ((mem_checks_scalar rfl).1 h)).1 (by simp)

theorem fits_of_check {steps : List Step} {k : Check} (he : distinctKeys e = true) (hc : countable e = true)
    (h : (steps, k) ∈ checks closed e) : ∀ s ∈ steps, s.fits := by
  induction steps generalizing e with
  | nil => simp
  | cons s rest ih =>
    obtain ⟨u, hu, hrest⟩ := checks_step he h
    obtain ⟨hcu, hs⟩ := countable_step hc hu
    exact List.forall_mem_cons.2 ⟨hs, ih (distinctKeys_step he hu) hcu hrest⟩

theorem jsonAt_of_check {steps : List Step} {k : Check} (he : distinctKeys e = true)
    (h : (steps, k) ∈ checks closed e) : ∃ d, jsonAt e steps = some d := by
  induction steps generalizing e with
  | nil => exact ⟨e, rfl⟩
  | cons s rest ih =>
    obtain ⟨u, hu, hrest⟩ := checks_step he h
    obtain ⟨d, hd⟩ := ih (distinctKeys_step he hu) hrest
    exact ⟨d, by rw [jsonAt, hu]; exact hd⟩

theorem checks_at {p q : List Step} {k : Check} {d : Json} (he : distinctKeys e = true)
    (h : (p ++ q, k) ∈ checks closed e) (hd : jsonAt e p = some d) : (q, k) ∈ checks closed d := by
  induction p generalizing e with
  | nil =>
    obtain rfl := Option.some.inj hd
    exact h
  | cons s rest ih =>
    obtain ⟨u, hu, hrest⟩ := checks_step he h
    rw [jsonAt, hu] at hd
    exact ih (distinctKeys_step he hu) hrest hd

end Positions

/-! A document changed at one place passes every check that is not read there. -/

private theorem isScalar_of_equal {scalar : { e : Json // isScalar e = true }} {v : Json}
    (h : (Check.equal scalar).holds (fromJson v) = true) : isScalar v = true := by
  obtain ⟨e, he⟩ := scalar
  replace h : valuesEqual v e = true := (runtimeEq_fromJson v e).symm.trans h
  cases v with
  | array items => cases e <;> simp [valuesEqual, equalBy, isScalar] at h he
  | object members => cases e <;> simp [valuesEqual, equalBy, isScalar] at h he
  | _ => rfl

private theorem holds_around {w e u : Json} {s : Step} {rest : List Step} {k : Check} (hs : stepInto s e = some u)
    (h : k.holds (fromJson e) = true) : k.holds (fromJson (replaceAt w (s :: rest) e)) = true := by
  cases s with
  | member name =>
    cases e with
    | object members =>
      cases k with
      | equal scalar => exact absurd (isScalar_of_equal h) (by simp [isScalar])
      | only names => simpa [replaceAt, fromJson, fromJsonMembers_eq, Check.holds] using h
      | count n => simpa [replaceAt, fromJson, fromJsonMembers_eq, Check.holds, lengthOpt] using h
    | _ => exact absurd hs (by simp [stepInto, Data.Json.get])
  | index i =>
    cases e with
    | array items =>
      cases k with
      | equal scalar => exact absurd (isScalar_of_equal h) (by simp [isScalar])
      | only names => exact absurd h (by simp [Check.holds, fromJson])
      | count n => simpa [replaceAt, fromJson, fromJsonAll_eq, Check.holds, lengthOpt] using h
    | _ => exact absurd hs (by simp [stepInto])

theorem holds_elsewhere {w e d : Json} {p r : List Step} {k : Check} (hp : jsonAt e p = some d) (hr : ¬p <+: r)
    (h : k.holds (ofSlot (jsonAt e r)) = true) : k.holds (ofSlot (jsonAt (replaceAt w p e) r)) = true := by
  induction p generalizing e r with
  | nil => exact absurd List.nil_prefix hr
  | cons s p ih =>
    obtain ⟨u, hu, hd⟩ := Option.bind_eq_some_iff.1 hp
    cases r with
    | nil => exact holds_around hu h
    | cons t r =>
      by_cases hst : t = s
      · subst hst
        rw [jsonAt, hu, Option.bind_some] at h
        rw [jsonAt, stepInto_replaced, hu]
        exact ih hd (fun hpre => hr (List.cons_prefix_cons.2 ⟨rfl, hpre⟩)) h
      · rw [jsonAt, stepInto_other w p e hst]
        exact h

theorem holds_replaced {w e d : Json} {p : List Step} (hp : jsonAt e p = some d) (he : Holds closed e (reading e))
    (hread : ∀ c ∈ checks closed e, ∀ r, readAs c.1 = some r → p <+: r →
      c.2.holds (ofSlot (jsonAt (replaceAt w p e) r)) = true) : Holds closed e (reading (replaceAt w p e)) := by
  intro c hc
  have hhere := he c hc
  cases hr : readAs c.1 with
  | none =>
    rw [reading_of_none hr] at hhere ⊢
    exact hhere
  | some r =>
    rw [reading_of_some hr] at hhere ⊢
    by_cases hpre : p <+: r
    · exact hread c hc r hr hpre
    · exact holds_elsewhere hp hpre hhere

/-! Where a document is not addressable, some document tells its checks from `covers`. -/

/-- A level that no received document needs to have to pass the checks of it. -/
def emptyLevel (closed : Bool) : Json → Bool
  | .array [] => true
  | .object [] => !closed
  | _ => false

private theorem emptyLevel_under {s : Step} {e u : Json} (hu : stepInto s e = some u)
    (h : ∃ p d, jsonAt u p = some d ∧ emptyLevel closed d = true) :
    ∃ p d, jsonAt e p = some d ∧ emptyLevel closed d = true := by
  obtain ⟨p, d, hd, hempty⟩ := h
  exact ⟨s :: p, d, by rw [jsonAt, hu]; exact hd, hempty⟩

/-- A document has a check, or an empty level. -/
theorem check_or_emptyLevel {e : Json} (he : distinctKeys e = true) :
    (∃ c, c ∈ checks closed e) ∨ ∃ p d, jsonAt e p = some d ∧ emptyLevel closed d = true := by
  induction e with
  | object members ih =>
    obtain ⟨hd, hmembers⟩ := distinctKeys_object.1 he
    cases closed with
    | true => exact Or.inl ⟨_, mem_checks_object.2 (Or.inr ⟨rfl, rfl⟩)⟩
    | false =>
      cases members with
      | nil => exact Or.inr ⟨[], _, rfl, rfl⟩
      | cons m rest =>
        rcases ih m List.mem_cons_self (hmembers m List.mem_cons_self) with ⟨c, hc⟩ | h
        · exact Or.inl ⟨_, mem_checks_object.2 (Or.inl ⟨m, List.mem_cons_self, c, hc, rfl⟩)⟩
        · exact Or.inr (emptyLevel_under (s := .member m.1) (lookup_of_mem hd List.mem_cons_self) h)
  | array items => exact Or.inl ⟨_, mem_checks_array.2 (Or.inl rfl)⟩
  | _ => exact Or.inl ⟨_, (mem_checks_scalar rfl).2 rfl⟩

theorem misread_or_emptyLevel {e : Json} (he : distinctKeys e = true) (h : addressable closed e = false) :
    (∃ c ∈ checks closed e, c.1.all told = false) ∨ ∃ p d, jsonAt e p = some d ∧ emptyLevel closed d = true := by
  induction e with
  | object members ih =>
    obtain ⟨hd, hmembers⟩ := distinctKeys_object.1 he
    by_cases hempty : emptyLevel closed (.object members) = true
    · exact Or.inr ⟨[], _, rfl, hempty⟩
    · have hlevel : closed = true ∨ members ≠ [] := by
        cases members with
        | nil => exact Or.inl (by simpa [emptyLevel] using hempty)
        | cons m rest => exact Or.inr (by simp)
      obtain ⟨m, hm, hbad⟩ : ∃ m ∈ members, ¬(plainlyNamed m.1 = true ∧ addressable closed m.2 = true) := by
        by_contra hall
        push Not at hall
        rw [addressable_object.2 ⟨hlevel, fun m hm => hall m hm⟩] at h
        exact absurd h (by simp)
      have hlookup : stepInto (.member m.1) (.object members) = some m.2 := lookup_of_mem hd hm
      have hunder (c : List Step × Check) (hc : c ∈ checks closed m.2) :
          under (.member m.1) c ∈ checks closed (.object members) :=
        mem_checks_object.2 (Or.inl ⟨m, hm, c, hc, rfl⟩)
      by_cases hname : plainlyNamed m.1 = true
      · have hbelow : addressable closed m.2 = false := by simpa [hname] using hbad
        rcases ih m hm (hmembers m hm) hbelow with ⟨c, hc, hodd⟩ | h
        · exact Or.inl ⟨_, hunder c hc, by simp [under, hodd]⟩
        · exact Or.inr (emptyLevel_under hlookup h)
      · rcases check_or_emptyLevel (hmembers m hm) with ⟨c, hc⟩ | h
        · exact Or.inl ⟨_, hunder c hc, by simp [under, told, hname]⟩
        · exact Or.inr (emptyLevel_under hlookup h)
  | array items ih =>
    by_cases hempty : emptyLevel closed (.array items) = true
    · exact Or.inr ⟨[], _, rfl, hempty⟩
    · have hlevel : items ≠ [] := by
        rintro rfl
        exact hempty rfl
      obtain ⟨u, hu, hbad⟩ : ∃ u ∈ items, addressable closed u = false := by
        by_contra hall
        push Not at hall
        rw [addressable_array.2 ⟨hlevel, fun u hu => by simpa using hall u hu⟩] at h
        exact absurd h (by simp)
      obtain ⟨i, hi⟩ := List.mem_iff_getElem?.1 hu
      rcases ih u hu (distinctKeysAll_iff.1 he u hu) hbad with ⟨c, hc, hodd⟩ | h
      · exact Or.inl ⟨_, mem_checks_array.2 (Or.inr ⟨i, u, hi, c, hc, rfl⟩), by simp [under, told, hodd]⟩
      · exact Or.inr (emptyLevel_under (s := .index i) hi h)
  | _ => exact absurd h (by simp [addressable])

/-- A document that the one given does not cover. -/
def uncovered : Json → Json
  | .null => .array []
  | _ => .null

theorem not_covers_uncovered (closed : Bool) (d : Json) : covers closed d (uncovered d) = false := by
  cases d <;> rfl

/-- A check under a position with an odd name is not read at or under it, where no heavier position has one. -/
theorem not_read_under {e : Json} {p r : List Step} {c : List Step × Check} (he : distinctKeys e = true)
    (hc : countable e = true) (hodd : p.all told = false)
    (hheaviest : ∀ q ∈ checks closed e, q.1.all told = false → weight q.1 ≤ weight p) (hmem : c ∈ checks closed e)
    (hr : readAs c.1 = some r) : ¬p <+: r := by
  rintro ⟨q, rfl⟩
  have hroddd : (p ++ q).all told = false := by rw [List.all_append, hodd, Bool.false_and]
  have hweight := (weight_readSteps hr).2 hroddd
  rw [countP_plainPath, weight_append] at hweight
  have hcodd : c.1.all told = false := by
    rw [← Bool.not_eq_true]
    intro htold
    rw [readAs_told (fits_of_check he hc hmem) htold] at hr
    rw [Option.some.inj hr, hroddd] at htold
    exact absurd htold (by simp)
  have := hheaviest c hmem hcodd
  omega

/-- A document whose plan accepts it, and is told apart from `covers` by a document changed in one place. -/
theorem exists_uncovered {e : Json} (he : distinctKeys e = true) (hc : countable e = true)
    (hself : Holds closed e (reading e)) (hbad : addressable closed e = false) :
    ∃ v, distinctKeys v = true ∧ Holds closed e (reading v) ∧ covers closed e v = false := by
  by_cases hodd : ∃ c ∈ checks closed e, c.1.all told = false
  · obtain ⟨c, ⟨hmem, hcodd⟩, hheaviest⟩ := exists_heaviest (fun c : List Step × Check => weight c.1)
      (fun c => c.1.all told = false) hodd
    obtain ⟨d, hd⟩ := jsonAt_of_check he hmem
    have hw : distinctKeys (uncovered d) = true := by cases d <;> rfl
    refine ⟨replaceAt (uncovered d) c.1 e, distinctKeys_replaceAt hw he c.1, holds_replaced hd hself ?_,
      not_covers_replaced hd (not_covers_uncovered closed d)⟩
    intro q hq r hr hpre
    exact absurd hpre (not_read_under he hc hcodd (fun q hq hqodd => hheaviest q ⟨hq, hqodd⟩) hq hr)
  · rcases misread_or_emptyLevel he hbad with h | ⟨p, d, hd, hempty⟩
    · exact absurd h hodd
    · push Not at hodd
      have hsame (c : List Step × Check) (hmem : c ∈ checks closed e) : readAs c.1 = some c.1 :=
        readAs_told (fits_of_check he hc hmem) (by simpa using hodd c hmem)
      obtain ⟨w, hw, hnot, hpass⟩ : ∃ w, distinctKeys w = true ∧ covers closed d w = false ∧
          ∀ c ∈ checks closed d, c.2.holds (ofSlot (jsonAt w c.1)) = true := by
        cases d with
        | object members =>
          cases members with
          | nil =>
            cases closed with
            | true => exact absurd hempty (by simp [emptyLevel])
            | false => exact ⟨.null, rfl, rfl, fun c hc => absurd hc (by simp [checks, checksMembers])⟩
          | cons m rest => exact absurd hempty (by simp [emptyLevel])
        | array items =>
          cases items with
          | nil =>
            refine ⟨.object [], rfl, rfl, fun c hc => ?_⟩
            obtain rfl : c = ([], .count 0) := by simpa [checks, checksItems] using hc
            rfl
          | cons u rest => exact absurd hempty (by simp [emptyLevel])
        | _ => exact absurd hempty (by simp [emptyLevel])
      refine ⟨replaceAt w p e, distinctKeys_replaceAt hw he p, holds_replaced hd hself ?_,
        not_covers_replaced hd hnot⟩
      intro c hmem r hr hpre
      obtain rfl : c.1 = r := Option.some.inj ((hsame c hmem).symm.trans hr)
      obtain ⟨q, hq⟩ := hpre
      obtain ⟨steps, k⟩ := c
      obtain rfl : p ++ q = steps := hq
      rw [jsonAt_append, jsonAt_replaceAt w hd]
      exact hpass (q, k) (checks_at he hmem hd)

theorem told_of_addressable {e : Json} (he : addressable closed e = true) {c : List Step × Check}
    (hc : c ∈ checks closed e) : c.1.all told = true := by
  induction e generalizing c with
  | object members ih =>
    rcases mem_checks_object.1 hc with ⟨m, hm, q, hq, rfl⟩ | ⟨-, rfl⟩
    · obtain ⟨hname, hbelow⟩ := (addressable_object.1 he).2 m hm
      simpa [under, told, hname] using ih m hm hbelow hq
    · rfl
  | array items ih =>
    rcases mem_checks_array.1 hc with rfl | ⟨i, u, hi, q, hq, rfl⟩
    · rfl
    · have hu := List.mem_of_getElem? hi
      simpa [under, told] using ih u hu ((addressable_array.1 he).2 u hu) hq
  | _ =>
    obtain rfl := (mem_checks_scalar rfl).1 hc
    rfl

/-- The checks, read where their plain paths lead, say what `covers` says of every document exactly where the expected
one is addressable. -/
theorem reading_iff_covers {e : Json} (he : distinctKeys e = true) (hc : countable e = true) :
    (∀ v, distinctKeys v = true → (Holds closed e (reading v) ↔ covers closed e v = true)) ↔
      addressable closed e = true := by
  constructor
  · intro h
    rw [← Bool.not_eq_false]
    intro hbad
    have hself := (h e he).2 (covers_refl he)
    obtain ⟨v, hv, hholds, hnot⟩ := exists_uncovered he hc hself hbad
    rw [(h v hv).1 hholds] at hnot
    exact absurd hnot (by simp)
  · intro ha v _
    have hsame : Holds closed e (reading v) ↔ Holds closed e (walkSteps (ofSlot (some v))) := by
      refine forall₂_congr fun c hmem => ?_
      rw [reading_of_some (readAs_told (fits_of_check he hc hmem) (told_of_addressable ha hmem)), ← walkSteps_fromJson]
      rfl
    rw [hsame, holds_iff_covers ha]
    rfl

/-! The body part of a plan, run on what was received. -/

/-- Whether a received content type, if any, is the declared one. -/
def typeAgrees (contentType : Option String) (received : RuntimeValue) : Bool :=
  contentType.all fun expected =>
    match received with
    | .absent => true
    | .null => true
    | v => (asText v).any (bodyTypesAgree expected)

/-- A received message with a document for its body, of the declared type. -/
structure Received (part : Part) (contentType : Option String) (captured : CapturedValues) (v : Json) : Prop where
  body : CapturedAt captured (rootPath part) (fromJson v)
  type : typeAgrees contentType
    (resolve captured (typePath part)) = true

/-- Whether the body part of the plan, if there is one, matches what was received. -/
def bodyAccepts (part : Part) (declared : Declared) (env : Env) (captured : CapturedValues) : Bool :=
  (bodyPart part declared).all fun node =>
    (outcome (execute ⟨grammarVersion, node, none⟩ env (resolve captured))).1 = .matched

private theorem good_bodyType {es : List Executed} {expected : String} (hs : valueAt es 1 = .string expected) :
    resultGood false (bodyType es) = typeAgrees (some expected) (valueAt es 0) := by
  simp only [bodyType, hs, plainText, typeAgrees, Option.all_some]
  cases h : valueAt es 0 with
  | string actual =>
    simp only [asText, Option.any_some]
    cases bodyTypesAgree expected actual <;> simp
  | bytes b =>
    simp only
    cases asText (.bytes b) with
    | none => rfl
    | some actual =>
      simp only [Option.any_some]
      cases bodyTypesAgree expected actual <;> simp
  | _ => rfl

private theorem allGood_bodyTypeCheck {part : Part} {declared : Declared} {c : Plan.Interpret.Ctx}
    (h : typeAgrees declared.contentType (c.resolver (typePath part)) = true) :
    allGood false c (bodyTypeCheck declared.body declared.headers declared.contentType part).toList := by
  unfold bodyTypeCheck
  extract_lets named
  split
  · rename_i expected hexpected
    obtain ⟨htype, -⟩ := Option.filter_eq_some_iff.1 hexpected
    split
    · rw [Option.toList_some, allGood_one]
      refine (good_against bodyType (yields_resolve c _) rfl fun es hv hl _ => ?_).2 h
      rw [good_bodyType hl, hv, htype]
    · exact allGood_nil.2 trivial
  · exact allGood_nil.2 trivial

variable {part : Part} {declared : Declared} {env : Env} {e : Json}

/-- What the body part accepts of a received document, its checks read where their plain paths lead. -/
theorem bodyAccepts_iff (hbody : declared.body = some (.document (fromJson e))) (hnull : e ≠ .null)
    (hc : countable e = true) {captured : CapturedValues} {v : Json}
    (hr : Received part declared.contentType captured v) :
    bodyAccepts part declared env captured = true ↔ Holds part.closed e (reading v) := by
  have hpart : bodyPart part declared = some (.container (some "body")
      ((bodyTypeCheck declared.body declared.headers declared.contentType part).toList ++
        compileBodyContent (fromJson e) part.closed (rootPath part))) := by
    unfold bodyPart
    rw [hbody]
    cases e <;> first | rfl | exact absurd rfl hnull
  have hread : readPlain (resolve captured) (rootPath part) = reading v := by
    funext steps
    rw [readPlain, resolve_under hr.body, navigate_eq_walkRead (isDocument_fromJson v)]
    · rfl
    · intro ch hch
      rcases plainPath_head hch with rfl | rfl <;> decide
  rw [bodyAccepts, hpart, Option.all_some, decide_eq_true_iff, outcome_matched, ← good_false, execute, good_runContainer,
    allGood_append, and_iff_right (allGood_bodyTypeCheck hr.type), compileBodyContent, allGood_compileBodyValue hc rfl,
    ← hread]

/-- A message with a document for its body and no content type. -/
private theorem received_untyped (part : Part) (contentType : Option String) (v : Json) :
    Received part contentType [(rootPath part, fromJson v), (typePath part, .absent)] v := by
  have hapart : ¬(rootPath part).toList <+: (typePath part).toList ∧
      ¬(typePath part).toList <+: (rootPath part).toList := by
    cases part <;> decide
  have hbody : CapturedAt [(rootPath part, fromJson v), (typePath part, .absent)] (rootPath part) (fromJson v) := by
    refine ⟨by simp [List.lookup_cons], fun p hp hprefix => ?_⟩
    simp only [List.mem_cons, List.not_mem_nil, or_false] at hp
    rcases hp with rfl | rfl
    · rfl
    · exact absurd hprefix hapart.1
  have htype : CapturedAt [(rootPath part, fromJson v), (typePath part, .absent)] (typePath part) .absent := by
    constructor
    · cases part <;> rfl
    · intro p hp hprefix
      simp only [List.mem_cons, List.not_mem_nil, or_false] at hp
      rcases hp with rfl | rfl
      · exact absurd hprefix hapart.2
      · rfl
  have hnone : resolve [(rootPath part, fromJson v), (typePath part, .absent)] (typePath part ++ String.ofList []) =
      navigate .absent [] := resolve_under htype (by simp)
  rw [navigate_absent, String.ofList_nil, String.append_empty] at hnone
  refine ⟨hbody, ?_⟩
  rw [hnone, typeAgrees]
  cases contentType <;> rfl

variable (part declared env) in
/-- The body part of a request's or a response's plan accepts what the expected document covers, and nothing else,
exactly where that document is addressable. -/
theorem body_compared_as_covers_iff (hbody : declared.body = some (.document (fromJson e))) (hnull : e ≠ .null)
    (hd : distinctKeys e = true) (hc : countable e = true) :
    (∀ v captured, distinctKeys v = true → Received part declared.contentType captured v →
      (bodyAccepts part declared env captured = true ↔ covers part.closed e v = true)) ↔
      addressable part.closed e = true := by
  rw [← reading_iff_covers hd hc]
  constructor
  · intro h v hv
    have hr := received_untyped part declared.contentType v
    exact (bodyAccepts_iff hbody hnull hc hr).symm.trans (h v _ hv hr)
  · intro h v captured hv hr
    rw [bodyAccepts_iff hbody hnull hc hr]
    exact h v hv

/-- A response with a document for its body, of no declared type. -/
private def responding (e : Json) : Declared := ⟨[], none, some (.document (fromJson e))⟩

private def plainEnv : Env := ⟨⟨fun _ _ => .ok true, fun _ => true, fun _ _ => .ok (), id, id⟩, none, none⟩

private def tagged : Json := .object [("id", .number (.posInt 1)), ("tags", .array [.string "a"])]

/-- The body `{"id": 1, "tags": ["a"]}` of a response has what the theorem asks for. -/
theorem body_compared_as_covers_iff_tagged :
    (∀ v captured, distinctKeys v = true → Received .response none captured v →
      (bodyAccepts .response (responding tagged) plainEnv captured = true ↔
        covers (Part.closed .response) tagged v = true)) ↔
      addressable (Part.closed .response) tagged = true :=
  body_compared_as_covers_iff .response (responding tagged) plainEnv (e := tagged) rfl (by simp [tagged]) (by decide)
    (by decide)

private def received (v : Json) : CapturedValues := [("$.response.body", fromJson v)]

/-- The body `{"a.b": 1}` does not satisfy its own plan; `{"a": {}}` satisfies that of `{"a": []}`, and `{"a": true}`
that of `{"a": {}}`. -/
theorem dotted_and_empty_bodies :
    (bodyAccepts .response (responding (.object [("a.b", .number (.posInt 1))])) plainEnv
        (received (.object [("a.b", .number (.posInt 1))])) = false ∧
      covers false (.object [("a.b", .number (.posInt 1))]) (.object [("a.b", .number (.posInt 1))]) = true) ∧
      (bodyAccepts .response (responding (.object [("a", .array [])])) plainEnv
          (received (.object [("a", .object [])])) = true ∧
        covers false (.object [("a", .array [])]) (.object [("a", .object [])]) = false) ∧
      bodyAccepts .response (responding (.object [("a", .object [])])) plainEnv
          (received (.object [("a", .bool true)])) = true ∧
        covers false (.object [("a", .object [])]) (.object [("a", .bool true)]) = false := by
  decide +kernel

end PactJanus.Legacy.Comparison
