import PactJanus.Plan.Replacement

namespace PactJanus.Legacy.Covers

open PactJanus.Data.Json PactJanus.Data.Equality PactJanus.Lib.Lists PactJanus.Plan.Value PactJanus.Plan.Result
  PactJanus.Plan.Navigation PactJanus.Plan.Documents PactJanus.Plan.Replacement

/-! What an expected document covers, and the checks that say so position by position. -/

mutual

/-- Whether an expected document covers a received one; `closed` says that objects have no other members. -/
def covers (closed : Bool) : Json → Json → Bool
  | .object members, .object others =>
    coversMembers closed members others && (!closed || others.all fun q => q.1 ∈ members.map Prod.fst)
  | .object _, _ => false
  | .array items, .array others => items.length == others.length && coversItems closed items others
  | .array _, _ => false
  | e, v => valuesEqual v e
termination_by structural e => e

def coversMembers (closed : Bool) : List (String × Json) → List (String × Json) → Bool
  | [], _ => true
  | (name, e) :: rest, others =>
    (match others.lookup name with
      | some v => covers closed e v
      | none => false) && coversMembers closed rest others
termination_by structural members => members

def coversItems (closed : Bool) : List Json → List Json → Bool
  | e :: rest, v :: others => covers closed e v && coversItems closed rest others
  | _, _ => true
termination_by structural items => items

end

def isScalar : Json → Bool
  | .array _ => false
  | .object _ => false
  | _ => true

/-- What a compiled check asks of the value it resolves. -/
inductive Check where
  | equal (scalar : { e : Json // isScalar e = true })
  | only (names : List String)
  | count (n : Nat)

def Check.holds : Check → RuntimeValue → Bool
  | .equal e, v => runtimeEq v (fromJson e.val)
  | .only names, .object members => members.all fun p => p.1 ∈ names
  | .only _, _ => false
  | .count n, v => lengthOpt v == some n

def under (s : Step) (p : List Step × Check) : List Step × Check := (s :: p.1, p.2)

mutual

/-- The checks a document is compiled to, each with the steps to the value it is about. -/
def checks (closed : Bool) : Json → List (List Step × Check)
  | .null => [([], .equal ⟨.null, rfl⟩)]
  | .bool b => [([], .equal ⟨.bool b, rfl⟩)]
  | .number n => [([], .equal ⟨.number n, rfl⟩)]
  | .string s => [([], .equal ⟨.string s, rfl⟩)]
  | .object members =>
    checksMembers closed members ++ if closed then [([], .only (members.map Prod.fst))] else []
  | .array items => ([], .count items.length) :: checksItems closed items 0
termination_by structural e => e

def checksMembers (closed : Bool) : List (String × Json) → List (List Step × Check)
  | [] => []
  | (name, e) :: rest => (checks closed e).map (under (.member name)) ++ checksMembers closed rest
termination_by structural members => members

def checksItems (closed : Bool) : List Json → Nat → List (List Step × Check)
  | [], _ => []
  | e :: rest, i => (checks closed e).map (under (.index i)) ++ checksItems closed rest (i + 1)
termination_by structural items => items

end

variable {closed : Bool}

theorem covers_object {members others : List (String × Json)} :
    covers closed (.object members) (.object others) = true ↔
      (∀ p ∈ members, (others.lookup p.1).any (covers closed p.2) = true) ∧
        (closed = true → ∀ q ∈ others, q.1 ∈ members.map Prod.fst) := by
  have hmembers : coversMembers closed members others = true ↔
      ∀ p ∈ members, (others.lookup p.1).any (covers closed p.2) = true := by
    induction members with
    | nil => simp [coversMembers]
    | cons p rest ih =>
      obtain ⟨name, e⟩ := p
      rw [coversMembers, Bool.and_eq_true, ih, List.forall_mem_cons]
      cases others.lookup name <;> simp
  rw [covers, Bool.and_eq_true, hmembers]
  cases closed <;> simp

theorem covers_array {items others : List Json} :
    covers closed (.array items) (.array others) = true ↔
      items.length = others.length ∧ ∀ (i : Nat) e, items[i]? = some e → (others[i]?).any (covers closed e) = true := by
  rw [covers, Bool.and_eq_true, beq_iff_eq, and_congr_right_iff]
  intro hlen
  induction items generalizing others with
  | nil => simp [coversItems]
  | cons e rest ih =>
    cases others with
    | nil => simp at hlen
    | cons v others =>
      rw [coversItems, Bool.and_eq_true, ih (Nat.succ.inj hlen)]
      constructor
      · rintro ⟨he, hrest⟩ i
        cases i with
        | zero => simpa using he
        | succ i => simpa using hrest i
      · exact fun h => ⟨by simpa using h 0 e, fun i => by simpa using h (i + 1)⟩

theorem covers_scalar {e : Json} (he : isScalar e = true) (v : Json) : covers closed e v = valuesEqual v e := by
  cases e <;> first | rfl | exact absurd he (by simp [isScalar])

theorem mem_checksMembers {members : List (String × Json)} {p : List Step × Check} :
    p ∈ checksMembers closed members ↔ ∃ m ∈ members, ∃ q ∈ checks closed m.2, p = under (.member m.1) q := by
  induction members with
  | nil => simp [checksMembers]
  | cons m rest ih =>
    obtain ⟨name, e⟩ := m
    rw [checksMembers, List.mem_append, ih, List.mem_map]
    simp [eq_comm]

theorem mem_checksItems {items : List Json} {start : Nat} {p : List Step × Check} :
    p ∈ checksItems closed items start ↔
      ∃ (i : Nat) (e : Json), items[i]? = some e ∧ ∃ q ∈ checks closed e, p = under (.index (start + i)) q := by
  induction items generalizing start with
  | nil => simp [checksItems]
  | cons e rest ih =>
    rw [checksItems, List.mem_append, ih, List.mem_map]
    constructor
    · rintro (⟨q, hq, rfl⟩ | ⟨i, e', hi, q, hq, rfl⟩)
      · exact ⟨0, e, rfl, q, hq, rfl⟩
      · exact ⟨i + 1, e', by simpa using hi, q, hq, by rw [Nat.add_right_comm, Nat.add_assoc]⟩
    · rintro ⟨i, e', hi, q, hq, rfl⟩
      cases i with
      | zero =>
        obtain rfl : e = e' := by simpa using hi
        exact Or.inl ⟨q, hq, rfl⟩
      | succ i => exact Or.inr ⟨i, e', by simpa using hi, q, hq, by rw [Nat.add_right_comm, Nat.add_assoc]⟩

theorem mem_checks_object {members : List (String × Json)} {p : List Step × Check} :
    p ∈ checks closed (.object members) ↔
      (∃ m ∈ members, ∃ q ∈ checks closed m.2, p = under (.member m.1) q) ∨
        closed = true ∧ p = ([], .only (members.map Prod.fst)) := by
  rw [checks, List.mem_append, mem_checksMembers]
  cases closed <;> simp

theorem mem_checks_array {items : List Json} {p : List Step × Check} :
    p ∈ checks closed (.array items) ↔
      p = ([], .count items.length) ∨
        ∃ (i : Nat) (e : Json), items[i]? = some e ∧ ∃ q ∈ checks closed e, p = under (.index i) q := by
  rw [checks, List.mem_cons, mem_checksItems]
  simp

theorem mem_checks_scalar {e : Json} (he : isScalar e = true) {p : List Step × Check} :
    p ∈ checks closed e ↔ p = ([], .equal ⟨e, he⟩) := by
  cases e <;> first | exact List.mem_singleton | exact absurd he (by simp [isScalar])

theorem covers_refl {e : Json} (he : distinctKeys e = true) : covers closed e e = true := by
  induction e with
  | object members ih =>
    obtain ⟨hd, hmembers⟩ := distinctKeys_object.1 he
    refine covers_object.2 ⟨fun p hp => ?_, fun _ q hq => List.mem_map_of_mem hq⟩
    rw [lookup_of_mem hd hp]
    exact ih p hp (hmembers p hp)
  | array items ih =>
    refine covers_array.2 ⟨rfl, fun i e hi => ?_⟩
    rw [hi]
    exact ih e (List.mem_of_getElem? hi) (distinctKeysAll_iff.1 he e (List.mem_of_getElem? hi))
  | _ => exact (covers_scalar rfl _).trans (valuesEqual_refl he)

/-- A covered document is covered step by step. -/
theorem covers_step {e v d : Json} (h : covers closed e v = true) {s : Step} (hs : stepInto s e = some d) :
    ∃ u, stepInto s v = some u ∧ covers closed d u = true := by
  cases s with
  | member name =>
    cases e with
    | object members =>
      cases v with
      | object others => exact (Option.any_eq_true _ _).1 ((covers_object.1 h).1 (name, d) (mem_of_lookup hs))
      | _ => exact absurd h (by simp [covers])
    | _ => exact absurd hs (by simp [stepInto, Data.Json.get])
  | index i =>
    cases e with
    | array items =>
      cases v with
      | array others => exact (Option.any_eq_true _ _).1 ((covers_array.1 h).2 i d hs)
      | _ => exact absurd h (by simp [covers])
    | _ => exact absurd hs (by simp [stepInto])

theorem covers_at {steps : List Step} {e v d : Json} (h : covers closed e v = true) (hd : jsonAt e steps = some d) :
    ∃ u, jsonAt v steps = some u ∧ covers closed d u = true := by
  induction steps generalizing e v with
  | nil =>
    obtain rfl := Option.some.inj hd
    exact ⟨v, rfl, h⟩
  | cons s rest ih =>
    obtain ⟨w, hw, hd⟩ := Option.bind_eq_some_iff.1 hd
    obtain ⟨u, hu, hcovers⟩ := covers_step h hw
    obtain ⟨x, hx, hcovers⟩ := ih hcovers hd
    exact ⟨x, by rw [jsonAt, hu]; exact hx, hcovers⟩

/-- A document changed where its own value does not cover the new one is not covered. -/
theorem not_covers_replaced {steps : List Step} {e d w : Json} (hd : jsonAt e steps = some d)
    (hw : covers closed d w = false) : covers closed e (replaceAt w steps e) = false := by
  rw [← Bool.not_eq_true]
  intro h
  obtain ⟨u, hu, hcovers⟩ := covers_at h hd
  rw [jsonAt_replaceAt w hd] at hu
  obtain rfl := Option.some.inj hu
  exact absurd hcovers (by simp [hw])

/-! Checks read at their own positions say what `covers` says, where every level has one. -/

/-- Every check holds of what `read` finds for the steps to its value. -/
def Holds (closed : Bool) (e : Json) (read : List Step → RuntimeValue) : Prop :=
  ∀ p ∈ checks closed e, p.2.holds (read p.1) = true

theorem holds_object {members : List (String × Json)} {read : List Step → RuntimeValue} :
    Holds closed (.object members) read ↔
      (∀ m ∈ members, Holds closed m.2 fun steps => read (.member m.1 :: steps)) ∧
        (closed = true → (Check.only (members.map Prod.fst)).holds (read []) = true) := by
  constructor
  · intro h
    refine ⟨fun m hm q hq => ?_, fun hc => ?_⟩
    · exact h _ (mem_checks_object.2 (Or.inl ⟨m, hm, q, hq, rfl⟩))
    · exact h _ (mem_checks_object.2 (Or.inr ⟨hc, rfl⟩))
  · rintro ⟨hmembers, honly⟩ p hp
    rcases mem_checks_object.1 hp with ⟨m, hm, q, hq, rfl⟩ | ⟨hc, rfl⟩
    · exact hmembers m hm q hq
    · exact honly hc

theorem holds_array {items : List Json} {read : List Step → RuntimeValue} :
    Holds closed (.array items) read ↔
      (Check.count items.length).holds (read []) = true ∧
        ∀ (i : Nat) e, items[i]? = some e → Holds closed e fun steps => read (.index i :: steps) := by
  constructor
  · intro h
    refine ⟨h _ (mem_checks_array.2 (Or.inl rfl)), fun i e hi q hq => ?_⟩
    exact h _ (mem_checks_array.2 (Or.inr ⟨i, e, hi, q, hq, rfl⟩))
  · rintro ⟨hcount, hitems⟩ p hp
    rcases mem_checks_array.1 hp with rfl | ⟨i, e, hi, q, hq, rfl⟩
    · exact hcount
    · exact hitems i e hi q hq

theorem holds_scalar {e : Json} (he : isScalar e = true) {read : List Step → RuntimeValue} :
    Holds closed e read ↔ (Check.equal ⟨e, he⟩).holds (read []) = true := by
  constructor
  · exact fun h => h _ ((mem_checks_scalar he).2 rfl)
  · intro h p hp
    obtain rfl := (mem_checks_scalar he).1 hp
    exact h

private theorem walkSteps_cons_ofSlot (slot : Option Json) (s : Step) :
    (fun steps => walkSteps (ofSlot slot) (s :: steps)) = walkSteps (ofSlot (slot.bind (stepInto s))) := by
  funext steps
  rw [show walkSteps (ofSlot slot) (s :: steps) = walkSteps (stepOf (ofSlot slot) s) steps from rfl, stepOf_ofSlot]

/-- No name has a character a plain path ends a name at. -/
def plainlyNamed (name : String) : Bool := name.toList.all fun c => !endsMember c

mutual

/-- Whether every member of a document can be told by a plain path and every level of it is checked: no name has a
`.` or a `[`, no array is empty, and no object is that is open to other members. -/
def addressable (closed : Bool) : Json → Bool
  | .object members => (closed || !members.isEmpty) && addressableMembers closed members
  | .array items => !items.isEmpty && addressableAll closed items
  | _ => true
termination_by structural e => e

def addressableMembers (closed : Bool) : List (String × Json) → Bool
  | [] => true
  | (name, e) :: rest => plainlyNamed name && addressable closed e && addressableMembers closed rest
termination_by structural members => members

def addressableAll (closed : Bool) : List Json → Bool
  | [] => true
  | e :: rest => addressable closed e && addressableAll closed rest
termination_by structural items => items

end

theorem addressable_object {members : List (String × Json)} :
    addressable closed (.object members) = true ↔ (closed = true ∨ members ≠ []) ∧
      ∀ m ∈ members, plainlyNamed m.1 = true ∧ addressable closed m.2 = true := by
  have hmembers : addressableMembers closed members = true ↔
      ∀ m ∈ members, plainlyNamed m.1 = true ∧ addressable closed m.2 = true := by
    induction members with
    | nil => simp [addressableMembers]
    | cons m rest ih => simp [addressableMembers, ih, and_assoc]
  rw [addressable, Bool.and_eq_true, hmembers]
  simp

theorem addressable_array {items : List Json} :
    addressable closed (.array items) = true ↔ items ≠ [] ∧ ∀ e ∈ items, addressable closed e = true := by
  have hitems : addressableAll closed items = true ↔ ∀ e ∈ items, addressable closed e = true := by
    induction items with
    | nil => simp [addressableAll]
    | cons e rest ih => simp [addressableAll, ih]
  rw [addressable, Bool.and_eq_true, hitems]
  simp

/-- Where every level has a check, the checks hold at their own positions of what is covered and of nothing else. -/
theorem holds_iff_covers {e : Json} (he : addressable closed e = true) (slot : Option Json) :
    Holds closed e (walkSteps (ofSlot slot)) ↔ slot.any (covers closed e) = true := by
  induction e generalizing slot with
  | object members ih =>
    obtain ⟨hlevel, hmembers⟩ := addressable_object.1 he
    have hunder (m : String × Json) (hm : m ∈ members) :
        (Holds closed m.2 fun steps => walkSteps (ofSlot slot) (.member m.1 :: steps)) ↔
          (slot.bind (Data.Json.get m.1)).any (covers closed m.2) = true := by
      rw [walkSteps_cons_ofSlot]
      exact ih m hm (hmembers m hm).2 _
    rw [holds_object]
    by_cases hobject : ∃ others, slot = some (.object others)
    · obtain ⟨others, rfl⟩ := hobject
      rw [Option.any_some, covers_object]
      refine and_congr (forall₂_congr fun m hm => hunder m hm) (imp_congr_right fun _ => ?_)
      simp [walkSteps, ofSlot, fromJson, fromJsonMembers_eq, Check.holds]
    · have hslot : slot.any (covers closed (.object members)) = false ∧
          (Check.only (members.map Prod.fst)).holds (ofSlot slot) = false ∧
          ∀ name, slot.bind (Data.Json.get name) = none := by
        cases slot with
        | none => exact ⟨rfl, rfl, fun _ => rfl⟩
        | some v => cases v <;> first | exact ⟨rfl, rfl, fun _ => rfl⟩ | exact absurd ⟨_, rfl⟩ hobject
      obtain ⟨hany, hnot, hget⟩ := hslot
      refine iff_of_false ?_ (by simp [hany])
      rintro ⟨hall, honly⟩
      rcases hlevel with hclosed | hsome
      · exact absurd (honly hclosed) (by simp [walkSteps, hnot])
      · obtain ⟨m, hm⟩ := List.exists_mem_of_ne_nil _ hsome
        have := (hunder m hm).1 (hall m hm)
        rw [hget] at this
        exact absurd this (by simp)
  | array items ih =>
    obtain ⟨hsome, hitems⟩ := addressable_array.1 he
    have hunder (i : Nat) (e : Json) (hi : items[i]? = some e) :
        (Holds closed e fun steps => walkSteps (ofSlot slot) (.index i :: steps)) ↔
          (slot.bind (stepInto (.index i))).any (covers closed e) = true := by
      rw [walkSteps_cons_ofSlot]
      exact ih e (List.mem_of_getElem? hi) (hitems e (List.mem_of_getElem? hi)) _
    rw [holds_array]
    by_cases harray : ∃ others, slot = some (.array others)
    · obtain ⟨others, rfl⟩ := harray
      rw [Option.any_some, covers_array]
      refine and_congr ?_ (forall₃_congr fun i e hi => hunder i e hi)
      simpa [walkSteps, ofSlot, fromJson, fromJsonAll_eq, Check.holds, lengthOpt] using eq_comm
    · have hslot : slot.any (covers closed (.array items)) = false ∧ slot.bind (stepInto (.index 0)) = none := by
        cases slot with
        | none => exact ⟨rfl, rfl⟩
        | some v => cases v <;> first | exact ⟨rfl, rfl⟩ | exact absurd ⟨_, rfl⟩ harray
      obtain ⟨hany, hnone⟩ := hslot
      refine iff_of_false ?_ (by simp [hany])
      rintro ⟨-, hall⟩
      obtain ⟨e, rest, rfl⟩ := List.exists_cons_of_ne_nil hsome
      have := (hunder 0 e rfl).1 (hall 0 e rfl)
      rw [hnone] at this
      exact absurd this (by simp)
  | _ =>
    rw [holds_scalar rfl, Check.holds]
    refine (congrArg (· = true) (runtimeEq_ofSlot slot _)).to_iff.trans ?_
    rw [funext (covers_scalar rfl)]

end PactJanus.Legacy.Covers
