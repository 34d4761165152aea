import PactJanus.Data.Json
import PactJanus.Lib.Lists

namespace PactJanus.Data.Equality

open PactJanus.Data.Json PactJanus.Lib.Lists

/-! Equality of documents is an equivalence on documents whose objects name no member twice. -/

/-- Induction on a document. -/
@[induction_eliminator]
theorem json_induction {motive : Json → Prop} (null : motive .null) (bool : ∀ b, motive (.bool b))
    (number : ∀ n, motive (.number n)) (string : ∀ s, motive (.string s))
    (array : ∀ items, (∀ v ∈ items, motive v) → motive (.array items))
    (object : ∀ members, (∀ p ∈ members, motive p.2) → motive (.object members)) (v : Json) : motive v := by
  refine Json.rec (motive_1 := motive) (motive_2 := fun vs => ∀ v ∈ vs, motive v)
    (motive_3 := fun ms => ∀ p ∈ ms, motive p.2) (motive_4 := fun p => motive p.2)
    null bool number string array object ?noItem ?item ?noMember ?member (fun _ _ ih => ih) v
  case noItem => exact fun _ h => nomatch h
  case item => exact fun _ _ ihHead ihTail v hv => (List.mem_cons.1 hv).elim (fun h => h ▸ ihHead) (ihTail v)
  case noMember => exact fun _ h => nomatch h
  case member => exact fun _ _ ihHead ihTail p hp => (List.mem_cons.1 hp).elim (fun h => h ▸ ihHead) (ihTail p)

theorem distinctKeysAll_iff {items : List Json} :
    distinctKeysAll items = true ↔ ∀ v ∈ items, distinctKeys v = true := by
  induction items with
  | nil => simp [distinctKeysAll]
  | cons v rest ih => simp [distinctKeysAll, ih]

theorem distinctKeysMembers_iff {members : List (String × Json)} :
    distinctKeysMembers members = true ↔ ∀ p ∈ members, distinctKeys p.2 = true := by
  induction members with
  | nil => simp [distinctKeysMembers]
  | cons p rest ih => simp [distinctKeysMembers, ih]

theorem distinctKeys_object {members : List (String × Json)} :
    distinctKeys (.object members) = true ↔
      (members.map Prod.fst).Nodup ∧ ∀ p ∈ members, distinctKeys p.2 = true := by
  simp [distinctKeys, distinctKeysMembers_iff]

section Equality

variable {eq : Number → Number → Bool}

theorem itemsEqualBy_iff {as bs : List Json} (hlen : as.length = bs.length) :
    itemsEqualBy eq as bs = true ↔ List.Forall₂ (fun a b => equalBy eq a b = true) as bs := by
  induction as generalizing bs with
  | nil =>
    obtain rfl := List.length_eq_zero_iff.1 hlen.symm
    simp [itemsEqualBy]
  | cons a as ih =>
    cases bs with
    | nil => simp at hlen
    | cons b bs => simp [itemsEqualBy, ih (Nat.succ.inj hlen)]

theorem membersEqualBy_iff {as bs : List (String × Json)} :
    membersEqualBy eq as bs = true ↔ ∀ p ∈ as, ∃ b, bs.lookup p.1 = some b ∧ equalBy eq p.2 b = true := by
  induction as with
  | nil => simp [membersEqualBy]
  | cons p rest ih =>
    obtain ⟨name, a⟩ := p
    simp only [membersEqualBy, Bool.and_eq_true, ih, List.forall_mem_cons]
    cases bs.lookup name <;> simp

theorem equalBy_array {as bs : List Json} :
    equalBy eq (.array as) (.array bs) = true ↔ List.Forall₂ (fun a b => equalBy eq a b = true) as bs := by
  simp only [equalBy, Bool.and_eq_true, beq_iff_eq]
  refine ⟨fun ⟨hlen, h⟩ => (itemsEqualBy_iff hlen).1 h, fun h => ?_⟩
  exact ⟨h.length_eq, (itemsEqualBy_iff h.length_eq).2 h⟩

theorem equalBy_object {as bs : List (String × Json)} :
    equalBy eq (.object as) (.object bs) = true ↔
      as.length = bs.length ∧ ∀ p ∈ as, ∃ b, bs.lookup p.1 = some b ∧ equalBy eq p.2 b = true := by
  simp [equalBy, membersEqualBy_iff]

theorem equalBy_refl (hrefl : ∀ n, eq n n = true) {a : Json} (ha : distinctKeys a = true) : equalBy eq a a = true := by
  induction a with
  | number n => exact hrefl n
  | array items ih =>
    rw [equalBy_array, List.forall₂_same]
    exact fun v hv => ih v hv (distinctKeysAll_iff.1 ha v hv)
  | object members ih =>
    obtain ⟨hd, hmembers⟩ := distinctKeys_object.1 ha
    rw [equalBy_object]
    exact ⟨rfl, fun p hp => ⟨p.2, lookup_of_mem hd hp, ih p hp (hmembers p hp)⟩⟩
  | _ => simp [equalBy]

theorem equalBy_symm (hsymm : ∀ m n, eq m n = true → eq n m = true) {a b : Json} (ha : distinctKeys a = true)
    (hb : distinctKeys b = true) (h : equalBy eq a b = true) : equalBy eq b a = true := by
  induction a generalizing b with
  | number n =>
    cases b with
    | number m => exact hsymm n m h
    | _ => simp [equalBy] at h
  | array items ih =>
    cases b with
    | array others =>
      rw [equalBy_array] at h ⊢
      rw [List.forall₂_iff_get] at h ⊢
      refine ⟨h.1.symm, fun i hi hi' => ?_⟩
      exact ih _ (List.get_mem ..) (distinctKeysAll_iff.1 ha _ (List.get_mem ..))
        (distinctKeysAll_iff.1 hb _ (List.get_mem ..)) (h.2 i hi' hi)
    | _ => simp [equalBy] at h
  | object members ih =>
    cases b with
    | object others =>
      obtain ⟨hda, hmembers⟩ := distinctKeys_object.1 ha
      obtain ⟨hdb, hothers⟩ := distinctKeys_object.1 hb
      rw [equalBy_object] at h ⊢
      obtain ⟨hlen, hall⟩ := h
      have hsub := names_subset hda hlen fun p hp => by
        obtain ⟨b, hb, -⟩ := hall p hp
        simp [hb]
      refine ⟨hlen.symm, fun q hq => ?_⟩
      obtain ⟨p, hp, hname⟩ := List.mem_map.1 (hsub (List.mem_map_of_mem hq))
      obtain ⟨b, hlookup, hequal⟩ := hall p hp
      obtain rfl : b = q.2 := by
        rw [hname, lookup_of_mem hdb hq] at hlookup
        exact (Option.some.inj hlookup).symm
      exact ⟨p.2, hname ▸ lookup_of_mem hda hp, ih p hp (hmembers p hp) (hothers q hq) hequal⟩
    | _ => simp [equalBy] at h
  | bool x =>
    cases b with
    | bool y => exact beq_iff_eq.2 (beq_iff_eq.1 h).symm
    | _ => simp [equalBy] at h
  | string x =>
    cases b with
    | string y => exact beq_iff_eq.2 (beq_iff_eq.1 h).symm
    | _ => simp [equalBy] at h
  | null =>
    cases b with
    | null => rfl
    | _ => simp [equalBy] at h

theorem equalBy_trans (htrans : ∀ l m n, eq l m = true → eq m n = true → eq l n = true) {a b c : Json}
    (hab : equalBy eq a b = true) (hbc : equalBy eq b c = true) : equalBy eq a c = true := by
  induction a generalizing b c with
  | number n =>
    cases b <;> cases c <;> simp only [equalBy, Bool.false_eq_true] at hab hbc ⊢
    exact htrans _ _ _ hab hbc
  | array items ih =>
    cases b with
    | array others =>
      cases c with
      | array rest =>
        rw [equalBy_array, List.forall₂_iff_get] at hab hbc ⊢
        refine ⟨hab.1.trans hbc.1, fun i hi hi' => ?_⟩
        exact ih _ (List.get_mem ..) (hab.2 i hi (hab.1 ▸ hi)) (hbc.2 i (hab.1 ▸ hi) hi')
      | _ => simp [equalBy] at hbc
    | _ => simp [equalBy] at hab
  | object members ih =>
    cases b with
    | object others =>
      cases c with
      | object rest =>
        rw [equalBy_object] at hab hbc ⊢
        refine ⟨hab.1.trans hbc.1, fun p hp => ?_⟩
        obtain ⟨q, hq, hpq⟩ := hab.2 p hp
        obtain ⟨r, hr, hqr⟩ := hbc.2 (p.1, q) (mem_of_lookup hq)
        exact ⟨r, hr, ih p hp hpq hqr⟩
      | _ => simp [equalBy] at hbc
    | _ => simp [equalBy] at hab
  | _ => cases b <;> cases c <;> simp_all [equalBy]

end Equality

section ValuesEqual

variable {a b c : Json}

theorem numbersEqual_refl (n : Number) : numbersEqual n n = true := by simp [numbersEqual]

theorem numbersEqual_symm (m n : Number) (h : numbersEqual m n = true) : numbersEqual n m = true := by
  simp only [numbersEqual, beq_iff_eq] at h ⊢
  exact h.symm

theorem numbersEqual_trans (l m n : Number) (hlm : numbersEqual l m = true) (hmn : numbersEqual m n = true) :
    numbersEqual l n = true := by
  simp only [numbersEqual, beq_iff_eq] at hlm hmn ⊢
  exact hlm.trans hmn

theorem valuesEqual_refl (ha : distinctKeys a = true) : valuesEqual a a = true := equalBy_refl numbersEqual_refl ha

theorem valuesEqual_symm (ha : distinctKeys a = true) (hb : distinctKeys b = true) (h : valuesEqual a b = true) :
    valuesEqual b a = true := equalBy_symm numbersEqual_symm ha hb h

theorem valuesEqual_comm (ha : distinctKeys a = true) (hb : distinctKeys b = true) :
    valuesEqual a b = valuesEqual b a :=
  Bool.eq_iff_iff.2 ⟨valuesEqual_symm ha hb, valuesEqual_symm hb ha⟩

theorem valuesEqual_trans (hab : valuesEqual a b = true) (hbc : valuesEqual b c = true) : valuesEqual a c = true :=
  equalBy_trans numbersEqual_trans hab hbc

end ValuesEqual

section Same

variable {a b c : Json}

theorem numbersSame_refl (n : Number) : numbersSame n n = true := by cases n <;> simp [numbersSame]

theorem numbersSame_symm (m n : Number) (h : numbersSame m n = true) : numbersSame n m = true := by
  cases m <;> cases n <;> simp_all [numbersSame]

theorem numbersSame_trans (l m n : Number) (hlm : numbersSame l m = true) (hmn : numbersSame m n = true) :
    numbersSame l n = true := by
  cases l <;> cases m <;> cases n <;> simp_all [numbersSame]

theorem same_refl (ha : distinctKeys a = true) : same a a = true := equalBy_refl numbersSame_refl ha

theorem same_symm (ha : distinctKeys a = true) (hb : distinctKeys b = true) (h : same a b = true) : same b a = true :=
  equalBy_symm numbersSame_symm ha hb h

theorem same_trans (hab : same a b = true) (hbc : same b c = true) : same a c = true :=
  equalBy_trans numbersSame_trans hab hbc

/-- An object whose members are each written their own way, in any order, is the same document. -/
theorem same_rewritten {members others : List (String × Json)} {write : String → Json → Json}
    (hd : (members.map Prod.fst).Nodup) (hperm : others.Perm (members.map fun p => (p.1, write p.1 p.2)))
    (h : ∀ p ∈ members, same p.2 (write p.1 p.2) = true ∧ distinctKeys (write p.1 p.2) = true) :
    same (.object members) (.object others) = true ∧ distinctKeys (.object others) = true := by
  have hnames : (others.map Prod.fst).Perm (members.map Prod.fst) := by
    have := hperm.map Prod.fst
    rwa [List.map_map] at this
  have hd' : (others.map Prod.fst).Nodup := hnames.nodup_iff.2 hd
  constructor
  · rw [same, equalBy_object]
    refine ⟨(hperm.length_eq.trans (List.length_map _)).symm, fun p hp => ⟨write p.1 p.2, ?_, (h p hp).1⟩⟩
    have hmem : (p.1, write p.1 p.2) ∈ others := hperm.symm.subset (List.mem_map_of_mem hp)
    exact lookup_of_mem hd' hmem
  · rw [distinctKeys_object]
    refine ⟨hd', fun q hq => ?_⟩
    obtain ⟨p, hp, rfl⟩ := List.mem_map.1 (hperm.subset hq)
    exact (h p hp).2

end Same

end PactJanus.Data.Equality
