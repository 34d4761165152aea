import Mathlib.Algebra.Ring.Nat
import Mathlib.Data.List.Perm.Subperm

namespace PactJanus.Lib.Lists

/-! Lists of keyed things looked up by key, and the first of a list's elements. -/

section Lookup

variable {κ α : Type} [DecidableEq κ] {members : List (κ × α)} {key : κ} {v : α}

theorem lookup_cons_ite (k : κ) (w : α) (rest : List (κ × α)) (key : κ) :
    ((k, w) :: rest).lookup key = if key = k then some w else rest.lookup key := by
  rw [List.lookup_cons]
  by_cases h : key = k
  · simp [h]
  · rw [beq_eq_false_iff_ne.2 h, if_neg h]

theorem lookup_isSome_iff : (members.lookup key).isSome = true ↔ key ∈ members.map Prod.fst := by
  induction members with
  | nil => simp
  | cons p rest ih =>
    obtain ⟨k, w⟩ := p
    rw [List.lookup_cons]
    by_cases hk : key = k
    · simp [hk]
    · simp only [beq_eq_false_iff_ne.2 hk, ih, List.map_cons, List.mem_cons, hk, false_or]

theorem lookup_eq_none_iff_notMem : members.lookup key = none ↔ key ∉ members.map Prod.fst := by
  rw [← lookup_isSome_iff, Option.isSome_iff_ne_none, not_not]

theorem mem_of_lookup (h : members.lookup key = some v) : (key, v) ∈ members := by
  induction members with
  | nil => exact absurd h (by simp)
  | cons p rest ih =>
    obtain ⟨k, w⟩ := p
    rw [List.lookup_cons] at h
    by_cases hk : key = k
    · simp only [hk, beq_self_eq_true, Option.some.injEq] at h
      simp [hk, h]
    · rw [beq_eq_false_iff_ne.2 hk] at h
      exact List.mem_cons_of_mem _ (ih h)

/-- Where no key comes twice, a key's thing is the one looked up. -/
theorem lookup_of_mem (hd : (members.map Prod.fst).Nodup) {p : κ × α} (hp : p ∈ members) :
    members.lookup p.1 = some p.2 := by
  induction members with
  | nil => exact absurd hp (by simp)
  | cons q rest ih =>
    obtain ⟨k, w⟩ := q
    simp only [List.map_cons, List.nodup_cons] at hd
    rw [List.lookup_cons]
    obtain rfl | hp := List.mem_cons.1 hp
    · simp
    · have hne : p.1 ≠ k := fun heq => hd.1 (heq ▸ List.mem_map_of_mem hp)
      rw [beq_eq_false_iff_ne.2 hne]
      exact ih hd.2 hp

theorem lookup_map_key {β : Type} (f : κ → α → β) :
    (members.map fun p => (p.1, f p.1 p.2)).lookup key = (members.lookup key).map (f key) := by
  induction members with
  | nil => rfl
  | cons p rest ih =>
    obtain ⟨k, w⟩ := p
    simp only [List.map_cons, List.lookup_cons]
    by_cases hk : key = k
    · simp [hk]
    · simp only [beq_eq_false_iff_ne.2 hk, ih]

theorem lookup_map {β : Type} (f : α → β) :
    (members.map fun p => (p.1, f p.2)).lookup key = (members.lookup key).map f :=
  lookup_map_key fun _ => f

theorem lookup_map_injective {κ' β : Type} [DecidableEq κ'] {f : κ → κ'} (hf : Function.Injective f) (g : α → β) :
    (members.map fun p => (f p.1, g p.2)).lookup (f key) = (members.lookup key).map g := by
  induction members with
  | nil => rfl
  | cons p rest ih =>
    obtain ⟨k, w⟩ := p
    rw [List.map_cons, lookup_cons_ite, lookup_cons_ite, ih]
    by_cases hk : key = k
    · rw [if_pos hk, if_pos (congrArg f hk)]
      rfl
    · rw [if_neg hk, if_neg fun heq => hk (hf heq)]

/-- What is found under a key of a list whose things are made from another's, some of them left out. -/
theorem lookup_filterMap {β : Type} (f : κ × α → Option β) (hd : (members.map Prod.fst).Nodup) {p : κ × α}
    (hp : p ∈ members) : (members.filterMap fun q => (f q).map fun w => (q.1, w)).lookup p.1 = f p := by
  induction members with
  | nil => exact absurd hp (by simp)
  | cons q rest ih =>
    simp only [List.map_cons, List.nodup_cons] at hd
    have hfresh : (rest.filterMap fun q => (f q).map fun w => (q.1, w)).lookup q.1 = none := by
      rw [lookup_eq_none_iff_notMem]
      intro hmem
      obtain ⟨r, hr, hkey⟩ := List.mem_map.1 hmem
      obtain ⟨s, hs, hw⟩ := List.mem_filterMap.1 hr
      obtain ⟨w, -, rfl⟩ := Option.map_eq_some_iff.1 hw
      exact hd.1 (hkey ▸ List.mem_map_of_mem hs)
    rw [List.filterMap_cons]
    obtain rfl | hp := List.mem_cons.1 hp
    · cases hf : f p with
      | none => exact hfresh
      | some w => simp
    · have hne : p.1 ≠ q.1 := fun heq => hd.1 (heq ▸ List.mem_map_of_mem hp)
      cases hf : f q with
      | none => exact ih hd.2 hp
      | some w =>
        simp only [Option.map_some, lookup_cons_ite, if_neg hne]
        exact ih hd.2 hp

/-- Of two lists of one size, one with each of its keys in the other and no key twice, the other has no more keys. -/
theorem names_subset {β : Type} {as : List (κ × α)} {bs : List (κ × β)} (hd : (as.map Prod.fst).Nodup)
    (hlen : as.length = bs.length) (hsub : ∀ p ∈ as, (bs.lookup p.1).isSome = true) :
    bs.map Prod.fst ⊆ as.map Prod.fst := by
  have hle : as.map Prod.fst ⊆ bs.map Prod.fst := by
    intro name hname
    obtain ⟨p, hp, rfl⟩ := List.mem_map.1 hname
    exact lookup_isSome_iff.1 (hsub p hp)
  exact ((List.Nodup.subperm hd hle).perm_of_length_le (by simp [hlen])).symm.subset

/-- Two lists with the same keys in the same order hold in each place what a look-up in the other finds. -/
theorem forall₂_of_lookup {β : Type} {as : List (κ × α)} {bs : List (κ × β)} {r : α → β → Prop}
    (hd : (as.map Prod.fst).Nodup) (hkeys : as.map Prod.fst = bs.map Prod.fst)
    (h : ∀ p ∈ as, ∃ b, bs.lookup p.1 = some b ∧ r p.2 b) : List.Forall₂ (fun p q => p.1 = q.1 ∧ r p.2 q.2) as bs := by
  induction as generalizing bs with
  | nil =>
    obtain rfl := List.map_eq_nil_iff.1 hkeys.symm
    exact .nil
  | cons p as ih =>
    cases bs with
    | nil => exact absurd hkeys (by simp)
    | cons q bs =>
      obtain ⟨hkey, hkeys⟩ := List.cons.inj hkeys
      obtain ⟨hfresh, hd⟩ := List.nodup_cons.1 hd
      refine .cons ⟨hkey, ?_⟩ (ih hd hkeys fun p' hp' => ?_)
      · obtain ⟨b, hb, hr⟩ := h p List.mem_cons_self
        rw [lookup_cons_ite, if_pos hkey] at hb
        exact Option.some.inj hb ▸ hr
      · obtain ⟨b, hb, hr⟩ := h p' (List.mem_cons_of_mem _ hp')
        have hne : p'.1 ≠ q.1 := fun heq => hfresh (hkey.trans heq.symm ▸ List.mem_map_of_mem hp')
        rw [lookup_cons_ite, if_neg hne] at hb
        exact ⟨b, hb, hr⟩

end Lookup

section Heaviest

variable {α : Type}

/-- Of the elements of a list with a property, one weighs no less than the others. -/
theorem exists_heaviest (weight : α → Nat) (p : α → Prop) {l : List α} (h : ∃ a ∈ l, p a) :
    ∃ a, (a ∈ l ∧ p a) ∧ ∀ b, b ∈ l ∧ p b → weight b ≤ weight a := by
  induction l with
  | nil =>
    obtain ⟨a, ha, -⟩ := h
    exact absurd ha List.not_mem_nil
  | cons x rest ih =>
    by_cases hrest : ∃ a ∈ rest, p a
    · obtain ⟨a, ⟨ha, hpa⟩, hmax⟩ := ih hrest
      by_cases hx : p x ∧ weight a ≤ weight x
      · refine ⟨x, ⟨List.mem_cons_self, hx.1⟩, fun b hb => ?_⟩
        rcases List.mem_cons.1 hb.1 with rfl | hmem
        · exact Nat.le_refl _
        · exact Nat.le_trans (hmax b ⟨hmem, hb.2⟩) hx.2
      · refine ⟨a, ⟨List.mem_cons_of_mem _ ha, hpa⟩, fun b hb => ?_⟩
        rcases List.mem_cons.1 hb.1 with rfl | hmem
        · exact Nat.le_of_not_le fun hle => hx ⟨hb.2, hle⟩
        · exact hmax b ⟨hmem, hb.2⟩
    · obtain ⟨a, ha, hpa⟩ := h
      rcases List.mem_cons.1 ha with rfl | hmem
      · refine ⟨a, ⟨List.mem_cons_self, hpa⟩, fun b hb => ?_⟩
        rcases List.mem_cons.1 hb.1 with rfl | hmem
        · exact Nat.le_refl _
        · exact absurd ⟨b, hmem, hb.2⟩ hrest
      · exact absurd ⟨a, hmem, hpa⟩ hrest

end Heaviest

section First

variable {α : Type}

/-- Where no two elements satisfy `p`, the first that does is the only one. -/
theorem find?_eq_some_of_pairwise {p : α → Bool} {l : List α}
    (hp : l.Pairwise fun a b => ¬ (p a = true ∧ p b = true)) {a : α} (ha : a ∈ l) (h : p a = true) :
    l.find? p = some a := by
  induction l with
  | nil => exact absurd ha (by simp)
  | cons b rest ih =>
    obtain ⟨hb, hrest⟩ := List.pairwise_cons.1 hp
    obtain rfl | ha := List.mem_cons.1 ha
    · simp [h]
    · rw [List.find?_cons_of_neg (fun hpb => hb a ha ⟨hpb, h⟩)]
      exact ih hrest ha

theorem any_congr_mem {l : List α} {p q : α → Bool} (h : ∀ a ∈ l, p a = q a) : l.any p = l.any q := by
  induction l with
  | nil => rfl
  | cons a rest ih =>
    rw [List.any_cons, List.any_cons, h a List.mem_cons_self, ih fun b hb => h b (List.mem_cons_of_mem _ hb)]

theorem all_congr_mem {l : List α} {p q : α → Bool} (h : ∀ a ∈ l, p a = q a) : l.all p = l.all q := by
  rw [List.all_eq_not_any_not, List.all_eq_not_any_not, any_congr_mem fun a ha => congrArg not (h a ha)]

end First

section Chosen

variable {α β : Type}

/-- What a fold that starts with nothing ends with has what every step that chooses gives its choice. -/
theorem foldl_chosen {P : β → Prop} {step : Option β → α → Option β} {l : List α}
    (h : ∀ best, (∀ b ∈ best, P b) → ∀ a ∈ l, ∀ b ∈ step best a, P b) : ∀ b ∈ l.foldl step none, P b :=
  List.foldlRecOn (motive := fun best => ∀ b ∈ best, P b) l step (fun _ hnone => nomatch hnone) h

end Chosen

theorem exists_cons_cons {l : List α} (h : 2 ≤ l.length) : ∃ first second rest, l = first :: second :: rest := by
  rcases l with _ | ⟨first, _ | ⟨second, rest⟩⟩
  · exact absurd h (by simp)
  · exact absurd h (by simp)
  · exact ⟨first, second, rest, rfl⟩

theorem mapM_isSome_iff {β : Type} {f : α → Option β} {l : List α} :
    (l.mapM f).isSome = true ↔ ∀ a ∈ l, (f a).isSome = true := by
  induction l with
  | nil => simp
  | cons a l ih =>
    rw [List.mapM_cons, List.forall_mem_cons, ← ih]
    cases f a with
    | none => simp
    | some b => cases l.mapM f <;> simp

section StepAt

variable {α β γ δ : Type}

/-- A step of the first element that satisfies `p`. -/
def stepAt (p : β → Bool) (f : β → Option (β × α)) : List β → Option (List β × α)
  | [] => none
  | b :: rest =>
    if p b then (f b).map fun (b', a) => (b' :: rest, a) else (stepAt p f rest).map fun (rest, a) => (b :: rest, a)

/-- What a step at an element does: it steps alone, those around it stay. -/
theorem stepAt_eq_some {p : β → Bool} {f : β → Option (β × α)} {l l' : List β} {a : α} (h : stepAt p f l = some (l', a)) :
    ∃ before b b' after, l = before ++ b :: after ∧ l.find? p = some b ∧ p b = true ∧ f b = some (b', a) ∧
      l' = before ++ b' :: after := by
  induction l generalizing l' with
  | nil => exact nomatch h
  | cons b rest ih =>
    rw [stepAt] at h
    split at h
    · rename_i hb
      obtain ⟨⟨b', a'⟩, hf, heq⟩ := Option.map_eq_some_iff.1 h
      obtain ⟨rfl, rfl⟩ := Prod.mk.inj heq
      exact ⟨[], b, b', rest, rfl, List.find?_cons_of_pos hb, hb, hf, rfl⟩
    · rename_i hb
      obtain ⟨⟨rest', a'⟩, hstep, heq⟩ := Option.map_eq_some_iff.1 h
      obtain ⟨rfl, rfl⟩ := Prod.mk.inj heq
      obtain ⟨before, c, c', after, rfl, hfind, hc, hf, rfl⟩ := ih hstep
      exact ⟨b :: before, c, c', after, rfl, (List.find?_cons_of_neg hb).trans hfind, hc, hf, rfl⟩

/-- A step that any entry can take is taken where some entry is meant. -/
theorem stepAt_isSome {p : β → Bool} {f : β → Option (β × α)} (hf : ∀ b, (f b).isSome = true) {l : List β} {b : β}
    (hmem : b ∈ l) (hb : p b = true) : (stepAt p f l).isSome = true := by
  induction l with
  | nil => exact absurd hmem List.not_mem_nil
  | cons c rest ih =>
    rw [stepAt]
    split
    · rw [Option.isSome_map]
      exact hf c
    · rename_i hc
      obtain rfl | hmem := List.mem_cons.1 hmem
      · exact absurd hb hc
      · rw [Option.isSome_map]
        exact ih hmem

/-- A step of the image of a list is the image of the step. -/
theorem stepAt_map (p : β → Bool) (p' : γ → Bool) {f : β → Option (β × α)} {f' : γ → Option (γ × δ)} {g : β → γ}
    {k : α → δ} (hp : ∀ b, p' (g b) = p b) (hf : ∀ b, f' (g b) = (f b).map (Prod.map g k)) (l : List β) :
    stepAt p' f' (l.map g) = (stepAt p f l).map (Prod.map (List.map g) k) := by
  induction l with
  | nil => rfl
  | cons b rest ih =>
    simp only [List.map_cons, stepAt, hp, hf, ih]
    split
    · cases f b <;> rfl
    · cases stepAt p f rest <;> rfl

end StepAt

end PactJanus.Lib.Lists
