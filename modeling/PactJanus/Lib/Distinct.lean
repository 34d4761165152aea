import Mathlib.Data.List.Forall2
import Mathlib.Data.List.Nodup
import Mathlib.Data.List.Pairwise
import Mathlib.Logic.Equiv.Basic

namespace PactJanus.Lib.Distinct

/-! Assignments of distinct places to a list of entries, each entry accepting its own place. -/

variable {α ι : Type} {accepts : α → ι → Prop} {free : ι → Prop}

/-- One free place for each entry, no two the same, each accepted by its entry. -/
structure Assigns (accepts : α → ι → Prop) (free : ι → Prop) (entries : List α) (chosen : List ι) : Prop where
  nodup : chosen.Nodup
  isFree : ∀ i ∈ chosen, free i
  accepted : List.Forall₂ accepts entries chosen

/-- What an earlier entry accepts of a later one's places, the later one accepts with all the earlier one does. -/
def Nested (accepts : α → ι → Prop) (entries : List α) : Prop :=
  entries.Pairwise fun a b => ∀ i j, accepts a i → accepts b i → accepts a j → accepts b j

theorem Assigns.nil : Assigns accepts free [] [] := ⟨List.nodup_nil, List.forall_mem_nil _, List.Forall₂.nil⟩

theorem Assigns.cons {a : α} {i : ι} {entries : List α} {chosen : List ι} (hi : free i) (ha : accepts a i)
    (h : Assigns accepts (fun j => free j ∧ j ≠ i) entries chosen) : Assigns accepts free (a :: entries) (i :: chosen) where
  nodup := List.nodup_cons.2 ⟨fun hmem => (h.isFree i hmem).2 rfl, h.nodup⟩
  isFree := by
    intro j hj
    rcases List.mem_cons.1 hj with rfl | hj
    · exact hi
    · exact (h.isFree j hj).1
  accepted := List.Forall₂.cons ha h.accepted

/-- Whatever free place the first of nested entries is given, the others can still be assigned. -/
theorem Assigns.exchange [DecidableEq ι] {a : α} {i : ι} {entries : List α} {chosen : List ι}
    (hnested : Nested accepts (a :: entries)) (h : Assigns accepts free (a :: entries) chosen) (ha : accepts a i) :
    ∃ others, Assigns accepts (fun j => free j ∧ j ≠ i) entries others := by
  obtain ⟨x, chosen, hx, hrest, rfl⟩ := List.forall₂_cons_left_iff.1 h.accepted
  obtain ⟨hxnot, hnodup⟩ := List.nodup_cons.1 h.nodup
  obtain ⟨hhead, -⟩ := List.pairwise_cons.1 hnested
  -- the entry that held `i`, if one did, is given the place the first entry leaves
  refine ⟨chosen.map (Equiv.swap x i), List.Nodup.map (Equiv.swap x i).injective hnodup, ?_, ?_⟩
  · intro k hk
    obtain ⟨j, hj, rfl⟩ := List.mem_map.1 hk
    have hjx : j ≠ x := fun heq => hxnot (heq ▸ hj)
    by_cases hji : j = i
    · subst hji
      rw [Equiv.swap_apply_right]
      exact ⟨h.isFree x List.mem_cons_self, Ne.symm hjx⟩
    · rw [Equiv.swap_apply_of_ne_of_ne hjx hji]
      exact ⟨h.isFree j (List.mem_cons_of_mem _ hj), hji⟩
  · rw [List.forall₂_map_right_iff]
    refine (List.forall₂_iff_get.2 ⟨hrest.length_eq, fun n hn hm => ?_⟩)
    have hb : accepts (entries.get ⟨n, hn⟩) (chosen.get ⟨n, hm⟩) := hrest.get hn hm
    have hjx : chosen.get ⟨n, hm⟩ ≠ x := fun heq => hxnot (heq ▸ List.get_mem _ _)
    by_cases hji : chosen.get ⟨n, hm⟩ = i
    · rw [hji, Equiv.swap_apply_right]
      rw [hji] at hb
      exact hhead _ (List.get_mem _ _) i x ha hb hx
    · rw [Equiv.swap_apply_of_ne_of_ne hjx hji]
      exact hb

end PactJanus.Lib.Distinct

namespace PactJanus.Lib.Disambiguation

/-! Things named in turn: each takes its own name, or another where an earlier one has been given its own. -/

variable {α κ : Type} (same : κ → κ → Bool) (own other : α → κ)

/-- The name a thing is given after those already given. -/
def claim (given : List κ) (a : α) : κ := if given.any fun k => same k (own a) then other a else own a

/-- The names of things given in turn, the last first. -/
def names : List α → List κ
  | [] => []
  | a :: before => claim same own other (names before) a :: names before

/-- Whether a thing's own name is one that has been given: an earlier thing has it for its own, or was renamed to it. -/
def taken : List α → α → Bool
  | [], _ => false
  | e :: before, a =>
    (same (own e) (own a) || (taken before e && same (other e) (own a))) || taken before a

/-- No thing that must be renamed is renamed to an earlier one's own name. -/
def Free : List α → Prop
  | [] => True
  | a :: before => (taken same own other before a = true → ∀ e ∈ before, same (own e) (other a) = false) ∧ Free before

instance decidableFree : ∀ l : List α, Decidable (Free same own other l)
  | [] => isTrue trivial
  | a :: before =>
    have := decidableFree before
    inferInstanceAs (Decidable ((taken same own other before a = true → ∀ e ∈ before, same (own e) (other a) = false) ∧
      Free same own other before))

/-- An equality of names. -/
structure Equality : Prop where
  symm : ∀ {a b}, same a b = true → same b a = true
  trans : ∀ {a b c}, same a b = true → same b c = true → same a c = true

variable {same own other} {before l : List α} {a : α}

theorem Equality.comm (h : Equality same) (a b : κ) : same a b = same b a := Bool.eq_iff_iff.2 ⟨h.symm, h.symm⟩

private theorem any_trans (h : Equality same) {given : List κ} {j k : κ} (hjk : same j k = true)
    (hany : (given.any fun g => same g j) = true) : (given.any fun g => same g k) = true := by
  obtain ⟨g, hg, hgj⟩ := List.any_eq_true.1 hany
  exact List.any_eq_true.2 ⟨g, hg, h.trans hgj hjk⟩

/-- A name has been given exactly where it is taken. -/
theorem any_names (h : Equality same) (before : List α) (a : α) :
    ((names same own other before).any fun k => same k (own a)) = taken same own other before a := by
  induction before generalizing a with
  | nil => rfl
  | cons e before ih =>
    rw [names, List.any_cons, ih, taken, claim, ih]
    cases htaken : taken same own other before e with
    | false => simp
    | true =>
      cases hown : same (own e) (own a) with
      | false => simp
      | true =>
        have hthen : taken same own other before a = true := by
          rw [← ih] at htaken ⊢
          exact any_trans h hown htaken
        simp [hthen]

/-- The name a thing would be renamed to has been given exactly where an earlier thing has it for its own. -/
theorem any_other (h : Equality same) (hother : ∀ e ∈ before, same (other e) (other a) = false) :
    ((names same own other before).any fun k => same k (other a)) = true ↔ ∃ e ∈ before, same (own e) (other a) = true := by
  induction before with
  | nil => exact ⟨nofun, nofun⟩
  | cons e before ih =>
    have ih := ih fun e he => hother e (List.mem_cons_of_mem _ he)
    rw [names, List.any_cons, Bool.or_eq_true, ih]
    constructor
    · rintro (hclaim | ⟨e', he', heq⟩)
      · refine ⟨e, List.mem_cons_self, ?_⟩
        unfold claim at hclaim
        split at hclaim
        · exact absurd (hclaim.symm.trans (hother e List.mem_cons_self)) (by decide)
        · exact hclaim
      · exact ⟨e', List.mem_cons_of_mem _ he', heq⟩
    · rintro ⟨e', he', heq⟩
      rcases List.mem_cons.1 he' with rfl | he'
      · unfold claim
        split
        · rename_i hgiven
          exact Or.inr (ih.1 (any_trans h heq hgiven))
        · exact Or.inl heq
      · exact Or.inr ⟨e', he', heq⟩

/-- Things whose other names are all different are given different names exactly where none is renamed to an earlier
one's own. -/
theorem names_distinct_iff (h : Equality same) (hother : l.Pairwise fun a b => same (other b) (other a) = false) :
    (names same own other l).Pairwise (fun j k => same j k = false) ↔ Free same own other l := by
  induction l with
  | nil => exact iff_of_true List.Pairwise.nil trivial
  | cons a before ih =>
    obtain ⟨hfirst, hrest⟩ := List.pairwise_cons.1 hother
    rw [names, List.pairwise_cons, ih hrest, Free]
    refine and_congr_left fun _ => ?_
    have hnone (k : κ) : (∀ g ∈ names same own other before, same k g = false) ↔
        ((names same own other before).any fun g => same g k) = false := by
      rw [List.any_eq_false]
      simp only [h.comm k, Bool.not_eq_true]
    rw [claim, any_names h]
    cases htaken : taken same own other before a with
    | false =>
      rw [if_neg (by simp), hnone, any_names h, htaken]
      simp
    | true =>
      rw [if_pos rfl, hnone, Bool.eq_false_iff, Ne, any_other h hfirst]
      simp

end PactJanus.Lib.Disambiguation
