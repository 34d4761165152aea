import Mathlib.Data.List.Perm.Basic
import Mathlib.Order.Defs.Unbundled

namespace PactJanus.Lib.Foremost

/-! The first of a list by a strict order, found in one pass. -/

section

variable {α : Type} (better : α → α → Prop) [DecidableRel better]

/-- The better of the one found so far and the next. -/
def keep (best : Option α) (a : α) : Option α :=
  match best with
  | none => some a
  | some b => if better a b then some a else some b

def foremost (l : List α) : Option α := l.foldl (keep better) none

end

variable {α : Type} {better : α → α → Prop} [DecidableRel better] [IsStrictOrder α better]

variable (better) in
private theorem foldl_keep (l : List α) (first : α) :
    ∃ b, l.foldl (keep better) (some first) = some b ∧ (b = first ∨ b ∈ l) ∧ (b = first ∨ better b first) ∧
      ∀ a ∈ l, ¬ better a b := by
  induction l generalizing first with
  | nil => exact ⟨first, rfl, Or.inl rfl, Or.inl rfl, List.forall_mem_nil _⟩
  | cons a rest ih =>
    by_cases hbetter : better a first
    · obtain ⟨b, hb, hmem, hkept, hrest⟩ := ih a
      have hfirst : better b first := by
        rcases hkept with rfl | hkept
        · exact hbetter
        · exact trans_of better hkept hbetter
      refine ⟨b, ?_, Or.inr ?_, Or.inr hfirst, List.forall_mem_cons.2 ⟨?_, hrest⟩⟩
      · rw [List.foldl_cons, keep, if_pos hbetter, hb]
      · exact List.mem_cons.2 hmem
      · rcases hkept with rfl | hkept
        · exact irrefl_of better b
        · exact fun h => irrefl_of better a (trans_of better h hkept)
    · obtain ⟨b, hb, hmem, hkept, hrest⟩ := ih first
      refine ⟨b, ?_, hmem.imp_right (List.mem_cons_of_mem _), hkept, List.forall_mem_cons.2 ⟨?_, hrest⟩⟩
      · rw [List.foldl_cons, keep, if_neg hbetter, hb]
      · rcases hkept with rfl | hkept
        · exact hbetter
        · exact fun h => hbetter (trans_of better h hkept)

variable (better) in
/-- The foremost is there when anything is, and nothing is better. -/
theorem exists_foremost {l : List α} (h : l ≠ []) :
    ∃ b ∈ l, foremost better l = some b ∧ ∀ a ∈ l, ¬ better a b := by
  obtain ⟨first, rest, rfl⟩ := List.exists_cons_of_ne_nil h
  obtain ⟨b, hb, hmem, hkept, hrest⟩ := foldl_keep better rest first
  refine ⟨b, List.mem_cons.2 hmem, hb, List.forall_mem_cons.2 ⟨?_, hrest⟩⟩
  rcases hkept with rfl | hkept
  · exact irrefl_of better b
  · exact fun h => irrefl_of better b (trans_of better hkept h)

theorem foremost_spec {l : List α} {b : α} (h : foremost better l = some b) : b ∈ l ∧ ∀ a ∈ l, ¬ better a b := by
  have hne : l ≠ [] := by
    rintro rfl
    exact absurd h (by simp [foremost])
  obtain ⟨c, hc, hfound, hall⟩ := exists_foremost better hne
  obtain rfl := Option.some.inj (hfound.symm.trans h)
  exact ⟨hc, hall⟩

theorem foremost_isSome_iff {l : List α} : (foremost better l).isSome = true ↔ l ≠ [] := by
  constructor
  · rintro h rfl
    exact absurd h (by simp [foremost])
  · intro h
    obtain ⟨b, -, hb, -⟩ := exists_foremost better h
    exact Option.isSome_iff_exists.2 ⟨b, hb⟩

/-- Where of any two one is better, the foremost does not depend on the order things come in. -/
theorem foremost_perm {l l' : List α} (hperm : l.Perm l')
    (htotal : ∀ a ∈ l, ∀ b ∈ l, a = b ∨ better a b ∨ better b a) : foremost better l = foremost better l' := by
  by_cases hnil : l = []
  · subst hnil
    rw [hperm.nil_eq]
  · obtain ⟨b, hb, hfound, hall⟩ := exists_foremost better hnil
    obtain ⟨c, hc, hfound', hall'⟩ := exists_foremost better fun h => hnil (List.perm_nil.1 (h ▸ hperm))
    rw [hfound, hfound']
    have hc' : c ∈ l := hperm.mem_iff.2 hc
    rcases htotal b hb c hc' with rfl | hbetter | hbetter
    · rfl
    · exact absurd hbetter (hall' b (hperm.mem_iff.1 hb))
    · exact absurd hbetter (hall c hc')

end PactJanus.Lib.Foremost
