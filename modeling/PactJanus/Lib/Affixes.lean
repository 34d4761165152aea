import Mathlib.Data.List.Basic
import Mathlib.Data.List.Infix

namespace PactJanus.Lib.Affixes

variable {α : Type} [BEq α] [LawfulBEq α]

/-! What a list starts with or ends in, taken off it. -/

/-- What follows a start, if the list has it. -/
def stripPrefix (start l : List α) : Option (List α) :=
  if start.isPrefixOf l then some (l.drop start.length) else none

/-- A list without a start, as often as it stands there: at most the list's length often. -/
def trimStartUpTo (start : List α) : Nat → List α → List α
  | 0, l => l
  | n + 1, l =>
    match stripPrefix start l with
    | some rest => trimStartUpTo start n rest
    | none => l

def trimStart (start l : List α) : List α := trimStartUpTo start l.length l

def trimEnd (ending l : List α) : List α := (trimStart ending.reverse l.reverse).reverse

theorem stripPrefix_append (start l : List α) : stripPrefix start (start ++ l) = some l := by
  rw [stripPrefix, if_pos (List.isPrefixOf_iff_prefix.2 (List.prefix_append start l)), List.drop_left]

theorem stripPrefix_eq_some {start l rest : List α} : stripPrefix start l = some rest ↔ l = start ++ rest := by
  constructor
  · intro h
    unfold stripPrefix at h
    split at h
    · rename_i hstart
      obtain ⟨more, rfl⟩ := List.isPrefixOf_iff_prefix.1 hstart
      rw [List.drop_left, Option.some.injEq] at h
      rw [h]
    · cases h
  · rintro rfl
    exact stripPrefix_append start rest

theorem stripPrefix_eq_none {start l : List α} : stripPrefix start l = none ↔ ¬start <+: l := by
  rw [stripPrefix, ← List.isPrefixOf_iff_prefix]
  split
  · rename_i h
    simp [h]
  · rename_i h
    simp [h]

private theorem trimStartUpTo_add {start : List α} (hne : start ≠ []) {n : Nat} {l : List α} (hn : l.length ≤ n) :
    trimStartUpTo start (n + 1) l = trimStartUpTo start n l := by
  induction n generalizing l with
  | zero =>
    obtain rfl := List.length_eq_zero_iff.1 (Nat.le_zero.1 hn)
    have hnone : stripPrefix start [] = none := stripPrefix_eq_none.2 fun h => hne (List.prefix_nil.1 h)
    simp [trimStartUpTo, hnone]
  | succ n ih =>
    rw [trimStartUpTo, trimStartUpTo]
    split
    · rename_i rest hrest
      obtain rfl := stripPrefix_eq_some.1 hrest
      refine ih ?_
      have hpos := List.length_pos_iff.2 hne
      rw [List.length_append] at hn
      omega
    · rfl

private theorem trimStartUpTo_length {start : List α} (hne : start ≠ []) {n : Nat} {l : List α} (hn : l.length ≤ n) :
    trimStartUpTo start n l = trimStart start l := by
  induction n with
  | zero => rw [trimStart, Nat.le_zero.1 hn]
  | succ n ih =>
    rcases Nat.lt_or_ge n l.length with hlt | hge
    · rw [trimStart, Nat.le_antisymm hn hlt]
    · rw [trimStartUpTo_add hne hge, ih hge]

theorem trimStart_append {start : List α} (hne : start ≠ []) (l : List α) :
    trimStart start (start ++ l) = trimStart start l := by
  have hlength : (start ++ l).length ≤ (start ++ l).length + 1 := Nat.le_succ _
  rw [← trimStartUpTo_length hne hlength, trimStartUpTo, stripPrefix_append]
  exact trimStartUpTo_length hne (by simp)

theorem trimStart_absent {start l : List α} (h : ¬start <+: l) : trimStart start l = l := by
  cases l with
  | nil => rfl
  | cons x rest => rw [trimStart, List.length_cons, trimStartUpTo, stripPrefix_eq_none.2 h]

/-- What is taken off a list's start is made of the start's elements. -/
theorem exists_trimStart (start l : List α) : ∃ off, l = off ++ trimStart start l ∧ ∀ x ∈ off, x ∈ start := by
  have hup : ∀ (n : Nat) (l : List α), ∃ off, l = off ++ trimStartUpTo start n l ∧ ∀ x ∈ off, x ∈ start := by
    intro n
    induction n with
    | zero => exact fun l => ⟨[], rfl, List.forall_mem_nil _⟩
    | succ n ih =>
      intro l
      rw [trimStartUpTo]
      split
      · rename_i rest hrest
        obtain rfl := stripPrefix_eq_some.1 hrest
        obtain ⟨off, hoff, hmem⟩ := ih rest
        refine ⟨start ++ off, ?_, fun x hx => (List.mem_append.1 hx).elim id (hmem x)⟩
        rw [List.append_assoc, ← hoff]
      · exact ⟨[], rfl, List.forall_mem_nil _⟩
  exact hup l.length l

theorem trimStart_eq_self_iff {start : List α} (hne : start ≠ []) {l : List α} :
    trimStart start l = l ↔ ¬start <+: l := by
  refine ⟨?_, trimStart_absent⟩
  rintro h ⟨rest, rfl⟩
  rw [trimStart_append hne] at h
  obtain ⟨off, hoff, -⟩ := exists_trimStart start rest
  have hlength := congrArg List.length hoff
  have hpos := List.length_pos_iff.2 hne
  rw [h, List.length_append, List.length_append] at hlength
  omega

theorem trimEnd_append {ending : List α} (hne : ending ≠ []) (l : List α) :
    trimEnd ending (l ++ ending) = trimEnd ending l := by
  rw [trimEnd, List.reverse_append, trimStart_append (by simpa using hne), trimEnd]

theorem exists_trimEnd (ending l : List α) : ∃ off, l = trimEnd ending l ++ off ∧ ∀ x ∈ off, x ∈ ending := by
  obtain ⟨off, hoff, hmem⟩ := exists_trimStart ending.reverse l.reverse
  refine ⟨off.reverse, ?_, fun x hx => List.mem_reverse.1 (hmem x (List.mem_reverse.1 hx))⟩
  rw [trimEnd, ← List.reverse_append, ← hoff, List.reverse_reverse]

theorem trimEnd_eq_self_iff {ending : List α} (hne : ending ≠ []) {l : List α} :
    trimEnd ending l = l ↔ ¬ending <:+ l := by
  rw [trimEnd, ← List.reverse_inj, List.reverse_reverse, trimStart_eq_self_iff (by simpa using hne),
    List.reverse_prefix]

end PactJanus.Lib.Affixes
