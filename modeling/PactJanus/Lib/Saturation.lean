import Mathlib.Algebra.BigOperators.Group.List.Basic
import Mathlib.Algebra.Ring.Nat

namespace PactJanus.Lib.Saturation

/-! Counts in 64 bits that stop at the largest number there is, and say whether they did. -/

def limit : UInt64 := UInt64.ofNat (2 ^ 64 - 1)

/-- A number, and whether it is the exact count. -/
structure Count where
  value : UInt64
  exact : Bool
deriving DecidableEq

namespace Count

def zero : Count := ⟨0, true⟩

def one : Count := ⟨1, true⟩

def add (a b : Count) : Count :=
  if a.value.toNat + b.value.toNat < 2 ^ 64 then ⟨a.value + b.value, a.exact && b.exact⟩ else ⟨limit, false⟩

def mul (a b : Count) : Count :=
  if a.value.toNat * b.value.toNat < 2 ^ 64 then ⟨a.value * b.value, a.exact && b.exact⟩ else ⟨limit, false⟩

end Count

/-- A count of `n` things: `n` where it fits, else the largest number, marked as not exact. -/
structure Counts (c : Count) (n : Nat) : Prop where
  value : c.value.toNat = min n (2 ^ 64 - 1)
  exact : c.exact = true ↔ n ≤ 2 ^ 64 - 1

theorem counts_zero : Counts Count.zero 0 := ⟨rfl, by simp [Count.zero]⟩

theorem counts_one : Counts Count.one 1 := ⟨rfl, by simp [Count.one]⟩

theorem toNat_limit : limit.toNat = 2 ^ 64 - 1 := by decide

variable {a b : Count} {n m : Nat}

theorem Counts.add (ha : Counts a n) (hb : Counts b m) : Counts (a.add b) (n + m) := by
  obtain ⟨hav, hae⟩ := ha
  obtain ⟨hbv, hbe⟩ := hb
  unfold Count.add
  split
  · rename_i hlt
    refine ⟨?_, ?_⟩
    · rw [UInt64.toNat_add, Nat.mod_eq_of_lt hlt]
      omega
    · simp only [Bool.and_eq_true, hae, hbe]
      omega
  · rename_i hge
    refine ⟨?_, ?_⟩
    · rw [toNat_limit]
      omega
    · simp only [Bool.false_eq_true, false_iff]
      omega

/-- A product of two counts of something is a count of the product. -/
theorem Counts.mul (ha : Counts a n) (hb : Counts b m) (hn : 0 < n) (hm : 0 < m) : Counts (a.mul b) (n * m) := by
  obtain ⟨hav, hae⟩ := ha
  obtain ⟨hbv, hbe⟩ := hb
  have hnm : n ≤ n * m := Nat.le_mul_of_pos_right n hm
  have hmn : m ≤ n * m := Nat.le_mul_of_pos_left m hn
  -- a factor past the limit stands at the limit, and the other is at least one
  have hexact : n ≤ 2 ^ 64 - 1 → m ≤ 2 ^ 64 - 1 → a.value.toNat * b.value.toNat = n * m := by
    intro hn hm
    rw [hav, hbv, Nat.min_eq_left hn, Nat.min_eq_left hm]
  have hlarge : ¬(n ≤ 2 ^ 64 - 1 ∧ m ≤ 2 ^ 64 - 1) → 2 ^ 64 - 1 ≤ a.value.toNat * b.value.toNat := by
    intro h
    rw [hav, hbv]
    rcases Nat.lt_or_ge (2 ^ 64 - 1) n with h | h
    · calc 2 ^ 64 - 1 = min n (2 ^ 64 - 1) * 1 := by omega
        _ ≤ min n (2 ^ 64 - 1) * min m (2 ^ 64 - 1) := Nat.mul_le_mul_left _ (by omega)
    · calc 2 ^ 64 - 1 = 1 * min m (2 ^ 64 - 1) := by omega
        _ ≤ min n (2 ^ 64 - 1) * min m (2 ^ 64 - 1) := Nat.mul_le_mul_right _ (by omega)
  unfold Count.mul
  by_cases hfit : n ≤ 2 ^ 64 - 1 ∧ m ≤ 2 ^ 64 - 1
  · have hprod := hexact hfit.1 hfit.2
    split
    · rename_i hlt
      refine ⟨?_, ?_⟩
      · rw [UInt64.toNat_mul, Nat.mod_eq_of_lt hlt]
        omega
      · simp only [Bool.and_eq_true, hae, hbe]
        omega
    · rename_i hge
      refine ⟨?_, ?_⟩
      · rw [toNat_limit]
        omega
      · simp only [Bool.false_eq_true, false_iff]
        omega
  · have hbig := hlarge hfit
    split
    · rename_i hlt
      refine ⟨?_, ?_⟩
      · rw [UInt64.toNat_mul, Nat.mod_eq_of_lt hlt]
        omega
      · simp only [Bool.and_eq_true, hae, hbe]
        omega
    · refine ⟨?_, ?_⟩
      · rw [toNat_limit]
        omega
      · simp only [Bool.false_eq_true, false_iff]
        omega

section Folds

variable {α : Type} {f : α → Count} {g : α → Nat}

/-- A running sum of counts counts the sum. -/
theorem counts_sum {l : List α} (h : ∀ x ∈ l, Counts (f x) (g x)) (ha : Counts a n) :
    Counts (l.foldl (fun total x => total.add (f x)) a) (n + (l.map g).sum) := by
  induction l generalizing a n with
  | nil => simpa using ha
  | cons x rest ih =>
    obtain ⟨hx, hrest⟩ := List.forall_mem_cons.1 h
    rw [List.map_cons, List.sum_cons, ← Nat.add_assoc]
    exact ih hrest (ha.add hx)

/-- A running product of counts, each of something, counts the product. -/
theorem counts_prod {l : List α} (h : ∀ x ∈ l, Counts (f x) (g x)) (hpos : ∀ x ∈ l, 0 < g x) (ha : Counts a n)
    (hn : 0 < n) : Counts (l.foldl (fun product x => product.mul (f x)) a) (n * (l.map g).prod) := by
  induction l generalizing a n with
  | nil => simpa using ha
  | cons x rest ih =>
    obtain ⟨hx, hrest⟩ := List.forall_mem_cons.1 h
    obtain ⟨hpx, hprest⟩ := List.forall_mem_cons.1 hpos
    rw [List.map_cons, List.prod_cons, ← Nat.mul_assoc]
    exact ih hrest hprest (ha.mul hx hn hpx) (Nat.mul_pos hn hpx)

end Folds

end PactJanus.Lib.Saturation
