import Mathlib.Data.List.Forall2

namespace PactJanus.Lib.Fueled

/-! Recursion by fuel over a table of answers: what some amount of fuel settles. -/

variable {κ κ' α : Type}

/-- Nothing, or the same answer. -/
def Below (a b : Option α) : Prop := ∀ r, a = some r → b = some r

theorem Below.refl (a : Option α) : Below a a := fun _ h => h

theorem Below.trans {a b c : Option α} (hab : Below a b) (hbc : Below b c) : Below a c :=
  fun r h => hbc r (hab r h)

theorem below_none (b : Option α) : Below none b := fun _ h => nomatch h

theorem Below.map {β : Type} {a b : Option α} (h : Below a b) (f : α → β) : Below (a.map f) (b.map f) := by
  intro r hr
  obtain ⟨s, hs, rfl⟩ := Option.map_eq_some_iff.1 hr
  rw [h s hs, Option.map_some]

theorem Below.bind {β : Type} {a b : Option α} {f g : α → Option β} (h : Below a b)
    (hfg : ∀ r, a = some r → Below (f r) (g r)) : Below (a.bind f) (b.bind g) := by
  intro r hr
  obtain ⟨s, hs, hr⟩ := Option.bind_eq_some_iff.1 hr
  rw [h s hs, Option.bind_some]
  exact hfg s hs r hr

/-- What `fuel` rounds of a step answer, each over the answers of the round before. -/
def run (step : (κ → Option α) → κ → Option α) : Nat → κ → Option α
  | 0 => fun _ => none
  | fuel + 1 => step (run step fuel)

def Settles (step : (κ → Option α) → κ → Option α) (x : κ) (r : α) : Prop := ∃ fuel, run step fuel x = some r

/-- A step asks its table for the listed parts only, and keeps its answer when the table knows more. -/
structure Local (step : (κ → Option α) → κ → Option α) (parts : κ → List κ) : Prop where
  below : ∀ {t t' : κ → Option α} {x : κ}, (∀ y ∈ parts x, Below (t y) (t' y)) → Below (step t x) (step t' x)

variable {step : (κ → Option α) → κ → Option α} {parts : κ → List κ} {step' : (κ' → Option α) → κ' → Option α}
  {parts' : κ' → List κ'}

theorem run_below (hlocal : Local step parts) {n m : Nat} (hnm : n ≤ m) (x : κ) :
    Below (run step n x) (run step m x) := by
  induction n generalizing m x with
  | zero => exact below_none _
  | succ n ih =>
    obtain ⟨m, rfl⟩ : ∃ k, m = k + 1 := ⟨m - 1, by omega⟩
    exact hlocal.below fun y _ => ih (by omega) y

theorem settles_unique (hlocal : Local step parts) {x : κ} {r s : α} (hr : Settles step x r) (hs : Settles step x s) :
    r = s := by
  obtain ⟨n, hn⟩ := hr
  obtain ⟨m, hm⟩ := hs
  have hn' := run_below hlocal (Nat.le_max_left n m) x r hn
  have hm' := run_below hlocal (Nat.le_max_right n m) x s hm
  exact Option.some.inj (hn'.symm.trans hm')

/-- Finitely many settled answers are settled by one amount of fuel. -/
theorem exists_fuel (hlocal : Local step parts) {t : κ → Option α} (l : List κ)
    (h : ∀ y ∈ l, ∀ r, t y = some r → Settles step y r) : ∃ n, ∀ y ∈ l, Below (t y) (run step n y) := by
  induction l with
  | nil => exact ⟨0, fun y hy => nomatch hy⟩
  | cons z rest ih =>
    obtain ⟨n, hn⟩ := ih fun y hy => h y (List.mem_cons_of_mem z hy)
    obtain ⟨m, hm⟩ : ∃ m, Below (t z) (run step m z) := by
      cases hz : t z with
      | none => exact ⟨0, below_none _⟩
      | some r =>
        obtain ⟨m, hm⟩ := h z List.mem_cons_self r hz
        exact ⟨m, fun s hs => (Option.some.inj hs) ▸ hm⟩
    refine ⟨max m n, fun y hy => ?_⟩
    rcases List.mem_cons.1 hy with rfl | hy
    · exact hm.trans (run_below hlocal (Nat.le_max_left m n) y)
    · exact (hn y hy).trans (run_below hlocal (Nat.le_max_right m n) y)

/-- A step over settled answers is settled. -/
theorem settles_of_step (hlocal : Local step parts) {t : κ → Option α} (ht : ∀ y r, t y = some r → Settles step y r)
    {x : κ} {r : α} (h : step t x = some r) : Settles step x r := by
  obtain ⟨n, hn⟩ := exists_fuel hlocal (parts x) fun y _ => ht y
  exact ⟨n + 1, hlocal.below hn r h⟩

open Classical in
/-- All that any amount of fuel settles. -/
noncomputable def answers (step : (κ → Option α) → κ → Option α) (x : κ) : Option α :=
  if h : ∃ r, Settles step x r then some h.choose else none

theorem answers_eq_some_iff (hlocal : Local step parts) {x : κ} {r : α} :
    answers step x = some r ↔ Settles step x r := by
  unfold answers
  split
  · rename_i h
    rw [Option.some.injEq]
    constructor
    · rintro rfl
      exact h.choose_spec
    · exact settles_unique hlocal h.choose_spec
  · rename_i h
    exact ⟨fun hr => (nomatch hr), fun hr => absurd ⟨r, hr⟩ h⟩

/-- Related keys settle alike, where a step on one side is met by a step over the answers of the other. -/
theorem settles_of_simulation (hlocal : Local step' parts') {R : κ → κ' → Prop}
    (hstep : ∀ (t : κ → Option α) x y, R x y → (∀ x' r, t x' = some r → Settles step x' r) →
      (∀ x' y', R x' y' → Below (t x') (answers step' y')) → Below (step t x) (step' (answers step') y))
    {x : κ} {y : κ'} {r : α} (hxy : R x y) (hx : Settles step x r) : Settles step' y r := by
  obtain ⟨n, hn⟩ := hx
  induction n generalizing x y r with
  | zero => cases hn
  | succ n ih =>
    have hbelow : ∀ x' y', R x' y' → Below (run step n x') (answers step' y') :=
      fun x' y' hR s hs => (answers_eq_some_iff hlocal).2 (ih hR hs)
    refine settles_of_step hlocal (fun y' s => (answers_eq_some_iff hlocal).1)
      (hstep (run step n) x y hxy (fun x' s hs => ⟨n, hs⟩) hbelow r hn)

/-! A verdict counted over answers, undecided while one of them is. -/

def tally (f : List Bool → Bool) (verdicts : List (Option Bool)) : Option Bool := (verdicts.mapM id).map f

theorem mapM_id_eq_some {verdicts : List (Option α)} {rs : List α} : verdicts.mapM id = some rs ↔ verdicts = rs.map some := by
  induction verdicts generalizing rs with
  | nil => cases rs <;> simp
  | cons v rest ih =>
    cases v with
    | none => cases rs <;> simp
    | some r => cases rs <;> simp [Option.bind_eq_some_iff, ih, and_comm]

variable {f : List Bool → Bool} {as bs : List (Option Bool)}

theorem tally_eq_some {r : Bool} : tally f as = some r ↔ ∃ rs : List Bool, as = rs.map some ∧ f rs = r := by
  simp only [tally, Option.map_eq_some_iff, mapM_id_eq_some]

private theorem map_some_of_below {rs : List Bool} (h : List.Forall₂ Below (rs.map some) bs) : bs = rs.map some := by
  induction rs generalizing bs with
  | nil => cases h; rfl
  | cons r rs ih =>
    obtain _ | ⟨hr, hrest⟩ := h
    rw [ih hrest, List.map_cons, hr r rfl]

theorem tally_below (h : List.Forall₂ Below as bs) : Below (tally f as) (tally f bs) := by
  intro r hr
  obtain ⟨rs, rfl, hf⟩ := tally_eq_some.1 hr
  exact tally_eq_some.2 ⟨rs, map_some_of_below h, hf⟩

variable {c : Bool} {extra : List (Option Bool)}

/-- Verdicts that do not count may be appended. -/
theorem tally_appended (hf : ∀ rs k, f (rs ++ List.replicate k c) = f rs) (h : List.Forall₂ Below as bs)
    (hextra : ∀ a ∈ extra, a = some c) : Below (tally f as) (tally f (bs ++ extra)) := by
  intro r hr
  obtain ⟨rs, rfl, hrs⟩ := tally_eq_some.1 hr
  refine tally_eq_some.2 ⟨rs ++ List.replicate extra.length c, ?_, (hf rs _).trans hrs⟩
  rw [map_some_of_below h, List.map_append, List.map_replicate, List.eq_replicate_of_mem hextra, List.length_replicate]

/-- Verdicts that do not count may be dropped. -/
theorem tally_dropped (hf : ∀ rs k, f (rs ++ List.replicate k c) = f rs) (h : List.Forall₂ Below as bs)
    (hextra : ∀ a ∈ extra, ∀ r, a = some r → r = c) : Below (tally f (as ++ extra)) (tally f bs) := by
  intro r hr
  obtain ⟨rs, hrs, hfr⟩ := tally_eq_some.1 hr
  obtain ⟨kept, dropped, rfl, rfl, rfl⟩ := List.map_eq_append_iff.1 hrs.symm
  have hdropped : dropped = List.replicate dropped.length c :=
    List.eq_replicate_of_mem fun s hs => hextra (some s) (List.mem_map_of_mem hs) s rfl
  rw [hdropped, hf] at hfr
  exact tally_eq_some.2 ⟨kept, map_some_of_below h, hfr⟩

end PactJanus.Lib.Fueled
