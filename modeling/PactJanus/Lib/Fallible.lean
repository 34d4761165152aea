import Mathlib.Data.List.Forall2

namespace PactJanus.Lib.Fallible

/-! A computation that may fail, taken apart where it succeeded. -/

variable {ε α β : Type} {x : Except ε α} {b : β}

theorem bind_eq_ok {f : α → Except ε β} (h : x.bind f = .ok b) : ∃ a, x = .ok a ∧ f a = .ok b := by
  cases x with
  | error e => exact nomatch h
  | ok a => exact ⟨a, rfl, h⟩

theorem map_eq_ok {f : α → β} (h : x.map f = .ok b) : ∃ a, x = .ok a ∧ f a = b := by
  cases x with
  | error e => exact nomatch h
  | ok a => exact ⟨a, rfl, Except.ok.inj h⟩

theorem exists_map_eq_ok (f : α → β) : (∃ b, x.map f = .ok b) ↔ ∃ a, x = .ok a := by
  cases x with
  | error e => exact ⟨fun ⟨_, h⟩ => (nomatch h), fun ⟨_, h⟩ => (nomatch h)⟩
  | ok a => exact ⟨fun _ => ⟨a, rfl⟩, fun _ => ⟨f a, rfl⟩⟩

theorem forall₂_of_mapM_ok {f : α → Except ε β} {l : List α} {results : List β} (h : l.mapM f = .ok results) :
    List.Forall₂ (fun a b => f a = .ok b) l results := by
  induction l generalizing results with
  | nil =>
    obtain rfl := Except.ok.inj h
    exact .nil
  | cons a rest ih =>
    rw [List.mapM_cons] at h
    obtain ⟨b, hb, hrest⟩ := bind_eq_ok h
    obtain ⟨others, hothers, hpure⟩ := bind_eq_ok hrest
    obtain rfl := Except.ok.inj hpure
    exact .cons hb (ih hothers)

theorem mapM_eq_some {f : α → Option β} {l : List α} {results : List β}
    (h : List.Forall₂ (fun a b => f a = some b) l results) : l.mapM f = some results := by
  induction h with
  | nil => rfl
  | cons hb _ ih =>
    rw [List.mapM_cons, hb, ih]
    rfl

end PactJanus.Lib.Fallible

namespace PactJanus.Lib.Collect

/-! Reading every item of a list, with the problems of them all, and reading again what was made of them. -/

variable {α β γ : Type}

/-- What is read of the items from a position on, and every problem met on the way. -/
def collect (read : Nat → α → Option β × List γ) : Nat → List α → List β × List γ
  | _, [] => ([], [])
  | k, a :: rest =>
    let found := read k a
    let others := collect read (k + 1) rest
    (found.1.toList ++ others.1, found.2 ++ others.2)

/-- A reading that reads `b` from `a` without a problem where `R a b`, and gives nothing only with a problem. -/
structure Reads (read : Nat → α → Option β × List γ) (R : α → β → Prop) : Prop where
  reads : ∀ k a b, read k a = (some b, []) ↔ R a b
  names : ∀ k a, read k a ≠ (none, [])

theorem Reads.clean {read : Nat → α → Option β × List γ} {R : α → β → Prop} (h : Reads read R) {k : Nat} {a : α}
    (hclean : (read k a).2 = []) : ∃ b, read k a = (some b, []) ∧ R a b := by
  cases hfound : (read k a).1 with
  | none => exact absurd (Prod.ext hfound hclean) (h.names k a)
  | some b =>
    have heq : read k a = (some b, []) := Prod.ext hfound hclean
    exact ⟨b, heq, (h.reads k a b).1 heq⟩

/-- A list is read without a problem where each item is. -/
theorem Reads.collect_iff {read : Nat → α → Option β × List γ} {R : α → β → Prop} (h : Reads read R) {k : Nat}
    {items : List α} {found : List β} : collect read k items = (found, []) ↔ List.Forall₂ R items found := by
  induction items generalizing k found with
  | nil =>
    rw [collect, List.forall₂_nil_left_iff, Prod.mk.injEq]
    exact ⟨fun heq => heq.1.symm, fun heq => ⟨heq.symm, rfl⟩⟩
  | cons a rest ih =>
    constructor
    · intro heq
      obtain ⟨hfound, hproblems⟩ := Prod.mk.inj heq
      obtain ⟨hclean, hothers⟩ := List.append_eq_nil_iff.1 hproblems
      obtain ⟨b, hread, hb⟩ := h.clean hclean
      rw [hread] at hfound
      rw [← hfound]
      exact List.Forall₂.cons hb (ih.1 (Prod.ext rfl hothers))
    · intro hall
      obtain ⟨b, others, hb, hrest, rfl⟩ := List.forall₂_cons_left_iff.1 hall
      rw [collect, (h.reads k a b).2 hb, ih.2 hrest]
      rfl

/-- Where a whole list is read without a problem, something was read of each item. -/
theorem Reads.collect_clean {read : Nat → α → Option β × List γ} {R : α → β → Prop} (h : Reads read R) {k : Nat}
    {items : List α} (hclean : (collect read k items).2 = []) :
    List.Forall₂ R items (collect read k items).1 :=
  h.collect_iff.1 (Prod.ext rfl hclean)

/-- A list whose things are made again, each the way it was made: all are made again alike where each can be. -/
theorem forall₂_again_iff {f : α → β → α} {R S : α → β → Prop} {T : β → β → Prop} {C : α → Prop}
    {as : List α} {bs : List β} (h : List.Forall₂ R as bs)
    (hone : ∀ a b, R a b → ((∃ b', S (f a b) b' ∧ T b b') ↔ C a)) :
    (∃ again, List.Forall₂ S (List.zipWith f as bs) again ∧ List.Forall₂ T bs again) ↔ ∀ a ∈ as, C a := by
  induction h with
  | nil =>
    refine ⟨fun _ => List.forall_mem_nil _, fun _ => ⟨[], List.Forall₂.nil, List.Forall₂.nil⟩⟩
  | cons hab hrest ih =>
    rw [List.forall_mem_cons, ← hone _ _ hab, ← ih, List.zipWith_cons_cons]
    constructor
    · rintro ⟨again, hmade, hagree⟩
      obtain ⟨b', again, hb', hagain, rfl⟩ := List.forall₂_cons_left_iff.1 hmade
      obtain ⟨hT, hTs⟩ := List.forall₂_cons.1 hagree
      exact ⟨⟨b', hb', hT⟩, again, hagain, hTs⟩
    · rintro ⟨⟨b', hb', hT⟩, again, hagain, hTs⟩
      exact ⟨b' :: again, List.Forall₂.cons hb' hagain, List.Forall₂.cons hT hTs⟩

end PactJanus.Lib.Collect

namespace PactJanus.Lib.Reporting

/-! Computations that report what is wrong and go on. -/

variable {σ : Type} {failed : σ → Prop}

/-- A computation whose state tells whether anything was reported: what was reported stays reported, and nothing is
left out without a report. -/
structure Reporter (σ : Type) (failed : σ → Prop) (α : Type) where
  run : σ → Option α × σ
  keeps : ∀ s, failed s → failed (run s).2
  honest : ∀ s, (run s).1 = none → failed (run s).2

namespace Reporter

variable {α β : Type}

def pure (a : α) : Reporter σ failed α := ⟨fun s => (some a, s), fun _ h => h, fun _ h => nomatch h⟩

def bind (x : Reporter σ failed α) (f : α → Reporter σ failed β) : Reporter σ failed β where
  run s :=
    match x.run s with
    | (some a, s') => (f a).run s'
    | (none, s') => (none, s')
  keeps s h := by
    have hx := x.keeps s h
    split <;> rename_i heq <;> rw [heq] at hx
    · exact (f _).keeps _ hx
    · exact hx
  honest s := by
    have hx := x.honest s
    split <;> rename_i heq <;> rw [heq] at hx
    · exact (f _).honest _
    · exact fun _ => hx rfl

instance : Monad (Reporter σ failed) where
  pure := pure
  bind := bind

/-- What a computation has to show for itself, if anything, for one that goes on either way. -/
def attempt (x : Reporter σ failed α) : Reporter σ failed (Option α) :=
  ⟨fun s => (some (x.run s).1, (x.run s).2), x.keeps, fun _ h => nomatch h⟩

/-- A report, of a kind that leaves the state failed. -/
def report (note : σ → σ) (h : ∀ s, failed (note s)) : Reporter σ failed Unit :=
  ⟨fun s => (some (), note s), fun s _ => h s, fun _ h => nomatch h⟩

/-- A report with nothing to go on with. -/
def fail (note : σ → σ) (h : ∀ s, failed (note s)) : Reporter σ failed α :=
  ⟨fun s => (none, note s), fun s _ => h s, fun s _ => h s⟩

/-- A computation comes to a result, with nothing reported. -/
def Accepts (x : Reporter σ failed α) (s : σ) (a : α) (s' : σ) : Prop := x.run s = (some a, s') ∧ ¬failed s'

variable {x : Reporter σ failed α} {f : α → Reporter σ failed β} {s s' : σ} {a : α} {b : β}

theorem Accepts.start (h : x.Accepts s a s') : ¬failed s := by
  intro hs
  have hx := x.keeps s hs
  rw [h.1] at hx
  exact h.2 hx

theorem Accepts.unique {a' : α} {s'' : σ} (h : x.Accepts s a s') (h' : x.Accepts s a' s'') : a = a' ∧ s' = s'' := by
  obtain ⟨ha, hs⟩ := Prod.mk.inj (h.1.symm.trans h'.1)
  exact ⟨Option.some.inj ha, hs⟩

theorem accepts_pure {a' : α} :
    (Pure.pure a : Reporter σ failed α).Accepts s a' s' ↔ a' = a ∧ s' = s ∧ ¬failed s := by
  constructor
  · rintro ⟨h, hs⟩
    obtain ⟨ha, rfl⟩ := Prod.mk.inj h
    exact ⟨(Option.some.inj ha).symm, rfl, hs⟩
  · rintro ⟨rfl, rfl, hs⟩
    exact ⟨rfl, hs⟩

/-- One computation after another: each comes to its result. -/
theorem accepts_bind : (x >>= f).Accepts s b s' ↔ ∃ a s'', x.Accepts s a s'' ∧ (f a).Accepts s'' b s' := by
  constructor
  · rintro ⟨hrun, hs⟩
    have hbind : (bind x f).run s = (some b, s') := hrun
    rw [bind] at hbind
    simp only at hbind
    split at hbind
    · rename_i a s'' hx
      have hlast : (f a).Accepts s'' b s' := ⟨hbind, hs⟩
      exact ⟨a, s'', ⟨hx, hlast.start⟩, hlast⟩
    · exact absurd (Prod.mk.inj hbind).1 (by simp)
  · rintro ⟨a, s'', hx, hf⟩
    refine ⟨?_, hf.2⟩
    show (bind x f).run s = _
    rw [bind]
    simp only [hx.1, hf.1]

theorem accepts_attempt {o : Option α} : x.attempt.Accepts s o s' ↔ ∃ a, o = some a ∧ x.Accepts s a s' := by
  constructor
  · rintro ⟨hrun, hs⟩
    obtain ⟨hresult, rfl⟩ := Prod.mk.inj hrun
    obtain rfl := Option.some.inj hresult
    cases hx : (x.run s).1 with
    | none => exact absurd (x.honest s hx) hs
    | some a => exact ⟨a, rfl, Prod.ext hx rfl, hs⟩
  · rintro ⟨a, rfl, hx, hs⟩
    refine ⟨?_, hs⟩
    show (some (x.run s).1, (x.run s).2) = _
    rw [hx]

theorem not_accepts_report {note : σ → σ} {h : ∀ s, failed (note s)} {u : Unit} : ¬(report note h).Accepts s u s' := by
  rintro ⟨hrun, hs⟩
  obtain ⟨-, rfl⟩ := Prod.mk.inj hrun
  exact hs (h s)

theorem not_accepts_fail {note : σ → σ} {h : ∀ s, failed (note s)} :
    ¬(fail note h : Reporter σ failed α).Accepts s a s' := by
  rintro ⟨hrun, -⟩
  exact absurd (Prod.mk.inj hrun).1 (by simp)

end Reporter

end PactJanus.Lib.Reporting
