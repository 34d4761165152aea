import Mathlib.Tactic.Basic

namespace PactJanus.Lib.Effects

/-! Computations on a state that end with a value, in an error or in a panic. -/

inductive Outcome (ε α : Type) where
  | done (value : α)
  | failed (error : ε)
  | panicked
deriving DecidableEq

def Effect (σ ε α : Type) : Type := σ → Outcome ε α × σ

namespace Effect

variable {σ ε α β : Type}

def done (value : α) : Effect σ ε α := fun s => (.done value, s)

def fail (error : ε) : Effect σ ε α := fun s => (.failed error, s)

def panic : Effect σ ε α := fun s => (.panicked, s)

def andThen (m : Effect σ ε α) (f : α → Effect σ ε β) : Effect σ ε β := fun s =>
  match m s with
  | (.done value, t) => f value t
  | (.failed error, t) => (.failed error, t)
  | (.panicked, t) => (.panicked, t)

instance : Monad (Effect σ ε) where
  pure := done
  bind := andThen

def ofExcept : Except ε α → Effect σ ε α
  | .ok value => done value
  | .error error => fail error

variable {m : Effect σ ε α} {f : α → Effect σ ε β} {s u : σ}

theorem done_eq_done {a b : α} : (pure a : Effect σ ε α) s = (.done b, u) ↔ a = b ∧ s = u := by
  simp [pure, done]

theorem fail_bind (error : ε) (f : α → Effect σ ε β) : (fail error >>= f) = fail error := rfl

theorem panic_bind (f : α → Effect σ ε β) : (panic >>= f) = panic := rfl

theorem bind_assoc {γ : Type} (m : Effect σ ε α) (f : α → Effect σ ε β) (g : β → Effect σ ε γ) :
    (m >>= f) >>= g = m >>= fun a => f a >>= g := by
  funext s
  rcases h : m s with ⟨outcome, t⟩
  cases outcome <;> simp [bind, andThen, h]

theorem bind_eq_done {b : β} :
    (m >>= f) s = (.done b, u) ↔ ∃ a t, m s = (.done a, t) ∧ f a t = (.done b, u) := by
  rcases h : m s with ⟨outcome, t⟩
  cases outcome <;> simp [bind, andThen, h, and_assoc]

theorem bind_panicked :
    ((m >>= f) s).1 = .panicked ↔ (m s).1 = .panicked ∨ ∃ a t, m s = (.done a, t) ∧ (f a t).1 = .panicked := by
  rcases h : m s with ⟨outcome, t⟩
  cases outcome <;> simp [bind, andThen, h, and_assoc]

theorem ofExcept_eq_done {x : Except ε α} {b : α} :
    (ofExcept x : Effect σ ε α) s = (.done b, u) ↔ x = .ok b ∧ s = u := by
  cases x <;> simp [ofExcept, done, fail]

theorem ofExcept_not_panicked {x : Except ε α} : ((ofExcept x : Effect σ ε α) s).1 ≠ .panicked := by
  cases x <;> simp [ofExcept, done, fail]

/-- What holds of the state before a computation holds after it, however it ends. -/
def Keeps (P : σ → Prop) (m : Effect σ ε α) : Prop := ∀ s, P s → P (m s).2

variable {P : σ → Prop}

theorem keeps_done (a : α) : Keeps P (pure a : Effect σ ε α) := fun _ h => h

theorem keeps_fail (error : ε) : Keeps P (fail error : Effect σ ε α) := fun _ h => h

theorem keeps_panic : Keeps P (panic : Effect σ ε α) := fun _ h => h

theorem keeps_ofExcept (x : Except ε α) : Keeps P (ofExcept x : Effect σ ε α) := by
  cases x with
  | ok value => exact keeps_done value
  | error error => exact keeps_fail error

theorem Keeps.bind (hm : Keeps P m) (hf : ∀ a, Keeps P (f a)) : Keeps P (m >>= f) := by
  intro s hs
  have ht := hm s hs
  simp only [Bind.bind, andThen]
  split
  · rename_i value t hrun
    rw [hrun] at ht
    exact hf value t ht
  · rename_i error t hrun
    rwa [hrun] at ht
  · rename_i t hrun
    rwa [hrun] at ht

end Effect

end PactJanus.Lib.Effects
