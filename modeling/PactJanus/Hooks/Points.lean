import PactJanus.Lib.Text

namespace PactJanus.Hooks.Points

open PactJanus.Lib.Text

/-- How often a point runs. -/
inductive Scope where
  | run | exchange | state
deriving DecidableEq

/-- What a failed invocation does to the run. -/
inductive Policy where
  | abortRun | failExchange | warn
deriving DecidableEq

def Policy.parse : String → Option Policy
  | "abort-run" => some .abortRun
  | "fail-exchange" => some .failExchange
  | "warn" => some .warn
  | _ => none

/-- What a point permits a hook to replace: nothing, a slot of the outbound parts, or all of them. -/
inductive Mutable where
  | none | outboundSlots | parts
deriving DecidableEq

structure Point where
  name : String
  scope : Scope
  defaultPolicy : Policy
  «mutable» : Mutable

/-- Every point, in the order a run reaches them. -/
def points : List Point :=
  [⟨"before-verification", .run, .abortRun, .none⟩, ⟨"state-setup", .state, .failExchange, .none⟩,
    ⟨"before-request", .exchange, .failExchange, .outboundSlots⟩, ⟨"produce-message", .exchange, .failExchange, .parts⟩,
    ⟨"consume-message", .exchange, .failExchange, .none⟩, ⟨"after-response", .exchange, .failExchange, .none⟩,
    ⟨"state-teardown", .state, .warn, .none⟩, ⟨"after-verification", .run, .warn, .none⟩]

def point (name : String) : Option Point := points.find? fun p => p.name == name

/-- Whether a path is one the point lets a hook change. -/
def Point.permits (p : Point) (path : String) : Bool :=
  match p.mutable with
  | .none => false
  | .parts => path == "parts"
  | .outboundSlots =>
    match split '.' path with
    | [root, part, slot] => root == "parts" && part != "" && slot != ""
    | _ => false

/-- What a path a point permits is split into: the whole parts, or a slot of them, at every path alike. -/
theorem Point.permits_cases (p : Point) :
    (∀ path, p.permits path = true → path = "parts") ∨
      ∀ path, p.permits path = true → ∃ part slot, split '.' path = ["parts", part, slot] := by
  cases hm : p.mutable with
  | none => exact Or.inl fun path h => absurd h (by simp [Point.permits, hm])
  | parts => exact Or.inl fun path h => by simpa [Point.permits, hm] using h
  | outboundSlots =>
    refine Or.inr fun path h => ?_
    simp only [Point.permits, hm] at h
    split at h
    · rename_i root part slot hsplit
      simp only [Bool.and_eq_true, beq_iff_eq] at h
      obtain rfl := h.1.1
      exact ⟨part, slot, hsplit⟩
    · exact absurd h (by simp)

end PactJanus.Hooks.Points
