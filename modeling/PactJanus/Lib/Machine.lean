import Mathlib.Data.List.Induction

namespace PactJanus.Lib.Machine

/-! Runs of a partial step function over a list of events, and what is noted along them. -/

variable {σ τ ε ν : Type}

/-- The state a run ends in, `none` where an event could not happen. -/
def run (step : σ → ε → Option σ) : σ → List ε → Option σ
  | s, [] => some s
  | s, e :: events => (step s e).bind fun t => run step t events

/-- What is noted of the events of a run. -/
def log (step : σ → ε → Option σ) (notes : σ → ε → List ν) : σ → List ε → List ν
  | _, [] => []
  | s, e :: events => notes s e ++ (step s e).elim [] fun t => log step notes t events

variable {step : σ → ε → Option σ} {notes : σ → ε → List ν}

theorem run_append (s : σ) (first second : List ε) :
    run step s (first ++ second) = (run step s first).bind fun t => run step t second := by
  induction first generalizing s with
  | nil => rfl
  | cons e first ih =>
    simp only [List.cons_append, run, Option.bind_assoc]
    exact Option.bind_congr fun t _ => ih t

theorem run_snoc {s u : σ} {events : List ε} {e : ε} :
    run step s (events ++ [e]) = some u ↔ ∃ t, run step s events = some t ∧ step t e = some u := by
  have hone : ∀ t, run step t [e] = step t e := fun t => Option.bind_fun_some (step t e)
  rw [run_append, Option.bind_eq_some_iff]
  simp only [hone]

theorem log_append {s t : σ} {first : List ε} (second : List ε) (h : run step s first = some t) :
    log step notes s (first ++ second) = log step notes s first ++ log step notes t second := by
  induction first generalizing s with
  | nil =>
    obtain rfl : s = t := Option.some.inj h
    rfl
  | cons e first ih =>
    obtain ⟨u, hu, h⟩ := Option.bind_eq_some_iff.1 h
    simp only [List.cons_append, log, hu, Option.elim_some, List.append_assoc]
    rw [ih h]

theorem log_snoc {s t u : σ} {events : List ε} {e : ε} (h : run step s events = some t) (he : step t e = some u) :
    log step notes s (events ++ [e]) = log step notes s events ++ notes t e := by
  rw [log_append [e] h]
  simp [log, he]

/-- What is noted along a run is noted of one of its steps. -/
theorem mem_log {s : σ} {events : List ε} {note : ν} (h : note ∈ log step notes s events) :
    ∃ before e after t, events = before ++ e :: after ∧ run step s before = some t ∧ note ∈ notes t e := by
  induction events generalizing s with
  | nil => exact absurd h List.not_mem_nil
  | cons e events ih =>
    rw [log, List.mem_append] at h
    obtain h | h := h
    · exact ⟨[], e, events, s, rfl, rfl, h⟩
    · cases hstep : step s e with
      | none =>
        rw [hstep] at h
        exact absurd h List.not_mem_nil
      | some t =>
        rw [hstep] at h
        obtain ⟨before, e', after, u, rfl, hrun, hnote⟩ := ih h
        exact ⟨e :: before, e', after, u, rfl, by rw [run, hstep, Option.bind_some, hrun], hnote⟩

/-- Every step of a run meets a condition on the state before it. -/
def Along (ok : σ → ε → Prop) (step : σ → ε → Option σ) : σ → List ε → Prop
  | _, [] => True
  | s, e :: events => ok s e ∧ ∀ t, step s e = some t → Along ok step t events

variable {ok : σ → ε → Prop}

theorem along_snoc {s t : σ} {events : List ε} {e : ε} (h : run step s events = some t)
    (halong : Along ok step s (events ++ [e])) : Along ok step s events ∧ ok t e := by
  induction events generalizing s with
  | nil =>
    obtain rfl : s = t := Option.some.inj h
    exact ⟨trivial, halong.1⟩
  | cons e' events ih =>
    obtain ⟨u, hu, h⟩ := Option.bind_eq_some_iff.1 h
    obtain ⟨hok, hrest⟩ := halong
    refine ⟨⟨hok, fun v hv => ?_⟩, (ih h (hrest u hu)).2⟩
    obtain rfl : u = v := Option.some.inj (hu.symm.trans hv)
    exact (ih h (hrest u hu)).1

theorem along_trivial (s : σ) (events : List ε) : Along (fun _ _ => True) step s events := by
  induction events generalizing s with
  | nil => exact trivial
  | cons e events ih => exact ⟨trivial, fun t _ => ih t⟩

/-- What holds at the start with nothing noted, and what every step that meets the condition keeps, holds all along a
run whose steps all meet it. -/
theorem run_invariant_along {I : σ → List ν → Prop} {start s : σ} {events : List ε} (hstart : I start [])
    (hstep : ∀ s e t l, ok s e → I s l → step s e = some t → I t (l ++ notes s e)) (h : run step start events = some s)
    (halong : Along ok step start events) : I s (log step notes start events) := by
  induction events using List.reverseRecOn generalizing s with
  | nil =>
    obtain rfl : start = s := Option.some.inj h
    exact hstart
  | append_singleton events e ih =>
    obtain ⟨t, ht, he⟩ := run_snoc.1 h
    obtain ⟨halong, hok⟩ := along_snoc ht halong
    rw [log_snoc ht he]
    exact hstep t e s _ hok (ih ht halong) he

/-- What holds at the start with nothing noted, and what every step keeps, holds all along a run. -/
theorem run_invariant {I : σ → List ν → Prop} {start s : σ} {events : List ε} (hstart : I start [])
    (hstep : ∀ s e t l, I s l → step s e = some t → I t (l ++ notes s e)) (h : run step start events = some s) :
    I s (log step notes start events) :=
  run_invariant_along hstart (fun s e t l _ => hstep s e t l) h (along_trivial start events)

/-- What every step keeps, a run keeps. -/
theorem run_preserves {I : σ → Prop} (hstep : ∀ s e t, I s → step s e = some t → I t) {s t : σ} {events : List ε}
    (hs : I s) (h : run step s events = some t) : I t := by
  induction events generalizing s with
  | nil =>
    obtain rfl : s = t := Option.some.inj h
    exact hs
  | cons e events ih =>
    obtain ⟨u, hu, h⟩ := Option.bind_eq_some_iff.1 h
    exact ih (hstep s e u hs hu) h

/-- Where some step brings each state that is not done nearer to that, a run of no more steps than it is away does. -/
theorem run_progress {I done : σ → Prop} {allowed : ε → Prop} (distance : σ → Nat)
    (hstep : ∀ s, I s → ¬done s → ∃ e t, allowed e ∧ step s e = some t ∧ I t ∧ distance t < distance s) {s : σ}
    (hs : I s) : ∃ events t, run step s events = some t ∧ done t ∧ (∀ e ∈ events, allowed e) ∧
      events.length ≤ distance s := by
  induction hn : distance s using Nat.strongRecOn generalizing s with
  | _ n ih =>
    by_cases hdone : done s
    · exact ⟨[], s, rfl, hdone, fun _ h => absurd h List.not_mem_nil, Nat.zero_le _⟩
    · obtain ⟨e, t, hallowed, ht, hinv, hlt⟩ := hstep s hs hdone
      obtain ⟨events, u, hrun, hu, hall, hlength⟩ := ih (distance t) (hn ▸ hlt) hinv rfl
      refine ⟨e :: events, u, ?_, hu, List.forall_mem_cons.2 ⟨hallowed, hall⟩, ?_⟩
      · rw [run, ht, Option.bind_some, hrun]
      · rw [List.length_cons]
        omega

section Image

variable {step' : τ → ε → Option τ} {notes' : τ → ε → List ν} {f : σ → τ}

/-- A machine that steps as the image of another runs as its image. -/
theorem run_map (hstep : ∀ s e, step' (f s) e = (step s e).map f) (s : σ) (events : List ε) :
    run step' (f s) events = (run step s events).map f := by
  induction events generalizing s with
  | nil => rfl
  | cons e events ih =>
    simp only [run, hstep, Option.map_bind, Option.bind_map]
    exact Option.bind_congr fun t _ => ih t

theorem log_map (hstep : ∀ s e, step' (f s) e = (step s e).map f) (hnotes : ∀ s e, notes' (f s) e = notes s e) (s : σ)
    (events : List ε) : log step' notes' (f s) events = log step notes s events := by
  induction events generalizing s with
  | nil => rfl
  | cons e events ih =>
    simp only [log, hstep, hnotes]
    cases step s e with
    | none => rfl
    | some t => exact congrArg (notes s e ++ ·) (ih t)

end Image

section Part

variable {δ μ : Type} {part : τ → δ → Option τ} {partNotes : τ → δ → List μ} {view : σ → Option τ}
  {seen : ν → Option μ} {Inv Unborn : σ → Prop} {Begins : τ → Prop}

/-- A machine with a part that is a machine of its own: it comes into being once, in one of the states a part begins in
and with nothing noted of it before, and goes by steps of its own, noted for what the machine is, until it is gone. -/
structure Part (step : σ → ε → Option σ) (notes : σ → ε → List ν) (part : τ → δ → Option τ)
    (partNotes : τ → δ → List μ) (view : σ → Option τ) (seen : ν → Option μ) (Inv Unborn : σ → Prop)
    (Begins : τ → Prop) : Prop where
  keeps : ∀ {s e t}, Inv s → step s e = some t → Inv t
  unborn : ∀ {s e t}, Inv s → step s e = some t → Unborn t → Unborn s ∧ (notes s e).filterMap seen = []
  begins : ∀ {s e t q}, Inv s → step s e = some t → view s = none → view t = some q →
    Unborn s ∧ (notes s e).filterMap seen = [] ∧ Begins q
  goes : ∀ {s e t p q}, Inv s → step s e = some t → view s = some p → view t = some q →
    ∃ events, run part p events = some q ∧ log part partNotes p events = (notes s e).filterMap seen

/-- All along a run of a machine, a part of it is where a run of its own has taken it. -/
theorem run_part (h : Part step notes part partNotes view seen Inv Unborn Begins) {start s : σ} {events : List ε}
    (hstart : Inv start ∧ Unborn start ∧ view start = none) (hrun : run step start events = some s) {p : τ}
    (hp : view s = some p) :
    ∃ first acts, Begins first ∧ run part first acts = some p ∧
      log part partNotes first acts = (log step notes start events).filterMap seen := by
  suffices hall : Inv s ∧ (Unborn s → (log step notes start events).filterMap seen = []) ∧ ∀ p, view s = some p →
      ∃ first acts, Begins first ∧ run part first acts = some p ∧
        log part partNotes first acts = (log step notes start events).filterMap seen from hall.2.2 p hp
  refine run_invariant (I := fun s l => Inv s ∧ (Unborn s → l.filterMap seen = []) ∧ ∀ p, view s = some p →
    ∃ first acts, Begins first ∧ run part first acts = some p ∧ log part partNotes first acts = l.filterMap seen)
    ⟨hstart.1, fun _ => rfl, fun p hp => ?_⟩
    (fun s e t l hinv hstep => ⟨h.keeps hinv.1 hstep, fun hunborn => ?_, fun q hq => ?_⟩) hrun
  · rw [hstart.2.2] at hp
    cases hp
  · obtain ⟨hbefore, hquiet⟩ := h.unborn hinv.1 hstep hunborn
    rw [List.filterMap_append, hinv.2.1 hbefore, hquiet, List.append_nil]
  · rw [List.filterMap_append]
    cases hview : view s with
    | none =>
      obtain ⟨hunborn, hquiet, hbegins⟩ := h.begins hinv.1 hstep hview hq
      exact ⟨q, [], hbegins, rfl, by rw [hinv.2.1 hunborn, hquiet]; rfl⟩
    | some p =>
      obtain ⟨first, acts, hbegins, hacts, hlog⟩ := hinv.2.2 p hview
      obtain ⟨more, hmore, hnoted⟩ := h.goes hinv.1 hstep hview hq
      refine ⟨first, acts ++ more, hbegins, ?_, ?_⟩
      · rw [run_append, hacts, Option.bind_some, hmore]
      · rw [log_append more hacts, hlog, hnoted]

end Part

end PactJanus.Lib.Machine
