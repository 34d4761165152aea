import PactJanus.Protocol.Lifetimes

namespace PactJanus.Protocol.Frames

open PactJanus.Lib.Machine PactJanus.Lib.PartialMap PactJanus.Contracts.Files PactJanus.Session.Exchange
open PactJanus.Session.Model
open PactJanus.Protocol.Dispatcher PactJanus.Protocol.Changes PactJanus.Protocol.Lifetimes
open PactJanus.Session.Interleaving (System Dispatch Event TransportRun)

/-! Frames and their answers: one for each, in order, and none that cannot be given. -/

def frameId : Frame → String
  | .notJson _ => ""
  | .notRequest id => id
  | .unreadable id _ => id
  | .request id _ => id

/-- The frame a step takes, if it takes one. -/
def takes {ρ : Type} : Act ρ → List String
  | .frame frame => [frameId frame]
  | _ => []

/-- The frames that are answered, in order. -/
def answeredIn (seen : List Note) : List String :=
  seen.flatMap fun note =>
    match note with
    | .answered frame _ => [frame]
    | _ => []

/-- The frame that is being answered. -/
def underway : Handling → List String
  | .idle => []
  | .serving frame _ _ _ _ => [frame]
  | .reporting frame _ _ _ => [frame]
  | .finalising frame _ _ _ => [frame]
  | .polling frame _ _ _ _ _ => [frame]

theorem answeredIn_append (first second : List Note) :
    answeredIn (first ++ second) = answeredIn first ++ answeredIn second := List.flatMap_append

theorem underway_idle {handling : Handling} : underway handling = [] ↔ handling.isIdle = true := by
  cases handling with
  | idle => exact iff_of_true rfl rfl
  | _ => exact iff_of_false (List.cons_ne_nil _ _) Bool.false_ne_true

theorem underway_cases (handling : Handling) : handling = .idle ∨ ∃ frame, underway handling = [frame] := by
  cases handling with
  | idle => exact .inl rfl
  | _ => exact .inr ⟨_, rfl⟩

section Steps

variable {ρ ω : Type} {host : Host ω} {engine engine' : Engine ρ ω}

/-- A step is one of answering a frame: it answers it, or goes on with it. -/
def Answers (frame : String) (next : Engine ρ ω × List Note) : Prop :=
  answeredIn next.2 ++ underway next.1.handling = [frame]

private theorem answers_answer (engine : Engine ρ ω) (frame : String) (answer : Except EngineError Result) :
    Answers frame (engine.answer frame answer) := rfl

private theorem answers_now {frame : String} {answer : Except EngineError Result} {next : Engine ρ ω × List Note}
    (h : some (engine.answer frame answer) = some next) : Answers frame next := by
  obtain rfl := Option.some.inj h
  exact answers_answer ..

private theorem underway_put (engine : Engine ρ ω) (session : String) (held : Held) :
    underway (engine.put session held).handling = underway engine.handling :=
  handling_put (fun _ _ _ _ _ => rfl) engine session held

private theorem answers_within {frame session : String} {event : Event} {next : Engine ρ ω × List Note}
    (hframe : underway engine.handling = [frame]) (h : engine.within session event = some next) : Answers frame next := by
  obtain ⟨engine', seen⟩ := next
  obtain ⟨held, system', -, -, rfl, rfl⟩ := within_some h
  rw [Answers, answeredIn, flatMap_noted (fun _ _ => rfl), List.nil_append, underway_put, hframe]

private theorem answers_withinThen {frame session : String} {event : Event} {next : Engine ρ ω × List Note}
    {then' : Engine ρ ω → Engine ρ ω × List Note} (hthen : ∀ engine, Answers frame (then' engine))
    (h : engine.withinThen session event then' = some next) : Answers frame next := by
  obtain ⟨⟨mid, seen⟩, hwithin, rfl⟩ := Option.map_eq_some_iff.1 h
  obtain ⟨held, system', -, -, -, hseen⟩ := within_some hwithin
  rw [Answers, answeredIn_append, hseen, answeredIn, flatMap_noted (fun _ _ => rfl), List.nil_append]
  exact hthen mid

private theorem answers_naming {frame session : String} {next : Engine ρ ω × List Note}
    {f : Held → Option (Engine ρ ω × List Note)} (hf : ∀ held, f held = some next → Answers frame next)
    (h : engine.naming frame session f = some next) : Answers frame next := by
  rw [Engine.naming] at h
  split at h
  · exact answers_now h
  · exact hf _ h

private theorem answers_addInteraction {frame session : String} {held : Held} {interaction : Data.Json.Json}
    {converted : InteractionSpec → List (String × Contracts.Model.ShapePart) → Option Converted}
    {findings : List Data.Json.Json} {next : Engine ρ ω × List Note}
    (h : engine.handleAddInteraction host frame session held interaction converted findings = some next) :
    Answers frame next := by
  rw [Engine.handleAddInteraction] at h
  split at h
  · exact answers_withinThen (fun _ => answers_answer ..) h
  · exact answers_withinThen (fun _ => answers_answer ..) h

private theorem answers_handle {frame : String} {request : Request} {next : Engine ρ ω × List Note}
    (h : engine.handle host frame request = some next) : Answers frame next := by
  cases request with
  | addInteraction session interaction => exact answers_naming (fun held h => answers_addInteraction h) h
  | addPactInteraction session pact =>
    refine answers_naming (fun held h => ?_) h
    rw [Engine.handleAddPactInteraction] at h
    split at h
    · exact answers_addInteraction h
    · exact answers_withinThen (fun _ => answers_answer ..) h
  | variants session handle policy =>
    refine answers_naming (fun held h => ?_) h
    rw [Engine.handleVariants] at h
    split at h
    · exact answers_now h
    · split at h
      · exact answers_now h
      · exact answers_withinThen (fun _ => answers_answer ..) h
  | startTransport session transport options =>
    refine answers_naming (fun held h => ?_) h
    rw [Engine.handleStartTransport] at h
    split at h
    · exact answers_now h
    · split at h
      · exact answers_now h
      · dsimp only at h
        split at h
        · exact answers_now h
        · exact answers_now h
        · split at h
          · exact answers_now h
          · exact answers_withinThen (fun _ => answers_answer ..) h
  | serveVariant session handle variant =>
    refine answers_naming (fun held h => ?_) h
    rw [Engine.handleServeVariant] at h
    refine answers_withinThen (fun engine => ?_) h
    rfl
  | reportVariant session handle variant status reason =>
    refine answers_naming (fun held h => ?_) h
    rw [Engine.handleReportVariant] at h
    split at h
    · exact answers_now h
    · refine answers_withinThen (fun engine => ?_) h
      rfl
  | finalise session write =>
    rw [Engine.handle] at h
    split at h
    · exact answers_now h
    · exact answers_naming (fun held h => answers_within rfl h) h
    · exact answers_naming (fun held h => answers_within rfl h) h
  | poll streams max waitMs =>
    obtain rfl := Option.some.inj h
    rw [Engine.handlePoll]
    split <;> rfl
  | _ =>
    exact answers_now h

private theorem answers_dispatch {frame : Frame} {next : Engine ρ ω × List Note}
    (h : engine.dispatch host frame = some next) : Answers (frameId frame) next := by
  cases frame with
  | request id request =>
    rw [Engine.dispatch] at h
    split at h
    · exact answers_now h
    · split at h
      · exact answers_now h
      · exact answers_handle h
  | _ =>
    exact answers_now h

variable [DecidableEq ρ]

private theorem answeredIn_stream {id : String} {act : Events.Stream.Act ρ ω} {next : Engine ρ ω × List Note}
    (h : engine.stream host id act = some next) : answeredIn next.2 = [] ∧ next.1.handling = engine.handling := by
  obtain ⟨system, -, h⟩ := Option.bind_eq_some_iff.1 h
  obtain ⟨system', -, rfl⟩ := Option.map_eq_some_iff.1 h
  exact ⟨flatMap_streamed (fun _ _ => rfl) .., rfl⟩

private theorem answers_advance {frame : String} {next : Engine ρ ω × List Note}
    (hframe : underway engine.handling = [frame]) (h : engine.advance host = some next) : Answers frame next := by
  rw [Engine.advance] at h
  cases busy : engine.handling with
  | idle =>
    rw [busy] at hframe
    cases hframe
  | serving frame' session handle variant served =>
    obtain rfl : frame' = frame := List.head_eq_of_cons_eq (by rw [← hframe, busy]; rfl)
    simp only [busy] at h
    obtain ⟨held, -, h⟩ := Option.bind_eq_some_iff.1 h
    split at h
    · exact answers_within hframe h
    · obtain rfl := Option.some.inj h
      exact answers_answer ..
  | reporting frame' session handle variant =>
    obtain rfl : frame' = frame := List.head_eq_of_cons_eq (by rw [← hframe, busy]; rfl)
    simp only [busy] at h
    obtain ⟨held, -, h⟩ := Option.bind_eq_some_iff.1 h
    split at h
    · exact answers_within hframe h
    · exact answers_withinThen (fun _ => answers_answer ..) h
  | finalising frame' session held write =>
    obtain rfl : frame' = frame := List.head_eq_of_cons_eq (by rw [← hframe, busy]; rfl)
    simp only [busy] at h
    split at h
    · obtain rfl := Option.some.inj h
      exact answers_answer ..
    · exact answers_within hframe h
  | polling frame' named left max events wait =>
    obtain rfl : frame' = frame := List.head_eq_of_cons_eq (by rw [← hframe, busy]; rfl)
    simp only [busy] at h
    cases left with
    | cons stream left =>
      rw [Engine.pollStep] at h
      split at h
      · obtain rfl := Option.some.inj h
        rfl
      · obtain ⟨system, -, h⟩ := Option.bind_eq_some_iff.1 h
        obtain ⟨⟨mid, seen⟩, hstream, rfl⟩ := Option.map_eq_some_iff.1 h
        rw [Answers, (answeredIn_stream hstream).1]
        rfl
    | nil =>
      rw [Engine.pollStep] at h
      split at h
      · obtain rfl := Option.some.inj h
        rfl
      · obtain rfl := Option.some.inj h
        exact answers_answer ..

private theorem answers_move {act : Act ρ} {next : Engine ρ ω × List Note} (h : engine.move host act = some next) :
    underway engine.handling ++ takes act = answeredIn next.2 ++ underway next.1.handling := by
  cases act with
  | frame frame =>
    rw [Engine.move] at h
    split at h
    · rename_i hidle
      rw [underway_idle.2 hidle]
      exact (answers_dispatch h).symm
    · cases h
  | advance =>
    obtain hnone | ⟨frame, hframe⟩ := underway_cases engine.handling
    · rw [Engine.move, Engine.advance, hnone] at h
      cases h
    · rw [hframe]
      exact (answers_advance hframe h).symm
  | beside session beside =>
    obtain ⟨engine', seen⟩ := next
    obtain ⟨held, system', -, -, rfl, rfl⟩ := within_some h
    rw [answeredIn, flatMap_noted (fun _ _ => rfl), underway_put]
    exact List.append_nil _
  | produce stream produce =>
    obtain ⟨hseen, hsame⟩ := answeredIn_stream h
    rw [hseen, hsame]
    exact List.append_nil _

/-- Along a run the frames taken are answered in the order they were taken, each once; at most the last of them is still
being answered. -/
theorem frames_answered_in_order {acts : List (Act ρ)} (h : run (step host) Engine.new acts = some engine) :
    answeredIn (log (step host) (notes host) Engine.new acts) ++ underway engine.handling = acts.flatMap takes := by
  induction acts using List.reverseRecOn generalizing engine with
  | nil =>
    obtain rfl : Engine.new = engine := Option.some.inj h
    rfl
  | append_singleton acts act ih =>
    obtain ⟨mid, hmid, hstep⟩ := run_snoc.1 h
    obtain ⟨⟨engine, seen⟩, hmove, rfl⟩ := Option.map_eq_some_iff.1 hstep
    have hnotes : notes host mid act = seen := by rw [notes, hmove]; rfl
    rw [log_snoc hmid hstep, hnotes, answeredIn_append, List.append_assoc, ← answers_move hmove, ← List.append_assoc, ih hmid,
      List.flatMap_append, List.flatMap_singleton]

end Steps

theorem frames_answered_in_order_polled :
    ∃ engine : Engine Unit Unit, run (step hosted) Engine.new polled = some engine ∧
      answeredIn (log (step hosted) (notes hosted) (Engine.new : Engine Unit Unit) polled) ++ underway engine.handling =
        ["1", "2", "3"] := by
  obtain ⟨engine, hrun⟩ : ∃ engine : Engine Unit Unit, run (step hosted) Engine.new polled = some engine := ⟨_, rfl⟩
  exact ⟨engine, hrun, frames_answered_in_order hrun⟩

/-! What a session does of the frame that is being answered. -/

section Waiting

/-- The transports of a session. -/
def instances (system : System Exercised) : List String := system.transports.map TransportRun.instance'

/-- A variant is being armed on transports the session has. -/
def Arming (system : System Exercised) : Prop :=
  ∃ armed waiting, system.dispatch = .arming armed waiting ∧ ∀ name ∈ waiting, name ∈ instances system

/-- A report is waiting for transports the session has. -/
def Settling (system : System Exercised) : Prop :=
  ∃ handle variant verdict waiting settled late, system.dispatch = .settling handle variant verdict waiting settled late ∧
    ∀ name ∈ waiting, name ∈ instances system

def Stopping (system : System Exercised) : Prop := system.dispatch = .stopping ∨ system.dispatch = .finalised

variable {world : World} {system system' : System Exercised}

private theorem at_same {α : Type} {name : String}
    {f : TransportRun Exercised → Option (TransportRun Exercised × α)} {mid : System Exercised} {a : α}
    (hf : ∀ run run' a, f run = some (run', a) → run'.instance' = run.instance')
    (h : Session.Interleaving.atTransport name f system = some (mid, a)) :
    instances mid = instances system ∧ mid.dispatch = system.dispatch ∧ mid.nextTransport = system.nextTransport := by
  obtain ⟨before, run, run', after, hsplit, -, hrun, rfl⟩ := Session.Attribution.atTransport_some h
  refine ⟨?_, rfl, rfl⟩
  simp [instances, hsplit, hf run run' a hrun]

private theorem at_some {α : Type} {name : String}
    {f : TransportRun Exercised → Option (TransportRun Exercised × α)} (hf : ∀ run, (f run).isSome = true)
    (h : name ∈ instances system) : ∃ mid a, Session.Interleaving.atTransport name f system = some (mid, a) := by
  obtain ⟨run, hrun, hname⟩ := List.mem_map.1 h
  obtain ⟨⟨transports, a⟩, hat⟩ := Option.isSome_iff_exists.1
    (Lib.Lists.stepAt_isSome (p := fun run : TransportRun Exercised => run.instance' == name) hf hrun (beq_iff_eq.2 hname))
  exact ⟨{ system with transports := transports }, a, by rw [Session.Interleaving.atTransport, hat]; rfl⟩

private theorem settle_kept (key : Session.Exchange.Key) (run run' : TransportRun Exercised)
    (a : Option Exercised × Bool) (h : run.settle key = some (run', a)) : run'.instance' = run.instance' := by
  cases h
  rfl

private theorem armWith_kept (armed : Session.Exchange.ArmedExchange) (run run' : TransportRun Exercised) (a : Unit)
    (h : run.armWith armed = some (run', a)) : run'.instance' = run.instance' := by
  cases h
  rfl

/-- The work of a transport changes nothing of the frame being answered. -/
theorem beside_same {beside : Beside} (h : Session.Interleaving.step world system beside.event = some system') :
    instances system' = instances system ∧ system'.dispatch = system.dispatch ∧
      system'.nextTransport = system.nextTransport := by
  cases beside with
  | arrival name inbound =>
    obtain ⟨⟨mid, a⟩, hat, rfl⟩ := Option.map_eq_some_iff.1 h
    refine at_same (fun run run' a hrun => ?_) hat
    rw [TransportRun.arrive] at hrun
    split at hrun
    · cases hrun
      rfl
    · cases hrun
  | delivery name undelivered =>
    obtain ⟨⟨mid, a⟩, hat, rfl⟩ := Option.map_eq_some_iff.1 h
    refine at_same (fun run run' a hrun => ?_) hat
    rw [TransportRun.deliver] at hrun
    split at hrun
    · cases hrun
      rfl
    · cases hrun
  | ending name =>
    obtain ⟨⟨mid, a⟩, hat, rfl⟩ := Option.map_eq_some_iff.1 h
    refine at_same (fun run run' a hrun => ?_) hat
    cases hrun
    rfl

private theorem idle_of {dispatch : Dispatch Exercised} (h : dispatch.isIdle = true) : dispatch = .idle := by
  cases dispatch with
  | idle => rfl
  | _ => cases h

theorem serveVariant_arms {handle variant : String}
    (h : Session.Interleaving.step world system (.serveVariant handle variant) = some system') :
    (system'.dispatch = .idle ∨ Arming system') ∧ system'.nextTransport = system.nextTransport := by
  rw [Session.Interleaving.step, Session.Interleaving.serve] at h
  split at h
  · rename_i hidle
    dsimp only at h
    split at h
    · obtain rfl := Option.some.inj h
      refine ⟨.inr ⟨_, _, rfl, fun name hname => ?_⟩, rfl⟩
      obtain ⟨run, hrun, rfl⟩ := List.mem_map.1 hname
      exact List.mem_map_of_mem (List.mem_filter.1 hrun).1
    · obtain rfl := Option.some.inj h
      exact ⟨.inl (idle_of hidle), rfl⟩
  · cases h

theorem reportVariant_settles {handle variant : String} {verdict : TestVerdict}
    (hallowed : system.session.reportRefused handle variant = none)
    (h : Session.Interleaving.step world system (.reportVariant handle variant verdict) = some system') :
    Settling system' ∧ system'.nextTransport = system.nextTransport := by
  rw [Session.Interleaving.step, hallowed] at h
  split at h
  · obtain rfl := Option.some.inj h
    exact ⟨⟨_, _, _, _, _, _, rfl, fun _ hname => hname⟩, rfl⟩
  · cases h

theorem finalise_stops (h : Session.Interleaving.step world system .finalise = some system') :
    Stopping system' ∧ system'.nextTransport = system.nextTransport := by
  rw [Session.Interleaving.step] at h
  split at h
  · obtain rfl := Option.some.inj h
    exact ⟨.inl rfl, rfl⟩
  · cases h

theorem answer_idle (h : Session.Interleaving.step world system .answer = some system') :
    system'.dispatch = .idle ∧ system'.nextTransport = system.nextTransport := by
  rw [Session.Interleaving.step] at h
  split at h
  · obtain rfl := Option.some.inj h
    exact ⟨rfl, rfl⟩
  · cases h

/-- How far a session is from being done with the frame that is being answered. -/
def left (system : System Exercised) : Nat :=
  match system.dispatch with
  | .arming _ waiting => waiting.length + 1
  | .settling _ _ _ waiting _ _ => waiting.length + 1
  | .stopping =>
    system.transports.length + system.transports.countP (fun run => match run.loop with | .ended => false | _ => true) + 1
  | _ => 0

theorem arm_nearer (h : Session.Interleaving.step world system .arm = some system') (hs : Arming system) :
    (system'.dispatch = .idle ∨ Arming system') ∧ system'.nextTransport = system.nextTransport ∧
      left system' < left system := by
  obtain ⟨armed, waiting, hdispatch, hwaiting⟩ := hs
  cases waiting with
  | nil =>
    simp only [Session.Interleaving.step, hdispatch] at h
    obtain rfl := Option.some.inj h
    exact ⟨.inl rfl, rfl, by simp [left, hdispatch]⟩
  | cons name waiting =>
    simp only [Session.Interleaving.step, hdispatch] at h
    obtain ⟨⟨mid, a⟩, hat, rfl⟩ := Option.map_eq_some_iff.1 h
    obtain ⟨hinstances, -, hnext⟩ := at_same (armWith_kept armed) hat
    refine ⟨.inr ⟨armed, waiting, rfl, fun other hother => ?_⟩, hnext, by simp [left, hdispatch]⟩
    exact hinstances ▸ hwaiting other (List.mem_cons_of_mem _ hother)

theorem settle_nearer (h : Session.Interleaving.step world system .settle = some system') (hs : Settling system) :
    Settling system' ∧ system'.nextTransport = system.nextTransport ∧ left system' < left system := by
  obtain ⟨handle, variant, verdict, waiting, settled, late, hdispatch, hwaiting⟩ := hs
  cases waiting with
  | nil =>
    simp only [Session.Interleaving.step, hdispatch] at h
    cases h
  | cons name waiting =>
    simp only [Session.Interleaving.step, hdispatch] at h
    obtain ⟨⟨mid, a⟩, hat, rfl⟩ := Option.map_eq_some_iff.1 h
    obtain ⟨hinstances, -, hnext⟩ := at_same (settle_kept (handle, variant)) hat
    refine ⟨⟨handle, variant, verdict, waiting, _, _, rfl, fun other hother => ?_⟩, hnext, by simp [left, hdispatch]⟩
    exact hinstances ▸ hwaiting other (List.mem_cons_of_mem _ hother)

theorem drain_nearer (h : Session.Interleaving.step world system .drain = some system') :
    Stopping system' ∧ system'.nextTransport = system.nextTransport ∧ left system' < left system := by
  rw [Session.Interleaving.step] at h
  split at h
  · rename_i hdispatch htransports
    obtain rfl := Option.some.inj h
    exact ⟨.inr rfl, rfl, by simp [left, hdispatch]⟩
  · rename_i name kind exchange rest hdispatch htransports
    obtain rfl := Option.some.inj h
    refine ⟨.inl hdispatch, rfl, ?_⟩
    simp [left, hdispatch, htransports]
  · cases h

theorem arm_can (hs : Arming system) : ∃ system', Session.Interleaving.step world system .arm = some system' := by
  obtain ⟨armed, waiting, hdispatch, hwaiting⟩ := hs
  cases waiting with
  | nil => exact ⟨{ system with dispatch := .idle }, by simp only [Session.Interleaving.step, hdispatch]⟩
  | cons name waiting =>
    obtain ⟨mid, a, hat⟩ := at_some (f := TransportRun.armWith armed) (fun _ => rfl) (hwaiting name List.mem_cons_self)
    exact ⟨{ mid with dispatch := .arming armed waiting }, by
      simp only [Session.Interleaving.step, hdispatch, hat, Option.map_some]⟩

/-- A report that waits for a transport goes on to the next, and one that waits for none is answered. -/
theorem settle_can (hs : Settling system) :
    (∃ handle variant verdict name waiting settled late,
      system.dispatch = .settling handle variant verdict (name :: waiting) settled late ∧
        ∃ system', Session.Interleaving.step world system .settle = some system') ∨
      (∃ handle variant verdict settled late, system.dispatch = .settling handle variant verdict [] settled late) ∧
        ∃ system', Session.Interleaving.step world system .answer = some system' := by
  obtain ⟨handle, variant, verdict, waiting, settled, late, hdispatch, hwaiting⟩ := hs
  cases waiting with
  | nil =>
    refine .inr ⟨⟨handle, variant, verdict, settled, late, hdispatch⟩, ?_⟩
    simp only [Session.Interleaving.step, hdispatch]
    exact ⟨_, rfl⟩
  | cons name waiting =>
    refine .inl ⟨handle, variant, verdict, name, waiting, settled, late, hdispatch, ?_⟩
    obtain ⟨mid, a, hat⟩ := at_some (f := TransportRun.settle (handle, variant)) (fun _ => rfl)
      (hwaiting name List.mem_cons_self)
    simp only [Session.Interleaving.step, hdispatch, hat, Option.map_some]
    exact ⟨_, rfl⟩

/-- A session that is stopping lets its next transport go, or that transport's loop can end. -/
theorem drain_can (hs : system.dispatch = .stopping) :
    (∃ system', Session.Interleaving.step world system .drain = some system') ∨
      ∃ name system', Session.Interleaving.step world system (.ending name) = some system' ∧
        left system' < left system := by
  cases htransports : system.transports with
  | nil =>
    simp only [Session.Interleaving.step, hs, htransports]
    exact .inl ⟨_, rfl⟩
  | cons run rest =>
    obtain ⟨name, kind, exchange, loop⟩ := run
    cases loop with
    | ended =>
      simp only [Session.Interleaving.step, hs, htransports]
      exact .inl ⟨_, rfl⟩
    | _ =>
      refine .inr ⟨name, { system with transports := ⟨name, kind, exchange, .ended⟩ :: rest }, ?_, ?_⟩
      · simp [Session.Interleaving.step, Session.Interleaving.atTransport, htransports, Lib.Lists.stepAt, TransportRun.endLoop]
      · simp [left, hs, htransports]

end Waiting

/-! An engine is always ready to go on. -/

section Progress

variable {ρ ω : Type}

/-- The session that the frame being answered is about. -/
def about : Handling → Option String
  | .serving _ session _ _ _ => some session
  | .reporting _ session _ _ => some session
  | .finalising _ session _ _ => some session
  | _ => none

/-- What answering a frame needs is there. -/
def Handled (engine : Engine ρ ω) : Handling → Prop
  | .idle => True
  | .serving _ session _ _ _ =>
    ∃ held, engine.sessions session = some held ∧ (held.system.dispatch = .idle ∨ Arming held.system)
  | .reporting _ session _ _ => ∃ held, engine.sessions session = some held ∧ Settling held.system
  | .finalising _ _ held _ => Stopping held.system
  | .polling _ named left _ _ _ => ∀ stream ∈ named ++ left, engine.streams stream ≠ none

/-- What holds all along a run of the sessions and the frame being answered. -/
structure Ready (engine : Engine ρ ω) : Prop where
  apart : Apart engine
  resting : ∀ id held, engine.held id = some held → about engine.handling ≠ some id → held.system.dispatch = .idle
  numbered : ∀ id held, engine.held id = some held → held.system.nextTransport ≤ engine.nextTransport + 1
  handled : Handled engine engine.handling

theorem ready_new : Ready (Engine.new : Engine ρ ω) where
  apart _ _ _ _ h := by cases h
  resting _ _ h := by cases h
  numbered _ _ h := by cases h
  handled := trivial

theorem Ready.handled_of {engine : Engine ρ ω} {handling : Handling} (hs : Ready engine)
    (busy : engine.handling = handling) : Handled engine handling := busy ▸ hs.handled

variable {host : Host ω} {engine engine' : Engine ρ ω}

/-- Nothing of a session changes and no frame is being answered, or a poll is. -/
private theorem ready_same (hs : Ready engine) (hheld : ∀ id held, engine'.held id = some held → engine.held id = some held)
    (hresting : ∀ id held, engine.held id = some held → engine'.held id = some held → about engine.handling = some id →
      held.system.dispatch = .idle)
    (hnext : engine.nextTransport ≤ engine'.nextTransport) (hapart : Apart engine')
    (hhandled : Handled engine' engine'.handling) : Ready engine' where
  apart := hapart
  resting id held hid _ := by
    by_cases habout : about engine.handling = some id
    · exact hresting id held (hheld id held hid) hid habout
    · exact hs.resting id held (hheld id held hid) habout
  numbered id held hid := Nat.le_trans (hs.numbered id held (hheld id held hid)) (Nat.add_le_add_right hnext 1)
  handled := hhandled

/-- One session takes a step, and the others rest. -/
private theorem ready_stepped {session : String} {held : Held} (hs : Ready engine) (hapart : Apart engine')
    (hheld : ∀ id, engine'.held id = if id = session then some held else engine.held id)
    (habout : about engine.handling = none ∨ about engine.handling = some session)
    (hrests : about engine'.handling ≠ some session → held.system.dispatch = .idle)
    (hnumber : held.system.nextTransport ≤ engine'.nextTransport + 1) (hnext : engine.nextTransport ≤ engine'.nextTransport)
    (hhandled : Handled engine' engine'.handling) : Ready engine' where
  apart := hapart
  resting id other hid hnot := by
    rw [hheld] at hid
    split at hid
    · rename_i heq
      subst heq
      obtain rfl := Option.some.inj hid
      exact hrests hnot
    · rename_i hne
      refine hs.resting id other hid ?_
      obtain habout | habout := habout
      · rw [habout]
        exact Option.some_ne_none id |>.symm
      · rw [habout]
        exact fun heq => hne (Option.some.inj heq).symm
  numbered id other hid := by
    rw [hheld] at hid
    split at hid
    · obtain rfl := Option.some.inj hid
      exact hnumber
    · exact Nat.le_trans (hs.numbered id other hid) (Nat.add_le_add_right hnext 1)
  handled := hhandled

private theorem held_same (hnot : NotEnding engine) (hnot' : NotEnding engine')
    (hsessions : engine'.sessions = engine.sessions) (id : String) : engine'.held id = engine.held id := by
  rw [held_table hnot, held_table hnot', hsessions]

private theorem held_stepped {session : String} {held : Held} (hnot : NotEnding engine) (hnot' : NotEnding engine')
    (hsessions : engine'.sessions = engine.sessions.insert session held) (id : String) :
    engine'.held id = if id = session then some held else engine.held id := by
  rw [held_table hnot, held_table hnot', hsessions, PMap.insert_apply]

/-- The frame is answered, and its session rests with the others. -/
private theorem ready_idle (hs : Ready engine) (hnot : NotEnding engine) (idle' : engine'.handling = .idle)
    (hsessions : engine'.sessions = engine.sessions) (hnext : engine.nextTransport ≤ engine'.nextTransport)
    (hresting : ∀ id held, engine.sessions id = some held → about engine.handling = some id →
      held.system.dispatch = .idle) : Ready engine' := by
  have hheld := held_same hnot (notEnding_idle idle') hsessions
  refine ready_same hs (fun id held h => (hheld id).symm.trans h) (fun id held h _ habout => ?_) hnext ?_ ?_
  · exact hresting id held ((held_table hnot id).symm.trans h) habout
  · intro frame session held write hending
    rw [idle'] at hending
    cases hending
  · rw [idle']
    trivial

private theorem none_about (idle : engine.handling = .idle) (id : String) (held : Held)
    (_ : engine.sessions id = some held) (h : about engine.handling = some id) : held.system.dispatch = .idle := by
  rw [idle] at h
  cases h

private theorem arming_same {system system' : System Exercised} (hinstances : instances system' = instances system)
    (hdispatch : system'.dispatch = system.dispatch) (h : Arming system) : Arming system' := by
  obtain ⟨armed, waiting, harming, hwaiting⟩ := h
  exact ⟨armed, waiting, hdispatch.trans harming, fun name hname => hinstances ▸ hwaiting name hname⟩

private theorem settling_same {system system' : System Exercised} (hinstances : instances system' = instances system)
    (hdispatch : system'.dispatch = system.dispatch) (h : Settling system) : Settling system' := by
  obtain ⟨handle, variant, verdict, waiting, settled, late, hsettling, hwaiting⟩ := h
  exact ⟨handle, variant, verdict, waiting, settled, late, hdispatch.trans hsettling,
    fun name hname => hinstances ▸ hwaiting name hname⟩

private theorem about_put (session : String) (held : Held) :
    about (engine.put session held).handling = about engine.handling :=
  handling_put (fun _ _ _ _ _ => rfl) engine session held

private theorem handled_put {session : String} {held : Held} {system' : System Exercised}
    (hinstances : instances system' = instances held.system) (hdispatch : system'.dispatch = held.system.dispatch)
    (found : engine.held session = some held) (hs : Handled engine engine.handling) :
    Handled (engine.put session { held with system := system' }) (engine.put session { held with system := system' }).handling := by
  cases busy : engine.handling with
  | idle =>
    have hnot : NotEnding engine := notEnding_idle busy
    rw [put_table hnot, busy]
    trivial
  | serving frame other handle variant served =>
    have hnot : NotEnding engine := notEnding_serving busy
    rw [busy] at hs
    rw [put_table hnot, busy]
    obtain ⟨mine, hmine, harming⟩ := hs
    by_cases hsame : other = session
    · subst hsame
      obtain rfl := Option.some.inj (hmine.symm.trans ((held_table hnot _).symm.trans found))
      refine ⟨{ mine with system := system' }, (PMap.insert_apply ..).trans (if_pos rfl), ?_⟩
      exact harming.imp hdispatch.trans (arming_same hinstances hdispatch)
    · exact ⟨mine, (PMap.insert_apply ..).trans ((if_neg hsame).trans hmine), harming⟩
  | reporting frame other handle variant =>
    have hnot : NotEnding engine := notEnding_reporting busy
    rw [busy] at hs
    rw [put_table hnot, busy]
    obtain ⟨mine, hmine, hsettling⟩ := hs
    by_cases hsame : other = session
    · subst hsame
      obtain rfl := Option.some.inj (hmine.symm.trans ((held_table hnot _).symm.trans found))
      exact ⟨{ mine with system := system' }, (PMap.insert_apply ..).trans (if_pos rfl),
        settling_same hinstances hdispatch hsettling⟩
    · exact ⟨mine, (PMap.insert_apply ..).trans ((if_neg hsame).trans hmine), hsettling⟩
  | finalising frame other mine write =>
    rw [busy] at hs
    by_cases hsame : session = other
    · subst hsame
      have hmine : mine = held := by simpa [Engine.held, busy] using found
      subst hmine
      simp only [Engine.put, busy, if_true]
      exact hs.imp hdispatch.trans hdispatch.trans
    · simp only [Engine.put, busy, if_neg hsame]
      exact hs
  | polling frame named left max events wait =>
    have hnot : NotEnding engine := notEnding_polling busy
    rw [busy] at hs
    rw [put_table hnot, busy]
    exact hs

private theorem ready_polling {frame : String} {named left named' left' : List String} {max : Nat}
    {events events' : List Events.Stream.Event} {wait wait' : Bool} (hs : Ready engine)
    (busy : engine.handling = .polling frame named left max events wait)
    (busy' : engine'.handling = .polling frame named' left' max events' wait')
    (hsame : engine'.sessions = engine.sessions ∧ engine'.nextTransport = engine.nextTransport)
    (hlive : ∀ stream ∈ named' ++ left', engine'.streams stream ≠ none) : Ready engine' := by
  have hheld := held_same (notEnding_polling busy) (notEnding_polling busy') hsame.1
  refine ⟨?_, fun id held h _ => ?_, fun id held h => ?_, ?_⟩
  · intro frame session held write hending
    rw [busy'] at hending
    cases hending
  · exact hs.resting id held ((hheld id).symm.trans h) (by rw [busy]; exact fun heq => by cases heq)
  · rw [hsame.2]
    exact hs.numbered id held ((hheld id).symm.trans h)
  · rw [busy']
    exact hlive

variable [DecidableEq ρ] {seen : List Note}

theorem ready_change (h : Change host engine engine' seen) (hs : Ready engine) : Ready engine' := by
  have hapart := change_apart h hs.apart
  cases h with
  | quiet idle quiet plain =>
    exact ready_idle hs (notEnding_idle idle) rfl quiet.sessions quiet.nextTransport (none_about idle)
  | @created frame scope policy consumer provider idle =>
    refine ready_stepped hs hapart (held_stepped (notEnding_idle idle) (notEnding_idle rfl) rfl)
      (.inl (by rw [idle]; rfl)) (fun _ => rfl) ?_ (Nat.le_refl _) trivial
    exact Nat.le_add_left 1 _
  | verified idle => exact ready_idle hs (notEnding_idle idle) rfl rfl (Nat.le_add_right _ _) (none_about idle)
  | published idle => exact ready_idle hs (notEnding_idle idle) rfl rfl (Nat.le_refl _) (none_about idle)
  | recorded idle => exact ready_idle hs (notEnding_idle idle) rfl rfl (Nat.le_refl _) (none_about idle)
  | observed idle found plain => exact ready_idle hs (notEnding_idle idle) rfl rfl (Nat.le_refl _) (none_about idle)
  | shaped idle plain => exact ready_idle hs (notEnding_idle idle) rfl rfl (Nat.le_refl _) (none_about idle)
  | released idle =>
    exact ready_same hs (fun id held h => by cases h) (fun id held _ h => by cases h) (Nat.le_refl _) hapart trivial
  | @asked frame session held event system' number answer idle found step dispatch counted numbered plain =>
    have hbefore : engine.held session = some held := (held_table (notEnding_idle idle) _).trans found
    have hrest : held.system.dispatch = .idle := hs.resting session held hbefore (by rw [idle]; exact fun heq => by cases heq)
    exact ready_stepped hs hapart (held_stepped (notEnding_idle idle) (notEnding_idle rfl) rfl)
      (.inl (by rw [idle]; rfl)) (fun _ => dispatch.trans hrest) (numbered (hs.numbered session held hbefore)) counted trivial
  | @serving frame session handle variant held system' served idle found step =>
    obtain ⟨harms, hnext⟩ := serveVariant_arms step
    have hbefore : engine.held session = some held := (held_table (notEnding_idle idle) _).trans found
    refine ready_stepped hs hapart (held_stepped (notEnding_idle idle) (notEnding_serving rfl) rfl)
      (.inl (by rw [idle]; rfl)) (fun hnot => absurd rfl hnot) (hnext ▸ hs.numbered session held hbefore) (Nat.le_refl _) ?_
    exact ⟨{ held with system := system' }, (PMap.insert_apply ..).trans (if_pos rfl), harms⟩
  | @armed frame session handle variant held system' served busy found step =>
    have hnot : NotEnding engine := notEnding_serving busy
    obtain ⟨other, hother, harming⟩ := hs.handled_of busy
    obtain rfl := Option.some.inj (found.symm.trans hother)
    have harms : (system'.dispatch = .idle ∨ Arming system') ∧ system'.nextTransport = held.system.nextTransport := by
      obtain hidle | harming := harming
      · simp only [Session.Interleaving.step, hidle] at step
        cases step
      · obtain ⟨harms, hnext, -⟩ := arm_nearer step harming
        exact ⟨harms, hnext⟩
    have hbusy : (stepped engine session held system').handling = .serving frame session handle variant served := busy
    refine ready_stepped hs hapart (held_stepped hnot hnot rfl) (.inr (by rw [busy]; rfl))
      (fun hrest => absurd (by rw [hbusy]; rfl) hrest) ?_ (Nat.le_refl _) ?_
    · exact harms.2 ▸ hs.numbered session held ((held_table hnot _).trans found)
    · rw [hbusy]
      exact ⟨{ held with system := system' }, (PMap.insert_apply ..).trans (if_pos rfl), harms.1⟩
  | @served frame session handle variant held served answer busy found done plain =>
    have hnot : NotEnding engine := notEnding_serving busy
    obtain ⟨other, hother, harming⟩ := hs.handled_of busy
    refine ready_idle hs hnot rfl rfl (Nat.le_refl _) fun id mine hmine habout => ?_
    rw [busy] at habout
    obtain rfl : session = id := Option.some.inj habout
    obtain rfl := Option.some.inj (hmine.symm.trans hother)
    obtain rfl := Option.some.inj (found.symm.trans hother)
    refine harming.resolve_right fun harming => ?_
    obtain ⟨armed, waiting, hdispatch, -⟩ := harming
    exact done armed waiting hdispatch
  | @reporting frame session handle variant status reason held system' idle found allowed step =>
    obtain ⟨hsettling, hnext⟩ := reportVariant_settles allowed step
    have hbefore : engine.held session = some held := (held_table (notEnding_idle idle) _).trans found
    refine ready_stepped hs hapart (held_stepped (notEnding_idle idle) (notEnding_reporting rfl) rfl)
      (.inl (by rw [idle]; rfl)) (fun hnot => absurd rfl hnot) (hnext ▸ hs.numbered session held hbefore) (Nat.le_refl _) ?_
    exact ⟨{ held with system := system' }, (PMap.insert_apply ..).trans (if_pos rfl), hsettling⟩
  | @settled frame session handle variant held system' busy found step =>
    have hnot : NotEnding engine := notEnding_reporting busy
    obtain ⟨other, hother, hsettling⟩ := hs.handled_of busy
    obtain rfl := Option.some.inj (found.symm.trans hother)
    obtain ⟨hsettling, hnext, -⟩ := settle_nearer step hsettling
    have hbusy : (stepped engine session held system').handling = .reporting frame session handle variant := busy
    refine ready_stepped hs hapart (held_stepped hnot hnot rfl) (.inr (by rw [busy]; rfl))
      (fun hrest => absurd (by rw [hbusy]; rfl) hrest) ?_ (Nat.le_refl _) ?_
    · exact hnext ▸ hs.numbered session held ((held_table hnot _).trans found)
    · rw [hbusy]
      exact ⟨{ held with system := system' }, (PMap.insert_apply ..).trans (if_pos rfl), hsettling⟩
  | @reported frame session handle variant held system' answer busy found step plain =>
    have hnot : NotEnding engine := notEnding_reporting busy
    obtain ⟨hidle, hnext⟩ := answer_idle step
    exact ready_stepped hs hapart (held_stepped hnot (notEnding_idle rfl) rfl) (.inr (by rw [busy]; rfl)) (fun _ => hidle)
      (hnext ▸ hs.numbered session held ((held_table hnot _).trans found)) (Nat.le_refl _) trivial
  | @finalising frame session write held system' idle found step =>
    obtain ⟨hstopping, hnext⟩ := finalise_stops step
    have hbefore : engine.held session = some held := (held_table (notEnding_idle idle) _).trans found
    have hheld : ∀ id, ({ engine with
        sessions := engine.sessions.remove session
        handling := .finalising frame session { held with system := system' } write } : Engine ρ ω).held id =
        if id = session then some { held with system := system' } else engine.held id := by
      intro id
      rw [held_table (notEnding_idle idle)]
      by_cases hid : id = session <;> simp [Engine.held, hid, PMap.remove_apply]
    exact ready_stepped hs hapart hheld (.inl (by rw [idle]; rfl)) (fun hnot => absurd rfl hnot)
      (hnext ▸ hs.numbered session held hbefore) (Nat.le_refl _) hstopping
  | @drained frame session write held system' busy step =>
    obtain ⟨hstopping, hnext, -⟩ := drain_nearer step
    have hbefore : engine.held session = some held := by simp [Engine.held, busy]
    have hheld : ∀ id, ({ engine with
        handling := .finalising frame session { held with system := system' } write } : Engine ρ ω).held id =
        if id = session then some { held with system := system' } else engine.held id := by
      intro id
      by_cases hid : id = session <;> simp [Engine.held, busy, hid]
    exact ready_stepped hs hapart hheld (.inr (by rw [busy]; rfl)) (fun hnot => absurd rfl hnot)
      (hnext ▸ hs.numbered session held hbefore) (Nat.le_refl _) hstopping
  | @finalised frame session write held busy done =>
    have hnone := hs.apart _ _ _ _ busy
    have hne : ∀ id mine, engine.sessions id = some mine → id ≠ session := by
      rintro id mine hmine rfl
      cases hnone.symm.trans hmine
    refine ready_same hs (fun id mine hmine => ?_) (fun id mine _ hmine habout => ?_) (Nat.le_refl _) hapart trivial
    · have hid := hne id mine hmine
      rw [Engine.held, busy]
      exact (if_neg hid).trans hmine
    · rw [busy] at habout
      exact absurd (Option.some.inj habout).symm (hne id mine hmine)
  | @polling frame named max wait idle live =>
    have hheld : ∀ id, ({ engine with handling := .polling frame named named (pollMax max) [] wait } : Engine ρ ω).held id =
        engine.held id := held_same (notEnding_idle idle) (notEnding_polling rfl) rfl
    refine ready_same hs (fun id mine hmine => (hheld id).symm.trans hmine) (fun id mine hmine _ habout => ?_)
      (Nat.le_refl _) hapart ?_
    · exact none_about idle id mine ((held_table (notEnding_idle idle) id).symm.trans hmine) habout
    · intro stream hstream hnone
      have hlive := live stream ((List.mem_append.1 hstream).elim id id)
      rw [hnone] at hlive
      cases hlive
  | @pulled frame stream named left max events wait system busy room found =>
    have hhandled := hs.handled_of busy
    refine ready_polling hs busy rfl ⟨rfl, rfl⟩ fun other hother => (insert_live_iff found other).2 (hhandled other ?_)
    exact (List.mem_append.1 hother).elim (List.mem_append_left _)
      fun hleft => List.mem_append_right _ (List.mem_cons_of_mem _ hleft)
  | filled busy full =>
    have hhandled := hs.handled_of busy
    exact ready_polling hs busy rfl ⟨rfl, rfl⟩ fun other hother =>
      hhandled other (List.mem_append_left _ ((List.mem_append.1 hother).resolve_right List.not_mem_nil))
  | waited busy =>
    have hhandled := hs.handled_of busy
    exact ready_polling hs busy rfl ⟨rfl, rfl⟩ fun other hother =>
      hhandled other (List.mem_append_left _ ((List.mem_append.1 hother).elim id id))
  | polled busy =>
    refine ready_idle hs (notEnding_polling busy) rfl rfl (Nat.le_refl _) fun id mine _ habout => ?_
    rw [busy] at habout
    cases habout
  | @beside session held beside system' found step =>
    obtain ⟨hinstances, hdispatch, hnext⟩ := beside_same step
    have hheld := @held_put _ _ engine session
    refine ⟨hapart, fun id mine hmine hnot => ?_, fun id mine hmine => ?_, handled_put hinstances hdispatch found hs.handled⟩
    · rw [about_put] at hnot
      rw [hheld] at hmine
      split at hmine
      · rename_i heq
        subst heq
        obtain rfl := Option.some.inj hmine
        exact hdispatch.trans (hs.resting id held found hnot)
      · exact hs.resting id mine hmine hnot
    · rw [hheld] at hmine
      have hsame : (engine.put session { held with system := system' }).nextTransport = engine.nextTransport := by
        obtain ⟨sessions, handling, hput⟩ := put_eq engine session { held with system := system' }
        rw [hput]
      rw [hsame]
      split at hmine
      · obtain rfl := Option.some.inj hmine
        exact hnext ▸ hs.numbered session held found
      · exact hs.numbered id mine hmine
  | @produced stream produce system system' found step =>
    refine ⟨hapart, hs.resting, hs.numbered, ?_⟩
    have hhandled := hs.handled
    cases busy : engine.handling with
    | polling frame named left max events wait =>
      rw [busy] at hhandled
      exact fun other hother => (insert_live_iff found other).2 (hhandled other hother)
    | _ =>
      rw [busy] at hhandled
      exact hhandled

/-- How many steps the answer to the frame that is being answered is away. -/
def distance (engine : Engine ρ ω) : Nat :=
  match engine.handling with
  | .idle => 0
  | .serving _ session _ _ _ => 1 + (engine.sessions session).elim 0 fun held => left held.system
  | .reporting _ session _ _ => 1 + (engine.sessions session).elim 0 fun held => left held.system
  | .finalising _ _ held _ => 1 + left held.system
  | .polling _ named left _ _ wait => 1 + left.length + if wait then named.length + 1 else 0

omit [DecidableEq ρ] in
private theorem within_can {session : String} {held : Held} {event : Event} {system' : System Exercised}
    (hnot : NotEnding engine) (found : engine.sessions session = some held)
    (hstep : Session.Interleaving.step held.scope.world held.system event = some system') :
    engine.within session event = some (stepped engine session held system', noted session held event) := by
  rw [Engine.within, held_table hnot, found, Option.bind_some, hstep, Option.map_some, put_table hnot]
  rfl

/-- A frame that is being answered can be brought nearer to its answer. -/
theorem step_nearer (hs : Ready engine) (hbusy : engine.handling ≠ .idle) :
    ∃ act engine', takes act = [] ∧ step host engine act = some engine' ∧ distance engine' < distance engine := by
  cases busy : engine.handling with
  | idle => exact absurd busy hbusy
  | serving frame session handle variant served =>
    have hnot : NotEnding engine := notEnding_serving busy
    obtain ⟨held, found, hidle | harming⟩ := hs.handled_of busy
    · refine ⟨.advance, { engine with handling := .idle }, rfl, ?_, ?_⟩
      · simp [step, Engine.move, Engine.advance, busy, found, hidle, Engine.answer]
      · simp [distance, busy]
    · obtain ⟨system', hstep⟩ := @arm_can held.scope.world _ harming
      have hnearer := (arm_nearer hstep harming).2.2
      refine ⟨.advance, stepped engine session held system', rfl, ?_, ?_⟩
      · obtain ⟨armed, waiting, hdispatch, -⟩ := harming
        simp [step, Engine.move, Engine.advance, busy, found, hdispatch, within_can hnot found hstep]
      · simpa [distance, stepped, busy, found, PMap.insert_apply] using hnearer
  | reporting frame session handle variant =>
    have hnot : NotEnding engine := notEnding_reporting busy
    obtain ⟨held, found, hsettling⟩ := hs.handled_of busy
    obtain ⟨handle', variant', verdict, name, waiting, settled, late, hdispatch, system', hstep⟩ |
      ⟨⟨handle', variant', verdict, settled, late, hdispatch⟩, system', hstep⟩ := @settle_can held.scope.world _ hsettling
    · have hnearer := (settle_nearer hstep hsettling).2.2
      refine ⟨.advance, stepped engine session held system', rfl, ?_, ?_⟩
      · simp [step, Engine.move, Engine.advance, busy, found, hdispatch, within_can hnot found hstep]
      · simpa [distance, stepped, busy, found, PMap.insert_apply] using hnearer
    · refine ⟨.advance, { stepped engine session held system' with handling := .idle }, rfl, ?_, ?_⟩
      · simp [step, Engine.move, Engine.advance, busy, found, hdispatch, Engine.withinThen, within_can hnot found hstep,
          Engine.answer]
      · simp [distance, busy]
  | finalising frame session held write =>
    have hheld : engine.held session = some held := by simp [Engine.held, busy]
    have hwithin : ∀ event system', Session.Interleaving.step held.scope.world held.system event = some system' →
        engine.within session event =
          some ({ engine with handling := .finalising frame session { held with system := system' } write },
            noted session held event) := by
      intro event system' hstep
      rw [Engine.within, hheld, Option.bind_some, hstep, Option.map_some]
      simp [Engine.put, busy, noted]
    obtain hstopping | hdone := hs.handled_of busy
    · obtain ⟨system', hstep⟩ | ⟨name, system', hstep, hnearer⟩ := @drain_can held.scope.world _ hstopping
      · have hnearer := (drain_nearer hstep).2.2
        refine ⟨.advance, { engine with handling := .finalising frame session { held with system := system' } write }, rfl,
          ?_, ?_⟩
        · simp [step, Engine.move, Engine.advance, busy, hstopping, hwithin _ _ hstep]
        · simpa [distance, busy] using hnearer
      · refine ⟨.beside session (.ending name),
          { engine with handling := .finalising frame session { held with system := system' } write }, rfl, ?_, ?_⟩
        · simp [step, Engine.move, Beside.event, hwithin _ _ hstep]
        · simpa [distance, busy] using hnearer
    · refine ⟨.advance, { engine with handling := .idle }, rfl, ?_, ?_⟩
      · simp [step, Engine.move, Engine.advance, busy, hdone, Engine.answer]
      · simp [distance, busy]
  | polling frame named left max events wait =>
    have hhandled := hs.handled_of busy
    cases left with
    | cons stream left =>
      by_cases hfull : max ≤ events.length
      · refine ⟨.advance, { engine with handling := .polling frame named [] max events wait }, rfl, ?_, ?_⟩
        · simp [step, Engine.move, Engine.advance, busy, Engine.pollStep, hfull]
        · simp [distance, busy]
      · obtain ⟨system, hsystem⟩ := Option.ne_none_iff_exists'.1
          (hhandled stream (List.mem_append_right _ List.mem_cons_self))
        refine ⟨.advance, { engine with
          streams := engine.streams.insert stream { system with inner := system.inner.drain (max - events.length) }
          handling := .polling frame named left max
            (events ++ system.inner.pending.take (max - events.length)) wait }, rfl, ?_, ?_⟩
        · simp [step, Engine.move, Engine.advance, busy, Engine.pollStep, hfull, hsystem, Engine.stream, Events.Stream.step,
            Events.Stream.System.move]
        · simp [distance, busy]
    | nil =>
      by_cases hwait : (events.isEmpty && wait) = true
      · refine ⟨.advance, { engine with handling := .polling frame named named max [] false }, rfl, ?_, ?_⟩
        · simp [step, Engine.move, Engine.advance, busy, Engine.pollStep, hwait]
        · simp [distance, busy, (Bool.and_eq_true_iff.1 hwait).2]
      · refine ⟨.advance, { engine.prune with handling := .idle }, rfl, ?_, ?_⟩
        · simp [step, Engine.move, Engine.advance, busy, Engine.pollStep, hwait, Engine.answer]
        · simp [distance, busy]

/-! An engine that answers nothing takes any frame. -/

omit [DecidableEq ρ] in
private theorem withinThen_can {session : String} {held : Held} {event : Event} (idle : engine.handling = .idle)
    (found : engine.sessions session = some held)
    (hcan : ∃ system', Session.Interleaving.step held.scope.world held.system event = some system')
    (then' : Engine ρ ω → Engine ρ ω × List Note) : ∃ next, engine.withinThen session event then' = some next := by
  obtain ⟨system', hstep⟩ := hcan
  rw [Engine.withinThen, within_can (notEnding_idle idle) found hstep]
  exact ⟨_, rfl⟩

private theorem request_can {system : System Exercised} (hidle : system.dispatch = .idle)
    (session : ConsumerSession Exercised) : ∃ system', system.request session = some system' := by
  rw [Session.Interleaving.System.request, hidle]
  exact ⟨_, rfl⟩

private theorem addInteraction_steps {world : World} {system : System Exercised} (hidle : system.dispatch = .idle)
    (spec : InteractionSpec) (rawParts : List (String × Contracts.Model.ShapePart)) (converted : Option Converted) :
    ∃ system', Session.Interleaving.step world system (.addInteraction spec rawParts converted) = some system' :=
  request_can hidle _

private theorem refuse_steps {world : World} {system : System Exercised} (hidle : system.dispatch = .idle)
    (refusal : Data.Json.Json) : ∃ system', Session.Interleaving.step world system (.refuse refusal) = some system' :=
  request_can hidle _

private theorem variants_steps {world : World} {system : System Exercised} (hidle : system.dispatch = .idle)
    (handle : String) (selected : Selected) :
    ∃ system', Session.Interleaving.step world system (.variants handle selected) = some system' := request_can hidle _

private theorem serveVariant_can {world : World} {system : System Exercised} (hidle : system.dispatch = .idle)
    (handle variant : String) :
    ∃ system', Session.Interleaving.step world system (.serveVariant handle variant) = some system' := by
  have hresting : system.dispatch.isIdle = true := by rw [hidle]; rfl
  simp only [Session.Interleaving.step, Session.Interleaving.serve, hresting, if_true]
  split <;> exact ⟨_, rfl⟩

omit [DecidableEq ρ] in
private theorem addInteraction_can {frame session : String} {held : Held} {interaction : Data.Json.Json}
    {converted : InteractionSpec → List (String × Contracts.Model.ShapePart) → Option Converted}
    {findings : List Data.Json.Json} (idle : engine.handling = .idle) (found : engine.sessions session = some held)
    (hidle : held.system.dispatch = .idle) :
    ∃ next, engine.handleAddInteraction host frame session held interaction converted findings = some next := by
  rw [Engine.handleAddInteraction]
  split
  · exact withinThen_can idle found (addInteraction_steps hidle ..) _
  · exact withinThen_can idle found (refuse_steps hidle _) _

omit [DecidableEq ρ] in
private theorem naming_can {frame session : String} {f : Held → Option (Engine ρ ω × List Note)}
    (hf : ∀ held, engine.sessions session = some held → ∃ next, f held = some next) :
    ∃ next, engine.naming frame session f = some next := by
  rw [Engine.naming]
  split
  · exact ⟨_, rfl⟩
  · exact hf _ (by assumption)

omit [DecidableEq ρ] in
private theorem handle_can (hs : Ready engine) (idle : engine.handling = .idle) (frame : String) (request : Request) :
    ∃ next, engine.handle host frame request = some next := by
  have hrest : ∀ session held, engine.sessions session = some held → held.system.dispatch = .idle := by
    intro session held found
    refine hs.resting session held ((held_table (notEnding_idle idle) _).trans found) ?_
    rw [idle]
    exact fun heq => by cases heq
  cases request with
  | addInteraction session interaction =>
    exact naming_can fun held found => addInteraction_can idle found (hrest session held found)
  | addPactInteraction session pact =>
    refine naming_can fun held found => ?_
    rw [Engine.handleAddPactInteraction]
    split
    · exact addInteraction_can idle found (hrest session held found)
    · exact withinThen_can idle found (refuse_steps (hrest session held found) _) _
  | variants session handle policy =>
    refine naming_can fun held found => ?_
    rw [Engine.handleVariants]
    split
    · exact ⟨_, rfl⟩
    · split
      · exact ⟨_, rfl⟩
      · exact withinThen_can idle found (variants_steps (hrest session held found) ..) _
  | startTransport session transport options =>
    refine naming_can fun held found => ?_
    rw [Engine.handleStartTransport]
    split
    · exact ⟨_, rfl⟩
    · split
      · exact ⟨_, rfl⟩
      · dsimp only
        split
        · exact ⟨_, rfl⟩
        · exact ⟨_, rfl⟩
        · split
          · exact ⟨_, rfl⟩
          · refine @withinThen_can _ _ { engine with nextTransport := engine.nextTransport + 1 } session held _ idle found ?_ _
            have hnumber := hs.numbered session held ((held_table (notEnding_idle idle) _).trans found)
            rw [Session.Interleaving.step, if_pos ⟨by rw [hrest session held found]; rfl, hnumber⟩]
            exact ⟨_, rfl⟩
  | serveVariant session handle variant =>
    refine naming_can fun held found => ?_
    rw [Engine.handleServeVariant]
    exact withinThen_can idle found (serveVariant_can (hrest session held found) handle variant) _
  | reportVariant session handle variant status reason =>
    refine naming_can fun held found => ?_
    rw [Engine.handleReportVariant]
    split
    · exact ⟨_, rfl⟩
    · rename_i hallowed
      refine withinThen_can idle found ?_ _
      rw [Session.Interleaving.step, hallowed, hrest session held found]
      exact ⟨_, rfl⟩
  | finalise session write =>
    have hfinalise : ∀ held, engine.sessions session = some held → ∀ write',
        ∃ next, engine.handleFinalise frame session held write' = some next := by
      intro held found write'
      have hstep : ∃ system', Session.Interleaving.step held.scope.world held.system .finalise = some system' := by
        rw [Session.Interleaving.step, hrest session held found]
        exact ⟨_, rfl⟩
      obtain ⟨system', hstep⟩ := hstep
      simp [Engine.handleFinalise, Engine.within, Engine.held, hstep]
    rw [Engine.handle]
    split
    · exact ⟨_, rfl⟩
    · exact naming_can fun held found => hfinalise held found _
    · exact naming_can fun held found => hfinalise held found _
  | _ => exact ⟨_, rfl⟩

private theorem frame_can (hs : Ready engine) (idle : engine.handling = .idle) (frame : Frame) :
    ∃ engine', step host engine (.frame frame) = some engine' := by
  have hmove : ∃ next, engine.move host (.frame frame) = some next := by
    rw [Engine.move, idle]
    cases frame with
    | request id request =>
      rw [Handling.isIdle, if_pos rfl, Engine.dispatch]
      split
      · exact ⟨_, rfl⟩
      · split
        · exact ⟨_, rfl⟩
        · exact handle_can hs idle id request
    | _ => exact ⟨_, rfl⟩
  obtain ⟨next, hnext⟩ := hmove
  exact ⟨next.1, by rw [step, hnext, Option.map_some]⟩

theorem run_ready {acts : List (Act ρ)} (hs : Ready engine) (h : run (step host) engine acts = some engine') :
    Ready engine' := run_preserves (fun _ _ _ hs hstep => ready_change (step_change hstep) hs) hs h

/-- A dispatcher is never stuck: at any point of any run the frame being answered can be brought to its answer, by a
bounded number of its own steps and of transports' loops that end, and with no other frame; and then whatever frame comes
can be taken. -/
theorem never_stuck {acts : List (Act ρ)} (h : run (step host) Engine.new acts = some engine) :
    ∃ more engine', run (step host) engine more = some engine' ∧ more.flatMap takes = [] ∧ more.length ≤ distance engine ∧
      engine'.handling = .idle ∧ ∀ frame, ∃ engine'', step host engine' (.frame frame) = some engine'' := by
  have hnearer : ∀ engine : Engine ρ ω, Ready engine → ¬engine.handling = .idle → ∃ act engine', takes act = [] ∧
      step host engine act = some engine' ∧ Ready engine' ∧ distance engine' < distance engine := by
    intro engine hs hbusy
    obtain ⟨act, engine', hact, hstep, hlt⟩ := @step_nearer _ _ host _ _ hs hbusy
    exact ⟨act, engine', hact, hstep, ready_change (step_change hstep) hs, hlt⟩
  have hready : Ready engine := run_ready ready_new h
  obtain ⟨more, engine', hrun, hidle, hnone, hlength⟩ := run_progress distance hnearer hready
  exact ⟨more, engine', hrun, List.flatMap_eq_nil_iff.2 hnone, hlength, hidle, frame_can (run_ready hready hrun) hidle⟩

end Progress

/-- A poll that is being answered can be brought to its end. -/
theorem never_stuck_polled :
    ∃ engine : Engine Unit Unit, run (step hosted) Engine.new (polled.take 5) = some engine ∧
      underway engine.handling = ["3"] ∧ ∃ more engine', run (step hosted) engine more = some engine' ∧
        engine'.handling = .idle := by
  obtain ⟨engine, hrun, hbusy⟩ : ∃ engine : Engine Unit Unit,
      run (step hosted) Engine.new (polled.take 5) = some engine ∧ underway engine.handling = ["3"] := ⟨_, rfl, rfl⟩
  obtain ⟨more, engine', hmore, -, -, hidle, -⟩ := never_stuck hrun
  exact ⟨engine, hrun, hbusy, more, engine', hmore, hidle⟩

/-! An engine that is not open yet, or no longer. -/

section Closed

variable {ρ ω : Type}

/-- Nothing is held and nothing is being answered. -/
structure Bare (engine : Engine ρ ω) : Prop where
  handling : engine.handling = .idle
  sessions : engine.sessions = PMap.empty
  streams : engine.streams = PMap.empty
  verifications : engine.verifications = PMap.empty
  publications : engine.publications = PMap.empty
  recordings : engine.recordings = PMap.empty

/-- No hello was accepted yet, or the engine was shut down. -/
def Closed (engine : Engine ρ ω) : Prop := engine.helloDone = false ∨ engine.shutDown = true

/-- A frame of a closed engine is answered at once: with an error, or it is the hello that opens the engine. -/
def Refused (host : Host ω) (engine engine' : Engine ρ ω) (frame : Frame) (seen : List Note) : Prop :=
  ∃ answer, seen = [.answered (frameId frame) answer] ∧
    ((∃ error, answer = .error error) ∧ engine' = engine ∨
      engine.shutDown = false ∧ (∃ id versions capabilities, frame = .request id (.hello versions capabilities)) ∧
        answer = .ok (.hello (Engine.helloResult host)) ∧ Bare engine')

variable {host : Host ω} {engine engine' : Engine ρ ω} {seen : List Note}

private theorem answer_same (idle : engine.handling = .idle) (frame : String) (answer : Except EngineError Result) :
    engine.answer frame answer = (engine, [.answered frame answer]) := by
  rw [Engine.answer, ← idle]

private theorem closed_dispatch {frame : Frame} (hempty : Bare engine) (hclosed : Closed engine)
    (h : engine.dispatch host frame = some (engine', seen)) : Refused host engine engine' frame seen := by
  have hrefused : ∀ {id : String} {error : EngineError}, frameId frame = id →
      some (engine.answer id (.error error)) = some (engine', seen) → Refused host engine engine' frame seen := by
    intro id error hid heq
    rw [answer_same hempty.handling] at heq
    obtain ⟨rfl, rfl⟩ := Prod.mk.inj (Option.some.inj heq)
    exact ⟨.error error, by rw [hid], .inl ⟨⟨error, rfl⟩, rfl⟩⟩
  cases frame with
  | request id request =>
    rw [Engine.dispatch] at h
    split at h
    · exact hrefused rfl h
    · rename_i hopen
      have hshut : engine.shutDown = false := Bool.eq_false_iff.2 hopen
      have hhello : engine.helloDone = false := hclosed.resolve_right hopen
      split at h
      · exact hrefused rfl h
      · rename_i hgate
        rw [hhello] at hgate
        cases request with
        | hello versions capabilities =>
          by_cases hversion : protocolVersion ∈ versions
          · simp only [Engine.handle, Engine.handleHello, if_pos hversion] at h
            obtain ⟨rfl, rfl⟩ := Prod.mk.inj (Option.some.inj h)
            refine ⟨_, rfl, .inr ⟨hshut, ⟨id, versions, capabilities, rfl⟩, rfl, ?_⟩⟩
            exact ⟨rfl, hempty.sessions, hempty.streams, hempty.verifications, hempty.publications, hempty.recordings⟩
          · simp only [Engine.handle, Engine.handleHello, if_neg hversion] at h
            exact hrefused rfl h
        | malformed op message => exact hrefused rfl h
        | _ => exact absurd rfl hgate
  | notJson message => exact hrefused rfl h
  | notRequest id => exact hrefused rfl h
  | unreadable id message => exact hrefused rfl h

variable [DecidableEq ρ]

private theorem closed_move {act : Act ρ} (hempty : Bare engine) (hclosed : Closed engine)
    (h : engine.move host act = some (engine', seen)) :
    ∃ frame, act = .frame frame ∧ Refused host engine engine' frame seen := by
  cases act with
  | frame frame =>
    rw [Engine.move, hempty.handling] at h
    exact ⟨frame, rfl, closed_dispatch hempty hclosed h⟩
  | advance =>
    rw [Engine.move, Engine.advance, hempty.handling] at h
    cases h
  | beside session beside =>
    obtain ⟨held, -, hheld, -⟩ := within_some h
    rw [held_table (notEnding_idle hempty.handling), hempty.sessions] at hheld
    cases hheld
  | produce stream produce =>
    obtain ⟨system, hsystem, -⟩ := Option.bind_eq_some_iff.1 h
    rw [hempty.streams] at hsystem
    cases hsystem

private theorem change_empty (h : Change host engine engine' seen) (hopen : ¬Closed engine) (hclosed : Closed engine') :
    Bare engine' := by
  rw [Closed, not_or, Bool.not_eq_false, Bool.not_eq_true] at hopen
  obtain ⟨hhello, hshut⟩ := hopen
  cases h with
  | quiet idle quiet plain =>
    obtain hnone | hdone := hclosed
    · cases (quiet.helloDone hhello).symm.trans hnone
    · cases hshut.symm.trans (quiet.shutDown.symm.trans hdone)
  | released idle => exact ⟨rfl, rfl, rfl, rfl, rfl, rfl⟩
  | @beside session held beside system' found step =>
    obtain ⟨sessions, handling, hput⟩ := put_eq engine session { held with system := system' }
    rw [hput] at hclosed
    obtain hnone | hdone := hclosed
    · cases hhello.symm.trans hnone
    · cases hshut.symm.trans hdone
  | _ =>
    obtain hnone | hdone := hclosed
    · cases hhello.symm.trans hnone
    · cases hshut.symm.trans hdone

/-- Along every run an engine that no hello has opened yet, or that was shut down, holds nothing; all that can happen to it
is that it takes a frame, which it answers at once, with an error that leaves it as it was, or for the hello that opens it. -/
theorem closed_holds_nothing {acts : List (Act ρ)} (h : run (step host) Engine.new acts = some engine)
    (hclosed : Closed engine) : (∀ kind id, ¬Live engine kind id) ∧ ∀ act engine', step host engine act = some engine' →
      ∃ frame, act = .frame frame ∧ Refused host engine engine' frame (notes host engine act) := by
  have hempty : Closed engine → Bare engine := by
    refine run_preserves (I := fun engine : Engine ρ ω => Closed engine → Bare engine) (fun s act t hs hstep hclosed' => ?_)
      (fun _ => ⟨rfl, rfl, rfl, rfl, rfl, rfl⟩) h
    by_cases hbefore : Closed s
    · obtain ⟨⟨t', seen⟩, hmove, rfl⟩ := Option.map_eq_some_iff.1 hstep
      obtain ⟨frame, -, answer, -, ⟨-, rfl⟩ | ⟨-, -, -, hafter⟩⟩ := closed_move (hs hbefore) hbefore hmove
      · exact hs hbefore
      · exact hafter
    · exact change_empty (step_change hstep) hbefore hclosed'
  have hnothing := hempty hclosed
  refine ⟨fun kind id hlive => ?_, fun act engine' hstep => ?_⟩
  · cases kind with
    | session =>
      have hnone : engine.sessions id = none := congrFun hnothing.sessions id
      exact hlive ((held_table (notEnding_idle hnothing.handling) id).trans hnone)
    | verification => exact hlive (congrFun hnothing.verifications id)
    | recording => exact hlive (congrFun hnothing.recordings id)
    | publication => exact hlive (congrFun hnothing.publications id)
    | stream => exact hlive (congrFun hnothing.streams id)
  · obtain ⟨⟨t', seen⟩, hmove, rfl⟩ := Option.map_eq_some_iff.1 hstep
    have hnotes : notes host engine act = seen := by rw [notes, hmove]; rfl
    rw [hnotes]
    exact closed_move hnothing hclosed hmove

end Closed

def shutting : List (Act Unit) := [greeting, .frame (.request "2" (.verify .null)), .frame (.request "3" .shutdown)]

theorem closed_holds_nothing_shut :
    ∃ engine : Engine Unit Unit, run (step hosted) Engine.new shutting = some engine ∧ "s-1" ∈
      given (log (step hosted) (notes hosted) (Engine.new : Engine Unit Unit) shutting) ∧ ¬Live engine .stream "s-1" := by
  obtain ⟨engine, hrun, hshut, hgiven⟩ : ∃ engine : Engine Unit Unit,
      run (step hosted) Engine.new shutting = some engine ∧ engine.shutDown = true ∧
        given (log (step hosted) (notes hosted) (Engine.new : Engine Unit Unit) shutting) = ["vs-1", "s-1"] :=
    ⟨_, rfl, rfl, rfl⟩
  refine ⟨engine, hrun, ?_, (closed_holds_nothing hrun (.inr hshut)).1 .stream "s-1"⟩
  rw [hgiven]
  exact List.mem_cons_of_mem _ List.mem_cons_self

end PactJanus.Protocol.Frames
