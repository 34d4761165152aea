import PactJanus.Protocol.Lifetimes
import PactJanus.Session.Finalised

namespace PactJanus.Protocol.Sessions

open PactJanus.Lib.Machine PactJanus.Session.Exchange PactJanus.Session.Model PactJanus.Protocol.Dispatcher
open PactJanus.Protocol.Changes PactJanus.Protocol.Lifetimes
open PactJanus.Session.Interleaving (System Event)

/-! Each consumer session of an engine runs as if it were alone. -/

/-- A session as the engine holds it, by itself. -/
def heldStep (held : Held) (event : Event) : Option Held :=
  (Session.Interleaving.step held.scope.world held.system event).map fun system => { held with system := system }

def heldNotes (held : Held) (event : Event) : List Session.Interleaving.Note :=
  Session.Interleaving.notes held.scope.world held.system event

/-- A session that was just created. -/
def Created (held : Held) : Prop := ∃ consumer provider required, held.system = .start consumer provider required

/-- A session's scope and policy are those it was created with. -/
theorem run_held (scope : SessionScope) (policy : Option Data.Json.Json) (system : System Exercised)
    (events : List Event) :
    run heldStep ⟨scope, policy, system⟩ events =
      (run (Session.Interleaving.step scope.world) system events).map fun system => ⟨scope, policy, system⟩ :=
  run_map (f := fun system => (⟨scope, policy, system⟩ : Held)) (fun _ _ => rfl) system events

theorem log_held (scope : SessionScope) (policy : Option Data.Json.Json) (system : System Exercised)
    (events : List Event) :
    log heldStep heldNotes ⟨scope, policy, system⟩ events =
      log (Session.Interleaving.step scope.world) (Session.Interleaving.notes scope.world) system events :=
  log_map (f := fun system => (⟨scope, policy, system⟩ : Held)) (fun _ _ => rfl) (fun _ _ => rfl) system events

private theorem run_created {first held : Held} {events : List Event} (hcreated : Created first)
    (h : run heldStep first events = some held) : ∃ consumer provider required,
      run (Session.Interleaving.step held.scope.world) (System.start consumer provider required) events = some held.system ∧
        log (Session.Interleaving.step held.scope.world) (Session.Interleaving.notes held.scope.world)
            (System.start consumer provider required : System Exercised) events = log heldStep heldNotes first events := by
  obtain ⟨scope, policy, system⟩ := first
  obtain ⟨consumer, provider, required, rfl⟩ := hcreated
  rw [run_held] at h
  rw [log_held]
  obtain ⟨system', hrun, rfl⟩ := Option.map_eq_some_iff.1 h
  exact ⟨consumer, provider, required, hrun, rfl⟩

section Runs

variable {ρ ω : Type} [DecidableEq ρ] {host : Host ω} {engine engine' : Engine ρ ω}

theorem session_part (host : Host ω) (id : String) :
    Part (step host) (notes host) heldStep heldNotes (fun engine : Engine ρ ω => engine.held id) (ofSession id) Placed
      (Unborn .session id) Created where
  keeps hplaced hstep := placed_change (step_change hstep) hplaced
  unborn {engine act engine'} hplaced hstep hunborn := by
    have hbefore := unborn_change (step_change hstep) hunborn
    have hnone : engine.held id = none := by_contra (unborn_not_live hplaced hbefore)
    refine ⟨hbefore, ?_⟩
    cases session_fate (step_change hstep) hplaced.apart id with
    | kept same quiet => exact quiet
    | stepped held event system' found step after noted => cases found.symm.trans hnone
    | gone after quiet => exact quiet
    | begun scope policy consumer provider new after quiet answer => exact quiet
  begins {engine act engine' held} hplaced hstep hnone hsome := by
    cases session_fate (step_change hstep) hplaced.apart id with
    | kept same quiet => cases hsome.symm.trans (same.trans hnone)
    | stepped held event system' found step after noted => cases found.symm.trans hnone
    | gone after quiet => cases after.symm.trans hsome
    | begun scope policy consumer provider new after quiet answer =>
      obtain rfl := Option.some.inj (after.symm.trans hsome)
      subst new
      exact ⟨unborn_next .session, quiet, consumer, provider, engine.testVerdicts, rfl⟩
  goes {engine act engine' held held'} hplaced hstep hbefore hafter := by
    cases session_fate (step_change hstep) hplaced.apart id with
    | kept same quiet =>
      obtain rfl := Option.some.inj (hbefore.symm.trans (same.symm.trans hafter))
      exact ⟨[], rfl, quiet.symm⟩
    | stepped other event system' found step after noted =>
      obtain rfl := Option.some.inj (hbefore.symm.trans found)
      obtain rfl := Option.some.inj (after.symm.trans hafter)
      refine ⟨[event], ?_, ?_⟩
      · simp [run, heldStep, step]
      · rw [noted]
        simp [log, heldNotes, heldStep, step]
    | gone after quiet => cases after.symm.trans hafter
    | begun scope policy consumer provider new after quiet answer =>
      have hlive : Live engine .session id := fun hnone => by cases hbefore.symm.trans hnone
      subst new
      exact absurd hlive (unborn_not_live hplaced (unborn_next .session))

variable {acts : List (Act ρ)}

/-- All along a run of an engine each of its consumer sessions, in its table or in the hands of the frame that ends it,
is where a run of its own takes it from its start, noted for what the engine is noted for of it. -/
theorem session_runs (h : run (step host) Engine.new acts = some engine) {id : String} {held : Held}
    (hheld : engine.held id = some held) :
    ∃ consumer provider required events,
      run (Session.Interleaving.step held.scope.world) (System.start consumer provider required) events =
          some held.system ∧
        log (Session.Interleaving.step held.scope.world) (Session.Interleaving.notes held.scope.world)
            (System.start consumer provider required : System Exercised) events =
          (log (step host) (notes host) Engine.new acts).filterMap (ofSession id) := by
  obtain ⟨first, events, hcreated, hrun, hlog⟩ :=
    run_part (session_part host id) ⟨placed_new, unborn_new .session id, rfl⟩ h hheld
  obtain ⟨consumer, provider, required, hsystem, hsame⟩ := run_created hcreated hrun
  exact ⟨consumer, provider, required, events, hsystem, hsame.trans hlog⟩

/-- Nothing more is noted of a session that is over. -/
theorem run_silent {id : String} {more : List (Act ρ)} (hplaced : Placed engine) (hid : Issued engine id)
    (hgone : engine.held id = none) (h : run (step host) engine more = some engine') :
    (log (step host) (notes host) engine more).filterMap (ofSession id) = [] := by
  refine (run_invariant (I := fun engine seen => (Placed engine ∧ Issued engine id ∧ engine.held id = none) ∧
    seen.filterMap (ofSession id) = []) ⟨⟨hplaced, hid, hgone⟩, rfl⟩ (fun s act t seen hs hstep => ?_) h).2
  obtain ⟨⟨hplaced, hid, hgone⟩, hquiet⟩ := hs
  have hchange := step_change hstep
  have hstays : t.held id = none := by
    by_contra hlive
    have hthere : Live t .session id := hlive
    obtain hlive | ⟨rfl, -⟩ := change_live hchange hplaced.apart hthere
    · exact hlive hgone
    · exact not_issued_next .session hid
  refine ⟨⟨placed_change hchange hplaced, change_issued hchange hid, hstays⟩, ?_⟩
  rw [List.filterMap_append, hquiet, List.nil_append]
  cases session_fate hchange hplaced.apart id with
  | kept same quiet => exact quiet
  | stepped held event system' found step after noted => cases found.symm.trans hgone
  | gone after quiet => exact quiet
  | begun scope policy consumer provider new after quiet answer => exact quiet

end Runs

/-! What the end of a session is answered with. -/

section Answers

variable {ρ ω : Type} {host : Host ω} {engine engine' : Engine ρ ω} {held : Held}
  {write : Option (String × Contracts.Files.Mode)} {outcome : Outcome} {answered : List InteractionResult}
  {refused : Option (List Data.Json.Json)}

/-- The answer that ends a session says what its session came to, with a contract where there is one. -/
theorem finaliseAnswer_ok (h : engine.finaliseAnswer host held write = .ok (.finalised answered outcome refused)) :
    answered = results held.system.session ∧
      refused = (if held.system.session.verdictsRequired then some held.system.session.refused else none) ∧
      (outcome = .withheld ∧ contract held.scope.world held.system.session = .ok none ∨
        outcome ≠ .withheld ∧ ∃ written, contract held.scope.world held.system.session = .ok (some written)) := by
  rw [Engine.finaliseAnswer] at h
  split at h
  · cases h
  · split at h
    · cases h
    · rename_i hnone
      cases h
      exact ⟨rfl, rfl, .inl ⟨rfl, hnone⟩⟩
    · rename_i written hwritten
      split at h
      · rename_i path mode update _ _
        cases hupdate : update path fun existing => Contracts.Files.nextBytes host.read path existing written mode with
        | error error =>
          rw [hupdate] at h
          cases h
        | ok done =>
          rw [hupdate] at h
          cases h
          exact ⟨rfl, rfl, .inr ⟨fun heq => (by cases heq), written, hwritten⟩⟩
      · split at h
        · cases h
          exact ⟨rfl, rfl, .inr ⟨fun heq => (by cases heq), written, hwritten⟩⟩
        · cases h
          exact ⟨rfl, rfl, .inr ⟨fun heq => (by cases heq), written, hwritten⟩⟩

variable [DecidableEq ρ]

/-- Only the end of a session is answered with results. -/
theorem change_finalised {frame : String} {seen : List Note} (h : Change host engine engine' seen)
    (hmem : .answered frame (.ok (.finalised answered outcome refused)) ∈ seen) :
    ∃ id held write, engine.handling = .finalising frame id held write ∧ held.system.dispatch = .finalised ∧
      engine' = { engine with handling := .idle } ∧ seen = [.answered frame (engine.finaliseAnswer host held write)] ∧
      engine.finaliseAnswer host held write = .ok (.finalised answered outcome refused) := by
  have hplain : ∀ {frame' : String} {answer : Except Contracts.Files.EngineError Result}, isPlain answer = true →
      Note.answered frame (.ok (.finalised answered outcome refused)) ≠ .answered frame' answer := by
    intro frame' answer hplain heq
    obtain ⟨-, rfl⟩ := Note.answered.inj heq
    cases hplain
  cases h with
  | quiet idle quiet plain => exact absurd (List.mem_singleton.1 hmem) (hplain plain)
  | observed idle found plain => exact absurd (List.mem_singleton.1 hmem) (hplain plain)
  | shaped idle plain => exact absurd (List.mem_singleton.1 hmem) (hplain plain)
  | asked idle found step dispatch counted numbered plain =>
    obtain hmem | hmem := List.mem_append.1 hmem
    · obtain ⟨note, -, heq⟩ := List.mem_map.1 hmem
      cases heq
    · exact absurd (List.mem_singleton.1 hmem) (hplain plain)
  | served busy found done plain => exact absurd (List.mem_singleton.1 hmem) (hplain plain)
  | reported busy found step plain => exact absurd (List.mem_singleton.1 hmem) (hplain plain)
  | finalised busy done =>
    obtain ⟨rfl, hanswer⟩ := Note.answered.inj (List.mem_singleton.1 hmem)
    exact ⟨_, _, _, busy, done, rfl, rfl, hanswer.symm⟩
  | pulled busy room found =>
    obtain ⟨note, -, heq⟩ := List.mem_map.1 hmem
    cases heq
  | beside found step =>
    obtain ⟨note, -, heq⟩ := List.mem_map.1 hmem
    cases heq
  | produced found step =>
    obtain ⟨note, -, heq⟩ := List.mem_map.1 hmem
    cases heq
  | released idle =>
    cases List.mem_singleton.1 hmem
  | created idle => cases List.mem_singleton.1 hmem
  | verified idle => cases List.mem_singleton.1 hmem
  | published idle => cases List.mem_singleton.1 hmem
  | recorded idle => cases List.mem_singleton.1 hmem
  | polled busy => cases List.mem_singleton.1 hmem
  | _ => exact absurd hmem List.not_mem_nil

/-- At some point of a run a frame was answered with the end of a session, whose transports had all stopped. -/
def Finalised (host : Host ω) (acts : List (Act ρ)) (frame id : String) (held : Held)
    (write : Option (String × Contracts.Files.Mode)) : Prop :=
  ∃ before after engine, acts = before ++ .advance :: after ∧ run (step host) Engine.new before = some engine ∧
    engine.handling = .finalising frame id held write ∧ held.system.dispatch = .finalised

private theorem answered_advance {act : Act ρ} {frame : String} {answer : Except Contracts.Files.EngineError Result}
    (hbusy : engine.handling.isIdle = false) (h : .answered frame answer ∈ notes host engine act) : act = .advance := by
  cases act with
  | frame frame' => simp [notes, Engine.move, hbusy] at h
  | advance => rfl
  | beside session beside =>
    rw [notes, Engine.move] at h
    cases hwithin : engine.within session beside.event with
    | none =>
      rw [hwithin] at h
      exact absurd h List.not_mem_nil
    | some next =>
      obtain ⟨held, system', -, -, -, hseen⟩ := within_some hwithin
      rw [hwithin, Option.elim_some, hseen] at h
      obtain ⟨note, -, heq⟩ := List.mem_map.1 h
      cases heq
  | produce stream produce =>
    rw [notes, Engine.move, Engine.stream] at h
    cases hfound : engine.streams stream with
    | none =>
      rw [hfound] at h
      exact absurd h List.not_mem_nil
    | some system =>
      cases hstep : Events.Stream.step host.observe system produce.act with
      | none =>
        rw [hfound, Option.bind_some, hstep] at h
        exact absurd h List.not_mem_nil
      | some system' =>
        rw [hfound, Option.bind_some, hstep] at h
        obtain ⟨note, -, heq⟩ := List.mem_map.1 h
        cases heq

variable {acts : List (Act ρ)} {frame id : String}

/-- Results are only answered where a session ends. -/
theorem answered_finalised
    (hmem : .answered frame (.ok (.finalised answered outcome refused)) ∈ log (step host) (notes host) Engine.new acts) :
    ∃ engine : Engine ρ ω, ∃ id held write, Finalised host acts frame id held write ∧
      engine.finaliseAnswer host held write = .ok (.finalised answered outcome refused) := by
  obtain ⟨before, act, after, mid, rfl, hrun, hnote⟩ := mem_log hmem
  cases hmove : mid.move host act with
  | none =>
    rw [notes, hmove] at hnote
    exact absurd hnote List.not_mem_nil
  | some next =>
    have hchange := move_change hmove
    have hseen : .answered frame (.ok (.finalised answered outcome refused)) ∈ next.2 := by rwa [notes, hmove] at hnote
    obtain ⟨id, held, write, hbusy, hdone, -, -, hanswer⟩ := change_finalised hchange hseen
    obtain rfl := answered_advance (by rw [hbusy]; rfl) hnote
    exact ⟨mid, id, held, write, ⟨before, after, mid, rfl, hrun, hbusy, hdone⟩, hanswer⟩

/-- A session that ended is where a run of its own took it, noted for what the engine is noted for of it till the end. -/
theorem finalised_runs (h : run (step host) Engine.new acts = some engine) (hend : Finalised host acts frame id held write) :
    held.system.dispatch = .finalised ∧ ∃ consumer provider required events,
      run (Session.Interleaving.step held.scope.world) (System.start consumer provider required) events =
          some held.system ∧
        log (Session.Interleaving.step held.scope.world) (Session.Interleaving.notes held.scope.world)
            (System.start consumer provider required : System Exercised) events =
          (log (step host) (notes host) Engine.new acts).filterMap (ofSession id) := by
  obtain ⟨before, after, mid, rfl, hbefore, hbusy, hdone⟩ := hend
  have hheld : mid.held id = some held := by simp [Engine.held, hbusy]
  have hmove : mid.move host .advance =
      some ({ mid with handling := .idle }, [.answered frame (mid.finaliseAnswer host held write)]) := by
    simp [Engine.move, Engine.advance, Engine.answer, hbusy, hdone]
  obtain ⟨first, events, hcreated, hrun, hlog⟩ :=
    run_part (session_part host id) ⟨placed_new, unborn_new .session id, rfl⟩ hbefore hheld
  obtain ⟨consumer, provider, required, hsystem, hsame⟩ := run_created hcreated hrun
  refine ⟨hdone, consumer, provider, required, events, hsystem, (hsame.trans hlog).trans ?_⟩
  have hsound := run_sound hbefore
  rw [run_append, hbefore, Option.bind_some, run, step, hmove, Option.map_some, Option.bind_some] at h
  have hchange := move_change hmove
  have hgone : ({ mid with handling := .idle } : Engine ρ ω).held id = none := hsound.apart _ _ _ _ hbusy
  have hissued := change_issued hchange (hsound.issued id (hsound.given .session id (by simp [Live, hheld])))
  rw [log_append _ hbefore, List.filterMap_append, log, step, notes, hmove]
  simp only [Option.elim_some, Option.map_some, List.filterMap_append]
  rw [run_silent (placed_change hchange hsound.toPlaced) hissued hgone h, List.append_nil]
  exact (List.append_nil _).symm

private theorem status_evidence {session : ConsumerSession Exercised} {entry : InteractionEntry Exercised} {variant : String}
    {settled : List Exercised}
    (h : (entry.exercised variant = none ↔ settled = []) ∧ ∀ e ∈ entry.exercised variant,
      (e.outcome = .failed ↔ ∃ x ∈ settled, x.outcome = .failed) ∧
        e.mismatches.Perm (settled.flatMap Exercised.mismatches)) :
    (variantResult session entry variant).mismatches.Perm (settled.flatMap Exercised.mismatches) ∧
      ((∃ x ∈ settled, x.outcome = .failed) → variantStatus session entry variant = .failed) ∧
      (variantStatus session entry variant = .verified → settled ≠ [] ∧ ∀ x ∈ settled, x.outcome = .verified) := by
  obtain ⟨hempty, hsome⟩ := h
  cases hexercised : entry.exercised variant with
  | none =>
    obtain rfl := hempty.1 hexercised
    refine ⟨?_, fun hfailed => ?_, fun hverified => ?_⟩
    · exact List.Perm.of_eq (by simp [variantResult, hexercised])
    · obtain ⟨x, hx, -⟩ := hfailed
      exact absurd hx List.not_mem_nil
    · obtain ⟨-, hnone, -⟩ := Session.Finalised.variantStatus_verified_iff.1 hverified
      rw [hexercised] at hnone
      cases hnone
  | some e =>
    obtain ⟨hfailed, hmismatches⟩ := hsome e hexercised
    refine ⟨?_, fun hexists => ?_, fun hverified => ⟨fun hnil => ?_, fun x hx => ?_⟩⟩
    · have hlist : (variantResult session entry variant).mismatches = e.mismatches := by simp [variantResult, hexercised]
      rw [hlist]
      exact hmismatches
    · unfold variantStatus
      simp only [hexercised, Option.map_some, hfailed.2 hexists]
      split <;> rfl
    · rw [hempty.2 hnil] at hexercised
      cases hexercised
    · obtain ⟨-, houtcome, -⟩ := Session.Finalised.variantStatus_verified_iff.1 hverified
      rw [hexercised, Option.map_some] at houtcome
      cases hx' : x.outcome with
      | verified => rfl
      | failed =>
        rw [hfailed.2 ⟨x, hx, hx'⟩] at houtcome
        cases houtcome

variable (host acts) in
/-- The exchanges of a variant of a session that a run is over with. -/
def carried (id : String) (key : Session.Exchange.Key) : List Exercised :=
  Session.Custody.settledOf ((log (step host) (notes host) Engine.new acts).filterMap (ofSession id)) key

/-- The answer to the end of a session comes with a contract exactly where each of its results says verified and no
refused interaction stands against it. -/
theorem contract_answered (h : run (step host) Engine.new acts = some engine)
    (hmem : .answered frame (.ok (.finalised answered outcome refused)) ∈ log (step host) (notes host) Engine.new acts) :
    outcome ≠ .withheld ↔
      (∀ result ∈ answered, result.status = .verified) ∧ ∀ refusals ∈ refused, refusals = [] := by
  obtain ⟨mid, id, held, write, hend, hanswer⟩ := answered_finalised hmem
  obtain ⟨-, consumer, provider, required, events, hrun, -⟩ := finalised_runs h hend
  obtain ⟨rfl, rfl, houtcome⟩ := finaliseAnswer_ok hanswer
  have hagree := Session.Finalised.contract_given_iff hrun
  have hwithheld : withheld held.system.session = false ↔ ∀ refusals ∈
      (if held.system.session.verdictsRequired then some held.system.session.refused else none), refusals = [] := by
    cases hrequired : held.system.session.verdictsRequired <;> simp [withheld, hrequired]
  rw [← hwithheld, and_comm, ← hagree]
  obtain ⟨rfl, hnone⟩ | ⟨hne, written, hwritten⟩ := houtcome
  · exact iff_of_false (fun hne => hne rfl) fun hne => hne hnone
  · refine iff_of_true hne ?_
    rw [hwritten]
    exact fun heq => by cases heq

/-- What the end of a session is answered with is what its transports carried out, whatever went on beside it: each
result of an interaction they carry lists the mismatches of its exchanges, says failed where one failed, and verified
only where there was one. -/
theorem results_answered (h : run (step host) Engine.new acts = some engine)
    (hmem : .answered frame (.ok (.finalised answered outcome refused)) ∈ log (step host) (notes host) Engine.new acts) :
    ∃ id held write, Finalised host acts frame id held write ∧ answered = results held.system.session ∧
      ∀ handle ∈ held.system.session.order, ∃ entry, held.system.session.interactions handle = some entry ∧
        interactionResult held.system.session handle entry ∈ answered ∧
        (emissiveKind entry.spec = none → ∀ variant,
          (variantResult held.system.session entry variant).mismatches.Perm
              ((carried host acts id (handle, variant)).flatMap Exercised.mismatches) ∧
            ((∃ x ∈ carried host acts id (handle, variant), x.outcome = .failed) →
              variantStatus held.system.session entry variant = .failed) ∧
            (variantStatus held.system.session entry variant = .verified →
              carried host acts id (handle, variant) ≠ [] ∧
                ∀ x ∈ carried host acts id (handle, variant), x.outcome = .verified)) := by
  obtain ⟨mid, id, held, write, hend, hanswer⟩ := answered_finalised hmem
  obtain ⟨hdone, consumer, provider, required, events, hrun, hlog⟩ := finalised_runs h hend
  obtain ⟨rfl, -, -⟩ := finaliseAnswer_ok hanswer
  refine ⟨id, held, write, hend, rfl, fun handle hhandle => ?_⟩
  obtain ⟨entry, hentry⟩ := Option.isSome_iff_exists.1 (Session.Finalised.run_ordered hrun handle hhandle)
  refine ⟨entry, hentry, ?_, fun hpassive variant => ?_⟩
  · exact List.mem_filterMap.2 ⟨handle, hhandle, by rw [hentry, Option.map_some]⟩
  have hevidence := Session.Finalised.finalised_evidence hrun hdone hentry hpassive variant
  rw [Session.Finalised.settledBy, hlog] at hevidence
  exact status_evidence hevidence

end Answers

/-! A session from its start to its end, a frame at a time. -/

def asking (n : Nat) (request : Request) : Act Unit := .frame (.request n.repr request)

def exercising : List (Act Unit) :=
  [greeting, asking 2 (.create ⟨⟨"web"⟩, ⟨"orders"⟩, none, []⟩), asking 3 (.addInteraction "cs-1" .null),
    asking 4 (.variants "cs-1" "i-1" none), asking 5 (.startTransport "cs-1" "http" none),
    asking 6 (.serveVariant "cs-1" "i-1" "base"), .advance, .advance, .advance, .beside "cs-1" (.arrival "t-1" []),
    .beside "cs-1" (.delivery "t-1" none), asking 7 (.reportVariant "cs-1" "i-1" "base" "passed" none), .advance, .advance]

def ending : List (Act Unit) :=
  [asking 8 (.finalise "cs-1" none), .beside "cs-1" (.ending "t-1"), .advance, .advance, .advance]

theorem session_runs_exercising :
    ∃ (engine : Engine Unit Unit) (held : Held), run (step hosted) Engine.new exercising = some engine ∧
      engine.held "cs-1" = some held ∧ ∃ consumer provider required events,
        run (Session.Interleaving.step held.scope.world) (System.start consumer provider required) events =
          some held.system := by
  have hrun : ((run (step hosted) (Engine.new : Engine Unit Unit) exercising).bind fun engine => engine.held "cs-1").isSome =
      true := by decide +kernel
  obtain ⟨held, hbind⟩ := Option.isSome_iff_exists.1 hrun
  obtain ⟨engine, hengine, hheld⟩ := Option.bind_eq_some_iff.1 hbind
  obtain ⟨consumer, provider, required, events, hsystem, -⟩ := session_runs hengine hheld
  exact ⟨engine, held, hengine, hheld, consumer, provider, required, events, hsystem⟩

def hasContract : Note → Bool
  | .answered _ (.ok (.finalised _ (.contract _) _)) => true
  | _ => false

private theorem hasContract_some {note : Note} (h : hasContract note = true) :
    ∃ frame answered written refused, note = .answered frame (.ok (.finalised answered (.contract written) refused)) := by
  unfold hasContract at h
  split at h
  · exact ⟨_, _, _, _, rfl⟩
  · cases h

private theorem contract_exercising :
    ∃ (engine : Engine Unit Unit) (frame : String) (answered : List InteractionResult) (written : Contracts.Model.Contract)
      (refused : Option (List Data.Json.Json)), run (step hosted) Engine.new (exercising ++ ending) = some engine ∧
        .answered frame (.ok (.finalised answered (.contract written) refused)) ∈
          log (step hosted) (notes hosted) (Engine.new : Engine Unit Unit) (exercising ++ ending) := by
  have hrun : (run (step hosted) (Engine.new : Engine Unit Unit) (exercising ++ ending)).isSome = true := by decide +kernel
  have hany : (log (step hosted) (notes hosted) (Engine.new : Engine Unit Unit) (exercising ++ ending)).any hasContract =
      true := by decide +kernel
  obtain ⟨engine, hengine⟩ := Option.isSome_iff_exists.1 hrun
  obtain ⟨note, hnote, hcontract⟩ := List.any_eq_true.1 hany
  obtain ⟨frame, answered, written, refused, rfl⟩ := hasContract_some hcontract
  exact ⟨engine, frame, answered, written, refused, hengine, hnote⟩

theorem contract_answered_exercising :
    ∃ (frame : String) (answered : List InteractionResult) (written : Contracts.Model.Contract)
      (refused : Option (List Data.Json.Json)), .answered frame (.ok (.finalised answered (.contract written) refused)) ∈
        log (step hosted) (notes hosted) (Engine.new : Engine Unit Unit) (exercising ++ ending) ∧
        ∀ result ∈ answered, result.status = .verified := by
  obtain ⟨engine, frame, answered, written, refused, hrun, hmem⟩ := contract_exercising
  exact ⟨frame, answered, written, refused, hmem, ((contract_answered hrun hmem).1 fun heq => by cases heq).1⟩

theorem results_answered_exercising :
    ∃ (answered : List InteractionResult) (frame id : String) (held : Held) (write : Option (String × Contracts.Files.Mode)),
      Finalised hosted (exercising ++ ending) frame id held write ∧ answered = results held.system.session := by
  obtain ⟨engine, frame, answered, written, refused, hrun, hmem⟩ := contract_exercising
  obtain ⟨id, held, write, hend, hanswered, -⟩ := results_answered hrun hmem
  exact ⟨answered, frame, id, held, write, hend, hanswered⟩

end PactJanus.Protocol.Sessions
