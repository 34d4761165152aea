import PactJanus.Lib.Machine
import PactJanus.Protocol.Dispatcher

namespace PactJanus.Protocol.Changes

open PactJanus.Data.Json PactJanus.Lib.PartialMap PactJanus.Contracts.Model PactJanus.Contracts.Files
open PactJanus.Session.Exchange PactJanus.Session.Model PactJanus.Protocol.Dispatcher
open PactJanus.Session.Interleaving (System Dispatch Event)

/-! What one step of the dispatcher can do. -/

/-- The ids an answer gives out. -/
def gives : Except EngineError Result → List String
  | .ok (.session session) => [session]
  | .ok (.run session stream) => [session, stream]
  | _ => []

/-- An answer that gives nothing out, ends no session and delivers no event. -/
def isPlain : Except EngineError Result → Bool
  | .ok (.session _) => false
  | .ok (.run _ _) => false
  | .ok (.finalised _ _ _) => false
  | .ok (.events _) => false
  | _ => true

theorem gives_plain {answer : Except EngineError Result} (h : isPlain answer = true) : gives answer = [] := by
  cases answer with
  | error error => rfl
  | ok result =>
    cases result with
    | session session => cases h
    | run session stream => cases h
    | _ => rfl

/-- The ids given out along a run. -/
def given (seen : List Note) : List String :=
  seen.flatMap fun note =>
    match note with
    | .answered _ answer => gives answer
    | _ => []

/-- What a step of a session is noted for. -/
def noted (session : String) (held : Held) (event : Event) : List Note :=
  (Session.Interleaving.notes held.scope.world held.system event).map (.session session)

/-- What is read off answers is not there for the steps of a session, or of a stream. -/
theorem flatMap_noted {α : Type} {f : Note → List α} (hf : ∀ session note, f (.session session note) = [])
    (session : String) (held : Held) (event : Event) : (noted session held event).flatMap f = [] := by
  rw [noted, List.flatMap_map]
  exact List.flatMap_eq_nil_iff.2 fun _ _ => hf _ _

theorem flatMap_streamed {α : Type} {f : Note → List α} (hf : ∀ stream note, f (.stream stream note) = [])
    (stream : String) (seen : List Events.Stream.Note) : (seen.map (.stream stream)).flatMap f = [] := by
  rw [List.flatMap_map]
  exact List.flatMap_eq_nil_iff.2 fun _ _ => hf _ _

theorem delivered_streamed (stream : String) (events : List Events.Stream.Event) :
    (events.map .delivered).map (Note.stream stream) = events.map fun event => .stream stream (.delivered event) :=
  List.map_map ..

/-- What is put where something was leaves there what was there. -/
theorem insert_live_iff {α : Type} {map : PMap String α} {key : String} {v w : α} (hfound : map key = some w)
    (id : String) : map.insert key v id ≠ none ↔ map id ≠ none := by
  rw [PMap.insert_apply]
  split
  · rename_i heq
    subst heq
    exact iff_of_true (Option.some_ne_none v) (by rw [hfound]; exact Option.some_ne_none w)
  · exact Iff.rfl

section Changes

variable {ρ ω : Type}

/-- The end of a session is answered with results, or with an error. -/
theorem finaliseAnswer_all {P : Except EngineError Result → Prop} (herror : ∀ error, P (.error error))
    (hfinalised : ∀ answered outcome refused, P (.ok (.finalised answered outcome refused))) (host : Host ω)
    (engine : Engine ρ ω) (held : Held) (write : Option (String × Mode)) : P (engine.finaliseAnswer host held write) := by
  rw [Engine.finaliseAnswer]
  split
  · exact herror _
  · split
    · exact herror _
    · exact hfinalised ..
    · rename_i written _
      split
      · rename_i path mode update _ _
        cases update path fun existing => nextBytes host.read path existing written mode with
        | error error => exact herror error
        | ok done => exact hfinalised ..
      · exact hfinalised ..

/-- Flags are set and numbers used up, and no table changes. -/
structure Quiet (engine engine' : Engine ρ ω) : Prop where
  sessions : engine'.sessions = engine.sessions
  streams : engine'.streams = engine.streams
  verifications : engine'.verifications = engine.verifications
  publications : engine'.publications = engine.publications
  recordings : engine'.recordings = engine.recordings
  nextSession : engine.nextSession ≤ engine'.nextSession
  nextTransport : engine.nextTransport ≤ engine'.nextTransport
  nextStream : engine.nextStream ≤ engine'.nextStream
  nextVerification : engine.nextVerification ≤ engine'.nextVerification
  nextRecording : engine.nextRecording ≤ engine'.nextRecording
  nextPublication : engine.nextPublication ≤ engine'.nextPublication
  shutDown : engine'.shutDown = engine.shutDown
  helloDone : engine.helloDone = true → engine'.helloDone = true

theorem Quiet.refl (engine : Engine ρ ω) : Quiet engine engine :=
  ⟨rfl, rfl, rfl, rfl, rfl, Nat.le_refl _, Nat.le_refl _, Nat.le_refl _, Nat.le_refl _, Nat.le_refl _, Nat.le_refl _, rfl, id⟩

/-- The engine after a session of its table has taken a step. -/
def stepped (engine : Engine ρ ω) (session : String) (held : Held) (system : System Exercised) : Engine ρ ω :=
  { engine with sessions := engine.sessions.insert session { held with system := system } }

/-! Steps of a session. -/

section Within

variable {engine engine' : Engine ρ ω} {session : String} {event : Event} {seen : List Note}

/-- No session is in the hands of a frame that ends it. -/
def NotEnding (engine : Engine ρ ω) : Prop :=
  ∀ frame session held write, engine.handling ≠ .finalising frame session held write

theorem notEnding_idle (h : engine.handling = .idle) : NotEnding engine := by
  intro frame session held write heq
  rw [h] at heq
  cases heq

theorem notEnding_of {handling : Handling} (busy : engine.handling = handling)
    (hnot : ∀ frame session held write, handling ≠ .finalising frame session held write) : NotEnding engine := by
  intro frame session held write heq
  exact hnot frame session held write (busy.symm.trans heq)

theorem notEnding_serving {frame handle variant : String} {served : Except ServeVariantError Served}
    (busy : engine.handling = .serving frame session handle variant served) : NotEnding engine :=
  notEnding_of busy fun _ _ _ _ heq => by cases heq

theorem notEnding_reporting {frame handle variant : String}
    (busy : engine.handling = .reporting frame session handle variant) : NotEnding engine :=
  notEnding_of busy fun _ _ _ _ heq => by cases heq

theorem notEnding_polling {frame : String} {named left : List String} {max : Nat}
    {events : List Events.Stream.Event} {wait : Bool} (busy : engine.handling = .polling frame named left max events wait) :
    NotEnding engine := notEnding_of busy fun _ _ _ _ heq => by cases heq

theorem held_table (h : NotEnding engine) (session : String) : engine.held session = engine.sessions session := by
  rw [Engine.held]
  split
  · rename_i hending
    exact absurd hending (h _ _ _ _)
  · rfl

theorem put_table (h : NotEnding engine) (session : String) (held : Held) :
    engine.put session held = { engine with sessions := engine.sessions.insert session held } := by
  rw [Engine.put]
  split
  · rename_i hending
    exact absurd hending (h _ _ _ _)
  · rfl

/-- A session put back where it was found touches no other table. -/
theorem put_eq (engine : Engine ρ ω) (session : String) (held : Held) :
    ∃ sessions handling, engine.put session held = { engine with sessions := sessions, handling := handling } := by
  rw [Engine.put]
  split
  · split
    · exact ⟨_, _, rfl⟩
    · exact ⟨_, _, rfl⟩
  · exact ⟨_, _, rfl⟩

/-- What is read off the frame being answered, apart from the session it ends, stays when a session is put back. -/
theorem handling_put {α : Type} {f : Handling → α}
    (hf : ∀ frame session held held' write, f (.finalising frame session held write) = f (.finalising frame session held' write))
    (engine : Engine ρ ω) (session : String) (held : Held) : f (engine.put session held).handling = f engine.handling := by
  rw [Engine.put]
  split
  · rename_i busy
    split
    · rw [busy]
      exact hf ..
    · rfl
  · rfl

theorem within_some (h : engine.within session event = some (engine', seen)) :
    ∃ held system', engine.held session = some held ∧
      Session.Interleaving.step held.scope.world held.system event = some system' ∧
      engine' = engine.put session { held with system := system' } ∧ seen = noted session held event := by
  obtain ⟨held, hheld, h⟩ := Option.bind_eq_some_iff.1 h
  obtain ⟨system', hstep, heq⟩ := Option.map_eq_some_iff.1 h
  obtain ⟨rfl, rfl⟩ := Prod.mk.inj heq
  exact ⟨held, system', hheld, hstep, rfl, rfl⟩

theorem within_table (hnot : NotEnding engine) (h : engine.within session event = some (engine', seen)) :
    ∃ held system', engine.sessions session = some held ∧
      Session.Interleaving.step held.scope.world held.system event = some system' ∧
      engine' = stepped engine session held system' ∧ seen = noted session held event := by
  obtain ⟨held, system', hheld, hstep, rfl, rfl⟩ := within_some h
  rw [held_table hnot] at hheld
  exact ⟨held, system', hheld, hstep, put_table hnot .., rfl⟩

theorem withinThen_table {next : Engine ρ ω → Engine ρ ω × List Note} (hnot : NotEnding engine)
    (h : engine.withinThen session event next = some (engine', seen)) :
    ∃ held system', engine.sessions session = some held ∧
      Session.Interleaving.step held.scope.world held.system event = some system' ∧
      engine' = (next (stepped engine session held system')).1 ∧
      seen = noted session held event ++ (next (stepped engine session held system')).2 := by
  obtain ⟨⟨mid, noted⟩, hwithin, heq⟩ := Option.map_eq_some_iff.1 h
  obtain ⟨held, system', hfound, hstep, rfl, rfl⟩ := within_table hnot hwithin
  obtain ⟨rfl, rfl⟩ := Prod.mk.inj heq
  exact ⟨held, system', hfound, hstep, rfl, rfl⟩

end Within

/-! What a step is to one session, and to one stream. -/

/-- What is noted of one session. -/
def ofSession (session : String) : Note → Option Session.Interleaving.Note
  | .session other note => if other = session then some note else none
  | _ => none

/-- What is noted of one stream. -/
def ofStream (stream : String) : Note → Option Events.Stream.Note
  | .stream other note => if other = stream then some note else none
  | _ => none

theorem ofSession_noted (session other : String) (held : Held) (event : Event) :
    (noted other held event).filterMap (ofSession session) =
      if other = session then Session.Interleaving.notes held.scope.world held.system event else [] := by
  rw [noted, List.filterMap_map]
  split
  · rename_i heq
    subst heq
    have hsome : ofSession other ∘ Note.session other = some := by
      funext note
      simp [ofSession]
    rw [hsome, List.filterMap_some]
  · rename_i hne
    have hnone : ofSession session ∘ Note.session other = fun _ => none := by
      funext note
      simp [ofSession, hne]
    rw [hnone]
    exact List.filterMap_eq_nil_iff.2 fun _ _ => rfl

/-- A frame that ends a session has it in its hands alone. -/
def Apart (engine : Engine ρ ω) : Prop :=
  ∀ frame session held write, engine.handling = .finalising frame session held write → engine.sessions session = none

/-- What a step is to one session. -/
inductive SessionFate (host : Host ω) (engine engine' : Engine ρ ω) (seen : List Note) (session : String) : Prop where
  | kept (same : engine'.held session = engine.held session) (quiet : seen.filterMap (ofSession session) = [])
  | stepped (held : Held) (event : Event) (system' : System Exercised) (found : engine.held session = some held)
      (step : Session.Interleaving.step held.scope.world held.system event = some system')
      (after : engine'.held session = some { held with system := system' })
      (noted : seen.filterMap (ofSession session) = Session.Interleaving.notes held.scope.world held.system event)
  | gone (after : engine'.held session = none) (quiet : seen.filterMap (ofSession session) = [])
  | begun (scope : SessionScope) (policy : Option Json) (consumer provider : Party)
      (new : session = sessionName (engine.nextSession + 1))
      (after : engine'.held session = some ⟨scope, policy, .start consumer provider engine.testVerdicts⟩)
      (quiet : seen.filterMap (ofSession session) = []) (answer : given seen = [session])

section Fates

variable {host : Host ω}
variable {engine engine' : Engine ρ ω} {seen : List Note}

private theorem fate_same {session : String} (hnot : NotEnding engine) (hnot' : NotEnding engine')
    (hsessions : engine'.sessions = engine.sessions) (quiet : seen.filterMap (ofSession session) = []) : SessionFate host engine engine' seen session := by
  refine .kept ?_ quiet
  rw [held_table hnot, held_table hnot', hsessions]

private theorem fate_stepped {session other : String} {held : Held} {event : Event} {system' : System Exercised}
    (hnot : NotEnding engine) (hnot' : NotEnding engine')
    (hsessions : engine'.sessions = engine.sessions.insert other { held with system := system' })
    (found : engine.sessions other = some held)
    (step : Session.Interleaving.step held.scope.world held.system event = some system')
    (hseen : seen.filterMap (ofSession session) =
      if other = session then Session.Interleaving.notes held.scope.world held.system event else []) :
    SessionFate host engine engine' seen session := by
  have hheld : engine'.held session = if session = other then some { held with system := system' } else
      engine.held session := by
    rw [held_table hnot', held_table hnot, hsessions, PMap.insert_apply]
  by_cases hsession : other = session
  · subst hsession
    rw [if_pos rfl] at hheld hseen
    exact .stepped held event system' ((held_table hnot _).trans found) step hheld hseen
  · rw [if_neg (Ne.symm hsession)] at hheld
    rw [if_neg hsession] at hseen
    exact .kept hheld hseen

theorem held_put (session id : String) (held : Held) :
    (engine.put session held).held id = if id = session then some held else engine.held id := by
  cases hhandling : engine.handling with
  | finalising frame ending held' write =>
    by_cases hending : session = ending
    · subst hending
      by_cases hid : id = session <;> simp [Engine.put, Engine.held, hhandling, hid]
    · by_cases hid : id = ending
      · simp [Engine.put, Engine.held, hhandling, hending, hid, Ne.symm hending]
      · simp [Engine.put, Engine.held, hhandling, hending, hid, PMap.insert_apply]
  | _ => simp [Engine.put, Engine.held, hhandling, PMap.insert_apply]

private theorem quiet_streamed (stream session : String) (notes : List Events.Stream.Note) :
    (notes.map (Note.stream stream)).filterMap (ofSession session) = [] := by
  rw [List.filterMap_map]
  exact List.filterMap_eq_nil_iff.2 fun _ _ => rfl

end Fates

variable [DecidableEq ρ]

/-- What a step is to one stream. -/
inductive StreamFate (host : Host ω) (engine engine' : Engine ρ ω) (seen : List Note) (stream : String) : Prop where
  | kept (same : engine'.streams stream = engine.streams stream) (quiet : seen.filterMap (ofStream stream) = [])
  | stepped (system : Events.Stream.System ρ ω) (act : Events.Stream.Act ρ ω) (system' : Events.Stream.System ρ ω)
      (found : engine.streams stream = some system) (step : Events.Stream.step host.observe system act = some system')
      (after : engine'.streams stream = some system')
      (noted : seen.filterMap (ofStream stream) = Events.Stream.notes host.observe system act)
  | gone (after : engine'.streams stream = none) (quiet : seen.filterMap (ofStream stream) = [])
      (spent : engine'.shutDown = true ∨ engine.ended stream = true)
  | begun (observer : Option ω) (new : stream = streamName (engine.nextStream + 1))
      (after : engine'.streams stream =
        some { (Events.Stream.System.start stream : Events.Stream.System ρ ω) with observer := observer })
      (quiet : seen.filterMap (ofStream stream) = []) (answer : stream ∈ given seen)

/-- What one step can do, by the frame it is a step of and what it does for it. -/
inductive Change (host : Host ω) (engine : Engine ρ ω) : Engine ρ ω → List Note → Prop where
  | quiet {engine' : Engine ρ ω} {frame : String} {answer : Except EngineError Result}
      (idle : engine.handling = .idle) (quiet : Quiet engine engine') (plain : isPlain answer = true) :
      Change host engine { engine' with handling := .idle } [.answered frame answer]
  | created {frame : String} {scope : SessionScope} {policy : Option Json} {consumer provider : Party}
      (idle : engine.handling = .idle) :
      Change host engine
        { engine with
          sessions := engine.sessions.insert (sessionName (engine.nextSession + 1))
            ⟨scope, policy, .start consumer provider engine.testVerdicts⟩
          nextSession := engine.nextSession + 1
          handling := .idle }
        [.answered frame (.ok (.session (sessionName (engine.nextSession + 1))))]
  | verified {frame : String} {observer : Option ω} {transports : Nat} (idle : engine.handling = .idle) :
      Change host engine
        { (Engine.openStream engine observer).1 with
          nextTransport := engine.nextTransport + transports
          verifications :=
            engine.verifications.insert (verificationName (engine.nextVerification + 1)) (streamName (engine.nextStream + 1))
          nextVerification := engine.nextVerification + 1
          handling := .idle }
        [.answered frame
          (.ok (.run (verificationName (engine.nextVerification + 1)) (streamName (engine.nextStream + 1))))]
  | published {frame : String} (idle : engine.handling = .idle) :
      Change host engine
        { (Engine.openStream engine none).1 with
          publications :=
            engine.publications.insert (publicationName (engine.nextPublication + 1)) (streamName (engine.nextStream + 1))
          nextPublication := engine.nextPublication + 1
          handling := .idle }
        [.answered frame
          (.ok (.run (publicationName (engine.nextPublication + 1)) (streamName (engine.nextStream + 1))))]
  | recorded {frame : String} {recording : RecordingSession} (idle : engine.handling = .idle) :
      Change host engine
        { engine with
          recordings := engine.recordings.insert (recordingName (engine.nextRecording + 1)) recording
          nextRecording := engine.nextRecording + 1
          handling := .idle }
        [.answered frame (.ok (.session (recordingName (engine.nextRecording + 1))))]
  | observed {frame session : String} {recording recording' : RecordingSession} {answer : Except EngineError Result}
      (idle : engine.handling = .idle) (found : engine.recordings session = some recording)
      (plain : isPlain answer = true) :
      Change host engine
        { engine with recordings := engine.recordings.insert session recording', handling := .idle }
        [.answered frame answer]
  | shaped {frame session : String} {answer : Except EngineError Result} (idle : engine.handling = .idle)
      (plain : isPlain answer = true) :
      Change host engine { engine with recordings := engine.recordings.remove session, handling := .idle }
        [.answered frame answer]
  | released {frame : String} (idle : engine.handling = .idle) :
      Change host engine
        { engine with
          sessions := PMap.empty, streams := PMap.empty, verifications := PMap.empty, publications := PMap.empty
          recordings := PMap.empty, shutDown := true, handling := .idle }
        [.answered frame (.ok .nothing)]
  | asked {frame session : String} {held : Held} {event : Event} {system' : System Exercised} {number : Nat}
      {answer : Except EngineError Result} (idle : engine.handling = .idle)
      (found : engine.sessions session = some held)
      (step : Session.Interleaving.step held.scope.world held.system event = some system')
      (dispatch : system'.dispatch = held.system.dispatch) (counted : engine.nextTransport ≤ number)
      (numbered : held.system.nextTransport ≤ engine.nextTransport + 1 → system'.nextTransport ≤ number + 1)
      (plain : isPlain answer = true) :
      Change host engine { stepped engine session held system' with nextTransport := number, handling := .idle }
        (noted session held event ++ [.answered frame answer])
  | serving {frame session handle variant : String} {held : Held} {system' : System Exercised}
      {served : Except ServeVariantError Served} (idle : engine.handling = .idle)
      (found : engine.sessions session = some held)
      (step : Session.Interleaving.step held.scope.world held.system (.serveVariant handle variant) = some system') :
      Change host engine
        { stepped engine session held system' with handling := .serving frame session handle variant served } []
  | armed {frame session handle variant : String} {held : Held} {system' : System Exercised}
      {served : Except ServeVariantError Served} (busy : engine.handling = .serving frame session handle variant served)
      (found : engine.sessions session = some held)
      (step : Session.Interleaving.step held.scope.world held.system .arm = some system') :
      Change host engine (stepped engine session held system') []
  | served {frame session handle variant : String} {held : Held} {served : Except ServeVariantError Served}
      {answer : Except EngineError Result} (busy : engine.handling = .serving frame session handle variant served)
      (found : engine.sessions session = some held)
      (done : ∀ armed waiting, held.system.dispatch ≠ .arming armed waiting) (plain : isPlain answer = true) :
      Change host engine { engine with handling := .idle } [.answered frame answer]
  | reporting {frame session handle variant status : String} {reason : Option String} {held : Held}
      {system' : System Exercised} (idle : engine.handling = .idle) (found : engine.sessions session = some held)
      (allowed : held.system.session.reportRefused handle variant = none)
      (step : Session.Interleaving.step held.scope.world held.system
        (.reportVariant handle variant (.new status reason)) = some system') :
      Change host engine { stepped engine session held system' with handling := .reporting frame session handle variant }
        []
  | settled {frame session handle variant : String} {held : Held} {system' : System Exercised}
      (busy : engine.handling = .reporting frame session handle variant) (found : engine.sessions session = some held)
      (step : Session.Interleaving.step held.scope.world held.system .settle = some system') :
      Change host engine (stepped engine session held system') []
  | reported {frame session handle variant : String} {held : Held} {system' : System Exercised}
      {answer : Except EngineError Result} (busy : engine.handling = .reporting frame session handle variant)
      (found : engine.sessions session = some held)
      (step : Session.Interleaving.step held.scope.world held.system .answer = some system')
      (plain : isPlain answer = true) :
      Change host engine { stepped engine session held system' with handling := .idle } [.answered frame answer]
  | finalising {frame session : String} {write : Option (String × Mode)} {held : Held} {system' : System Exercised}
      (idle : engine.handling = .idle) (found : engine.sessions session = some held)
      (step : Session.Interleaving.step held.scope.world held.system .finalise = some system') :
      Change host engine
        { engine with
          sessions := engine.sessions.remove session
          handling := .finalising frame session { held with system := system' } write } []
  | drained {frame session : String} {write : Option (String × Mode)} {held : Held} {system' : System Exercised}
      (busy : engine.handling = .finalising frame session held write)
      (step : Session.Interleaving.step held.scope.world held.system .drain = some system') :
      Change host engine
        { engine with handling := .finalising frame session { held with system := system' } write } []
  | finalised {frame session : String} {write : Option (String × Mode)} {held : Held}
      (busy : engine.handling = .finalising frame session held write) (done : held.system.dispatch = .finalised) :
      Change host engine { engine with handling := .idle } [.answered frame (engine.finaliseAnswer host held write)]
  | polling {frame : String} {named : List String} {max : Option Nat} {wait : Bool} (idle : engine.handling = .idle)
      (live : ∀ stream ∈ named, (engine.streams stream).isSome = true) :
      Change host engine { engine with handling := .polling frame named named (pollMax max) [] wait } []
  | pulled {frame stream : String} {named left : List String} {max : Nat} {events : List Events.Stream.Event} {wait : Bool}
      {system : Events.Stream.System ρ ω}
      (busy : engine.handling = .polling frame named (stream :: left) max events wait)
      (room : events.length < max) (found : engine.streams stream = some system) :
      Change host engine
        { engine with
          streams := engine.streams.insert stream
            { system with inner := system.inner.drain (max - events.length) }
          handling := .polling frame named left max (events ++ system.inner.pending.take (max - events.length)) wait }
        ((system.inner.pending.take (max - events.length)).map fun event => .stream stream (.delivered event))
  | filled {frame stream : String} {named left : List String} {max : Nat} {events : List Events.Stream.Event} {wait : Bool}
      (busy : engine.handling = .polling frame named (stream :: left) max events wait) (full : max ≤ events.length) :
      Change host engine { engine with handling := .polling frame named [] max events wait } []
  | waited {frame : String} {named : List String} {max : Nat}
      (busy : engine.handling = .polling frame named [] max [] true) :
      Change host engine { engine with handling := .polling frame named named max [] false } []
  | polled {frame : String} {named : List String} {max : Nat} {events : List Events.Stream.Event} {wait : Bool}
      (busy : engine.handling = .polling frame named [] max events wait) :
      Change host engine { engine.prune with handling := .idle } [.answered frame (.ok (.events events))]
  | beside {session : String} {held : Held} {beside : Beside} {system' : System Exercised}
      (found : engine.held session = some held)
      (step : Session.Interleaving.step held.scope.world held.system beside.event = some system') :
      Change host engine (engine.put session { held with system := system' }) (noted session held beside.event)
  | produced {stream : String} {produce : Produce ρ} {system system' : Events.Stream.System ρ ω}
      (found : engine.streams stream = some system)
      (step : Events.Stream.step host.observe system produce.act = some system') :
      Change host engine { engine with streams := engine.streams.insert stream system' }
        ((Events.Stream.notes host.observe system produce.act).map (.stream stream))

/-! Every step is one of these. -/

variable {host : Host ω} {engine engine' : Engine ρ ω} {seen : List Note} {frame session : String} {held : Held}

private theorem request_some {system system' : System Exercised} {next : ConsumerSession Exercised}
    (h : system.request next = some system') : system'.dispatch = system.dispatch ∧
      system'.nextTransport = system.nextTransport := by
  rw [Session.Interleaving.System.request] at h
  split at h
  · obtain rfl := Option.some.inj h
    exact ⟨rfl, rfl⟩
  · cases h

/-- A request that a session answers in one step of its own, which starts no transport. -/
private theorem asked_change {event : Event} {answer : Except EngineError Result} (idle : engine.handling = .idle)
    (hrequest : ∀ {system system' : System Exercised} {world : World},
      Session.Interleaving.step world system event = some system' → ∃ next, system.request next = some system')
    (plain : isPlain answer = true)
    (h : engine.withinThen session event (fun engine => engine.answer frame answer) = some (engine', seen)) :
    Change host engine engine' seen := by
  obtain ⟨held, system', hfound, hstep, rfl, rfl⟩ := withinThen_table (notEnding_idle idle) h
  obtain ⟨next, hnext⟩ := hrequest hstep
  obtain ⟨hdispatch, hnumber⟩ := request_some hnext
  exact .asked idle hfound hstep hdispatch (Nat.le_refl _) (fun hle => hnumber ▸ hle) plain

private theorem answered_change {answer : Except EngineError Result} (idle : engine.handling = .idle)
    (plain : isPlain answer = true) (h : some (engine.answer frame answer) = some (engine', seen)) :
    Change host engine engine' seen := by
  obtain ⟨rfl, rfl⟩ := Prod.mk.inj (Option.some.inj h)
  exact .quiet idle (Quiet.refl engine) plain

private theorem addInteraction_change {interaction : Json}
    {converted : InteractionSpec → List (String × ShapePart) → Option Converted} {findings : List Json}
    (idle : engine.handling = .idle)
    (h : engine.handleAddInteraction host frame session held interaction converted findings = some (engine', seen)) :
    Change host engine engine' seen := by
  rw [Engine.handleAddInteraction] at h
  split at h
  · refine asked_change idle ?_ rfl h
    exact fun hstep => ⟨_, hstep⟩
  · refine asked_change idle ?_ rfl h
    exact fun hstep => ⟨_, hstep⟩

private theorem addPactInteraction_change {pact : Json} (idle : engine.handling = .idle)
    (h : engine.handleAddPactInteraction host frame session held pact = some (engine', seen)) :
    Change host engine engine' seen := by
  rw [Engine.handleAddPactInteraction] at h
  split at h
  · exact addInteraction_change idle h
  · refine asked_change idle ?_ rfl h
    exact fun hstep => ⟨_, hstep⟩

private theorem variants_change {handle : String} {policy : Option Json} (idle : engine.handling = .idle)
    (h : engine.handleVariants host frame session held handle policy = some (engine', seen)) :
    Change host engine engine' seen := by
  rw [Engine.handleVariants] at h
  split at h
  · exact answered_change idle rfl h
  · split at h
    · exact answered_change idle rfl h
    · refine asked_change idle ?_ rfl h
      exact fun hstep => ⟨_, hstep⟩

/-- The number of a transport that was not started is used up. -/
private theorem used_change {answer : Except EngineError Result} (idle : engine.handling = .idle)
    (plain : isPlain answer = true)
    (h : some (Engine.answer { engine with nextTransport := engine.nextTransport + 1 } frame answer) =
      some (engine', seen)) : Change host engine engine' seen := by
  obtain ⟨rfl, rfl⟩ := Prod.mk.inj (Option.some.inj h)
  have hquiet : Quiet engine { engine with nextTransport := engine.nextTransport + 1 } :=
    { Quiet.refl engine with nextTransport := Nat.le_succ _ }
  exact .quiet idle hquiet plain

private theorem startTransport_change {transport : String} {options : Option Json} (idle : engine.handling = .idle)
    (h : engine.handleStartTransport host frame session held transport options = some (engine', seen)) :
    Change host engine engine' seen := by
  rw [Engine.handleStartTransport] at h
  split at h
  · exact answered_change idle rfl h
  · split at h
    · exact answered_change idle rfl h
    · dsimp only at h
      split at h
      · exact used_change idle rfl h
      · exact used_change idle rfl h
      · split at h
        · exact used_change idle rfl h
        · obtain ⟨held, system', hfound, hstep, rfl, rfl⟩ := withinThen_table (notEnding_idle (by exact idle)) h
          have hsystem : system'.dispatch = held.system.dispatch ∧
              system'.nextTransport = engine.nextTransport + 1 + 1 := by
            rw [Session.Interleaving.step] at hstep
            split at hstep
            · obtain rfl := Option.some.inj hstep
              exact ⟨rfl, rfl⟩
            · cases hstep
          exact .asked idle hfound hstep hsystem.1 (Nat.le_succ _) (fun _ => Nat.le_of_eq hsystem.2) rfl

private theorem serveVariant_change {handle variant : String} (idle : engine.handling = .idle)
    (h : engine.handleServeVariant frame session held handle variant = some (engine', seen)) :
    Change host engine engine' seen := by
  rw [Engine.handleServeVariant] at h
  obtain ⟨held, system', hfound, hstep, rfl, rfl⟩ := withinThen_table (notEnding_idle idle) h
  exact .serving idle hfound hstep

private theorem reportVariant_change {handle variant status : String} {reason : Option String}
    (idle : engine.handling = .idle) (hfound : engine.sessions session = some held)
    (h : engine.handleReportVariant frame session held handle variant status reason = some (engine', seen)) :
    Change host engine engine' seen := by
  rw [Engine.handleReportVariant] at h
  split at h
  · exact answered_change idle rfl h
  · rename_i hallowed
    obtain ⟨held', system', hfound', hstep, rfl, rfl⟩ := withinThen_table (notEnding_idle idle) h
    obtain rfl := Option.some.inj (hfound.symm.trans hfound')
    exact .reporting idle hfound hallowed hstep

private theorem finalise_change {write : Option (String × Mode)} (idle : engine.handling = .idle)
    (hfound : engine.sessions session = some held)
    (h : engine.handleFinalise frame session held write = some (engine', seen)) : Change host engine engine' seen := by
  obtain ⟨held', system', hheld, hstep, rfl, rfl⟩ := within_some h
  simp only [Engine.held, if_true] at hheld
  obtain rfl := Option.some.inj hheld
  have hput : Engine.put
      { engine with sessions := engine.sessions.remove session, handling := .finalising frame session held write }
      session { held with system := system' } =
      { engine with
        sessions := engine.sessions.remove session
        handling := .finalising frame session { held with system := system' } write } := by
    simp [Engine.put]
  rw [hput]
  exact .finalising idle hfound hstep

private theorem naming_change {f : Held → Option (Engine ρ ω × List Note)} (idle : engine.handling = .idle)
    (hf : ∀ held, engine.sessions session = some held → f held = some (engine', seen) → Change host engine engine' seen)
    (h : engine.naming frame session f = some (engine', seen)) : Change host engine engine' seen := by
  rw [Engine.naming] at h
  split at h
  · exact answered_change idle rfl h
  · exact hf _ (by assumption) h

private theorem hello_change {versions : List Nat} {capabilities : Json} (idle : engine.handling = .idle)
    (h : some ((engine.handleHello host versions capabilities).1.answer frame
      (engine.handleHello host versions capabilities).2) = some (engine', seen)) : Change host engine engine' seen := by
  rw [Engine.handleHello] at h
  split at h
  · obtain ⟨rfl, rfl⟩ := Prod.mk.inj (Option.some.inj h)
    refine .quiet idle ?_ rfl
    exact { Quiet.refl engine with helloDone := fun _ => rfl }
  · exact answered_change idle rfl h

private theorem create_change {config : SessionConfig} (idle : engine.handling = .idle)
    (h : some ((engine.handleCreate host config).1.answer frame (engine.handleCreate host config).2) =
      some (engine', seen)) : Change host engine engine' seen := by
  rw [Engine.handleCreate] at h
  split at h
  · exact answered_change idle rfl h
  · obtain ⟨rfl, rfl⟩ := Prod.mk.inj (Option.some.inj h)
    exact .created idle

private theorem verify_change {body : Json} (idle : engine.handling = .idle)
    (h : some ((engine.handleVerify host body).1.answer frame (engine.handleVerify host body).2) =
      some (engine', seen)) : Change host engine engine' seen := by
  rw [Engine.handleVerify] at h
  dsimp only at h
  split at h
  · obtain ⟨rfl, rfl⟩ := Prod.mk.inj (Option.some.inj h)
    refine .quiet idle ?_ rfl
    exact { Quiet.refl engine with nextTransport := Nat.le_add_right _ _ }
  · obtain ⟨rfl, rfl⟩ := Prod.mk.inj (Option.some.inj h)
    refine .quiet idle ?_ rfl
    exact { Quiet.refl engine with nextTransport := Nat.le_add_right _ _, nextVerification := Nat.le_succ _ }
  · obtain ⟨rfl, rfl⟩ := Prod.mk.inj (Option.some.inj h)
    refine .quiet idle ?_ rfl
    exact { Quiet.refl engine with
      nextTransport := Nat.le_add_right _ _, nextVerification := Nat.le_succ _, nextStream := Nat.le_succ _ }
  · obtain ⟨rfl, rfl⟩ := Prod.mk.inj (Option.some.inj h)
    exact .verified idle

private theorem publish_change {body : Json} (idle : engine.handling = .idle)
    (h : some ((engine.handlePublishContracts host body).1.answer frame (engine.handlePublishContracts host body).2) =
      some (engine', seen)) : Change host engine engine' seen := by
  rw [Engine.handlePublishContracts] at h
  dsimp only at h
  split at h
  · exact answered_change idle rfl h
  · obtain ⟨rfl, rfl⟩ := Prod.mk.inj (Option.some.inj h)
    refine .quiet idle ?_ rfl
    exact { Quiet.refl engine with nextPublication := Nat.le_succ _, nextStream := Nat.le_succ _ }
  · obtain ⟨rfl, rfl⟩ := Prod.mk.inj (Option.some.inj h)
    exact .published idle

private theorem observe_change {observation : Recording.Observe.Observation} (idle : engine.handling = .idle)
    (h : some ((engine.handleObserve session observation).1.answer frame (engine.handleObserve session observation).2) =
      some (engine', seen)) : Change host engine engine' seen := by
  rw [Engine.handleObserve] at h
  split at h
  · exact answered_change idle rfl h
  · rename_i hfound
    obtain ⟨rfl, rfl⟩ := Prod.mk.inj (Option.some.inj h)
    exact .observed idle hfound rfl

private theorem finaliseRecording_change (idle : engine.handling = .idle)
    (h : some ((engine.handleFinaliseRecording session).1.answer frame (engine.handleFinaliseRecording session).2) =
      some (engine', seen)) : Change host engine engine' seen := by
  rw [Engine.handleFinaliseRecording] at h
  split at h
  · exact answered_change idle rfl h
  · obtain ⟨rfl, rfl⟩ := Prod.mk.inj (Option.some.inj h)
    exact .shaped idle rfl

private theorem poll_change {streams : List String} {max : Option Nat} {waitMs : Nat} (idle : engine.handling = .idle)
    (h : some (engine.handlePoll frame streams max waitMs) = some (engine', seen)) : Change host engine engine' seen := by
  rw [Engine.handlePoll] at h
  split at h
  · exact answered_change idle rfl h
  · rename_i hnone
    obtain ⟨rfl, rfl⟩ := Prod.mk.inj (Option.some.inj h)
    refine .polling idle fun stream hstream => ?_
    have hlive := List.find?_eq_none.1 hnone stream hstream
    rwa [Bool.not_eq_true, Option.isNone_eq_false_iff] at hlive

private theorem handle_change {request : Request} (idle : engine.handling = .idle)
    (h : engine.handle host frame request = some (engine', seen)) : Change host engine engine' seen := by
  cases request with
  | hello versions capabilities => exact hello_change idle h
  | shutdown =>
    obtain ⟨rfl, rfl⟩ := Prod.mk.inj (Option.some.inj h)
    exact .released idle
  | create config => exact create_change idle h
  | addInteraction session interaction => exact naming_change idle (fun _ _ h => addInteraction_change idle h) h
  | addPactInteraction session pact => exact naming_change idle (fun _ _ h => addPactInteraction_change idle h) h
  | variants session handle policy => exact naming_change idle (fun _ _ h => variants_change idle h) h
  | startTransport session transport options => exact naming_change idle (fun _ _ h => startTransport_change idle h) h
  | serveVariant session handle variant => exact naming_change idle (fun _ _ h => serveVariant_change idle h) h
  | reportVariant session handle variant status reason =>
    exact naming_change idle (fun _ hfound h => reportVariant_change idle hfound h) h
  | finalise session write =>
    rw [Engine.handle] at h
    split at h
    · exact answered_change idle rfl h
    · exact naming_change idle (fun _ hfound h => finalise_change idle hfound h) h
    · exact naming_change idle (fun _ hfound h => finalise_change idle hfound h) h
  | verify body => exact verify_change idle h
  | publishContracts body => exact publish_change idle h
  | createRecording provider maxOptions minEvidence =>
    obtain ⟨rfl, rfl⟩ := Prod.mk.inj (Option.some.inj h)
    exact .recorded idle
  | observe session observation => exact observe_change idle h
  | finaliseRecording session => exact finaliseRecording_change idle h
  | document op body =>
    refine answered_change idle ?_ h
    cases host.document op engine.segments engine.contractText body <;> rfl
  | poll streams max waitMs => exact poll_change idle h
  | unsupported op => exact answered_change idle rfl h
  | malformed op message => exact answered_change idle rfl h

private theorem dispatch_change {frame : Frame} (idle : engine.handling = .idle)
    (h : engine.dispatch host frame = some (engine', seen)) : Change host engine engine' seen := by
  cases frame with
  | notJson message => exact answered_change idle rfl h
  | notRequest id => exact answered_change idle rfl h
  | unreadable id message => exact answered_change idle rfl h
  | request id request =>
    rw [Engine.dispatch] at h
    split at h
    · exact answered_change idle rfl h
    · split at h
      · exact answered_change idle rfl h
      · exact handle_change idle h

private theorem serving_change {handle variant : String} {served : Except ServeVariantError Served}
    (busy : engine.handling = .serving frame session handle variant served)
    (h : engine.advance host = some (engine', seen)) : Change host engine engine' seen := by
  rw [Engine.advance, busy] at h
  obtain ⟨held, hfound, h⟩ := Option.bind_eq_some_iff.1 h
  split at h
  · obtain ⟨held', system', hfound', hstep, rfl, rfl⟩ := within_table (notEnding_serving busy) h
    exact .armed busy hfound' hstep
  · rename_i hdone
    obtain ⟨rfl, rfl⟩ := Prod.mk.inj (Option.some.inj h)
    refine .served busy hfound hdone ?_
    split <;> rfl

private theorem reporting_change {handle variant : String} (busy : engine.handling = .reporting frame session handle variant)
    (h : engine.advance host = some (engine', seen)) : Change host engine engine' seen := by
  have hnot : NotEnding engine := notEnding_reporting busy
  rw [Engine.advance, busy] at h
  obtain ⟨held, hfound, h⟩ := Option.bind_eq_some_iff.1 h
  split at h
  · obtain ⟨held', system', hfound', hstep, rfl, rfl⟩ := within_table hnot h
    exact .settled busy hfound' hstep
  · obtain ⟨held', system', hfound', hstep, rfl, rfl⟩ := withinThen_table hnot h
    refine .reported busy hfound' hstep ?_
    split <;> rfl

private theorem finalising_change {write : Option (String × Mode)}
    (busy : engine.handling = .finalising frame session held write) (h : engine.advance host = some (engine', seen)) :
    Change host engine engine' seen := by
  rw [Engine.advance, busy] at h
  dsimp only at h
  split at h
  · rename_i hdone
    obtain ⟨rfl, rfl⟩ := Prod.mk.inj (Option.some.inj h)
    exact .finalised busy hdone
  · obtain ⟨held', system', hheld, hstep, rfl, rfl⟩ := within_some h
    rw [Engine.held, busy] at hheld
    simp only [if_true] at hheld
    obtain rfl := Option.some.inj hheld
    have hput : engine.put session { held with system := system' } =
        { engine with handling := .finalising frame session { held with system := system' } write } := by
      simp [Engine.put, busy]
    rw [hput]
    exact .drained busy hstep

private theorem polling_change {named left : List String} {max : Nat} {events : List Events.Stream.Event} {wait : Bool}
    (busy : engine.handling = .polling frame named left max events wait)
    (h : engine.advance host = some (engine', seen)) : Change host engine engine' seen := by
  rw [Engine.advance, busy] at h
  dsimp only at h
  cases left with
  | nil =>
    rw [Engine.pollStep] at h
    split at h
    · rename_i hwait
      obtain ⟨hempty, rfl⟩ := Bool.and_eq_true_iff.1 hwait
      obtain rfl := List.isEmpty_iff.1 hempty
      obtain ⟨rfl, rfl⟩ := Prod.mk.inj (Option.some.inj h)
      exact .waited busy
    · obtain ⟨rfl, rfl⟩ := Prod.mk.inj (Option.some.inj h)
      exact .polled busy
  | cons stream left =>
    rw [Engine.pollStep] at h
    split at h
    · rename_i hfull
      obtain ⟨rfl, rfl⟩ := Prod.mk.inj (Option.some.inj h)
      exact .filled busy hfull
    · rename_i hroom
      obtain ⟨system, hfound, h⟩ := Option.bind_eq_some_iff.1 h
      have hstream : engine.stream host stream (.drain (max - events.length)) =
          some ({ engine with
              streams := engine.streams.insert stream { system with inner := system.inner.drain (max - events.length) } },
            (system.inner.pending.take (max - events.length)).map fun event => .stream stream (.delivered event)) := by
        rw [Engine.stream, hfound]
        exact congrArg some (Prod.ext rfl (List.map_map ..))
      rw [hstream] at h
      obtain ⟨rfl, rfl⟩ := Prod.mk.inj (Option.some.inj h)
      exact .pulled busy (Nat.lt_of_not_le hroom) hfound

theorem move_change {act : Act ρ} (h : engine.move host act = some (engine', seen)) :
    Change host engine engine' seen := by
  cases act with
  | frame frame =>
    rw [Engine.move] at h
    split at h
    · rename_i hidle
      have idle : engine.handling = .idle := by
        cases hhandling : engine.handling with
        | idle => rfl
        | _ =>
          rw [hhandling] at hidle
          cases hidle
      exact dispatch_change idle h
    · cases h
  | advance =>
    replace h : engine.advance host = some (engine', seen) := h
    cases hhandling : engine.handling with
    | idle =>
      rw [Engine.advance, hhandling] at h
      cases h
    | serving frame session handle variant served => exact serving_change hhandling h
    | reporting frame session handle variant => exact reporting_change hhandling h
    | finalising frame session held write => exact finalising_change hhandling h
    | polling frame named left max events wait => exact polling_change hhandling h
  | beside session beside =>
    obtain ⟨held, system', hheld, hstep, rfl, rfl⟩ := within_some h
    exact .beside hheld hstep
  | produce stream produce =>
    obtain ⟨system, hfound, h⟩ := Option.bind_eq_some_iff.1 h
    obtain ⟨system', hstep, heq⟩ := Option.map_eq_some_iff.1 h
    obtain ⟨rfl, rfl⟩ := Prod.mk.inj heq
    exact .produced hfound hstep

/-- Every step of the dispatcher is one of the changes. -/
theorem step_change {act : Act ρ} (h : step host engine act = some engine') :
    Change host engine engine' (notes host engine act) := by
  obtain ⟨⟨engine', seen⟩, hmove, rfl⟩ := Option.map_eq_some_iff.1 h
  rw [notes, hmove]
  exact move_change hmove

section Fates

variable {engine engine' : Engine ρ ω} {seen : List Note}

/-- Each step keeps a session, is a step of it, ends it or begins it. -/
theorem session_fate (h : Change host engine engine' seen) (hapart : Apart engine) (session : String) :
    SessionFate host engine engine' seen session := by
  cases h with
  | quiet idle quiet plain => exact fate_same (notEnding_idle idle) (notEnding_idle rfl) quiet.sessions rfl
  | @created frame scope policy consumer provider idle =>
    by_cases hnew : session = sessionName (engine.nextSession + 1)
    · refine .begun scope policy consumer provider hnew ?_ rfl (by rw [hnew]; rfl)
      rw [held_table (notEnding_idle rfl), hnew]
      exact (PMap.insert_apply ..).trans (if_pos rfl)
    · refine .kept ?_ rfl
      rw [held_table (notEnding_idle rfl), held_table (notEnding_idle idle)]
      exact (PMap.insert_apply ..).trans (if_neg hnew)
  | verified idle => exact fate_same (notEnding_idle idle) (notEnding_idle rfl) rfl rfl
  | published idle => exact fate_same (notEnding_idle idle) (notEnding_idle rfl) rfl rfl
  | recorded idle => exact fate_same (notEnding_idle idle) (notEnding_idle rfl) rfl rfl
  | observed idle found plain => exact fate_same (notEnding_idle idle) (notEnding_idle rfl) rfl rfl
  | shaped idle plain => exact fate_same (notEnding_idle idle) (notEnding_idle rfl) rfl rfl
  | released idle => exact .gone rfl rfl
  | asked idle found step dispatch counted numbered plain =>
    refine fate_stepped (notEnding_idle idle) (notEnding_idle rfl) rfl found step ?_
    rw [List.filterMap_append, ofSession_noted]
    exact List.append_nil _
  | serving idle found step =>
    refine fate_stepped (notEnding_idle idle) ?_ rfl found step (ite_self _).symm
    exact notEnding_serving rfl
  | armed busy found step =>
    have hnot : NotEnding engine := notEnding_serving busy
    exact fate_stepped hnot hnot rfl found step (ite_self _).symm
  | served busy found done plain =>
    exact fate_same (notEnding_serving busy) (notEnding_idle rfl) rfl rfl
  | reporting idle found allowed step =>
    refine fate_stepped (notEnding_idle idle) ?_ rfl found step (ite_self _).symm
    exact notEnding_reporting rfl
  | settled busy found step =>
    have hnot : NotEnding engine := notEnding_reporting busy
    exact fate_stepped hnot hnot rfl found step (ite_self _).symm
  | reported busy found step plain =>
    refine fate_stepped ?_ (notEnding_idle rfl) rfl found step (ite_self _).symm
    exact notEnding_reporting busy
  | @finalising frame ending write held system' idle found step =>
    have hheld := held_table (notEnding_idle idle)
    by_cases hsession : session = ending
    · subst hsession
      exact .stepped held _ system' ((hheld _).trans found) step (by simp [Engine.held]) rfl
    · refine .kept ?_ rfl
      rw [hheld]
      simp [Engine.held, hsession, PMap.remove_apply]
  | @drained frame ending write held system' busy step =>
    by_cases hsession : session = ending
    · subst hsession
      exact .stepped held _ system' (by simp [Engine.held, busy]) step (by simp [Engine.held]) rfl
    · exact .kept (by simp [Engine.held, busy, hsession]) rfl
  | @finalised frame ending write held busy done =>
    by_cases hsession : session = ending
    · subst hsession
      exact .gone (hapart _ _ _ _ busy) rfl
    · exact .kept (by simp [Engine.held, busy, hsession]) rfl
  | polling idle live =>
    refine fate_same (notEnding_idle idle) ?_ rfl rfl
    exact notEnding_polling rfl
  | pulled busy room found =>
    refine fate_same (notEnding_polling busy) (notEnding_polling rfl) rfl ?_
    rw [List.filterMap_map]
    exact List.filterMap_eq_nil_iff.2 fun _ _ => rfl
  | filled busy full => exact fate_same (notEnding_polling busy) (notEnding_polling rfl) rfl rfl
  | waited busy => exact fate_same (notEnding_polling busy) (notEnding_polling rfl) rfl rfl
  | polled busy => exact fate_same (notEnding_polling busy) (notEnding_idle rfl) rfl rfl
  | @beside other held beside system' found step =>
    have hheld := @held_put _ _ engine other session { held with system := system' }
    have hseen := ofSession_noted session other held beside.event
    by_cases hsession : other = session
    · subst hsession
      rw [if_pos rfl] at hheld hseen
      exact .stepped held _ system' found step hheld hseen
    · rw [if_neg (Ne.symm hsession)] at hheld
      rw [if_neg hsession] at hseen
      exact .kept hheld hseen
  | produced found step => exact .kept rfl (quiet_streamed _ _ _)

/-! What a step is to one stream. -/

theorem quiet_noted (stream session : String) (held : Held) (event : Event) :
    (noted session held event).filterMap (ofStream stream) = [] := by
  rw [noted, List.filterMap_map]
  exact List.filterMap_eq_nil_iff.2 fun _ _ => rfl

theorem ofStream_streamed (stream other : String) (seen : List Events.Stream.Note) :
    (seen.map (Note.stream other)).filterMap (ofStream stream) = if other = stream then seen else [] := by
  rw [List.filterMap_map]
  split
  · rename_i heq
    subst heq
    have hsome : ofStream other ∘ Note.stream other = some := by
      funext note
      simp [ofStream]
    rw [hsome, List.filterMap_some]
  · rename_i hne
    have hnone : ofStream stream ∘ Note.stream other = fun _ => none := by
      funext note
      simp [ofStream, hne]
    rw [hnone]
    exact List.filterMap_eq_nil_iff.2 fun _ _ => rfl

private theorem fate_pushed {stream other : String} {system system' : Events.Stream.System ρ ω}
    {act : Events.Stream.Act ρ ω} (hstreams : engine'.streams = engine.streams.insert other system')
    (found : engine.streams other = some system) (step : Events.Stream.step host.observe system act = some system')
    (hseen : seen = (Events.Stream.notes host.observe system act).map (.stream other)) :
    StreamFate host engine engine' seen stream := by
  have hafter : engine'.streams stream = if stream = other then some system' else engine.streams stream := by
    rw [hstreams, PMap.insert_apply]
  have hnoted := ofStream_streamed stream other (Events.Stream.notes host.observe system act)
  rw [← hseen] at hnoted
  by_cases hstream : other = stream
  · subst hstream
    rw [if_pos rfl] at hafter hnoted
    exact .stepped system act system' found step hafter hnoted
  · rw [if_neg (Ne.symm hstream)] at hafter
    rw [if_neg hstream] at hnoted
    exact .kept hafter hnoted

private theorem fate_opened {stream frame session : String} {observer : Option ω}
    (hstreams : engine'.streams = (engine.openStream observer).1.streams) :
    StreamFate host engine engine' [.answered frame (.ok (.run session (streamName (engine.nextStream + 1))))] stream := by
  have hafter : engine'.streams stream = if stream = streamName (engine.nextStream + 1) then
      some { (Events.Stream.System.start (streamName (engine.nextStream + 1)) : Events.Stream.System ρ ω) with
        observer := observer } else engine.streams stream := by
    rw [hstreams]
    exact PMap.insert_apply ..
  by_cases hnew : stream = streamName (engine.nextStream + 1)
  · rw [if_pos hnew, ← hnew] at hafter
    exact .begun observer hnew hafter rfl (by simp [hnew, given, gives])
  · rw [if_neg hnew] at hafter
    exact .kept hafter rfl

/-- Each step keeps a stream, is a step of it, ends it or begins it. -/
theorem stream_fate (h : Change host engine engine' seen) (stream : String) :
    StreamFate host engine engine' seen stream := by
  cases h with
  | quiet idle quiet plain => exact .kept (congrFun quiet.streams stream) rfl
  | verified idle => exact fate_opened rfl
  | published idle => exact fate_opened rfl
  | released idle => exact .gone rfl rfl (.inl rfl)
  | asked idle found step dispatch counted numbered plain =>
    refine .kept rfl ?_
    rw [List.filterMap_append, quiet_noted]
    rfl
  | pulled busy room found =>
    have hdrain : ∀ system : Events.Stream.System ρ ω, ∀ max, Events.Stream.step host.observe system (.drain max) =
        some { system with inner := system.inner.drain max } := fun _ _ => rfl
    exact fate_pushed rfl found (hdrain _ _) (List.map_map ..).symm
  | @polled frame named max events wait busy =>
    by_cases hended : engine.ended stream = true
    · refine .gone ?_ rfl (.inr hended)
      have hpruned : (engine.prune).streams stream = (engine.streams stream).filter fun _ => !engine.ended stream := rfl
      rw [hended] at hpruned
      refine hpruned.trans ?_
      cases engine.streams stream <;> rfl
    · refine .kept ?_ rfl
      have hpruned : (engine.prune).streams stream = (engine.streams stream).filter fun _ => !engine.ended stream := rfl
      rw [Bool.eq_false_iff.2 hended] at hpruned
      refine hpruned.trans ?_
      cases engine.streams stream <;> rfl
  | @beside other held beside system' found step =>
    obtain ⟨sessions, handling, hput⟩ := put_eq engine other { held with system := system' }
    rw [hput]
    exact .kept rfl (quiet_noted ..)
  | produced found step => exact fate_pushed rfl found step rfl
  | _ => exact .kept rfl rfl

end Fates

end Changes

end PactJanus.Protocol.Changes
