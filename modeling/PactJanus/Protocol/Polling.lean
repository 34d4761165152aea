import PactJanus.Events.Delivery
import PactJanus.Protocol.Lifetimes

namespace PactJanus.Protocol.Polling

open PactJanus.Lib.Machine PactJanus.Lib.PartialMap PactJanus.Events.Stream PactJanus.Events.Delivery
open PactJanus.Protocol.Dispatcher (Host Engine Act Result streamName)
open PactJanus.Protocol.Changes PactJanus.Protocol.Lifetimes

/-! What a host reads of its streams, from the answers to its polls. -/

/-- The events of one stream. -/
def eventsOf (stream : String) (events : List Event) : List Event := events.filter fun event => event.stream = stream

/-- What polls were answered with of one stream. -/
def readOf (stream : String) (seen : List Dispatcher.Note) : List Event :=
  seen.flatMap fun note =>
    match note with
    | .answered _ (.ok (.events events)) => eventsOf stream events
    | _ => []

theorem readOf_append (stream : String) (first second : List Dispatcher.Note) :
    readOf stream (first ++ second) = readOf stream first ++ readOf stream second := List.flatMap_append

/-! One stream, whatever becomes of its buffer. -/

/-- What holds of a stream's buffer all along. -/
structure Traced (id : String) (inner : Inner) (seen : List Note) : Prop extends Buffered inner seen where
  named : ∀ event ∈ appended seen, event.stream = id
  ended : inner.deliveredLast = (delivered seen).any Event.last

theorem traced_new (id : String) : Traced id .new [] where
  toBuffered := ⟨rfl, rfl, rfl⟩
  named _ hmem := absurd hmem List.not_mem_nil
  ended := rfl

theorem traced_change {id : String} {fresh : Prop} {inner inner' : Inner} {seen new : List Note}
    (h : Traced id inner seen) (hchange : Events.Delivery.Change id fresh inner inner' new) :
    Traced id inner' (seen ++ new) where
  toBuffered := buffered_change h.toBuffered hchange
  named event hmem := by
    rw [appended_append, List.mem_append] at hmem
    obtain hmem | hmem := hmem
    · exact h.named event hmem
    · cases hchange with
      | none => exact absurd hmem List.not_mem_nil
      | drop entry produced => exact absurd hmem List.not_mem_nil
      | append entry open' =>
        obtain rfl := List.mem_singleton.1 hmem
        rfl
      | drain max =>
        rw [appended_delivered] at hmem
        exact absurd hmem List.not_mem_nil
  ended := by
    rw [delivered_append, List.any_append, ← h.ended]
    cases hchange with
    | none => exact (Bool.or_false _).symm
    | drop entry produced => exact (Bool.or_false _).symm
    | append entry open' => exact (Bool.or_false _).symm
    | drain max =>
      rw [delivered_delivered]
      rfl

theorem Traced.pending_named {id : String} {inner : Inner} {seen : List Note} (h : Traced id inner seen) :
    ∀ event ∈ inner.pending, event.stream = id := by
  intro event hmem
  exact h.named event (h.order ▸ List.mem_append_right _ hmem)

theorem eventsOf_append (stream : String) (first second : List Event) :
    eventsOf stream (first ++ second) = eventsOf stream first ++ eventsOf stream second := List.filter_append ..

private theorem eventsOf_named {stream id : String} {events : List Event} (h : ∀ event ∈ events, event.stream = id) :
    eventsOf stream events = if id = stream then events else [] := by
  split
  · rename_i heq
    subst heq
    exact List.filter_eq_self.2 fun event hmem => decide_eq_true (h event hmem)
  · rename_i hne
    exact List.filter_eq_nil_iff.2 fun event hmem heq => hne ((h event hmem).symm.trans (of_decide_eq_true heq))

section Streams

variable {ρ ω : Type}

/-- What the poll being answered has in hand of one stream. -/
def inHand : Dispatcher.Handling → String → List Event
  | .polling _ _ _ _ events _, stream => eventsOf stream events
  | _, _ => []

/-- A session put back does not touch what a poll has in hand. -/
theorem inHand_put (engine : Engine ρ ω) (session : String) (held : Dispatcher.Held) (stream : String) :
    inHand (engine.put session held).handling stream = inHand engine.handling stream :=
  handling_put (f := fun handling => inHand handling stream) (fun _ _ _ _ _ => rfl) engine session held

theorem readOf_plain {frame : String} {answer : Except Contracts.Files.EngineError Result} (h : isPlain answer = true)
    (stream : String) : readOf stream [.answered frame answer] = [] := by
  cases answer with
  | error error => rfl
  | ok result =>
    cases result with
    | events events => cases h
    | _ => rfl

private theorem readOf_finalised (engine : Engine ρ ω) (host : Host ω) (frame : String) (held : Dispatcher.Held)
    (write : Option (String × Contracts.Files.Mode)) (stream : String) :
    readOf stream [.answered frame (engine.finaliseAnswer host held write)] = [] :=
  finaliseAnswer_all (P := fun answer => readOf stream [.answered frame answer] = []) (fun _ => rfl) (fun _ _ _ => rfl)
    host engine held write

private theorem readOf_noted (session : String) (held : Dispatcher.Held) (event : Session.Interleaving.Event)
    (stream : String) : readOf stream (noted session held event) = [] := flatMap_noted (fun _ _ => rfl) ..

private theorem readOf_streamed (other stream : String) (notes : List Note) :
    readOf stream (notes.map (.stream other)) = [] := flatMap_streamed (fun _ _ => rfl) ..

variable [DecidableEq ρ] {host : Host ω} {engine engine' : Engine ρ ω} {seen : List Dispatcher.Note}

/-- A producer delivers nothing. -/
theorem produce_delivers (system : System ρ ω) (produce : Dispatcher.Produce ρ) :
    delivered (notes host.observe system produce.act) = [] := by
  cases produce with
  | call producer kind payload last =>
    rw [notes, Dispatcher.Produce.act, System.move, System.call]
    split <;> rfl
  | push producer =>
    rw [notes, Dispatcher.Produce.act, System.move, System.push]
    split
    · split
      · rfl
      · split <;> rfl
    · rfl
  | wake producer =>
    rw [notes, Dispatcher.Produce.act, System.move, System.wake]
    split
    · split <;> rfl
    · rfl

/-- What a step takes out of a stream it has in hand, and what it had in hand it answers with. -/
theorem change_handed (h : Changes.Change host engine engine' seen)
    (hnamed : ∀ stream system, engine.streams stream = some system → ∀ event ∈ system.inner.pending, event.stream = stream)
    (stream : String) :
    inHand engine.handling stream ++ delivered (seen.filterMap (ofStream stream)) =
      readOf stream seen ++ inHand engine'.handling stream := by
  cases h with
  | quiet idle quiet plain => rw [idle, readOf_plain plain]; rfl
  | created idle => rw [idle]; rfl
  | verified idle => rw [idle]; rfl
  | published idle => rw [idle]; rfl
  | recorded idle => rw [idle]; rfl
  | observed idle found plain => rw [idle, readOf_plain plain]; rfl
  | shaped idle plain => rw [idle, readOf_plain plain]; rfl
  | released idle => rw [idle]; rfl
  | asked idle found step dispatch counted numbered plain =>
    rw [idle, readOf_append, readOf_noted, readOf_plain plain, List.filterMap_append, quiet_noted]
    rfl
  | serving idle found step => rw [idle]; rfl
  | armed busy found step => exact List.append_nil _
  | served busy found done plain => rw [busy, readOf_plain plain]; rfl
  | reporting idle found allowed step => rw [idle]; rfl
  | settled busy found step => exact List.append_nil _
  | reported busy found step plain => rw [busy, readOf_plain plain]; rfl
  | finalising idle found step => rw [idle]; rfl
  | drained busy step => rw [busy]; rfl
  | finalised busy done => rw [busy, readOf_finalised]; rfl
  | polling idle live => rw [idle]; rfl
  | @pulled frame other named left max events wait system busy room found =>
    have htaken : ∀ event ∈ system.inner.pending.take (max - events.length), event.stream = other := fun event hmem =>
      hnamed other system found event (List.mem_of_mem_take hmem)
    rw [← delivered_streamed, readOf_streamed, ofStream_streamed, busy]
    simp only [inHand, eventsOf_append, eventsOf_named htaken, List.nil_append]
    split
    · rw [delivered_delivered]
    · rfl
  | filled busy full =>
    rw [busy]
    exact List.append_nil _
  | waited busy => rw [busy]; rfl
  | polled busy =>
    rw [busy]
    exact ((List.append_nil _).trans (List.append_nil _).symm).trans (List.append_nil _).symm
  | beside found step =>
    rw [quiet_noted, readOf_noted, inHand_put]
    exact List.append_nil _
  | @produced other produce system system' found step =>
    rw [readOf_streamed, ofStream_streamed]
    split
    · rw [produce_delivers]
      exact List.append_nil _
    · exact List.append_nil _

/-- An engine that has been shut down stays so. -/
theorem change_shutDown (h : Changes.Change host engine engine' seen) (hshut : engine.shutDown = true) :
    engine'.shutDown = true := by
  cases h with
  | quiet idle quiet plain => exact quiet.shutDown.trans hshut
  | released idle => rfl
  | @beside session held beside system' found step =>
    obtain ⟨sessions, handling, hput⟩ := put_eq engine session { held with system := system' }
    rw [hput]
    exact hshut
  | _ => exact hshut

/-- What holds all along a run of what is noted of one stream, what its buffer comes to and what was answered of it. -/
structure Followed (engine : Engine ρ ω) (seen : List Dispatcher.Note) (id : String) (inner : Inner) : Prop where
  traced : Traced id inner (seen.filterMap (ofStream id))
  live : ∀ system, engine.streams id = some system → system.id = id ∧ system.inner = inner
  gone : ∀ n, id = streamName n → id ∈ given seen → engine.streams id = none →
    engine.shutDown = true ∨ inner.deliveredLast = true
  silent : Unborn .stream id engine → seen.filterMap (ofStream id) = []
  handed : readOf id seen ++ inHand engine.handling id = delivered (seen.filterMap (ofStream id))

omit [DecidableEq ρ] in
theorem followed_new (id : String) : Followed (Engine.new : Engine ρ ω) [] id .new where
  traced := traced_new id
  live _ h := by cases h
  gone _ _ hmem := absurd hmem List.not_mem_nil
  silent _ := rfl
  handed := rfl

theorem followed_change {old : List Dispatcher.Note} (h : Changes.Change host engine engine' seen)
    (hplaced : Placed engine) (hs : ∀ id, ∃ inner, Followed engine old id inner) (id : String) :
    ∃ inner, Followed engine' (old ++ seen) id inner := by
  obtain ⟨inner, hf⟩ := hs id
  have hnamed : ∀ stream system, engine.streams stream = some system → ∀ event ∈ system.inner.pending,
      event.stream = stream := by
    intro stream system hsystem
    obtain ⟨other, hother⟩ := hs stream
    rw [(hother.live system hsystem).2]
    exact hother.traced.pending_named
  have hhanded : readOf id (old ++ seen) ++ inHand engine'.handling id =
      delivered ((old ++ seen).filterMap (ofStream id)) := by
    rw [readOf_append, List.append_assoc, ← change_handed h hnamed id, ← List.append_assoc, hf.handed,
      List.filterMap_append, delivered_append]
  have hgone : ∀ n, id = streamName n → id ∈ given (old ++ seen) → engine'.streams id = none →
      engine.streams id = none → engine'.shutDown = true ∨ inner.deliveredLast = true := by
    intro n hname hmem hnone hbefore
    rw [given_append, List.mem_append] at hmem
    obtain hmem | hmem := hmem
    · exact (hf.gone n hname hmem hbefore).imp_left (change_shutDown h)
    · obtain ⟨kind, hkind, -, hlive⟩ := (change_given h).2 id hmem
      obtain ⟨rfl, -⟩ := @name_injective .stream kind n _ (hname.symm.trans hkind)
      exact absurd hnone hlive
  have hunborn : Unborn .stream id engine' → Unborn .stream id engine := unborn_change h
  cases stream_fate h id with
  | kept same quiet =>
    refine ⟨inner, ?_, ?_, ?_, ?_, hhanded⟩
    · rw [List.filterMap_append, quiet, List.append_nil]
      exact hf.traced
    · rw [same]
      exact hf.live
    · exact fun n hname hmem hnone => hgone n hname hmem hnone (same.symm.trans hnone)
    · intro hnot
      rw [List.filterMap_append, quiet, List.append_nil]
      exact hf.silent (hunborn hnot)
  | stepped system act system' found step after noted =>
    obtain ⟨hid, hchange⟩ := Events.Delivery.step_change step
    obtain ⟨hname, rfl⟩ := hf.live system found
    refine ⟨system'.inner, ?_, ?_, ?_, ?_, hhanded⟩
    · rw [List.filterMap_append, noted]
      rw [hname] at hchange
      exact traced_change hf.traced hchange
    · intro other hother
      obtain rfl := Option.some.inj (after.symm.trans hother)
      exact ⟨hid.trans hname, rfl⟩
    · exact fun n hkind hmem hnone => by cases hnone.symm.trans after
    · exact fun hnot => absurd (by simp [Live, found]) (unborn_not_live hplaced (hunborn hnot))
  | gone after quiet spent =>
    refine ⟨inner, ?_, ?_, ?_, ?_, hhanded⟩
    · rw [List.filterMap_append, quiet, List.append_nil]
      exact hf.traced
    · exact fun system hsystem => by cases after.symm.trans hsystem
    · refine fun n hname hmem hnone => spent.imp_right fun hended => ?_
      obtain ⟨system, hsystem, hlast⟩ := (Option.any_eq_true _ _).1 hended
      rw [← (hf.live system hsystem).2]
      exact hlast
    · intro hnot
      rw [List.filterMap_append, quiet, List.append_nil]
      exact hf.silent (hunborn hnot)
  | begun observer new after quiet answer =>
    have hsilent : (old ++ seen).filterMap (ofStream id) = [] := by
      rw [List.filterMap_append, quiet, List.append_nil]
      refine hf.silent ?_
      rw [new]
      exact unborn_next .stream
    refine ⟨.new, ?_, ?_, ?_, fun _ => hsilent, hhanded⟩
    · rw [hsilent]
      exact traced_new id
    · intro system hsystem
      obtain rfl := Option.some.inj (after.symm.trans hsystem)
      exact ⟨rfl, rfl⟩
    · exact fun n hname hmem hnone => by cases hnone.symm.trans after

variable (host) in
/-- What was appended to a stream along a run. -/
def written (acts : List (Act ρ)) (stream : String) : List Event :=
  appended ((log (Dispatcher.step host) (Dispatcher.notes host) Engine.new acts).filterMap (ofStream stream))

variable (host) in
/-- What the polls of a run were answered with of a stream. -/
def received (acts : List (Act ρ)) (stream : String) : List Event :=
  readOf stream (log (Dispatcher.step host) (Dispatcher.notes host) Engine.new acts)

/-- Whatever its polls name and however they are interleaved with the producers and with one another, a host reads of
each stream what was appended to it, in order and numbered from one, with nothing lost and nothing twice: what it has
not read yet is in the hands of its poll or still in the stream's buffer. A stream is gone only once its terminal event
is read, or the engine shut down. -/
theorem events_polled {acts : List (Act ρ)} (h : run (Dispatcher.step host) Engine.new acts = some engine) (id : String) :
    ∃ pending, received host acts id ++ inHand engine.handling id ++ pending = written host acts id ∧
      (written host acts id).map Event.seq = List.range' 1 (written host acts id).length ∧
      (∀ system, engine.streams id = some system → system.inner.pending = pending) ∧
      ∀ n, id = streamName n → id ∈ given (log (Dispatcher.step host) (Dispatcher.notes host) Engine.new acts) →
        engine.streams id = none → engine.shutDown = true ∨
          ∃ event ∈ received host acts id ++ inHand engine.handling id, event.last = true := by
  obtain ⟨-, hall⟩ := run_invariant (I := fun engine seen => Placed engine ∧ ∀ id, ∃ inner, Followed engine seen id inner)
    ⟨placed_new, fun id => ⟨.new, followed_new id⟩⟩
    (fun s act t seen hs hstep => ⟨placed_change (step_change hstep) hs.1,
      followed_change (step_change hstep) hs.1 hs.2⟩) h
  obtain ⟨inner, hf⟩ := hall id
  refine ⟨inner.pending, ?_, hf.traced.seqs, fun system hsystem => by rw [(hf.live system hsystem).2], ?_⟩
  · rw [received, hf.handed]
    exact hf.traced.order
  · intro n hname hmem hnone
    refine (hf.gone n hname hmem hnone).imp_right fun hlast => ?_
    rw [received, hf.handed]
    rw [hf.traced.ended] at hlast
    exact List.any_eq_true.1 hlast

end Streams

theorem events_polled_over :
    ∃ engine : Engine Unit Unit, run (Dispatcher.step hosted) Engine.new polled = some engine ∧ ∃ pending,
      received hosted polled "s-1" ++ inHand engine.handling "s-1" ++ pending = written hosted polled "s-1" := by
  obtain ⟨engine, hrun⟩ : ∃ engine : Engine Unit Unit, run (Dispatcher.step hosted) Engine.new polled = some engine :=
    ⟨_, rfl⟩
  obtain ⟨pending, horder, -⟩ := events_polled hrun "s-1"
  exact ⟨engine, hrun, pending, horder⟩

/-! The runs the engine works at beside its frames, and their streams. -/

/-- The runs that were given out, each with its stream. -/
def begun (seen : List Dispatcher.Note) : List (String × String) :=
  seen.flatMap fun note =>
    match note with
    | .answered _ (.ok (.run id stream)) => [(id, stream)]
    | _ => []

theorem begun_append (first second : List Dispatcher.Note) : begun (first ++ second) = begun first ++ begun second :=
  List.flatMap_append

theorem begun_given {seen : List Dispatcher.Note} {id stream : String} (h : (id, stream) ∈ begun seen) :
    stream ∈ given seen := by
  obtain ⟨note, hnote, hmem⟩ := List.mem_flatMap.1 h
  refine List.mem_flatMap.2 ⟨note, hnote, ?_⟩
  split at hmem
  · obtain ⟨rfl, rfl⟩ := Prod.mk.inj (List.mem_singleton.1 hmem)
    exact List.mem_cons_of_mem _ List.mem_cons_self
  · exact absurd hmem List.not_mem_nil

section Runs

variable {ρ ω : Type}

/-- A verification or a publication that is going on. -/
def Running (engine : Engine ρ ω) (id stream : String) : Prop :=
  engine.verifications id = some stream ∨ engine.publications id = some stream

/-- What holds all along a run of the work beside the frames: it and its stream are there together. -/
structure Joined (engine : Engine ρ ω) (seen : List Dispatcher.Note) : Prop where
  live : ∀ id stream, Running engine id stream → engine.streams stream ≠ none ∧ (id, stream) ∈ begun seen
  running : ∀ id stream, (id, stream) ∈ begun seen → engine.streams stream ≠ none → Running engine id stream
  owned : ∀ stream, engine.streams stream ≠ none → ∃ id, Running engine id stream
  alone : ∀ id other stream, Running engine id stream → Running engine other stream → id = other

variable [DecidableEq ρ] {host : Host ω} {engine engine' : Engine ρ ω} {seen : List Dispatcher.Note}

private theorem begun_plain {frame : String} {answer : Except Contracts.Files.EngineError Result}
    (h : isPlain answer = true) : begun [.answered frame answer] = [] := by
  cases answer with
  | error error => rfl
  | ok result =>
    cases result with
    | run id stream => cases h
    | _ => rfl

omit [DecidableEq ρ] in
private theorem begun_finalised (frame : String) (held : Dispatcher.Held)
    (write : Option (String × Contracts.Files.Mode)) :
    begun [.answered frame (engine.finaliseAnswer host held write)] = [] :=
  finaliseAnswer_all (P := fun answer => begun [.answered frame answer] = []) (fun _ => rfl) (fun _ _ _ => rfl)
    host engine held write

omit [DecidableEq ρ] in
private theorem joined_same {old : List Dispatcher.Note} (hs : Joined engine old)
    (hstreams : ∀ id, engine'.streams id ≠ none ↔ engine.streams id ≠ none)
    (hverifications : engine'.verifications = engine.verifications) (hpublications : engine'.publications = engine.publications)
    (hseen : begun seen = []) : Joined engine' (old ++ seen) := by
  have hrunning : ∀ id stream, Running engine' id stream ↔ Running engine id stream := by
    intro id stream
    rw [Running, Running, hverifications, hpublications]
  have hbegun : begun (old ++ seen) = begun old := by rw [begun_append, hseen, List.append_nil]
  constructor <;> simp only [hrunning, hstreams, hbegun]
  · exact hs.live
  · exact hs.running
  · exact hs.owned
  · exact hs.alone

omit [DecidableEq ρ] in
private theorem joined_opened {old : List Dispatcher.Note} {id : String} (hsound : Sound engine old) (hs : Joined engine old)
    (hstreams : ∀ stream, engine'.streams stream ≠ none ↔
      engine.streams stream ≠ none ∨ stream = streamName (engine.nextStream + 1))
    (hrunning : ∀ other stream, Running engine' other stream ↔
      Running engine other stream ∨ other = id ∧ stream = streamName (engine.nextStream + 1))
    (hseen : begun seen = [(id, streamName (engine.nextStream + 1))]) : Joined engine' (old ++ seen) := by
  have hnot : engine.streams (streamName (engine.nextStream + 1)) = none :=
    by_contra (unborn_not_live hsound.toPlaced (unborn_next .stream))
  have hfresh : ∀ other, (other, streamName (engine.nextStream + 1)) ∉ begun old := fun other hmem =>
    not_issued_next .stream (hsound.issued _ (begun_given hmem))
  constructor <;> simp only [hstreams, hrunning, begun_append, hseen, List.mem_append, List.mem_singleton, Prod.mk.injEq]
  · rintro other stream (hold | ⟨rfl, rfl⟩)
    · exact ⟨.inl (hs.live other stream hold).1, .inl (hs.live other stream hold).2⟩
    · exact ⟨.inr rfl, .inr ⟨rfl, rfl⟩⟩
  · rintro other stream (hold | ⟨rfl, rfl⟩) hlive
    · obtain hlive | rfl := hlive
      · exact .inl (hs.running other stream hold hlive)
      · exact absurd hold (hfresh other)
    · exact .inr ⟨rfl, rfl⟩
  · rintro stream (hlive | rfl)
    · obtain ⟨other, hother⟩ := hs.owned stream hlive
      exact ⟨other, .inl hother⟩
    · exact ⟨id, .inr ⟨rfl, rfl⟩⟩
  · rintro first second stream (hfirst | ⟨rfl, rfl⟩) (hsecond | ⟨rfl, hstream⟩)
    · exact hs.alone first second stream hfirst hsecond
    · rw [hstream] at hfirst
      exact absurd hnot (hs.live first _ hfirst).1
    · exact absurd hnot (hs.live second _ hsecond).1
    · rfl

private theorem insert_new_iff {α : Type} (map : PMap String α) (key : String) (v : α) (id : String) :
    map.insert key v id ≠ none ↔ map id ≠ none ∨ id = key := by
  rw [PMap.insert_apply]
  split
  · rename_i heq
    exact iff_of_true (Option.some_ne_none v) (.inr heq)
  · rename_i hne
    exact (or_iff_left hne).symm

private theorem insert_some_iff {map : PMap String String} {key stream : String} (hnone : map key = none) (id other : String) :
    map.insert key stream id = some other ↔ map id = some other ∨ id = key ∧ other = stream := by
  rw [PMap.insert_apply]
  split
  · rename_i heq
    subst heq
    simp [hnone, eq_comm]
  · rename_i hne
    simp [hne]

omit [DecidableEq ρ] in
private theorem prune_running (id stream : String) :
    Running engine.prune id stream ↔ Running engine id stream ∧ engine.ended stream = false := by
  simp only [Running, Engine.prune, Option.filter_eq_some_iff, Bool.not_eq_true']
  exact or_and_right.symm

omit [DecidableEq ρ] in
private theorem prune_streams (stream : String) :
    engine.prune.streams stream ≠ none ↔ engine.streams stream ≠ none ∧ engine.ended stream = false := by
  have hprune : engine.prune.streams stream = (engine.streams stream).filter fun _ => !engine.ended stream := rfl
  rw [hprune]
  cases engine.streams stream <;> cases engine.ended stream <;> simp

theorem joined_change {old : List Dispatcher.Note} (h : Changes.Change host engine engine' seen) (hsound : Sound engine old)
    (hs : Joined engine old) : Joined engine' (old ++ seen) := by
  cases h with
  | quiet idle quiet plain =>
    exact joined_same hs (fun id => by rw [← quiet.streams]) quiet.verifications quiet.publications (begun_plain plain)
  | @verified frame observer transports idle =>
    have hnew : engine.verifications (Dispatcher.verificationName (engine.nextVerification + 1)) = none :=
      by_contra (@unborn_not_live _ _ _ .verification _ hsound.toPlaced (unborn_next .verification))
    refine joined_opened hsound hs (fun stream => ?_) (fun other stream => ?_) rfl
    · exact insert_new_iff ..
    · rw [Running, Running, insert_some_iff hnew]
      tauto
  | @published frame idle =>
    have hnew : engine.publications (Dispatcher.publicationName (engine.nextPublication + 1)) = none :=
      by_contra (@unborn_not_live _ _ _ .publication _ hsound.toPlaced (unborn_next .publication))
    refine joined_opened hsound hs (fun stream => ?_) (fun other stream => ?_) rfl
    · exact insert_new_iff ..
    · rw [Running, Running, insert_some_iff hnew]
      tauto
  | released idle =>
    constructor
    · rintro id stream (hnone | hnone)
      · cases hnone
      · cases hnone
    · exact fun id stream hmem hlive => absurd rfl hlive
    · exact fun stream hlive => absurd rfl hlive
    · rintro id other stream (hnone | hnone)
      · cases hnone
      · cases hnone
  | observed idle found plain => exact joined_same hs (fun _ => Iff.rfl) rfl rfl (begun_plain plain)
  | shaped idle plain => exact joined_same hs (fun _ => Iff.rfl) rfl rfl (begun_plain plain)
  | asked idle found step dispatch counted numbered plain =>
    refine joined_same hs (fun _ => Iff.rfl) rfl rfl ?_
    rw [begun_append, begun_plain plain, List.append_nil]
    exact flatMap_noted (fun _ _ => rfl) ..
  | served busy found done plain => exact joined_same hs (fun _ => Iff.rfl) rfl rfl (begun_plain plain)
  | reported busy found step plain => exact joined_same hs (fun _ => Iff.rfl) rfl rfl (begun_plain plain)
  | finalised busy done => exact joined_same hs (fun _ => Iff.rfl) rfl rfl (begun_finalised ..)
  | pulled busy room found =>
    refine joined_same hs (insert_live_iff found) rfl rfl ?_
    rw [← delivered_streamed]
    exact flatMap_streamed (fun _ _ => rfl) ..
  | polled busy =>
    have hrunning : ∀ id stream, Running { engine.prune with handling := .idle } id stream ↔
        Running engine id stream ∧ engine.ended stream = false := prune_running
    constructor <;> simp only [hrunning, prune_streams, begun_append]
    · rintro id stream ⟨hold, hended⟩
      exact ⟨⟨(hs.live id stream hold).1, hended⟩, List.mem_append_left _ (hs.live id stream hold).2⟩
    · rintro id stream hmem ⟨hlive, hended⟩
      have hold : (id, stream) ∈ begun old := (List.mem_append.1 hmem).resolve_right List.not_mem_nil
      exact ⟨hs.running id stream hold hlive, hended⟩
    · rintro stream ⟨hlive, hended⟩
      obtain ⟨id, hrunning⟩ := hs.owned stream hlive
      exact ⟨id, hrunning, hended⟩
    · rintro id other stream ⟨hold, -⟩ ⟨hother, -⟩
      exact hs.alone id other stream hold hother
  | @beside session held beside system' found step =>
    obtain ⟨sessions, handling, hput⟩ := put_eq engine session { held with system := system' }
    rw [hput]
    exact joined_same hs (fun _ => Iff.rfl) rfl rfl (flatMap_noted (fun _ _ => rfl) ..)
  | produced found step => exact joined_same hs (insert_live_iff found) rfl rfl (flatMap_streamed (fun _ _ => rfl) ..)
  | _ => exact joined_same hs (fun _ => Iff.rfl) rfl rfl rfl

omit [DecidableEq ρ] in
theorem joined_new : Joined (Engine.new : Engine ρ ω) [] where
  live _ _ h := by rcases h with h | h <;> cases h
  running _ _ hmem := absurd hmem List.not_mem_nil
  owned _ h := absurd rfl h
  alone _ _ _ h := by rcases h with h | h <;> cases h

/-- All along a run each verification and each publication is there exactly as long as the stream it was answered with,
and each stream that is there is the stream of one of them and of no other. -/
theorem runs_end_with_streams {acts : List (Act ρ)} (h : run (Dispatcher.step host) Engine.new acts = some engine) :
    (∀ id stream, (id, stream) ∈ begun (log (Dispatcher.step host) (Dispatcher.notes host) Engine.new acts) →
      (Running engine id stream ↔ Live engine .stream stream)) ∧
      ∀ stream, Live engine .stream stream → ∃ id,
        (id, stream) ∈ begun (log (Dispatcher.step host) (Dispatcher.notes host) Engine.new acts) ∧
          ∀ other, Running engine other stream ↔ other = id := by
  obtain ⟨-, hjoined⟩ := run_invariant (I := fun engine seen => Sound engine seen ∧ Joined engine seen)
    ⟨sound_new, joined_new⟩ (fun s act t seen hs hstep => ⟨sound_change (step_change hstep) hs.1,
      joined_change (step_change hstep) hs.1 hs.2⟩) h
  refine ⟨fun id stream hmem => ⟨fun hrunning => (hjoined.live id stream hrunning).1, hjoined.running id stream hmem⟩,
    fun stream hlive => ?_⟩
  obtain ⟨id, hrunning⟩ := hjoined.owned stream hlive
  refine ⟨id, (hjoined.live id stream hrunning).2, fun other => ⟨fun hother => hjoined.alone other id stream hother hrunning, ?_⟩⟩
  rintro rfl
  exact hrunning

end Runs

/-- The run whose terminal event was read is over. -/
theorem runs_end_with_streams_over :
    ∃ engine : Engine Unit Unit, run (Dispatcher.step hosted) Engine.new polled = some engine ∧
      ¬Running engine "vs-1" "s-1" := by
  obtain ⟨engine, hrun, hbegun, hgone⟩ : ∃ engine : Engine Unit Unit,
      run (Dispatcher.step hosted) Engine.new polled = some engine ∧
        ("vs-1", "s-1") ∈ begun (log (Dispatcher.step hosted) (Dispatcher.notes hosted) (Engine.new : Engine Unit Unit) polled) ∧
        engine.streams "s-1" = none := ⟨_, rfl, List.mem_cons_self, rfl⟩
  exact ⟨engine, hrun, fun hrunning => ((runs_end_with_streams hrun).1 "vs-1" "s-1" hbegun).1 hrunning hgone⟩

end PactJanus.Protocol.Polling
