import PactJanus.Data.Spelling
import PactJanus.Protocol.Changes
import PactJanus.Session.Attribution

namespace PactJanus.Protocol.Lifetimes

open PactJanus.Lib.Machine PactJanus.Lib.PartialMap PactJanus.Protocol.Dispatcher PactJanus.Protocol.Changes

/-! The ids of sessions and streams: given out once, and spent for good when what they name has ended. -/

/-- What an id can name. -/
inductive Kind where
  | session | verification | recording | publication | stream

def name : Kind → Nat → String
  | .session => sessionName
  | .verification => verificationName
  | .recording => recordingName
  | .publication => publicationName
  | .stream => streamName

theorem name_injective {kind kind' : Kind} {m n : Nat} (h : name kind m = name kind' n) : kind = kind' ∧ m = n := by
  have hlist := congrArg String.toList h
  cases kind <;> cases kind' <;>
    simp only [name, sessionName, verificationName, recordingName, publicationName, streamName, String.toList_append,
      reduceCtorEq, false_and] at hlist ⊢
  all_goals first
    | exact ⟨trivial, Data.Spelling.repr_injective (String.toList_inj.1 (List.append_cancel_left hlist))⟩
    | exact absurd (congrArg List.head? hlist) (by simp)

variable {ρ ω : Type}

/-- How many ids of a kind have been used up. -/
def counter (engine : Engine ρ ω) : Kind → Nat
  | .session => engine.nextSession
  | .verification => engine.nextVerification
  | .recording => engine.nextRecording
  | .publication => engine.nextPublication
  | .stream => engine.nextStream

/-- What an id names is there. -/
def Live (engine : Engine ρ ω) (kind : Kind) (id : String) : Prop :=
  match kind with
  | .session => engine.held id ≠ none
  | .verification => engine.verifications id ≠ none
  | .recording => engine.recordings id ≠ none
  | .publication => engine.publications id ≠ none
  | .stream => engine.streams id ≠ none

theorem given_noted (session : String) (held : Held) (event : Session.Interleaving.Event) :
    given (noted session held event) = [] := flatMap_noted (fun _ _ => rfl) ..

theorem given_streamed (stream : String) (seen : List Events.Stream.Note) : given (seen.map (.stream stream)) = [] :=
  flatMap_streamed (fun _ _ => rfl) ..

theorem given_append (first second : List Note) : given (first ++ second) = given first ++ given second :=
  List.flatMap_append

private theorem insert_live {α : Type} {map : PMap String α} {key id : String} {v : α}
    (h : map.insert key v id ≠ none) : map id ≠ none ∨ id = key := by
  rw [PMap.insert_apply] at h
  split at h
  · exact .inr (by assumption)
  · exact .inl h

private theorem remove_live {α : Type} {map : PMap String α} {key id : String} (h : map.remove key id ≠ none) :
    map id ≠ none := by
  rw [PMap.remove_apply] at h
  split at h
  · exact absurd rfl h
  · exact h

private theorem filter_live {α : Type} {v : Option α} {p : α → Bool} (h : v.filter p ≠ none) : v ≠ none := by
  rintro rfl
  exact h rfl

section Changes

variable [DecidableEq ρ] {host : Host ω} {engine engine' : Engine ρ ω} {seen : List Note}

/-- Numbers are used up and never handed back. -/
theorem change_counter (h : Change host engine engine' seen) (kind : Kind) :
    counter engine kind ≤ counter engine' kind := by
  cases h with
  | quiet idle quiet plain =>
    cases kind with
    | session => exact quiet.nextSession
    | verification => exact quiet.nextVerification
    | recording => exact quiet.nextRecording
    | publication => exact quiet.nextPublication
    | stream => exact quiet.nextStream
  | beside found step =>
    obtain ⟨sessions, handling, hput⟩ := put_eq engine _ _
    rw [hput]
    cases kind <;> exact Nat.le_refl _
  | _ => cases kind <;> simp [counter, stepped, Engine.openStream, Engine.prune]

/-- What was live after a step was live before it, or is new and given out by the answer. -/
theorem change_live (h : Change host engine engine' seen) (hapart : Apart engine) {kind : Kind} {id : String}
    (hlive : Live engine' kind id) :
    Live engine kind id ∨ id = name kind (counter engine kind + 1) ∧ id ∈ given seen := by
  cases kind with
  | session =>
    cases session_fate h hapart id with
    | kept same quiet => exact .inl fun hnone => hlive (same.trans hnone)
    | stepped held event system' found step after noted =>
      exact .inl fun hnone => by cases found.symm.trans hnone
    | gone after quiet => exact absurd after hlive
    | begun scope policy consumer provider new after quiet answer => exact .inr ⟨new, by simp [answer]⟩
  | stream =>
    cases stream_fate h id with
    | kept same quiet => exact .inl fun hnone => hlive (same.trans hnone)
    | stepped system act system' found step after noted => exact .inl fun hnone => by cases found.symm.trans hnone
    | gone after quiet spent => exact absurd after hlive
    | begun observer new after quiet answer => exact .inr ⟨new, answer⟩
  | verification =>
    cases h with
    | quiet idle quiet plain => exact .inl fun hnone => hlive ((congrFun quiet.verifications id).trans hnone)
    | verified idle =>
      obtain hold | rfl := insert_live hlive
      · exact .inl hold
      · exact .inr ⟨rfl, by simp [given, gives]⟩
    | released idle => exact absurd rfl hlive
    | polled busy => exact .inl (filter_live hlive)
    | beside found step =>
      obtain ⟨sessions, handling, hput⟩ := put_eq engine _ _
      rw [hput] at hlive
      exact .inl hlive
    | _ => exact .inl hlive
  | publication =>
    cases h with
    | quiet idle quiet plain => exact .inl fun hnone => hlive ((congrFun quiet.publications id).trans hnone)
    | published idle =>
      obtain hold | rfl := insert_live hlive
      · exact .inl hold
      · exact .inr ⟨rfl, by simp [given, gives]⟩
    | released idle => exact absurd rfl hlive
    | polled busy => exact .inl (filter_live hlive)
    | beside found step =>
      obtain ⟨sessions, handling, hput⟩ := put_eq engine _ _
      rw [hput] at hlive
      exact .inl hlive
    | _ => exact .inl hlive
  | recording =>
    cases h with
    | quiet idle quiet plain => exact .inl fun hnone => hlive ((congrFun quiet.recordings id).trans hnone)
    | recorded idle =>
      obtain hold | rfl := insert_live hlive
      · exact .inl hold
      · exact .inr ⟨rfl, by simp [given, gives]⟩
    | observed idle found plain => exact .inl ((insert_live_iff found id).1 hlive)
    | shaped idle plain => exact .inl (remove_live hlive)
    | released idle => exact absurd rfl hlive
    | beside found step =>
      obtain ⟨sessions, handling, hput⟩ := put_eq engine _ _
      rw [hput] at hlive
      exact .inl hlive
    | _ => exact .inl hlive

/-- A frame that ends a session keeps it to itself. -/
theorem change_apart (h : Change host engine engine' seen) (hapart : Apart engine) : Apart engine' := by
  intro frame session held write hending
  cases h with
  | armed busy found step => cases busy.symm.trans hending
  | settled busy found step => cases busy.symm.trans hending
  | finalising idle found step =>
    obtain ⟨rfl, rfl, rfl, rfl⟩ := Handling.finalising.inj hending
    exact (PMap.remove_apply ..).trans (if_pos rfl)
  | drained busy step =>
    obtain ⟨rfl, rfl, rfl, rfl⟩ := Handling.finalising.inj hending
    exact hapart _ _ _ _ busy
  | @beside other held' beside system' found step =>
    rw [Engine.put] at hending ⊢
    split at hending
    · rename_i frame' ending held'' write' hhandling
      have hnone := hapart _ _ _ _ hhandling
      by_cases hother : other = ending
      · rw [if_pos hother] at hending ⊢
        obtain ⟨rfl, rfl, rfl, rfl⟩ := Handling.finalising.inj hending
        exact hnone
      · rw [if_neg hother] at hending ⊢
        obtain ⟨rfl, rfl, rfl, rfl⟩ := Handling.finalising.inj (hhandling.symm.trans hending)
        exact (PMap.insert_apply ..).trans ((if_neg (Ne.symm hother)).trans hnone)
    · rename_i hnot
      exact absurd hending (hnot _ _ _ _)
  | produced found step => exact hapart _ _ _ _ hending
  | _ => cases hending

omit [DecidableEq ρ] in
private theorem gives_finalised (engine : Engine ρ ω) (held : Held) (write : Option (String × Contracts.Files.Mode)) :
    gives (engine.finaliseAnswer host held write) = [] :=
  finaliseAnswer_all (P := fun answer => gives answer = []) (fun _ => rfl) (fun _ _ _ => rfl) host engine held write

/-- What an answer gives out is new, used up with it, and there. -/
theorem change_given (h : Change host engine engine' seen) :
    (given seen).Nodup ∧ ∀ id ∈ given seen, ∃ kind, id = name kind (counter engine kind + 1) ∧
      counter engine kind + 1 ≤ counter engine' kind ∧ Live engine' kind id := by
  have hnone : given seen = [] → (given seen).Nodup ∧ ∀ id ∈ given seen, ∃ kind,
      id = name kind (counter engine kind + 1) ∧ counter engine kind + 1 ≤ counter engine' kind ∧ Live engine' kind id := by
    intro hnil
    rw [hnil]
    exact ⟨List.nodup_nil, fun _ hid => absurd hid List.not_mem_nil⟩
  have hone : ∀ {frame : String} {answer : Except Contracts.Files.EngineError Result}, gives answer = [] →
      given [.answered frame answer] = [] := by
    intro frame answer hnothing
    simp [given, hnothing]
  cases h with
  | quiet idle quiet plain => exact hnone (hone (gives_plain plain))
  | created idle =>
    refine ⟨List.nodup_singleton _, fun id hid => ?_⟩
    obtain rfl := List.mem_singleton.1 hid
    exact ⟨.session, rfl, Nat.le_refl _, by simp [Live, Engine.held, PMap.insert_apply]⟩
  | recorded idle =>
    refine ⟨List.nodup_singleton _, fun id hid => ?_⟩
    obtain rfl := List.mem_singleton.1 hid
    exact ⟨.recording, rfl, Nat.le_refl _, by simp [Live, PMap.insert_apply]⟩
  | verified idle =>
    refine ⟨?_, ?_⟩
    · have hne : verificationName (engine.nextVerification + 1) ≠ streamName (engine.nextStream + 1) := fun heq =>
        by cases (@name_injective .verification .stream _ _ heq).1
      simpa [given, gives] using hne
    · simp only [given, gives, List.flatMap_cons, List.flatMap_nil, List.append_nil, List.forall_mem_cons]
      exact ⟨⟨.verification, rfl, Nat.le_refl _, by simp [Live, PMap.insert_apply]⟩,
        ⟨.stream, rfl, Nat.le_refl _, by simp [Live, Engine.openStream, PMap.insert_apply]⟩, fun _ hid => absurd hid List.not_mem_nil⟩
  | published idle =>
    refine ⟨?_, ?_⟩
    · have hne : publicationName (engine.nextPublication + 1) ≠ streamName (engine.nextStream + 1) := fun heq =>
        by cases (@name_injective .publication .stream _ _ heq).1
      simpa [given, gives] using hne
    · simp only [given, gives, List.flatMap_cons, List.flatMap_nil, List.append_nil, List.forall_mem_cons]
      exact ⟨⟨.publication, rfl, Nat.le_refl _, by simp [Live, PMap.insert_apply]⟩,
        ⟨.stream, rfl, Nat.le_refl _, by simp [Live, Engine.openStream, PMap.insert_apply]⟩, fun _ hid => absurd hid List.not_mem_nil⟩
  | observed idle found plain => exact hnone (hone (gives_plain plain))
  | shaped idle plain => exact hnone (hone (gives_plain plain))
  | asked idle found step dispatch counted numbered plain =>
    exact hnone (by rw [given_append, given_noted, hone (gives_plain plain)]; rfl)
  | served busy found done plain => exact hnone (hone (gives_plain plain))
  | reported busy found step plain => exact hnone (hone (gives_plain plain))
  | finalised busy done => exact hnone (hone (gives_finalised ..))
  | pulled busy room found => exact hnone (delivered_streamed .. ▸ given_streamed ..)
  | beside found step => exact hnone (given_noted ..)
  | produced found step => exact hnone (given_streamed ..)
  | _ => exact hnone rfl

end Changes

section Runs

variable [DecidableEq ρ] {host : Host ω} {engine engine' : Engine ρ ω} {seen : List Note}

/-- An id that was given out. -/
def Issued (engine : Engine ρ ω) (id : String) : Prop := ∃ kind n, 0 < n ∧ n ≤ counter engine kind ∧ id = name kind n

/-- What holds all along a run of what is live: it has been numbered. -/
structure Placed (engine : Engine ρ ω) : Prop where
  apart : Apart engine
  named : ∀ kind id, Live engine kind id → ∃ n, 0 < n ∧ n ≤ counter engine kind ∧ id = name kind n

omit [DecidableEq ρ] in
theorem placed_new : Placed (Engine.new : Engine ρ ω) where
  apart _ _ _ _ h := by cases h
  named kind _ h := by cases kind <;> exact absurd rfl h

theorem placed_change {seen : List Note} (h : Change host engine engine' seen) (hs : Placed engine) : Placed engine' where
  apart := change_apart h hs.apart
  named kind id hlive := by
    obtain hlive | ⟨rfl, hgiven⟩ := change_live h hs.apart hlive
    · obtain ⟨n, hpos, hn, hname⟩ := hs.named kind id hlive
      exact ⟨n, hpos, Nat.le_trans hn (change_counter h kind), hname⟩
    · obtain ⟨kind', hname, hcounter, -⟩ := (change_given h).2 _ hgiven
      obtain ⟨rfl, hsame⟩ := name_injective hname
      exact ⟨_, Nat.succ_pos _, hcounter, rfl⟩

/-- An id of a kind whose number is still to come. -/
def Unborn (kind : Kind) (id : String) (engine : Engine ρ ω) : Prop :=
  ∀ n, 0 < n → n ≤ counter engine kind → id ≠ name kind n

omit [DecidableEq ρ] in
theorem unborn_new (kind : Kind) (id : String) : Unborn kind id (Engine.new : Engine ρ ω) := by
  intro n hpos hn
  cases kind <;> exact absurd hn (Nat.not_le.2 hpos)

omit [DecidableEq ρ] in
theorem unborn_not_live {kind : Kind} {id : String} (hs : Placed engine) (h : Unborn kind id engine) :
    ¬Live engine kind id := by
  intro hlive
  obtain ⟨n, hpos, hn, hname⟩ := hs.named kind id hlive
  exact h n hpos hn hname

theorem unborn_change {kind : Kind} {id : String} {seen : List Note} (h : Change host engine engine' seen)
    (hunborn : Unborn kind id engine') : Unborn kind id engine :=
  fun n hpos hn => hunborn n hpos (Nat.le_trans hn (change_counter h kind))

omit [DecidableEq ρ] in
theorem unborn_next (kind : Kind) : Unborn kind (name kind (counter engine kind + 1)) engine := by
  intro n hpos hn heq
  obtain ⟨-, rfl⟩ := name_injective heq
  omega

/-- What holds all along a run of what was given out. -/
structure Sound (engine : Engine ρ ω) (seen : List Note) : Prop extends Placed engine where
  given : ∀ kind id, Live engine kind id → id ∈ given seen
  issued : ∀ id ∈ Changes.given seen, Issued engine id
  once : (Changes.given seen).Nodup

omit [DecidableEq ρ] in
theorem sound_new : Sound (Engine.new : Engine ρ ω) [] where
  toPlaced := placed_new
  given kind _ h := by cases kind <;> exact absurd rfl h
  issued _ h := absurd h List.not_mem_nil
  once := List.nodup_nil

theorem change_issued (h : Change host engine engine' seen) {id : String} (hid : Issued engine id) :
    Issued engine' id := by
  obtain ⟨kind, n, hpos, hn, hname⟩ := hid
  exact ⟨kind, n, hpos, Nat.le_trans hn (change_counter h kind), hname⟩

omit [DecidableEq ρ] in
theorem not_issued_next (kind : Kind) : ¬Issued engine (name kind (counter engine kind + 1)) := by
  rintro ⟨kind', n, hpos, hn, hname⟩
  obtain ⟨rfl, rfl⟩ := name_injective hname
  omega

theorem sound_change {old : List Note} (h : Change host engine engine' seen) (hs : Sound engine old) :
    Sound engine' (old ++ seen) where
  toPlaced := placed_change h hs.toPlaced
  given kind id hlive := by
    rw [given_append, List.mem_append]
    obtain hlive | ⟨-, hgiven⟩ := change_live h hs.apart hlive
    · exact .inl (hs.given kind id hlive)
    · exact .inr hgiven
  issued id hid := by
    rw [given_append, List.mem_append] at hid
    obtain hid | hid := hid
    · exact change_issued h (hs.issued id hid)
    · obtain ⟨kind, hname, hcounter, -⟩ := (change_given h).2 id hid
      exact ⟨kind, _, Nat.succ_pos _, hcounter, hname⟩
  once := by
    rw [given_append, List.nodup_append]
    refine ⟨hs.once, (change_given h).1, fun id hid other hother heq => ?_⟩
    obtain ⟨kind, hname, -⟩ := (change_given h).2 other hother
    have hissued := hs.issued id hid
    rw [heq, hname] at hissued
    exact not_issued_next kind hissued

theorem run_sound {acts : List (Act ρ)} (h : run (step host) Engine.new acts = some engine) :
    Sound engine (log (step host) (notes host) Engine.new acts) :=
  run_invariant sound_new (fun _ _ _ _ hs hstep => sound_change (step_change hstep) hs) h

/-- What was given out and is gone stays gone. -/
theorem run_gone {kind : Kind} {id : String} {more : List (Act ρ)} (hapart : Apart engine) (hid : Issued engine id)
    (hgone : ¬Live engine kind id) (h : run (step host) engine more = some engine') : ¬Live engine' kind id := by
  refine (run_preserves (I := fun engine => Apart engine ∧ Issued engine id ∧ ¬Live engine kind id)
    (fun s act t hs hstep => ?_) ⟨hapart, hid, hgone⟩ h).2.2
  have hchange := step_change hstep
  refine ⟨change_apart hchange hs.1, change_issued hchange hs.2.1, fun hlive => ?_⟩
  obtain hlive | ⟨rfl, -⟩ := change_live hchange hs.1 hlive
  · exact hs.2.2 hlive
  · exact not_issued_next kind hs.2.1

/-- All along a run no id is given out twice, to sessions or to streams of whatever kind; all that is there has an id
that was given out; and what was given out and is there no longer never is again. -/
theorem ids_given_once {acts : List (Act ρ)} (h : run (step host) Engine.new acts = some engine) :
    (given (log (step host) (notes host) Engine.new acts)).Nodup ∧
      (∀ kind id, Live engine kind id → id ∈ given (log (step host) (notes host) Engine.new acts)) ∧
      ∀ id ∈ given (log (step host) (notes host) Engine.new acts), ∀ kind, ¬Live engine kind id →
        ∀ more engine', run (step host) engine more = some engine' → ¬Live engine' kind id := by
  have hsound := run_sound h
  exact ⟨hsound.once, hsound.given, fun id hid kind hgone more engine' hmore =>
    run_gone hsound.apart (hsound.issued id hid) hgone hmore⟩

end Runs

/-! An engine that verifies, and a host that polls what it has to say until it is over. -/

def hosted : Host Unit where
  version := "0.1.0"
  loaders := []
  broker := false
  configLoader := false
  background := some fun _ => .ok ()
  writer := none
  transports _ := some ⟨fun _ _ _ _ => .done .null, fun _ => .done ()⟩
  scope _ := .ok ⟨Session.Attribution.serving, fun _ => none⟩
  accept _ _ := .ok (Session.Attribution.ordering, [])
  build _ := .error []
  select _ _ _ := .ok (⟨[⟨"base", .base, []⟩], []⟩, .null)
  read _ := .error .notAContract
  document _ _ _ _ := .ok .null
  verify _ _ _ := .started 1 none
  publish _ := .ok (.ok ())
  observe _ _ _ := ([], ())

def greeting : Act Unit := .frame (.request "1" (.hello [1] .null))

def polled : List (Act Unit) :=
  [greeting, .frame (.request "2" (.verify .null)), .produce "s-1" (.call () "verification/finished" .null true),
    .produce "s-1" (.push ()), .frame (.request "3" (.poll ["s-1"] none 0)), .advance, .advance]

theorem ids_given_once_polled :
    ∃ engine : Engine Unit Unit, run (step hosted) Engine.new polled = some engine ∧ ¬Live engine .stream "s-1" ∧
      ∀ more engine', run (step hosted) engine more = some engine' → ¬Live engine' .stream "s-1" := by
  obtain ⟨engine, hrun, hgiven, hgone⟩ : ∃ engine : Engine Unit Unit, run (step hosted) Engine.new polled = some engine ∧
      given (log (step hosted) (notes hosted) (Engine.new : Engine Unit Unit) polled) = ["vs-1", "s-1"] ∧
      engine.streams "s-1" = none := ⟨_, rfl, rfl, rfl⟩
  have hnot : ¬Live engine .stream "s-1" := fun hlive => hlive hgone
  refine ⟨engine, hrun, hnot, (ids_given_once hrun).2.2 "s-1" ?_ .stream hnot⟩
  rw [hgiven]
  exact List.mem_cons_of_mem _ List.mem_cons_self

end PactJanus.Protocol.Lifetimes
