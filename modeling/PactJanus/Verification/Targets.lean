import PactJanus.Contracts.Files
import PactJanus.Data.Spelling
import PactJanus.Lib.Effects
import PactJanus.Verification.Run

namespace PactJanus.Verification.Targets

open PactJanus.Contracts.Files PactJanus.Contracts.Model PactJanus.Data PactJanus.Data.Json
open PactJanus.Lib.Effects PactJanus.Verification.Run

/-! The transports a verification starts, and who stops them at each of its ends. -/

/-- A component's error: what it says, and the error whole. -/
structure ComponentError where
  message : String
  json : Json

/-- A transport component. A call of it answers, fails or panics. -/
structure Component where
  start : String → String → String → Option Json → Outcome ComponentError Json
  stop : String → Outcome ComponentError Unit

structure Binding where
  transport : String
  options : Option Json

structure Target where
  kind : String
  component : Component
  name : String
  endpoint : Json

/-- What a run verifies: documents already read, or what comes of fetching them inside the run, each with whether it is
pending. -/
inductive Sources where
  | read (sources : List Source)
  | broker (fetch : Outcome EngineError (List (Source × Bool)))

def Sources.fetched : Sources → Outcome EngineError (List (Source × Bool))
  | .read sources => .done (sources.map fun source => (source, false))
  | .broker fetch => fetch

def Sources.fromBroker : Sources → Bool
  | .read _ => false
  | .broker _ => true

/-- What is known before the fetch. -/
def Sources.known : Sources → List Source
  | .read sources => sources
  | .broker _ => []

/-- A verify request: what refuses it before a transport is started, if anything does, and what it asks for. -/
structure Request where
  refused : Option EngineError
  transports : List Binding
  sources : Sources
  filter : Filter
  policy : RunPolicy

/-- What a request meets: the transports its scope declares and those the engine has, its hooks' configuration, what
runs it, and a stream whose observer may panic at the terminal event. -/
structure Engine where
  declared : String → Option Component
  registered : String → Option Component
  nextTransport : Nat
  hooks : Outcome EngineError Unit
  spawn : Except String Unit
  world : World
  /-- The error of a run that panics. -/
  crash : Json
  appends : Bool

/-- What is seen from outside: what a transport is told, and how the request or its run ends. -/
inductive Note where
  | started (name : String)
  | stopped (name : String)
  | failed (error : EngineError)
  | finished (summary : Json)

namespace Note

def stops (name : String) : Note → Bool
  | stopped other => other == name
  | _ => false

def ends : Note → Bool
  | failed _ => true
  | finished _ => true
  | _ => false

def isFinished : Note → Bool
  | finished _ => true
  | _ => false

end Note

def errorJson (error : EngineError) : Json :=
  .object ([("code", .string error.code), ("category", .string error.category), ("message", .string error.message)] ++
    optional "details" (error.details.map .object))

def componentUnavailable (component : String) : EngineError :=
  ⟨"component-unavailable", "component", "no '" ++ component ++ "' component is loaded",
    some [("component", .string component)]⟩

def componentFailed (component : String) (error : ComponentError) : EngineError :=
  ⟨"component-failed", "component", "the '" ++ component ++ "' component failed: " ++ error.message,
    some [("component", .string component), ("error", error.json)]⟩

def internal (message : String) : EngineError := ⟨"internal", "internal", message, none⟩

section Verifying

variable (engine : Engine) (request : Request)

abbrev Noting (α : Type) : Type := Effect (List Note) EngineError α

def note (entry : Note) : Noting Unit := fun log => (.done (), log ++ [entry])

def Target.panics (target : Target) : Bool :=
  match target.component.stop target.name with
  | .panicked => true
  | _ => false

/-- Each target is stopped in turn. A transport that does not stop cleanly keeps none from being stopped, one that
panics does. -/
def stopTargets : List Target → Noting Unit
  | [] => .done ()
  | target :: rest => note (.stopped target.name) >>= fun _ => if target.panics then .panic else stopTargets rest

def Engine.transport (kind : String) : Option Component := (engine.declared kind).or (engine.registered kind)

def instanceName (n : Nat) : String := "t-" ++ n.repr

/-- A binding's transport, started: none where no component is registered for it. -/
def startTarget (n : Nat) (binding : Binding) : Option (Outcome ComponentError Target) :=
  (engine.transport binding.transport).map fun component =>
    match component.start (instanceName n) binding.transport "drive" binding.options with
    | .done endpoint => .done ⟨binding.transport, component, instanceName n, endpoint⟩
    | .failed error => .failed error
    | .panicked => .panicked

def startAll : Nat → List Binding → List Target → Noting (List Target)
  | _, [], targets => .done targets
  | next, binding :: rest, targets =>
    match startTarget engine (next + 1) binding with
    | none => .fail (componentUnavailable ("transport/" ++ binding.transport))
    | some (.done target) =>
      note (.started target.name) >>= fun _ => startAll (next + 1) rest (targets ++ [target])
    | some (.failed error) =>
      stopTargets targets >>= fun _ => .fail (componentFailed ("transport/" ++ binding.transport) error)
    | some .panicked => .panic

/-- The terminal event, which a stream takes once. -/
def finish (summary : Json) : Noting Unit := fun log =>
  if log.any Note.isFinished then (.done (), log)
  else if engine.appends then (.done (), log ++ [.finished summary])
  else (.panicked, log)

def body (targets : List Target) : Noting Unit :=
  match request.sources.fetched with
  | .failed error =>
    stopTargets targets >>= fun _ => finish engine (crashedDocument [] request.filter (errorJson error))
  | .panicked => .panic
  | .done sources =>
    match run engine.world request.filter request.policy sources with
    | none => .panic
    | some (tally, ran, flow) =>
      stopTargets targets >>= fun _ =>
        finish engine (summary engine.world request.filter sources request.sources.fromBroker tally ran flow)

/-- A panic ends the stream, and nothing more. -/
def guarded (crashed : Json) (body : Noting Unit) : Noting Unit := fun log =>
  match body log with
  | (.panicked, log) => finish engine crashed log
  | ended => ended

/-- The run goes on beside its request, and its own panic is not the request's. -/
def start (targets : List Target) : Noting Unit :=
  match engine.spawn with
  | .ok () => fun log =>
    (.done (), (guarded engine (crashedDocument request.sources.known request.filter engine.crash)
      (body engine request targets) log).2)
  | .error text => stopTargets targets >>= fun _ => .fail (internal text)

/-- The hooks' configuration is checked, and the run is started. -/
def configure (targets : List Target) : Noting Unit :=
  match engine.hooks with
  | .done () => start engine request targets
  | .failed error => stopTargets targets >>= fun _ => .fail error
  | .panicked => .panic

def handleVerify : Noting Unit :=
  match request.refused with
  | some error => .fail error
  | none => startAll engine engine.nextTransport request.transports [] >>= configure engine request

/-- All that is seen of a request and of its run. An answer with a session leaves no note. -/
def verify : List Note :=
  match handleVerify engine request [] with
  | (.done _, log) => log
  | (.failed error, log) => log ++ [.failed error]
  | (.panicked, log) =>
    log ++ [.failed (internal "the engine encountered an internal error handling this request")]

end Verifying

/-- Each transport that started is stopped once, before the answer with an error or the terminal event. -/
structure StoppedOnce (log : List Note) : Prop where
  once : ∀ name, .started name ∈ log → log.countP (Note.stops name) = 1
  before : ∀ name, .started name ∈ log → ∀ done last rest, log = done ++ last :: rest → last.ends →
    Note.stopped name ∈ done

/-! What decides it: the transports that start, and how the request goes on from there. -/

section Condition

variable (engine : Engine) (request : Request)

/-- The targets of the bindings that start before one does not, and that one with the bindings after it. -/
def begun : Nat → List Binding → List Target × List Binding
  | _, [] => ([], [])
  | next, binding :: rest =>
    match startTarget engine (next + 1) binding with
    | some (.done target) => (target :: (begun (next + 1) rest).1, (begun (next + 1) rest).2)
    | _ => ([], binding :: rest)

def Request.targets : List Target := (begun engine engine.nextTransport request.transports).1

def Request.left : List Binding := (begun engine engine.nextTransport request.transports).2

/-- The run comes to its end, or to that of its fetch, without a panic. -/
def RunEnds : Prop :=
  match request.sources.fetched with
  | .done sources => run engine.world request.filter request.policy sources ≠ none
  | .failed _ => True
  | .panicked => False

/-- The ways a request goes on from its started transports to their stop. -/
structure Orderly : Prop where
  /-- A transport that does not start is registered, and says that it does not. -/
  refuses : ∀ binding ∈ (request.left engine).head?, ∃ error,
    startTarget engine (engine.nextTransport + (request.targets engine).length + 1) binding = some (.failed error)
  hooks : request.left engine = [] → engine.hooks ≠ .panicked
  run : request.left engine = [] → engine.hooks = .done () → engine.spawn = .ok () → RunEnds engine request
  /-- No transport but the last panics when it is stopped. -/
  stops : ∀ target ∈ (request.targets engine).dropLast, target.panics = false

end Condition

/-- The targets told to stop, up to one that panics. -/
def reached : List Target → List Target
  | [] => []
  | target :: rest => target :: if target.panics then [] else reached rest

def startedNote (target : Target) : Note := .started target.name
def stoppedNote (target : Target) : Note := .stopped target.name

private theorem reached_prefix (targets : List Target) : reached targets <+: targets := by
  induction targets with
  | nil => exact List.prefix_rfl
  | cons target rest ih =>
    rw [reached, List.prefix_cons_inj]
    split
    · exact List.nil_prefix
    · exact ih

private theorem reached_eq_iff (targets : List Target) :
    reached targets = targets ↔ ∀ target ∈ targets.dropLast, target.panics = false := by
  induction targets with
  | nil => simp [reached]
  | cons target rest ih =>
    cases rest with
    | nil => simp [reached]
    | cons next rest =>
      rw [reached, List.dropLast_cons_cons, List.forall_mem_cons, List.cons_inj_right, ← ih]
      cases target.panics <;> simp

private theorem stopTargets_told (targets : List Target) (log : List Note) :
    (stopTargets targets log = (.done (), log ++ (reached targets).map stoppedNote)) ∨
      stopTargets targets log = (.panicked, log ++ (reached targets).map stoppedNote) := by
  induction targets generalizing log with
  | nil => simp [stopTargets, reached, Effect.done]
  | cons target rest ih =>
    rw [stopTargets, reached, List.map_cons, List.append_cons]
    cases target.panics with
    | true => exact .inr (by simp [bind, Effect.andThen, note, Effect.panic, stoppedNote])
    | false => exact ih (log ++ [stoppedNote target])

/-! What a computation leaves behind: what it told the transports, and then only ends. -/

def Leaves {α : Type} (m : Noting α) (told : List Note) : Prop :=
  ∀ log, ∃ last, (m log).2 = log ++ told ++ last ∧ ∀ entry ∈ last, entry.ends = true

private theorem leaves_fail {α : Type} (error : EngineError) : Leaves (.fail error : Noting α) [] :=
  fun log => ⟨[], by simp [Effect.fail], by simp⟩

private theorem leaves_panic {α : Type} : Leaves (.panic : Noting α) [] := fun log => ⟨[], by simp [Effect.panic], by simp⟩

private theorem leaves_finish (engine : Engine) (summary : Json) : Leaves (finish engine summary) [] := by
  intro log
  rw [finish]
  split
  · exact ⟨[], by simp, by simp⟩
  · split
    · exact ⟨[.finished summary], by simp, by simp [Note.ends]⟩
    · exact ⟨[], by simp, by simp⟩

private theorem leaves_stop {α : Type} (targets : List Target) {m : Noting α} (h : Leaves m []) :
    Leaves (stopTargets targets >>= fun _ => m) ((reached targets).map stoppedNote) := by
  intro log
  rcases stopTargets_told targets log with hrun | hrun
  · obtain ⟨last, hlog, hlast⟩ := h (log ++ (reached targets).map stoppedNote)
    exact ⟨last, by simpa [bind, Effect.andThen, hrun] using hlog, hlast⟩
  · exact ⟨[], by simp [bind, Effect.andThen, hrun], by simp⟩

private theorem leaves_guarded (engine : Engine) (crashed : Json) {m : Noting Unit} {told : List Note} (h : Leaves m told) :
    Leaves (guarded engine crashed m) told := by
  intro log
  obtain ⟨last, hlog, hlast⟩ := h log
  rw [guarded]
  split
  · rename_i ended hrun
    rw [hrun] at hlog
    dsimp only at hlog
    obtain ⟨more, hended, hmore⟩ := leaves_finish engine crashed ended
    refine ⟨last ++ more, by rw [hended, hlog]; simp, fun entry hentry => ?_⟩
    exact (List.mem_append.1 hentry).elim (hlast entry) (hmore entry)
  · exact ⟨last, hlog, hlast⟩

/-- A computation that owns the targets stops some of them from the first on, and all where there are any only under the
condition. -/
def Stopping {α : Type} (m : Noting α) (targets : List Target) (condition : Prop) : Prop :=
  ∃ stops, Leaves m (stops.map stoppedNote) ∧ stops <+: targets ∧ (stops = targets ↔ targets = [] ∨ condition)

def StopsCleanly (targets : List Target) : Prop := ∀ target ∈ targets.dropLast, target.panics = false

section Owners

variable {α : Type} {m : Noting α} {targets : List Target} {condition : Prop}

private theorem stopping_of_leak (h : Leaves m []) (hcond : ¬ condition) : Stopping m targets condition :=
  ⟨[], h, List.nil_prefix, by simp [hcond, eq_comm]⟩

private theorem stopping_of_stop (h : Leaves m []) (hcond : condition ↔ StopsCleanly targets) :
    Stopping (stopTargets targets >>= fun _ => m) targets condition := by
  refine ⟨reached targets, leaves_stop targets h, reached_prefix targets, ?_⟩
  rw [hcond, reached_eq_iff, StopsCleanly]
  exact ⟨.inr, fun h => h.elim (fun hnil => by simp [hnil]) id⟩

variable (engine : Engine) (request : Request)

private theorem stopping_body (targets : List Target) :
    Stopping (body engine request targets) targets (RunEnds engine request ∧ StopsCleanly targets) := by
  unfold body RunEnds
  cases request.sources.fetched with
  | failed error => exact stopping_of_stop (leaves_finish engine _) (by simp)
  | panicked => exact stopping_of_leak leaves_panic (by simp)
  | done sources =>
    dsimp only
    cases run engine.world request.filter request.policy sources with
    | none => exact stopping_of_leak leaves_panic (by simp)
    | some ended => exact stopping_of_stop (leaves_finish engine _) (by simp)

private theorem stopping_start (targets : List Target) : Stopping (start engine request targets) targets
    ((engine.spawn = .ok () → RunEnds engine request) ∧ StopsCleanly targets) := by
  unfold start
  cases engine.spawn with
  | error text => exact stopping_of_stop (leaves_fail _) (by simp)
  | ok _ =>
    obtain ⟨stops, hleaves, hpre, hall⟩ := stopping_body engine request targets
    exact ⟨stops, leaves_guarded engine _ hleaves, hpre, by simpa using hall⟩

private theorem stopping_configure (targets : List Target) : Stopping (configure engine request targets) targets
    (engine.hooks ≠ .panicked ∧ (engine.hooks = .done () → engine.spawn = .ok () → RunEnds engine request) ∧
      StopsCleanly targets) := by
  unfold configure
  cases engine.hooks with
  | done _ => simpa using stopping_start engine request targets
  | failed error => exact stopping_of_stop (leaves_fail _) (by simp)
  | panicked => exact stopping_of_leak leaves_panic (by simp)

end Owners

/-! The transports in turn. -/

private theorem startAll_eq (engine : Engine) (next : Nat) (bindings : List Binding) (targets : List Target)
    (log : List Note) :
    startAll engine next bindings targets log =
      startAll engine (next + (begun engine next bindings).1.length) (begun engine next bindings).2
        (targets ++ (begun engine next bindings).1) (log ++ (begun engine next bindings).1.map startedNote) := by
  induction bindings generalizing next targets log with
  | nil => simp [begun]
  | cons binding rest ih =>
    rw [begun]
    split
    · rename_i target hstart
      rw [startAll, hstart]
      simp only [bind, Effect.andThen, note]
      rw [ih]
      simp only [List.length_cons, List.map_cons, List.append_assoc, List.singleton_append, startedNote]
      rw [Nat.add_right_comm, Nat.add_assoc]
    · simp

private theorem begun_left {engine : Engine} {next : Nat} {bindings rest : List Binding} {binding : Binding}
    (h : (begun engine next bindings).2 = binding :: rest) (target : Target) :
    startTarget engine (next + (begun engine next bindings).1.length + 1) binding ≠ some (.done target) := by
  induction bindings generalizing next with
  | nil => simp [begun] at h
  | cons first others ih =>
    rw [begun] at h ⊢
    split at h
    · rename_i hstart
      simpa [hstart, Nat.add_right_comm, Nat.add_assoc, Nat.add_comm, Nat.add_left_comm] using ih h
    · rename_i hstart
      obtain ⟨rfl, rfl⟩ := List.cons.inj h
      exact hstart target

private theorem begun_names (engine : Engine) (next : Nat) (bindings : List Binding) :
    (begun engine next bindings).1.map Target.name =
      (List.range' (next + 1) (begun engine next bindings).1.length).map instanceName := by
  induction bindings generalizing next with
  | nil => simp [begun]
  | cons binding rest ih =>
    rw [begun]
    split
    · rename_i target hstart
      have hname : target.name = instanceName (next + 1) := by
        obtain ⟨component, -, hcall⟩ := Option.map_eq_some_iff.1 hstart
        split at hcall
        · cases hcall
          rfl
        · nomatch hcall
        · nomatch hcall
      rw [List.map_cons, ih, hname, List.length_cons, List.range'_succ, List.map_cons]
    · simp

private theorem instanceName_injective : Function.Injective instanceName := by
  intro m n h
  have hrepr := congrArg String.toList h
  rw [instanceName, instanceName, String.toList_append, String.toList_append] at hrepr
  exact Spelling.repr_injective (String.toList_inj.1 (List.append_cancel_left hrepr))

private theorem begun_nodup (engine : Engine) (next : Nat) (bindings : List Binding) :
    ((begun engine next bindings).1.map Target.name).Nodup := by
  rw [begun_names]
  exact List.Nodup.map instanceName_injective List.nodup_range'

section Whole

variable (engine : Engine) (request : Request)

private theorem handleVerify_told (h : request.refused = none) :
    ∃ stops last, (handleVerify engine request []).2 =
        (request.targets engine).map startedNote ++ stops.map stoppedNote ++ last ∧
      (∀ entry ∈ last, entry.ends = true) ∧ stops <+: request.targets engine ∧
      (stops = request.targets engine ↔ request.targets engine = [] ∨ Orderly engine request) := by
  have hrun := startAll_eq engine engine.nextTransport request.transports [] []
  have hnot : ∀ binding rest, request.left engine = binding :: rest → ∀ target,
      startTarget engine (engine.nextTransport + (request.targets engine).length + 1) binding ≠ some (.done target) :=
    fun _ _ hleft => begun_left hleft
  rw [← Request.targets, ← Request.left, List.nil_append, List.nil_append] at hrun
  rw [handleVerify, h]
  suffices hstop : Stopping (startAll engine (engine.nextTransport + (request.targets engine).length)
      (request.left engine) (request.targets engine) >>= configure engine request) (request.targets engine)
      (Orderly engine request) by
    obtain ⟨stops, hleaves, hpre, hall⟩ := hstop
    obtain ⟨last, hlog, hlast⟩ := hleaves ((request.targets engine).map startedNote)
    refine ⟨stops, last, ?_, hlast, hpre, hall⟩
    rw [← hlog]
    simp only [bind, Effect.andThen, hrun]
  cases hleft : request.left engine with
  | nil =>
    obtain ⟨stops, hleaves, hpre, hall⟩ := stopping_configure engine request (request.targets engine)
    refine ⟨stops, hleaves, hpre, hall.trans (or_congr_right ?_)⟩
    constructor
    · rintro ⟨hhooks, hends, hstops⟩
      exact ⟨by simp [hleft], fun _ => hhooks, fun _ => hends, hstops⟩
    · rintro ⟨-, hhooks, hends, hstops⟩
      exact ⟨hhooks hleft, hends hleft, hstops⟩
  | cons binding rest =>
    have hleak (hnot : ∀ error, startTarget engine (engine.nextTransport + (request.targets engine).length + 1) binding ≠
        some (.failed error)) : ¬ Orderly engine request := by
      intro horderly
      obtain ⟨error, hstart⟩ := horderly.refuses binding (by simp [hleft])
      exact hnot error hstart
    rw [startAll]
    cases hstart : startTarget engine (engine.nextTransport + (request.targets engine).length + 1) binding with
    | none => exact stopping_of_leak (leaves_fail _) (hleak (by simp [hstart]))
    | some called =>
      cases called with
      | done target => exact absurd hstart (hnot binding rest hleft target)
      | panicked => exact stopping_of_leak leaves_panic (hleak (by simp [hstart]))
      | failed error =>
        dsimp only
        rw [Effect.bind_assoc]
        refine stopping_of_stop (leaves_fail _) ⟨Orderly.stops, fun hstops => ⟨?_, by simp [hleft], by simp [hleft], hstops⟩⟩
        simp [hleft, hstart]

end Whole

/-! The notes of a request. -/

private theorem stoppedOnce_iff_all {targets stops : List Target} {last : List Note}
    (hnodup : (targets.map Target.name).Nodup) (hpre : stops <+: targets) (hlast : ∀ entry ∈ last, entry.ends = true) :
    StoppedOnce (targets.map startedNote ++ stops.map stoppedNote ++ last) ↔ stops = targets := by
  have hcount (name : String) : (targets.map startedNote ++ stops.map stoppedNote ++ last).countP (Note.stops name) =
      (stops.map Target.name).count name := by
    have hends : last.countP (Note.stops name) = 0 := List.countP_eq_zero.2 fun entry hentry hstops => by
      have := hlast entry hentry
      cases entry <;> simp_all [Note.ends, Note.stops]
    rw [List.countP_append, List.countP_append, hends, List.countP_map, List.countP_map, List.count, List.countP_map]
    simp [Function.comp_def, Note.stops, startedNote, stoppedNote]
  constructor
  · intro h
    obtain ⟨rest, rfl⟩ := hpre
    cases rest with
    | nil => simp
    | cons target rest =>
      have honce := h.once target.name (by simp [startedNote])
      rw [hcount] at honce
      rw [List.map_append, List.nodup_append] at hnodup
      have hstopped : target.name ∈ stops.map Target.name := List.count_pos_iff.1 (by omega)
      exact absurd rfl (hnodup.2.2 target.name hstopped target.name (by simp))
  · rintro rfl
    have hstarted {name : String} (h : Note.started name ∈ stops.map startedNote ++ stops.map stoppedNote ++ last) :
        name ∈ stops.map Target.name := by
      simp only [List.mem_append, List.mem_map, startedNote, stoppedNote] at h ⊢
      rcases h with (⟨target, htarget, hname⟩ | ⟨target, htarget, hname⟩) | hentry
      · exact ⟨target, htarget, Note.started.inj hname⟩
      · nomatch hname
      · nomatch hlast _ hentry
    constructor
    · intro name hname
      rw [hcount]
      exact List.count_eq_one_of_mem hnodup (hstarted hname)
    · intro name hname done ended rest hlog hended
      obtain ⟨target, htarget, rfl⟩ := List.mem_map.1 (hstarted hname)
      have hstopped : Note.stopped target.name ∈ stops.map startedNote ++ stops.map stoppedNote :=
        List.mem_append_right _ (List.mem_map_of_mem htarget)
      rcases List.append_eq_append_iff.1 hlog with ⟨more, hdone, -⟩ | ⟨more, htold, hmore⟩
      · exact hdone ▸ List.mem_append_left _ hstopped
      · cases more with
        | nil => rwa [htold, List.append_nil] at hstopped
        | cons entry more =>
          obtain ⟨rfl, -⟩ := List.cons.inj hmore
          have htold : ended ∈ stops.map startedNote ++ stops.map stoppedNote := by simp [htold]
          simp only [List.mem_append, List.mem_map] at htold
          rcases htold with ⟨other, -, rfl⟩ | ⟨other, -, rfl⟩ <;> nomatch hended

private theorem verify_ends (engine : Engine) (request : Request) :
    ∃ last, verify engine request = (handleVerify engine request []).2 ++ last ∧ ∀ entry ∈ last, entry.ends = true := by
  rw [verify]
  split
  · rename_i hrun
    exact ⟨[], by simp [hrun], by simp⟩
  · rename_i error log hrun
    exact ⟨[.failed error], by simp [hrun], by simp [Note.ends]⟩
  · rename_i log hrun
    exact ⟨[.failed _], by rw [hrun], by simp [Note.ends]⟩

/-- Every transport a verification starts is stopped once, and before its end is seen, exactly where the request is
refused before any starts, none starts, or the request goes on in order to their stop. -/
theorem stopped_once_iff (engine : Engine) (request : Request) :
    StoppedOnce (verify engine request) ↔
      request.refused.isSome ∨ request.targets engine = [] ∨ Orderly engine request := by
  obtain ⟨answer, hverify, hanswer⟩ := verify_ends engine request
  cases hrefused : request.refused with
  | some error =>
    have hlast : ∀ entry ∈ verify engine request, entry.ends = true := by
      simp [verify, handleVerify, hrefused, Effect.fail, Note.ends]
    have hnone := @stoppedOnce_iff_all [] [] (verify engine request) List.nodup_nil List.prefix_rfl hlast
    simpa using hnone
  | none =>
    obtain ⟨stops, last, hlog, hlast, hpre, hall⟩ := handleVerify_told engine request hrefused
    rw [hverify, hlog, List.append_assoc _ last answer]
    have hnodup : ((request.targets engine).map Target.name).Nodup := begun_nodup engine _ _
    rw [stoppedOnce_iff_all hnodup hpre, hall]
    · simp
    · intro entry hentry
      exact (List.mem_append.1 hentry).elim (hlast entry) (hanswer entry)

/-- A transport that starts and stops. -/
def steady : Component := ⟨fun _ _ _ _ => .done .null, fun _ => .done ()⟩

/-- Its engine has a transport of one kind. -/
def lone : Engine :=
  { declared := fun _ => none
    registered := fun kind => if kind = "http" then some steady else none
    nextTransport := 0
    hooks := .done ()
    spawn := .ok ()
    world := ⟨fun _ _ _ => .panicked, some none, true, none, []⟩
    crash := .null
    appends := true }

/-- Its second transport is of a kind the engine does not have. -/
def mixed : Request :=
  ⟨none, [⟨"http", none⟩, ⟨"amqp", none⟩], .read [], ⟨none, none⟩, ⟨false⟩⟩

/-- A transport that started before one that is not registered is not stopped. -/
theorem unregistered_second_leaks :
    verify lone mixed = [.started "t-1", .failed (componentUnavailable "transport/amqp")] ∧
      ¬ StoppedOnce (verify lone mixed) := by
  have hlog : verify lone mixed = [.started "t-1", .failed (componentUnavailable "transport/amqp")] := by
    rfl
  refine ⟨hlog, fun h => ?_⟩
  have honce := h.once "t-1" (by simp [hlog])
  simp [hlog, Note.stops] at honce

end PactJanus.Verification.Targets
