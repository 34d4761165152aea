import PactJanus.Contracts.Model
import PactJanus.Compatibility.Decide

namespace PactJanus.Verification.Run

open PactJanus.Data.Json PactJanus.Contracts.Model PactJanus.Compatibility.Decide

/-! A verification run over its source documents, and the summary it ends with. -/

/-- An interaction of a pact from before Janus. -/
structure LegacyInteraction where
  description : String
  states : List String
  pending : Bool
  id : Option String

inductive Source where
  | janus (contract : Contract)
  | legacy (consumer provider specification : String) (interactions : List LegacyInteraction)

/-- An interaction as a run reads it: how every event names it, and the ids of the variants it records. -/
structure Recorded where
  reference : Json
  description : String
  states : List String
  variants : List String
  pending : Bool

def countJson (n : Nat) : Json := .number (.posInt (UInt64.ofNat n))

/-- How an interaction is named in every event of a run. -/
def interactionRef (consumer provider format : String) (position : Nat) (description : String)
    (states : Option (List String)) (id : Option String) : Json :=
  .object ([("contract", .object [("consumer", .string consumer), ("provider", .string provider)]),
      ("index", countJson position), ("description", .string description),
      ("states", (states.map (listJson .string)).getD .null), ("format", .string format)] ++
    optional "id" (id.map .string))

/-- The sole variant of a pact's interaction. -/
def legacyVariant : String := "base"

namespace Source

def consumer : Source → String
  | janus contract => contract.consumer.name
  | legacy consumer _ _ _ => consumer

def provider : Source → String
  | janus contract => contract.provider.name
  | legacy _ provider _ _ => provider

/-- How a document identifies itself. -/
def format : Source → String
  | janus _ => formatToken
  | legacy _ _ specification _ => "pact/" ++ specification

def recorded (source : Source) : List Recorded :=
  let reference := interactionRef source.consumer source.provider source.format
  match source with
  | janus contract => contract.interactions.mapIdx fun position interaction =>
    let states := interaction.states.map fun states => states.map fun state => state.name
    ⟨reference position interaction.description states none, interaction.description, states.getD [],
      interaction.selection.variants.map fun variant => variant.id, false⟩
  | legacy _ _ _ interactions => interactions.mapIdx fun position interaction =>
    ⟨reference position interaction.description interaction.states interaction.id, interaction.description,
      interaction.states, [legacyVariant], interaction.pending⟩

def interactions (source : Source) : Nat := source.recorded.length

def variants (source : Source) : Nat := (source.recorded.map fun interaction => interaction.variants.length).sum

end Source

/-! What the run is asked to replay. A pattern is what it finds. -/

inductive StateFilter where
  | matching (found : String → Bool)
  | none

structure InteractionFilter where
  description : Option (String → Bool)
  state : Option StateFilter
  consumers : Option (List String)

structure Filter where
  variants : Option (List String)
  interactions : Option InteractionFilter

def InteractionFilter.admits (filter : InteractionFilter) (source : Source) (interaction : Recorded) : Bool :=
  (filter.consumers.all fun consumers => consumers.any (· == source.consumer)) &&
    (filter.description.all fun found => found interaction.description) &&
      match filter.state with
      | none => true
      | some .none => interaction.states.isEmpty
      | some (.matching found) => interaction.states.any found

namespace Filter

def admits (filter : Filter) (id : String) : Bool := filter.variants.all fun ids => ids.any (· == id)

def admitsInteraction (filter : Filter) (source : Source) (interaction : Recorded) : Bool :=
  filter.interactions.all fun interactions => interactions.admits source interaction

/-- How many of a source's variants the run replays. -/
def admitted (filter : Filter) (source : Source) : Nat :=
  ((source.recorded.filter (filter.admitsInteraction source)).map fun interaction =>
    interaction.variants.countP filter.admits).sum

/-- The filter excludes some variant the source records. -/
def narrows (filter : Filter) (source : Source) : Bool :=
  (filter.variants.isSome || filter.interactions.isSome) && decide (filter.admitted source < source.variants)

end Filter

/-! Replaying. -/

structure Abort where
  point : String
  hook : String
  error : Json

inductive Flow where
  | continue
  | abort (abort : Abort)
  | stop

/-- What the replay of one variant comes to: its result, and the abort of a hook, or a panic. -/
inductive Replayed where
  | result (payload : Json) (abort : Option Abort)
  | panicked

/-- What a run meets: each replay by its interaction, its variant and how many results came before it, its hooks, and
what surrounds its documents. -/
structure World where
  replay : Json → String → Nat → Replayed
  /-- The abort of a `before-verification` hook, none where the hooks panic. -/
  before : Option (Option Abort)
  /-- Publishing and the hooks after the run come to their end. -/
  closes : Bool
  hooks : Option Json
  publication : List Json

structure RunPolicy where
  stopOnFailure : Bool

structure Tally where
  verified : Nat
  failed : Nat
  stateUnavailable : Nat
  skipped : Nat
  pendingFailed : Nat
  failures : List Json
  results : List Json

namespace Tally

def empty : Tally := ⟨0, 0, 0, 0, 0, [], []⟩

def isVerified (payload : Json) : Bool := holdsText "status" "verified" payload

def record (tally : Tally) (payload : Json) : Tally :=
  let tally :=
    { tally with
      results := tally.results ++ [payload]
      pendingFailed :=
        if isTrue (index "pending" payload) && !isVerified payload then tally.pendingFailed + 1 else tally.pendingFailed }
  if isVerified payload then { tally with verified := tally.verified + 1 }
  else if holdsText "status" "state-unavailable" payload then
    { tally with stateUnavailable := tally.stateUnavailable + 1, failures := tally.failures ++ [payload] }
  else { tally with failed := tally.failed + 1, failures := tally.failures ++ [payload] }

def skip (tally : Tally) (n : Nat) : Tally := { tally with skipped := tally.skipped + n }

/-- The failures that fail the run. -/
def failing (tally : Tally) : Nat := tally.failed + tally.stateUnavailable - tally.pendingFailed

end Tally

/-- A pending interaction's results say so. -/
def mark (pending : Bool) : Json → Json
  | .object members => .object (if pending then setMember "pending" (.bool true) members else members)
  | payload => payload

/-- One source's part of a run: its results by position, its variants the filter excluded, and whether the run got to
the end of it. -/
structure SourceRun where
  first : Nat
  last : Nat
  skipped : Nat
  complete : Bool

section Replaying

variable (world : World) (filter : Filter) (policy : RunPolicy)

/-- The replays of an interaction's variants, none where one panics. -/
def verifyPrepared (reference : Json) (pending : Bool) : List String → Tally → Option (Tally × Flow)
  | [], tally => some (tally, if policy.stopOnFailure && decide (0 < tally.failing) then .stop else .continue)
  | id :: rest, tally =>
    if policy.stopOnFailure && decide (0 < tally.failing) then some (tally, .stop)
    else if !filter.admits id then verifyPrepared reference pending rest (tally.skip 1)
    else
      match world.replay reference id tally.results.length with
      | .panicked => none
      | .result payload abort =>
        let tally := tally.record (mark pending payload)
        match abort with
        | some abort => some (tally, .abort abort)
        | none => verifyPrepared reference pending rest tally

def verifyInteractions (source : Source) (pending : Bool) : List Recorded → Tally → Option (Tally × Flow)
  | [], tally => some (tally, .continue)
  | interaction :: rest, tally =>
    if !filter.admitsInteraction source interaction then
      verifyInteractions source pending rest (tally.skip interaction.variants.length)
    else
      match verifyPrepared world filter policy interaction.reference (pending || interaction.pending) interaction.variants
          tally with
      | none => none
      | some (tally, .continue) => verifyInteractions source pending rest tally
      | some (tally, flow) => some (tally, flow)

/-- The sources in turn, each with whether it is pending. -/
def verifySources : List (Source × Bool) → Tally → Option (Tally × List SourceRun × Flow)
  | [], tally => some (tally, [], .continue)
  | (source, pending) :: rest, tally =>
    match verifyInteractions world filter policy source pending source.recorded tally with
    | none => none
    | some (ended, .continue) =>
      (verifySources rest ended).map fun (last, ran, flow) =>
        (last, ⟨tally.results.length, ended.results.length, ended.skipped - tally.skipped, true⟩ :: ran, flow)
    | some (ended, flow) =>
      some (ended, [⟨tally.results.length, ended.results.length, ended.skipped - tally.skipped, false⟩], flow)

end Replaying

/-! The summary. -/

def resultsOf (run : SourceRun) (results : List Json) : List Json := (results.take run.last).drop run.first

def pairEntry (source : Source) (run : Option SourceRun) (narrowed : Bool) (results : List Json) : Json :=
  let results := (run.map fun run => resultsOf run results).getD []
  let verified := results.countP Tally.isVerified
  let stateUnavailable := results.countP (holdsText "status" "state-unavailable")
  let failed := results.length - verified - stateUnavailable
  let skipped := (run.map SourceRun.skipped).getD 0
  let status :=
    if failed + stateUnavailable > 0 then "failed"
    else if !(run.any SourceRun.complete) then "incomplete"
    else if narrowed then "filtered"
    else "verified"
  .object [("consumer", .string source.consumer), ("provider", .string source.provider), ("status", .string status),
    ("variants", .object [("total", countJson (results.length + skipped)), ("verified", countJson verified),
      ("failed", countJson failed), ("state-unavailable", countJson stateUnavailable), ("skipped", countJson skipped)])]

def abortJson (abort : Abort) : Json :=
  .object [("point", .string abort.point), ("hook", .string abort.hook), ("error", abort.error)]

def names (name : Source → String) (sources : List Source) : Json := listJson (fun source => .string (name source)) sources

/-- The summary of a run that came to an end, by itself, by a hook or by its first failure. -/
def summary (world : World) (filter : Filter) (sources : List (Source × Bool)) (fromBroker : Bool) (tally : Tally)
    (ran : List SourceRun) (flow : Flow) : Json :=
  let documents := sources.map Prod.fst
  let narrowed := documents.map filter.narrows
  let failed := tally.failed + tally.stateUnavailable
  let aborted := match flow with
    | .abort abort => some abort
    | _ => none
  let stopped := match flow with
    | .stop => true
    | _ => false
  let status :=
    if decide (0 < failed - tally.pendingFailed) || aborted.isSome then "failed"
    else if narrowed.contains true then "filtered"
    else "verified"
  let notRun :=
    if aborted.isSome || stopped then
      [("not-run", countJson ((documents.map Source.variants).sum -
        (tally.verified + tally.failed + tally.stateUnavailable + tally.skipped)))]
    else []
  .object ([("status", .string status), ("contracts", countJson documents.length),
      ("consumers", names Source.consumer documents), ("providers", names Source.provider documents),
      ("interactions", countJson (documents.map Source.interactions).sum), ("filtered", .bool (narrowed.contains true)),
      ("variants", .object ([("total", countJson (tally.verified + failed + tally.skipped)),
        ("verified", countJson tally.verified), ("failed", countJson tally.failed),
        ("state-unavailable", countJson tally.stateUnavailable), ("skipped", countJson tally.skipped)] ++ notRun)),
      ("failures", .array tally.failures)] ++
    optional "pending" (if fromBroker then some (listJson (fun p => .bool p.2) sources) else none) ++
    optional "publication" (if world.publication.isEmpty then none else some (.array world.publication)) ++
    [("pairs", listJson (fun p => pairEntry p.1 ran[p.2]? (filter.narrows p.1) tally.results) documents.zipIdx)] ++
    optional "hooks" world.hooks ++ optional "aborted" (aborted.map abortJson) ++
    optional "stopped" (if stopped then some (.string "first-failure") else none))

/-- The run, none where it panics before it has ended. -/
def run (world : World) (filter : Filter) (policy : RunPolicy) (sources : List (Source × Bool)) :
    Option (Tally × List SourceRun × Flow) :=
  match world.before with
  | none => none
  | some (some abort) => if world.closes then some (Tally.empty, [], .abort abort) else none
  | some none =>
    match verifySources world filter policy sources Tally.empty with
    | some ended => if world.closes then some ended else none
    | none => none

/-- What is known of a run before it starts: a run over a broker's documents has none yet. -/
def crashedSummary (sources : List Source) (filter : Filter) : Json :=
  .object [("status", .string "failed"), ("contracts", countJson sources.length),
    ("consumers", names Source.consumer sources), ("providers", names Source.provider sources),
    ("interactions", countJson (sources.map Source.interactions).sum), ("filtered", .bool (sources.any filter.narrows))]

/-- The summary of a run that panicked, with its error. -/
def crashedDocument (sources : List Source) (filter : Filter) (error : Json) : Json :=
  match crashedSummary sources filter with
  | .object members => .object (setMember "error" error members)
  | crashed => crashed

/-- The document a run ends its stream with. -/
def finished (world : World) (filter : Filter) (policy : RunPolicy) (sources : List (Source × Bool)) (fromBroker : Bool)
    (error : Json) : Json :=
  match run world filter policy sources with
  | some (tally, ran, flow) => summary world filter sources fromBroker tally ran flow
  | none => crashedDocument (if fromBroker then [] else sources.map Prod.fst) filter error

end PactJanus.Verification.Run
