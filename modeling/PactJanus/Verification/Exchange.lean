import PactJanus.Verification.Run

namespace PactJanus.Verification.Exchange

open PactJanus.Data.Json PactJanus.Contracts.Model PactJanus.Verification.Run

/-! One interaction exercised at one variant: what it meets, and the result it comes to. -/

/-- What a point's hooks decide. -/
inductive PointOutcome where
  | continue
  | failExchange (hook : String) (error : Json)
  | stateUnavailable (hook : String) (error : Json)
  | abort (hook : String) (error : Json)

/-- The abort a point's hooks ended the run with, otherwise the one from before it. -/
def PointOutcome.aborting (point : String) (before : Option Abort) : PointOutcome → Option Abort
  | .abort hook error => some ⟨point, hook, error⟩
  | _ => before

/-- Setting up one state. `unhandled` is the error of a state no hook handles. -/
structure StateSetup where
  unhandled : Option Json
  outcome : PointOutcome

/-- How a plan scores what came back. -/
inductive Scored where
  | matched
  | mismatched (mismatches : List Json)

/-- The exchange itself. An answer is the error of one that never came, otherwise its score. -/
inductive Asked where
  | driven (unsendable : Option Json) (beforeRequest : PointOutcome) (answer : Except Json Scored)
  | produced (produceMessage : PointOutcome) (answer : Except Json Scored)

/-- What an exchange meets: the set-up of each of its states, what it asks and is answered, and the hooks after that. -/
structure Met where
  setups : List StateSetup
  asked : Asked
  afterResponse : PointOutcome
  teardowns : List PointOutcome

section Payloads

variable (reference : Json) (variant : String)

/-- A result: the interaction and the variant it is of, its status, and what says why. -/
def resultPayload (status : String) (why : List (String × Json)) : Json :=
  .object ([("interaction", reference), ("variant", .string variant), ("status", .string status)] ++ why)

def errorPayload (error : Json) : Json := resultPayload reference variant "failed" [("error", error)]

/-- A result a hook decided. -/
def hookFailurePayload (status hook : String) (error : Json) : Json :=
  resultPayload reference variant status [("hook", .string hook), ("error", error)]

def scorePayload : Scored → Json
  | .matched => resultPayload reference variant "verified" []
  | .mismatched mismatches => resultPayload reference variant "failed" [("mismatches", .array mismatches)]

/-- The states set up in recorded order, until one decides the result. -/
def setUp (failUnhandledStates : Bool) : List StateSetup → Option (Json × Option Abort)
  | [] => none
  | setup :: rest =>
    match failUnhandledStates, setup.unhandled with
    | true, some error => some (errorPayload reference variant error, none)
    | _, _ =>
      match setup.outcome with
      | .continue => setUp failUnhandledStates rest
      | .stateUnavailable hook error => some (hookFailurePayload reference variant "state-unavailable" hook error, none)
      | .failExchange hook error => some (hookFailurePayload reference variant "failed" hook error, none)
      | .abort hook error =>
        some (hookFailurePayload reference variant "failed" hook error, some ⟨"state-setup", hook, error⟩)

/-- What a hook before the answer makes of the exchange, none where it goes on to be answered. -/
def beforeAnswer (point : String) : PointOutcome → Option (Json × Option Abort)
  | .continue => none
  | .failExchange hook error => some (hookFailurePayload reference variant "failed" hook error, none)
  | .stateUnavailable hook error => some (hookFailurePayload reference variant "failed" hook error, none)
  | .abort hook error => some (hookFailurePayload reference variant "failed" hook error, some ⟨point, hook, error⟩)

def answered : Except Json Scored → Json
  | .error error => errorPayload reference variant error
  | .ok scored => scorePayload reference variant scored

/-- The exchange: its result, the abort that ended the run in it, and whether a reply came back to be observed. -/
def ask : Asked → Json × Option Abort × Bool
  | .driven (some error) _ _ => (errorPayload reference variant error, none, false)
  | .driven none beforeRequest answer =>
    match beforeAnswer reference variant "before-request" beforeRequest with
    | some (payload, abort) => (payload, abort, false)
    | none => (answered reference variant answer, none, answer.isOk)
  | .produced produceMessage answer =>
    match beforeAnswer reference variant "produce-message" produceMessage with
    | some (payload, abort) => (payload, abort, false)
    | none => (answered reference variant answer, none, false)

/-- The states torn down in reverse order, whatever the result. -/
def tearDown (abort : Option Abort) (teardowns : List PointOutcome) : Option Abort :=
  teardowns.reverse.foldl (fun abort outcome => outcome.aborting "state-teardown" abort) abort

def verifyExchange (failUnhandledStates : Bool) (met : Met) : Json × Option Abort :=
  let (payload, abort, replied) :=
    match setUp reference variant failUnhandledStates met.setups with
    | some (payload, abort) => (payload, abort, false)
    | none => ask reference variant met.asked
  let abort := if replied then met.afterResponse.aborting "after-response" abort else abort
  (payload, tearDown abort met.teardowns)

end Payloads

/-- What the replay of one variant comes upon: a document that defeats its preparation, no transport of its kind, an
exchange, or a panic. -/
inductive Attempt where
  | broken (error : Json)
  | undriven (error : Json)
  | exchanged (met : Met)
  | panicked

def Attempt.replayed (failUnhandledStates : Bool) (reference : Json) (variant : String) : Attempt → Replayed
  | broken error => .result (errorPayload reference variant error) none
  | undriven error => .result (errorPayload reference variant error) none
  | exchanged met =>
    let (payload, abort) := verifyExchange reference variant failUnhandledStates met
    .result payload abort
  | panicked => .panicked

/-- The world of a run whose replays come upon these attempts. -/
def World.meeting (attempts : Json → String → Nat → Attempt) (failUnhandledStates : Bool) (before : Option (Option Abort))
    (closes : Bool) (hooks : Option Json) (publication : List Json) : World where
  replay reference variant before := (attempts reference variant before).replayed failUnhandledStates reference variant
  before := before
  closes := closes
  hooks := hooks
  publication := publication

/-! Every result names what it is of, and says why it has the status it has and nothing else. -/

/-- A result of an interaction and a variant, not marked as pending. -/
structure ResultOf (reference : Json) (variant : String) (payload : Json) : Prop where
  interaction : get "interaction" payload = some reference
  variant : get "variant" payload = some (.string variant)
  status : ∃ status, get "status" payload = some (.string status)
  unmarked : get "pending" payload = none
  isObject : ∃ members, payload = .object members

section Results

variable (reference : Json) (variant : String)

private theorem errorPayload_of (error : Json) : ResultOf reference variant (errorPayload reference variant error) :=
  ⟨rfl, rfl, ⟨_, rfl⟩, rfl, ⟨_, rfl⟩⟩

private theorem hookFailurePayload_of (status hook : String) (error : Json) :
    ResultOf reference variant (hookFailurePayload reference variant status hook error) :=
  ⟨rfl, rfl, ⟨_, rfl⟩, rfl, ⟨_, rfl⟩⟩

private theorem answered_of (answer : Except Json Scored) : ResultOf reference variant (answered reference variant answer) := by
  cases answer with
  | error error => exact errorPayload_of reference variant error
  | ok scored => cases scored <;> exact ⟨rfl, rfl, ⟨_, rfl⟩, rfl, ⟨_, rfl⟩⟩

private theorem setUp_of {failUnhandledStates : Bool} {setups : List StateSetup} {payload : Json} {abort : Option Abort}
    (h : setUp reference variant failUnhandledStates setups = some (payload, abort)) :
    ResultOf reference variant payload := by
  induction setups with
  | nil => exact nomatch h
  | cons setup rest ih =>
    unfold setUp at h
    split at h
    · obtain ⟨rfl, -⟩ := h
      exact errorPayload_of reference variant _
    · split at h
      · exact ih h
      all_goals
        obtain ⟨rfl, -⟩ := h
        exact hookFailurePayload_of reference variant _ _ _

private theorem beforeAnswer_of {point : String} {outcome : PointOutcome} {payload : Json} {abort : Option Abort}
    (h : beforeAnswer reference variant point outcome = some (payload, abort)) : ResultOf reference variant payload := by
  cases outcome with
  | «continue» => exact nomatch h
  | failExchange hook error =>
    obtain ⟨rfl, -⟩ := h
    exact hookFailurePayload_of reference variant _ _ _
  | stateUnavailable hook error =>
    obtain ⟨rfl, -⟩ := h
    exact hookFailurePayload_of reference variant _ _ _
  | abort hook error =>
    obtain ⟨rfl, -⟩ := h
    exact hookFailurePayload_of reference variant _ _ _

private theorem ask_of (asked : Asked) : ResultOf reference variant (ask reference variant asked).1 := by
  rcases asked with ⟨_ | error, beforeRequest, answer⟩ | ⟨produceMessage, answer⟩
  · rw [ask]
    split
    · rename_i hbefore
      exact beforeAnswer_of reference variant hbefore
    · exact answered_of reference variant answer
  · exact errorPayload_of reference variant error
  · rw [ask]
    split
    · rename_i hbefore
      exact beforeAnswer_of reference variant hbefore
    · exact answered_of reference variant answer

theorem verifyExchange_of (failUnhandledStates : Bool) (met : Met) :
    ResultOf reference variant (verifyExchange reference variant failUnhandledStates met).1 := by
  unfold verifyExchange
  dsimp only
  split
  · rename_i hsetUp
    exact setUp_of reference variant hsetUp
  · exact ask_of reference variant met.asked

theorem replayed_of {failUnhandledStates : Bool} {attempt : Attempt} {payload : Json} {abort : Option Abort}
    (h : attempt.replayed failUnhandledStates reference variant = .result payload abort) :
    ResultOf reference variant payload := by
  cases attempt with
  | broken error =>
    obtain ⟨rfl, -⟩ := h
    exact errorPayload_of reference variant error
  | undriven error =>
    obtain ⟨rfl, -⟩ := h
    exact errorPayload_of reference variant error
  | exchanged met =>
    obtain ⟨rfl, -⟩ := h
    exact verifyExchange_of reference variant failUnhandledStates met
  | panicked => exact nomatch h

end Results

end PactJanus.Verification.Exchange
