import PactJanus.Contracts.Model
import PactJanus.Lib.PartialMap
import PactJanus.Plan.Outcome
import PactJanus.Variant.Generate

namespace PactJanus.Session.Exchange

open PactJanus.Data.Json PactJanus.Lib PactJanus.Lib.PartialMap PactJanus.Contracts.Model PactJanus.Plan.Model
open PactJanus.Plan.Value PactJanus.Plan.Resolve PactJanus.Plan.Result PactJanus.Plan.Interpret PactJanus.Plan.Outcome
open PactJanus.Variant.Generate

/-! The live exchange of one transport: what is armed on it, what an arrival is matched against, what is recorded. -/

/-- A generated payload: the slots of each part. -/
abbrev Payload := List (String × List (String × Generated))

/-- Parts as a transport carries them. -/
abbrev Parts := List (String × ValuePart)

/-- A variant: its interaction's handle and its id. -/
abbrev Key := String × String

inductive ExchangeOutcome where
  | verified | failed
deriving DecidableEq

/-- The evidence exercising a variant produced. -/
structure Exercised where
  outcome : ExchangeOutcome
  parts : Payload
  mismatches : List Json

/-- One more exchange of the same variant: failed if either failed. -/
def Exercised.merge (earlier later : Exercised) : Exercised :=
  { earlier with
    outcome := if later.outcome = .failed then .failed else earlier.outcome
    mismatches := earlier.mismatches ++ later.mismatches }

/-- What exercising variants leaves behind: an exchange of one, one handed to its test, and what two of them come to. -/
class Evidence (ε : Type) where
  exchanged : Exercised → ε
  handed : Exercised → ε
  merge : ε → ε → ε

/-- The session's own evidence. -/
instance : Evidence Exercised := ⟨id, id, Exercised.merge⟩

/-- What `serve-variant` arms a transport with for a passive interaction. -/
structure ArmedExchange where
  handle : String
  variantId : String
  requestPlan : MatchingPlan
  responseParts : Payload
  contentTypes : ContentTypes

def ArmedExchange.key (armed : ArmedExchange) : Key := (armed.handle, armed.variantId)

/-- What `serve-variant` and the loop of one transport share. -/
structure ExchangeState (ε : Type) where
  armed : List ArmedExchange
  inFlight : List Key
  outcomes : PMap Key ε

namespace ExchangeState

variable {ε : Type}

def initial : ExchangeState ε := ⟨[], [], PMap.empty⟩

/-- Arms, in the place of its handle's arming if it has one; it goes last. -/
def arm (state : ExchangeState ε) (armed : ArmedExchange) : ExchangeState ε :=
  { state with armed := state.armed.filter (fun other => other.handle ≠ armed.handle) ++ [armed] }

/-- Disarms a variant and takes its recorded outcome, once the wait for its exchanges is over. -/
def settle (state : ExchangeState ε) (key : Key) : ExchangeState ε × Option ε :=
  ({ state with
      armed := state.armed.filter fun armed => ¬(armed.handle = key.1 ∧ armed.variantId = key.2)
      outcomes := state.outcomes.remove key },
    state.outcomes key)

end ExchangeState

/-! What an arrival is read with. -/

/-- The parts of an exchange a transport names: the one that starts it, and the one that answers if one does. -/
structure ExchangeParts where
  initiating : String
  answering : Option String

structure ContentComponent where
  handles : String → Bool
  decode : String → SlotValue → Option RuntimeValue
  detection : Parts → ContentTypes → ContentDetector

def declaredType (declared : ContentTypes) (part slot : String) : Option String :=
  (declared.lookup part).bind fun slots => slots.lookup slot

/-- The content type a slot is decoded as and the component that claims it. -/
def claimant (slot : SlotValue) (declared : Option String) (content : Option ContentComponent) :
    Option (String × ContentComponent) :=
  match declared.or slot.contentType, content with
  | some contentType, some content => if content.handles contentType then some (contentType, content) else none
  | _, _ => none

def decodeSlot (slot : SlotValue) (declared : Option String) (content : Option ContentComponent) : RuntimeValue :=
  match claimant slot declared content with
  | some (contentType, content) => (content.decode contentType slot).getD .absent
  | none =>
    match slot.encoded, asStr slot.content with
    | some "base64", some text => ((Base64.decode text).map .bytes).getD .absent
    | _, _ => fromJson slot.content

/-- An arrival's parts as a plan resolves them. -/
def partsResolver (parts : Parts) (declared : ContentTypes) (content : Option ContentComponent) : CapturedValues :=
  parts.foldl (fun captured part => part.2.foldl (fun captured slot =>
    capture captured ("$." ++ part.1 ++ "." ++ slot.1) (decodeSlot slot.2 (declaredType declared part.1 slot.1) content))
    captured) []

/-- The subtree of a part in an executed plan. -/
def findContainer (executed : Executed) (label : String) : Option Executed :=
  match executed with
  | .container _ children _ => children.find? fun child =>
    match child with
    | .container (some l) _ _ => l == label
    | _ => false
  | _ => none

def actionPassed : Executed → Nat
  | .action _ _ (some result) => if isError result then 0 else 1
  | _ => 0

mutual

/-- How many actions of an executed tree ran and did not fail. -/
def passedActions : Executed → Nat
  | .container _ children _ => passedAll children
  | .action name children r => actionPassed (.action name children r) + passedAll children
  | .pipeline children _ => passedAll children
  | .splat children _ => passedAll children
  | _ => 0
termination_by structural executed => executed

def passedAll : List Executed → Nat
  | [] => 0
  | e :: rest => passedActions e + passedAll rest
termination_by structural executed => executed

end

/-- The components an exchange calls. -/
structure Scope where
  libraries : Libraries
  content : Option ContentComponent
  actions : Option ActionApplier

/-- One arming's request plan, executed against an arrival. -/
structure Candidate where
  armed : ArmedExchange
  status : Status
  mismatches : List Mismatch
  passed : Nat

def candidate (scope : Scope) (names : ExchangeParts) (inbound : Parts) (armed : ArmedExchange) : Candidate :=
  let resolver := resolve (partsResolver inbound armed.contentTypes scope.content)
  let detection := scope.content.map fun content => content.detection inbound armed.contentTypes
  let executed := execute armed.requestPlan ⟨scope.libraries, detection, scope.actions⟩ resolver
  let request := (findContainer executed names.initiating).getD executed
  ⟨armed, (outcome request).1, (outcome request).2, passedActions request⟩

/-- Fewer mismatches, then more actions passed. -/
def closer (a b : Candidate) : Bool :=
  a.mismatches.length < b.mismatches.length ∨ a.mismatches.length = b.mismatches.length ∧ b.passed < a.passed

/-- The candidate an arrival goes to: of those none is closer than, the first armed. -/
def best : List Candidate → Option Candidate
  | [] => none
  | candidate :: rest =>
    match best rest with
    | none => some candidate
    | some other => some (if closer other candidate then other else candidate)

def mismatchJson (mismatch : Mismatch) : Json :=
  .object [("action", (mismatch.action.map Json.string).getD .null), ("message", .string mismatch.message),
    ("path", (mismatch.path.map Json.string).getD .null)]

/-- The evidence of an exchange, given what delivering its answer failed with, if it did. -/
def exercised (candidate : Candidate) (undelivered : Option String) : Exercised :=
  match candidate.status, undelivered with
  | .matched, none => ⟨.verified, candidate.armed.responseParts, []⟩
  | .matched, some message =>
    ⟨.failed, candidate.armed.responseParts,
      [.object [("action", .string "transport:reply"),
        ("message", .string ("the request matched, but its response could not be delivered to the consumer: " ++
          message))]]⟩
  | .mismatched, _ => ⟨.failed, candidate.armed.responseParts, candidate.mismatches.map mismatchJson⟩

namespace ExchangeState

variable {ε : Type} [Evidence ε]

/-- Takes an arrival: every arming is in flight, and it goes to the best of them, if anything is armed. -/
def arrive (scope : Scope) (names : ExchangeParts) (state : ExchangeState ε) (inbound : Parts) :
    ExchangeState ε × Option Candidate :=
  ({ state with inFlight := state.armed.map ArmedExchange.key },
    best (state.armed.map (candidate scope names inbound)))

/-- Records an exchange that is over as one more of its variant's. -/
def conclude (state : ExchangeState ε) (candidate : Candidate) (undelivered : Option String) : ExchangeState ε :=
  { state with
    inFlight := []
    outcomes := state.outcomes.record Evidence.merge candidate.armed.key
      (Evidence.exchanged (exercised candidate undelivered)) }

end ExchangeState

theorem best_mem {candidates : List Candidate} {chosen : Candidate} (h : best candidates = some chosen) :
    chosen ∈ candidates := by
  induction candidates generalizing chosen with
  | nil => exact nomatch h
  | cons candidate rest ih =>
    rw [best] at h
    cases hrest : best rest with
    | none =>
      rw [hrest] at h
      obtain rfl := Option.some.inj h
      exact List.mem_cons_self
    | some other =>
      rw [hrest] at h
      obtain rfl := Option.some.inj h
      split
      · exact List.mem_cons_of_mem _ (ih hrest)
      · exact List.mem_cons_self

/-- An arrival goes to an arming of the transport, if to any. -/
theorem arrive_mem {ε : Type} {scope : Scope} {names : ExchangeParts} {state : ExchangeState ε} {inbound : Parts}
    {chosen : Candidate} (h : (state.arrive scope names inbound).2 = some chosen) : chosen.armed ∈ state.armed := by
  obtain ⟨armed, harmed, rfl⟩ := List.mem_map.1 (best_mem h)
  exact harmed

end PactJanus.Session.Exchange
