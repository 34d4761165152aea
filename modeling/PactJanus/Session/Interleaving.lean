import PactJanus.Lib.Machine
import PactJanus.Session.Model

namespace PactJanus.Session.Interleaving

open PactJanus.Data.Json PactJanus.Lib.Lists PactJanus.Lib.PartialMap PactJanus.Contracts.Model PactJanus.Session.Exchange
open PactJanus.Session.Model

/-! A session with its transports: the requests of its host, step by step, beside the loop of each transport. -/

/-- What the loop of a transport is doing. -/
inductive Loop where
  | polling
  | handling (candidate : Candidate)
  | ended

structure TransportRun (ε : Type) where
  instance' : String
  kind : String
  exchange : ExchangeState ε
  loop : Loop

/-- The request being answered: `waiting` names the transports it has still to go through, and `late` says that it
gave up waiting for an exchange under way. -/
inductive Dispatch (ε : Type) where
  | idle
  | arming (armed : ArmedExchange) (waiting : List String)
  | settling (handle variantId : String) (verdict : TestVerdict) (waiting : List String) (settled : List ε) (late : Bool)
  | stopping
  | finalised

structure System (ε : Type) where
  session : ConsumerSession ε
  transports : List (TransportRun ε)
  nextTransport : Nat
  dispatch : Dispatch ε

/-- What can happen: a request, the next step of the one being answered, or a step of a transport's loop. -/
inductive Event where
  | addInteraction (spec : InteractionSpec) (rawParts : List (String × ShapePart)) (converted : Option Converted)
  | refuse (refusal : Json)
  | startTransport (kind : String) (number : Nat)
  | variants (handle : String) (selected : Selected)
  | serveVariant (handle variantId : String)
  | arm
  | reportVariant (handle variantId : String) (verdict : TestVerdict)
  | settle
  | answer
  | finalise
  | drain
  | arrival (instance' : String) (inbound : Parts)
  | delivery (instance' : String) (undelivered : Option String)
  | ending (instance' : String)

def instanceName (n : Nat) : String := "t-" ++ n.repr

section Steps

variable {ε : Type}

def System.start (consumer provider : Party) (verdictsRequired : Bool) : System ε :=
  ⟨ConsumerSession.new consumer provider verdictsRequired, [], 1, .idle⟩

def Dispatch.isIdle : Dispatch ε → Bool
  | .idle => true
  | _ => false

/-- A step of one transport. -/
def atTransport {α : Type} (instance' : String) (f : TransportRun ε → Option (TransportRun ε × α)) (system : System ε) :
    Option (System ε × α) :=
  (stepAt (fun run => run.instance' == instance') f system.transports).map fun (transports, a) =>
    ({ system with transports := transports }, a)

variable [Evidence ε]

def TransportRun.arrive (world : World) (inbound : Parts) (run : TransportRun ε) : Option (TransportRun ε × Unit) :=
  match run.loop with
  | .polling =>
    let (state, chosen) := run.exchange.arrive world.toScope (world.names run.kind) inbound
    some ({ run with exchange := state, loop := chosen.elim .polling .handling }, ())
  | _ => none

def TransportRun.deliver (undelivered : Option String) (run : TransportRun ε) : Option (TransportRun ε × Unit) :=
  match run.loop with
  | .handling candidate => some ({ run with exchange := run.exchange.conclude candidate undelivered, loop := .polling }, ())
  | _ => none

/-- The loop ends: it is told to, its transport is gone, or its task panicked. -/
def TransportRun.endLoop (run : TransportRun ε) : Option (TransportRun ε × Unit) := some ({ run with loop := .ended }, ())

def TransportRun.armWith (armed : ArmedExchange) (run : TransportRun ε) : Option (TransportRun ε × Unit) :=
  some ({ run with exchange := run.exchange.arm armed }, ())

/-- Ends the wait for a variant's exchanges: what was recorded of it, and whether one is still under way. -/
def TransportRun.settle (key : Key) (run : TransportRun ε) : Option (TransportRun ε × Option ε × Bool) :=
  let (state, taken) := run.exchange.settle key
  some ({ run with exchange := state }, taken, key ∈ run.exchange.inFlight)

/-- The session after a step of its own, taken only where no request is being answered. -/
def System.request (system : System ε) (session : ConsumerSession ε) : Option (System ε) :=
  if system.dispatch.isIdle then some { system with session := session } else none

def serve (world : World) (system : System ε) (handle variantId : String) : Option (System ε) :=
  if system.dispatch.isIdle then
    let (session, served) := system.session.serveVariant world (system.transports.map TransportRun.kind) handle variantId
    match served with
    | .ok (.armed (some (kind, armed))) =>
      some { system with
        session := session
        dispatch := .arming armed ((system.transports.filter fun run => run.kind = kind).map TransportRun.instance') }
    | _ => some { system with session := session }
  else none

/-- One step of a session and its transports, `none` where the event cannot happen. -/
def step (world : World) (system : System ε) : Event → Option (System ε)
  | .addInteraction spec rawParts converted =>
    system.request (system.session.addInteraction spec rawParts converted)
  | .refuse refusal => system.request (system.session.recordRefusal refusal)
  | .startTransport kind number =>
    if system.dispatch.isIdle ∧ system.nextTransport ≤ number then
      some { system with
        transports := system.transports ++ [⟨instanceName number, kind, ExchangeState.initial, .polling⟩]
        nextTransport := number + 1 }
    else none
  | .variants handle selected => system.request (system.session.variants handle selected)
  | .serveVariant handle variantId => serve world system handle variantId
  | .arm =>
    match system.dispatch with
    | .arming armed (instance' :: waiting) =>
      (atTransport instance' (TransportRun.armWith armed) system).map fun (system, _) =>
        { system with dispatch := .arming armed waiting }
    | .arming _ [] => some { system with dispatch := .idle }
    | _ => none
  | .reportVariant handle variantId verdict =>
    if system.dispatch.isIdle then
      match system.session.reportRefused handle variantId with
      | some _ => some system
      | none => some { system with
          dispatch := .settling handle variantId verdict (system.transports.map TransportRun.instance') [] false }
    else none
  | .settle =>
    match system.dispatch with
    | .settling handle variantId verdict (instance' :: waiting) settled late =>
      (atTransport instance' (TransportRun.settle (handle, variantId)) system).map fun (system, taken, underway) =>
        { system with dispatch := .settling handle variantId verdict waiting (settled ++ taken.toList) (late || underway) }
    | _ => none
  | .answer =>
    match system.dispatch with
    | .settling handle variantId verdict [] settled _ =>
      some { system with session := system.session.collect handle variantId verdict settled, dispatch := .idle }
    | _ => none
  | .finalise => if system.dispatch.isIdle then some { system with dispatch := .stopping } else none
  | .drain =>
    match system.dispatch, system.transports with
    | .stopping, [] => some { system with dispatch := .finalised }
    | .stopping, ⟨_, _, exchange, .ended⟩ :: rest =>
      some { system with session := system.session.drain exchange.outcomes, transports := rest }
    | _, _ => none
  | .arrival instance' inbound => (atTransport instance' (TransportRun.arrive world inbound) system).map Prod.fst
  | .delivery instance' undelivered => (atTransport instance' (TransportRun.deliver undelivered) system).map Prod.fst
  | .ending instance' => (atTransport instance' TransportRun.endLoop system).map Prod.fst

/-- What a step is noted for: an arrival that goes to an arming, and an exchange that is over. -/
inductive Note where
  | attributed (instance' : String) (key : Key)
  | settled (instance' : String) (key : Key) (exercised : Exercised)

def notes (world : World) (system : System ε) : Event → List Note
  | .arrival instance' inbound =>
    match system.transports.find? fun run => run.instance' == instance' with
    | some ⟨_, kind, exchange, .polling⟩ =>
      ((exchange.arrive world.toScope (world.names kind) inbound).2.map fun candidate =>
        .attributed instance' candidate.armed.key).toList
    | _ => []
  | .delivery instance' undelivered =>
    match system.transports.find? fun run => run.instance' == instance' with
    | some ⟨_, _, _, .handling candidate⟩ =>
      [.settled instance' candidate.armed.key (exercised candidate undelivered)]
    | _ => []
  | _ => []

end Steps

end PactJanus.Session.Interleaving
