import PactJanus.Data.Json
import PactJanus.Lib.Machine

namespace PactJanus.Events.Stream

open PactJanus.Data.Json

/-! An event stream: a buffer with a sequence counter that several producers append to and one host drains. -/

/-- How many undelivered events one stream buffers before a producer waits for room. -/
def bufferCap : Nat := 1024

structure Event where
  stream : String
  seq : Nat
  kind : String
  payload : Json
  last : Bool

/-- An event as a producer gives it, before it has a place in a stream. -/
structure Entry where
  kind : String
  payload : Json
  last : Bool

/-- What the stream's lock guards. -/
structure Inner where
  nextSeq : Nat
  pending : List Event
  producedLast : Bool
  deliveredLast : Bool

namespace Inner

def new : Inner := ⟨0, [], false, false⟩

def isFull (inner : Inner) : Bool := bufferCap ≤ inner.pending.length

def event (inner : Inner) (id : String) (entry : Entry) : Event :=
  ⟨id, inner.nextSeq + 1, entry.kind, entry.payload, entry.last⟩

/-- An entry at the end of the buffer, whatever is there already. -/
def append (inner : Inner) (id : String) (entry : Entry) : Inner :=
  { inner with
    nextSeq := inner.nextSeq + 1, producedLast := entry.last, pending := inner.pending ++ [inner.event id entry] }

def drain (inner : Inner) (max : Nat) : Inner :=
  { inner with
    pending := inner.pending.drop max
    deliveredLast := inner.deliveredLast || (inner.pending.take max).any fun event => event.last }

end Inner

/-- What a call appends, in order: the terminal event comes after what the observer says of it, any other before. -/
def entries (kind : String) (payload : Json) (last : Bool) (follow : List (String × Json)) : List Entry :=
  let followed := follow.map fun (kind, payload) => ⟨kind, payload, false⟩
  if last then followed ++ [⟨kind, payload, true⟩] else ⟨kind, payload, false⟩ :: followed

/-- A producer's thread: between two pushes, where it holds no lock, or waiting for room in the middle of one. -/
inductive Producer where
  | running (toPush : List Entry)
  | parked (entry : Entry) (toPush : List Entry)

/-- A stream with its producers and what follows its events, if anything does. -/
structure System (ρ ω : Type) where
  id : String
  inner : Inner
  observer : Option ω
  producers : ρ → Producer

/-- What can happen next. A call starts where its producer has none under way, each push takes the stream's lock, and
a waiting producer can be woken at any time. -/
inductive Act (ρ ω : Type) where
  | observe (observer : ω)
  | call (producer : ρ) (kind : String) (payload : Json) (last : Bool)
  | push (producer : ρ)
  | wake (producer : ρ)
  | drain (max : Nat)

namespace Act

variable {ρ ω : Type}

def emit (producer : ρ) (kind : String) (payload : Json) : Act ρ ω := .call producer kind payload false

def finish (producer : ρ) (kind : String) (payload : Json) : Act ρ ω := .call producer kind payload true

end Act

/-- What is seen of a stream from outside. -/
inductive Note where
  | appended (event : Event)
  | dropped (entry : Entry)
  | delivered (event : Event)

section Steps

variable {ρ ω : Type} [DecidableEq ρ] (observe : ω → String → Json → List (String × Json) × ω)

def System.start (id : String) : System ρ ω := ⟨id, .new, none, fun _ => .running []⟩

/-- What the observer says of an event, and the observer after it. -/
def observed (observer : Option ω) (kind : String) (payload : Json) : List (String × Json) × Option ω :=
  match observer with
  | none => ([], none)
  | some observer => ((observe observer kind payload).1, some (observe observer kind payload).2)

namespace System

def becomes (system : System ρ ω) (producer : ρ) (state : Producer) : System ρ ω :=
  { system with producers := Function.update system.producers producer state }

/-- The end of a push: the entry is appended and the producer goes on. -/
def append (system : System ρ ω) (producer : ρ) (entry : Entry) (toPush : List Entry) : System ρ ω × List Note :=
  ({ system with inner := system.inner.append system.id entry }.becomes producer (.running toPush),
    [.appended (system.inner.event system.id entry)])

def push (system : System ρ ω) (producer : ρ) : Option (System ρ ω × List Note) :=
  match system.producers producer with
  | .running (entry :: toPush) =>
    if system.inner.producedLast then some (system.becomes producer (.running toPush), [.dropped entry])
    else if system.inner.isFull then some (system.becomes producer (.parked entry toPush), [])
    else some (system.append producer entry toPush)
  | _ => none

/-- A woken producer looks for room again, and for nothing else. -/
def wake (system : System ρ ω) (producer : ρ) : Option (System ρ ω × List Note) :=
  match system.producers producer with
  | .parked entry toPush => if system.inner.isFull then some (system, []) else some (system.append producer entry toPush)
  | _ => none

def call (system : System ρ ω) (producer : ρ) (kind : String) (payload : Json) (last : Bool) :
    Option (System ρ ω × List Note) :=
  match system.producers producer with
  | .running [] =>
    let (follow, observer) := observed observe system.observer kind payload
    some ({ system with observer := observer }.becomes producer (.running (entries kind payload last follow)), [])
  | _ => none

def move (system : System ρ ω) : Act ρ ω → Option (System ρ ω × List Note)
  | .observe observer => some ({ system with observer := some observer }, [])
  | .call producer kind payload last => system.call observe producer kind payload last
  | .push producer => system.push producer
  | .wake producer => system.wake producer
  | .drain max =>
    some ({ system with inner := system.inner.drain max }, (system.inner.pending.take max).map .delivered)

end System

def step (system : System ρ ω) (act : Act ρ ω) : Option (System ρ ω) := (system.move observe act).map Prod.fst

def notes (system : System ρ ω) (act : Act ρ ω) : List Note := (system.move observe act).elim [] Prod.snd

end Steps

end PactJanus.Events.Stream
