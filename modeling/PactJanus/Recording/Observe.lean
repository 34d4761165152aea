import Mathlib.Data.List.Lex
import Mathlib.Data.Prod.Lex
import Mathlib.Data.String.Basic
import PactJanus.Data.Json
import PactJanus.Lib.SortedMap

namespace PactJanus.Recording.Observe

open PactJanus.Data.Json PactJanus.Lib

/-! The evidence a recorder accumulates. -/

/-- The two judgements a recorder cannot avoid. -/
structure RecordingPolicy where
  /-- Beyond this many distinct values, a scalar position is an open domain rather than a set. -/
  maxOptions : Nat
  /-- Below this many observations, that every value was new is no evidence of an open domain. -/
  minEvidence : Nat

/-- A scalar's canonical text: a number is keyed by its double. -/
def canonical : Json → String
  | .number n => "n:" ++ Binary64.displayText (asF64 n)
  | other => text other

/-- What a position held, but for what is under it. -/
structure Flat where
  seen : Nat
  nulls : Nat
  /-- The distinct scalars, by canonical text, each as it was first seen. -/
  literals : List (String × Json)
  scalars : Nat
  strings : Bool
  booleans : Bool
  integers : Bool
  decimals : Bool

mutual

/-- What one position in a value tree has been seen to hold. -/
inductive Profile where
  | mk (flat : Flat) (object : Option ObjectProfile) (array : Option ArrayProfile)

inductive ObjectProfile where
  | mk (count : Nat) (members : List (String × Profile))

inductive ArrayProfile where
  | mk (count : Nat) (min max : UInt64) (items : Profile)

end

namespace Flat

def empty : Flat := ⟨0, 0, [], 0, false, false, false, false⟩

def sawScalar (flat : Flat) (scalar : Json) : Flat :=
  { flat with
    scalars := flat.scalars + 1
    strings := flat.strings || match scalar with
      | .string _ => true
      | _ => false
    booleans := flat.booleans || match scalar with
      | .bool _ => true
      | _ => false
    integers := flat.integers || match scalar with
      | .number n => isWrittenInteger n
      | _ => false
    decimals := flat.decimals || match scalar with
      | .number n => !isWrittenInteger n
      | _ => false
    literals := match flat.literals.lookup (canonical scalar) with
      | some _ => flat.literals
      | none => SortedMap.insert (canonical scalar) scalar flat.literals }

def saw (flat : Flat) (value : Json) : Flat :=
  let flat := { flat with seen := flat.seen + 1 }
  match value with
  | .null => { flat with nulls := flat.nulls + 1 }
  | .object _ => flat
  | .array _ => flat
  | scalar => flat.sawScalar scalar

end Flat

namespace Profile

def empty : Profile := ⟨Flat.empty, none, none⟩

def flat : Profile → Flat
  | ⟨flat, _, _⟩ => flat

def object : Profile → Option ObjectProfile
  | ⟨_, object, _⟩ => object

def array : Profile → Option ArrayProfile
  | ⟨_, _, array⟩ => array

end Profile

/-- An object seen, its members observed with those seen before. -/
def sawObject (observed : List (String × Profile) → List (String × Profile)) (object : Option ObjectProfile) :
    ObjectProfile :=
  match object.getD ⟨0, []⟩ with
  | ⟨count, members⟩ => ⟨count + 1, observed members⟩

/-- A list seen, of a length, its elements observed with those seen before. -/
def sawArray (length : UInt64) (observed : Profile → Profile) (array : Option ArrayProfile) : ArrayProfile :=
  match array.getD ⟨0, UInt64.ofNat (2 ^ 64 - 1), 0, Profile.empty⟩ with
  | ⟨count, least, most, items⟩ =>
    ⟨count + 1, if length < least then length else least, if most < length then length else most, observed items⟩

mutual

def observe : Json → Profile → Profile
  | .object members, ⟨flat, object, array⟩ =>
    ⟨flat.saw (.object members), some (sawObject (observeMembers members) object), array⟩
  | .array items, ⟨flat, object, array⟩ =>
    ⟨flat.saw (.array items), object, some (sawArray (UInt64.ofNat items.length) (observeItems items) array)⟩
  | .null, ⟨flat, object, array⟩ => ⟨flat.saw .null, object, array⟩
  | .bool b, ⟨flat, object, array⟩ => ⟨flat.saw (.bool b), object, array⟩
  | .number n, ⟨flat, object, array⟩ => ⟨flat.saw (.number n), object, array⟩
  | .string s, ⟨flat, object, array⟩ => ⟨flat.saw (.string s), object, array⟩
termination_by structural v => v

def observeMembers : List (String × Json) → List (String × Profile) → List (String × Profile)
  | [], members => members
  | (name, v) :: rest, members =>
    observeMembers rest (SortedMap.insert name (observe v ((members.lookup name).getD Profile.empty)) members)
termination_by structural ms => ms

def observeItems : List Json → Profile → Profile
  | [], items => items
  | v :: rest, items => observeItems rest (observe v items)
termination_by structural vs => vs

end

/-! The recorder. -/

mutual

/-- No list in the document has more elements than a machine counts. -/
def countable : Json → Bool
  | .array items => decide (items.length < 2 ^ 64) && countableAll items
  | .object members => countableMembers members
  | .null => true
  | .bool _ => true
  | .number _ => true
  | .string _ => true
termination_by structural v => v

def countableAll : List Json → Bool
  | [] => true
  | v :: rest => countable v && countableAll rest
termination_by structural vs => vs

def countableMembers : List (String × Json) → Bool
  | [] => true
  | (_, v) :: rest => countable v && countableMembers rest
termination_by structural ms => ms

end

/-- One interaction's identity: its description and the names of its states. -/
abbrev Key := String ×ₗ List String

/-- A value of a slot, as a machine holds it. -/
structure Value where
  json : Json
  distinct : distinctKeys json = true
  counts : countable json = true

/-- One response the provider produced: the value of each slot, by part and slot. -/
structure Observation where
  description : String
  states : List String
  parts : List (String × List (String × Value))
  partsDistinct : (parts.map Prod.fst).Nodup
  slotsDistinct : ∀ part ∈ parts, (part.2.map Prod.fst).Nodup

def Observation.key (observation : Observation) : Key := toLex (observation.description, observation.states)

structure Observed where
  parts : List (String × List (String × Profile))
  observations : Nat

structure Recorder where
  provider : String
  policy : RecordingPolicy
  interactions : List (Key × Observed)

/-- The entry of a key, the default where it has none, replaced by what is made of it. -/
def update {κ α : Type} [DecidableEq κ] [LT κ] [DecidableLT κ] (default : α) (f : α → α) (map : List (κ × α)) (key : κ) :
    List (κ × α) := SortedMap.insert key (f ((map.lookup key).getD default)) map

def observeSlots (slots : List (String × Value)) (recorded : List (String × Profile)) : List (String × Profile) :=
  slots.foldl (fun recorded slot => update Profile.empty (observe slot.2.json) recorded slot.1) recorded

def observeParts (parts : List (String × List (String × Value))) (recorded : List (String × List (String × Profile))) :
    List (String × List (String × Profile)) :=
  parts.foldl (fun recorded part => update [] (observeSlots part.2) recorded part.1) recorded

namespace Recorder

def observe (recorder : Recorder) (observation : Observation) : Recorder :=
  { recorder with
    interactions := update ⟨[], 0⟩ (fun observed => ⟨observeParts observation.parts observed.parts, observed.observations + 1⟩)
      recorder.interactions observation.key }

end Recorder

end PactJanus.Recording.Observe
