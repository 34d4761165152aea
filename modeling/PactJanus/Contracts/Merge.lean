import Mathlib.Data.Prod.Lex
import Mathlib.Data.String.Basic
import Mathlib.Order.WithBot
import PactJanus.Contracts.Model
import PactJanus.Lib.KeyedUnion

namespace PactJanus.Contracts.Merge

open PactJanus.Data.Json PactJanus.Lib PactJanus.Contracts.Model

/-! Merging contracts, and the order every contract's interactions are written in. -/

/-- Why two contracts cannot be merged. -/
inductive Conflict where
  | parties (consumer provider : String)
  | interactions (interactions : List Interaction)

/-- The canonical text of an interaction's states, none where it has none. -/
def statesText (interaction : Interaction) : WithBot String := interaction.states.map fun states => text (statesJson states)

/-- What interactions are compared by: the description, then the text of the states, a missing one first. -/
def identity (interaction : Interaction) : String ×ₗ WithBot String := toLex (interaction.description, statesText interaction)

def sort (interactions : List Interaction) : List Interaction := KeyedUnion.inOrder identity interactions

def sameIdentity (a b : Interaction) : Bool := identity a = identity b

def record (interaction : Interaction) : String := text (interactionJson interaction)

/-- One interaction a file holds, joined to those collected so far and to the conflicts found so far. -/
def joinOne (new : List Interaction) (collected : List Interaction × List Interaction) (held : Interaction) :
    List Interaction × List Interaction :=
  match new.find? fun i => sameIdentity i held with
  | none => (collected.1 ++ [held], collected.2)
  | some recorded => if record recorded = record held then collected else (collected.1, collected.2 ++ [held])

/-- Two contracts joined by identity, in identity order, under the new one's header. -/
def merge (existing new : Contract) : Except Conflict Contract :=
  if existing.consumer.name ≠ new.consumer.name ∨ existing.provider.name ≠ new.provider.name then
    .error (.parties existing.consumer.name existing.provider.name)
  else
    let (interactions, conflicts) := existing.interactions.foldl (joinOne new.interactions) (new.interactions, [])
    if !conflicts.isEmpty then .error (.interactions (sort conflicts))
    else .ok { new with interactions := sort interactions }

/-! What a merge is: the join of its interactions by identity, where they agree. -/

/-- No two of a contract's interactions have one identity. -/
def Distinct (contract : Contract) : Prop := (contract.interactions.map identity).Nodup

def SameParties (a b : Contract) : Prop := a.consumer.name = b.consumer.name ∧ a.provider.name = b.provider.name

instance (contract : Contract) : Decidable (Distinct contract) :=
  inferInstanceAs (Decidable (contract.interactions.map identity).Nodup)

instance (a b : Contract) : Decidable (SameParties a b) :=
  inferInstanceAs (Decidable (a.consumer.name = b.consumer.name ∧ a.provider.name = b.provider.name))

/-- The two contracts' interactions under the new one's header. -/
def joinedContract (existing new : Contract) : Contract :=
  { new with interactions := KeyedUnion.joined identity existing.interactions new.interactions }

/-- Wherever two contracts have an interaction of one identity, it is the same text in both. -/
abbrev Agree (existing new : Contract) : Prop := KeyedUnion.Agree identity record existing.interactions new.interactions

private theorem foldl_joinOne (new held collected conflicts : List Interaction) :
    held.foldl (joinOne new) (collected, conflicts) =
      (collected ++ KeyedUnion.kept identity held new, conflicts ++ KeyedUnion.clashing identity record held new) := by
  induction held generalizing collected conflicts with
  | nil => simp [KeyedUnion.kept, KeyedUnion.clashing]
  | cons first rest ih =>
    rw [List.foldl_cons, joinOne]
    cases hfound : new.find? fun i => sameIdentity i first with
    | none =>
      have hfound' : (new.find? fun n => identity n = identity first) = none := hfound
      simp [ih, KeyedUnion.kept, KeyedUnion.clashing, hfound']
    | some recorded =>
      have hfound' : (new.find? fun n => identity n = identity first) = some recorded := hfound
      by_cases hrecord : record recorded = record first <;>
        simp [ih, KeyedUnion.kept, KeyedUnion.clashing, hfound', hrecord]

private theorem merge_eq {existing new : Contract} (hparties : SameParties existing new) :
    merge existing new =
      if KeyedUnion.clashing identity record existing.interactions new.interactions = [] then
        .ok (joinedContract existing new)
      else .error (.interactions (sort (KeyedUnion.clashing identity record existing.interactions new.interactions))) := by
  have hno : ¬(existing.consumer.name ≠ new.consumer.name ∨ existing.provider.name ≠ new.provider.name) := by
    rw [not_or, not_not, not_not]
    exact hparties
  rw [merge, if_neg hno, foldl_joinOne]
  simp only [List.nil_append, Bool.not_eq_true', List.isEmpty_eq_false_iff, ne_eq, ite_not]
  rfl

theorem merge_parties {existing new : Contract} (hparties : ¬SameParties existing new) :
    merge existing new = .error (.parties existing.consumer.name existing.provider.name) := by
  have hdiffer : existing.consumer.name ≠ new.consumer.name ∨ existing.provider.name ≠ new.provider.name := by
    rwa [SameParties, not_and_or] at hparties
  rw [merge, if_pos hdiffer]

/-- A merge succeeds exactly for contracts of one pair of parties that agree, and is then the join of the two. -/
theorem merge_ok_iff {existing new merged : Contract} (hnew : Distinct new) :
    merge existing new = .ok merged ↔ SameParties existing new ∧ Agree existing new ∧
      merged = joinedContract existing new := by
  by_cases hparties : SameParties existing new
  · rw [merge_eq hparties]
    by_cases hagree : Agree existing new
    · rw [if_pos ((KeyedUnion.clashing_eq_nil hnew).2 hagree)]
      simp [hparties, hagree, eq_comm]
    · rw [if_neg fun h => hagree ((KeyedUnion.clashing_eq_nil hnew).1 h)]
      simp [hagree]
  · rw [merge_parties hparties]
    simp [hparties]

theorem merge_ok {existing new : Contract} (hnew : Distinct new) (hparties : SameParties existing new)
    (hagree : Agree existing new) : merge existing new = .ok (joinedContract existing new) :=
  (merge_ok_iff hnew).2 ⟨hparties, hagree, rfl⟩

theorem merge_fails_iff {existing new : Contract} (hnew : Distinct new) :
    (∃ conflict, merge existing new = .error conflict) ↔ ¬SameParties existing new ∨ ¬Agree existing new := by
  have hok : (∃ merged, merge existing new = .ok merged) ↔ SameParties existing new ∧ Agree existing new := by
    simp only [merge_ok_iff hnew]
    exact ⟨fun ⟨_, hparties, hagree, _⟩ => ⟨hparties, hagree⟩, fun ⟨hparties, hagree⟩ => ⟨_, hparties, hagree, rfl⟩⟩
  rw [← not_and_or, ← hok]
  cases merge existing new with
  | error conflict => simp
  | ok merged => simp

end PactJanus.Contracts.Merge
