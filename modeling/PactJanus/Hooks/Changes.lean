import PactJanus.Contracts.Model
import PactJanus.Hooks.Points
import PactJanus.Lib.SortedMap

namespace PactJanus.Hooks.Changes

open PactJanus.Data.Json PactJanus.Contracts.Model PactJanus.Hooks.Points PactJanus.Lib PactJanus.Lib.Text

/-! What a hook answered, and its changes made to the parts in flight. -/

abbrev Part := OrderedMap String SlotValue

abbrev Parts := OrderedMap String Part

inductive Outcome where
  | ok | skipped | unsupported | failed | timedOut | errored
deriving DecidableEq

/-- What a hook answered; `changes` is a document's object, so it names no path twice. -/
structure InvokeResult where
  outcome : Option Outcome
  changes : List (String × Json)
  error : Option Json
  distinct : (changes.map Prod.fst).Nodup

def InvokeResult.outcomeOf (result : InvokeResult) : Outcome := result.outcome.getD .ok

structure HookEntry where
  name : String
  changes : List String
  onFailure : Option String

/-- This entry's failure policy: what it declared, or the point's default. -/
def HookEntry.policy (entry : HookEntry) (point : Point) : Policy :=
  (entry.onFailure.bind Policy.parse).getD point.defaultPolicy

def refused (path why : String) : Json :=
  .object [("code", .string "hook-change-refused"),
    ("message", .string ("the change to '" ++ path ++ "' was refused: " ++ why)),
    ("details", .object [("path", .string path)])]

/-- An optional text of a slot value: `null` and nothing at all are the same. -/
def parseText : Option Json → Option (Option String)
  | none => some none
  | some .null => some none
  | some (.string s) => some (some s)
  | some _ => none

/-- A slot value, as its members by name or as the list of all three. -/
def parseSlot : Json → Option SlotValue
  | .object members => do
    let content ← members.lookup "content"
    let encoded ← parseText (members.lookup "encoded")
    let contentType ← parseText (members.lookup "content-type")
    return ⟨content, encoded, contentType⟩
  | .array [content, encoded, contentType] => do
    let encoded ← parseText (some encoded)
    let contentType ← parseText (some contentType)
    return ⟨content, encoded, contentType⟩
  | _ => none

/-- A map of names, each read on its own. -/
def parseMap {α : Type} (parse : Json → Option α) : Json → Option (OrderedMap String α)
  | .object members => members.foldlM (fun map p => (parse p.2).map (map.insert p.1)) .empty
  | _ => none

def parseParts : Json → Option Parts := parseMap (parseMap parseSlot)

/-- Why a change is refused whatever its value: the point does not permit it, or the hook did not declare it. -/
def notAllowed (entry : HookEntry) (point : Point) (path : String) : Option Json :=
  if !point.permits path then some (refused path ("'" ++ point.name ++ "' does not permit changing it"))
  else if path ∉ entry.changes then
    some (refused path ("hook '" ++ entry.name ++ "' did not declare it in its 'changes'"))
  else none

def setSlot (parts : Parts) (part slot : String) (value : SlotValue) : Parts :=
  parts.insert part (((parts.get part).getD .empty).insert slot value)

/-- One change made to the parts. -/
def applyChange (parts : Parts) (path : String) (value : Json) : Except Json Parts :=
  match split '.' path with
  | ["parts"] =>
    match parseParts value with
    | some replacement => .ok replacement
    | none => .error (refused path "the replacement is not a parts document")
  | ["parts", part, slot] =>
    match parseSlot value with
    | some replacement => .ok (setSlot parts part slot replacement)
    | none => .error (refused path "the replacement is not a slot value")
  | _ => .error (refused path "it is not a context path this engine can replace")

/-- The changes made one after the other, and the parts as they are left. -/
def applyEach : List (String × Json) → Parts → Except Json (List String) × Parts
  | [], parts => (.ok [], parts)
  | (path, value) :: rest, parts =>
    match applyChange parts path value with
    | .error refusal => (.error refusal, parts)
    | .ok changed => ((applyEach rest changed).1.map (path :: ·), (applyEach rest changed).2)

/-- Every path is checked before any change is made. -/
def applyChanges (result : InvokeResult) (entry : HookEntry) (point : Point) (parts : Parts) :
    Except Json (List String) × Parts :=
  match result.changes.findSome? fun c => notAllowed entry point c.1 with
  | some refusal => (.error refusal, parts)
  | none => applyEach result.changes parts

/-- What one hook's answer does to the run. -/
inductive PointOutcome where
  | proceed
  | failExchange (hook : String) (error : Json)
  | stateUnavailable (hook : String) (error : Json)
  | abort (hook : String) (error : Json)

/-- The point's failure policy, applied. -/
def effectOf (entry : HookEntry) (point : Point) (error : Json) : PointOutcome :=
  match entry.policy point with
  | .abortRun => .abort entry.name error
  | .failExchange => .failExchange entry.name error
  | .warn => .proceed

def errorOf (result : InvokeResult) (code message : String) : Json :=
  result.error.getD (.object [("code", .string code), ("message", .string message)])

/-- What an answer does to the run, and the parts the next hook at the point sees. -/
def answered (result : InvokeResult) (entry : HookEntry) (point : Point) (parts : Parts) : PointOutcome × Parts :=
  match result.outcomeOf with
  | .ok | .skipped =>
    match applyChanges result entry point parts with
    | (.ok _, changed) => (.proceed, changed)
    | (.error refusal, left) => (effectOf entry point refusal, left)
  | .unsupported =>
    let error := errorOf result "state-unsupported" "the provider cannot reach this state"
    (if point.scope = .state then .stateUnavailable entry.name error else effectOf entry point error, parts)
  | _ => (effectOf entry point (errorOf result "hook-failed" ("hook '" ++ entry.name ++ "' failed")), parts)

/-! The changes as they are made: each leaves what it does not name. -/

/-- A path names a slot: its own, or any when it names the whole parts. -/
def Names (path part slot : String) : Prop := path = "parts" ∨ split '.' path = ["parts", part, slot]

def slotAt (parts : Parts) (part slot : String) : Option SlotValue := (parts.get part).bind fun p => p.get slot

/-- The parts differ from before at the slots touched alone. -/
structure DiffersAt (touched : String → String → Prop) (parts changed : Parts) : Prop where
  slot : ∀ part slot, ¬ touched part slot → slotAt changed part slot = slotAt parts part slot
  part : ∀ part, (∀ slot, ¬ touched part slot) → changed.get part = parts.get part

theorem DiffersAt.rfl {touched : String → String → Prop} {parts : Parts} : DiffersAt touched parts parts :=
  ⟨fun _ _ _ => Eq.refl _, fun _ _ => Eq.refl _⟩

theorem DiffersAt.trans {touched touched' all : String → String → Prop} {parts changed left : Parts}
    (h : DiffersAt touched parts changed) (h' : DiffersAt touched' changed left)
    (hall : ∀ part slot, touched part slot ∨ touched' part slot → all part slot) : DiffersAt all parts left := by
  refine ⟨fun part slot hn => ?_, fun part hn => ?_⟩
  · rw [h'.slot part slot fun ht => hn (hall _ _ (Or.inr ht)), h.slot part slot fun ht => hn (hall _ _ (Or.inl ht))]
  · rw [h'.part part fun s ht => hn s (hall _ _ (Or.inr ht)), h.part part fun s ht => hn s (hall _ _ (Or.inl ht))]

/-- The parts hold the value given for a path. -/
def Holds (parts : Parts) (path : String) (value : Json) : Prop :=
  match split '.' path with
  | ["parts"] => parseParts value = some parts
  | ["parts", part, slot] => ∃ s, parseSlot value = some s ∧ slotAt parts part slot = some s
  | _ => False

/-- A change with a value that is what its path takes. -/
def readable (path : String) (value : Json) : Bool :=
  match split '.' path with
  | ["parts"] => (parseParts value).isSome
  | ["parts", _, _] => (parseSlot value).isSome
  | _ => false

theorem slotAt_setSlot (parts : Parts) (part slot : String) (value : SlotValue) (p s : String) :
    slotAt (setSlot parts part slot value) p s = if p = part ∧ s = slot then some value else slotAt parts p s := by
  unfold slotAt setSlot
  by_cases hp : p = part
  · subst hp
    rw [OrderedMap.get_insert_self, Option.bind_some, OrderedMap.get_insert]
    by_cases hs : s = slot
    · rw [if_pos hs, if_pos ⟨rfl, hs⟩]
    · rw [if_neg hs, if_neg fun h => hs h.2]
      cases parts.get p <;> rfl
  · rw [OrderedMap.get_insert_of_ne _ _ hp, if_neg fun h => hp h.1]

/-- A slot that holds the value already is left as it is. -/
theorem setSlot_of_slotAt {parts : Parts} {part slot : String} {value : SlotValue}
    (h : slotAt parts part slot = some value) : setSlot parts part slot value = parts := by
  obtain ⟨held, hheld, hslot⟩ := Option.bind_eq_some_iff.1 h
  unfold setSlot
  rw [hheld, Option.getD_some, OrderedMap.insert_of_get hslot, OrderedMap.insert_of_get hheld]

private theorem split_parts : split '.' "parts" = ["parts"] := by decide

/-- A change is made where its value is readable, and then the parts hold it. -/
theorem applyChange_ok (parts : Parts) {path : String} {value : Json} (h : readable path value = true) :
    ∃ changed, applyChange parts path value = .ok changed ∧ Holds changed path value ∧
      DiffersAt (Names path) parts changed := by
  unfold readable at h
  split at h
  · rename_i hsplit
    obtain ⟨replacement, hr⟩ := Option.isSome_iff_exists.1 h
    have hpath : path = "parts" := split_injective '.' (hsplit.trans split_parts.symm)
    refine ⟨replacement, ?_, ?_, fun part slot hn => absurd (Or.inl hpath) hn, fun part hn => absurd (Or.inl hpath) (hn "")⟩
    · simp only [applyChange, hsplit, hr]
    · simp only [Holds, hsplit, hr]
  · rename_i part slot hsplit
    obtain ⟨replacement, hr⟩ := Option.isSome_iff_exists.1 h
    refine ⟨setSlot parts part slot replacement, ?_, ?_, fun p s hn => ?_, fun p hn => ?_⟩
    · simp only [applyChange, hsplit, hr]
    · simp only [Holds, hsplit, hr]
      exact ⟨replacement, rfl, by rw [slotAt_setSlot, if_pos ⟨rfl, rfl⟩]⟩
    · rw [slotAt_setSlot, if_neg]
      rintro ⟨rfl, rfl⟩
      exact hn (Or.inr hsplit)
    · apply OrderedMap.get_insert_of_ne
      rintro rfl
      exact hn slot (Or.inr hsplit)
  · exact absurd h (by simp)

/-- A change with a value that cannot be read is refused. -/
theorem applyChange_error (parts : Parts) {path : String} {value : Json} (h : readable path value = false) :
    ∃ refusal, applyChange parts path value = .error refusal := by
  unfold readable at h
  unfold applyChange
  split at h
  · rw [Option.isSome_eq_false_iff, Option.isNone_iff_eq_none] at h
    exact ⟨_, by simp only [h]; rfl⟩
  · rw [Option.isSome_eq_false_iff, Option.isNone_iff_eq_none] at h
    exact ⟨_, by simp only [h]; rfl⟩
  · exact ⟨_, rfl⟩

/-- A change the parts hold already leaves them as they are. -/
theorem applyChange_held {parts : Parts} {path : String} {value : Json} (h : Holds parts path value) :
    applyChange parts path value = .ok parts := by
  unfold Holds at h
  unfold applyChange
  split at h
  · simp only [h]
  · obtain ⟨s, hs, hslot⟩ := h
    simp only [hs, setSlot_of_slotAt hslot]
  · exact absurd h id

end PactJanus.Hooks.Changes
