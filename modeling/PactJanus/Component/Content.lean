import PactJanus.Contracts.Model
import PactJanus.Plan.Resolve

namespace PactJanus.Component.Content

open PactJanus.Data.Json PactJanus.Lib PactJanus.Contracts.Model PactJanus.Plan.Value PactJanus.Plan.Resolve

/-! The detection of a value's content type, by a content component. -/

/-- The declared media type of one slot, if the interaction declared one. -/
def declaredType (contentTypes : Option ContentTypes) (part slot : String) : Option String :=
  contentTypes.bind fun types => (types.lookup part).bind fun slots => slots.lookup slot

/-- What detects a value's content type: a component, with the parts that arrived, if there are any behind the values. -/
structure ContentDetection where
  detect : SlotValue → Option String
  parts : Option (List (String × ValuePart))
  declared : Option ContentTypes
  byLabel : Bool

/-- The part and the slot a path is of, if it is a whole slot's. -/
def slotAt (path : String) : Option (String × String) :=
  match path.toList with
  | '$' :: '.' :: rest =>
    match Text.splitChars '.' rest with
    | [part, slot] => some (String.ofList part, String.ofList slot)
    | _ => none
  | _ => none

/-- A slot as it arrived. -/
def ContentDetection.arrived (detection : ContentDetection) (part slot : String) : Option SlotValue :=
  detection.parts.bind fun parts => (parts.lookup part).bind fun slots => slots.lookup slot

/-- A value is detected as its slot arrived, when it is a whole slot's, and as it stands otherwise. -/
def ContentDetection.detector (detection : ContentDetection) : ContentDetector := fun value path =>
  match (path.bind slotAt).bind fun (part, slot) => (detection.arrived part slot).map fun raw => (part, slot, raw) with
  | some (part, slot, raw) =>
    if detection.byLabel then
      match (declaredType detection.declared part slot).or raw.contentType with
      | some contentType => some contentType
      | none => detection.detect raw
    else detection.detect raw
  | none =>
    match value with
    | .bytes bytes => detection.detect ⟨.string (Base64.encode bytes), some "base64", none⟩
    | .string text => detection.detect ⟨.string text, some "text", none⟩
    | _ => none

/-- A slot's path is `$.`, its part, a dot and its name. -/
theorem slotAt_eq {path part slot : String} (h : slotAt path = some (part, slot)) : path = "$." ++ part ++ "." ++ slot := by
  unfold slotAt at h
  split at h
  · rename_i rest hpath
    split at h
    · rename_i p s hsplit
      obtain ⟨rfl, rfl⟩ := Prod.mk.inj (Option.some.inj h)
      rw [← String.toList_inj, hpath, Text.splitChars_pair hsplit]
      simp
    · exact nomatch h
  · exact nomatch h

end PactJanus.Component.Content
