import PactJanus.Data.Json
import PactJanus.Lib.Lists
import Mathlib.Data.Finset.Sort
import Mathlib.Data.String.Basic

namespace PactJanus.SchemaCompat.Checker

open PactJanus.Data.Json PactJanus.Lib.Lists

/-! The authoring rules of a schema document and the additive-evolution rules between two of them. -/

structure Violation where
  path : String
  message : String
deriving DecidableEq

/-- Keywords holding a single subschema. -/
def SINGLE_SUBSCHEMA : List String := ["items", "additionalProperties", "propertyNames", "if", "then", "else", "not"]

/-- Keywords holding an array of subschemas. -/
def SUBSCHEMA_ARRAYS : List String := ["allOf", "anyOf", "oneOf", "prefixItems"]

/-- Keywords holding a map from names to subschemas. -/
def SUBSCHEMA_MAPS : List String := ["properties", "$defs"]

/-- Constraint keywords frozen within a protocol version. -/
def FROZEN_KEYWORDS : List String :=
  ["type", "const", "pattern", "format", "minLength", "maxLength", "minimum", "maximum", "exclusiveMinimum",
    "exclusiveMaximum", "minItems", "maxItems", "multipleOf", "uniqueItems", "default", "$ref", "contentEncoding",
    "x-tagged-by"]

def isSchemaObject (v : Json) : Bool := (asObject v).isSome

/-- The named subschemas under a keyword that holds a map of them. -/
def mapAt (key : String) (node : Json) : Option (List (String × Json)) := (get key node).bind asObject

/-- The subschemas under a keyword that holds an array of them. -/
def arrayAt (key : String) (node : Json) : Option (List Json) := (get key node).bind asArray

def subschemas (node : Json) (path : String) : List (String × Json) :=
  (SUBSCHEMA_MAPS.flatMap fun key => ((mapAt key node).getD []).filterMap fun named =>
    if isSchemaObject named.2 then some (path ++ "/" ++ key ++ "/" ++ named.1, named.2) else none) ++
  (SINGLE_SUBSCHEMA.filterMap fun key => (get key node).bind fun sub =>
    if isSchemaObject sub then some (path ++ "/" ++ key, sub) else none) ++
  (SUBSCHEMA_ARRAYS.flatMap fun key => ((arrayAt key node).getD []).zipIdx.filterMap fun placed =>
    if isSchemaObject placed.1 then some (path ++ "/" ++ key ++ "/" ++ placed.2.repr, placed.1) else none)

def stringSet (v : Option Json) : Finset String := (((v.bind asArray).getD []).filterMap asStr).toFinset

def titleIsTypeShaped (title : String) : Bool :=
  match title.toList with
  | c :: rest => c.isUpper && decide (title.utf8ByteSize ≤ 40) && rest.all Char.isAlphanum
  | [] => false

/-! Each rule of `lint_node` on a node, in the order the checker applies them. -/

def lintEnum (path : String) (node : Json) : List Violation :=
  if (get "enum" node).isSome then
    [⟨path, "'enum' closes a vocabulary; use a string with 'x-known-values' (spec §2.2 rule 1)"⟩] else []

def lintUnknownMembers (path : String) (node : Json) : List Violation :=
  match get "additionalProperties" node with
  | some (.bool false) => [⟨path, "'additionalProperties: false' rejects unknown members (spec §2.2 rule 2)"⟩]
  | _ => []

def stringTyped (node : Json) : Bool := (get "type" node).bind asStr == some "string"

def lintKnownValues (path : String) (node : Json) : List Violation :=
  match get "x-known-values" node with
  | none => []
  | some known =>
    let strings := ((asArray known).getD []).filterMap asStr
    let allStrings := (asArray known).elim false fun values => strings.length == values.length
    (if allStrings && decide strings.Nodup then []
      else [⟨path, "'x-known-values' must be an array of unique strings"⟩]) ++
    (if stringTyped node then []
      else [⟨path, "'x-known-values' belongs on a schema with type 'string' (spec §2.2 rule 1)"⟩])

def lintContentEncoding (path : String) (node : Json) : List Violation :=
  match get "contentEncoding" node with
  | none => []
  | some encoding =>
    (if asStr encoding = some "base64" then []
      else [⟨path, "contentEncoding " ++ text encoding ++
        " is not the specified bytes projection 'base64' (spec §2.4)"⟩]) ++
    (if stringTyped node then [] else [⟨path, "a bytes member is a 'string' carrying base64 (spec §2.4)"⟩])

def lintTag (path : String) (tagName : String) (tag : Json) : List Violation :=
  let known := stringSet (get "x-known-values" tag)
  if !stringTyped tag || known = ∅ then
    [⟨path ++ "/properties/" ++ tagName, "a representation tag is an open string vocabulary (spec §2.5, §2.2 rule 1)"⟩]
  else if "base64" ∉ known then
    [⟨path ++ "/properties/" ++ tagName,
      "a representation tag must offer 'base64' so the member can always carry octets (spec §2.5)"⟩]
  else []

def lintTagged (path : String) (props : List (String × Json)) (name : String) (member : Json) : List Violation :=
  match get "x-tagged-by" member with
  | none => []
  | some tagName =>
    let memberPath := path ++ "/properties/" ++ name
    (if (get "contentEncoding" member).isSome then
      [⟨memberPath, "a member is either statically bytes or tagged, never both (spec §2.5)"⟩] else []) ++
    match asStr tagName with
    | none => [⟨memberPath, "'x-tagged-by' must name a sibling member (spec §2.5)"⟩]
    | some tagName =>
      match props.lookup tagName with
      | none =>
        [⟨memberPath, "'x-tagged-by' names '" ++ tagName ++ "', which is not a sibling member (spec §2.5)"⟩]
      | some tag => lintTag path tagName tag

def lintTitle (path : String) (node : Json) : List Violation :=
  match get "title" node with
  | none => []
  | some title =>
    if (asStr title).any titleIsTypeShaped then []
    else [⟨path, "title " ++ text title ++ " is not short and type-shaped (spec §2.2 rule 5)"⟩]

def lintReference (path : String) (node : Json) : List Violation :=
  match (get "$ref" node).bind asStr with
  | none => []
  | some r =>
    if "://".toList <:+: r.toList then [⟨path, "remote $ref '" ++ r ++ "' (spec §2.2 rule 6)"⟩] else []

private theorem sizeOf_asObject {v : Json} {members : List (String × Json)} {p : String × Json}
    (h : asObject v = some members) (hp : p ∈ members) : sizeOf p.2 < sizeOf v := by
  cases v with
  | object ms =>
    obtain rfl : ms = members := Option.some.inj h
    have := List.sizeOf_lt_of_mem hp
    obtain ⟨name, sub⟩ := p
    simp only [Prod.mk.sizeOf_spec, Json.object.sizeOf_spec] at *
    omega
  | _ => simp [asObject] at h

private theorem sizeOf_asArray {v sub : Json} {items : List Json} (h : asArray v = some items) (hs : sub ∈ items) :
    sizeOf sub < sizeOf v := by
  cases v with
  | array vs =>
    obtain rfl : vs = items := Option.some.inj h
    have := List.sizeOf_lt_of_mem hs
    simp only [Json.array.sizeOf_spec]
    omega
  | _ => simp [asArray] at h

theorem sizeOf_get {key : String} {node sub : Json} (h : get key node = some sub) : sizeOf sub < sizeOf node := by
  cases node with
  | object members => exact sizeOf_asObject rfl (mem_of_lookup h)
  | _ => cases h

theorem sizeOf_mapAt {key : String} {node : Json} {p : String × Json} (h : p ∈ (mapAt key node).getD []) :
    sizeOf p.2 < sizeOf node := by
  obtain ⟨members, hm⟩ : ∃ members, mapAt key node = some members := by
    cases hm : mapAt key node with
    | none => simp [hm] at h
    | some members => exact ⟨members, rfl⟩
  obtain ⟨v, hv, hmembers⟩ := Option.bind_eq_some_iff.1 hm
  rw [hm] at h
  exact (sizeOf_asObject hmembers h).trans (sizeOf_get hv)

theorem sizeOf_arrayAt {key : String} {node sub : Json} {items : List Json} (h : arrayAt key node = some items)
    (hs : sub ∈ items) : sizeOf sub < sizeOf node := by
  obtain ⟨v, hv, hitems⟩ := Option.bind_eq_some_iff.1 h
  exact (sizeOf_asArray hitems hs).trans (sizeOf_get hv)

theorem sizeOf_subschemas {node : Json} {path : String} {p : String × Json} (h : p ∈ subschemas node path) :
    sizeOf p.2 < sizeOf node := by
  simp only [subschemas, List.mem_append, List.mem_flatMap, List.mem_filterMap, Option.bind_eq_some_iff] at h
  obtain (⟨key, -, named, hn, hif⟩ | ⟨key, -, sub, hs, hif⟩) | ⟨key, -, placed, hp, hif⟩ := h
  · split at hif
    · rw [← Option.some.inj hif]
      have hsub : sizeOf named.2 < sizeOf node := sizeOf_mapAt hn
      exact hsub
    · cases hif
  · split at hif
    · rw [← Option.some.inj hif]
      exact sizeOf_get hs
    · cases hif
  · split at hif
    · rw [← Option.some.inj hif]
      cases hitems : arrayAt key node with
      | none => simp [hitems] at hp
      | some items =>
        rw [hitems] at hp
        exact sizeOf_arrayAt hitems (List.fst_mem_of_mem_zipIdx hp)
    · cases hif

def lintNode (path : String) (node : Json) : List Violation :=
  if (asObject node).isSome then
    lintEnum path node ++ lintUnknownMembers path node ++ lintKnownValues path node ++ lintContentEncoding path node ++
    (((mapAt "properties" node).getD []).flatMap fun member =>
      lintTagged path ((mapAt "properties" node).getD []) member.1 member.2) ++
    lintTitle path node ++ lintReference path node ++
    (subschemas node path).attach.flatMap fun p => lintNode p.1.1 p.1.2
  else []
termination_by sizeOf node
decreasing_by exact sizeOf_subschemas p.2

/-- Lint one schema document against the authoring rules. -/
def lintDocument (doc : Json) : List Violation :=
  (if (get "$id" doc).isSome then [] else [⟨"#", "root '$id' is required"⟩]) ++
  (if (get "title" doc).isSome then [] else [⟨"#", "root 'title' is required (spec §2.2 rule 5)"⟩]) ++
  (((mapAt "$defs" doc).getD []).filterMap fun named =>
    if (get "title" named.2).isSome then none
    else some ⟨"#/$defs/" ++ named.1, "every $def needs a 'title' (spec §2.2 rule 5)"⟩) ++
  lintNode "#" doc

def sameKeyword : Option Json → Option Json → Bool
  | none, none => true
  | some a, some b => same a b
  | _, _ => false

def diffFrozen (path : String) (base head : Json) : List Violation :=
  FROZEN_KEYWORDS.filterMap fun key =>
    if sameKeyword (get key base) (get key head) then none
    else some ⟨path ++ "/" ++ key, "'" ++ key ++ "' changed; constraints are frozen within a version (spec §11.2)"⟩

def diffRequired (path : String) (base head : Json) : List Violation :=
  if stringSet (get "required" base) = stringSet (get "required" head) then []
  else [⟨path ++ "/required", "'required' set changed (spec §11.2)"⟩]

/-- `debug` writes a list of texts as the language's debug form does. -/
def diffKnown (debug : List String → String) (path : String) (base head : Json) : List Violation :=
  let removed := (stringSet (get "x-known-values" base) \ stringSet (get "x-known-values" head)).sort
  if removed = [] then []
  else [⟨path ++ "/x-known-values", "known values removed: " ++ debug removed ++ " (spec §11.2)"⟩]

def diffNode (debug : List String → String) (path : String) (base head : Json) : List Violation :=
  if (asObject base).isSome && (asObject head).isSome then
    diffFrozen path base head ++ diffRequired path base head ++ diffKnown debug path base head ++
    (SUBSCHEMA_MAPS.flatMap fun key => ((mapAt key base).getD []).attach.flatMap fun ⟨named, _⟩ =>
      match (mapAt key head).bind (·.lookup named.1) with
      | none => [⟨path ++ "/" ++ key ++ "/" ++ named.1, "member removed (spec §11.2: deprecate, never remove)"⟩]
      | some headSub => diffNode debug (path ++ "/" ++ key ++ "/" ++ named.1) named.2 headSub) ++
    (SINGLE_SUBSCHEMA.flatMap fun key =>
      match _ : get key base, get key head with
      | none, none => []
      | some b, some h => diffNode debug (path ++ "/" ++ key) b h
      | _, _ => [⟨path ++ "/" ++ key, "'" ++ key ++ "' added or removed; constraints are frozen (spec §11.2)"⟩]) ++
    SUBSCHEMA_ARRAYS.flatMap fun key =>
      match _ : arrayAt key base, arrayAt key head with
      | none, _ => []
      | some _, none => [⟨path ++ "/" ++ key, "'" ++ key ++ "' removed (spec §11.2)"⟩]
      | some b, some h =>
        if h.length < b.length then [⟨path ++ "/" ++ key, "alternatives removed (spec §11.2)"⟩]
        else (b.zip h).zipIdx.attach.flatMap fun ⟨placed, _⟩ =>
          diffNode debug (path ++ "/" ++ key ++ "/" ++ placed.2.repr) placed.1.1 placed.1.2
  else if same base head then []
  else [⟨path, "schema node changed shape (spec §11.2)"⟩]
termination_by sizeOf base
decreasing_by
  · exact sizeOf_mapAt ‹_›
  · exact sizeOf_get ‹_›
  · exact sizeOf_arrayAt ‹_› (List.of_mem_zip (List.fst_mem_of_mem_zipIdx ‹_›)).1

/-- Diff two versions of a schema document: `base` is the published one, `head` the proposed one. -/
def diffDocuments (debug : List String → String) (base head : Json) : List Violation := diffNode debug "#" base head

end PactJanus.SchemaCompat.Checker
