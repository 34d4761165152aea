import PactJanus.Contracts.Model
import PactJanus.Lib.Base64
import PactJanus.Lib.SortedMap
import PactJanus.Lib.Text

namespace PactJanus.Legacy.Replayed

open PactJanus.Data.Json PactJanus.Lib PactJanus.Lib.SortedMap PactJanus.Contracts.Model

/-! A pact's recorded request, as a transport sends it. -/

inductive OptionalBody where
  | missing | empty | null
  | present (bytes : List UInt8) (contentType : Option String)

/-- A map that names no key twice, its entries in the order they are gone through. -/
abbrev Keyed (α : Type) := { entries : List (String × α) // (entries.map Prod.fst).Nodup }

structure HttpRequest where
  method : String
  path : String
  query : Option (Keyed (List (Option String)))
  headers : Option (Keyed (List String))
  body : OptionalBody

def entriesOf {α : Type} (map : Option (Keyed α)) : List (String × α) :=
  match map with
  | some entries => entries.1
  | none => []

def textSlot (text : String) : SlotValue := ⟨.string text, none, none⟩

def multiMapSlot (entries : List (String × List String)) : SlotValue :=
  ⟨.object (entries.map fun (name, values) => (name, .array (values.map .string))), none, none⟩

/-- Entries collected by their keys, in the order of the keys. -/
def collected (entries : List (String × List String)) : List (String × List String) :=
  entries.foldl (fun map entry => insert entry.1 entry.2 map) []

def convertQuery (query : Option (Keyed (List (Option String)))) : List (String × List String) :=
  collected ((entriesOf query).map fun (name, values) => (name, values.map fun v => v.getD ""))

/-- The headers by their names in lower case. -/
def folded (headers : Option (Keyed (List String))) : List (String × List String) :=
  collected ((entriesOf headers).map fun (name, values) => (Text.toAsciiLowercase name, values))

/-- A slot of several values by name, where there are any. -/
def namedSlot (slot : String) (entries : List (String × List String)) : ValuePart :=
  if entries.isEmpty then [] else [(slot, multiMapSlot entries)]

def bodySlot : OptionalBody → ValuePart
  | .present bytes contentType => [("body", ⟨.string (Base64.encode bytes), some "base64", contentType⟩)]
  | .missing | .empty | .null => []

/-- The request in the words of a transport, its slots in the order of their names. -/
def requestParts (request : HttpRequest) : List (String × ValuePart) :=
  [("request", bodySlot request.body ++ namedSlot "headers" (folded request.headers) ++
    [("method", textSlot request.method), ("path", textSlot request.path)] ++
    namedSlot "query" (convertQuery request.query))]

def headersSlot (request : HttpRequest) : Option SlotValue :=
  ((requestParts request).lookup "request").bind fun part => part.lookup "headers"

/-- The values a slot holds under a name. -/
def valuesUnder (slot : Option SlotValue) (name : String) : Option (List String) :=
  slot.bind fun s => (get name s.content).bind fun v =>
    match v with
    | .array items => items.mapM asStr
    | _ => none

/-- The values a request gives under every spelling of a name. -/
def given (request : HttpRequest) (name : String) : List String :=
  ((entriesOf request.headers).filter fun h => Text.toAsciiLowercase h.1 == name).flatMap Prod.snd

/-- One request, its headers gone through in one order or another. -/
structure SameRequest (request other : HttpRequest) : Prop where
  method : other.method = request.method
  path : other.path = request.path
  query : other.query = request.query
  body : other.body = request.body
  headers : (entriesOf other.headers).Perm (entriesOf request.headers)

variable {request other : HttpRequest}

theorem lookup_folded (headers : Option (Keyed (List String))) (name : String) : (folded headers).lookup name =
    ((entriesOf headers).map fun h => (Text.toAsciiLowercase h.1, h.2)).reverse.lookup name := by
  rw [folded, collected, lookup_foldl_insert_last, List.lookup_nil, Option.or_none]

theorem folded_sorted (headers : Option (Keyed (List String))) : Sorted (folded headers) := sorted_nil.foldl_insert _

theorem mem_of_lookup_folded {headers : Option (Keyed (List String))} {name : String} {values : List String}
    (h : (folded headers).lookup name = some values) :
    ∃ header ∈ entriesOf headers, Text.toAsciiLowercase header.1 = name ∧ header.2 = values := by
  rw [lookup_folded] at h
  obtain ⟨header, hmem, heq⟩ := List.mem_map.1 (List.mem_reverse.1 (Lists.mem_of_lookup h))
  exact ⟨header, hmem, congrArg Prod.fst heq, congrArg Prod.snd heq⟩

theorem exists_lookup_folded {headers : Option (Keyed (List String))} {header : String × List String}
    (h : header ∈ entriesOf headers) : ∃ values, (folded headers).lookup (Text.toAsciiLowercase header.1) = some values := by
  refine Option.isSome_iff_exists.1 ?_
  rw [lookup_folded, Lists.lookup_isSome_iff]
  exact List.mem_map.2 ⟨_, List.mem_reverse.2 (List.mem_map_of_mem h), rfl⟩

/-! The slot and what it holds. -/

theorem headersSlot_eq (request : HttpRequest) : headersSlot request =
    if (folded request.headers).isEmpty then none else some (multiMapSlot (folded request.headers)) := by
  have hbody : (bodySlot request.body).lookup "headers" = none := by cases request.body <;> rfl
  have hquery : (namedSlot "query" (convertQuery request.query)).lookup "headers" = none := by
    unfold namedSlot
    split <;> rfl
  have hplain : [("method", textSlot request.method), ("path", textSlot request.path)].lookup "headers" = none := rfl
  have hparts : headersSlot request = (bodySlot request.body ++ namedSlot "headers" (folded request.headers) ++
      [("method", textSlot request.method), ("path", textSlot request.path)] ++
      namedSlot "query" (convertQuery request.query)).lookup "headers" := rfl
  rw [hparts, List.lookup_append, List.lookup_append, List.lookup_append, hbody, hplain, hquery, Option.none_or,
    Option.or_none, Option.or_none, namedSlot]
  split <;> rfl

theorem texts_of_strings (values : List String) : (values.map Json.string).mapM asStr = some values := by
  induction values with
  | nil => rfl
  | cons v rest ih =>
    rw [List.map_cons, List.mapM_cons, ih]
    rfl

/-- The headers slot holds under each name what was folded under it. -/
theorem valuesUnder_headersSlot (request : HttpRequest) (name : String) :
    valuesUnder (headersSlot request) name = (folded request.headers).lookup name := by
  rw [headersSlot_eq]
  split
  · rename_i hempty
    rw [List.isEmpty_iff.1 hempty]
    rfl
  · have hcontent : (multiMapSlot (folded request.headers)).content =
        .object ((folded request.headers).map fun h => (h.1, .array (h.2.map .string))) := rfl
    rw [valuesUnder, Option.bind_some, hcontent, Data.Json.get,
      Lists.lookup_map fun values : List String => Json.array (values.map .string)]
    cases (folded request.headers).lookup name with
    | none => rfl
    | some values => exact texts_of_strings values

/-! Spellings that fold to one name. -/

/-- Of two spellings of one name, neither has a value. -/
def SpellingsApart (request : HttpRequest) : Prop :=
  ∀ h ∈ entriesOf request.headers, ∀ h' ∈ entriesOf request.headers, h.1 ≠ h'.1 →
    Text.toAsciiLowercase h.1 = Text.toAsciiLowercase h'.1 → h.2 = [] ∧ h'.2 = []

theorem entries_nodup (headers : Option (Keyed (List String))) : ((entriesOf headers).map Prod.fst).Nodup := by
  cases headers with
  | none => exact List.nodup_nil
  | some entries => exact entries.2

private theorem values_of_lookup (hapart : SpellingsApart request) {header : String × List String}
    (hheader : header ∈ entriesOf request.headers) : (given request (Text.toAsciiLowercase header.1)).Perm header.2 := by
  have hnodup := List.Nodup.of_map _ (entries_nodup request.headers)
  have hmem : header ∈ (entriesOf request.headers).filter fun h =>
      Text.toAsciiLowercase h.1 == Text.toAsciiLowercase header.1 := List.mem_filter.2 ⟨hheader, beq_self_eq_true _⟩
  have hothers : ∀ h ∈ ((entriesOf request.headers).filter fun h =>
      Text.toAsciiLowercase h.1 == Text.toAsciiLowercase header.1).erase header, h.2 = [] := by
    intro h hh
    obtain ⟨hne, hin⟩ := (hnodup.filter _).mem_erase_iff.1 hh
    obtain ⟨hin, hfold⟩ := List.mem_filter.1 hin
    have hnames : h.1 ≠ header.1 := fun heq =>
      hne (List.inj_on_of_nodup_map (entries_nodup _) hin hheader heq)
    exact (hapart h hin header hheader hnames (beq_iff_eq.1 hfold)).1
  have hperm := (List.perm_cons_erase hmem).flatMap_right Prod.snd
  rw [List.flatMap_cons, List.flatMap_eq_nil_iff.2 hothers, List.append_nil] at hperm
  exact hperm

private theorem lookup_folded_of_apart (hapart : SpellingsApart request) (hsame : SameRequest request other)
    {header : String × List String} (hheader : header ∈ entriesOf request.headers) :
    (folded other.headers).lookup (Text.toAsciiLowercase header.1) = some header.2 ∨
      ∃ values, (folded other.headers).lookup (Text.toAsciiLowercase header.1) = some values ∧ header.2 = [] ∧ values = [] := by
  obtain ⟨values, hvalues⟩ := exists_lookup_folded (hsame.headers.mem_iff.2 hheader)
  obtain ⟨found, hfound, hfold, rfl⟩ := mem_of_lookup_folded hvalues
  have hin := hsame.headers.mem_iff.1 hfound
  by_cases hname : found.1 = header.1
  · obtain rfl := List.inj_on_of_nodup_map (entries_nodup _) hin hheader hname
    exact Or.inl hvalues
  · obtain ⟨hnone, hnone'⟩ := hapart found hin header hheader hname hfold
    exact Or.inr ⟨_, hvalues, hnone', hnone⟩

private theorem folded_of_apart (hapart : SpellingsApart request) (hsame : SameRequest request other) :
    folded other.headers = folded request.headers := by
  have hself : SameRequest request request := ⟨rfl, rfl, rfl, rfl, List.Perm.refl _⟩
  refine (folded_sorted _).ext (folded_sorted _) fun name => ?_
  by_cases hspelt : ∃ header ∈ entriesOf request.headers, Text.toAsciiLowercase header.1 = name
  · obtain ⟨header, hheader, rfl⟩ := hspelt
    rcases lookup_folded_of_apart hapart hsame hheader with hone | ⟨values, hone, hempty, rfl⟩ <;>
      rcases lookup_folded_of_apart hapart hself hheader with htwo | ⟨values', htwo, hempty', rfl⟩
    · rw [hone, htwo]
    · rw [hone, htwo, hempty']
    · rw [hone, htwo, hempty]
    · rw [hone, htwo]
  · have hnone : ∀ {r : HttpRequest}, (∀ h, h ∈ entriesOf r.headers → h ∈ entriesOf request.headers) →
        (folded r.headers).lookup name = none := by
      intro r hr
      refine Option.eq_none_iff_forall_ne_some.2 fun values hvalues => ?_
      obtain ⟨found, hfound, hfold, -⟩ := mem_of_lookup_folded hvalues
      exact hspelt ⟨found, hr found hfound, hfold⟩
    rw [hnone fun h hh => hsame.headers.mem_iff.1 hh, hnone fun _ hh => hh]

/-! Spellings of which one has a value. -/

/-- The request with one header gone through last. -/
private theorem lookup_last {headers : Option (Keyed (List String))} {header : String × List String}
    {before : List (String × List String)} (h : entriesOf headers = before ++ [header]) :
    (folded headers).lookup (Text.toAsciiLowercase header.1) = some header.2 := by
  rw [lookup_folded, h, List.map_append, List.map_singleton, List.reverse_append, List.reverse_singleton,
    List.singleton_append, Lists.lookup_cons_ite, if_pos rfl]

private theorem empty_of_kept {header other : String × List String}
    (hheader : header ∈ entriesOf request.headers) (hother : other ∈ entriesOf request.headers) (hne : header.1 ≠ other.1)
    (hfold : Text.toAsciiLowercase header.1 = Text.toAsciiLowercase other.1)
    (h : header.2.Perm (given request (Text.toAsciiLowercase header.1))) : other.2 = [] := by
  have hmem : header ∈ (entriesOf request.headers).filter fun h =>
      Text.toAsciiLowercase h.1 == Text.toAsciiLowercase header.1 := List.mem_filter.2 ⟨hheader, beq_self_eq_true _⟩
  have hmem' : other ∈ ((entriesOf request.headers).filter fun h =>
      Text.toAsciiLowercase h.1 == Text.toAsciiLowercase header.1).erase header :=
    (List.mem_erase_of_ne fun heq => hne (congrArg Prod.fst heq).symm).2 (List.mem_filter.2 ⟨hother, beq_iff_eq.2 hfold.symm⟩)
  have hlength := (h.trans ((List.perm_cons_erase hmem).flatMap_right Prod.snd)).length_eq
  have hlength' := ((List.perm_cons_erase hmem').flatMap_right Prod.snd).length_eq
  rw [List.flatMap_cons, List.length_append] at hlength hlength'
  exact List.length_eq_zero_iff.1 (by omega)

/-- The headers slot of a request holds all the values of every name, and the same whatever the order, where of two
spellings of a name neither has a value. -/
theorem headers_kept_iff (request : HttpRequest) :
    (∀ other, SameRequest request other → headersSlot other = headersSlot request ∧
      ∀ header ∈ entriesOf request.headers, ∃ values,
        valuesUnder (headersSlot other) (Text.toAsciiLowercase header.1) = some values ∧
          values.Perm (given request (Text.toAsciiLowercase header.1))) ↔ SpellingsApart request := by
  constructor
  · intro h
    have hempty : ∀ header ∈ entriesOf request.headers, ∀ other ∈ entriesOf request.headers, header.1 ≠ other.1 →
        Text.toAsciiLowercase header.1 = Text.toAsciiLowercase other.1 → other.2 = [] := by
      intro header hheader other hother hne hfold
      have hperm : ((entriesOf request.headers).erase header ++ [header]).Perm (entriesOf request.headers) :=
        (List.perm_append_singleton _ _).trans (List.perm_cons_erase hheader).symm
      obtain ⟨-, hkept⟩ := h { request with headers := some ⟨_, (hperm.map Prod.fst).nodup_iff.2 (entries_nodup _)⟩ }
        ⟨rfl, rfl, rfl, rfl, hperm⟩
      obtain ⟨values, hvalues, hall⟩ := hkept header hheader
      rw [valuesUnder_headersSlot, lookup_last rfl] at hvalues
      obtain rfl := Option.some.inj hvalues
      exact empty_of_kept hheader hother hne hfold hall
    exact fun header hheader other hother hne hfold =>
      ⟨hempty other hother header hheader hne.symm hfold.symm, hempty header hheader other hother hne hfold⟩
  · intro hapart other hsame
    refine ⟨by rw [headersSlot_eq, headersSlot_eq, folded_of_apart hapart hsame], fun header hheader => ?_⟩
    rw [valuesUnder_headersSlot]
    rcases lookup_folded_of_apart hapart hsame hheader with hone | ⟨values, hone, hempty, rfl⟩
    · exact ⟨_, hone, (values_of_lookup hapart hheader).symm⟩
    · exact ⟨_, hone, hempty ▸ (values_of_lookup hapart hheader).symm⟩

/-- Two spellings of a name, a value under each. -/
theorem one_spelling_replayed :
    valuesUnder (headersSlot ⟨"GET", "/", none, some ⟨[("Accept", ["text/csv"]), ("accept", ["text/html"])], by decide⟩, .missing⟩)
        "accept" = some ["text/html"] ∧
      valuesUnder (headersSlot ⟨"GET", "/", none, some ⟨[("accept", ["text/html"]), ("Accept", ["text/csv"])], by decide⟩, .missing⟩)
        "accept" = some ["text/csv"] := by
  rw [valuesUnder_headersSlot, valuesUnder_headersSlot]
  decide

end PactJanus.Legacy.Replayed
