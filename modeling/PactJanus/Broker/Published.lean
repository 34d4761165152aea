import PactJanus.Lib.Affixes
import PactJanus.Plan.Replacement
import PactJanus.Session.Exchange

namespace PactJanus.Broker.Published

open PactJanus.Data.Json PactJanus.Lib.Affixes PactJanus.Plan.Value PactJanus.Plan.Navigation PactJanus.Plan.Places
  PactJanus.Plan.Outcome PactJanus.Plan.Replacement PactJanus.Session.Exchange

/-! A mismatch in the broker's terms: which part of the response, where in it, and what was wrong. -/

def headerName (header : List Char) : List Char :=
  trimEnd "']".toList (trimStart "['".toList (trimStart ".".toList header))

def brokerEntry (part : List Char) (description : String) : Json :=
  if part = ".status".toList then .object [("attribute", .string "status"), ("description", .string description)]
  else
    match stripPrefix ".headers".toList part with
    | some header =>
      .object [("attribute", .string "header"), ("description", .string description),
        ("identifier", .string (String.ofList (headerName header)))]
    | none =>
      let within := (stripPrefix ".body".toList part).getD part
      .object [("attribute", .string "body"), ("description", .string description),
        ("identifier", .string ("$" ++ String.ofList within))]

def brokerMismatch (mismatch : Json) : Json :=
  let path := ((Data.Json.get "path" mismatch).bind asStr).getD ""
  let description := ((Data.Json.get "message" mismatch).bind asStr).getD ""
  brokerEntry ((stripPrefix "$.response".toList path.toList).getD path.toList) description

/-! The paths the engine reports. -/

inductive AnsweringPart where
  | response | message

def AnsweringPart.text : AnsweringPart → String
  | .response => "response"
  | .message => "message"

inductive Slot where
  | status | headers | metadata | body

def Slot.text : Slot → String
  | .status => "status"
  | .headers => "headers"
  | .metadata => "metadata"
  | .body => "body"

/-- What the broker calls a slot. -/
def Slot.broker : Slot → String
  | .headers => "header"
  | slot => slot.text

/-- A place in a slot of an answering part, or a header as a v1–v4 plan names it, its name written as it is. -/
inductive Reported where
  | within (part : AnsweringPart) (slot : Slot) (segments : List Segment)
  | header (name : String)

def slotPath (part : AnsweringPart) (slot : Slot) : String := "$." ++ part.text ++ "." ++ slot.text

def Reported.path : Reported → String
  | .within part slot segments => renderPath (slotPath part slot) segments
  | .header name => slotPath .response .headers ++ "." ++ name

/-- The entry published for a mismatch at a place. -/
def published (place : Reported) (message : String) (action : Option String) : Json :=
  brokerMismatch (mismatchJson ⟨some place.path, message, action⟩)

def identifier (entry : Json) : Option Json := Data.Json.get "identifier" entry

/-- An entry has the attribute of a place's slot, in a body the segments below it, and of a header its name. -/
def SaysWhere : Reported → Json → Prop
  | .within _ slot segments, entry =>
    Data.Json.get "attribute" entry = some (.string slot.broker) ∧
      match slot, segments with
      | .body, segments => identifier entry = some (.string (renderPath "$" segments))
      | .headers, .member name :: _ => identifier entry = some (.string name)
      | _, _ => True
  | .header name, entry =>
    Data.Json.get "attribute" entry = some (.string "header") ∧ identifier entry = some (.string name)

/-- The places of a response that an entry says: all of its body, the status as a whole, and a header as a whole, where
nothing in its name is written with a quote or taken for one. -/
def Sayable : Reported → Prop
  | .within .response .status segments => segments = []
  | .within .response .headers (.member name :: below) =>
    below = [] ∧ '\'' ∉ name.toList ∧ '\\' ∉ name.toList ∧ name ≠ "["
  | .within .response .headers _ => True
  | .within .response .body _ => True
  | .within .response .metadata _ => False
  | .within .message _ _ => False
  | .header name =>
    ¬".".toList <+: name.toList ∧ ¬"['".toList <+: name.toList ∧ ¬"']".toList <:+ name.toList

/-! A header's name as it is taken from a path. -/

private theorem count_escape (name : List Char) :
    (escape name).count '\\' = 2 * name.count '\\' + name.count '\'' := by
  induction name with
  | nil => rfl
  | cons c cs ih =>
    rw [escape, List.flatMap_cons, ← escape, List.count_append, ih, List.count_cons, List.count_cons]
    by_cases hb : c = '\\'
    · subst hb
      simp
      omega
    · by_cases hq : c = '\''
      · subst hq
        simp
        omega
      · simp [hb, hq]

private theorem escape_eq_self {name : List Char} (hb : '\\' ∉ name) (hq : '\'' ∉ name) : escape name = name := by
  induction name with
  | nil => rfl
  | cons c cs ih =>
    rw [List.mem_cons, not_or] at hb hq
    rw [escape, List.flatMap_cons, ← escape, ih hb.2 hq.2, if_neg (not_or.2 ⟨Ne.symm hb.1, Ne.symm hq.1⟩)]
    rfl

private theorem not_quote_first {name : List Char} (hq : '\'' ∉ name) (hne : name ≠ ['[']) (below : List Char) :
    ¬"['".toList <+: name ++ '\'' :: ']' :: below := by
  rintro ⟨more, hmore⟩
  match name with
  | [] => exact absurd (List.cons.inj hmore).1 (by decide)
  | [c] =>
    obtain rfl : '[' = c := (List.cons.inj hmore).1
    exact hne rfl
  | c :: d :: rest =>
    obtain rfl : '\'' = d := (List.cons.inj (List.cons.inj hmore).2).1
    exact hq (by simp)

private theorem not_quote_last {name : List Char} (hq : '\'' ∉ name) : ¬"']".toList <:+ name := by
  rintro ⟨more, rfl⟩
  exact hq (by simp)

/-- A path below a header starts as one. -/
private def StartsPath (below : List Char) : Prop := ∀ c ∈ below.head?, c = '.' ∨ c = '['

private theorem nil_of_trimmed {below off : List Char} (hbelow : StartsPath below) (h : below <:+: off)
    (hoff : ∀ c ∈ off, c ∈ "']".toList) : below = [] := by
  cases below with
  | nil => rfl
  | cons c rest =>
    have hc := hoff c (h.subset List.mem_cons_self)
    rcases hbelow c rfl with rfl | rfl
    · exact absurd hc (by decide)
    · exact absurd hc (by decide)

private theorem headerName_quoted_iff {name below : List Char} (hbelow : StartsPath below) :
    headerName ('[' :: '\'' :: (escape name ++ '\'' :: ']' :: below)) = name ↔
      below = [] ∧ '\'' ∉ name ∧ '\\' ∉ name ∧ name ≠ ['['] := by
  have hdot : ∀ text, trimStart ".".toList ('[' :: '\'' :: text) = '[' :: '\'' :: text := fun text =>
    trimStart_absent (by simp)
  have hstart : ∀ text, headerName ('[' :: '\'' :: text) = trimEnd "']".toList (trimStart "['".toList text) := by
    intro text
    rw [headerName, hdot]
    exact congrArg _ (trimStart_append (List.cons_ne_nil '[' ['\'']) text)
  rw [hstart]
  constructor
  · intro h
    obtain ⟨before, hbefore, hleft⟩ := exists_trimStart "['".toList (escape name ++ '\'' :: ']' :: below)
    obtain ⟨off, hoff, hright⟩ := exists_trimEnd "']".toList
      (trimStart "['".toList (escape name ++ '\'' :: ']' :: below))
    rw [h] at hoff
    -- The quotes and brackets taken off hold no backslash, so the name has as many as its escaped form.
    have hcount := congrArg (List.count '\\') hbefore
    rw [hoff, List.count_append, List.count_append, List.count_append, count_escape,
      List.count_eq_zero_of_not_mem (fun hm => absurd (hleft _ hm) (by decide)),
      List.count_eq_zero_of_not_mem (fun hm => absurd (hright _ hm) (by decide))] at hcount
    have hb : '\\' ∉ name := List.count_eq_zero.1 (by omega)
    have hq : '\'' ∉ name := List.count_eq_zero.1 (by omega)
    rw [escape_eq_self hb hq] at hoff h
    by_cases hne : name = ['[']
    · subst hne
      have htrim : trimStart "['".toList (['['] ++ '\'' :: ']' :: below) = ']' :: below :=
        (trimStart_append (List.cons_ne_nil '[' ['\'']) (']' :: below)).trans (trimStart_absent (by simp))
      rw [htrim] at hoff
      exact absurd (List.cons.inj hoff).1 (by decide)
    · rw [trimStart_absent (not_quote_first hq hne below)] at hoff
      have htail := List.append_cancel_left hoff
      refine ⟨nil_of_trimmed hbelow ?_ hright, hq, hb, hne⟩
      exact htail ▸ ⟨['\'', ']'], [], by simp⟩
  · rintro ⟨rfl, hq, hb, hne⟩
    rw [escape_eq_self hb hq, trimStart_absent (not_quote_first hq hne [])]
    exact (trimEnd_append (List.cons_ne_nil '\'' [']']) name).trans
      ((trimEnd_eq_self_iff (List.cons_ne_nil '\'' [']'])).2 (not_quote_last hq))

private theorem headerName_plain_iff {name below : List Char} (hne : name ≠ [])
    (hname : ∀ c ∈ name, plainChar c = true) (hbelow : StartsPath below) :
    headerName ('.' :: (name ++ below)) = name ↔ below = [] := by
  obtain ⟨c, rest, rfl⟩ := List.exists_cons_of_ne_nil hne
  have hc := hname c List.mem_cons_self
  have hdot : trimStart ".".toList ('.' :: (c :: rest ++ below)) = c :: rest ++ below := by
    refine (trimStart_append (List.cons_ne_nil '.' []) (c :: rest ++ below)).trans (trimStart_absent ?_)
    rintro ⟨more, hmore⟩
    obtain rfl : '.' = c := (List.cons.inj hmore).1
    exact absurd hc (by decide)
  have hquote : trimStart "['".toList (c :: rest ++ below) = c :: rest ++ below := by
    refine trimStart_absent ?_
    rintro ⟨more, hmore⟩
    obtain rfl : '[' = c := (List.cons.inj hmore).1
    exact absurd hc (by decide)
  rw [headerName, hdot, hquote]
  constructor
  · intro h
    obtain ⟨off, hoff, hright⟩ := exists_trimEnd "']".toList (c :: rest ++ below)
    rw [h] at hoff
    exact nil_of_trimmed hbelow (List.append_cancel_left hoff ▸ List.infix_rfl) hright
  · rintro rfl
    rw [List.append_nil]
    refine (trimEnd_eq_self_iff (List.cons_ne_nil '\'' [']'])).2 (not_quote_last fun hq => ?_)
    exact absurd (hname _ hq) (by decide)

/-- The name a v1–v4 plan writes is kept where no end of it is taken for more. -/
private theorem headerName_raw_iff (name : List Char) : headerName ('.' :: name) = name ↔
    ¬".".toList <+: name ∧ ¬"['".toList <+: name ∧ ¬"']".toList <:+ name := by
  have hdot : trimStart ".".toList ('.' :: name) = trimStart ".".toList name :=
    trimStart_append (List.cons_ne_nil '.' []) name
  rw [headerName, hdot]
  constructor
  · intro h
    obtain ⟨dots, hdots, -⟩ := exists_trimStart ".".toList name
    obtain ⟨quotes, hquotes, -⟩ := exists_trimStart "['".toList (trimStart ".".toList name)
    obtain ⟨off, hoff, -⟩ := exists_trimEnd "']".toList (trimStart "['".toList (trimStart ".".toList name))
    rw [h] at hoff
    have hlength := congrArg List.length hdots
    rw [hquotes, hoff, List.length_append, List.length_append, List.length_append] at hlength
    obtain rfl : dots = [] := List.length_eq_zero_iff.1 (by omega)
    obtain rfl : quotes = [] := List.length_eq_zero_iff.1 (by omega)
    rw [List.nil_append] at hdots hquotes
    rw [← hdots] at hquotes h
    rw [← hquotes] at h
    exact ⟨(trimStart_eq_self_iff (List.cons_ne_nil '.' [])).1 hdots.symm,
      (trimStart_eq_self_iff (List.cons_ne_nil '[' ['\''])).1 hquotes.symm,
      (trimEnd_eq_self_iff (List.cons_ne_nil '\'' [']'])).1 h⟩
  · rintro ⟨hdots, hquotes, hoff⟩
    rw [trimStart_absent hdots, trimStart_absent hquotes]
    exact (trimEnd_eq_self_iff (List.cons_ne_nil '\'' [']'])).2 hoff

/-! The entry of each place. -/

private theorem attribute_entry (attribute' : String) (members : List (String × Json)) :
    Data.Json.get "attribute" (.object (("attribute", .string attribute') :: members)) = some (.string attribute') := rfl

private theorem identifier_entry (attribute' description : Json) (text : String) :
    identifier (.object [("attribute", attribute'), ("description", description), ("identifier", .string text)]) =
      some (.string text) := rfl

private theorem some_text_inj {a b : String} : some (Json.string a) = some (Json.string b) ↔ a = b := by simp

private theorem path_within (part : AnsweringPart) (slot : Slot) (segments : List Segment) :
    (Reported.within part slot segments).path.toList =
      (slotPath part slot).toList ++ pathText (segments.map Segment.step) := by
  rw [Reported.path, renderPath_eq, along, String.toList_append, String.toList_ofList]

private theorem published_eq (place : Reported) (message : String) (action : Option String) :
    published place message action =
      brokerEntry ((stripPrefix "$.response".toList place.path.toList).getD place.path.toList) message := rfl

private theorem published_response (slot : Slot) (segments : List Segment) (message : String) (action : Option String) :
    published (.within .response slot segments) message action =
      brokerEntry ('.' :: slot.text.toList ++ pathText (segments.map Segment.step)) message := by
  have hpath : (slotPath .response slot).toList = "$.response".toList ++ '.' :: slot.text.toList := by
    cases slot <;> decide
  rw [published_eq, path_within, hpath, List.append_assoc, stripPrefix_append]
  rfl

private theorem published_header (name message : String) (action : Option String) :
    published (.header name) message action = brokerEntry (".headers".toList ++ '.' :: name.toList) message := by
  have hpath : (Reported.header name).path.toList = "$.response".toList ++ (".headers".toList ++ '.' :: name.toList) := by
    have hslot : (slotPath .response .headers).toList = "$.response".toList ++ ".headers".toList := by decide
    rw [Reported.path, String.toList_append, String.toList_append, hslot, List.append_assoc, List.append_assoc]
    rfl
  rw [published_eq, hpath, stripPrefix_append]
  rfl

/-- What is neither the status nor under the headers is said to be in the body. -/
private theorem brokerEntry_other {part : List Char} (description : String) (hstatus : part ≠ ".status".toList)
    (hheaders : ¬".headers".toList <+: part) : brokerEntry part description =
      .object [("attribute", .string "body"), ("description", .string description),
        ("identifier", .string ("$" ++ String.ofList ((stripPrefix ".body".toList part).getD part)))] := by
  rw [brokerEntry, if_neg hstatus, stripPrefix_eq_none.2 hheaders]

private theorem brokerEntry_header (header : List Char) (description : String) :
    brokerEntry (".headers".toList ++ header) description =
      .object [("attribute", .string "header"), ("description", .string description),
        ("identifier", .string (String.ofList (headerName header)))] := by
  have hstatus : ".headers".toList ++ header ≠ ".status".toList := fun h =>
    absurd (List.cons.inj (List.cons.inj h).2).1 (by decide)
  rw [brokerEntry, if_neg hstatus, stripPrefix_append]

private theorem published_message (slot : Slot) (segments : List Segment) (message : String) (action : Option String) :
    published (.within .message slot segments) message action =
      .object [("attribute", .string "body"), ("description", .string message),
        ("identifier", .string ("$" ++ (Reported.within .message slot segments).path))] := by
  have hpath : ∃ rest, (Reported.within .message slot segments).path.toList = "$.m".toList ++ rest := by
    refine ⟨("essage." ++ slot.text).toList ++ pathText (segments.map Segment.step), ?_⟩
    rw [path_within, ← List.append_assoc]
    cases slot <;> rfl
  obtain ⟨rest, hrest⟩ := hpath
  have hresponse : ¬"$.response".toList <+: "$.m".toList ++ rest := by simp
  have hbody : ¬".body".toList <+: "$.m".toList ++ rest := by simp
  rw [published_eq, hrest, stripPrefix_eq_none.2 hresponse, Option.getD_none,
    brokerEntry_other message (by simp) (by simp), stripPrefix_eq_none.2 hbody, Option.getD_none, ← hrest,
    String.ofList_toList]

private theorem published_body (segments : List Segment) (message : String) (action : Option String) :
    published (.within .response .body segments) message action =
      .object [("attribute", .string "body"), ("description", .string message),
        ("identifier", .string (renderPath "$" segments))] := by
  have hpart : '.' :: Slot.body.text.toList ++ pathText (segments.map Segment.step) =
      ".body".toList ++ pathText (segments.map Segment.step) := rfl
  rw [published_response, hpart, brokerEntry_other message (by simp) (by simp), stripPrefix_append, renderPath_eq, along]
  rfl

/-! Which entries say where. -/

private theorem pathText_eq_nil_iff {segments : List Segment} :
    pathText (segments.map Segment.step) = [] ↔ segments = [] := by
  cases segments with
  | nil => exact iff_of_true rfl rfl
  | cons s rest =>
    refine iff_of_false (fun h => ?_) (List.cons_ne_nil _ _)
    have hs : s.step.text = [] := (List.append_eq_nil_iff.1 h).1
    cases s with
    | member name =>
      have hsegment : memberSegment name = "" := String.toList_inj.1 hs
      unfold memberSegment at hsegment
      split at hsegment
      · exact absurd (congrArg String.toList hsegment) (by simp)
      · exact absurd (congrArg String.toList hsegment) (by simp)
    | index i => cases hs

private theorem startsPath (segments : List Segment) : StartsPath (pathText (segments.map Segment.step)) := fun _ hc =>
  pathText_head hc

private theorem plain_name {name : String} (h : plain name = true) :
    name.toList ≠ [] ∧ ∀ c ∈ name.toList, plainChar c = true := by
  simp only [plain, Bool.and_eq_true, List.all_eq_true] at h
  exact ⟨fun hnil => by simp [String.toList_eq_nil_iff.1 hnil] at h, h.2⟩

private theorem headerName_member_iff (name : String) (below : List Segment) :
    headerName (pathText ((Segment.member name :: below).map Segment.step)) = name.toList ↔
      below = [] ∧ '\'' ∉ name.toList ∧ '\\' ∉ name.toList ∧ name ≠ "[" := by
  have hbelow := startsPath below
  have htext : pathText ((Segment.member name :: below).map Segment.step) =
      (memberSegment name).toList ++ pathText (below.map Segment.step) := rfl
  by_cases hplain : plain name = true
  · obtain ⟨hne, hchars⟩ := plain_name hplain
    have hsegment : (memberSegment name).toList = '.' :: name.toList := by
      rw [memberSegment, if_pos hplain, String.toList_append]
      rfl
    rw [htext, hsegment, List.cons_append, headerName_plain_iff hne hchars hbelow, pathText_eq_nil_iff]
    refine (and_iff_left ⟨fun hq => ?_, fun hb => ?_, ?_⟩).symm
    · exact absurd (hchars _ hq) (by decide)
    · exact absurd (hchars _ hb) (by decide)
    · rintro rfl
      exact absurd hplain (by decide)
  · have hsegment : (memberSegment name).toList = '[' :: '\'' :: (escape name.toList ++ ['\'', ']']) := by
      rw [memberSegment, if_neg hplain, String.toList_append, String.toList_append,
        String.toList_ofList (l := escape name.toList)]
      exact List.append_assoc ['[', '\''] (escape name.toList) ['\'', ']']
    have hbracket : name.toList ≠ ['['] ↔ name ≠ "[" := not_congr (show name.toList = "[".toList ↔ name = "[" from String.toList_inj)
    have hassoc : (memberSegment name).toList ++ pathText (below.map Segment.step) =
        '[' :: '\'' :: (escape name.toList ++ '\'' :: ']' :: pathText (below.map Segment.step)) := by
      rw [hsegment]
      simp
    rw [htext, hassoc, headerName_quoted_iff hbelow, pathText_eq_nil_iff, hbracket]

private theorem says_within_response_iff (slot : Slot) (segments : List Segment) (message : String)
    (action : Option String) :
    SaysWhere (.within .response slot segments) (published (.within .response slot segments) message action) ↔
      Sayable (.within .response slot segments) := by
  cases slot with
  | status =>
    by_cases hnil : segments = []
    · subst hnil
      refine iff_of_true ⟨?_, trivial⟩ rfl
      rw [published_response]
      rfl
    · refine iff_of_false (fun h => ?_) hnil
      have hne : '.' :: Slot.status.text.toList ++ pathText (segments.map Segment.step) ≠ ".status".toList := by
        intro heq
        exact hnil (pathText_eq_nil_iff.1 (List.append_cancel_left (heq.trans (List.append_nil _).symm)))
      have hattribute := h.1
      rw [published_response, brokerEntry_other message hne (by simp [Slot.text])] at hattribute
      exact absurd (some_text_inj.1 hattribute) (by decide)
  | metadata =>
    refine iff_of_false (fun h => ?_) id
    have hattribute := h.1
    rw [published_response, brokerEntry_other message (by simp [Slot.text]) (by simp [Slot.text])] at hattribute
    exact absurd (some_text_inj.1 hattribute) (by decide)
  | body =>
    rw [published_body]
    exact iff_of_true ⟨rfl, rfl⟩ trivial
  | headers =>
    have hentry : published (.within .response .headers segments) message action = .object [("attribute", .string "header"),
        ("description", .string message),
        ("identifier", .string (String.ofList (headerName (pathText (segments.map Segment.step)))))] :=
      (published_response _ _ _ _).trans (brokerEntry_header _ _)
    rw [hentry]
    match segments with
    | [] => exact iff_of_true ⟨rfl, trivial⟩ trivial
    | .index i :: below => exact iff_of_true ⟨rfl, trivial⟩ trivial
    | .member name :: below =>
      refine (and_iff_right rfl).trans (Iff.trans ?_ (headerName_member_iff name below))
      refine some_text_inj.trans ?_
      rw [← String.toList_inj, String.toList_ofList]

private theorem identifier_body_injective (part : AnsweringPart) {s t : List Segment} {message message' : String}
    {action action' : Option String} (h : identifier (published (.within part .body s) message action) =
      identifier (published (.within part .body t) message' action')) : s = t := by
  have hpaths : pathText (s.map Segment.step) = pathText (t.map Segment.step) := by
    cases part with
    | response =>
      rw [published_body, published_body, identifier_entry, identifier_entry, some_text_inj, renderPath_eq, renderPath_eq,
        along, along] at h
      simpa using congrArg String.toList h
    | message =>
      rw [published_message, published_message, identifier_entry, identifier_entry, some_text_inj] at h
      have htext := congrArg String.toList h
      rw [String.toList_append, String.toList_append, path_within, path_within] at htext
      exact List.append_cancel_left (List.append_cancel_left htext)
  have hfits : ∀ segments : List Segment, ∀ step ∈ segments.map Segment.step, step.fits := fun segments =>
    List.forall_mem_map.2 fun segment _ => fits_step segment
  have hsteps := (readSteps_pathText (hfits s)).symm.trans ((congrArg readSteps hpaths).trans (readSteps_pathText (hfits t)))
  refine List.map_injective_iff.2 (fun a b hab => ?_) (Option.some.inj hsteps)
  cases a <;> cases b <;> simp_all [Segment.step, UInt64.toNat_inj]

private theorem identifier_body (part : AnsweringPart) (segments : List Segment) (message message' : String)
    (action action' : Option String) : identifier (published (.within part .body segments) message action) =
      identifier (published (.within part .body segments) message' action') := by
  cases part with
  | response => rw [published_body, published_body, identifier_entry, identifier_entry]
  | message => rw [published_message, published_message, identifier_entry, identifier_entry]

/-- The entry published for a mismatch says where it was exactly where the place is one that can be said, and of two
mismatches in a body the identifiers are one exactly where the places are. -/
theorem says_where_iff (place : Reported) (message : String) (action : Option String) :
    (SaysWhere place (published place message action) ↔ Sayable place) ∧
      ∀ (part : AnsweringPart) (s t : List Segment) (message' : String) (action' : Option String),
        identifier (published (.within part .body s) message action) =
          identifier (published (.within part .body t) message' action') ↔ s = t := by
  refine ⟨?_, fun part s t message' action' => ⟨identifier_body_injective part, ?_⟩⟩
  rotate_left
  · rintro rfl
    exact identifier_body part s message message' action action'
  cases place with
  | within part slot segments =>
    cases part with
    | response => exact says_within_response_iff slot segments message action
    | message =>
      refine iff_of_false (fun h => ?_) (by simp [Sayable])
      rw [published_message] at h
      cases slot with
      | body =>
        have htext := some_text_inj.1 ((identifier_entry _ _ _).symm.trans h.2)
        rw [renderPath_eq, along] at htext
        have hlength := congrArg (List.length ∘ String.toList) htext
        simp [path_within, slotPath, AnsweringPart.text, Slot.text] at hlength
        omega
      | _ => exact absurd (some_text_inj.1 h.1) (by decide)
  | header name =>
    rw [published_header, brokerEntry_header]
    refine (and_iff_right rfl).trans (Iff.trans ?_ (headerName_raw_iff name.toList))
    refine some_text_inj.trans ?_
    rw [← String.toList_inj, String.toList_ofList]

/-- The first of a header's values is published under the header's name and the index. -/
theorem listed_header_misnamed :
    ¬SaysWhere (.within .response .headers [.member "content-type", .index 0])
      (published (.within .response .headers [.member "content-type", .index 0]) "Expected 'a' to equal 'b'" none) := by
  rintro ⟨-, h⟩
  exact absurd (congrArg (Option.bind · asStr) h) (by decide +kernel)

end PactJanus.Broker.Published
