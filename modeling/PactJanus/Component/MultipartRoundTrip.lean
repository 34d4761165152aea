import PactJanus.Component.MultipartContent
import PactJanus.Lib.Fallible

namespace PactJanus.Component.MultipartRoundTrip

open PactJanus.Lib PactJanus.Lib.Text PactJanus.Lib.Delimited PactJanus.Lib.Multimap PactJanus.Lib.Fallible
open PactJanus.Lib.Multipart (crlf dashes delimiter bodyParts rawPart)
open PactJanus.Http.Message hiding Libraries
open PactJanus.Plan.Value PactJanus.Component.MultipartContent

/-! Multipart documents that are written and read back. -/

def bodyOctets : RuntimeValue → Option (List UInt8)
  | .absent => some []
  | .bytes bytes => some bytes
  | .string s => some (Utf8.bytes s)
  | _ => none

/-- The octets of a part whose body is text or octets. -/
def partOctets : RuntimeValue → Option (List UInt8)
  | .object members => bodyOctets ((members.lookup "body").getD .absent)
  | _ => none

/-- The octets of every part, under its name, in the order of the document. -/
def octetsByName (names : List (String × RuntimeValue)) : List (String × Option (List UInt8)) :=
  (partList names).map fun (name, part) => (name, partOctets part)

def stringHeader? (entry : String × RuntimeValue) : Option (String × String) :=
  match entry.2 with
  | .string value => some (toAsciiLowercase entry.1, value)
  | _ => none

/-- The headers a part gives, their names in lower case. -/
def givenHeaders : RuntimeValue → List (String × String)
  | .object members =>
    match members.lookup "headers" with
    | some (.object headers) => headers.filterMap stringHeader?
    | _ => []
  | _ => []

def givenFilename : RuntimeValue → Option String
  | .object members =>
    match members.lookup "filename" with
    | some (.string filename) => some filename
    | _ => none
  | _ => none

/-- A value as it is read from a header's line. -/
def asRead (value : String) : String := Utf8.lossy (trimBlank (Utf8.bytes value))

/-- A part with a text or octets, of a type that no component reads. -/
structure TextOrBytes (parts : List ContentComponent) (part : RuntimeValue) : Prop where
  body : (partOctets part).isSome
  type : ∀ header ∈ givenHeaders part, header.1 = "content-type" →
    partComponent parts header.2 = none ∧ partComponent parts (asRead header.2) = none

def dispositionText (name : String) (filename : Option String) : String :=
  "form-data; name=\"" ++ name ++ "\"" ++ filename.elim "" fun filename => "; filename=\"" ++ filename ++ "\""

/-- The headers of a part as it is sent: a disposition that names it, where it gives none, and those it gives. -/
def sentHeaders (name : String) (part : RuntimeValue) : List (String × String) :=
  (if !name.isEmpty && ((givenHeaders part).lookup "content-disposition").isNone then
    [("content-disposition", dispositionText name (givenFilename part))]
  else []) ++ givenHeaders part

def lineOf (header : String × String) : String := header.1 ++ ": " ++ header.2

/-- The last value of a header. -/
def lastOf (key : String) (headers : List (String × String)) : Option String := (valuesOf key headers).getLast?

/-- A part whose headers are headers, none beginning as the boundary's line does, whose disposition is read as its name,
and which has one encoding. -/
structure Sendable (libraries : Libraries) (boundary name : String) (part : RuntimeValue) : Prop where
  fields : ∀ header ∈ sentHeaders name part,
    (headerNameFromBytes header.1).isSome ∧ (Utf8.bytes header.2).all isValueOctet = true
  starts : ∀ header ∈ sentHeaders name part, ¬dashes ++ Utf8.bytes boundary <+: Utf8.bytes (lineOf header)
  named : ((lastOf "content-disposition" (sentHeaders name part)).bind fun value =>
    (libraries.disposition (trimBlank (Utf8.bytes value))).1).getD "" = name
  encoding : isBase64 ((sentHeaders name part).lookup "content-transfer-encoding") =
    isBase64 ((lastOf "content-transfer-encoding" (sentHeaders name part)).map asRead)

/-- A boundary that a document may be written under: the one its type names, or any of the numbered ones. -/
def MayTake (libraries : Libraries) (contentType taken : String) : Prop :=
  match boundary libraries contentType with
  | .ok named => taken = named
  | .error _ => ∃ n, taken = candidate n

/-- The type that a document is written under with a boundary. -/
def typedWith (libraries : Libraries) (contentType taken : String) : String :=
  match boundary libraries contentType with
  | .ok _ => contentType
  | .error _ => contentType ++ "; boundary=" ++ taken

/-- A document whose boundary is read from its type, under which each of its parts may be sent. -/
structure Readable (libraries : Libraries) (contentType : String) (names : List (String × RuntimeValue)) : Prop where
  boundary : ∀ taken, MayTake libraries contentType taken →
    boundary libraries (typedWith libraries contentType taken) = .ok taken ∧ 13 ∉ Utf8.bytes taken
  parts : ∀ taken, MayTake libraries contentType taken → ∀ p ∈ partList names, Sendable libraries taken p.1 p.2

variable {libraries : Libraries} {parts : List ContentComponent}

/-! What a part is written as. -/

private theorem filterMap_of_mapM {name : String} {entries : List (String × RuntimeValue)} {headers : List (String × String)}
    (h : entries.mapM (stringHeader name) = .ok headers) : headers = entries.filterMap stringHeader? := by
  have hall := forall₂_of_mapM_ok h
  clear h
  induction hall with
  | nil => rfl
  | cons hentry _ ih =>
    rename_i entry header _ _ _
    have hsome : stringHeader? entry = some header := by
      unfold stringHeader at hentry
      split at hentry
      · rename_i value hvalue
        obtain rfl := Except.ok.inj hentry
        rw [stringHeader?, hvalue]
      · exact nomatch hentry
    rw [List.filterMap_cons, hsome, ih]

private theorem givenHeaders_of_headersOf {name : String} {members : List (String × RuntimeValue)}
    {headers : List (String × String)} (h : headersOf name members = .ok headers) :
    headers = givenHeaders (.object members) := by
  rw [givenHeaders]
  unfold headersOf at h
  split at h
  · rename_i hnone
    rw [hnone, ← Except.ok.inj h]
  · rename_i habsent
    rw [habsent, ← Except.ok.inj h]
  · rename_i entries hentries
    rw [hentries]
    exact filterMap_of_mapM h
  · cases h

private theorem givenFilename_of_filenameOf {name : String} {members : List (String × RuntimeValue)}
    {filename : Option String} (h : filenameOf name members = .ok filename) :
    filename = givenFilename (.object members) := by
  rw [givenFilename]
  unfold filenameOf at h
  split at h
  · rename_i hnone
    rw [hnone, ← Except.ok.inj h]
  · rename_i habsent
    rw [habsent, ← Except.ok.inj h]
  · rename_i file hfile
    rw [hfile, ← Except.ok.inj h]
  · cases h

private theorem eq_of_quoted {name value written : String} (h : quoted name value = .ok written) :
    written = "\"" ++ value ++ "\"" := by
  unfold quoted at h
  split at h
  · exact nomatch h
  · exact (Except.ok.inj h).symm

private theorem dispositionText_line (name : String) : "content-disposition: form-data; name=" ++ ("\"" ++ name ++ "\"") =
    "content-disposition" ++ ": " ++ ("form-data; name=\"" ++ name ++ "\"") := by
  have hstart : "content-disposition: form-data; name=" ++ "\"" = "content-disposition" ++ ": " ++ "form-data; name=\"" := by
    simp
  rw [← String.append_assoc, ← String.append_assoc, hstart]
  simp only [String.append_assoc]


private theorem lineOf_named (name : String) : "content-disposition: form-data; name=" ++ ("\"" ++ name ++ "\"") =
    lineOf ("content-disposition", dispositionText name none) := by
  have htext : dispositionText name none = "form-data; name=\"" ++ name ++ "\"" := String.append_empty
  unfold lineOf
  rw [htext]
  exact dispositionText_line name

private theorem lineOf_filed (name f : String) :
    "content-disposition: form-data; name=" ++ ("\"" ++ name ++ "\"") ++ "; filename=" ++ ("\"" ++ f ++ "\"") =
      lineOf ("content-disposition", dispositionText name (some f)) := by
  have hfile : "; filename=" ++ ("\"" ++ f ++ "\"") = "; filename=\"" ++ f ++ "\"" := by
    have hstart : "; filename=" ++ "\"" = "; filename=\"" := by simp
    rw [← String.append_assoc, ← String.append_assoc, hstart]
  calc "content-disposition: form-data; name=" ++ ("\"" ++ name ++ "\"") ++ "; filename=" ++ ("\"" ++ f ++ "\"")
      = "content-disposition: form-data; name=" ++ ("\"" ++ name ++ "\"") ++ ("; filename=" ++ ("\"" ++ f ++ "\"")) :=
        String.append_assoc
    _ = "content-disposition" ++ ": " ++ ("form-data; name=\"" ++ name ++ "\"") ++ ("; filename=\"" ++ f ++ "\"") := by
        rw [dispositionText_line, hfile]
    _ = lineOf ("content-disposition", dispositionText name (some f)) := String.append_assoc

private theorem eq_of_dispositionLine {name : String} {headers : List (String × String)} {filename : Option String}
    {first : List String} (h : dispositionLine name headers filename = .ok first) :
    first = (if !name.isEmpty && (headers.lookup "content-disposition").isNone then
      [("content-disposition", dispositionText name filename)] else []).map lineOf := by
  unfold dispositionLine at h
  split at h
  · rename_i hwritten
    rw [if_pos hwritten]
    obtain ⟨written, hname, hrest⟩ := bind_eq_ok h
    obtain rfl := eq_of_quoted hname
    cases filename with
    | none =>
      have hlines := Except.ok.inj hrest
      exact hlines.symm.trans (congrArg (fun line => [line]) (lineOf_named name))
    | some filename =>
      obtain ⟨file, hfile, hlines⟩ := map_eq_ok hrest
      have hquoted := eq_of_quoted hfile
      subst hquoted
      exact hlines.symm.trans (congrArg (fun line => [line]) (lineOf_filed name filename))
  · rename_i hnot
    rw [if_neg hnot, ← Except.ok.inj h]
    rfl

private theorem eq_of_headerLines {name : String} {headers : List (String × String)} {lines : List String}
    (h : headers.mapM (headerLine name) = .ok lines) : lines = headers.map lineOf := by
  have hall := forall₂_of_mapM_ok h
  clear h
  induction hall with
  | nil => rfl
  | cons hline _ ih =>
    unfold headerLine at hline
    split at hline
    · exact nomatch hline
    · rw [List.map_cons, ih, ← Except.ok.inj hline]
      rfl

private theorem eq_of_encodePart {name : String} {contentType : Option String} {body : RuntimeValue} {data : List UInt8}
    (hnone : contentType.bind (partComponent parts) = none) (hbody : (bodyOctets body).isSome)
    (h : encodePart parts name contentType body = .ok data) : bodyOctets body = some data := by
  unfold encodePart at h
  rw [hnone] at h
  cases body with
  | absent => exact congrArg some (Except.ok.inj h)
  | bytes bytes => exact congrArg some (Except.ok.inj h)
  | string s => exact congrArg some (Except.ok.inj h)
  | null | bool _ | number _ | array _ | object _ | entry _ _ => exact nomatch hbody

private theorem lookup_sentHeaders (name : String) (part : RuntimeValue) {key : String} (h : key ≠ "content-disposition") :
    (sentHeaders name part).lookup key = (givenHeaders part).lookup key := by
  rw [sentHeaders]
  split
  · rw [List.singleton_append, Lists.lookup_cons_ite, if_neg h]
  · rw [List.nil_append]

/-- A part is written as the lines of the headers it is sent with, and its octets under their encoding. -/
theorem eq_of_writePart {name : String} {part : RuntimeValue} (hpart : TextOrBytes parts part)
    {lines : List String} {data : List UInt8} (h : writePart parts name part = .ok (lines, data)) :
    lines = (sentHeaders name part).map lineOf ∧ ∃ octets, partOctets part = some octets ∧
      data = applied ((sentHeaders name part).lookup "content-transfer-encoding") octets := by
  unfold writePart at h
  split at h
  · rename_i members
    obtain ⟨headers, hheaders, h⟩ := bind_eq_ok h
    obtain ⟨filename, hfilename, h⟩ := bind_eq_ok h
    obtain ⟨first, hfirst, h⟩ := bind_eq_ok h
    obtain ⟨others, hothers, h⟩ := bind_eq_ok h
    obtain ⟨encoded, hencoded, hpair⟩ := map_eq_ok h
    obtain ⟨rfl, rfl⟩ := Prod.mk.inj hpair
    obtain rfl := givenHeaders_of_headersOf hheaders
    obtain rfl := givenFilename_of_filenameOf hfilename
    rw [eq_of_dispositionLine hfirst, eq_of_headerLines hothers, ← List.map_append]
    have hnone : ((givenHeaders (.object members)).lookup "content-type").bind (partComponent parts) = none := by
      cases htype : (givenHeaders (.object members)).lookup "content-type" with
      | none => rfl
      | some type => exact (hpart.type _ (Lists.mem_of_lookup htype) rfl).1
    refine ⟨rfl, encoded, eq_of_encodePart hnone hpart.body hencoded, ?_⟩
    rw [lookup_sentHeaders _ _ (by decide)]
  · cases h

/-! What the lines of a part are read as. -/

private theorem lower_of_mem {name : String} {part : RuntimeValue} {header : String × String}
    (h : header ∈ sentHeaders name part) : toAsciiLowercase header.1 = header.1 := by
  have hgiven : ∀ header ∈ givenHeaders part, toAsciiLowercase header.1 = header.1 := by
    intro header hmem
    unfold givenHeaders at hmem
    split at hmem
    · split at hmem
      · obtain ⟨entry, -, hentry⟩ := List.mem_filterMap.1 hmem
        unfold stringHeader? at hentry
        split at hentry
        · rw [← Option.some.inj hentry]
          exact toAsciiLowercase_idem entry.1
        · cases hentry
      · exact absurd hmem List.not_mem_nil
    · exact absurd hmem List.not_mem_nil
  rw [sentHeaders] at h
  split at h
  · rcases List.mem_cons.1 h with rfl | hmem
    · exact (by decide : toAsciiLowercase "content-disposition" = "content-disposition")
    · exact hgiven header hmem
  · exact hgiven header h

private theorem mem_of_mem_trimBlank {l : List UInt8} {b : UInt8} (h : b ∈ trimBlank l) : b ∈ l := by
  rw [trimBlank, List.mem_reverse] at h
  have hback := List.mem_reverse.1 ((List.dropWhile_sublist _).subset h)
  exact (List.dropWhile_sublist _).subset hback

private theorem bytes_lineOf (header : String × String) :
    Utf8.bytes (lineOf header) = Utf8.bytes header.1 ++ [58] ++ (32 :: Utf8.bytes header.2) := by
  have hcolon : Utf8.bytes ": " = [58, 32] := rfl
  have hsplit : Utf8.bytes (lineOf header) = Utf8.bytes (header.1 ++ ": ") ++ Utf8.bytes header.2 := Utf8.bytes_append _ _
  rw [hsplit, Utf8.bytes_append, hcolon]
  simp only [List.append_assoc, List.cons_append, List.nil_append]

/-- An octet that is no character of a header's name is none of its octets. -/
private theorem not_mem_name {name : String} (hlower : toAsciiLowercase name = name)
    (hname : (headerNameFromBytes name).isSome) {b : UInt8} (hb : b < 0x80)
    (hnot : isTokenChar (Char.ofNat b.toNat) = false) : b ∉ Utf8.bytes name := by
  intro hmem
  obtain ⟨c, hc, hcode⟩ := Utf8.mem_toList_of_mem_bytes hmem hb
  unfold headerNameFromBytes at hname
  simp only [hlower] at hname
  split at hname
  · rename_i hvalid
    have htoken := (Bool.and_eq_true_iff.1 (List.all_eq_true.1 hvalid.2.2 c hc)).1
    rw [← hcode, Char.ofNat_toNat, htoken] at hnot
    exact nomatch hnot
  · exact nomatch hname

private theorem readHeader_lineOf {header : String × String} (hlower : toAsciiLowercase header.1 = header.1)
    (hname : (headerNameFromBytes header.1).isSome) (hvalue : (Utf8.bytes header.2).all isValueOctet = true) :
    ∃ field : HeaderName × HeaderValue, readHeader (Utf8.bytes (lineOf header)) = some field ∧
      field.1.1 = header.1 ∧ field.2.1 = trimBlank (Utf8.bytes header.2) := by
  have habsent : ¬[58] <:+: Utf8.bytes header.1 := fun h =>
    not_mem_name hlower hname (by decide) (by decide) (h.subset List.mem_cons_self)
  obtain ⟨name, hsome⟩ := Option.isSome_iff_exists.1 hname
  have hsame : name.1 = header.1 := by
    unfold headerNameFromBytes at hsome
    simp only [hlower] at hsome
    split at hsome
    · rw [← Option.some.inj hsome]
    · exact nomatch hsome
  have htrim : trimBlank (32 :: Utf8.bytes header.2) = trimBlank (Utf8.bytes header.2) := rfl
  have hall : (trimBlank (Utf8.bytes header.2)).all isValueOctet = true :=
    List.all_eq_true.2 fun b hb => List.all_eq_true.1 hvalue b (mem_of_mem_trimBlank hb)
  refine ⟨(name, ⟨_, hall⟩), ?_, hsame, rfl⟩
  rw [readHeader, bytes_lineOf, cutAt_of_absent List.not_mem_nil habsent, Option.bind_some]
  dsimp only
  rw [Utf8.lossy_bytes, hsome, Option.bind_some, htrim, headerValueFromBytes, dif_pos hall]
  rfl

private theorem line_plain {header : String × String} (hlower : toAsciiLowercase header.1 = header.1)
    (hname : (headerNameFromBytes header.1).isSome) (hvalue : (Utf8.bytes header.2).all isValueOctet = true) :
    13 ∉ Utf8.bytes (lineOf header) := by
  rw [bytes_lineOf]
  intro h
  simp only [List.mem_append, List.mem_cons, List.not_mem_nil, or_false] at h
  rcases h with (h | h) | h | h
  · exact not_mem_name hlower hname (by decide) (by decide) h
  · exact absurd h (by decide)
  · exact absurd h (by decide)
  · exact absurd (List.all_eq_true.1 hvalue 13 h) (by decide)

private theorem exists_fields {headers : List (String × String)}
    (h : ∀ header ∈ headers, toAsciiLowercase header.1 = header.1 ∧ (headerNameFromBytes header.1).isSome ∧
      (Utf8.bytes header.2).all isValueOctet = true) :
    ∃ fields, (headers.map fun header => Utf8.bytes (lineOf header)).mapM readHeader = some fields ∧
      fields.map (fun f => (f.1.1, f.2.1)) = headers.map fun header => (header.1, trimBlank (Utf8.bytes header.2)) := by
  induction headers with
  | nil => exact ⟨[], rfl, rfl⟩
  | cons header rest ih =>
    obtain ⟨⟨hlower, hname, hvalue⟩, hrest⟩ := List.forall_mem_cons.1 h
    obtain ⟨field, hfield, htext, hoctets⟩ := readHeader_lineOf hlower hname hvalue
    obtain ⟨fields, hfields, hmap⟩ := ih hrest
    refine ⟨field :: fields, ?_, ?_⟩
    · rw [List.map_cons, List.mapM_cons, hfield, hfields]
      rfl
    · rw [List.map_cons, List.map_cons, htext, hoctets, hmap]

/-- A header that is read has the last value it was sent with. -/
private theorem get_fields {headers : List (String × String)} {fields : List (HeaderName × HeaderValue)}
    (h : fields.map (fun f => (f.1.1, f.2.1)) = headers.map fun header => (header.1, trimBlank (Utf8.bytes header.2)))
    (name : HeaderName) :
    ((fields.foldl (fun headers (name, value) => headers.insert name value) HeaderMap.empty).get name).map (fun v => v.1) =
      (lastOf name.1 headers).map fun value => trimBlank (Utf8.bytes value) := by
  have hvalues := congrArg (valuesOf name.1) h
  have hsent := valuesOf_map Function.injective_id (fun value => trimBlank (Utf8.bytes value)) headers name.1
  simp only [id] at hsent
  rw [valuesOf_map HeaderMap.text_injective (fun v : HeaderValue => v.1) fields name, hsent] at hvalues
  rw [HeaderMap.get_foldl_insert, lastOf, ← List.getLast?_map, ← hvalues, List.getLast?_map]
  exact congrArg _ Option.or_none

private theorem undone_applied {written read : Option String} (h : isBase64 written = isBase64 read) (octets : List UInt8) :
    undone read (applied written octets) = octets := by
  rw [undone, applied, ← h]
  split
  · rw [Utf8.lossy_bytes, Base64.decode_encode, Option.getD_some]
  · rfl

private theorem partOctets_textOrBytes (headers filename : List (String × RuntimeValue)) {body : RuntimeValue}
    (hfilename : filename.lookup "body" = none) :
    partOctets (.object (("headers", .object headers) :: (filename ++ [("body", body)]))) = bodyOctets body := by
  have hlookup : ((("headers", RuntimeValue.object headers) :: (filename ++ [("body", body)])).lookup "body") = some body := by
    rw [Lists.lookup_cons_ite, if_neg (by decide), List.lookup_append, hfilename, Option.none_or, Lists.lookup_cons_ite,
      if_pos rfl]
  rw [partOctets, hlookup]
  rfl

private theorem bodyOctets_textOrBytes (octets : List UInt8) : bodyOctets (textOrBytes octets) = some octets := by
  unfold textOrBytes
  cases h : Utf8.decode octets with
  | none => rfl
  | some decoded => exact congrArg some (Utf8.bytes_of_decode h)

private theorem partOctets_partObject {raw : RawPart} (h : raw.contentType.bind (partComponent parts) = none) :
    partOctets (partObject parts raw) = some raw.data := by
  have hdecoded : ∃ body, decodePart parts raw.contentType raw.data = some body ∧ bodyOctets body = some raw.data := by
    unfold decodePart
    cases htype : raw.contentType with
    | none => exact ⟨_, rfl, bodyOctets_textOrBytes raw.data⟩
    | some type =>
      rw [htype, Option.bind_some] at h
      dsimp only
      rw [h]
      exact ⟨_, rfl, rfl⟩
  obtain ⟨body, hbody, hoctets⟩ := hdecoded
  rw [partObject, hbody]
  have hfilename : ((raw.filename.map fun filename => ("filename", RuntimeValue.string filename)).toList).lookup "body" =
      none := by
    cases raw.filename with
    | none => rfl
    | some filename => rfl
  exact (partOctets_textOrBytes _ _ hfilename).trans hoctets

/-- A part that is sent is read with its name and its octets. -/
private theorem field_partText {boundary name : String} {part : RuntimeValue} (hsend : Sendable libraries boundary name part)
    (hpart : TextOrBytes parts part) (octets : List UInt8) :
    ∃ raw, field libraries (partText ((sentHeaders name part).map lineOf,
        applied ((sentHeaders name part).lookup "content-transfer-encoding") octets)) = some raw ∧ raw.name = name ∧
      partOctets (partObject parts raw) = some octets := by
  have hplain : ∀ header ∈ sentHeaders name part, toAsciiLowercase header.1 = header.1 ∧
      (headerNameFromBytes header.1).isSome ∧ (Utf8.bytes header.2).all isValueOctet = true :=
    fun header hmem => ⟨lower_of_mem hmem, hsend.fields header hmem⟩
  obtain ⟨fields, hread, hmap⟩ := exists_fields hplain
  have hget := get_fields hmap
  have hblock : ∀ line ∈ (sentHeaders name part).map fun header => Utf8.bytes (lineOf header),
      line ≠ [] ∧ ¬[13, 10] <:+: line := by
    intro line hline
    obtain ⟨header, hheader, rfl⟩ := List.mem_map.1 hline
    obtain ⟨hlower, hname, hvalue⟩ := hplain header hheader
    refine ⟨by rw [bytes_lineOf]; simp, fun hwithin => ?_⟩
    exact line_plain hlower hname hvalue (hwithin.subset List.mem_cons_self)
  have htext : ∀ data, rawPart (partText ((sentHeaders name part).map lineOf, data)) =
      some ⟨(sentHeaders name part).map fun header => Utf8.bytes (lineOf header), data⟩ := by
    intro data
    have hlines := lines_append (by decide : (13 : UInt8) ∉ [10]) hblock data
    rw [List.flatMap_map] at hlines
    rw [partText, List.flatMap_map]
    exact congrArg (Option.map _) hlines
  have hheaders : readHeaders ((sentHeaders name part).map fun header => Utf8.bytes (lineOf header)) =
      some (fields.foldl (fun headers (name, value) => headers.insert name value) HeaderMap.empty) := by
    rw [readHeaders, hread]
    rfl
  have htexts : ∀ key : HeaderName,
      (fields.foldl (fun headers (name, value) => headers.insert name value) HeaderMap.empty).texts.lookup key.1 =
        (lastOf key.1 (sentHeaders name part)).map asRead := by
    intro key
    have hvalue := congrArg (Option.map Utf8.lossy) (hget key)
    rw [Option.map_map, Option.map_map] at hvalue
    rw [HeaderMap.lookup_texts]
    exact hvalue
  have hdata := undone_applied hsend.encoding octets
  refine ⟨_, by rw [field, htext, Option.bind_some, hheaders, Option.map_some], ?_, ?_⟩
  · have hnamed := congrArg (Option.map libraries.disposition) (hget contentDisposition)
    rw [Option.map_map, Option.map_map] at hnamed
    change ((Option.map (libraries.disposition ∘ fun v : HeaderValue => v.1) _).bind Prod.fst).getD "" = name
    rw [hnamed, Option.bind_map]
    exact hsend.named
  · have htype := htexts contentType
    have hencoding := htexts ⟨"content-transfer-encoding", by decide⟩
    dsimp only [contentType] at htype hencoding
    rw [partOctets_partObject]
    · dsimp only
      rw [hencoding, hdata]
    · rw [RawPart.contentType, htype]
      cases hlast : lastOf "content-type" (sentHeaders name part) with
      | none => rfl
      | some value =>
        have hmem := mem_valuesOf.1 (List.mem_of_getLast? hlast)
        rw [sentHeaders, List.mem_append] at hmem
        rcases hmem with hmem | hmem
        · split at hmem
          · have hkey := congrArg Prod.fst (List.mem_singleton.1 hmem)
            exact absurd hkey (by decide : ("content-type" : String) ≠ "content-disposition")
          · exact absurd hmem List.not_mem_nil
        · exact (hpart.type _ hmem rfl).2

/-! The whole of a document. -/

private theorem boundaryFor_eq (libraries : Libraries) (contentType : String) (written : List (List String × List UInt8)) :
    ∃ taken, MayTake libraries contentType taken ∧
      boundaryFor libraries contentType written = (taken, typedWith libraries contentType taken) := by
  unfold boundaryFor MayTake typedWith
  cases boundary libraries contentType with
  | ok named => exact ⟨named, rfl, rfl⟩
  | error err => exact ⟨freshBoundary written, ⟨_, rfl⟩, rfl⟩

private theorem bytes_dashes (taken : String) : Utf8.bytes ("--" ++ taken) = dashes ++ Utf8.bytes taken := by
  have hsplit : Utf8.bytes ("--" ++ taken) = Utf8.bytes "--" ++ Utf8.bytes taken := Utf8.bytes_append _ _
  have hdashes : Utf8.bytes "--" = dashes := rfl
  rw [hsplit, hdashes]

private theorem bodyText_eq (taken : String) (written : List (List String × List UInt8)) :
    bodyText taken written = Multipart.written (Utf8.bytes taken) (written.map partText) := by
  rw [bodyText, Multipart.written, List.flatMap_map, bytes_dashes]
  simp only [List.append_assoc]

/-- Parts that are written are read one for one. -/
private theorem exists_read {taken : String} (htaken : 13 ∉ Utf8.bytes taken) {listed : List (String × RuntimeValue)}
    {written : List (List String × List UInt8)}
    (hwritten : List.Forall₂ (fun p w => writePart parts p.1 p.2 = .ok w) listed written)
    (hparts : ∀ p ∈ listed, TextOrBytes parts p.2) (hsend : ∀ p ∈ listed, Sendable libraries taken p.1 p.2)
    (hholds : anyHolds written ("--" ++ taken) = false) :
    (∀ text ∈ written.map partText, ¬delimiter (Utf8.bytes taken) <:+: text) ∧
      ∃ read, (written.map partText).mapM (field libraries) = some read ∧
        read.map (fun raw => (raw.name, partOctets (partObject parts raw))) = listed.map fun p => (p.1, partOctets p.2) := by
  induction hwritten with
  | nil => exact ⟨List.forall_mem_nil _, [], rfl, rfl⟩
  | @cons p w rest others hpart hrest ih =>
    obtain ⟨hplain, hplains⟩ := List.forall_mem_cons.1 hparts
    obtain ⟨hsent, hsents⟩ := List.forall_mem_cons.1 hsend
    rw [anyHolds, List.any_cons, Bool.or_eq_false_iff] at hholds
    obtain ⟨hdata, hothers⟩ := hholds
    obtain ⟨hnone, read, hread, hmap⟩ := ih hplains hsents hothers
    obtain ⟨lines, data⟩ := w
    obtain ⟨rfl, octets, hoctets, rfl⟩ := eq_of_writePart hplain hpart
    obtain ⟨raw, hraw, hname, hsame⟩ := field_partText hsent hplain octets
    refine ⟨List.forall_mem_cons.2 ⟨?_, hnone⟩, raw :: read, ?_, ?_⟩
    · have hcontent := of_decide_eq_false hdata
      rw [bytes_dashes] at hcontent
      have hblock : ∀ line ∈ (sentHeaders p.1 p.2).map fun header => Utf8.bytes (lineOf header),
          13 ∉ line ∧ ¬dashes ++ Utf8.bytes taken <+: line := by
        intro line hline
        obtain ⟨header, hheader, rfl⟩ := List.mem_map.1 hline
        have hfield := hsent.fields header hheader
        exact ⟨line_plain (lower_of_mem hheader) hfield.1 hfield.2, hsent.starts header hheader⟩
      have hlines := Multipart.not_delimiter_infix htaken hblock hcontent
      rw [List.flatMap_map] at hlines
      rwa [partText, List.flatMap_map]
    · rw [List.map_cons, List.mapM_cons, hraw, hread]
      rfl
    · rw [List.map_cons, List.map_cons, hname, hsame, hoctets, hmap]

private theorem partList_arrays (named : List (String × List RuntimeValue)) :
    partList (named.map fun (name, parts) => (name, .array parts)) = pairsOf named := by
  rw [partList, pairsOf, List.flatMap_map]
  rfl

private theorem partList_eq (names : List (String × RuntimeValue)) :
    partList names = pairsOf (names.map fun p => (p.1, listed p.2)) := by
  rw [partList, pairsOf, List.flatMap_map]

/-- A document that is written is read with the parts it had, under their names, in their order. -/
theorem document_of_write {names : List (String × RuntimeValue)} {contentType : String}
    (hnames : (names.map Prod.fst).Nodup) (hparts : ∀ p ∈ partList names, TextOrBytes parts p.2)
    (hreadable : Readable libraries contentType names) {body : List UInt8} {written : String}
    (hwrite : write libraries parts (.object names) contentType = .ok (body, written)) :
    ∃ read, document libraries parts body written = .ok (.object read) ∧ octetsByName read = octetsByName names := by
  unfold write at hwrite
  obtain ⟨texts, htexts, hbody⟩ := bind_eq_ok hwrite
  obtain ⟨taken, htake, hfor⟩ := boundaryFor_eq libraries contentType texts
  rw [hfor] at hbody
  dsimp only at hbody
  split at hbody
  · exact nomatch hbody
  rename_i hholds
  obtain ⟨rfl, rfl⟩ := Prod.mk.inj (Except.ok.inj hbody)
  obtain ⟨hboundary, htaken⟩ := hreadable.boundary taken htake
  obtain ⟨hnone, read, hread, hmap⟩ := exists_read htaken (forall₂_of_mapM_ok htexts) hparts (hreadable.parts taken htake)
    (Bool.eq_false_iff.2 hholds)
  have hsplit : MultipartContent.split libraries (bodyText taken texts) taken = .ok read := by
    rw [MultipartContent.split, bodyText_eq, (Multipart.bodyParts_written_iff htaken).2 hnone, Option.bind_some, hread]
  refine ⟨_, by rw [document, hboundary]; exact congrArg (Except.map _) hsplit, ?_⟩
  have hnamed : named parts read =
      (read.map fun raw => (raw.name, partObject parts raw)).foldl (fun map p => append p.1 p.2 map) [] := by
    rw [List.foldl_map]
    rfl
  have hkeys : (read.map fun raw => (raw.name, partObject parts raw)).map Prod.fst =
      (pairsOf (names.map fun p => (p.1, listed p.2))).map Prod.fst := by
    have hfirsts := congrArg (List.map Prod.fst) hmap
    rw [List.map_map, List.map_map] at hfirsts
    rw [← partList_eq, List.map_map]
    exact hfirsts
  have hnodup : ((names.map fun p => (p.1, listed p.2)).map Prod.fst).Nodup := by
    rw [List.map_map]
    exact hnames
  rw [octetsByName, partList_arrays, hnamed, pairsOf_foldl_append hnodup hkeys, List.map_map]
  exact hmap

/-! Runs. -/

/-- Reads one type, and the name a disposition has between quotes. -/
private def plain : Libraries where
  mime type := if type = "multipart/form-data; boundary=xyz" then .ok (some "xyz") else .error "no type"
  disposition octets :=
    ((cutAt (Utf8.bytes "name=\"") octets).bind fun (_, rest) => (cutAt [34] rest).map fun (name, _) => Utf8.lossy name, none)
  malformed _ := "incomplete"

private def twoParts : List (String × RuntimeValue) :=
  [("a", .array [.object [("headers", .object [("X-Kind", .string "1")]), ("body", .string "hi")],
    .object [("body", .bytes [255, 13, 10])]])]

private theorem textOrBytes_of {part : RuntimeValue} (h : (partOctets part).isSome) : TextOrBytes [] part :=
  ⟨h, fun _ _ _ => ⟨rfl, rfl⟩⟩

private theorem readable_twoParts : Readable plain "multipart/form-data; boundary=xyz" twoParts where
  boundary := by
    rintro taken rfl
    exact ⟨rfl, by decide⟩
  parts := by
    rintro taken rfl
    refine List.forall_mem_cons.2 ⟨⟨?_, ?_, ?_, ?_⟩, List.forall_mem_cons.2 ⟨⟨?_, ?_, ?_, ?_⟩, List.forall_mem_nil _⟩⟩
    all_goals decide +kernel

private theorem exists_ok {ε α : Type} {x : Except ε α} (h : x.toOption.isSome = true) : ∃ a, x = .ok a := by
  cases x with
  | error e => exact nomatch h
  | ok a => exact ⟨a, rfl⟩

theorem two_parts_read : ∃ body written read,
    write plain [] (.object twoParts) "multipart/form-data; boundary=xyz" = .ok (body, written) ∧
      document plain [] body written = .ok (.object read) ∧ octetsByName read = octetsByName twoParts := by
  obtain ⟨⟨body, written⟩, hwrite⟩ := exists_ok (by decide +kernel :
    (write plain [] (.object twoParts) "multipart/form-data; boundary=xyz").toOption.isSome = true)
  have hparts : ∀ p ∈ partList twoParts, TextOrBytes [] p.2 :=
    List.forall_mem_cons.2 ⟨textOrBytes_of rfl, List.forall_mem_cons.2 ⟨textOrBytes_of rfl, List.forall_mem_nil _⟩⟩
  obtain ⟨read, hread⟩ := document_of_write (by decide) hparts readable_twoParts hwrite
  exact ⟨body, written, read, hwrite, hread⟩

private def brokenHeader : List (String × RuntimeValue) :=
  [("a", .array [.object [("headers", .object [("x: 1\r\n\r\ny", .string "2")]), ("body", .string "hi")]])]

private def readOctets (doc : RuntimeValue) : List (String × Option (List UInt8)) :=
  match doc with
  | .object read => octetsByName read
  | _ => []

/-- An empty line in a header's name ends the headers where it is. -/
theorem header_name_ends_headers : (∀ p ∈ partList brokenHeader, TextOrBytes [] p.2) ∧ ∃ body written doc,
    write plain [] (.object brokenHeader) "multipart/form-data; boundary=xyz" = .ok (body, written) ∧
      document plain [] body written = .ok doc ∧ readOctets doc ≠ octetsByName brokenHeader := by
  refine ⟨List.forall_mem_cons.2 ⟨textOrBytes_of rfl, List.forall_mem_nil _⟩, ?_⟩
  obtain ⟨differs, hrun⟩ := exists_ok (by decide +kernel :
    ((write plain [] (.object brokenHeader) "multipart/form-data; boundary=xyz").bind fun (body, written) =>
      (document plain [] body written).bind fun doc =>
        if readOctets doc = octetsByName brokenHeader then .error "read" else .ok ()).toOption.isSome = true)
  obtain ⟨⟨body, written⟩, hwrite, hread⟩ := bind_eq_ok hrun
  obtain ⟨doc, hdoc, hdiffers⟩ := bind_eq_ok hread
  refine ⟨body, written, doc, hwrite, hdoc, fun heq => ?_⟩
  rw [if_pos heq] at hdiffers
  exact nomatch hdiffers

end PactJanus.Component.MultipartRoundTrip
