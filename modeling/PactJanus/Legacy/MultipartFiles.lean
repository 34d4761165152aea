import PactJanus.Legacy.Builder
import PactJanus.Lib.Fallible
import PactJanus.Lib.Multipart

namespace PactJanus.Legacy.MultipartFiles

open PactJanus.Data.Json PactJanus.Lib PactJanus.Lib.Delimited PactJanus.Lib.Multipart PactJanus.Contracts.Files
open PactJanus.Legacy.Steps PactJanus.Legacy.Parts PactJanus.Legacy.Builder

/-! The files of a multipart body, read back from it. -/

/-- A file as it is read from a part. -/
@[ext]
structure ReadFile where
  partName : List UInt8
  file : List UInt8
  contentType : List UInt8
  contents : List UInt8
deriving DecidableEq

def stripStart (start l : List UInt8) : Option (List UInt8) :=
  if start.isPrefixOf l then some (l.drop start.length) else none

def quote : List UInt8 := [34]

def nameStart : List UInt8 := Utf8.bytes "Content-Disposition: form-data; name=\""

def fileStart : List UInt8 := Utf8.bytes "; filename=\""

def typeStart : List UInt8 := Utf8.bytes "Content-Type: "

def readDisposition (line : List UInt8) : Option (List UInt8 × List UInt8) := do
  let afterStart ← stripStart nameStart line
  let (name, afterName) ← cutAt quote afterStart
  let afterName ← stripStart fileStart afterName
  let (file, afterFile) ← cutAt quote afterName
  if afterFile = [] then some (name, file) else none

/-- A part with a disposition and a type, as the file it is. -/
def readFile (part : List UInt8) : Option ReadFile := do
  let raw ← rawPart part
  match raw.lines with
  | [disposition, contentType] =>
    let (name, file) ← readDisposition disposition
    let contentType ← stripStart typeStart contentType
    some ⟨name, file, contentType, raw.content⟩
  | _ => none

namespace ReadFile

def disposition (r : ReadFile) : List UInt8 := nameStart ++ r.partName ++ quote ++ fileStart ++ r.file ++ quote

/-- The part a file is read from. -/
def part (r : ReadFile) : List UInt8 :=
  [r.disposition, typeStart ++ r.contentType].flatMap (· ++ crlf) ++ crlf ++ r.contents

/-- Names with no quote and no line's end, and a type with no line's end. -/
structure Plain (r : ReadFile) : Prop where
  partName : 34 ∉ r.partName ∧ ¬crlf <:+: r.partName
  file : 34 ∉ r.file ∧ ¬crlf <:+: r.file
  contentType : ¬crlf <:+: r.contentType

end ReadFile

private theorem stripStart_eq_some {start l rest : List UInt8} : stripStart start l = some rest ↔ l = start ++ rest := by
  unfold stripStart
  split
  · rename_i h
    obtain ⟨tail, rfl⟩ := List.isPrefixOf_iff_prefix.1 h
    rw [List.drop_left, Option.some.injEq, List.append_cancel_left_eq]
  · rename_i h
    refine iff_of_false nofun ?_
    rintro rfl
    exact h (List.isPrefixOf_iff_prefix.2 (List.prefix_append _ _))

private theorem cutAt_quote {l before after : List UInt8} :
    cutAt quote l = some (before, after) ↔ l = before ++ quote ++ after ∧ 34 ∉ before := by
  have hwithin : ¬quote <:+: before ↔ 34 ∉ before := not_congr (List.singleton_infix_iff _ _)
  refine ⟨fun h => ⟨eq_of_cutAt h, hwithin.1 (not_infix_of_cutAt (List.cons_ne_nil _ _) h)⟩, ?_⟩
  rintro ⟨rfl, hquote⟩
  exact cutAt_of_absent List.not_mem_nil (hwithin.2 hquote) after

private theorem readDisposition_eq_some {line name file : List UInt8} :
    readDisposition line = some (name, file) ↔
      line = nameStart ++ name ++ quote ++ fileStart ++ file ++ quote ∧ 34 ∉ name ∧ 34 ∉ file := by
  unfold readDisposition
  simp only [Option.bind_eq_bind, Option.bind_eq_some_iff, Prod.exists, stripStart_eq_some, cutAt_quote]
  constructor
  · rintro ⟨_, rfl, n, _, ⟨rfl, hname⟩, _, rfl, f, after, ⟨rfl, hfile⟩, hend⟩
    split at hend
    · rename_i hnil
      obtain ⟨rfl, rfl⟩ := Prod.mk.inj (Option.some.inj hend)
      exact ⟨by simp only [hnil, List.append_assoc, List.append_nil], hname, hfile⟩
    · exact nomatch hend
  · rintro ⟨rfl, hname, hfile⟩
    exact ⟨_, by simp only [List.append_assoc]; rfl, name, _, ⟨by simp only [List.append_assoc]; rfl, hname⟩, _, rfl, file,
      [], ⟨by simp only [List.append_nil], hfile⟩, by simp⟩

private theorem crlf_not_infix_append {l l' : List UInt8} (h : ¬crlf <:+: l) (h' : ¬crlf <:+: l')
    (hborder : l.getLast? ≠ some 13 ∨ l'.head? ≠ some 10) : ¬crlf <:+: l ++ l' := by
  rw [crlf, pair_infix_append_iff]
  rintro (hl | hl' | ⟨hlast, hhead⟩)
  · exact h hl
  · exact h' hl'
  · rcases hborder with hb | hb
    · exact hb hlast
    · exact hb hhead

private theorem crlf_not_infix_disposition (r : ReadFile) :
    ¬crlf <:+: r.disposition ↔ ¬crlf <:+: r.partName ∧ ¬crlf <:+: r.file := by
  have hquote : ¬crlf <:+: quote := by decide +kernel
  constructor
  · intro h
    have hname : r.partName <:+: r.disposition := ⟨nameStart, quote ++ fileStart ++ r.file ++ quote, by
      simp only [ReadFile.disposition, List.append_assoc]⟩
    have hfile : r.file <:+: r.disposition := ⟨nameStart ++ r.partName ++ quote ++ fileStart, quote, by
      simp only [ReadFile.disposition, List.append_assoc]⟩
    exact ⟨fun hwithin => h (hwithin.trans hname), fun hwithin => h (hwithin.trans hfile)⟩
  · rintro ⟨hname, hfile⟩
    refine crlf_not_infix_append (crlf_not_infix_append (crlf_not_infix_append (crlf_not_infix_append
      (crlf_not_infix_append (by decide +kernel) hname (.inl (by decide +kernel))) hquote (.inr (by decide)))
      (by decide +kernel) (.inr (by decide +kernel))) hfile (.inl ?_)) hquote (.inr (by decide))
    rw [List.getLast?_append]
    simp [show fileStart.getLast? = some 34 by decide +kernel]

private theorem crlf_not_infix_type (contentType : List UInt8) :
    ¬crlf <:+: typeStart ++ contentType ↔ ¬crlf <:+: contentType :=
  ⟨fun h hwithin => h (hwithin.trans (List.suffix_append _ _).isInfix),
    fun h => crlf_not_infix_append (by decide +kernel) h (.inl (by decide +kernel))⟩

/-- A part is read as a file exactly where it is the file's part and the file's names are plain. -/
theorem readFile_eq_some_iff {part : List UInt8} {r : ReadFile} : readFile part = some r ↔ part = r.part ∧ r.Plain := by
  constructor
  · intro h
    obtain ⟨raw, hraw, hread⟩ := Option.bind_eq_some_iff.1 h
    obtain ⟨⟨block, content⟩, hlines, rfl⟩ := Option.map_eq_some_iff.1 hraw
    obtain ⟨hpart, hblock⟩ := eq_of_lines (List.cons_ne_nil _ _) hlines
    dsimp only at hread
    split at hread
    · obtain ⟨⟨name, file⟩, hdisposition, htype⟩ := Option.bind_eq_some_iff.1 hread
      obtain ⟨contentType, hcontentType, hfile⟩ := Option.bind_eq_some_iff.1 htype
      obtain rfl := Option.some.inj hfile
      obtain ⟨rfl, hname, hfileName⟩ := readDisposition_eq_some.1 hdisposition
      obtain rfl := stripStart_eq_some.1 hcontentType
      have hdispositionLine := (crlf_not_infix_disposition ⟨name, file, contentType, content⟩).1 (hblock _ List.mem_cons_self).2
      have htypeLine := (crlf_not_infix_type contentType).1 (hblock _ (List.mem_cons_of_mem _ List.mem_cons_self)).2
      exact ⟨hpart, ⟨⟨hname, hdispositionLine.1⟩, ⟨hfileName, hdispositionLine.2⟩, htypeLine⟩⟩
    · exact nomatch hread
  · rintro ⟨rfl, hplain⟩
    have hlines : lines crlf r.part = some ([r.disposition, typeStart ++ r.contentType], r.contents) := by
      refine lines_append (by decide) ?_ r.contents
      refine List.forall_mem_cons.2 ⟨⟨?_, ?_⟩, List.forall_mem_singleton.2 ⟨?_, ?_⟩⟩
      · simp [ReadFile.disposition, quote]
      · exact (crlf_not_infix_disposition r).2 ⟨hplain.partName.2, hplain.file.2⟩
      · exact List.append_ne_nil_of_left_ne_nil (by decide +kernel) _
      · exact (crlf_not_infix_type _).2 hplain.contentType
    have hdisposition : readDisposition r.disposition = some (r.partName, r.file) :=
      readDisposition_eq_some.2 ⟨rfl, hplain.partName.1, hplain.file.1⟩
    rw [readFile, rawPart, hlines]
    simp only [Option.map_some, Option.bind_eq_bind, Option.bind_some, hdisposition, stripStart_eq_some.2 rfl]

/-- The files a body holds. -/
def readFiles (boundary body : List UInt8) : Option (List (Option ReadFile)) :=
  (bodyParts boundary body).map (List.map readFile)

theorem map_readFile_iff {parts : List (List UInt8)} {files : List ReadFile} :
    parts.map readFile = files.map some ↔ parts = files.map ReadFile.part ∧ ∀ r ∈ files, r.Plain := by
  induction parts generalizing files with
  | nil => cases files <;> simp
  | cons part rest ih =>
    cases files with
    | nil => simp
    | cons r others =>
      rw [List.map_cons, List.map_cons, List.cons.injEq, readFile_eq_some_iff, ih, List.map_cons, List.cons.injEq,
        List.forall_mem_cons]
      tauto

/-- Files written one after another are read as they were exactly where their names are plain and none has the delimiter
in its part. -/
theorem readFiles_written_iff {boundary : List UInt8} (hboundary : 13 ∉ boundary) {files : List ReadFile} :
    readFiles boundary (written boundary (files.map ReadFile.part)) = some (files.map some) ↔
      ∀ r ∈ files, r.Plain ∧ ¬delimiter boundary <:+: r.part := by
  have hparts := @bodyParts_written_iff boundary (files.map ReadFile.part) hboundary
  rw [List.forall_mem_map] at hparts
  rw [readFiles, Option.map_eq_some_iff]
  constructor
  · rintro ⟨parts, hbody, hread⟩
    obtain ⟨rfl, hplain⟩ := map_readFile_iff.1 hread
    exact fun r hr => ⟨hplain r hr, hparts.1 hbody r hr⟩
  · intro h
    exact ⟨_, hparts.2 fun r hr => (h r hr).2, map_readFile_iff.2 ⟨rfl, fun r hr => (h r hr).1⟩⟩

private theorem first_line (boundary : List UInt8) (r : ReadFile) (rest : List ReadFile) :
    dashes ++ boundary ++ crlf <+: spread boundary ((r :: rest).map ReadFile.part) ++ dashes ++ boundary := by
  rw [List.map_cons, spread, List.flatMap_cons]
  simp only [List.append_assoc]
  exact ⟨_, by simp only [List.append_assoc]; rfl⟩

/-- A body of files begins with the boundary they are read at. -/
theorem line_of_readFiles {boundary body : List UInt8} {r : ReadFile} {rest : List ReadFile}
    (h : readFiles boundary body = some ((r :: rest).map some)) : dashes ++ boundary ++ crlf <+: body := by
  obtain ⟨parts, hparts, hread⟩ := Option.map_eq_some_iff.1 h
  obtain ⟨rfl, -⟩ := map_readFile_iff.1 hread
  exact (first_line boundary r rest).trans (spread_of_bodyParts hparts)

/-! The body the steps write. -/

def readingOf (file : MultipartFile) : ReadFile :=
  ⟨Utf8.bytes file.partName, Utf8.bytes ((fileName file.file).getD file.file), Utf8.bytes file.contentType, file.contents⟩

theorem filePart_eq (file : MultipartFile) : filePart file = (readingOf file).part ++ crlf := by
  have hfile : Utf8.bytes "\"; filename=\"" = quote ++ fileStart := by decide +kernel
  have htype : Utf8.bytes "\"\r\nContent-Type: " = quote ++ crlf ++ typeStart := by decide +kernel
  have hend : Utf8.bytes "\r\n\r\n" = crlf ++ crlf := by decide +kernel
  have hline : Utf8.bytes "\r\n" = crlf := by decide +kernel
  simp only [filePart, Utf8.bytes_append, hfile, htype, hend, hline, ReadFile.part, ReadFile.disposition, readingOf,
    nameStart, List.flatMap_cons, List.flatMap_nil, List.append_nil, List.append_assoc]

theorem opening_eq (boundary : String) : opening boundary = dashes ++ Utf8.bytes boundary ++ crlf := by
  rw [opening, Utf8.bytes_append, Utf8.bytes_append]
  rfl

theorem ending_eq (boundary : String) : ending boundary = dashes ++ Utf8.bytes boundary ++ dashes ++ crlf := by
  have hend : Utf8.bytes "--\r\n" = dashes ++ crlf := by decide +kernel
  rw [ending, Utf8.bytes_append, Utf8.bytes_append, hend, List.append_assoc, List.append_assoc, List.append_assoc]
  rfl

/-- The files of a body, before its end. -/
def partsText (boundary : String) (files : List MultipartFile) : List UInt8 :=
  files.flatMap fun file => opening boundary ++ filePart file

theorem written_readings (boundary : String) (files : List MultipartFile) :
    written (Utf8.bytes boundary) (files.map fun file => (readingOf file).part) =
      partsText boundary files ++ ending boundary := by
  simp only [written, partsText, List.flatMap_map, ending_eq, opening_eq, filePart_eq, List.append_assoc]

variable {R G C : Type} (ffi : Ffi R G C)

/-- The value of the content type's header. -/
def contentTypeOf (http : HttpPart R G C) : Option String :=
  (http.headers.bind fun headers => headers.get contentTypeHeader).bind fun values => values.1.head?

/-- The files of a part's body, cut at the boundary its content type names, are those given. -/
def Kept (named : String → Option String) (http : HttpPart R G C) (files : List MultipartFile) : Prop :=
  ∃ value boundary bytes contentType, contentTypeOf http = some value ∧ named value = some boundary ∧
    http.body = .present bytes contentType ∧
    readFiles (Utf8.bytes boundary) bytes = some (files.map fun file => some (readingOf file))

/-- A boundary as a content type's parameter. -/
def headerOf (boundary : String) : String := "multipart/form-data; boundary=" ++ boundary

/-- The boundary is the one its header names, the names of every file are plain, and no part has the delimiter. -/
def Safe (named : String → Option String) (boundary : String) (files : List MultipartFile) : Prop :=
  named (headerOf boundary) = some boundary ∧
    ∀ file ∈ files, (readingOf file).Plain ∧ ¬delimiter (Utf8.bytes boundary) <:+: (readingOf file).part

theorem mem_header {b : UInt8} {boundary : String} (h : b ∈ Utf8.bytes boundary) :
    b ∈ Utf8.bytes (headerOf boundary) := by
  have hsplit : Utf8.bytes (headerOf boundary) = Utf8.bytes "multipart/form-data; boundary=" ++ Utf8.bytes boundary :=
    Utf8.bytes_append _ _
  rw [hsplit, List.mem_append]
  exact .inr h

theorem kept_iff {named : String → Option String}
    (hnamed : ∀ value boundary, named value = some boundary → 13 ∉ Utf8.bytes value ∧ 13 ∉ Utf8.bytes boundary)
    {http : HttpPart R G C} {boundary : String} {first : MultipartFile} {rest : List MultipartFile} {contentType : Option C}
    (hheader : contentTypeOf http = some (headerOf boundary))
    (hbody : http.body = .present (partsText boundary (first :: rest) ++ ending boundary) contentType) :
    Kept named http (first :: rest) ↔ Safe named boundary (first :: rest) := by
  rw [← written_readings] at hbody
  have hmap : (first :: rest).map (fun file => (readingOf file).part) =
      ((first :: rest).map readingOf).map ReadFile.part := by rw [List.map_map]; rfl
  have hfiles : (first :: rest).map (fun file => some (readingOf file)) = ((first :: rest).map readingOf).map some := by
    rw [List.map_map]; rfl
  rw [hmap] at hbody
  have hread := fun h : 13 ∉ Utf8.bytes boundary => @readFiles_written_iff _ h ((first :: rest).map readingOf)
  simp only [List.forall_mem_map] at hread
  unfold Kept Safe
  rw [hfiles]
  constructor
  · rintro ⟨value, other, bytes, _, hvalue, hother, hpresent, hfilesRead⟩
    have hsent : value = headerOf boundary := Option.some.inj (hvalue.symm.trans hheader)
    subst hsent
    obtain ⟨rfl, -⟩ := OptionalBody.present.inj (hbody.symm.trans hpresent)
    obtain ⟨hplainHeader, hplainOther⟩ := hnamed _ _ hother
    have hplain : 13 ∉ Utf8.bytes boundary := fun hmem => hplainHeader (mem_header hmem)
    have hsame : Utf8.bytes boundary = Utf8.bytes other :=
      boundary_unique hplain hplainOther ((first_line _ _ _).trans (spread_written _ _)) (line_of_readFiles hfilesRead)
    have hboundary : boundary = other := by rw [← Utf8.lossy_bytes boundary, hsame, Utf8.lossy_bytes]
    subst hboundary
    exact ⟨hother, (hread hplain).1 hfilesRead⟩
  · rintro ⟨hother, hall⟩
    exact ⟨_, boundary, _, contentType, hheader, hother, hbody, (hread (hnamed _ _ hother).2).2 hall⟩

end PactJanus.Legacy.MultipartFiles
