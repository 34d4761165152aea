import PactJanus.Http.Message
import PactJanus.Lib.Fallible

namespace PactJanus.Http.Replay

open PactJanus.Data.Json PactJanus.Lib PactJanus.Lib.Text PactJanus.Lib.Multimap PactJanus.Contracts.Model
open PactJanus.Http.Message

/-! A recorded request, sent and recorded again. -/

variable (libraries : Libraries) (drive : DriveInstance) (request : Request)

/-! Letters of the two cases. -/

private theorem toUpper_eq {c : Char} (h : c.isLower = false) : c.toUpper = c := by
  delta Char.toUpper
  delta Char.isLower at h
  rw [dif_neg]
  simpa using h

private theorem toUpper_lower {c : Char} (h : c.isLower = true) : c.toUpper ≠ c ∧ c.toUpper.isUpper = true := by
  have hrange : 97 ≤ c.toNat ∧ c.toNat ≤ 122 := by
    delta Char.isLower at h
    simpa [UInt32.le_iff_toNat_le, ← Char.toNat_val] using h
  have hletters : ∀ n < 123, 97 ≤ n →
      (Char.ofNat n).toUpper ≠ Char.ofNat n ∧ (Char.ofNat n).toUpper.isUpper = true := by decide +kernel
  have hletter := hletters c.toNat (by omega) hrange.1
  rwa [Char.ofNat_toNat] at hletter

private theorem isTokenChar_toUpper {c : Char} (h : isTokenChar c = true) : isTokenChar c.toUpper = true := by
  cases hlower : c.isLower with
  | false => rwa [toUpper_eq hlower]
  | true =>
    have hupper := (toUpper_lower hlower).2
    delta isTokenChar Char.isAlphanum Char.isAlpha
    simp [hupper]

private theorem toAsciiUppercase_eq_iff (s : String) : toAsciiUppercase s = s ↔ ∀ c ∈ s.toList, c.isLower = false := by
  have hmap : s.toList.map Char.toUpper = s.toList ↔ ∀ c ∈ s.toList, c.toUpper = c := by
    conv_lhs => rhs; rw [← List.map_id s.toList]
    exact List.map_inj_left
  rw [toAsciiUppercase, ← String.toList_inj, String.toList_ofList, hmap]
  refine forall₂_congr fun c _ => ⟨fun heq => ?_, toUpper_eq⟩
  cases hlower : c.isLower with
  | false => rfl
  | true => exact absurd heq (toUpper_lower hlower).1

private theorem methodFromBytes_upper (method : Method) :
    ∃ sent : Method, sent.1 = toAsciiUppercase method.1 ∧ methodFromBytes (toAsciiUppercase method.1) = some sent := by
  have hvalid : toAsciiUppercase method.1 ≠ "" ∧ (toAsciiUppercase method.1).toList.all isTokenChar = true := by
    refine ⟨fun hempty => method.2.1 ?_, ?_⟩
    · rw [toAsciiUppercase, ← String.toList_inj, String.toList_ofList] at hempty
      exact String.toList_inj.1 (List.map_eq_nil_iff.1 hempty)
    · rw [toAsciiUppercase, String.toList_ofList, List.all_map, List.all_eq_true]
      exact fun c hc => isTokenChar_toUpper (List.all_eq_true.1 method.2.2 c hc)
  exact ⟨⟨_, hvalid⟩, rfl, dif_pos hvalid⟩

/-! What the names and the values of recorded headers are sent as. -/

private theorem toAsciiLowercase_name (name : HeaderName) : toAsciiLowercase name.1 = name.1 := by
  rw [toAsciiLowercase, List.map_congr_left (g := id), List.map_id, String.ofList_toList]
  intro c hc
  have hnot := (Bool.and_eq_true_iff.1 (List.all_eq_true.1 name.valid.2.2 c hc)).2
  exact toLower_eq (by simpa using hnot)

private theorem headerNameFromBytes_name (name : HeaderName) : headerNameFromBytes name.1 = some name := by
  rw [headerNameFromBytes]
  simp only [toAsciiLowercase_name]
  exact dif_pos name.valid

private theorem headerValueFromBytes_lossy (value : HeaderValue) :
    ∃ sent : HeaderValue, sent.1 = Utf8.bytes (Utf8.lossy value.1) ∧
      headerValueFromBytes (Utf8.bytes (Utf8.lossy value.1)) = some sent := by
  have hvalid : (Utf8.bytes (Utf8.lossy value.1)).all isValueOctet = true := by
    refine List.all_eq_true.2 fun b hb => ?_
    rcases Utf8.mem_bytes_lossy hb with hmem | hmem
    · exact List.all_eq_true.1 value.2 b hmem
    · exact List.all_eq_true.1 (by decide +kernel : (String.utf8EncodeChar '\uFFFD').all isValueOctet = true) b hmem
  exact ⟨⟨_, hvalid⟩, rfl, dif_pos hvalid⟩

/-- The headers by name, as they are recorded. -/
private theorem foldCase_texts (headers : HeaderMap) :
    (headers.texts.map fun (name, value) => (toAsciiLowercase name, value)) = headers.texts := by
  rw [HeaderMap.texts, List.map_map]
  refine List.map_congr_left fun p _ => ?_
  change (toAsciiLowercase p.1.1, _) = (p.1.1, _)
  rw [toAsciiLowercase_name]

private theorem strings_array (values : List String) : strings (.array (values.map .string)) = values := by
  rw [strings, asArray, Option.getD_some, List.filterMap_map]
  exact List.filterMap_some

private theorem text_injective : Function.Injective HeaderName.text := fun _ _ h => HeaderName.ext h

private theorem valuesOf_iter (headers : HeaderMap) (name : HeaderName) :
    valuesOf name headers.iter = (headers.entries.lookup name).getD [] := valuesOf_pairsOf headers.nodup name

private theorem get_texts (headers : HeaderMap) (name : HeaderName) :
    (headers.get name).map (fun value => Utf8.lossy value.1) = (valuesOf name.1 headers.texts).head? := by
  have hvalues : valuesOf name.1 headers.texts = (valuesOf name headers.iter).map fun value => Utf8.lossy value.1 :=
    valuesOf_map text_injective (fun value : HeaderValue => Utf8.lossy value.1) headers.iter name
  rw [hvalues, List.head?_map, valuesOf_iter, HeaderMap.get]
  cases headers.entries.lookup name <;> rfl

private theorem entries_foldl_append (pairs : List (HeaderName × HeaderValue)) (headers : HeaderMap) :
    (pairs.foldl (fun headers p => headers.append p.1 p.2) headers).entries =
      pairs.foldl (fun entries p => Multimap.append p.1 p.2 entries) headers.entries := by
  induction pairs generalizing headers with
  | nil => rfl
  | cons p rest ih => exact ih _

/-- What a list of headers is built into, from nothing. -/
private theorem valuesOf_texts_foldl (pairs : List (HeaderName × HeaderValue)) (k : String) :
    valuesOf k (pairs.foldl (fun headers p => headers.append p.1 p.2) HeaderMap.empty).texts =
      valuesOf k (pairs.map fun p => (p.1.1, Utf8.lossy p.2.1)) := by
  refine valuesOf_map_congr text_injective (fun value : HeaderValue => Utf8.lossy value.1) (fun name => ?_) k
  rw [HeaderMap.iter, entries_foldl_append, valuesOf_foldl_append pairs HeaderMap.empty.nodup]
  rfl

private theorem sentValues_eq (name : String) (header : HeaderName) {values : List String} (headers : HeaderMap)
    (hvalues : ∀ v ∈ values, ∃ value : HeaderValue, v = Utf8.lossy value.1) :
    ∃ pairs : List (HeaderName × HeaderValue),
      (pairs.map fun p => (p.1.1, Utf8.lossy p.2.1)) = values.map (fun v => (header.1, v)) ∧
        sentValues name header values headers =
          .ok (pairs.foldl (fun headers p => HeaderMap.append headers p.1 p.2) headers) := by
  induction values generalizing headers with
  | nil => exact ⟨[], rfl, rfl⟩
  | cons v rest ih =>
    obtain ⟨hv, hrest⟩ := List.forall_mem_cons.1 hvalues
    obtain ⟨value, rfl⟩ := hv
    obtain ⟨sent, hsent, hread⟩ := headerValueFromBytes_lossy value
    obtain ⟨pairs, hpairs, hok⟩ := ih (headers.append header sent) hrest
    refine ⟨(header, sent) :: pairs, ?_, ?_⟩
    · rw [List.map_cons, List.map_cons, hpairs, hsent, Utf8.lossy_bytes]
    · rw [sentValues, List.foldlM_cons, hread]
      exact hok

private theorem sentHeaders_eq {map : List (String × List String)} (headers : HeaderMap)
    (h : ∀ p ∈ map, (∃ name : HeaderName, p.1 = name.1) ∧ ∀ v ∈ p.2, ∃ value : HeaderValue, v = Utf8.lossy value.1) :
    ∃ pairs : List (HeaderName × HeaderValue),
      (pairs.map fun p => (p.1.1, Utf8.lossy p.2.1)) = pairsOf map ∧
        (map.map fun (name, values) => (name, Json.array (values.map .string))).foldlM sentHeader headers =
          .ok (pairs.foldl (fun headers p => headers.append p.1 p.2) headers) := by
  induction map generalizing headers with
  | nil => exact ⟨[], rfl, rfl⟩
  | cons entry rest ih =>
    obtain ⟨key, values⟩ := entry
    obtain ⟨⟨⟨name, hname⟩, hvalues⟩, hrest⟩ := List.forall_mem_cons.1 h
    subst hname
    obtain ⟨first, hfirst, hok⟩ := sentValues_eq name.1 name headers hvalues
    obtain ⟨others, hothers, hokRest⟩ := ih (first.foldl (fun headers p => headers.append p.1 p.2) headers) hrest
    refine ⟨first ++ others, ?_, ?_⟩
    · rw [List.map_append, hfirst, hothers]
      rfl
    · rw [List.map_cons, List.foldlM_cons, sentHeader, headerNameFromBytes_name]
      simp only [strings_array, hok]
      rw [List.foldl_append]
      exact hokRest

/-- The headers a recording is sent with are recorded as they were. -/
private theorem sentHeaders_recorded (headers : HeaderMap) :
    ∃ sent : HeaderMap,
      sentHeaders ((grouped headers.texts).map fun (name, values) => (name, .array (values.map .string))) = .ok sent ∧
        ∀ k, valuesOf k sent.texts = valuesOf k headers.texts := by
  have hentries : ∀ p ∈ grouped headers.texts,
      (∃ name : HeaderName, p.1 = name.1) ∧ ∀ v ∈ p.2, ∃ value : HeaderValue, v = Utf8.lossy value.1 := by
    intro p hp
    obtain ⟨hne, hmem⟩ := of_mem_grouped hp
    have hpair : ∀ v ∈ p.2, ∃ q ∈ headers.iter, (q.1.1, Utf8.lossy q.2.1) = (p.1, v) := fun v hv =>
      List.mem_map.1 (hmem v hv)
    obtain ⟨v, hv⟩ := List.exists_mem_of_ne_nil _ hne
    obtain ⟨q, -, hq⟩ := hpair v hv
    refine ⟨⟨q.1, (congrArg Prod.fst hq).symm⟩, fun w hw => ?_⟩
    obtain ⟨r, -, hr⟩ := hpair w hw
    exact ⟨r.2, (congrArg Prod.snd hr).symm⟩
  obtain ⟨pairs, hpairs, hok⟩ := sentHeaders_eq HeaderMap.empty hentries
  refine ⟨_, hok, fun k => ?_⟩
  rw [valuesOf_texts_foldl, hpairs, valuesOf_pairsOf_grouped]

/-! The request that is sent, and its part. -/

/-- The query of a request as it is recorded. -/
def recordedQuery : List (String × String) := pairsOf (grouped (libraries.formParse (request.uri.query.getD "")))

/-- The URL a recording is sent to. -/
def sentUrl : String := url drive.baseUrl request.uri.path (libraries.formSerialize (recordedQuery libraries request))

private theorem queryString_recorded :
    queryString libraries (multiMapSlot (libraries.formParse (request.uri.query.getD "")) .asSent) =
      libraries.formSerialize (recordedQuery libraries request) := by
  rw [queryString, multiMapSlot]
  simp only [List.flatMap_map, strings_array]
  rfl

private theorem withContentType_recorded {headers sent : HeaderMap}
    (h : ∀ k, valuesOf k sent.texts = valuesOf k headers.texts) :
    withContentType ((headers.get contentType).map fun value => Utf8.lossy value.1) sent = sent := by
  have hget : (sent.get contentType).map (fun value => Utf8.lossy value.1) =
      (headers.get contentType).map fun value => Utf8.lossy value.1 := by rw [get_texts, get_texts, h]
  unfold withContentType
  split
  · rename_i value hvalue
    obtain ⟨text, htext, -⟩ := Option.bind_eq_some_iff.1 hvalue
    rw [if_pos]
    rw [← Option.isSome_map, hget, htext, Option.isSome_some]
  · rfl

/-- The request a recording is sent as. -/
private theorem request_recorded (hheaders : drive.headers.entries = []) :
    ∃ (method : Method) (headers : HeaderMap), method.1 = toAsciiUppercase request.method.1 ∧
      (∀ k, valuesOf k headers.texts = valuesOf k request.headers.texts) ∧
      drive.request libraries (requestParts libraries request) =
        ((libraries.uri (sentUrl libraries drive request)).mapError ("the request's URL " ++ ·)).map fun uri =>
          ⟨method, uri, headers, request.body⟩ := by
  obtain ⟨method, hmethod, hread⟩ := methodFromBytes_upper request.method
  obtain ⟨headers, hsent, hvalues⟩ := sentHeaders_recorded request.headers
  refine ⟨method, headers, hmethod, hvalues, ?_⟩
  have hslot : multiMapSlot request.headers.texts .foldCase =
      ⟨.object ((grouped request.headers.texts).map fun (name, values) => (name, .array (values.map .string))), none,
        none⟩ := by
    rw [multiMapSlot]
    simp only [foldCase_texts]
  have hmethodSent : sentMethod (requestParts libraries request) = .ok method := by
    rw [sentMethod]
    change (methodFromBytes (toAsciiUppercase request.method.1)).elim _ _ = _
    rw [hread]
    rfl
  have huri : sentUri libraries drive (requestParts libraries request) =
      (libraries.uri (sentUrl libraries drive request)).mapError ("the request's URL " ++ ·) := by
    rw [sentUrl, ← queryString_recorded]
    rfl
  have hheadersSent : sentHeaders ((((requestParts libraries request).lookup "headers").bind fun slot =>
      asObject slot.content).getD []) = .ok headers := by
    rw [← hsent]
    change sentHeaders ((asObject (multiMapSlot request.headers.texts .foldCase).content).getD []) = _
    rw [hslot]
    rfl
  have hbody : (((requestParts libraries request).lookup "body").map slotBytes).getD (.ok []) = .ok request.body := by
    change ((Base64.decode (Base64.encode request.body)).elim (.error "invalid base64") .ok : Except String _) = _
    rw [Base64.decode_encode]
    rfl
  have hcontentType :
      withContentType (((requestParts libraries request).lookup "body").bind SlotValue.contentType) headers = headers :=
    withContentType_recorded hvalues
  have hiter : drive.headers.iter = [] := by
    rw [HeaderMap.iter, hheaders]
    rfl
  rw [DriveInstance.request, hmethodSent, huri]
  dsimp only
  rw [hheadersSent, hbody, hiter]
  cases libraries.uri (sentUrl libraries drive request) with
  | error e => rfl
  | ok uri =>
    change Except.ok (Request.mk method uri (withContentType _ headers) request.body) = Except.ok _
    rw [hcontentType]

/-- Two requests with one body, one query and the same headers by name are recorded alike where their methods and their
paths are the same. -/
private theorem requestParts_eq_iff {a b : Request} (hbody : a.body = b.body)
    (hheaders : ∀ k, valuesOf k a.headers.texts = valuesOf k b.headers.texts)
    (hquery : grouped (libraries.formParse (a.uri.query.getD "")) =
      grouped (libraries.formParse (b.uri.query.getD ""))) :
    requestParts libraries a = requestParts libraries b ↔ a.method.1 = b.method.1 ∧ a.uri.path = b.uri.path := by
  have hcontentType : (a.headers.get contentType).map (fun value => Utf8.lossy value.1) =
      (b.headers.get contentType).map fun value => Utf8.lossy value.1 := by rw [get_texts, get_texts, hheaders]
  have hheadersSlot : multiMapSlot a.headers.texts .foldCase = multiMapSlot b.headers.texts .foldCase := by
    simp only [multiMapSlot, foldCase_texts, grouped_congr hheaders]
  have hquerySlot : multiMapSlot (libraries.formParse (a.uri.query.getD "")) .asSent =
      multiMapSlot (libraries.formParse (b.uri.query.getD "")) .asSent := by
    simp only [multiMapSlot, hquery]
  simp [requestParts, textSlot, hbody, hcontentType, hheadersSlot, hquerySlot]

/-- A recorded request is recorded again as it was exactly where its method has no small letter and the URL it is sent
to is read with the path it has. -/
theorem replays_iff (hheaders : drive.headers.entries = [])
    (hform : libraries.formParse (libraries.formSerialize (recordedQuery libraries request)) =
      recordedQuery libraries request)
    (hquery : ∀ uri, libraries.uri (sentUrl libraries drive request) = .ok uri →
      uri.query.getD "" = libraries.formSerialize (recordedQuery libraries request)) :
    (drive.request libraries (requestParts libraries request)).map (requestParts libraries) =
        .ok (requestParts libraries request) ↔
      (∀ c ∈ request.method.1.toList, c.isLower = false) ∧
        (libraries.uri (sentUrl libraries drive request)).map Uri.path = .ok request.uri.path := by
  obtain ⟨method, headers, hmethod, hvalues, hrequest⟩ := request_recorded libraries drive request hheaders
  rw [hrequest]
  cases huri : libraries.uri (sentUrl libraries drive request) with
  | error e => simp [Except.map, Except.mapError]
  | ok uri =>
    have hgrouped : grouped (libraries.formParse (uri.query.getD "")) =
        grouped (libraries.formParse (request.uri.query.getD "")) := by
      rw [hquery uri huri, hform, recordedQuery, grouped_pairsOf_grouped]
    have hparts := requestParts_eq_iff libraries (a := ⟨method, uri, headers, request.body⟩) (b := request) rfl hvalues
      hgrouped
    simp only [Except.mapError, Except.map, Except.ok.injEq]
    rw [hparts, hmethod, toAsciiUppercase_eq_iff]

/-- Libraries that read the URLs and the queries of the requests below. -/
private def plain : Libraries where
  formParse query := if query = "a=1" then [("a", "1")] else []
  formSerialize pairs := if pairs = [("a", "1")] then "a=1" else ""
  uri text :=
    if text = "http://localhost/items?a=1" then .ok ⟨"/items", some "a=1"⟩
    else if text = "http://localhost/items" then .ok ⟨"/items", none⟩
    else .error "is not a URL"

private def localhost : DriveInstance := ⟨"http://localhost", HeaderMap.empty⟩

private def posted : Request where
  method := ⟨"POST", by decide +kernel⟩
  uri := ⟨"/items", some "a=1"⟩
  headers := ⟨[(contentType, [⟨[116], by decide⟩])], List.nodup_singleton _, by simp⟩
  body := [1, 2]

private theorem recordedQuery_posted : recordedQuery plain posted = [("a", "1")] := by decide +kernel

private theorem uri_posted : plain.uri (sentUrl plain localhost posted) = .ok ⟨"/items", some "a=1"⟩ := by
  have hurl : sentUrl plain localhost posted = "http://localhost/items?a=1" := by
    rw [sentUrl, recordedQuery_posted]
    decide +kernel
  rw [hurl]
  rfl

theorem replays_posted :
    (localhost.request plain (requestParts plain posted)).map (requestParts plain) =
      .ok (requestParts plain posted) := by
  have hcapitals : posted.method.1.toList.all (fun c => !c.isLower) = true := by decide +kernel
  refine (replays_iff plain localhost posted rfl ?_ ?_).2 ⟨fun c hc => ?_, ?_⟩
  · rw [recordedQuery_posted]
    decide +kernel
  · intro uri huri
    rw [uri_posted] at huri
    rw [recordedQuery_posted, ← Except.ok.inj huri]
    decide +kernel
  · simpa only [Bool.not_eq_true'] using List.all_eq_true.1 hcapitals c hc
  · rw [uri_posted]
    rfl

private def lowered : Request where
  method := ⟨"post", by decide +kernel⟩
  uri := ⟨"/items", none⟩
  headers := HeaderMap.empty
  body := []

private theorem uri_lowered : plain.uri (sentUrl plain localhost lowered) = .ok ⟨"/items", none⟩ := by
  have hurl : sentUrl plain localhost lowered = "http://localhost/items" := by decide +kernel
  rw [hurl]
  rfl

/-- A method in small letters is sent in capitals, its path, query, headers and body as they are. -/
theorem lowered_method_changes :
    plain.formParse (plain.formSerialize (recordedQuery plain lowered)) = recordedQuery plain lowered ∧
    plain.uri (sentUrl plain localhost lowered) = .ok ⟨"/items", none⟩ ∧
    (localhost.request plain (requestParts plain lowered)).map (requestParts plain) ≠
      .ok (requestParts plain lowered) := by
  refine ⟨by decide +kernel, uri_lowered, fun hsame => ?_⟩
  obtain ⟨method, headers, hmethod, -, hrequest⟩ := request_recorded plain localhost lowered rfl
  rw [hrequest, uri_lowered] at hsame
  have hparts : requestParts plain ⟨method, ⟨"/items", none⟩, headers, []⟩ = requestParts plain lowered :=
    Except.ok.inj hsame
  have hname : method.1 = "post" := by
    have hslots : some (Json.string method.1) = some (Json.string "post") :=
      congrArg (fun part : ValuePart => (part.lookup "method").map SlotValue.content) hparts
    exact Json.string.inj (Option.some.inj hslots)
  rw [hmethod] at hname
  exact absurd hname (by decide +kernel)

end PactJanus.Http.Replay
