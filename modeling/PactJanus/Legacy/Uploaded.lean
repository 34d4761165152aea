import Mathlib.Data.List.TakeWhile
import PactJanus.Legacy.MultipartFiles

namespace PactJanus.Legacy.Uploaded

open PactJanus.Data.Json PactJanus.Lib PactJanus.Lib.Delimited PactJanus.Lib.Multipart
open PactJanus.Legacy.Steps PactJanus.Legacy.Parts PactJanus.Legacy.Builder PactJanus.Legacy.MultipartFiles

/-! When every file of a multipart body is kept. -/

variable {R G C : Type} (ffi : Ffi R G C)

/-- A pact library for parts with no rules, a header set in the place of none. -/
private def plain : Ffi Unit Unit Unit where
  noRules := ()
  noGenerators := ()
  mergeRules _ _ := ()
  addGenerators _ _ := ()
  matchersFromJson _ := .ok ()
  generatorsFromJson _ := .ok ()
  addCategory _ _ := ()
  addRule _ _ _ _ := ()
  parseJson _ := none
  processObject _ _ map ledger := (.object map, ledger)
  processArray _ _ _ items ledger := (items, ledger)
  addMatchers _ _ _ _ ledger := ledger
  generateXmlBody _ _ _ := (.ok [], (), ())
  processFormUrlencodedJson text ledger := (text, ledger)
  parseContentType _ := some ()
  contentTypeFrom _ := ()
  contentTypeText _ := "multipart/form-data"
  isJson _ := false
  isXml _ := false
  isText _ := true
  isFormUrlencoded _ := false
  plainText := ()
  detectContentType _ := none
  partContentType _ := none
  messageContentType _ := none
  hasHeader headers name := headers.any fun headers => (headers.get name).isSome
  setHeader headers name values :=
    some ((headers.getD OrderedMap.empty).insert name ⟨[values.headD ""], one_le_capacity⟩)
  parseHeader _ value := ⟨[value], one_le_capacity⟩
  parsePath name := some [.root, .field name]
  toLowercase := Text.toAsciiLowercase
  keyOrder keys := ⟨keys, List.Perm.refl keys⟩

/-- Reads the boundary of the bodies below. -/
private def named (value : String) : Option String :=
  if value = "multipart/form-data; boundary=xyz" then some "xyz" else none

private theorem named_plain (value boundary : String) (h : named value = some boundary) :
    13 ∉ Utf8.bytes value ∧ 13 ∉ Utf8.bytes boundary := by
  unfold named at h
  split at h
  · rename_i hvalue
    rw [hvalue, ← Option.some.inj h]
    decide +kernel
  · exact nomatch h

private def file (name : String) (contents : List UInt8) : MultipartFile :=
  ⟨.request, "text/plain", "a.txt", contents, name, some "xyz"⟩

end PactJanus.Legacy.Uploaded
