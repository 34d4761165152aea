import PactJanus.Contracts.Merge

namespace PactJanus.Contracts.Files

open PactJanus.Data.Json PactJanus.Lib PactJanus.Contracts.Model PactJanus.Contracts.Merge

/-! Writing a contract file, merging into what it holds. -/

structure Problem where
  pointer : String
  message : String

def problemJson (problem : Problem) : Json :=
  .object [("pointer", .string problem.pointer), ("message", .string problem.message)]

/-- Why a document cannot be read as a contract. -/
inductive ContractError where
  | notAContract
  | versionUnsupported (format : String)
  | invalid (problems : List Problem)

/-- An error as the engine answers it. -/
structure EngineError where
  code : String
  category : String
  message : String
  details : Option (List (String × Json))

def documentInvalid (problems : List Problem) : EngineError :=
  ⟨"contract-invalid", "document", "the document is not a contract or pact this engine can read",
    some [("problems", .array (problems.map problemJson))]⟩

/-- A file that holds something other than a contract, with its path. -/
def unreadable (path : String) (err : ContractError) : EngineError :=
  let error := match err with
    | .invalid problems => documentInvalid problems
    | .notAContract => documentInvalid [⟨"", "no '$format' member: not a Janus contract"⟩]
    | .versionUnsupported format =>
      ⟨"contract-version-unsupported", "document", "contract 0 is not a Janus contract (found " ++ format ++ ")",
        some [("found", .string format), ("expected", .string formatToken)]⟩
  { error with
    message := "the file at '" ++ path ++ "' holds no contract this engine can merge into: " ++ error.message
    details := some (error.details.getD [] ++ [("path", .string path)]) }

def identityJson (interaction : Interaction) : Json :=
  .object (("description", .string interaction.description) :: optional "states" (interaction.states.map statesJson))

/-- The file cannot take the session's contract. -/
def conflicted (path : String) (conflict : Conflict) : EngineError :=
  match conflict with
  | .parties consumer provider =>
    ⟨"contract-conflict", "document",
      "the file at '" ++ path ++ "' holds the contract between '" ++ consumer ++ "' and '" ++ provider ++ "'",
      some [("path", .string path), ("consumer", .string consumer), ("provider", .string provider)]⟩
  | .interactions interactions =>
    ⟨"contract-conflict", "document",
      "the file at '" ++ path ++ "' records " ++
        (if interactions.length = 1 then "an interaction" else "interactions") ++
        " differently from this session: " ++
        String.intercalate ", " (interactions.map fun i => "'" ++ i.description ++ "'"),
      some [("path", .string path), ("interactions", listJson identityJson interactions)]⟩

inductive Mode where
  | merge | overwrite
deriving DecidableEq

def isAsciiWhitespace (byte : UInt8) : Bool := byte ∈ [0x20, 0x09, 0x0A, 0x0C, 0x0D]

def blank (existing : List UInt8) : Bool := existing.all isAsciiWhitespace

def bytesOf (s : String) : List UInt8 := s.toUTF8.toList

section Writing

/-! Reading a file's bytes as a contract is the document library's. -/

variable (read : List UInt8 → Except ContractError Contract)

/-- The bytes to write over `existing`: the contract, merged into what the file holds unless overwriting. -/
def nextBytes (path : String) (existing : List UInt8) (contract : Contract) (mode : Mode) :
    Except EngineError (List UInt8) :=
  let written : Except EngineError Contract :=
    if mode = .overwrite ∨ blank existing then .ok contract
    else
      match read existing with
      | .error err => .error (unreadable path err)
      | .ok held =>
        match merge held contract with
        | .error conflict => .error (conflicted path conflict)
        | .ok merged => .ok merged
  written.map fun contract => bytesOf (writeCanonical contract)

/-- What a file holds after an update under its lock, and what the update answers. -/
def update (existing : List UInt8) (next : List UInt8 → Except EngineError (List UInt8)) :
    List UInt8 × Except EngineError Unit :=
  match next existing with
  | .ok bytes => (bytes, .ok ())
  | .error error => (existing, .error error)

def writeTo (path : String) (contract : Contract) (mode : Mode) (existing : List UInt8) :
    List UInt8 × Except EngineError Unit :=
  update existing fun bytes => nextBytes read path bytes contract mode

theorem writeTo_of_conflict {path : String} {held contract : Contract} {existing : List UInt8} {conflict : Conflict}
    (hblank : blank existing = false) (hread : read existing = .ok held) (h : merge held contract = .error conflict) :
    writeTo read path contract .merge existing = (existing, .error (conflicted path conflict)) := by
  have hmode : ¬(Mode.merge = Mode.overwrite ∨ blank existing = true) := by simp [hblank]
  simp only [writeTo, update, nextBytes, if_neg hmode, hread, h, Except.map]

end Writing

/-- The canonical texts of a contract's interactions, in their order. -/
def records (contract : Contract) : List String := contract.interactions.map record

private theorem merged_twice {existing first second one : Contract} (hfirst : Distinct first) (hsecond : Distinct second)
    (h : (merge existing first).bind (fun held => merge held second) = .ok one) :
    SameParties existing first ∧ SameParties existing second ∧ Agree existing first ∧ Agree existing second ∧
      Agree first second ∧ one.interactions =
        KeyedUnion.joined identity (KeyedUnion.joined identity existing.interactions first.interactions)
          second.interactions := by
  cases hmerge : merge existing first with
  | error conflict =>
    rw [hmerge] at h
    exact nomatch h
  | ok held =>
    obtain ⟨hparties, hagree, rfl⟩ := (merge_ok_iff hfirst).1 hmerge
    rw [hmerge] at h
    obtain ⟨hparties', hagree', rfl⟩ := (merge_ok_iff hsecond).1 h
    obtain ⟨hsecond₁, hsecond₂⟩ := (KeyedUnion.agree_joined hagree).1 hagree'
    exact ⟨hparties, ⟨hparties.1.trans hparties'.1, hparties.2.trans hparties'.2⟩, hagree, hsecond₁, hsecond₂, rfl⟩

private theorem merged_in_turn {existing first second one : Contract} (hexisting : Distinct existing)
    (hfirst : Distinct first) (hsecond : Distinct second)
    (h : (merge existing first).bind (fun held => merge held second) = .ok one) :
    ∃ two, (merge existing second).bind (fun held => merge held first) = .ok two ∧ records two = records one := by
  obtain ⟨hparties₁, hparties₂, hagree₁, hagree₂, hagree₁₂, hone⟩ := merged_twice hfirst hsecond h
  have hheld := merge_ok hsecond hparties₂ hagree₂
  have hagree := (KeyedUnion.agree_joined hagree₂).2 ⟨hagree₁, hagree₁₂.symm⟩
  have hparties : SameParties (joinedContract existing second) first :=
    ⟨hparties₂.1.symm.trans hparties₁.1, hparties₂.2.symm.trans hparties₁.2⟩
  refine ⟨joinedContract (joinedContract existing second) first, ?_, ?_⟩
  · rw [hheld]
    exact merge_ok hfirst hparties hagree
  · rw [records, records, hone]
    exact KeyedUnion.contents_joined_comm hexisting hsecond hfirst hagree₂ hagree₁ hagree₁₂.symm

/-- Merging two writers' interactions in either order fails, or gives the same texts in the same places. -/
private theorem merge_in_either_order {existing first second : Contract} (hexisting : Distinct existing)
    (hfirst : Distinct first) (hsecond : Distinct second) :
    ((merge existing first).bind fun held => merge held second).toOption.map records =
      ((merge existing second).bind fun held => merge held first).toOption.map records := by
  cases hone : (merge existing first).bind fun held => merge held second with
  | ok one =>
    obtain ⟨two, htwo, heq⟩ := merged_in_turn hexisting hfirst hsecond hone
    rw [htwo]
    exact congrArg some heq.symm
  | error conflict =>
    cases htwo : (merge existing second).bind fun held => merge held first with
    | error _ => rfl
    | ok two =>
      obtain ⟨one, hok, -⟩ := merged_in_turn hexisting hsecond hfirst htwo
      exact nomatch hone.symm.trans hok

/-- A merge is the union of two contracts' interactions by identity, in identity order. It fails exactly for another
pair of parties or an identity recorded differently on the two sides, and then the file is left as it was. -/
theorem merge_is_union_by_identity (existing new : Contract) (hexisting : Distinct existing) (hnew : Distinct new) :
    (∀ merged, merge existing new = .ok merged →
      KeyedUnion.Ordered identity merged.interactions ∧
        (∀ k, k ∈ merged.interactions.map identity ↔
          k ∈ existing.interactions.map identity ∨ k ∈ new.interactions.map identity) ∧
        (∀ i, i ∈ existing.interactions ∨ i ∈ new.interactions →
          ∃ j ∈ merged.interactions, identity j = identity i ∧ record j = record i) ∧
        merge merged new = .ok merged) ∧
    (∀ other, Distinct other →
      ((merge existing new).bind fun held => merge held other).toOption.map records =
        ((merge existing other).bind fun held => merge held new).toOption.map records) ∧
    ((∃ conflict, merge existing new = .error conflict) ↔
      ¬SameParties existing new ∨
        ∃ i ∈ existing.interactions, ∃ j ∈ new.interactions, identity j = identity i ∧ record j ≠ record i) ∧
    ∀ conflict, merge existing new = .error conflict →
      ∀ read path file, blank file = false → read file = .ok existing →
        writeTo read path new .merge file = (file, .error (conflicted path conflict)) := by
  refine ⟨fun merged h => ?_, fun other hother => merge_in_either_order hexisting hnew hother, ?_, ?_⟩
  · obtain ⟨hparties, hagree, rfl⟩ := (merge_ok_iff hnew).1 h
    refine ⟨KeyedUnion.joined_ordered hexisting hnew, fun k => KeyedUnion.mem_keys_joined, ?_, ?_⟩
    · intro i hi
      have hheld : (∃ a ∈ existing.interactions, identity a = identity i ∧ record a = record i) ∨
          ∃ a ∈ new.interactions, identity a = identity i ∧ record a = record i :=
        hi.imp (fun hi => ⟨i, hi, rfl, rfl⟩) fun hi => ⟨i, hi, rfl, rfl⟩
      exact (KeyedUnion.content_mem_joined hagree).2 hheld
    · rw [merge_ok_iff hnew]
      refine ⟨⟨rfl, rfl⟩, KeyedUnion.agree_again hnew, ?_⟩
      have hagain := KeyedUnion.joined_again hexisting hnew
      exact congrArg (fun interactions => ({ new with interactions } : Contract)) hagain.symm
  · rw [merge_fails_iff hnew]
    refine or_congr Iff.rfl ?_
    simp only [KeyedUnion.Agree]
    push Not
    rfl
  · intro conflict h read path file hblank hread
    exact writeTo_of_conflict read hblank hread h

/-- An interaction of a status alone. -/
private def recordedStatus (description : String) (status : UInt64) : Interaction :=
  ⟨description, none, none,
    [("response", [("status", .object [("shape", .string "equality"), ("example", .number (.posInt status))])])],
    none, none, ⟨[], []⟩⟩

private def between (consumer : String) (interactions : List Interaction) : Contract :=
  ⟨formatToken, none, ⟨consumer⟩, ⟨"orders-api"⟩, interactions, none⟩

theorem merge_is_union_by_identity_orders :
    ∃ merged, merge (between "web" [recordedStatus "get" 200, recordedStatus "delete" 204])
        (between "web" [recordedStatus "put" 201, recordedStatus "get" 200]) = .ok merged ∧
      KeyedUnion.Ordered identity merged.interactions := by
  have hunion := merge_is_union_by_identity (between "web" [recordedStatus "get" 200, recordedStatus "delete" 204])
    (between "web" [recordedStatus "put" 201, recordedStatus "get" 200]) (by decide) (by decide)
  cases hmerge : merge (between "web" [recordedStatus "get" 200, recordedStatus "delete" 204])
      (between "web" [recordedStatus "put" 201, recordedStatus "get" 200]) with
  | ok merged => exact ⟨merged, rfl, (hunion.1 merged hmerge).1⟩
  | error conflict =>
    have hagree := hunion.2.2.1.1 ⟨conflict, hmerge⟩
    exact absurd hagree (by decide)

/-- A contract between other parties is no union's side, whatever its interactions. -/
theorem merge_fails_between_other_parties :
    Distinct (between "mobile" [recordedStatus "get" 200]) ∧ Distinct (between "web" [recordedStatus "put" 201]) ∧
      (∃ conflict, merge (between "mobile" [recordedStatus "get" 200]) (between "web" [recordedStatus "put" 201]) =
        .error conflict) ∧
      ¬∃ i ∈ (between "mobile" [recordedStatus "get" 200]).interactions,
        ∃ j ∈ (between "web" [recordedStatus "put" 201]).interactions, identity j = identity i ∧ record j ≠ record i := by
  refine ⟨by decide, by decide, ⟨_, merge_parties (by decide)⟩, by decide⟩

end PactJanus.Contracts.Files
