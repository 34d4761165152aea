import PactJanus.Plan.Fragment

namespace PactJanus.Plan.Reading

open PactJanus.Data.Json PactJanus.Lib PactJanus.Plan.Actions PactJanus.Plan.Model PactJanus.Plan.Rendering
  PactJanus.Plan.Fragment

/-! Reading a plan document back. -/

def skewMessage : FragmentError → String
  | .skew _ message => Text.replace "the fragment" "the plan" message
  | .invalid message => Text.replace "the fragment" "the plan" message

def fromJson (document : Json) : Except String MatchingPlan :=
  match textMember "grammar" document with
  | none => .error "a plan needs a 'grammar'"
  | some grammar =>
    match readable (some grammar) with
    | .error skew => .error (skewMessage skew)
    | .ok () =>
      match get "root" document with
      | none => .error "a plan needs a 'root'"
      | some root =>
        (nodeFromJson root).map fun node =>
          ⟨grammarVersion, if grammarOf grammar = some .v0 then renameFromV0 node else node,
            textMember "variant" document⟩

private theorem current_is_readable : readable (some grammarVersion) = .ok () := by
  have hread : readableGrammarVersions.any (fun engine => readableBy engine grammarVersion) = true := by decide
  simp only [readable, hread, if_true]

private theorem current_is_not_v0 : grammarOf grammarVersion ≠ some .v0 := by decide

private theorem written_plan_reads_back (root : Node) (variant : Option String) :
    fromJson (toJson ⟨grammarVersion, root, variant⟩) = .ok ⟨grammarVersion, root, variant⟩ := by
  have hgrammar : textMember "grammar" (toJson ⟨grammarVersion, root, variant⟩) = some grammarVersion := rfl
  have hroot : get "root" (toJson ⟨grammarVersion, root, variant⟩) = some (nodeJson root) := rfl
  have hvariant : textMember "variant" (toJson ⟨grammarVersion, root, variant⟩) = variant := by
    cases variant <;> rfl
  simp only [fromJson, hgrammar, hroot, hvariant, current_is_readable, nodeFromJson_nodeJson, Except.map,
    if_neg current_is_not_v0]

/-- A plan of the current version reads back from its document, and a document of one is written back as it was. -/
theorem plan_round_trips :
    (∀ root variant,
      fromJson (toJson ⟨grammarVersion, root, variant⟩) = .ok ⟨grammarVersion, root, variant⟩) ∧
    ∀ document, (∃ root variant, toJson ⟨grammarVersion, root, variant⟩ = document) →
      (fromJson document).map toJson = .ok document := by
  refine ⟨written_plan_reads_back, ?_⟩
  rintro document ⟨root, variant, rfl⟩
  rw [written_plan_reads_back]
  rfl

end PactJanus.Plan.Reading
