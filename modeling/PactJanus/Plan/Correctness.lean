import PactJanus.Plan.Semantics
import PactJanus.Plan.Verdict

namespace PactJanus.Plan.Correctness

open PactJanus.Data.Json PactJanus.Shape.Model PactJanus.Shape.Valid PactJanus.Shape.Nodes PactJanus.Shape.Admits
  PactJanus.Plan.Value PactJanus.Plan.Outcome PactJanus.Plan.Accepts PactJanus.Plan.Documents PactJanus.Plan.Semantics
  PactJanus.Plan.Verdict

/-! An unpinned plan and the shape it is compiled from. -/

/-- A slot's plan matches a document exactly where its shape admits the document. -/
theorem matched_iff_admits {slot : Slot} {env : Env} {S : ShapeNode} {v : Json} (hvalid : wellFormed S = true)
    (hdescribed : Described S) (hv : distinctKeys v = true) :
    slot.verdict env S [] (fromJson v) = .matched ↔ admitsContent S (some v) = true := by
  rw [matched_iff hvalid (isDocument_fromJson v)]
  have haccepts : accepts false env [] S slot.root ("$." ++ slot.root) (ofSlot (some v)) = admitsContent S (some v) :=
    accepts_eq_admits hvalid hdescribed fun w hw => Option.some.inj hw ▸ hv
  exact Bool.eq_iff_iff.1 haccepts

/-- The plan compiled from a shape of the described operators matches exactly the documents the shape admits,
`not-empty` admitting a number or a boolean, where every octet example decodes. -/
theorem compiled_plan_matches_admitted (slot : Slot) (env : Env) (S : ShapeNode) (v : Json) (hS : WellFormed S)
    (hclass : ∀ n ∈ nodes S, isDescribed n.kind = true ∧ plainAlternatives n.kind = true)
    (hoctets : ∀ n ∈ nodes S, octetsDecode n = true) (hv : distinctKeys v = true) :
    slot.verdict env S [] (fromJson v) = .matched ↔ admitsContent S (some v) = true :=
  matched_iff_admits hS.tree (fun n hn => ⟨(hclass n hn).1, hoctets n hn⟩) hv

private def taggedItems : ShapeNode :=
  .of (.object [("id", .of (.kind .integer)), ("note", .of (.optional (.of .notEmpty))),
    ("tags", .of (.eachLike (.of (.kind .string)) 1 none))])

theorem compiled_plan_matches_admitted_tagged :
    bodySlot.verdict bareEnv taggedItems []
        (fromJson (.object [("id", .number (.posInt 42)), ("tags", .array [.string "x"])])) = .matched ↔
      admitsContent taggedItems (some (.object [("id", .number (.posInt 42)), ("tags", .array [.string "x"])])) = true :=
  compiled_plan_matches_admitted bodySlot bareEnv taggedItems _ (by decide) (by decide) (by decide) (by decide)

/-- An object whose one member is an equality to octets that do not decode. -/
private def unreadableMember : ShapeNode :=
  .of (.object [("a", ⟨some ⟨.string "!", some "base64"⟩, none, .equality⟩)])

/-- The specification admits no number under `not-empty`, and no object without the member; the plans match both. -/
theorem plan_matches_what_is_not_admitted :
    (WellFormed (.of .notEmpty) ∧ bodySlot.verdict bareEnv (.of .notEmpty) [] (fromJson (.number (.posInt 42))) = .matched ∧
      admits (.of .notEmpty) (some (.number (.posInt 42))) = false) ∧
    WellFormed unreadableMember ∧ bodySlot.verdict bareEnv unreadableMember [] (fromJson (.object [])) = .matched ∧
      admits unreadableMember (some (.object [])) = false := by
  refine ⟨⟨by decide, ?_, by decide⟩, by decide, ?_, by decide⟩
  · exact (matched_iff (by decide) rfl).2 (by decide)
  · exact (matched_iff (by decide) rfl).2 (by decide)

end PactJanus.Plan.Correctness
