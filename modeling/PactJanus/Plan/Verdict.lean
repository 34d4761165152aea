import PactJanus.Plan.Settles

namespace PactJanus.Plan.Verdict

open PactJanus.Data.Json PactJanus.Shape PactJanus.Shape.Model PactJanus.Shape.Valid PactJanus.Plan.Model
  PactJanus.Plan.Value PactJanus.Plan.Resolve PactJanus.Plan.Result PactJanus.Plan.Interpret PactJanus.Plan.Compile
  PactJanus.Plan.Navigation PactJanus.Plan.Outcome PactJanus.Plan.Accepts PactJanus.Plan.Good PactJanus.Plan.Positions
  PactJanus.Plan.Flow PactJanus.Plan.Leaves PactJanus.Plan.Settles

/-! The verdict of a whole plan on what was captured in the slot its shape describes. -/

/-- The interaction around a shape: its description, the part and slot the shape is for, and the variant it is. -/
structure Slot where
  description : String
  part : String
  name : String
  variantId : Option String

namespace Slot

def root (slot : Slot) : String := Path.root slot.part slot.name

/-- The plan of the interaction whose one shape is at the slot. -/
def plan (slot : Slot) (S : ShapeNode) (α : Assignment) : MatchingPlan :=
  compile ⟨slot.description, [(slot.part, [(slot.name, S)])]⟩ α slot.variantId

/-- The plan's executed tree, with `v` captured in the slot. -/
def executed (slot : Slot) (env : Env) (S : ShapeNode) (α : Assignment) (v : RuntimeValue) : Executed :=
  execute (slot.plan S α) env (resolve [("$." ++ slot.root, v)])

/-- The plan's verdict on `v`. -/
def verdict (slot : Slot) (env : Env) (S : ShapeNode) (α : Assignment) (v : RuntimeValue) : Status :=
  (outcome (slot.executed env S α v)).1

end Slot

/-- An environment with no component in it, whose libraries accept nothing. -/
def bareEnv : Env :=
  ⟨⟨fun _ _ => .ok false, fun _ => false, fun _ _ => .error "no formats", id, id⟩, none, none⟩

/-- The body of a response. -/
def bodySlot : Slot := ⟨"", "response", "body", none⟩

variable {slot : Slot} {env : Env} {S : ShapeNode} {α : Assignment} {v : RuntimeValue}

/-- A plan matches exactly what the shape it was compiled from accepts in its slot. -/
theorem matched_iff (h : wellFormed S = true) (hv : isDocument v = true) :
    slot.verdict env S α v = .matched ↔ accepts false env α S slot.root ("$." ++ slot.root) v = true := by
  have hr : Resolves ⟨env.libraries, resolve [("$." ++ slot.root, v)], env.content, env.actions, [], []⟩
      (rootCtx slot.part slot.name α).cursor v ("$." ++ slot.root) := resolves_root hv
  have hsettled := settles h false _ _ _ _ hr hv
  rw [Slot.verdict, outcome_matched, ← good_false]
  simp only [Slot.executed, Slot.plan, execute, compile, List.map_cons, List.map_nil, good_runContainer, allGood_one]
  exact hsettled

end PactJanus.Plan.Verdict
