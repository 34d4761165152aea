import PactJanus.Plan.Interpret

namespace PactJanus.Plan.Outcome

open PactJanus.Plan.Model PactJanus.Plan.Value PactJanus.Plan.Resolve PactJanus.Plan.Result PactJanus.Plan.Interpret

inductive Status where
  | matched | mismatched
deriving DecidableEq

/-- One reported failure, with the nearest action it came from. -/
structure Mismatch where
  path : Option String
  message : String
  action : Option String

def enclosingAction (executed : Executed) (outer : Option String) : Option String :=
  match executed with
  | .action name _ _ => some name
  | _ => outer

def ownMismatch (result : Option NodeResult) (action : Option String) : List Mismatch :=
  match result with
  | some (.error message path) => [⟨path, message, action⟩]
  | _ => []

mutual

/-- Every error of an executed tree, each with the action around it. -/
def collectMismatches : Executed → Option String → List Mismatch
  | .container _ children r, outer => ownMismatch r outer ++ collectAll children outer
  | .action name children r, _ => ownMismatch r (some name) ++ collectAll children (some name)
  | .value _ r, outer => ownMismatch r outer
  | .resolve _ r, outer => ownMismatch r outer
  | .resolveCurrent _ _ r, outer => ownMismatch r outer
  | .pipeline children r, outer => ownMismatch r outer ++ collectAll children outer
  | .splat children r, outer => ownMismatch r outer ++ collectAll children outer
  | Executed.annotation _ r, outer => ownMismatch r outer
termination_by structural executed => executed

def collectAll : List Executed → Option String → List Mismatch
  | [], _ => []
  | e :: rest, outer => collectMismatches e outer ++ collectAll rest outer
termination_by structural executed => executed

end

/-- The verdict of an executed plan with every mismatch in it. -/
def outcome (executed : Executed) : Status × List Mismatch :=
  let mismatches := collectMismatches executed none
  (if mismatches.isEmpty then .matched else .mismatched, mismatches)

/-- What a plan reaches outside the engine. -/
structure Env where
  libraries : Libraries
  content : Option ContentDetector
  actions : Option ActionApplier

def execute (plan : MatchingPlan) (env : Env) (resolver : String → RuntimeValue) : Executed :=
  run plan.root ⟨env.libraries, resolver, env.content, env.actions, [], []⟩

def isError : NodeResult → Bool
  | .error _ _ => true
  | _ => false

/-- No node of the tree is an error. -/
def clean (executed : Executed) : Prop := collectMismatches executed none = []

private theorem ownMismatch_eq_nil {result : Option NodeResult} {action : Option String} :
    ownMismatch result action = [] ↔ result.all (fun r => !isError r) = true := by
  cases result with
  | none => simp [ownMismatch]
  | some r => cases r <;> simp [ownMismatch, isError]

mutual

private theorem collect_outer : ∀ (e : Executed) (a b : Option String),
    collectMismatches e a = [] ↔ collectMismatches e b = []
  | .container _ children r, a, b => by
    simp only [collectMismatches, List.append_eq_nil_iff, ownMismatch_eq_nil, collectAll_outer children a b]
  | .action name children r, a, b => by simp only [collectMismatches]
  | .value _ r, a, b => by simp only [collectMismatches, ownMismatch_eq_nil]
  | .resolve _ r, a, b => by simp only [collectMismatches, ownMismatch_eq_nil]
  | .resolveCurrent _ _ r, a, b => by simp only [collectMismatches, ownMismatch_eq_nil]
  | .pipeline children r, a, b => by
    simp only [collectMismatches, List.append_eq_nil_iff, ownMismatch_eq_nil, collectAll_outer children a b]
  | .splat children r, a, b => by
    simp only [collectMismatches, List.append_eq_nil_iff, ownMismatch_eq_nil, collectAll_outer children a b]
  | Executed.annotation _ r, a, b => by simp only [collectMismatches, ownMismatch_eq_nil]

private theorem collectAll_outer : ∀ (es : List Executed) (a b : Option String),
    collectAll es a = [] ↔ collectAll es b = []
  | [], a, b => by simp only [collectAll]
  | e :: rest, a, b => by
    simp only [collectAll, List.append_eq_nil_iff, collect_outer e a b, collectAll_outer rest a b]

end

private theorem collectAll_eq_nil (es : List Executed) (outer : Option String) :
    collectAll es outer = [] ↔ ∀ e ∈ es, clean e := by
  induction es with
  | nil => simp [collectAll]
  | cons e rest ih =>
    simp only [collectAll, List.append_eq_nil_iff, List.forall_mem_cons, ih, clean, collect_outer e outer none]

/-- A tree is clean when its own result is no error and every tree under it is clean. -/
theorem clean_iff (e : Executed) :
    clean e ↔ (resultOf e).all (fun r => !isError r) = true ∧ ∀ child ∈ childrenOf e, clean child := by
  cases e <;>
    simp [clean, collectMismatches, ownMismatch_eq_nil, collectAll_eq_nil, resultOf, childrenOf]

theorem outcome_matched (e : Executed) : (outcome e).1 = .matched ↔ clean e := by
  simp [outcome, clean]

mutual

theorem clean_skip : ∀ node : Node, clean (skip node)
  | .container _ children => (clean_iff _).2 ⟨rfl, clean_skipAll children⟩
  | .action _ children => (clean_iff _).2 ⟨rfl, clean_skipAll children⟩
  | .value _ => (clean_iff _).2 ⟨rfl, by simp [skip, childrenOf]⟩
  | .resolve _ => (clean_iff _).2 ⟨rfl, by simp [skip, childrenOf]⟩
  | .resolveCurrent _ => (clean_iff _).2 ⟨rfl, by simp [skip, childrenOf]⟩
  | .pipeline children => (clean_iff _).2 ⟨rfl, clean_skipAll children⟩
  | .splat children => (clean_iff _).2 ⟨rfl, clean_skipAll children⟩
  | Node.annotation _ => (clean_iff _).2 ⟨rfl, by simp [skip, childrenOf]⟩

theorem clean_skipAll : ∀ nodes : List Node, ∀ e ∈ skipAll nodes, clean e
  | [], _, h => nomatch h
  | node :: rest, e, h => by
    simp only [skipAll, List.mem_cons] at h
    obtain rfl | h := h
    · exact clean_skip node
    · exact clean_skipAll rest e h

end

end PactJanus.Plan.Outcome
