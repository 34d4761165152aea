import PactJanus.Data.Json

namespace PactJanus.Subsumption.Findings

open PactJanus.Data.Json

/-! What a comparison of two shapes reports. -/

inductive Verdict where
  | yes | no | unknown
deriving DecidableEq

namespace Verdict

/-- `no` if either is; otherwise `unknown` if either is. -/
def and : Verdict → Verdict → Verdict
  | .no, _ => .no
  | _, .no => .no
  | .unknown, _ => .unknown
  | _, .unknown => .unknown
  | .yes, .yes => .yes

theorem and_eq_yes {a b : Verdict} : a.and b = .yes ↔ a = .yes ∧ b = .yes := by
  cases a <;> cases b <;> decide

theorem and_eq_no {a b : Verdict} : a.and b = .no ↔ a = .no ∨ b = .no := by
  cases a <;> cases b <;> decide

end Verdict

inductive Severity where
  | finding | review | advisory
deriving DecidableEq

/-- One side's rendering of the node compared. -/
structure Side where
  summary : String

structure Finding where
  path : String
  verdict : Verdict
  severity : Severity
  kind : String
  provider : Option Side
  consumer : Option Side
  reason : Option String
  excludedBy : List Json

namespace Finding

def new (path : String) (verdict : Verdict) (kind : String) (provider consumer : Side) (reason : String) : Finding :=
  let severity :=
    match verdict with
    | .no => Severity.finding
    | .unknown => Severity.review
    | .yes => Severity.advisory
  ⟨path, verdict, severity, kind, some provider, some consumer, some reason, []⟩

def widerValues (path : String) (provider consumer : Side) (reason : String) : Finding :=
  new path .no "wider-values" provider consumer reason

def broaderType (path : String) (provider consumer : Side) (reason : String) : Finding :=
  new path .no "broader-type" provider consumer reason

def weakerPresence (path : String) (provider consumer : Side) (reason : String) : Finding :=
  new path .no "weaker-presence" provider consumer reason

def widerCardinality (path : String) (provider consumer : Side) (reason : String) : Finding :=
  new path .no "wider-cardinality" provider consumer reason

/-- A member the consumer's shape names and the provider's does not: there is no provider node to summarise. -/
def undeclaredMember (path : String) (consumer : Side) : Finding :=
  new path .no "undeclared-member" ⟨"unconstrained: any value, or absent"⟩ consumer
    ("the provider's shape does not name this member; an unnamed member is the widest possible claim, " ++
      "not a narrow one (spec §3.2 Rule 2)")

def unreviewable (path : String) (provider consumer : Side) (reason : String) : Finding :=
  new path .unknown "unreviewable" provider consumer reason

/-- A passing node that sits over a combination the consumer's own sampler excluded. -/
def advisory (path : String) (provider consumer : Side) (reason : String) : Finding :=
  new path .yes "excluded-combination" provider consumer reason

end Finding

/-- One node's contribution: its verdict, and the findings recorded at or under it. -/
structure Out where
  verdict : Verdict
  findings : List Finding

namespace Out

def yes : Out := ⟨.yes, []⟩

def no (finding : Finding) : Out := ⟨.no, [finding]⟩

def unknown (finding : Finding) : Out := ⟨.unknown, [finding]⟩

def and (self other : Out) : Out := ⟨self.verdict.and other.verdict, self.findings ++ other.findings⟩

/-- The outcomes of a node's children, one after the other. -/
def all (outs : List Out) : Out := outs.foldl and yes

@[simp] theorem verdict_yes : yes.verdict = .yes := rfl

@[simp] theorem verdict_no (f : Finding) : (no f).verdict = .no := rfl

@[simp] theorem verdict_unknown (f : Finding) : (unknown f).verdict = .unknown := rfl

@[simp] theorem verdict_and (a b : Out) : (a.and b).verdict = a.verdict.and b.verdict := rfl

@[simp] theorem yes_and (a : Out) : yes.and a = a := by
  obtain ⟨v, fs⟩ := a
  cases v <;> rfl

private theorem foldl_verdict (outs : List Out) (first : Out) :
    (outs.foldl and first).verdict = .yes ↔ first.verdict = .yes ∧ ∀ out ∈ outs, out.verdict = .yes := by
  induction outs generalizing first with
  | nil => simp
  | cons out rest ih => simp [ih, Verdict.and_eq_yes, and_assoc]

/-- Children answer `yes` together where each does. -/
theorem all_eq_yes {outs : List Out} : (all outs).verdict = .yes ↔ ∀ out ∈ outs, out.verdict = .yes := by
  simp [all, foldl_verdict]

end Out

end PactJanus.Subsumption.Findings
