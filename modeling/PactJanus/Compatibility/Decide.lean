import Mathlib.Data.List.Sort
import Mathlib.Data.String.Basic
import Mathlib.Order.Basic
import PactJanus.Contracts.Model
import PactJanus.Subsumption.Findings

namespace PactJanus.Compatibility.Decide

open PactJanus.Data.Json PactJanus.Lib.Lists PactJanus.Contracts.Model PactJanus.Subsumption.Findings

/-! Policy: what a severity does to a run, and the gaps a team has accepted. -/

inductive Action where
  | warn | block
deriving DecidableEq

structure InteractionRef where
  description : String
  states : Option (List String)
deriving DecidableEq

/-- One accepted gap between what the provider may do and what the consumer has tested. -/
structure Exemption where
  consumer : Option String
  interaction : Option InteractionRef
  path : Option String
  reason : String
  expires : Option String
deriving DecidableEq

/-- A selector that is not set selects everything. -/
def selects (selector : Option String) (name : String) : Bool := selector.all (· == name)

/-- State lists are compared as bags. -/
def sameStates (selected declared : List String) : Bool :=
  selected.insertionSort (· ≤ ·) == declared.insertionSort (· ≤ ·)

/-- Every selector the exemption sets fits the finding. -/
def Exemption.matches (exemption : Exemption) (consumer description : String) (states : List String) (path : String) :
    Bool :=
  selects exemption.consumer consumer &&
    (exemption.interaction.all fun interaction =>
      interaction.description == description && interaction.states.all fun selected => sameStates selected states) &&
    selects exemption.path path

/-- Dates are texts whose order is theirs in time. An exemption still applies on the day it expires. -/
def Exemption.lapsed (exemption : Exemption) (asOf : Option String) : Bool :=
  match exemption.expires, asOf with
  | some expires, some asOf => decide (expires < asOf)
  | _, _ => false

structure SubsumptionPolicy where
  onFinding : Action
  onReview : Action
  exemptions : List Exemption

/-- What a severity dispatches to, none for an advisory. -/
def SubsumptionPolicy.actionFor (policy : SubsumptionPolicy) : Severity → Option Action
  | .finding => some policy.onFinding
  | .review => some policy.onReview
  | .advisory => none

/-! The compatibility decision over subsumption reports, verification summaries and a policy. -/

inductive Decision where
  | pass | warn | block
deriving DecidableEq

namespace Decision

def severity : Decision → Nat
  | pass => 0
  | warn => 1
  | block => 2

theorem severity_injective : Function.Injective severity := by
  intro a b h
  cases a <;> cases b <;> first | rfl | exact nomatch h

instance : LinearOrder Decision := LinearOrder.lift' severity severity_injective

theorem le_iff {a b : Decision} : a ≤ b ↔ a.severity ≤ b.severity := Iff.rfl

theorem pass_le (a : Decision) : pass ≤ a := Nat.zero_le _

theorem le_block (a : Decision) : a ≤ block := by cases a <;> decide

end Decision

inductive ReasonAction where
  | note | warn | block
deriving DecidableEq

def ReasonAction.decision : ReasonAction → Decision
  | .note => .pass
  | .warn => .warn
  | .block => .block

def ReasonAction.of : Action → ReasonAction
  | .warn => .warn
  | .block => .block

structure Reason where
  code : String
  action : ReasonAction
  message : String
deriving DecidableEq

structure InteractionResult where
  description : String
  states : Option (List String)
  matched : Bool
  verdict : String
  findings : List Finding

structure SubsumptionReport where
  interactions : List InteractionResult
  /-- The summary's count of the interactions a provider shape was found for. -/
  matched : Nat

/-- One pair the host asks about. -/
structure Pair where
  consumer : Party
  provider : Party
  format : Option String
  subsumption : Option SubsumptionReport

structure PolicyView where
  onFinding : Action
  onReview : Action
  exemptions : Nat

inductive VerificationStatus where
  | failed | incomplete | verified | unknown
deriving DecidableEq

/-- What the supplied summaries say about a pair. -/
structure VerificationView where
  status : VerificationStatus
  runs : Nat
  filtered : Option Bool
  variants : Option Json

/-- What a pair's report says, after policy. -/
structure SubsumptionView where
  verdict : String
  interactions : Nat
  matched : Nat
  notPublished : Nat
  findings : Nat
  reviews : Nat
  exempt : Nat
  advisories : Nat

inductive Disposition where
  | live | exempt
deriving DecidableEq

structure InteractionId where
  description : String
  states : Option (List String)
deriving DecidableEq

structure ExemptionRef where
  reason : String
  expires : Option String
deriving DecidableEq

structure FindingEntry where
  interaction : InteractionId
  disposition : Disposition
  exemption : Option ExemptionRef
  finding : Finding

inductive ExemptionStatus where
  | applied | unused | lapsed
deriving DecidableEq

structure ExemptionResult where
  status : ExemptionStatus
  matched : Nat
  exemption : Exemption

structure PairResult where
  consumer : Party
  provider : Party
  format : Option String
  decision : Decision
  verification : VerificationView
  subsumption : SubsumptionView
  reasons : List Reason
  findings : List FindingEntry
  exemptions : List ExemptionResult

structure Summary where
  pairs : Nat
  blocked : Nat
  warned : Nat
  passed : Nat
  findings : Nat
  reviews : Nat
  exempt : Nat

structure CompatibilityReport where
  format : String
  decision : Decision
  policy : PolicyView
  asOf : Option String
  pairs : List PairResult
  summary : Summary

def count (n : Nat) (one many : String) : String := if n = 1 then "1 " ++ one else n.repr ++ " " ++ many

/-! What a verification summary says about a pair. -/

/-- A member of a document, `null` where there is none. -/
def index (name : String) (v : Json) : Json := (get name v).getD .null

def holdsText (member text : String) (v : Json) : Bool := asStr (index member v) == some text

/-- The pairs a summary names, none where it names no consumers. -/
def pairsOf (summary : Json) : Option (List (String × String)) :=
  ((get "consumers" summary).bind asArray).map fun consumers =>
    (consumers.zip (((get "providers" summary).bind asArray).getD [])).filterMap fun (consumer, provider) =>
      (asStr consumer).bind fun consumer => (asStr provider).map fun provider => (consumer, provider)

def covers (summary : Json) (consumer provider : String) : Bool :=
  ((pairsOf summary).getD []).contains (consumer, provider)

def worstStatus : VerificationStatus → VerificationStatus → VerificationStatus
  | .failed, _ => .failed
  | _, .failed => .failed
  | .incomplete, _ => .incomplete
  | _, .incomplete => .incomplete
  | .verified, _ => .verified
  | _, .verified => .verified
  | .unknown, .unknown => .unknown

/-- An object's member set, in its place where it has one. -/
def setMember (name : String) (v : Json) : List (String × Json) → List (String × Json)
  | [] => [(name, v)]
  | (other, w) :: rest => if other = name then (name, v) :: rest else (other, w) :: setMember name v rest

theorem lookup_setMember {name : String} {v : Json} {members : List (String × Json)} {key : String} :
    (setMember name v members).lookup key = if key = name then some v else members.lookup key := by
  induction members with
  | nil =>
    rw [setMember, lookup_cons_ite]
  | cons member rest ih =>
    obtain ⟨other, w⟩ := member
    rw [setMember]
    split
    · rename_i hname
      rw [lookup_cons_ite, lookup_cons_ite, hname]
      split <;> rfl
    · rename_i hname
      rw [lookup_cons_ite, lookup_cons_ite, ih]
      split_ifs with hkey hother <;> first | rfl | exact absurd (hkey.symm.trans hother) hname

theorem mem_of_mem_setMember {name : String} {v : Json} {members : List (String × Json)} {p : String × Json}
    (h : p ∈ setMember name v members) : p = (name, v) ∨ p ∈ members := by
  induction members with
  | nil => exact Or.inl (List.mem_singleton.1 h)
  | cons q rest ih =>
    obtain ⟨other, w⟩ := q
    rw [setMember] at h
    split at h
    · exact (List.mem_cons.1 h).imp_right (List.mem_cons_of_mem _)
    · rcases List.mem_cons.1 h with rfl | h
      · exact Or.inr List.mem_cons_self
      · exact (ih h).imp_right (List.mem_cons_of_mem _)

theorem setMember_nodup {name : String} {v : Json} {members : List (String × Json)}
    (h : (members.map Prod.fst).Nodup) : ((setMember name v members).map Prod.fst).Nodup := by
  induction members with
  | nil => exact List.nodup_singleton name
  | cons q rest ih =>
    obtain ⟨other, w⟩ := q
    obtain ⟨hfresh, hrest⟩ := List.nodup_cons.1 h
    rw [setMember]
    split
    · rename_i hname
      exact List.nodup_cons.2 ⟨hname ▸ hfresh, hrest⟩
    · rename_i hname
      refine List.nodup_cons.2 ⟨fun hmem => ?_, ih hrest⟩
      obtain ⟨p, hp, hkey⟩ := List.mem_map.1 hmem
      rcases mem_of_mem_setMember hp with rfl | hp
      · exact hname hkey.symm
      · exact hfresh (hkey ▸ List.mem_map_of_mem hp)

def addCount (total : List (String × Json)) (member : String × Json) : List (String × Json) :=
  let sum := ((total.lookup member.1).bind asUnsigned).getD 0 + (asUnsigned member.2).getD 0
  setMember member.1 (.number (.posInt sum)) total

/-- Several entries' variant counts as one set. -/
def addedUp (entries : List Json) : Json :=
  .object ((entries.flatMap fun entry => (asObject (index "variants" entry)).getD []).foldl addCount [])

def entriesOf (summary : Json) : Option (List Json) := (get "pairs" summary).bind asArray

def isOf (consumer provider : String) (entry : Json) : Bool := holdsText "consumer" consumer entry && holdsText "provider" provider entry

def statusOfEntry (worst : VerificationStatus) (entry : Json) : VerificationStatus :=
  if holdsText "status" "failed" entry then worstStatus worst .failed
  else if holdsText "status" "incomplete" entry then worstStatus worst .incomplete
  else worst

def isTrue : Json → Bool
  | .bool b => b
  | _ => false

/-- A failure names the pair. -/
def failsPair (consumer provider : String) (failure : Json) : Bool :=
  isOf consumer provider (index "contract" (index "interaction" failure))

def aborted (summary : Json) : Bool := ((get "aborted" summary).map fun abort => !isNull abort).getD false

/-- A summary's entries for a pair, where it has entries; one from before `pairs` has none. -/
def mine (consumer provider : String) (summary : Json) : Option (List Json) :=
  (entriesOf summary).map fun entries => entries.filter (isOf consumer provider)

def standing (consumer provider : String) (summary : Json) : VerificationStatus :=
  match mine consumer provider summary with
  | some entries => entries.foldl statusOfEntry .verified
  | none =>
    if ((asArray (index "failures" summary)).getD []).any (failsPair consumer provider) then .failed
    else if aborted summary then .incomplete
    else .verified

def narrowedFor (consumer provider : String) (summary : Json) : Bool :=
  match mine consumer provider summary with
  | some entries => entries.any (holdsText "status" "filtered")
  | none => isTrue (index "filtered" summary)

/-- The counts of a pair's only run. -/
def onlyVariants (consumer provider : String) (summary : Json) : Option Json :=
  match mine consumer provider summary with
  | some entries => some (addedUp entries)
  | none => if ((pairsOf summary).getD []).length = 1 then get "variants" summary else none

/-- What one summary adds to what is known of a pair. -/
def addSummary (consumer provider : String) (view : VerificationView) (summary : Json) : VerificationView :=
  if covers summary consumer provider then
    { status := worstStatus view.status (standing consumer provider summary)
      runs := view.runs + 1
      filtered := some (view.filtered.getD false || narrowedFor consumer provider summary)
      variants := if view.runs + 1 = 1 then onlyVariants consumer provider summary else none }
  else view

def verificationFor (verifications : List Json) (consumer provider : String) : VerificationView :=
  verifications.foldl (addSummary consumer provider) ⟨.unknown, 0, none, none⟩

/-! Disposing of a report's findings. -/

/-- The first exemption in force that fits a finding a policy governs, with its place. -/
def exempting (policy : SubsumptionPolicy) (asOf : Option String) (consumer : String) (interaction : InteractionResult)
    (finding : Finding) : Option (Exemption × Nat) :=
  (policy.actionFor finding.severity).bind fun _ =>
    policy.exemptions.zipIdx.find? fun (exemption, _) => !exemption.lapsed asOf &&
      exemption.matches consumer interaction.description (interaction.states.getD []) finding.path

/-- The findings disposed of so far. -/
structure Disposed where
  findings : Nat
  reviews : Nat
  exempt : Nat
  advisories : Nat
  entries : List FindingEntry
  matched : List Nat

def idOf (interaction : InteractionResult) : InteractionId :=
  let states := interaction.states.getD []
  ⟨interaction.description, if states.isEmpty then none else some states⟩

def disposeOne (policy : SubsumptionPolicy) (asOf : Option String) (consumer : String) (interaction : InteractionResult)
    (disposed : Disposed) (finding : Finding) : Disposed :=
  match exempting policy asOf consumer interaction finding with
  | some (exemption, index) =>
    { disposed with
      matched := disposed.matched.modify index (· + 1)
      exempt := disposed.exempt + 1
      entries := disposed.entries ++
        [⟨idOf interaction, .exempt, some ⟨exemption.reason, exemption.expires⟩, finding⟩] }
  | none =>
    let entries := disposed.entries ++ [⟨idOf interaction, .live, none, finding⟩]
    match finding.severity with
    | .finding => { disposed with findings := disposed.findings + 1, entries := entries }
    | .review => { disposed with reviews := disposed.reviews + 1, entries := entries }
    | .advisory => { disposed with advisories := disposed.advisories + 1, entries := entries }

def disposeAll (policy : SubsumptionPolicy) (asOf : Option String) (consumer : String)
    (interactions : List InteractionResult) : Disposed :=
  interactions.foldl
    (fun disposed interaction => interaction.findings.foldl (disposeOne policy asOf consumer interaction) disposed)
    ⟨0, 0, 0, 0, [], List.replicate policy.exemptions.length 0⟩

def exemptionStatus (asOf : Option String) (exemption : Exemption) (matched : Nat) : ExemptionStatus :=
  if exemption.lapsed asOf then .lapsed else if matched = 0 then .unused else .applied

def worstVerdict (left right : String) : String :=
  if left = "no" ∨ right = "no" then "no" else if left = "unknown" ∨ right = "unknown" then "unknown" else left

/-- What is said of the exemptions, for those there are any of. -/
def exemptionReasons (asOf : Option String) (exemptions : List ExemptionResult) : List Reason :=
  let lapsed := exemptions.countP fun e => e.status = .lapsed
  let noExpiry := exemptions.countP fun e => e.status = .applied ∧ e.exemption.expires = none
  let unused := exemptions.countP fun e => e.status = .unused
  let unevaluated := exemptions.countP fun e => e.status = .applied ∧ e.exemption.expires ≠ none ∧ asOf = none
  (if lapsed > 0 then
    [⟨"exemption-lapsed", .warn,
      if lapsed = 1 then
        "1 exemption is past its `expires` date and silenced nothing; whatever it covered is decided again"
      else lapsed.repr ++ " exemptions are past their `expires` date and silenced nothing; whatever they covered is " ++
        "decided again"⟩]
  else []) ++
  (if noExpiry > 0 then
    [⟨"exemption-no-expiry", .note,
      if noExpiry = 1 then "1 applied exemption carries no `expires` date and will never be revisited on its own"
      else noExpiry.repr ++ " applied exemptions carry no `expires` date and will never be revisited on their own"⟩]
  else []) ++
  (if unused > 0 then
    [⟨"exemption-unused", .note,
      count unused "exemption" "exemptions" ++
        " matched nothing — either the gap closed, or the selectors never fitted it"⟩]
  else []) ++
  (if unevaluated > 0 then
    [⟨"expiry-not-evaluated", .note,
      if unevaluated = 1 then
        "1 applied exemption carries an `expires` date that was not evaluated: no date to judge against was supplied"
      else unevaluated.repr ++ " applied exemptions carry an `expires` date that was not evaluated: no date to judge " ++
        "against was supplied"⟩]
  else [])

/-- Every finding of a report disposed of, with what each exemption did. -/
def dispose (report : SubsumptionReport) (consumer : String) (policy : SubsumptionPolicy) (asOf : Option String) :
    SubsumptionView × List FindingEntry × List ExemptionResult × List Reason :=
  let disposed := disposeAll policy asOf consumer report.interactions
  let exemptions := (policy.exemptions.zip disposed.matched).map fun (exemption, matched) =>
    ExemptionResult.mk (exemptionStatus asOf exemption matched) matched exemption
  ({ verdict :=
      if report.matched = 0 then "not-checked"
      else ((report.interactions.filter fun i => i.matched).map fun i => i.verdict).foldl worstVerdict "yes"
     interactions := report.interactions.length
     matched := report.matched
     notPublished := report.interactions.countP fun i => i.verdict = "not-published"
     findings := disposed.findings
     reviews := disposed.reviews
     exempt := disposed.exempt
     advisories := disposed.advisories },
    disposed.entries, exemptions, exemptionReasons asOf exemptions)

/-! One pair's decision, and the run's. -/

def verificationReasons (verification : VerificationView) (unattributable : Nat) : List Reason :=
  (match verification.status with
  | .failed =>
    [⟨"verification-failed", .block,
      "the contract was replayed at the provider and found mismatches; no policy and no exemption makes that a pass"⟩]
  | .incomplete =>
    [⟨"verification-incomplete", .block,
      "the verification run was aborted before it finished, so what it did not reach is unknown, not passing"⟩]
  | .unknown =>
    [⟨"verification-missing", .warn,
      if unattributable = 0 then
        "no verification result was supplied for this pair; a contract nobody replayed is not a passing one"
      else if unattributable = 1 then
        "no verification result names this pair (1 supplied result names no consumers at all, and cannot be attributed)"
      else "no verification result names this pair (" ++ unattributable.repr ++ " supplied results name no consumers at " ++
        "all, and cannot be attributed)"⟩]
  | .verified => []) ++
  (if verification.filtered = some true then
    [⟨"verification-filtered", .warn, "the verification run was filtered: unreplayed variants are not passing ones"⟩]
  else [])

def subsumptionReasons (subsumption : SubsumptionView) (policy : SubsumptionPolicy) : List Reason :=
  (if subsumption.notPublished > 0 then
    [⟨"interactions-not-published", .note,
      (if subsumption.notPublished = 1 then
        "1 of " ++ count subsumption.interactions "interaction" "interactions" ++
          " has no published provider shape and was not checked"
      else subsumption.notPublished.repr ++ " of " ++ count subsumption.interactions "interaction" "interactions" ++
        " have no published provider shape and were not checked")⟩]
  else []) ++
  (if subsumption.findings > 0 then
    [⟨"subsumption-findings", .of policy.onFinding,
      count subsumption.findings "decided finding" "decided findings" ++
        ": the provider may produce responses this consumer has not tested"⟩]
  else []) ++
  (if subsumption.reviews > 0 then
    [⟨"subsumption-reviews", .of policy.onReview,
      count subsumption.reviews "comparison" "comparisons" ++
        " the checker cannot decide either way; a person has to look"⟩]
  else []) ++
  (if subsumption.exempt > 0 then
    [⟨"subsumption-exempt", .note,
      count subsumption.exempt "finding" "findings" ++ " silenced by an exemption this policy carries"⟩]
  else []) ++
  (if subsumption.advisories > 0 then
    [⟨"subsumption-advisories", .note,
      if subsumption.advisories = 1 then "1 passing field carries an exercised-coverage caveat (design 2.8 §5)"
      else subsumption.advisories.repr ++ " passing fields carry an exercised-coverage caveat (design 2.8 §5)"⟩]
  else [])

def shapeMissing : Reason :=
  ⟨"provider-shape-missing", .note,
    "the provider published no shape, so this pair gets replay-only semantics — today's behaviour, which is what " ++
      "makes the check adoptable per provider"⟩

/-- What the attached report comes to, and what is said of it. -/
def subsumptionHalf (pair : Pair) (policy : SubsumptionPolicy) (asOf : Option String) :
    SubsumptionView × List FindingEntry × List ExemptionResult × List Reason :=
  match pair.subsumption with
  | none => (⟨"not-checked", 0, 0, 0, 0, 0, 0, 0⟩, [], [], [shapeMissing])
  | some report =>
    let (subsumption, findings, exemptions, exemptionReasons) := dispose report pair.consumer.name policy asOf
    (subsumption, findings, exemptions, subsumptionReasons subsumption policy ++ exemptionReasons)

/-- The most severe of some decisions, `pass` where there are none. -/
def mostSevere (decisions : List Decision) : Decision := decisions.foldl max .pass

def decidePair (pair : Pair) (verifications : List Json) (unattributable : Nat) (policy : SubsumptionPolicy)
    (asOf : Option String) : PairResult :=
  let verification := verificationFor verifications pair.consumer.name pair.provider.name
  let (subsumption, findings, exemptions, reasons) := subsumptionHalf pair policy asOf
  let reasons := verificationReasons verification unattributable ++ reasons
  { consumer := pair.consumer
    provider := pair.provider
    format := pair.format
    decision := mostSevere (reasons.map fun reason => reason.action.decision)
    verification := verification
    subsumption := subsumption
    reasons := reasons
    findings := findings
    exemptions := exemptions }

def summarize (results : List PairResult) : Summary :=
  { pairs := results.length
    blocked := results.countP fun r => r.decision = .block
    warned := results.countP fun r => r.decision = .warn
    passed := results.countP fun r => r.decision = .pass
    findings := (results.map fun r => r.subsumption.findings).sum
    reviews := (results.map fun r => r.subsumption.reviews).sum
    exempt := (results.map fun r => r.subsumption.exempt).sum }

def decide (pairs : List Pair) (verifications : List Json) (policy : SubsumptionPolicy) (asOf : Option String) :
    CompatibilityReport :=
  let unattributable := verifications.countP fun summary => ((get "consumers" summary).bind asArray).isNone
  let results := pairs.map fun pair => decidePair pair verifications unattributable policy asOf
  { format := "janus-compatibility-report/1"
    decision := mostSevere (results.map fun r => r.decision)
    policy := ⟨policy.onFinding, policy.onReview, policy.exemptions.length⟩
    asOf := asOf
    pairs := results
    summary := summarize results }

end PactJanus.Compatibility.Decide
