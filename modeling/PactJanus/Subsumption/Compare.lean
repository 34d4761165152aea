import PactJanus.Shape.Nodes
import PactJanus.Subsumption.Findings
import PactJanus.Subsumption.Classes
import PactJanus.Subsumption.Phrases

namespace PactJanus.Subsumption.Compare

open PactJanus.Data.Json PactJanus.Shape PactJanus.Shape.Model PactJanus.Shape.Nodes PactJanus.Plan.Result
  PactJanus.Subsumption.Findings PactJanus.Subsumption.Classes PactJanus.Subsumption.Phrases

/-! The subsumption walk: whether everything one shape admits another admits, decided node by node. -/

/-- An exclusion that the consumer's own sampler recorded, with the dimension paths it names. -/
structure RecordedExclusion where
  document : Json
  paths : List String

/-- A comparison of one pair of nodes, as the walk calls it on the pairs under another. -/
abbrev NodeWalk := ShapeNode → ShapeNode → String → Out

structure Walk where
  libraries : Libraries
  exclusions : List RecordedExclusion

namespace Walk

/-! The coverage caveat, and the identity floor. -/

def caveatsUnder (walk : Walk) (at' : String) : Bool :=
  walk.exclusions.any fun exclusion => exclusion.paths.any fun path =>
    at'.toList.length < path.toList.length && at'.toList.isPrefixOf path.toList

/-- Identity decides a pair unless there is a caveat for a node under it. -/
def floorStands (walk : Walk) (node : ShapeNode) (at' : String) : Bool := !hasChildren node || !walk.caveatsUnder at'

def caveat (walk : Walk) (out : Out) (p c : ShapeNode) (at' : String) : Out :=
  let applicable := walk.exclusions.filter fun exclusion => exclusion.paths.contains at'
  if applicable.isEmpty then out
  else
    let documents := applicable.map RecordedExclusion.document
    let findings := out.findings.map fun f => if f.path = at' then { f with excludedBy := documents } else f
    if !(out.findings.any fun f => f.path == at') && out.verdict == .yes then
      let advisory := Finding.advisory at' ⟨describe p⟩ ⟨describe c⟩
        ("admitted by the consumer's shape — reported only because an exercised-coverage caveat applies (spec §5)")
      ⟨out.verdict, findings ++ [{ advisory with excludedBy := documents }]⟩
    else ⟨out.verdict, findings⟩

/-! The exact class. -/

/-- Whether an interval of sizes lies in another. -/
def intervalWithin (pmin : UInt64) (pmax : Option UInt64) (cmin : UInt64) (cmax : Option UInt64) : Bool :=
  decide (cmin ≤ pmin) &&
    match pmax, cmax with
    | _, none => true
    | none, some _ => false
    | some p, some c => p ≤ c

def cardinality (pmin : UInt64) (pmax : Option UInt64) (cmin : UInt64) (cmax : Option UInt64) (at' unit : String) : Out :=
  if intervalWithin pmin pmax cmin cmax then .yes
  else
    let phrase := if unit = "entries" then cardinalityEntries else Phrases.cardinality
    let bound (max : Option UInt64) := (max.map fun m => m.toNat.repr).getD "unbounded"
    let reason :=
      if pmin < cmin ∧ pmin = 0 then "the empty array is admitted by the provider, not by the consumer"
      else if pmin < cmin then
        "the provider admits as few as " ++ pmin.toNat.repr ++ " " ++ unit ++ "; the consumer declared at least " ++
          cmin.toNat.repr
      else "the provider's upper bound is outside the consumer's: " ++ bound pmax ++ " vs " ++ bound cmax
    .no (.widerCardinality at' ⟨phrase pmin pmax⟩ ⟨phrase cmin cmax⟩ reason)

/-- A consumer shape that is a finite set of literals. -/
def literalSet (p c : ShapeNode) (options : List Json) (at' : String) : Out :=
  match enumerate p with
  | some values =>
    if values.all fun v => options.any fun o => valuesEqual o v then .yes
    else
      .no (.widerValues at' ⟨describe p⟩ ⟨describe c⟩
        "the provider may produce a value outside the consumer's option set")
  | none =>
    .no (.widerValues at' ⟨describe p⟩ ⟨describe c⟩
      "the provider's shape admits unboundedly many values; the consumer declared a finite set")

/-- Two unions: their alternatives are paired by the literals of their discriminators. -/
def oneOfPair (node : NodeWalk) (p c : ShapeNode) (pd : String) (ps : List (String × ShapeNode)) (cd : String)
    (cs : List (String × ShapeNode)) (at' : String) : Out :=
  if pd ≠ cd then
    .unknown (.unreviewable at' ⟨describe p⟩ ⟨describe c⟩
      ("the two unions are discriminated on different members ('" ++ pd ++ "' and '" ++ cd ++ "')"))
  else
    let byLiteral := byDiscriminator cs cd
    .all (ps.map fun alternative =>
      let literals := discriminatorLiterals alternative.2 pd
      match matchedAlternative byLiteral literals with
      | some matched => node alternative.2 matched.2 (Path.alternative at' matched.1)
      | none =>
        .no (.widerValues (Path.alternative at' alternative.1) ⟨describe alternative.2⟩ ⟨describe c⟩
          ("the provider may produce the '" ++ pd ++ "' value(s) " ++ Phrases.literals literals ++
            " , which the consumer's contract names no alternative for")))

/-- A shape against a union: the shape's own binding of the discriminator says which alternative it must be inside. -/
def insideAlternative (node : NodeWalk) (p c : ShapeNode) (discriminator : String)
    (alternatives : List (String × ShapeNode)) (at' : String) : Out :=
  match matchedAlternative (byDiscriminator alternatives discriminator) (discriminatorLiterals p discriminator) with
  | some matched => node p matched.2 (Path.alternative at' matched.1)
  | none =>
    .unknown (.unreviewable at' ⟨describe p⟩ ⟨describe c⟩
      ("the provider's shape does not bind '" ++ discriminator ++ "' to one alternative's literal, so " ++
        "which alternative it must be inside is not decidable here"))

/-- A member the consumer names: compared with the provider's, or with the widest possible claim. -/
def member (node : NodeWalk) (ps : List (String × ShapeNode)) (c : String × ShapeNode) (at' : String) : Out :=
  match ps.lookup c.1 with
  | some p => node p c.2 (Path.member at' c.1)
  | none =>
    if admitsAnythingOrAbsence c.2 then .yes
    else .no (.undeclaredMember (Path.member at' c.1) ⟨describe c.2⟩)

/-- What is left once unions, collections, emptiness and literals are decided. -/
def kinds (p c : ShapeNode) (at' : String) : Out :=
  match p.kind, c.kind with
  | .kind pk, .kind ck =>
    if kindSubset pk ck then .yes
    else
      .no (.broaderType at' ⟨describe p⟩ ⟨describe c⟩
        ("kind lattice: " ++ ck.operatorName ++ " subset of " ++ pk.operatorName ++ ", exact"))
  | .semver, .kind .string => .yes
  | .kind .string, .semver =>
    .no (.broaderType at' ⟨describe p⟩ ⟨describe c⟩
      "the provider may produce any string; the consumer tested only semantic versions")
  | _, _ =>
    .unknown (.unreviewable at' ⟨describe p⟩ ⟨describe c⟩
      ("'" ++ operator p ++ "' against '" ++ operator c ++ "': this checker decides no containment for the pair"))

/-- A provider's finite set of literals. -/
def providerLiterals (walk : Walk) (p c : ShapeNode) (options : List Json) (at' : String) : Out :=
  let decided := options.map (admitsValue walk.libraries c)
  if decided.any (· == some false) then
    .no (.widerValues at' ⟨describe p⟩ ⟨describe c⟩
      (match c.kind with
        | .anyOf others => options.length.repr ++ " options vs " ++ others.length.repr ++ "; finite sets, exact"
        | _ => "an option the consumer's shape does not admit"))
  else if decided.any (· == none) then
    .unknown (.unreviewable at' ⟨describe p⟩ ⟨describe c⟩
      ("a literal set against '" ++ operator c ++ "': membership not decidable without matching"))
  else .yes

def literals (walk : Walk) (p c : ShapeNode) (at' : String) : Out :=
  match p.kind with
  | .equality =>
    match p.example?.bind (admitsExample walk.libraries c) with
    | some true => .yes
    | some false =>
      .no (.widerValues at' ⟨describe p⟩ ⟨describe c⟩ "the provider's value is not admitted by the consumer's shape")
    | none =>
      .unknown (.unreviewable at' ⟨describe p⟩ ⟨describe c⟩
        ("a literal against '" ++ operator c ++ "': membership not decidable without matching"))
  | .anyOf options => walk.providerLiterals p c options at'
  | _ =>
    match c.kind with
    | .equality =>
      match plainExample c with
      | some v => literalSet p c [v] at'
      | none =>
        .unknown (.unreviewable at' ⟨describe p⟩ ⟨describe c⟩
          "the consumer's `equality` carries no comparable example")
    | .anyOf options => literalSet p c options at'
    | _ => kinds p c at'

def emptiness (walk : Walk) (p c : ShapeNode) (at' : String) : Out :=
  match p.kind, c.kind with
  | _, .notEmpty =>
    match admitsOnlyNonEmpty p with
    | some true => .yes
    | some false =>
      .no (.widerCardinality at' ⟨describe p⟩ ⟨describe c⟩
        "the provider may produce an empty value; the consumer tested only non-empty ones")
    | none =>
      .unknown (.unreviewable at' ⟨describe p⟩ ⟨describe c⟩
        ("'" ++ operator p ++ "' against 'not-empty': emptiness not decidable here"))
  | .notEmpty, _ =>
    .no (.broaderType at' ⟨describe p⟩ ⟨describe c⟩
      "'not-empty' admits a non-empty value of every kind; the consumer's shape admits one kind")
  | _, _ => walk.literals p c at'

def collections (walk : Walk) (node : NodeWalk) (p c : ShapeNode) (at' : String) : Out :=
  match p.kind, c.kind with
  | .object ps, .object cs => .all ((membersByName cs).map fun c => member node ps c at')
  | .array ps, .array cs =>
    if ps.length ≠ cs.length then
      .no (.widerCardinality at' ⟨describe p⟩ ⟨describe c⟩
        (ps.length.repr ++ " positions vs " ++ cs.length.repr ++
          "; positions the shorter side lacks have no comparison to make"))
    else .all ((ps.zip cs).mapIdx fun index pair => node pair.1 pair.2 (Path.arrayIndex at' index))
  | .eachLike p pmin pmax, .eachLike c cmin cmax =>
    (cardinality pmin pmax cmin cmax at' "elements").and (node p c (Path.eachLikeItem at'))
  | .eachLike p pmin pmax, .array cs =>
    let fixed := UInt64.ofNat cs.length
    (Out.all (cardinality pmin pmax fixed (some fixed) at' "elements" ::
      cs.mapIdx fun index entry => node p entry (Path.arrayIndex at' index)))
  | .array ps, .eachLike c cmin cmax =>
    let fixed := UInt64.ofNat ps.length
    (Out.all (cardinality fixed (some fixed) cmin cmax at' "elements" ::
      ps.mapIdx fun index entry => node entry c (Path.arrayIndex at' index)))
  | .eachEntry pk p pmin pmax, .eachEntry ck c cmin cmax =>
    ((cardinality pmin pmax cmin cmax at' "entries").and
      (node (pk.getD anyNode) (ck.getD anyNode) (Path.eachEntryKey at'))).and (node p c (Path.eachEntryValue at'))
  | _, _ => walk.emptiness p c at'

/-- Every pair of operators of the exact class. -/
def exact (walk : Walk) (node : NodeWalk) (p c : ShapeNode) (at' : String) : Out :=
  match p.kind, c.kind with
  | .oneOf pd ps _, .oneOf cd cs _ => oneOfPair node p c pd ps cd cs at'
  | .oneOf _ ps _, _ => .all (ps.map fun alternative => node alternative.2 c (Path.alternative at' alternative.1))
  | _, .oneOf discriminator cs _ => insideAlternative node p c discriminator cs at'
  | _, _ => walk.collections node p c at'

/-! The conservative class, the operator table, and the whole walk. -/

def conservative (walk : Walk) (p c : ShapeNode) (at' : String) : Out :=
  let undecided : Out := .unknown (.unreviewable at' ⟨describe p⟩ ⟨describe c⟩ (conservativeReason p.kind c.kind))
  let isString : Bool :=
    match c.kind with
    | .kind .string => true
    | _ => false
  if isConservative p.kind && stringValued p.kind && isString then .yes
  else if stringValued c.kind then
    match enumerate p with
    | some values =>
      let outside := values.filter fun v => !matchedBy walk.libraries c v
      if outside.isEmpty then .yes
      else
        .no (.widerValues at' ⟨describe p⟩ ⟨describe c⟩
          ("the consumer's " ++ operator c ++ " does not admit " ++ String.intercalate ", " (outside.map text)))
    | none => undecided
  else undecided

/-- Two nodes that are not opaque, with `type` written as what it is. -/
def table (walk : Walk) (node : NodeWalk) (p c : ShapeNode) (at' : String) : Out :=
  if sameAdmits p c && walk.floorStands p at' then .yes
  else
    match p.kind, c.kind with
    | _, .any => .yes
    | .any, _ =>
      .no (.broaderType at' ⟨describe p⟩ ⟨describe c⟩
        "the provider's shape admits every value; the consumer's does not")
    | _, _ =>
      if disjointClasses p c then
        .no (.broaderType at' ⟨describe p⟩ ⟨describe c⟩ "the two shapes admit values of disjoint kinds")
      else if isConservative p.kind || isConservative c.kind then walk.conservative p c at'
      else walk.exact node p c at'

/-- The operator table. -/
def operators (walk : Walk) (node : NodeWalk) (p c : ShapeNode) (at' : String) : Out :=
  if sameAdmits p c && walk.floorStands p at' then .yes
  else if isOpaque p || isOpaque c then
    .unknown (.unreviewable at' ⟨describe p⟩ ⟨describe c⟩
      ("'" ++ operator p ++ "' against '" ++ operator c ++ "': opaque class, no containment procedure"))
  else walk.table node ((desugar p).getD p) ((desugar c).getD c) at'

/-- A node pair with presence and nullability taken out of it, leaving a value comparison. -/
def valueNode (walk : Walk) (node : NodeWalk) (p c : ShapeNode) (at' : String) : Out :=
  if sameAdmits p c && walk.floorStands p at' then .yes
  else
    let provider := decompose p
    let consumer := decompose c
    let widenedAbsence := provider.absent && !consumer.absent
    let widenedNull := provider.null && !consumer.null
    let presence : Out :=
      if widenedAbsence || widenedNull then
        .no (.weakerPresence at' ⟨describe p⟩ ⟨if widenedAbsence then describePresent c else describe c⟩
          (match widenedAbsence, widenedNull with
            | true, true => "the provider admits absence and null; the consumer's shape admits neither"
            | true, false => "the provider admits absence (optional); the consumer's shape does not"
            | _, _ => "the provider admits null; the consumer's shape does not"))
      else .yes
    match provider.rest, consumer.rest with
    | none, _ => presence
    | some p, none =>
      presence.and (.no (.weakerPresence at' ⟨describe p⟩ ⟨describe c⟩
        "the provider may produce a value where the consumer's shape admits none"))
    | some p, some c => presence.and (walk.operators node p c at')

def ownWeight : ShapeKind → Nat
  | .type => 2
  | _ => 1

/-- The nodes of a tree, a `type` counted as the two nodes it may be written as. -/
def weight (S : ShapeNode) : Nat := ((nodes S).map fun n => ownWeight n.kind).sum

/-- The walk on a pair, as deep as `fuel` allows; a pair's own weight is depth enough. -/
def nodeWithin (walk : Walk) : Nat → NodeWalk
  | 0, p, c, at' => .unknown (.unreviewable at' ⟨describe p⟩ ⟨describe c⟩ "")
  | fuel + 1, p, c, at' => walk.caveat (walk.valueNode (walk.nodeWithin fuel) p c at') p c at'

def node (walk : Walk) (p c : ShapeNode) (at' : String) : Out := walk.nodeWithin (weight p + weight c) p c at'

end Walk

/-- Whether everything the provider's shape admits the consumer's admits, with the findings where that is not so. -/
def compare (libraries : Libraries) (provider consumer : ShapeNode) (at' : String) : Verdict × List Finding :=
  let out := (Walk.mk libraries []).node provider consumer at'
  (out.verdict, out.findings)

end PactJanus.Subsumption.Compare
