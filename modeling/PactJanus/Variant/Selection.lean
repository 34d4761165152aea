import PactJanus.Lib.Saturation
import PactJanus.Variant.Assignment
import PactJanus.Variant.Growth
import PactJanus.Variant.Naming
import PactJanus.Variant.References

namespace PactJanus.Variant.Selection

open PactJanus.Lib PactJanus.Lib.Saturation PactJanus.Contracts.Files PactJanus.Shape.VariantSpace PactJanus.Plan.Compile
  PactJanus.Variant.Assignment PactJanus.Variant.References PactJanus.Variant.Policy PactJanus.Variant.Naming
  PactJanus.Variant.Targets PactJanus.Variant.Growth

/-! The size of a space, and its smallest and largest variants, by what each point opens. -/

def lastGate (d : Dimension) : Option Gate := d.gatedBy.getLast?

/-- The dimensions whose last gate a point is. -/
def childrenByGate (space : List Dimension) (gate : Gate) : List Dimension :=
  space.filter fun d => lastGate d == some gate

/-- The ways to settle a dimension and all its points open, `fuel` dimensions deep. -/
def weight (space : List Dimension) : Nat → String → Count
  | 0, _ => Count.zero
  | fuel + 1, id =>
    match byId space id with
    | none => Count.zero
    | some d =>
      d.points.foldl (fun total point =>
        total.add ((childrenByGate space ⟨id, point.name⟩).foldl
          (fun product kid => product.mul (weight space fuel kid.id)) Count.one)) Count.zero

/-- The size of a space; no chain of gates is longer than the space. -/
def spaceSize (space : List Dimension) : Count :=
  (space.filter fun d => d.gatedBy.isEmpty).foldl (fun size d => size.mul (weight space space.length d.id)) Count.one

/-- The dimensions under a point, `fuel` dimensions deep. -/
def descendantCount (space : List Dimension) : Nat → String → String → Nat
  | 0, _, _ => 0
  | fuel + 1, id, point =>
    ((childrenByGate space ⟨id, point⟩).map fun kid =>
      1 + (kid.points.map fun p => descendantCount space fuel kid.id p.name).sum).sum

/-- The first item with the smallest key, or the first with the largest. -/
def firstExtreme (minimal : Bool) (items : List (Nat × String)) : Option String :=
  (items.foldl (fun best item =>
    match best with
    | none => some item
    | some (key, name) =>
      if (minimal && decide (item.1 < key)) || (!minimal && decide (key < item.1)) then some item
      else some (key, name)) none).map Prod.snd

/-- The point a dimension takes at a boundary. -/
def boundaryPoint (space : List Dimension) (minimal : Bool) (d : Dimension) : String :=
  match d.facet with
  | .presence => if minimal then "absent" else "present"
  | .nullability => if minimal then "null" else "non-null"
  | .cardinality => (firstExtreme minimal (d.points.map fun p => ((p.size.getD 0).toNat, p.name))).getD d.default
  | .alternative =>
    (firstExtreme minimal
      (d.points.map fun p => (descendantCount space space.length d.id p.name, p.name))).getD d.default
  -- no option is smaller than another
  | .value => d.default

def boundaryFrom (space : List Dimension) (minimal : Bool) : List Dimension → Assignment → Assignment
  | [], α => α
  | d :: rest, α =>
    boundaryFrom space minimal rest
      (if isActive α d then SortedMap.insert d.id (boundaryPoint space minimal d) α else α)

/-- The smallest or the largest partial assignment of a space. -/
def boundaryPartial (space : List Dimension) (minimal : Bool) : Assignment := boundaryFrom space minimal space []

/-! The selection of variants from a space under a policy, and its report. -/

inductive Origin where
  | base | boundary | pinned | covering
deriving DecidableEq

set_option linter.dupNamespace false in
structure Variant where
  id : String
  label : String
  origin : Origin
  assignment : Assignment

inductive Strategy where
  | baseOnly | exhaustive | tWise
deriving DecidableEq

def Strategy.text : Strategy → String
  | .baseOnly => "base-only"
  | .exhaustive => "exhaustive"
  | .tWise => "t-wise"

structure SpaceSummary where
  size : Count
  dimensions : Nat

structure Coverage where
  targets : Nat
  covered : Nat
  removed : Nat
  dropped : Nat

structure Budgets where
  exhaustiveThreshold : UInt64
  maxVariants : UInt64

structure SelectionReport where
  space : SpaceSummary
  strategy : Strategy
  strength : Option UInt32
  algorithm : String
  selected : Nat
  coverage : Coverage
  budgets : Budgets
  boundaries : Bool
  exclusions : List ResolvedExclusion

structure Selected where
  variants : List Variant
  report : SelectionReport

inductive VariantError where
  | invalidPolicy (problems : List Problem)
  | budgetExceeded (space : UInt64) (selected : Nat) (budget : UInt64) (dimensions : List String)

/-- The strategy a policy asks for, `auto` decided by the size of the space. -/
def resolveStrategy (policy : SamplingPolicy) (size : Count) : Except Problem Strategy :=
  if policy.strategy = "auto" then
    if size.exact && decide (size.value ≤ policy.exhaustiveThreshold) then .ok .exhaustive else .ok .tWise
  else if policy.strategy = "exhaustive" then .ok .exhaustive
  else if policy.strategy = "t-wise" then .ok .tWise
  else if policy.strategy = "base-only" then .ok .baseOnly
  else .error ⟨"/policy/strategy", "unknown sampling strategy '" ++ policy.strategy ++ "'"⟩

/-- One more variant, where no variant has its assignment yet. -/
def push (space : List Dimension) (origin : Origin) (variants : List Variant) (α : Assignment) : List Variant :=
  if (variants.map Variant.assignment).contains α then variants
  else variants ++ [⟨variantId space α, renderAssignment space α (computeLabels space), origin, α⟩]

/-- Every complete assignment made of points that no exclusion matches. -/
def enumerateAll (exclusions : List ResolvedExclusion) : List Dimension → Assignment → List Assignment
  | [], current => if (matchingExclusion current exclusions).isNone then [current] else []
  | d :: rest, current =>
    if isActive current d then
      d.points.flatMap fun point => enumerateAll exclusions rest (SortedMap.insert d.id point.name current)
    else enumerateAll exclusions rest current

/-- The two boundary variants' assignments, where a policy wants them. -/
def boundarySeeds (space : List Dimension) (policy : SamplingPolicy) (strategy : Strategy) : List Assignment :=
  if policy.boundaries ∧ strategy ≠ .baseOnly then
    [complete space (boundaryPartial space true), complete space (boundaryPartial space false)]
  else []

/-- The variants selected before any covering: the base one, the boundaries, the pins. -/
def seeds (space : List Dimension) (policy : SamplingPolicy) (strategy : Strategy) (pins : List Assignment) :
    List Variant :=
  let base := push space .base [] (complete space [])
  let boundaries := (boundarySeeds space policy strategy).foldl (push space .boundary) base
  (pins.map (complete space)).foldl (push space .pinned) boundaries

/-- What the covering under a strategy adds: the assignments, the number of targets, the number dropped and the
exclusions with what they removed. -/
structure Covering where
  assignments : List Assignment
  targets : Nat
  dropped : Nat
  exclusions : List ResolvedExclusion

def cover (space : List Dimension) (policy : SamplingPolicy) (seeds : List Assignment)
    (exclusions : List ResolvedExclusion) : Strategy → Option Covering
  | .baseOnly => some ⟨[], 0, 0, exclusions⟩
  | .exhaustive => some ⟨enumerateAll exclusions space [], 0, 0, exclusions⟩
  | .tWise => do
    let t := max policy.strength.toNat 1
    let (targets, exclusions) := enumerateTargets space t exclusions
    let (covering, dropped) ← ipog space t seeds targets exclusions
    return ⟨covering, targets.length, dropped, exclusions⟩

/-- The three dimensions with the most points. -/
def largestDimensions (space : List Dimension) : List String :=
  ((space.mergeSort fun a b => decide (b.points.length ≤ a.points.length)).take 3).map Dimension.id

def report (space : List Dimension) (policy : SamplingPolicy) (strategy : Strategy) (covering : Covering)
    (selected : Nat) : SelectionReport :=
  ⟨⟨spaceSize space, space.length⟩, strategy, if strategy = .tWise then some policy.strength else none, policy.algorithm,
    selected,
    ⟨covering.targets, if strategy = .tWise then covering.targets - covering.dropped else 0,
      (covering.exclusions.map ResolvedExclusion.removed).sum, covering.dropped⟩,
    ⟨policy.exhaustiveThreshold, policy.maxVariants⟩, policy.boundaries,
    covering.exclusions.filter fun e => decide (0 < e.removed)⟩

/-- The selection under a strategy; `none` where the covering does not come to an end of its own. -/
def selectUnder (space : List Dimension) (policy : SamplingPolicy) (pins : List Assignment)
    (exclusions : List ResolvedExclusion) (strategy : Strategy) : Option (Except VariantError Selected) := do
  let first := seeds space policy strategy pins
  let covering ← cover space policy (first.map Variant.assignment) exclusions strategy
  let variants := covering.assignments.foldl (push space .covering) first
  if policy.maxVariants.toNat < variants.length then
    return .error (.budgetExceeded (spaceSize space).value variants.length policy.maxVariants (largestDimensions space))
  else return .ok ⟨variants, report space policy strategy covering variants.length⟩

/-- The selection of a space under a policy. -/
def select (space : List Dimension) (policy : SamplingPolicy) : Option (Except VariantError Selected) :=
  match resolveRefs space policy with
  | .error problems => some (.error (.invalidPolicy problems))
  | .ok (pins, exclusions) =>
    match resolveStrategy policy (spaceSize space) with
    | .error problem => some (.error (.invalidPolicy [problem]))
    | .ok strategy => selectUnder space policy pins exclusions strategy

theorem baseOnly_iff {policy : SamplingPolicy} {size : Count} {strategy : Strategy}
    (h : resolveStrategy policy size = .ok strategy) : strategy = .baseOnly ↔ policy.strategy = "base-only" := by
  unfold resolveStrategy at h
  split at h
  · rename_i hauto
    split at h <;> (cases h; simp [hauto])
  · split at h
    · rename_i hexhaustive
      cases h
      simp [hexhaustive]
    · split at h
      · rename_i htwise
        cases h
        simp [htwise]
      · split at h
        · rename_i hbase
          cases h
          simp [hbase]
        · cases h

/-! The assignments of what is selected. -/

section Pushed

variable {space : List Dimension} {origin : Origin} {variants : List Variant} {l : List Assignment} {α : Assignment}

theorem assignments_push :
    (push space origin variants α).map Variant.assignment =
      if α ∈ variants.map Variant.assignment then variants.map Variant.assignment
      else variants.map Variant.assignment ++ [α] := by
  unfold push
  by_cases h : α ∈ variants.map Variant.assignment
  · rw [if_pos h, if_pos (List.contains_iff_mem.2 h)]
  · rw [if_neg h, if_neg (fun hc => h (List.contains_iff_mem.1 hc)), List.map_append]
    rfl

theorem mem_push {β : Assignment} :
    β ∈ (push space origin variants α).map Variant.assignment ↔ β ∈ variants.map Variant.assignment ∨ β = α := by
  rw [assignments_push]
  split
  · rename_i hmem
    exact ⟨Or.inl, fun h => h.elim id fun heq => heq ▸ hmem⟩
  · rw [List.mem_append, List.mem_singleton]

/-- What is pushed is selected, and nothing else besides what was. -/
theorem mem_pushed {β : Assignment} :
    β ∈ (l.foldl (push space origin) variants).map Variant.assignment ↔
      β ∈ variants.map Variant.assignment ∨ β ∈ l := by
  induction l generalizing variants with
  | nil => simp
  | cons a rest ih => rw [List.foldl_cons, ih, mem_push, List.mem_cons, or_assoc]

theorem nodup_pushed (h : (variants.map Variant.assignment).Nodup) :
    ((l.foldl (push space origin) variants).map Variant.assignment).Nodup := by
  induction l generalizing variants with
  | nil => exact h
  | cons a rest ih =>
    refine ih ?_
    rw [assignments_push]
    split
    · exact h
    · rename_i hmem
      exact List.nodup_append.2 ⟨h, List.nodup_singleton a, fun b hb c hc heq =>
        hmem (List.mem_singleton.1 hc ▸ heq ▸ hb)⟩

end Pushed

section Seeds

variable {space : List Dimension} {policy : SamplingPolicy} {strategy : Strategy} {pins : List Assignment}
  {α : Assignment}

theorem mem_boundarySeeds :
    α ∈ boundarySeeds space policy strategy ↔ policy.boundaries = true ∧ strategy ≠ .baseOnly ∧
      ∃ minimal, complete space (boundaryPartial space minimal) = α := by
  unfold boundarySeeds
  split
  · rename_i h
    simp only [List.mem_cons, List.not_mem_nil, or_false, h.1, ne_eq, h.2, not_false_eq_true, true_and, Bool.exists_bool]
    rw [or_comm, eq_comm, eq_comm (a := complete space (boundaryPartial space true))]
  · rename_i h
    exact ⟨fun hmem => absurd hmem List.not_mem_nil, fun hseed => absurd ⟨hseed.1, hseed.2.1⟩ h⟩

theorem mem_seeds :
    α ∈ (seeds space policy strategy pins).map Variant.assignment ↔
      α = complete space [] ∨ α ∈ boundarySeeds space policy strategy ∨ α ∈ pins.map (complete space) := by
  simp only [seeds, mem_pushed, mem_push, List.map_nil, List.not_mem_nil, false_or, or_assoc]

end Seeds

/-- What a selection is made of. -/
structure SelectedFrom (space : List Dimension) (policy : SamplingPolicy) (pins : List Assignment)
    (exclusions : List ResolvedExclusion) (strategy : Strategy) (covering : Covering) (selected : Selected) : Prop where
  refs : resolveRefs space policy = .ok (pins, exclusions)
  resolved : resolveStrategy policy (spaceSize space) = .ok strategy
  covered : cover space policy ((seeds space policy strategy pins).map Variant.assignment) exclusions strategy =
    some covering
  variants : selected.variants = covering.assignments.foldl (push space .covering) (seeds space policy strategy pins)
  budget : selected.variants.length ≤ policy.maxVariants.toNat
  report : selected.report = report space policy strategy covering selected.variants.length

theorem select_cases {space : List Dimension} {policy : SamplingPolicy} {selected : Selected}
    (h : select space policy = some (.ok selected)) :
    ∃ pins exclusions strategy covering, SelectedFrom space policy pins exclusions strategy covering selected := by
  unfold select at h
  split at h
  · exact absurd h (by simp)
  · rename_i pins exclusions hrefs
    split at h
    · exact absurd h (by simp)
    · rename_i strategy hstrategy
      simp only [selectUnder, Option.bind_eq_bind, Option.bind_eq_some_iff] at h
      obtain ⟨covering, hcovering, h⟩ := h
      split at h
      · exact absurd h (by simp [pure])
      · rename_i hbudget
        simp only [pure, Option.some.injEq, Except.ok.injEq] at h
        subst h
        exact ⟨pins, exclusions, strategy, covering, hrefs, hstrategy, hcovering, rfl, not_lt.1 hbudget, rfl⟩

/-- What is made so is selected. -/
theorem SelectedFrom.select {space : List Dimension} {policy : SamplingPolicy} {pins : List Assignment}
    {exclusions : List ResolvedExclusion} {strategy : Strategy} {covering : Covering} {selected : Selected}
    (h : SelectedFrom space policy pins exclusions strategy covering selected) :
    select space policy = some (.ok selected) := by
  have hbudget := h.budget
  rw [h.variants] at hbudget
  have hselected : selected = ⟨covering.assignments.foldl (push space .covering) (seeds space policy strategy pins),
      Selection.report space policy strategy covering
        (covering.assignments.foldl (push space .covering) (seeds space policy strategy pins)).length⟩ := by
    rw [← h.variants, ← h.report]
  simp only [Selection.select, h.refs, h.resolved, selectUnder, h.covered, Option.bind_eq_bind, Option.bind_some,
    if_neg (not_lt.2 hbudget), hselected]
  rfl

/-- A selected assignment is the base one's, a boundary's, a pin's or one the covering made. -/
theorem SelectedFrom.mem {space : List Dimension} {policy : SamplingPolicy} {pins : List Assignment}
    {exclusions : List ResolvedExclusion} {strategy : Strategy} {covering : Covering} {selected : Selected}
    (h : SelectedFrom space policy pins exclusions strategy covering selected) {α : Assignment} :
    α ∈ selected.variants.map Variant.assignment ↔
      (α = complete space [] ∨ α ∈ boundarySeeds space policy strategy ∨ α ∈ pins.map (complete space)) ∨
        α ∈ covering.assignments := by
  rw [h.variants, mem_pushed, mem_seeds]

end PactJanus.Variant.Selection
