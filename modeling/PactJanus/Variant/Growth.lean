import PactJanus.Variant.Targets

namespace PactJanus.Variant.Growth

open PactJanus.Lib PactJanus.Shape.VariantSpace PactJanus.Plan.Compile PactJanus.Variant.Assignment
  PactJanus.Variant.Policy PactJanus.Variant.Targets

/-! The covering of targets: a first block of partial assignments, grown dimension by dimension. -/

/-- The first of the dimensions with the most points. -/
def widest (dims : List Dimension) : Option Dimension :=
  dims.foldl (fun best d =>
    match best with
    | none => some d
    | some b => if b.points.length < d.points.length then some d else some b) none

/-- The dimensions left, the widest whose gates all stand placed always next; `none` where none is ready. -/
def orderFrom : Nat → List Dimension → List String → Option (List Dimension)
  | 0, _, _ => some []
  | n + 1, left, placed => do
    let chosen ← widest (left.filter fun d => d.gatedBy.all fun g => placed.contains g.dimension)
    let rest ← orderFrom n (left.filter fun d => d.id ≠ chosen.id) (chosen.id :: placed)
    return chosen :: rest

/-- The order in which dimensions are processed. -/
def processingOrder (space : List Dimension) : Option (List Dimension) := orderFrom space.length space []

/-- Whether an assignment has every pair of a target. -/
def isCovered (target : Target) (α : Assignment) : Bool := target.all fun p => α.lookup p.1 == some p.2

def coversPartial (partial' full : Assignment) : Bool := partial'.all fun p => full.lookup p.1 == some p.2

/-- Whether an assignment has no other point for a dimension of a target. -/
def isCompatible (τ : Assignment) (target : Target) : Bool :=
  target.all fun p => (τ.lookup p.1).all fun point => point == p.2

/-- The combinations of points of the first dimensions that no exclusion matches. -/
def buildInitialBlock (exclusions : List ResolvedExclusion) : List Dimension → Assignment → List Assignment
  | [], current => if (matchingExclusion current exclusions).isNone then [current] else []
  | d :: rest, current =>
    if isActive current d then
      d.points.flatMap fun point => buildInitialBlock exclusions rest (SortedMap.insert d.id point.name current)
    else buildInitialBlock exclusions rest current

/-- The targets a point of a dimension would cover. -/
def gain (targets : List Target) (d : Dimension) (candidate : Assignment) : Nat :=
  (targets.filter fun target => (target.lookup d.id).isSome && isCovered target candidate).length

/-- The first of a dimension's points that covers the most targets, of those no exclusion forbids. -/
def bestPoint (exclusions : List ResolvedExclusion) (targets : List Target) (τ : Assignment) (d : Dimension) :
    Option String :=
  (d.points.foldl (fun best point =>
    let candidate := SortedMap.insert d.id point.name τ
    if (matchingExclusion candidate exclusions).isSome then best
    else
      match best with
      | none => some (point.name, gain targets d candidate)
      | some (name, count) =>
        if count < gain targets d candidate then some (point.name, gain targets d candidate)
        else some (name, count)) none).map Prod.fst

/-- Each partial assignment under which a dimension is active is given a point of it. -/
def horizontal (exclusions : List ResolvedExclusion) (d : Dimension) :
    List Assignment → List Target → List Assignment × List Target
  | [], targets => ([], targets)
  | τ :: rest, targets =>
    match if isActive τ d then bestPoint exclusions targets τ d else none with
    | some point =>
      let τ' := SortedMap.insert d.id point τ
      let (ts, targets) := horizontal exclusions d rest (targets.filter fun target => !isCovered target τ')
      (τ' :: ts, targets)
    | none =>
      let (ts, targets) := horizontal exclusions d rest targets
      (τ :: ts, targets)

/-- The requirements an assignment does not say anything about, put into it. -/
def orInsert (τ reqs : Assignment) : Assignment :=
  reqs.foldl (fun α p => if (α.lookup p.1).isSome then α else SortedMap.insert p.1 p.2 α) τ

/-- A target's requirements put into the first partial assignment compatible with it, or standing as a new one. -/
def mergeInto (target : Target) (reqs : Assignment) : List Assignment → List Assignment
  | [] => [reqs]
  | τ :: rest => if isCompatible τ target then orInsert τ reqs :: rest else τ :: mergeInto target reqs rest

def extend (space : List Dimension) (target : Target) (ts : List Assignment) : List Assignment :=
  match targetRequirements space target with
  | some reqs => mergeInto target reqs ts
  | none => ts

/-- The targets left over are put into partial assignments one after the other. -/
def vertical (space : List Dimension) : List Target → List Assignment → List Target → List Assignment × List Target
  | [], ts, targets => (ts, targets)
  | target :: remaining, ts, targets =>
    if targets.contains target then
      let ts' := extend space target ts
      vertical space remaining ts' (targets.filter fun other => !ts'.any fun τ => isCovered other τ)
    else vertical space remaining ts targets

/-- The targets that have a dimension and none that is still to be processed. -/
def inPlay (d : Dimension) (processed : List String) (targets : List Target) : List Target :=
  targets.filter fun target => (target.lookup d.id).isSome && target.all fun p => processed.contains p.1

/-- The partial assignments grown by the dimensions left. -/
def grow (space : List Dimension) (exclusions : List ResolvedExclusion) :
    List Dimension → List String → List Assignment → List Target → List Assignment
  | [], _, ts, _ => ts
  | d :: rest, processed, ts, targets =>
    let processed := d.id :: processed
    let wider := horizontal exclusions d ts targets
    let longer := vertical space (inPlay d processed wider.2) wider.1 wider.2
    grow space exclusions rest processed longer.1 longer.2

/-- A completion that matches no exclusion: the plain one, or one with another point for a dimension left free. -/
def completeAvoidingExclusions (space : List Dimension) (exclusions : List ResolvedExclusion) (partial' : Assignment) :
    Option Assignment :=
  let full := complete space partial'
  if (matchingExclusion full exclusions).isNone then some full
  else
    space.findSome? fun d =>
      if (partial'.lookup d.id).isSome then none
      else
        match full.lookup d.id with
        | none => none
        | some current =>
          d.points.findSome? fun point =>
            if point.name = current then none
            else
              let candidate := complete space (SortedMap.insert d.id point.name partial')
              if (matchingExclusion candidate exclusions).isNone then some candidate else none

/-- The partial assignments the covering grows from the targets no seed covers. -/
def grown (space : List Dimension) (t : Nat) (seeds : List Assignment) (targets : List Target)
    (exclusions : List ResolvedExclusion) (order : List Dimension) : List Assignment :=
  let block := (buildInitialBlock exclusions (order.take t) []).filter fun τ => !seeds.any fun s => coversPartial τ s
  grow space exclusions (order.drop t) ((order.take t).map Dimension.id) block targets

/-- The covering assignments, and how many partial ones had to be dropped. -/
def ipog (space : List Dimension) (t : Nat) (seeds : List Assignment) (targets : List Target)
    (exclusions : List ResolvedExclusion) : Option (List Assignment × Nat) :=
  let targets := targets.filter fun target => !seeds.any fun s => isCovered target s
  if targets.isEmpty || space.isEmpty then some ([], 0)
  else do
    let order ← processingOrder space
    let ts := grown space (max (min t order.length) 1) seeds targets exclusions order
    return (ts.filterMap (completeAvoidingExclusions space exclusions),
      (ts.filter fun τ => (completeAvoidingExclusions space exclusions τ).isNone).length)

/-- The partial assignments a covering grows, none where it has nothing to cover. -/
def partials (space : List Dimension) (t : Nat) (seeds : List Assignment) (targets : List Target)
    (exclusions : List ResolvedExclusion) : List Assignment :=
  let targets := targets.filter fun target => !seeds.any fun s => isCovered target s
  if targets.isEmpty || space.isEmpty then []
  else
    match processingOrder space with
    | some order => grown space (max (min t order.length) 1) seeds targets exclusions order
    | none => []

/-- The targets no seed has. -/
def uncovered (seeds : List Assignment) (targets : List Target) : List Target :=
  targets.filter fun target => !seeds.any fun s => isCovered target s

theorem ipog_cases {space : List Dimension} {t dropped : Nat} {seeds covering : List Assignment} {targets : List Target}
    {exclusions : List ResolvedExclusion} (h : ipog space t seeds targets exclusions = some (covering, dropped)) :
    ((uncovered seeds targets = [] ∨ space = []) ∧ covering = [] ∧ dropped = 0) ∨
      ∃ order, processingOrder space = some order ∧
        covering = (grown space (max (min t order.length) 1) seeds (uncovered seeds targets) exclusions order).filterMap
          (completeAvoidingExclusions space exclusions) ∧
        dropped = ((grown space (max (min t order.length) 1) seeds (uncovered seeds targets) exclusions order).filter
          fun τ => (completeAvoidingExclusions space exclusions τ).isNone).length := by
  simp only [ipog] at h
  split at h
  · rename_i hempty
    rw [Bool.or_eq_true, List.isEmpty_iff, List.isEmpty_iff] at hempty
    simp only [Option.some.injEq, Prod.mk.injEq] at h
    exact Or.inl ⟨hempty, h.1.symm, h.2.symm⟩
  · simp only [Option.bind_eq_bind, Option.bind_eq_some_iff, pure, Option.some.injEq, Prod.mk.injEq] at h
    obtain ⟨order, horder, hcovering, hdropped⟩ := h
    exact Or.inr ⟨order, horder, hcovering.symm, hdropped.symm⟩

/-- A covering is the completions of the partial assignments it grows. -/
theorem ipog_partials {space : List Dimension} {t dropped : Nat} {seeds covering : List Assignment}
    {targets : List Target} {exclusions : List ResolvedExclusion}
    (h : ipog space t seeds targets exclusions = some (covering, dropped)) :
    covering = (partials space t seeds targets exclusions).filterMap (completeAvoidingExclusions space exclusions) ∧
      dropped = ((partials space t seeds targets exclusions).filter fun τ =>
        (completeAvoidingExclusions space exclusions τ).isNone).length := by
  unfold ipog at h
  unfold partials
  dsimp only at h ⊢
  split at h
  · rename_i hempty
    simp only [Option.some.injEq, Prod.mk.injEq] at h
    rw [if_pos hempty]
    exact ⟨h.1.symm, h.2.symm⟩
  · rename_i hsome
    simp only [Option.bind_eq_bind, Option.bind_eq_some_iff, pure, Option.some.injEq, Prod.mk.injEq] at h
    obtain ⟨order, horder, hcovering, hdropped⟩ := h
    rw [if_neg hsome, horder]
    exact ⟨hcovering.symm, hdropped.symm⟩

/-! The order of the dimensions. -/

theorem widest_mem {dims : List Dimension} {d : Dimension} (h : widest dims = some d) : d ∈ dims := by
  refine Lists.foldl_chosen (fun best hbest e he b hb => ?_) d h
  cases best with
  | none => exact Option.some.inj hb ▸ he
  | some c =>
    dsimp only at hb
    split at hb
    · exact Option.some.inj hb ▸ he
    · exact hbest b hb

/-- Each dimension comes after those it is gated by. -/
def PlacedInOrder : List String → List Dimension → Prop
  | _, [] => True
  | placed, d :: rest => (∀ g ∈ d.gatedBy, g.dimension ∈ placed) ∧ PlacedInOrder (d.id :: placed) rest

theorem orderFrom_placed {n : Nat} {left order : List Dimension} {placed : List String}
    (h : orderFrom n left placed = some order) : PlacedInOrder placed order := by
  induction n generalizing left placed order with
  | zero =>
    obtain rfl := Option.some.inj h
    trivial
  | succ n ih =>
    simp only [orderFrom, Option.bind_eq_bind, Option.bind_eq_some_iff, pure, Option.some.injEq] at h
    obtain ⟨chosen, hchosen, rest, hrest, rfl⟩ := h
    have hready := (List.mem_filter.1 (widest_mem hchosen)).2
    rw [List.all_eq_true] at hready
    exact ⟨fun g hg => List.contains_iff_mem.1 (hready g hg), ih hrest⟩

theorem perm_chosen {left : List Dimension} (hd : (left.map Dimension.id).Nodup) {chosen : Dimension}
    (h : chosen ∈ left) : (chosen :: left.filter fun d => d.id ≠ chosen.id).Perm left := by
  have hnodup : left.Nodup := List.Nodup.of_map _ hd
  refine (List.perm_ext_iff_of_nodup (List.nodup_cons.2 ⟨by simp, hnodup.filter _⟩) hnodup).2 fun d => ?_
  rw [List.mem_cons, List.mem_filter, decide_eq_true_eq]
  constructor
  · rintro (rfl | ⟨hmem, -⟩)
    · exact h
    · exact hmem
  · intro hmem
    by_cases hid : d.id = chosen.id
    · exact Or.inl (List.inj_on_of_nodup_map hd hmem h hid)
    · exact Or.inr ⟨hmem, hid⟩

/-- The order has every dimension once. -/
theorem orderFrom_perm {n : Nat} {left order : List Dimension} {placed : List String} (hn : left.length = n)
    (hd : (left.map Dimension.id).Nodup) (h : orderFrom n left placed = some order) : order.Perm left := by
  induction n generalizing left placed order with
  | zero =>
    obtain rfl := Option.some.inj h
    rw [List.length_eq_zero_iff.1 hn]
  | succ n ih =>
    simp only [orderFrom, Option.bind_eq_bind, Option.bind_eq_some_iff, pure, Option.some.injEq] at h
    obtain ⟨chosen, hchosen, rest, hrest, rfl⟩ := h
    have hperm := perm_chosen hd (List.mem_of_mem_filter (widest_mem hchosen))
    have hlength := hperm.length_eq
    rw [List.length_cons, hn, Nat.add_right_cancel_iff] at hlength
    exact ((ih hlength (hd.sublist (List.filter_sublist.map _)) hrest).cons chosen).trans hperm

/-! What every partial assignment keeps while the covering grows. -/

theorem orInsert_mem {τ reqs : Assignment} {q : String × String} (h : q ∈ orInsert τ reqs) : q ∈ τ ∨ q ∈ reqs := by
  unfold orInsert at h
  induction reqs generalizing τ with
  | nil => exact Or.inl h
  | cons p rest ih =>
    rw [List.foldl_cons] at h
    rcases ih h with h | h
    · split at h
      · exact Or.inl h
      · rcases SortedMap.mem_of_mem_insert h with rfl | h
        · exact Or.inr List.mem_cons_self
        · exact Or.inl h
    · exact Or.inr (List.mem_cons_of_mem _ h)

section Rule

variable {space : List Dimension} {exclusions : List ResolvedExclusion} {Q : Assignment → Prop} {d : Dimension}
  {ts : List Assignment} {targets : List Target}

theorem horizontal_targets : (horizontal exclusions d ts targets).2 ⊆ targets := by
  induction ts generalizing targets with
  | nil => exact List.Subset.refl _
  | cons τ rest ih =>
    unfold horizontal
    split
    · exact List.Subset.trans ih List.filter_sublist.subset
    · exact ih

theorem vertical_targets {remaining : List Target} : (vertical space remaining ts targets).2 ⊆ targets := by
  induction remaining generalizing ts targets with
  | nil => exact List.Subset.refl _
  | cons target rest ih =>
    unfold vertical
    split
    · exact List.Subset.trans ih List.filter_sublist.subset
    · exact ih

end Rule

end PactJanus.Variant.Growth
