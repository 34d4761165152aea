import PactJanus.Variant.Completion
import PactJanus.Variant.Growth

namespace PactJanus.Variant.Trace

open PactJanus.Lib PactJanus.Lib.Lists PactJanus.Shape.VariantSpace PactJanus.Shape.Gating PactJanus.Plan.Compile
  PactJanus.Variant.Assignment PactJanus.Variant.References PactJanus.Variant.Policy PactJanus.Variant.Targets
  PactJanus.Variant.Growth PactJanus.Variant.Completion

/-! The steps by which a covering grows, each with what was left before it. -/

/-- A partial assignment given one more point. -/
structure Widening where
  wider : Assignment
  targets : List Target

/-- A target put into the partial assignments. -/
structure Extension where
  target : Target
  ts : List Assignment
  targets : List Target

structure Steps where
  widenings : List Widening
  extensions : List Extension

def horizontalSteps (exclusions : List ResolvedExclusion) (d : Dimension) :
    List Assignment → List Target → List Widening
  | [], _ => []
  | τ :: rest, targets =>
    match if isActive τ d then bestPoint exclusions targets τ d else none with
    | some point =>
      let τ' := SortedMap.insert d.id point τ
      ⟨τ', targets⟩ :: horizontalSteps exclusions d rest (targets.filter fun target => !isCovered target τ')
    | none => horizontalSteps exclusions d rest targets

def verticalSteps (space : List Dimension) : List Target → List Assignment → List Target → List Extension
  | [], _, _ => []
  | target :: remaining, ts, targets =>
    if targets.contains target then
      let ts' := extend space target ts
      ⟨target, ts, targets⟩ ::
        verticalSteps space remaining ts' (targets.filter fun other => !ts'.any fun τ => isCovered other τ)
    else verticalSteps space remaining ts targets

def growSteps (space : List Dimension) (exclusions : List ResolvedExclusion) :
    List Dimension → List String → List Assignment → List Target → Steps
  | [], _, _, _ => ⟨[], []⟩
  | d :: rest, processed, ts, targets =>
    let processed := d.id :: processed
    let wider := horizontal exclusions d ts targets
    let remaining := inPlay d processed wider.2
    let longer := vertical space remaining wider.1 wider.2
    let later := growSteps space exclusions rest processed longer.1 longer.2
    ⟨horizontalSteps exclusions d ts targets ++ later.widenings,
      verticalSteps space remaining wider.1 wider.2 ++ later.extensions⟩

/-- The partial assignments a covering starts from. -/
def block (t : Nat) (seeds : List Assignment) (exclusions : List ResolvedExclusion) (order : List Dimension) :
    List Assignment :=
  (buildInitialBlock exclusions (order.take t) []).filter fun τ => !seeds.any fun s => coversPartial τ s

/-- The steps of a covering. -/
def steps (space : List Dimension) (t : Nat) (seeds : List Assignment) (targets : List Target)
    (exclusions : List ResolvedExclusion) : Steps :=
  let left := uncovered seeds targets
  if left.isEmpty || space.isEmpty then ⟨[], []⟩
  else
    match processingOrder space with
    | some order =>
      let t := max (min t order.length) 1
      growSteps space exclusions (order.drop t) ((order.take t).map Dimension.id) (block t seeds exclusions order) left
    | none => ⟨[], []⟩

/-- A target merged into a partial assignment that has no other point for anything the target requires. -/
def Extension.Fits (space : List Dimension) (e : Extension) : Prop :=
  ∀ reqs, targetRequirements space e.target = some reqs →
    ∀ τ, (e.ts.find? fun τ => isCompatible τ e.target) = some τ →
      ∀ q ∈ reqs, ∀ point, τ.lookup q.1 = some point → point = q.2

/-- Every target is merged where it fits. -/
def MergesFit (space : List Dimension) (s : Steps) : Prop := ∀ e ∈ s.extensions, e.Fits space

/-- A target is removed for a partial assignment whose completion has it. -/
def RemovesSoundly (space : List Dimension) (τ : Assignment) (targets : List Target) : Prop :=
  ∀ target ∈ targets, isCovered target τ = true → isCovered target (complete space τ) = true

/-- Every target is removed for partial assignments whose completions have it. -/
def RemovalsSound (space : List Dimension) (s : Steps) : Prop :=
  (∀ w ∈ s.widenings, RemovesSoundly space w.wider w.targets) ∧
    ∀ e ∈ s.extensions, ∀ τ ∈ extend space e.target e.ts, RemovesSoundly space τ e.targets

/-! Merging a target's requirements. -/

variable {space : List Dimension} {exclusions : List ResolvedExclusion} {τ reqs : Assignment} {target : Target}
  {ts : List Assignment} {targets : List Target} {d : Dimension} {processed : List String}

theorem isCovered_iff {α : Assignment} : isCovered target α = true ↔ ∀ q ∈ target, α.lookup q.1 = some q.2 := by
  simp only [isCovered, List.all_eq_true, beq_iff_eq]

theorem isCovered_extends {α β : Assignment} (h : Extends α β) (hc : isCovered target α = true) :
    isCovered target β = true :=
  isCovered_iff.2 fun q hq => h _ _ (isCovered_iff.1 hc q hq)

theorem lookup_orInsert (id : String) : (orInsert τ reqs).lookup id = (τ.lookup id).or (reqs.lookup id) := by
  unfold orInsert
  induction reqs generalizing τ with
  | nil => simp
  | cons q rest ih =>
    rw [List.foldl_cons, ih, lookup_cons_ite q.1 q.2]
    split
    · rename_i hsome
      by_cases hid : id = q.1
      · rw [if_pos hid, hid]
        obtain ⟨point, hpoint⟩ := Option.isSome_iff_exists.1 hsome
        rw [hpoint]
        rfl
      · rw [if_neg hid]
    · rename_i hnone
      rw [SortedMap.lookup_insert]
      by_cases hid : id = q.1
      · rw [if_pos hid, if_pos hid, hid, Option.not_isSome_iff_eq_none.1 hnone]
        rfl
      · rw [if_neg hid, if_neg hid]

theorem orInsert_extends : Extends τ (orInsert τ reqs) := by
  intro id point hpoint
  rw [lookup_orInsert, hpoint]
  rfl

/-- A target compatible with a partial assignment is covered once its requirements are merged. -/
theorem covered_orInsert (hreqs : Requires space target reqs) (hc : isCompatible τ target = true) :
    isCovered target (orInsert τ reqs) = true := by
  refine isCovered_iff.2 fun q hq => ?_
  have hcompatible := List.all_eq_true.1 hc q hq
  rw [lookup_orInsert, hreqs.own q hq]
  cases hlookup : τ.lookup q.1 with
  | none => rfl
  | some point =>
    rw [hlookup] at hcompatible
    simpa using hcompatible

/-- What merging makes of the partial assignments: the first compatible one with the requirements, or these alone. -/
theorem mem_mergeInto {τ' : Assignment} (h : τ' ∈ mergeInto target reqs ts) :
    τ' ∈ ts ∨ τ' = reqs ∨ ∃ τ, (ts.find? fun τ => isCompatible τ target) = some τ ∧ τ' = orInsert τ reqs := by
  induction ts with
  | nil => exact Or.inr (Or.inl (List.mem_singleton.1 h))
  | cons τ rest ih =>
    unfold mergeInto at h
    split at h
    · rename_i hc
      rcases List.mem_cons.1 h with rfl | h
      · exact Or.inr (Or.inr ⟨τ, by rw [List.find?_cons, hc], rfl⟩)
      · exact Or.inl (List.mem_cons_of_mem _ h)
    · rename_i hc
      rcases List.mem_cons.1 h with rfl | h
      · exact Or.inl List.mem_cons_self
      · rcases ih h with h | h | ⟨σ, hσ, h⟩
        · exact Or.inl (List.mem_cons_of_mem _ h)
        · exact Or.inr (Or.inl h)
        · exact Or.inr (Or.inr ⟨σ, by rw [List.find?_cons, Bool.eq_false_iff.2 hc, hσ], h⟩)

theorem orInsert_mem_mergeInto (h : (ts.find? fun τ => isCompatible τ target) = some τ) :
    orInsert τ reqs ∈ mergeInto target reqs ts := by
  induction ts with
  | nil => cases h
  | cons σ rest ih =>
    unfold mergeInto
    split
    · rename_i hc
      rw [List.find?_cons, hc] at h
      obtain rfl := Option.some.inj h
      exact List.mem_cons_self
    · rename_i hc
      rw [List.find?_cons, Bool.eq_false_iff.2 hc] at h
      exact List.mem_cons_of_mem _ (ih h)

/-- Each partial assignment stays, or grows. -/
def Grows (ts ts' : List Assignment) : Prop := ∀ τ ∈ ts, ∃ τ' ∈ ts', Extends τ τ'

theorem Grows.refl (ts : List Assignment) : Grows ts ts := fun τ hτ => ⟨τ, hτ, Extends.refl τ⟩

theorem Grows.trans {ts' ts'' : List Assignment} (h : Grows ts ts') (h' : Grows ts' ts'') : Grows ts ts'' := by
  intro τ hτ
  obtain ⟨τ', hτ', hext⟩ := h τ hτ
  obtain ⟨τ'', hτ'', hext'⟩ := h' τ' hτ'
  exact ⟨τ'', hτ'', hext.trans hext'⟩

/-- Some partial assignment has the target. -/
def Covered (ts : List Assignment) (target : Target) : Prop := ∃ τ ∈ ts, isCovered target τ = true

theorem Covered.grows {ts' : List Assignment} (h : Covered ts target) (hg : Grows ts ts') : Covered ts' target := by
  obtain ⟨τ, hτ, hc⟩ := h
  obtain ⟨τ', hτ', hext⟩ := hg τ hτ
  exact ⟨τ', hτ', isCovered_extends hext hc⟩

theorem grows_cons {τ' : Assignment} {ts' : List Assignment} (h : Extends τ τ') (hg : Grows ts ts') :
    Grows (τ :: ts) (τ' :: ts') := by
  intro σ hσ
  rcases List.mem_cons.1 hσ with rfl | hσ
  · exact ⟨τ', List.mem_cons_self, h⟩
  · obtain ⟨σ', hσ', hext⟩ := hg σ hσ
    exact ⟨σ', List.mem_cons_of_mem _ hσ', hext⟩

private theorem mergeInto_grows : Grows ts (mergeInto target reqs ts) := by
  induction ts with
  | nil => exact fun τ hτ => nomatch hτ
  | cons τ rest ih =>
    unfold mergeInto
    split
    · exact grows_cons orInsert_extends (Grows.refl rest)
    · exact grows_cons (Extends.refl τ) ih

theorem extend_grows : Grows ts (extend space target ts) := by
  unfold extend
  split
  · exact mergeInto_grows
  · exact Grows.refl ts

private theorem mergeInto_covers (hreqs : Requires space target reqs) : Covered (mergeInto target reqs ts) target := by
  induction ts with
  | nil => exact ⟨reqs, List.mem_singleton_self reqs, isCovered_iff.2 hreqs.own⟩
  | cons τ rest ih =>
    unfold mergeInto
    split
    · rename_i hc
      exact ⟨_, List.mem_cons_self, covered_orInsert hreqs hc⟩
    · obtain ⟨τ', hτ', hc⟩ := ih
      exact ⟨τ', List.mem_cons_of_mem _ hτ', hc⟩

/-- A reachable target is covered once it is put into the partial assignments. -/
theorem extend_covers (h : (targetRequirements space target).isSome = true) : Covered (extend space target ts) target := by
  obtain ⟨reqs, hreqs⟩ := Option.isSome_iff_exists.1 h
  unfold extend
  rw [hreqs]
  exact mergeInto_covers (requires_of_some hreqs)

end PactJanus.Variant.Trace
