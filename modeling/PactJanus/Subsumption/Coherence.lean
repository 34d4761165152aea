import PactJanus.Subsumption.Compare

namespace PactJanus.Subsumption.Coherence

open PactJanus.Data.Json PactJanus.Shape PactJanus.Shape.Model PactJanus.Subsumption.Findings
open PactJanus.Subsumption.Classes PactJanus.Subsumption.Compare

/-! The verdict of a walk, against the findings it records. -/

/-- A finding that bears on the verdict. -/
def Bears (f : Finding) : Prop := f.severity ≠ .advisory

instance (f : Finding) : Decidable (Bears f) := inferInstanceAs (Decidable (f.severity ≠ .advisory))

/-- The three-valued conjunction of the verdicts of some findings. -/
def conjunction (findings : List Finding) : Verdict := (findings.map Finding.verdict).foldr Verdict.and .yes

/-- An outcome whose verdict is that of the findings that bear on it, none of them outside the path it is of. -/
structure Coherent (out : Out) (at' : String) : Prop where
  verdict : out.verdict = conjunction (out.findings.filter fun f => Bears f)
  extends' : ∀ f ∈ out.findings, at'.toList <+: f.path.toList

private theorem and_assoc (a b c : Verdict) : (a.and b).and c = a.and (b.and c) := by
  cases a <;> cases b <;> cases c <;> rfl

private theorem yes_and (a : Verdict) : Verdict.yes.and a = a := by cases a <;> rfl

private theorem and_yes (a : Verdict) : a.and .yes = a := by cases a <;> rfl

private theorem conjunction_append (first second : List Finding) :
    conjunction (first ++ second) = (conjunction first).and (conjunction second) := by
  induction first with
  | nil => exact (yes_and _).symm
  | cons f first ih =>
    change f.verdict.and (conjunction (first ++ second)) = (f.verdict.and (conjunction first)).and (conjunction second)
    rw [ih, and_assoc]

section Outs

variable {out other : Out} {at' : String}

theorem coherent_yes (at' : String) : Coherent .yes at' := ⟨rfl, List.forall_mem_nil _⟩

private theorem coherent_single {f : Finding} (hbears : Bears f) (hpath : at'.toList <+: f.path.toList) :
    Coherent ⟨f.verdict, [f]⟩ at' := by
  have hkept : [f].filter (fun f => Bears f) = [f] := List.filter_cons_of_pos (decide_eq_true hbears)
  refine ⟨?_, List.forall_mem_singleton.2 hpath⟩
  change f.verdict = conjunction ([f].filter fun f => Bears f)
  rw [hkept]
  exact (and_yes f.verdict).symm

private theorem coherent_no {f : Finding} (hverdict : f.verdict = .no) (hbears : Bears f)
    (hpath : at'.toList <+: f.path.toList) : Coherent (.no f) at' := by
  have h := coherent_single hbears hpath
  rw [hverdict] at h
  exact h

private theorem coherent_unknown {f : Finding} (hverdict : f.verdict = .unknown) (hbears : Bears f)
    (hpath : at'.toList <+: f.path.toList) : Coherent (.unknown f) at' := by
  have h := coherent_single hbears hpath
  rw [hverdict] at h
  exact h

/-- A new finding of the verdict `no` at or under a path. -/
private theorem coherent_new_no {path kind : String} {p c : Side} {reason : String} (h : at'.toList <+: path.toList) :
    Coherent (.no (.new path .no kind p c reason)) at' := coherent_no rfl (fun hsame => nomatch hsame) h

private theorem coherent_new_unknown {kind : String} {p c : Side} {reason : String} :
    Coherent (.unknown (.new at' .unknown kind p c reason)) at' :=
  coherent_unknown rfl (fun hsame => nomatch hsame) List.prefix_rfl

theorem Coherent.and (h : Coherent out at') (hother : Coherent other at') : Coherent (out.and other) at' := by
  refine ⟨?_, ?_⟩
  · change out.verdict.and other.verdict = conjunction ((out.findings ++ other.findings).filter _)
    rw [List.filter_append, conjunction_append, h.verdict, hother.verdict]
  · intro f hf
    rcases List.mem_append.1 hf with hf | hf
    · exact h.extends' f hf
    · exact hother.extends' f hf

theorem coherent_all {outs : List Out} (h : ∀ out ∈ outs, Coherent out at') : Coherent (.all outs) at' :=
  List.foldlRecOn (motive := fun out => Coherent out at') outs Out.and (coherent_yes at') fun _ hout other hother =>
    hout.and (h other hother)

/-- An outcome of a path is one of the paths it extends. -/
theorem Coherent.mono {under : String} (h : Coherent out under) (hpath : at'.toList <+: under.toList) :
    Coherent out at' := ⟨h.verdict, fun f hf => hpath.trans (h.extends' f hf)⟩

end Outs

/-! The steps of a path only lengthen it. -/

private theorem extends_append (at' step : String) : at'.toList <+: (at' ++ step).toList := by
  rw [String.toList_append]
  exact List.prefix_append _ _

private theorem extends_append₂ (at' a b : String) : at'.toList <+: (at' ++ a ++ b).toList :=
  (extends_append at' a).trans (extends_append (at' ++ a) b)

private theorem extends_append₃ (at' a b c : String) : at'.toList <+: (at' ++ a ++ b ++ c).toList :=
  (extends_append₂ at' a b).trans (extends_append (at' ++ a ++ b) c)

/-! Each table of the walk, given that the walk on the pairs under it is coherent. -/

section Walk

variable {walk : Walk} {node : NodeWalk} {p c : ShapeNode} {at' : String}

open Walk

theorem coherent_cardinality (pmin : UInt64) (pmax : Option UInt64) (cmin : UInt64) (cmax : Option UInt64) (unit : String) :
    Coherent (cardinality pmin pmax cmin cmax at' unit) at' := by
  unfold cardinality
  split
  · exact coherent_yes at'
  · exact coherent_new_no List.prefix_rfl

theorem coherent_literalSet (options : List Json) : Coherent (literalSet p c options at') at' := by
  unfold literalSet
  split
  · split
    · exact coherent_yes at'
    · exact coherent_new_no List.prefix_rfl
  · exact coherent_new_no List.prefix_rfl

theorem coherent_kinds : Coherent (kinds p c at') at' := by
  unfold kinds
  split
  · split
    · exact coherent_yes at'
    · exact coherent_new_no List.prefix_rfl
  · exact coherent_yes at'
  · exact coherent_new_no List.prefix_rfl
  · exact coherent_new_unknown

theorem coherent_literals : Coherent (walk.literals p c at') at' := by
  unfold literals
  split
  · split
    · exact coherent_yes at'
    · exact coherent_new_no List.prefix_rfl
    · exact coherent_new_unknown
  · unfold providerLiterals
    extract_lets decided
    split
    · exact coherent_new_no List.prefix_rfl
    · split
      · exact coherent_new_unknown
      · exact coherent_yes at'
  · split
    · split
      · exact coherent_literalSet _
      · exact coherent_new_unknown
    · exact coherent_literalSet _
    · exact coherent_kinds

theorem coherent_emptiness : Coherent (walk.emptiness p c at') at' := by
  unfold emptiness
  split
  · split
    · exact coherent_yes at'
    · exact coherent_new_no List.prefix_rfl
    · exact coherent_new_unknown
  · exact coherent_new_no List.prefix_rfl
  · exact coherent_literals

theorem coherent_conservative : Coherent (walk.conservative p c at') at' := by
  unfold conservative
  extract_lets undecided isString
  have hundecided : Coherent undecided at' := coherent_new_unknown
  split
  · exact coherent_yes at'
  · split
    · split
      · extract_lets outside
        split
        · exact coherent_yes at'
        · exact coherent_new_no List.prefix_rfl
      · exact hundecided
    · exact hundecided

variable (hnode : ∀ p c at', Coherent (node p c at') at')
include hnode

theorem coherent_member (ps : List (String × ShapeNode)) (m : String × ShapeNode) :
    Coherent (member node ps m at') at' := by
  have hpath : at'.toList <+: (Path.member at' m.1).toList := extends_append₂ at' "." m.1
  unfold member
  split
  · exact (hnode _ _ _).mono hpath
  · split
    · exact coherent_yes at'
    · exact coherent_new_no hpath

theorem coherent_oneOfPair (pd : String) (ps : List (String × ShapeNode)) (cd : String) (cs : List (String × ShapeNode)) :
    Coherent (oneOfPair node p c pd ps cd cs at') at' := by
  unfold oneOfPair
  split
  · exact coherent_new_unknown
  · refine coherent_all fun out hout => ?_
    obtain ⟨alternative, -, rfl⟩ := List.mem_map.1 hout
    extract_lets literals
    split
    · exact (hnode _ _ _).mono (extends_append₂ at' "@" _)
    · exact coherent_new_no (extends_append₂ at' "@" _)

theorem coherent_insideAlternative (discriminator : String) (alternatives : List (String × ShapeNode)) :
    Coherent (insideAlternative node p c discriminator alternatives at') at' := by
  unfold insideAlternative
  split
  · exact (hnode _ _ _).mono (extends_append₂ at' "@" _)
  · exact coherent_new_unknown

private theorem coherent_entries {α : Type} {items : List α} (entry : Nat → α → ShapeNode × ShapeNode) :
    ∀ out ∈ items.mapIdx (fun index item => node (entry index item).1 (entry index item).2 (Path.arrayIndex at' index)),
      Coherent out at' := by
  intro out hout
  obtain ⟨index, -, rfl⟩ := List.mem_mapIdx.1 hout
  exact (hnode _ _ _).mono (extends_append₃ at' "[" index.repr "]")

theorem coherent_collections : Coherent (walk.collections node p c at') at' := by
  unfold collections
  split
  · refine coherent_all fun out hout => ?_
    obtain ⟨m, -, rfl⟩ := List.mem_map.1 hout
    exact coherent_member hnode _ m
  · split
    · exact coherent_new_no List.prefix_rfl
    · exact coherent_all (coherent_entries hnode fun _ pair => pair)
  · exact (coherent_cardinality _ _ _ _ _).and ((hnode _ _ _).mono (extends_append at' "[*]"))
  · rename_i p' _ _ _ _ _
    exact coherent_all (List.forall_mem_cons.2
      ⟨coherent_cardinality _ _ _ _ _, coherent_entries hnode fun _ entry => (p', entry)⟩)
  · rename_i c' _ _ _ _
    exact coherent_all (List.forall_mem_cons.2
      ⟨coherent_cardinality _ _ _ _ _, coherent_entries hnode fun _ entry => (entry, c')⟩)
  · exact ((coherent_cardinality _ _ _ _ _).and ((hnode _ _ _).mono (extends_append at' _))).and
      ((hnode _ _ _).mono (extends_append at' _))
  · exact coherent_emptiness

theorem coherent_exact : Coherent (walk.exact node p c at') at' := by
  unfold exact
  split
  · exact coherent_oneOfPair hnode _ _ _ _
  · refine coherent_all fun out hout => ?_
    obtain ⟨alternative, -, rfl⟩ := List.mem_map.1 hout
    exact (hnode _ _ _).mono (extends_append₂ at' "@" _)
  · exact coherent_insideAlternative hnode _ _
  · exact coherent_collections hnode

theorem coherent_operators : Coherent (walk.operators node p c at') at' := by
  unfold operators
  split
  · exact coherent_yes at'
  · split
    · exact coherent_new_unknown
    · unfold table
      split
      · exact coherent_yes at'
      · split
        · exact coherent_yes at'
        · exact coherent_new_no List.prefix_rfl
        · split
          · exact coherent_new_no List.prefix_rfl
          · split
            · exact coherent_conservative
            · exact coherent_exact hnode

theorem coherent_valueNode : Coherent (walk.valueNode node p c at') at' := by
  unfold valueNode
  split
  · exact coherent_yes at'
  · extract_lets provider consumer widenedAbsence widenedNull presence
    have hpresence : Coherent presence at' := by
      unfold presence
      split
      · exact coherent_new_no List.prefix_rfl
      · exact coherent_yes at'
    split
    · exact hpresence
    · exact hpresence.and (coherent_new_no List.prefix_rfl)
    · exact hpresence.and (coherent_operators hnode)

end Walk

/-- A caveat only annotates the findings of its path, and adds one that does not bear on the verdict. -/
theorem coherent_caveat {walk : Walk} {out : Out} {p c : ShapeNode} {at' : String} (h : Coherent out at') :
    Coherent (walk.caveat out p c at') at' := by
  unfold Walk.caveat
  extract_lets applicable documents findings
  split
  · exact h
  · have hfindings : Coherent ⟨out.verdict, findings⟩ at' := by
      have hkept : ∀ fs : List Finding,
          conjunction ((fs.map fun f => if f.path = at' then { f with excludedBy := documents } else f).filter
            fun f => Bears f) = conjunction (fs.filter fun f => Bears f) := by
        intro fs
        induction fs with
        | nil => rfl
        | cons f fs ih =>
          have hsame : (if f.path = at' then { f with excludedBy := documents } else f).severity = f.severity ∧
              (if f.path = at' then { f with excludedBy := documents } else f).verdict = f.verdict := by
            split <;> exact ⟨rfl, rfl⟩
          have hbears : Bears (if f.path = at' then { f with excludedBy := documents } else f) ↔ Bears f := by
            rw [Bears, Bears, hsame.1]
          rw [List.map_cons, List.filter_cons, List.filter_cons]
          simp only [hbears]
          split
          · change Verdict.and _ _ = Verdict.and _ _
            rw [hsame.2]
            exact congrArg _ ih
          · exact ih
      refine ⟨h.verdict.trans (hkept out.findings).symm, fun f hf => ?_⟩
      obtain ⟨g, hg, rfl⟩ := List.mem_map.1 hf
      have hpath := h.extends' g hg
      split
      · exact hpath
      · exact hpath
    split
    · refine ⟨?_, ?_⟩
      · rw [List.filter_append, conjunction_append, ← hfindings.verdict]
        exact (and_yes out.verdict).symm
      · intro f hf
        rcases List.mem_append.1 hf with hf | hf
        · exact hfindings.extends' f hf
        · obtain rfl := List.mem_singleton.1 hf
          exact List.prefix_rfl
    · exact hfindings

theorem coherent_nodeWithin (walk : Walk) (fuel : Nat) (p c : ShapeNode) (at' : String) :
    Coherent (walk.nodeWithin fuel p c at') at' := by
  induction fuel generalizing p c at' with
  | zero => exact coherent_new_unknown
  | succ fuel ih => exact coherent_caveat (coherent_valueNode ih)

/-- The verdict of a walk is the three-valued conjunction of the verdicts of its findings that are not advisory; there is
one of these wherever it is not `yes`; and every finding's path extends the path the walk started at. -/
theorem verdict_coheres (walk : Walk) (p c : ShapeNode) (at' : String) :
    (walk.node p c at').verdict = conjunction ((walk.node p c at').findings.filter fun f => Bears f) ∧
      ((walk.node p c at').verdict ≠ .yes → ∃ f ∈ (walk.node p c at').findings, f.severity ≠ .advisory) ∧
      ∀ f ∈ (walk.node p c at').findings, at'.toList <+: f.path.toList := by
  have h : Coherent (walk.node p c at') at' := coherent_nodeWithin walk _ p c at'
  refine ⟨h.verdict, fun hne => ?_, h.extends'⟩
  cases hbearing : (walk.node p c at').findings.filter fun f => Bears f with
  | nil =>
    rw [h.verdict, hbearing] at hne
    exact absurd rfl hne
  | cons f rest =>
    obtain ⟨hf, hbears⟩ := List.mem_filter.1 (hbearing ▸ List.mem_cons_self : f ∈ _)
    exact ⟨f, hf, of_decide_eq_true hbears⟩

end PactJanus.Subsumption.Coherence
