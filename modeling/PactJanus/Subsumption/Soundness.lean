import PactJanus.Plan.Semantics
import PactJanus.Subsumption.Compare
import PactJanus.Subsumption.Identity
import PactJanus.Subsumption.Weight

namespace PactJanus.Subsumption.Soundness

open PactJanus.Data.Json PactJanus.Data.Equality PactJanus.Lib.Lists PactJanus.Shape PactJanus.Shape.Model
  PactJanus.Shape.Valid PactJanus.Shape.Nodes PactJanus.Shape.Admits PactJanus.Shape.Alternatives
  PactJanus.Plan.Value PactJanus.Plan.Result PactJanus.Plan.Navigation PactJanus.Plan.Outcome PactJanus.Plan.Accepts
  PactJanus.Plan.Documents PactJanus.Plan.Semantics PactJanus.Plan.Verdict PactJanus.Subsumption.Findings PactJanus.Subsumption.Classes
  PactJanus.Subsumption.Residual PactJanus.Subsumption.Scope PactJanus.Subsumption.Identity
  PactJanus.Subsumption.Compare PactJanus.Subsumption.Compare.Walk PactJanus.Subsumption.Weight

/-! A comparison that answers `yes` answers rightly. -/

/-- A walk whose `yes` is containment. -/
def Sound (node : NodeWalk) : Prop :=
  ∀ p c at', Compared p → Compared c → (node p c at').verdict = .yes → Within p c

section Operators

variable {walk : Walk} {node : NodeWalk} {pe ce : Option Example} {pg cg : Option Json} {p c : ShapeNode} {at' : String}

/-! Sizes and literals. -/

theorem within_interval {pmin cmin : UInt64} {pmax cmax : Option UInt64}
    (h : intervalWithin pmin pmax cmin cmax = true) {size : Nat} (hsize : withinBounds pmin pmax size = true) :
    withinBounds cmin cmax size = true := by
  simp only [intervalWithin, withinBounds, Bool.and_eq_true, decide_eq_true_eq] at h hsize ⊢
  refine ⟨(UInt64.le_iff_toNat_le.1 h.1).trans hsize.1, ?_⟩
  cases cmax with
  | none => rfl
  | some upper =>
    cases pmax with
    | none => exact absurd h.2 (by simp)
    | some lower =>
      have hle : lower.toNat ≤ upper.toNat := UInt64.le_iff_toNat_le.1 (by simpa using h.2)
      simp only [Option.all_some, decide_eq_true_eq] at hsize ⊢
      exact hsize.2.trans hle

theorem cardinality_yes {pmin cmin : UInt64} {pmax cmax : Option UInt64} {unit : String} :
    (cardinality pmin pmax cmin cmax at' unit).verdict = .yes ↔ intervalWithin pmin pmax cmin cmax = true := by
  unfold cardinality
  split <;> simp_all

theorem distinct_options {options : List Json} (h : Compared ⟨pe, pg, .anyOf options⟩) {o : Json}
    (ho : o ∈ options) : distinctKeys o = true := by
  have hnode := h.valid
  simp only [nodeValid, Bool.and_eq_true, List.all_eq_true] at hnode
  exact hnode.1.1.2 o ho

theorem distinct_example {x : Example} {k : ShapeKind} (h : Compared ⟨some x, pg, k⟩) :
    distinctKeys x.value = true := (wellFormed_mk.1 h.tree).1

theorem admits_kind (k : ValueKind) (v : Json) : admitsContent ⟨pe, pg, .kind k⟩ (some v) = ofKind k v := rfl

theorem admits_anyOf (options : List Json) (v : Json) :
    admitsContent ⟨pe, pg, .anyOf options⟩ (some v) = options.any (valuesEqual v) := rfl

/-- The values listed of a shape are all that it admits, and documents. -/
theorem enumerate_all (h : Compared p) {values : List Json} (henumerate : enumerate p = some values) :
    (∀ x ∈ values, distinctKeys x = true) ∧
      ∀ v, admitsContent p (some v) = true → ∃ x ∈ values, valuesEqual v x = true := by
  obtain ⟨pe, pg, pk⟩ := p
  unfold enumerate at henumerate
  split at henumerate
  · rename_i hk
    obtain rfl : pk = .kind .null := hk
    obtain rfl := Option.some.inj henumerate
    refine ⟨by decide, fun v hv => ?_⟩
    rw [admits_kind] at hv
    cases v with
    | null => exact ⟨.null, List.mem_cons_self, rfl⟩
    | _ => exact absurd hv (by simp [ofKind])
  · rename_i hk
    obtain rfl : pk = .kind .boolean := hk
    obtain rfl := Option.some.inj henumerate
    refine ⟨by decide, fun v hv => ?_⟩
    rw [admits_kind] at hv
    cases v with
    | bool b => cases b with
      | true => exact ⟨.bool true, List.mem_cons_self, rfl⟩
      | false => exact ⟨.bool false, List.mem_cons_of_mem _ List.mem_cons_self, rfl⟩
    | _ => exact absurd hv (by simp [ofKind])
  · rename_i hk
    obtain rfl : pk = .equality := hk
    rw [h.plainExample_eq] at henumerate
    cases pe with
    | none => exact absurd henumerate (by simp)
    | some x =>
      obtain rfl := Option.some.inj henumerate
      refine ⟨List.forall_mem_singleton.2 (distinct_example h), fun v hv => ⟨x.value, List.mem_cons_self, ?_⟩⟩
      rwa [admits_equality h] at hv
  · rename_i options hk
    obtain rfl : pk = .anyOf options := hk
    obtain rfl := Option.some.inj henumerate
    refine ⟨fun o => distinct_options h, fun v hv => ?_⟩
    rw [admits_anyOf] at hv
    exact List.any_eq_true.1 hv
  · rename_i hk
    obtain rfl : pk = .array [] := hk
    obtain rfl := Option.some.inj henumerate
    refine ⟨by decide, fun v hv => ?_⟩
    cases v with
    | array items =>
      simp only [admitsContent, admitsWith, admitsEntries_iff, List.forall₂_nil_left_iff] at hv
      subst hv
      exact ⟨.array [], List.mem_cons_self, rfl⟩
    | _ => exact absurd hv (by simp [admitsContent, admitsWith])
  · exact absurd henumerate (by simp)

/-- A shape inside a finite set of literals admits only what equals one of them. -/
private theorem literalSet_yes (hp : Compared p) {options : List Json} (h : (literalSet p c options at').verdict = .yes)
    (hoptions : ∀ o ∈ options, distinctKeys o = true) {v : Json} (hadmits : admitsContent p (some v) = true) :
    options.any (valuesEqual v) = true := by
  unfold literalSet at h
  split at h
  · rename_i values henumerate
    split at h
    · rename_i hall
      obtain ⟨hdistinct, hlisted⟩ := enumerate_all hp henumerate
      obtain ⟨x, hx, heq⟩ := hlisted v hadmits
      obtain ⟨o, ho, heq'⟩ := List.any_eq_true.1 (List.all_eq_true.1 hall x hx)
      exact List.any_eq_true.2
        ⟨o, ho, valuesEqual_trans heq (valuesEqual_symm (hoptions o ho) (hdistinct x hx) heq')⟩
    · exact absurd h (by simp)
  · exact absurd h (by simp)

/-! What equal values have in common. -/

theorem class_of_equal {a b : Json} (h : valuesEqual a b = true) : classOfValue a = classOfValue b := by
  cases a <;> cases b <;> first | rfl | exact absurd h (by simp [valuesEqual, equalBy])

theorem kindAdmits_eq (k : ValueKind) (v : Json) : kindAdmits k v = ofKind k v := by
  cases k <;> cases v <;> rfl

private theorem ofKind_of_equal {k : ValueKind} (hk : isCompared (.kind k) = true) {a b : Json}
    (h : valuesEqual a b = true) : ofKind k a = ofKind k b := by
  cases k with
  | integer | decimal => exact absurd hk (by simp [isCompared])
  | _ => cases a <;> cases b <;> first | rfl | exact absurd h (by simp [valuesEqual, equalBy])

theorem hasContent_eq (v : Json) : hasContent v = !isEmptyValue v := by
  cases v <;> rfl

theorem empty_of_equal {a b : Json} (h : valuesEqual a b = true) : isEmptyValue a = isEmptyValue b := by
  cases a with
  | string s =>
    cases b with
    | string t => exact (beq_iff_eq.1 h : s = t) ▸ rfl
    | _ => exact absurd h (by simp [valuesEqual, equalBy])
  | array items =>
    cases b with
    | array others =>
      have hlen := (equalBy_array.1 h).length_eq
      cases items <;> cases others <;> first | rfl | exact absurd hlen (by simp)
    | _ => exact absurd h (by simp [valuesEqual, equalBy])
  | object members =>
    cases b with
    | object others =>
      have hlen := (equalBy_object.1 h).1
      cases members <;> cases others <;> first | rfl | exact absurd hlen (by simp)
    | _ => exact absurd h (by simp [valuesEqual, equalBy])
  | _ => cases b <;> first | rfl | exact absurd h (by simp [valuesEqual, equalBy])

/-- A consumer that decides a literal in its favour admits every value equal to it. -/
theorem admitsValue_yes (hc : Compared c) (hresidual : isResidual c.kind = true) {libraries : Libraries} {o v : Json}
    (ho : distinctKeys o = true) (h : Classes.admitsValue libraries c o = some true) (heq : valuesEqual v o = true) :
    admitsContent c (some v) = true := by
  obtain ⟨ce, cg, ck⟩ := c
  cases ck with
  | any => rfl
  | kind k =>
    have hk : kindAdmits k o = true := by simpa [Classes.admitsValue] using h
    rw [admits_kind, ofKind_of_equal hc.kind heq, ← kindAdmits_eq]
    exact hk
  | equality =>
    simp only [Classes.admitsValue, hc.plainExample_eq] at h
    cases ce with
    | none => exact absurd h (by simp)
    | some x =>
      have hx : valuesEqual x.value o = true := Option.some.inj h
      rw [admits_equality hc]
      exact valuesEqual_trans heq (valuesEqual_symm (distinct_example hc) ho hx)
  | anyOf options =>
    have hoption : options.any (fun x => valuesEqual x o) = true := by simpa only [Classes.admitsValue, Option.some.injEq] using h
    obtain ⟨x, hx, hxo⟩ := List.any_eq_true.1 hoption
    rw [admits_anyOf]
    exact List.any_eq_true.2 ⟨x, hx, valuesEqual_trans heq (valuesEqual_symm (distinct_options hc hx) ho hxo)⟩
  | notEmpty =>
    have hempty : (!isEmptyValue o) = true := by simpa only [Classes.admitsValue, Option.some.injEq] using h
    rw [admits_leaf rfl (by simp), Shape.Admits.admitsValue, hasContent_eq, empty_of_equal heq]
    exact hempty
  | semver => exact absurd hc.kind (by simp [isCompared])
  | optional | nullable | forbidden => exact absurd hresidual (by simp [isResidual])
  | _ => exact absurd h (by simp [Classes.admitsValue])

/-! The tables, each of which is contained where it answers `yes`. -/

private theorem kinds_yes (hp : Compared p) (hresidual : isResidual p.kind = true)
    (h : (kinds p c at').verdict = .yes) : Within p c := by
  intro slot hslot hadmits
  obtain ⟨v, rfl⟩ := admits_some_of_residual hresidual hadmits
  obtain ⟨pe, pg, pk⟩ := p
  obtain ⟨ce, cg, ck⟩ := c
  unfold kinds at h
  simp only [ShapeNode.kind_mk] at h
  split at h
  · rename_i pk ck
    split at h
    · rename_i hsubset
      rw [admits_kind] at hadmits ⊢
      have hkind := hp.kind
      cases pk with
      | integer | decimal => exact absurd hkind (by simp [isCompared])
      | _ => cases ck <;> first | exact hadmits | exact absurd hsubset (by decide)
    · exact absurd h (by simp)
  · exact absurd hp.kind (by simp [isCompared])
  · exact absurd h (by simp)
  · exact absurd h (by simp)

private theorem providerLiterals_yes {options : List Json} (hp : Compared ⟨pe, pg, .anyOf options⟩) (hc : Compared c)
    (hcresidual : isResidual c.kind = true)
    (h : (walk.providerLiterals ⟨pe, pg, .anyOf options⟩ c options at').verdict = .yes) :
    Within ⟨pe, pg, .anyOf options⟩ c := by
  intro slot hslot hadmits
  obtain ⟨v, rfl⟩ := admits_some_of_residual (S := ⟨pe, pg, .anyOf options⟩) rfl hadmits
  rw [admits_anyOf] at hadmits
  obtain ⟨o, ho, heq⟩ := List.any_eq_true.1 hadmits
  unfold providerLiterals at h
  dsimp only at h
  split at h
  · exact absurd h (by simp)
  · rename_i hfalse
    split at h
    · exact absurd h (by simp)
    · rename_i hnone
      have hmem : Classes.admitsValue walk.libraries c o ∈ options.map (Classes.admitsValue walk.libraries c) :=
        List.mem_map_of_mem ho
      cases hdecided : Classes.admitsValue walk.libraries c o with
      | none => exact absurd (List.any_eq_true.2 ⟨none, hdecided ▸ hmem, rfl⟩) hnone
      | some decided =>
        cases decided with
        | true => exact admitsValue_yes hc hcresidual (distinct_options hp ho) hdecided heq
        | false => exact absurd (List.any_eq_true.2 ⟨some false, hdecided ▸ hmem, rfl⟩) hfalse

private theorem literals_yes (hp : Compared p) (hc : Compared c) (hpresidual : isResidual p.kind = true)
    (hcresidual : isResidual c.kind = true) (h : (walk.literals p c at').verdict = .yes) : Within p c := by
  obtain ⟨pe, pg, pk⟩ := p
  obtain ⟨ce, cg, ck⟩ := c
  unfold Walk.literals at h
  simp only [ShapeNode.kind_mk, ShapeNode.example?_mk] at h
  split at h
  · intro slot hslot hadmits
    obtain ⟨v, rfl⟩ := admits_some_of_residual (S := ⟨pe, pg, .equality⟩) rfl hadmits
    rw [admits_equality hp] at hadmits
    obtain ⟨x, rfl, heq⟩ := (Option.any_eq_true _ _).1 hadmits
    split at h
    · rename_i hadmitted
      have hx : x.encoded = none := by simpa using hp.plain
      simp only [Option.bind_some, admitsExample, hx, Option.isSome_none, Bool.false_eq_true, if_false] at hadmitted
      exact admitsValue_yes hc hcresidual (distinct_example hp) hadmitted heq
    · exact absurd h (by simp)
    · exact absurd h (by simp)
  · exact providerLiterals_yes hp hc hcresidual h
  · split at h
    · split at h
      · rename_i v hplain
        intro slot hslot hadmits
        obtain ⟨w, rfl⟩ := admits_some_of_residual (S := ⟨pe, pg, pk⟩) hpresidual hadmits
        rw [hc.plainExample_eq] at hplain
        obtain ⟨x, rfl, rfl⟩ := Option.map_eq_some_iff.1 hplain
        have hequal := literalSet_yes hp h (List.forall_mem_singleton.2 (distinct_example hc)) hadmits
        rw [admits_equality hc]
        simpa using hequal
      · exact absurd h (by simp)
    · intro slot hslot hadmits
      obtain ⟨w, rfl⟩ := admits_some_of_residual (S := ⟨pe, pg, pk⟩) hpresidual hadmits
      exact literalSet_yes hp h (fun o => distinct_options hc) hadmits
    · exact kinds_yes hp hpresidual h

private theorem nonEmpty_of_bounds {min : UInt64} {max : Option UInt64} {size : Nat} (hmin : (1 : UInt64) ≤ min)
    (h : withinBounds min max size = true) : 0 < size := by
  simp only [withinBounds, Bool.and_eq_true, decide_eq_true_eq] at h
  have := UInt64.le_iff_toNat_le.1 hmin
  simp only [UInt64.toNat_one] at this
  omega

/-- A shape that admits only non-empty values has no empty one. -/
theorem nonEmpty_yes (hp : Compared p) (h : admitsOnlyNonEmpty p = some true) {v : Json}
    (hadmits : admitsContent p (some v) = true) : hasContent v = true := by
  obtain ⟨pe, pg, pk⟩ := p
  rw [hasContent_eq]
  cases pk with
  | kind k =>
    rw [admits_kind] at hadmits
    cases k with
    | string | null => exact absurd h (by simp [admitsOnlyNonEmpty])
    | _ => cases v <;> first | rfl | exact absurd hadmits (by simp [ofKind])
  | equality =>
    rw [admits_equality hp] at hadmits
    obtain ⟨x, rfl, heq⟩ := (Option.any_eq_true _ _).1 hadmits
    have hx : x.encoded = none := by simpa using hp.plain
    have hempty : (!isEmptyExample x) = true := by simpa [admitsOnlyNonEmpty] using h
    rw [isEmptyExample, hx] at hempty
    rwa [empty_of_equal heq]
  | anyOf options =>
    rw [admits_anyOf] at hadmits
    obtain ⟨o, ho, heq⟩ := List.any_eq_true.1 hadmits
    have hall : options.all (fun o => !isEmptyValue o) = true := by
      simpa only [admitsOnlyNonEmpty, ShapeNode.kind_mk, Option.some.injEq] using h
    rw [empty_of_equal heq]
    exact List.all_eq_true.1 hall o ho
  | array entries =>
    have hentries : entries.isEmpty = false := by simpa [admitsOnlyNonEmpty] using h
    cases v with
    | array items =>
      simp only [admitsContent, admitsWith, admitsEntries_iff] at hadmits
      cases items with
      | nil => simp [List.forall₂_nil_right_iff.1 hadmits] at hentries
      | cons => rfl
    | _ => exact absurd hadmits (by simp [admitsContent, admitsWith])
  | eachLike items min max =>
    have hmin : (1 : UInt64) ≤ min := by simpa [admitsOnlyNonEmpty] using h
    cases v with
    | array elements =>
      simp only [admitsContent, admitsWith, Bool.and_eq_true] at hadmits
      cases elements with
      | nil => exact absurd (nonEmpty_of_bounds hmin hadmits.1) (by simp)
      | cons => rfl
    | _ => exact absurd hadmits (by simp [admitsContent, admitsWith])
  | eachEntry keys values min max =>
    have hmin : (1 : UInt64) ≤ min := by simpa [admitsOnlyNonEmpty] using h
    cases v with
    | object fields =>
      simp only [admitsContent, admitsWith, Bool.and_eq_true] at hadmits
      cases fields with
      | nil => exact absurd (nonEmpty_of_bounds hmin hadmits.1) (by simp)
      | cons => rfl
    | _ => exact absurd hadmits (by simp [admitsContent, admitsWith])
  | object members =>
    have hany : members.any (fun p => !(decompose p.2).absent) = true := by simpa [admitsOnlyNonEmpty] using h
    obtain ⟨q, hq, hpresent⟩ := List.any_eq_true.1 hany
    cases v with
    | object fields =>
      simp only [admitsContent, admitsWith, admitsMembers_iff] at hadmits
      cases fields with
      | nil =>
        obtain ⟨-, habsent⟩ | ⟨hnone, -⟩ | ⟨rest, hrest, hadmitted⟩ := admits_iff.1 (hadmits q hq)
        · exact absurd hpresent (by simp [habsent])
        · exact absurd hnone (by simp)
        · exact absurd hadmitted (by simp [residual_none (rest_residual hrest)])
      | cons => rfl
    | _ => exact absurd hadmits (by simp [admitsContent, admitsWith])
  | semver => exact absurd hp.kind (by simp [isCompared])
  | _ => exact absurd h (by simp [admitsOnlyNonEmpty])

private theorem emptiness_yes (hp : Compared p) (hc : Compared c) (hpresidual : isResidual p.kind = true)
    (hcresidual : isResidual c.kind = true) (h : (walk.emptiness p c at').verdict = .yes) : Within p c := by
  obtain ⟨pe, pg, pk⟩ := p
  obtain ⟨ce, cg, ck⟩ := c
  unfold emptiness at h
  simp only [ShapeNode.kind_mk] at h
  split at h
  · intro slot hslot hadmits
    obtain ⟨v, rfl⟩ := admits_some_of_residual (S := ⟨pe, pg, pk⟩) hpresidual hadmits
    split at h
    · rename_i honly
      rw [admits_leaf rfl (by simp)]
      exact nonEmpty_yes hp honly hadmits
    · exact absurd h (by simp)
    · exact absurd h (by simp)
  · exact absurd h (by simp)
  · exact literals_yes hp hc hpresidual hcresidual h

/-! Collections and unions, where what is under them is contained wherever the walk says so. -/

private theorem toNat_length {k : Nat} (h : k ≤ maxNodes) : (UInt64.ofNat k).toNat = k := by
  rw [UInt64.toNat_ofNat']
  exact Nat.mod_eq_of_lt (h.trans_lt (by decide))

private theorem fixed_size {n k : Nat} (hk : k ≤ maxNodes)
    (h : withinBounds (UInt64.ofNat k) (some (UInt64.ofNat k)) n = true) : n = k := by
  simp only [withinBounds, toNat_length hk, Option.all_some, Bool.and_eq_true, decide_eq_true_eq] at h
  omega

private theorem fixed_within {k : Nat} (hk : k ≤ maxNodes) :
    withinBounds (UInt64.ofNat k) (some (UInt64.ofNat k)) k = true := by
  simp [withinBounds, toNat_length hk]

private theorem object_yes {ps cs : List (String × ShapeNode)} (hnode : Sound node) (hp : Compared ⟨pe, pg, .object ps⟩)
    (hc : Compared ⟨ce, cg, .object cs⟩)
    (h : (Out.all ((membersByName cs).map fun c => member node ps c at')).verdict = .yes) :
    Within ⟨pe, pg, .object ps⟩ ⟨ce, cg, .object cs⟩ := by
  intro slot hslot hadmits
  match slot, hadmits with
  | some (.object fields), hadmits =>
    simp only [admitsContent, admitsWith, admitsMembers_iff] at hadmits ⊢
    intro q hq
    have hmember := Out.all_eq_yes.1 h _ (List.mem_map_of_mem (mem_membersByName.2 hq))
    have hfield : ∀ v ∈ fields.lookup q.1, distinctKeys v = true := fun v hv =>
      (distinctKeys_object.1 (hslot _ rfl)).2 _ (mem_of_lookup hv)
    unfold member at hmember
    split at hmember
    · rename_i p hlookup
      have hp' := mem_of_lookup hlookup
      exact hnode p q.2 _ (hp.child (List.mem_map_of_mem (f := Prod.snd) hp')) (hc.child (List.mem_map_of_mem hq)) hmember _
        hfield (hadmits _ hp')
    · split at hmember
      · rename_i hanything
        simp only [admitsAnythingOrAbsence, Bool.and_eq_true, Option.any_eq_true] at hanything
        obtain ⟨habsent, ⟨re, rg, rk⟩, hrest, hkind⟩ := hanything
        refine admits_iff.2 ?_
        cases hf : fields.lookup q.1 with
        | none => exact Or.inl ⟨rfl, habsent⟩
        | some v =>
          refine Or.inr (Or.inr ⟨_, hrest, ?_⟩)
          cases rk <;> first | rfl | exact absurd hkind (by simp)
      · exact absurd hmember (by simp)

private theorem array_yes {ps cs : List ShapeNode} (hnode : Sound node) (hp : Compared ⟨pe, pg, .array ps⟩)
    (hc : Compared ⟨ce, cg, .array cs⟩) (hlen : ps.length = cs.length)
    (h : (Out.all ((ps.zip cs).mapIdx fun i pair => node pair.1 pair.2 (Path.arrayIndex at' i))).verdict = .yes) :
    Within ⟨pe, pg, .array ps⟩ ⟨ce, cg, .array cs⟩ := by
  intro slot hslot hadmits
  match slot, hadmits with
  | some (.array items), hadmits =>
    simp only [admitsContent, admitsWith, admitsEntries_iff, List.forall₂_iff_get] at hadmits ⊢
    refine ⟨hlen.symm.trans hadmits.1, fun i hi hi' => ?_⟩
    have hzip : i < (ps.zip cs).length := by
      rw [List.length_zip, hlen]
      omega
    have hentry := Out.all_eq_yes.1 h _ (List.mem_mapIdx.2 ⟨i, hzip, rfl⟩)
    rw [List.getElem_zip] at hentry
    have hwithin := hnode _ _ _ (hp.child (List.getElem_mem (hlen ▸ hi))) (hc.child (List.getElem_mem hi)) hentry
    exact hwithin.some (distinctKeysAll_iff.1 (hslot _ rfl) _ (List.get_mem ..)) (hadmits.2 i (hlen ▸ hi) hi')

private theorem eachLike_yes {p c : ShapeNode} {pmin cmin : UInt64} {pmax cmax : Option UInt64}
    (hsize : intervalWithin pmin pmax cmin cmax = true) (hitems : Within p c) :
    Within ⟨pe, pg, .eachLike p pmin pmax⟩ ⟨ce, cg, .eachLike c cmin cmax⟩ := by
  intro slot hslot hadmits
  match slot, hadmits with
  | some (.array elements), hadmits =>
    simp only [admitsContent, admitsWith, Bool.and_eq_true, List.all_eq_true] at hadmits ⊢
    exact ⟨within_interval hsize hadmits.1, fun v hv =>
      hitems.some (distinctKeysAll_iff.1 (hslot _ rfl) v hv) (hadmits.2 v hv)⟩

private theorem eachLike_array_yes {p : ShapeNode} {cs : List ShapeNode} {pmin : UInt64} {pmax : Option UInt64}
    (hlen : cs.length ≤ maxNodes)
    (hsize : intervalWithin pmin pmax (UInt64.ofNat cs.length) (some (UInt64.ofNat cs.length)) = true)
    (hitems : ∀ c ∈ cs, Within p c) : Within ⟨pe, pg, .eachLike p pmin pmax⟩ ⟨ce, cg, .array cs⟩ := by
  intro slot hslot hadmits
  match slot, hadmits with
  | some (.array elements), hadmits =>
    simp only [admitsContent, admitsWith, Bool.and_eq_true, List.all_eq_true, admitsEntries_iff,
      List.forall₂_iff_get] at hadmits ⊢
    have hfixed := fixed_size hlen (within_interval hsize hadmits.1)
    refine ⟨hfixed.symm, fun i hi hi' => ?_⟩
    exact (hitems _ (List.get_mem ..)).some (distinctKeysAll_iff.1 (hslot _ rfl) _ (List.get_mem ..))
      (hadmits.2 _ (List.get_mem ..))

private theorem array_eachLike_yes {ps : List ShapeNode} {c : ShapeNode} {cmin : UInt64} {cmax : Option UInt64}
    (hlen : ps.length ≤ maxNodes)
    (hsize : intervalWithin (UInt64.ofNat ps.length) (some (UInt64.ofNat ps.length)) cmin cmax = true)
    (hitems : ∀ p ∈ ps, Within p c) : Within ⟨pe, pg, .array ps⟩ ⟨ce, cg, .eachLike c cmin cmax⟩ := by
  intro slot hslot hadmits
  match slot, hadmits with
  | some (.array items), hadmits =>
    simp only [admitsContent, admitsWith, Bool.and_eq_true, List.all_eq_true, admitsEntries_iff,
      List.forall₂_iff_get] at hadmits ⊢
    refine ⟨hadmits.1 ▸ within_interval hsize (fixed_within hlen), fun v hv => ?_⟩
    obtain ⟨i, hi, rfl⟩ := List.mem_iff_getElem.1 hv
    have hi' : i < ps.length := hadmits.1 ▸ hi
    exact (hitems _ (List.getElem_mem hi')).some (distinctKeysAll_iff.1 (hslot _ rfl) _ hv) (hadmits.2 i hi' hi)

private theorem admitsKey_eq (keys : Option ShapeNode) (key : String) :
    admitsKey hasContent keys key = admitsContent (keys.getD anyNode) (some (.string key)) := by
  cases keys <;> rfl

private theorem eachEntry_yes {pkeys ckeys : Option ShapeNode} {p c : ShapeNode} {pmin cmin : UInt64}
    {pmax cmax : Option UInt64} (hsize : intervalWithin pmin pmax cmin cmax = true)
    (hkeys : Within (pkeys.getD anyNode) (ckeys.getD anyNode)) (hvalues : Within p c) :
    Within ⟨pe, pg, .eachEntry pkeys p pmin pmax⟩ ⟨ce, cg, .eachEntry ckeys c cmin cmax⟩ := by
  intro slot hslot hadmits
  match slot, hadmits with
  | some (.object fields), hadmits =>
    simp only [admitsContent, admitsWith, Bool.and_eq_true, List.all_eq_true, admitsKey_eq] at hadmits ⊢
    exact ⟨within_interval hsize hadmits.1, fun q hq => ⟨hkeys.some rfl (hadmits.2 q hq).1,
      hvalues.some ((distinctKeys_object.1 (hslot _ rfl)).2 q hq) (hadmits.2 q hq).2⟩⟩

private theorem length_le {e : Option Example} {g : Option Json} {entries : List ShapeNode}
    (h : Compared ⟨e, g, .array entries⟩) : entries.length ≤ maxNodes := by
  have hnode := h.valid
  simp only [nodeValid, Bool.and_eq_true, decide_eq_true_eq] at hnode
  exact hnode.1

private theorem collections_yes (hnode : Sound node) (hp : Compared p) (hc : Compared c)
    (hpresidual : isResidual p.kind = true) (hcresidual : isResidual c.kind = true)
    (h : (walk.collections node p c at').verdict = .yes) : Within p c := by
  obtain ⟨pe, pg, pk⟩ := p
  obtain ⟨ce, cg, ck⟩ := c
  unfold collections at h
  simp only [ShapeNode.kind_mk] at h
  split at h
  · exact object_yes hnode hp hc h
  · split at h
    · exact absurd h (by simp)
    · rename_i hlen
      exact array_yes hnode hp hc (not_not.1 hlen) h
  · rw [Out.verdict_and, Verdict.and_eq_yes, cardinality_yes] at h
    exact eachLike_yes h.1 (hnode _ _ _ (hp.child List.mem_cons_self) (hc.child List.mem_cons_self) h.2)
  · rename_i p pmin pmax cs
    rw [Out.all_eq_yes, List.forall_mem_cons, cardinality_yes] at h
    refine eachLike_array_yes (length_le hc) h.1 fun c hmem => ?_
    obtain ⟨i, hi, rfl⟩ := List.mem_iff_getElem.1 hmem
    exact hnode _ _ _ (hp.child List.mem_cons_self) (hc.child hmem) (h.2 _ (List.mem_mapIdx.2 ⟨i, hi, rfl⟩))
  · rename_i ps c cmin cmax
    rw [Out.all_eq_yes, List.forall_mem_cons, cardinality_yes] at h
    refine array_eachLike_yes (length_le hp) h.1 fun p hmem => ?_
    obtain ⟨i, hi, rfl⟩ := List.mem_iff_getElem.1 hmem
    exact hnode _ _ _ (hp.child hmem) (hc.child List.mem_cons_self) (h.2 _ (List.mem_mapIdx.2 ⟨i, hi, rfl⟩))
  · rw [Out.verdict_and, Verdict.and_eq_yes, Out.verdict_and, Verdict.and_eq_yes, cardinality_yes] at h
    refine eachEntry_yes h.1.1 (hnode _ _ _ hp.keys hc.keys h.1.2) (hnode _ _ _ ?_ ?_ h.2)
    · exact hp.child (List.mem_append_right _ List.mem_cons_self)
    · exact hc.child (List.mem_append_right _ List.mem_cons_self)
  · exact emptiness_yes hp hc hpresidual hcresidual h

/-- A value other than null that an alternative admits selects it. -/
theorem selected_of_admits {alternative : ShapeNode} {discriminator : String} (h : Compared alternative)
    (hoptions : (discriminatorOptions discriminator alternative).isSome = true) {v : Json}
    (hadmits : admitsContent alternative (some v) = true) (hnull : v ≠ .null) :
    selectedBy discriminator alternative v = true := by
  obtain ⟨options, hoptions⟩ := Option.isSome_iff_exists.1 hoptions
  have hdiscriminator := hoptions
  rw [discriminatorOptions_eq] at hdiscriminator
  obtain ⟨n, hn, hliterals⟩ := Option.bind_eq_some_iff.1 hdiscriminator
  obtain ⟨members, hmembers, hlookup⟩ := Option.bind_eq_some_iff.1 hn
  have hobject : ∃ fields, v = .object fields ∧ ∀ p ∈ members, admitsContent p.2 (fields.lookup p.1) = true := by
    have hfields : ∀ e g, admitsContent ⟨e, g, .object members⟩ (some v) = true →
        ∃ fields, v = .object fields ∧ ∀ p ∈ members, admitsContent p.2 (fields.lookup p.1) = true := by
      intro e g hadmits
      cases v with
      | object fields => exact ⟨fields, rfl, admitsMembers_iff.1 hadmits⟩
      | _ => exact absurd hadmits (by simp [admitsContent, admitsWith])
    obtain ⟨e, g, k⟩ := alternative
    cases k with
    | object ms =>
      obtain rfl : ms = members := Option.some.inj hmembers
      exact hfields e g hadmits
    | nullable of =>
      obtain ⟨oe, og, ok⟩ := of
      cases ok with
      | object ms =>
        obtain rfl : ms = members := Option.some.inj hmembers
        have hof : isNull v = true ∨ admitsContent ⟨oe, og, .object ms⟩ (some v) = true := by
          simpa [admitsContent, admitsWith] using hadmits
        exact hfields oe og (hof.resolve_left fun h => hnull (isNull_iff.1 h))
      | _ => exact absurd hmembers (by simp [unwrapObjectMembers])
    | _ => exact absurd hmembers (by simp [unwrapObjectMembers])
  obtain ⟨fields, rfl, hfields⟩ := hobject
  have hmember := hfields _ (mem_of_lookup hlookup)
  have hplain : isPlain n = true := (h.nodes n (discriminatorNode_mem hn)).2
  refine selectedBy_iff.2 ?_
  obtain ⟨e, g, rfl, rfl⟩ | ⟨e, g, rfl⟩ := literalsOf_cases hliterals
  · have hencoded : e.encoded = none := by simpa [isPlain] using hplain
    cases htag : fields.lookup discriminator with
    | none => exact absurd hmember (by simp [htag, residual_none (S := ⟨some e, g, .equality⟩) rfl])
    | some tag =>
      refine ⟨tag, htag, _, hoptions, e.value, List.mem_cons_self, ?_⟩
      simpa [htag, admitsContent, admitsWith, Shape.Admits.admitsValue, exampleDocument, hencoded] using hmember
  · cases htag : fields.lookup discriminator with
    | none => exact absurd hmember (by simp [htag, residual_none (S := ⟨e, g, .anyOf options⟩) rfl])
    | some tag =>
      rw [htag, admits_anyOf] at hmember
      obtain ⟨o, ho, heq⟩ := List.any_eq_true.1 hmember
      exact ⟨tag, htag, _, hoptions, o, ho, heq⟩

private theorem union_options {e : Option Example} {g : Option Json} {discriminator : String}
    {alternatives : List (String × ShapeNode)} {default : Option String}
    (h : Compared ⟨e, g, .oneOf discriminator alternatives default⟩) {p : String × ShapeNode} (hp : p ∈ alternatives) :
    (discriminatorOptions discriminator p.2).isSome = true := by
  have hnode := h.valid
  simp only [nodeValid, alternativesValid, Bool.and_eq_true, List.all_eq_true] at hnode
  exact hnode.1.1.1.2 p hp

/-- A union admits what one of its alternatives admits, but null. -/
private theorem union_admits {e : Option Example} {g : Option Json} {discriminator : String}
    {alternatives : List (String × ShapeNode)} {default : Option String}
    (h : Compared ⟨e, g, .oneOf discriminator alternatives default⟩) {q : String × ShapeNode} (hq : q ∈ alternatives)
    {v : Json} (hadmits : admitsContent q.2 (some v) = true) (hnull : v ≠ .null) :
    admitsContent ⟨e, g, .oneOf discriminator alternatives default⟩ (some v) = true :=
  admitsWith_oneOf.2 ⟨v, rfl, q, hq,
    selected_of_admits (h.child (List.mem_map_of_mem hq)) (union_options h hq) hadmits hnull, hadmits⟩

private theorem selected_not_null {discriminator : String} {alternative : ShapeNode} {v : Json}
    (h : selectedBy discriminator alternative v = true) : v ≠ .null := by
  obtain ⟨tag, htag, -⟩ := selectedBy_iff.1 h
  rintro rfl
  exact absurd htag (by simp [Data.Json.get])

private theorem oneOfPair_yes {pd cd : String} {ps cs : List (String × ShapeNode)} {pdefault cdefault : Option String}
    (hnode : Sound node) (hp : Compared ⟨pe, pg, .oneOf pd ps pdefault⟩) (hc : Compared ⟨ce, cg, .oneOf cd cs cdefault⟩)
    (h : (oneOfPair node ⟨pe, pg, .oneOf pd ps pdefault⟩ ⟨ce, cg, .oneOf cd cs cdefault⟩ pd ps cd cs at').verdict = .yes) :
    Within ⟨pe, pg, .oneOf pd ps pdefault⟩ ⟨ce, cg, .oneOf cd cs cdefault⟩ := by
  intro slot hslot hadmits
  obtain ⟨v, rfl, q, hq, hselected, hadmitted⟩ := admitsWith_oneOf.1 hadmits
  unfold oneOfPair at h
  split at h
  · exact absurd h (by simp)
  · have halternative := Out.all_eq_yes.1 h _ (List.mem_map_of_mem hq)
    dsimp only at halternative
    split at halternative
    · rename_i matched hmatched
      have hmem := mem_matchedAlternative hmatched
      have hwithin := hnode _ _ _ (hp.child (List.mem_map_of_mem hq)) (hc.child (List.mem_map_of_mem hmem)) halternative
      exact union_admits hc hmem (hwithin _ hslot hadmitted) (selected_not_null hselected)
    · exact absurd halternative (by simp)

private theorem oneOf_left_yes {pd : String} {ps : List (String × ShapeNode)} {pdefault : Option String}
    (hnode : Sound node) (hp : Compared ⟨pe, pg, .oneOf pd ps pdefault⟩) (hc : Compared c)
    (h : (Out.all (ps.map fun q => node q.2 c (Path.alternative at' q.1))).verdict = .yes) :
    Within ⟨pe, pg, .oneOf pd ps pdefault⟩ c := by
  intro slot hslot hadmits
  obtain ⟨v, rfl, q, hq, -, hadmitted⟩ := admitsWith_oneOf.1 hadmits
  have halternative := Out.all_eq_yes.1 h _ (List.mem_map_of_mem hq)
  exact hnode _ _ _ (hp.child (List.mem_map_of_mem hq)) hc halternative _ hslot hadmitted

/-- A shape that binds a discriminator, and says nothing of presence, is an object. -/
private theorem object_of_literals {p : ShapeNode} {discriminator : String} (hresidual : isResidual p.kind = true)
    (h : discriminatorLiterals p discriminator ≠ []) : ∃ e g members, p = ⟨e, g, .object members⟩ := by
  obtain ⟨e, g, k⟩ := p
  have hrest : ∀ rest, (decompose ⟨e, g, k⟩).rest = some rest → (∃ members, rest.kind = .object members) →
      ∃ members, k = .object members := by
    rintro rest hrest ⟨members, hkind⟩
    cases k with
    | object members => exact ⟨members, rfl⟩
    | optional | nullable | forbidden => exact absurd hresidual (by simp [isResidual])
    | equality =>
      simp only [decompose] at hrest
      split at hrest
      · exact absurd hrest (by simp)
      · exact absurd hkind (by simp [← Option.some.inj hrest])
    | anyOf options =>
      simp only [decompose] at hrest
      split at hrest
      · simp only [Option.ite_none_left_eq_some, Option.some.injEq] at hrest
        exact absurd hkind (by simp [← hrest.2])
      · exact absurd hkind (by simp [← Option.some.inj hrest])
    | kind k =>
      cases k with
      | null => exact absurd hrest (by simp [decompose])
      | _ => exact absurd hkind (by simp [← Option.some.inj hrest])
    | _ => exact absurd hkind (by simp [← Option.some.inj hrest])
  unfold discriminatorLiterals at h
  split at h
  · rename_i re rg members heq
    obtain ⟨ms, rfl⟩ := hrest _ heq ⟨members, rfl⟩
    exact ⟨e, g, ms, rfl⟩
  · exact absurd rfl h

private theorem insideAlternative_yes {cd : String} {cs : List (String × ShapeNode)} {cdefault : Option String}
    (hnode : Sound node) (hp : Compared p) (hpresidual : isResidual p.kind = true)
    (hc : Compared ⟨ce, cg, .oneOf cd cs cdefault⟩)
    (h : (insideAlternative node p ⟨ce, cg, .oneOf cd cs cdefault⟩ cd cs at').verdict = .yes) :
    Within p ⟨ce, cg, .oneOf cd cs cdefault⟩ := by
  intro slot hslot hadmits
  obtain ⟨v, rfl⟩ := admits_some_of_residual hpresidual hadmits
  unfold insideAlternative at h
  split at h
  · rename_i matched hmatched
    have hmem := mem_matchedAlternative hmatched
    have hliterals : discriminatorLiterals p cd ≠ [] := by
      intro hnil
      rw [hnil] at hmatched
      have hnone : matchedAlternative (byDiscriminator cs cd) [] = none := rfl
      exact absurd hmatched (by simp [hnone])
    obtain ⟨e, g, members, rfl⟩ := object_of_literals hpresidual hliterals
    have hnull : v ≠ .null := by
      rintro rfl
      exact absurd hadmits (by simp [admitsContent, admitsWith])
    exact union_admits hc hmem (hnode _ _ _ hp (hc.child (List.mem_map_of_mem hmem)) h _ hslot hadmits) hnull
  · exact absurd h (by simp)

private theorem exact_yes (hnode : Sound node) (hp : Compared p) (hc : Compared c) (hpresidual : isResidual p.kind = true)
    (hcresidual : isResidual c.kind = true) (h : (walk.exact node p c at').verdict = .yes) : Within p c := by
  obtain ⟨pe, pg, pk⟩ := p
  obtain ⟨ce, cg, ck⟩ := c
  unfold Walk.exact at h
  simp only [ShapeNode.kind_mk] at h
  split at h
  · exact oneOfPair_yes hnode hp hc h
  · exact oneOf_left_yes hnode hp hc h
  · exact insideAlternative_yes hnode hp hpresidual hc h
  · exact collections_yes hnode hp hc hpresidual hcresidual h

/-! The operator table, presence, and the whole walk. -/

private theorem conservative_not_compared {k : ShapeKind} (h : isCompared k = true) : isConservative k = false := by
  cases k <;> first | rfl | exact absurd h (by simp [isCompared])

private theorem table_yes (hnode : Sound node) (hp : Compared p) (hc : Compared c) (hpresidual : isResidual p.kind = true)
    (hcresidual : isResidual c.kind = true) (h : (walk.table node p c at').verdict = .yes) : Within p c := by
  have hexact : (isConservative p.kind || isConservative c.kind) = false := by
    rw [Bool.or_eq_false_iff]
    exact ⟨conservative_not_compared (hp.nodes p (mem_nodes_self p)).1, conservative_not_compared (hc.nodes c (mem_nodes_self c)).1⟩
  unfold table at h
  simp only [hexact, Bool.false_eq_true, if_false] at h
  split at h
  · rename_i hsame
    exact same_within hp hc (Bool.and_eq_true_iff.1 hsame).1
  · split at h
    · rename_i hany
      intro slot hslot hadmits
      obtain ⟨v, rfl⟩ := admits_some_of_residual hpresidual hadmits
      obtain ⟨ce, cg, ck⟩ := c
      obtain rfl : ck = .any := hany
      rfl
    · exact absurd h (by simp)
    · split at h
      · exact absurd h (by simp)
      · exact exact_yes hnode hp hc hpresidual hcresidual h

private theorem operators_yes (hnode : Sound node) (hp : Compared p) (hc : Compared c)
    (hpresidual : isResidual p.kind = true) (hcresidual : isResidual c.kind = true)
    (h : (walk.operators node p c at').verdict = .yes) : Within p c := by
  unfold operators at h
  split at h
  · rename_i hsame
    exact same_within hp hc (Bool.and_eq_true_iff.1 hsame).1
  · split at h
    · exact absurd h (by simp)
    · have hwithin := table_yes hnode hp.desugared hc.desugared (Compared.desugared_residual hpresidual)
        (Compared.desugared_residual hcresidual) h
      intro slot hslot hadmits
      rw [← hc.admits_desugared]
      exact hwithin slot hslot ((hp.admits_desugared slot).trans hadmits)

/-- A pair is contained where the comparison of its presence and of its values both answer `yes`. -/
theorem valueNode_yes (hnode : Sound node) (hp : Compared p) (hc : Compared c)
    (h : (walk.valueNode node p c at').verdict = .yes) : Within p c := by
  unfold valueNode at h
  split at h
  · rename_i hsame
    exact same_within hp hc (Bool.and_eq_true_iff.1 hsame).1
  · dsimp only at h
    intro slot hslot hadmits
    have hpresence : ∀ {out : Out}, ((if ((decompose p).absent && !(decompose c).absent ||
        (decompose p).null && !(decompose c).null) = true then out else Out.yes).verdict = .yes → out.verdict ≠ .yes →
          ((decompose p).absent = true → (decompose c).absent = true) ∧
            ((decompose p).null = true → (decompose c).null = true)) := by
      intro out hyes hno
      split at hyes
      · exact absurd hyes hno
      · rename_i hkept
        simp only [Bool.or_eq_true, Bool.and_eq_true, Bool.not_eq_true', not_or, not_and, Bool.not_eq_false] at hkept
        exact hkept
    split at h
    · rename_i hprest
      obtain ⟨habsent, hnull⟩ := hpresence h (by simp)
      obtain ⟨rfl, ha⟩ | ⟨rfl, hn⟩ | ⟨rest, hrest, -⟩ := admits_iff.1 hadmits
      · exact admits_iff.2 (Or.inl ⟨rfl, habsent ha⟩)
      · exact admits_iff.2 (Or.inr (Or.inl ⟨rfl, hnull hn⟩))
      · exact absurd hrest (by simp [hprest])
    · exact absurd h (by simp [Verdict.and_eq_yes])
    · rename_i prest crest hprest hcrest
      rw [Out.verdict_and, Verdict.and_eq_yes] at h
      obtain ⟨habsent, hnull⟩ := hpresence h.1 (by simp)
      obtain ⟨rfl, ha⟩ | ⟨rfl, hn⟩ | ⟨rest, hrest, hadmitted⟩ := admits_iff.1 hadmits
      · exact admits_iff.2 (Or.inl ⟨rfl, habsent ha⟩)
      · exact admits_iff.2 (Or.inr (Or.inl ⟨rfl, hnull hn⟩))
      · obtain rfl : prest = rest := Option.some.inj (hprest.symm.trans hrest)
        have hwithin := operators_yes hnode (hp.rest_of hprest) (hc.rest_of hcrest) (rest_residual hprest)
          (rest_residual hcrest) h.2
        exact admits_iff.2 (Or.inr (Or.inr ⟨crest, hcrest, hwithin slot hslot hadmitted⟩))

end Operators

/-- A caveat is no verdict. -/
theorem caveat_verdict (walk : Walk) (out : Out) (p c : ShapeNode) (at' : String) :
    (walk.caveat out p c at').verdict = out.verdict := by
  unfold caveat
  dsimp only
  split
  · rfl
  · split <;> rfl

/-- The walk's `yes` is containment, by induction on its depth. -/
theorem node_sound (walk : Walk) : Sound walk.node := by
  have hwithin : ∀ fuel, Sound (walk.nodeWithin fuel) := by
    intro fuel
    induction fuel with
    | zero => exact fun p c at' _ _ h => absurd h (by simp [nodeWithin])
    | succ fuel ih =>
      intro p c at' hp hc h
      rw [nodeWithin, caveat_verdict] at h
      exact valueNode_yes ih hp hc h
  exact fun p c at' => hwithin (weight p + weight c) p c at'

private theorem described_of_compared {k : ShapeKind} (h : isCompared k = true) : isDescribed k = true := by
  cases k <;> first | rfl | exact absurd h (by simp [isCompared])

private theorem octets_of_plain {n : ShapeNode} (h : isPlain n = true) : octetsDecode n = true := by
  obtain ⟨e, g, k⟩ := n
  cases e with
  | none => cases k <;> rfl
  | some x =>
    have hx : x.encoded = none := by simpa [isPlain] using h
    cases k <;> simp [octetsDecode, hx]

/-- What the provider's unpinned plan matches in a slot, the consumer's matches, where the comparison of their shapes
answers `yes`. -/
theorem yes_is_sound (libraries : Libraries) (provider consumer : ShapeNode) (at' : String) (slot : Slot) (env : Env)
    (v : Option Json) (hprovider : Compared provider) (hconsumer : Compared consumer)
    (hyes : (compare libraries provider consumer at').1 = .yes) (hv : ∀ w ∈ v, distinctKeys w = true)
    (hmatched : slot.verdict env provider [] (ofSlot v) = .matched) :
    slot.verdict env consumer [] (ofSlot v) = .matched := by
  have hdocument : isDocument (ofSlot v) = true := by
    cases v with
    | none => rfl
    | some w => exact isDocument_fromJson w
  have hadmits : ∀ {S : ShapeNode}, Compared S →
      accepts false env [] S slot.root ("$." ++ slot.root) (ofSlot v) = admitsContent S v := fun hS =>
    accepts_eq_admits hS.tree (fun n hn => ⟨described_of_compared (hS.nodes n hn).1, octets_of_plain (hS.nodes n hn).2⟩) hv
  have hwithin := node_sound ⟨libraries, []⟩ provider consumer at' hprovider hconsumer hyes
  rw [matched_iff hprovider.tree hdocument, hadmits hprovider] at hmatched
  rw [matched_iff hconsumer.tree hdocument, hadmits hconsumer]
  exact hwithin v hv hmatched

private def providerOrder : ShapeNode :=
  .of (.object [("id", .of (.kind .number)), ("state", .of (.anyOf [.string "open", .string "shut"])),
    ("tags", .of (.eachLike (.of (.kind .string)) 1 (some 3)))])

private def consumerOrder : ShapeNode :=
  .of (.object [("state", .of (.kind .string)), ("tags", .of (.eachLike (.of (.kind .string)) 0 none)),
    ("note", .of (.optional (.of .any)))])

private def order : Json :=
  .object [("id", .number (.posInt 1)), ("state", .string "open"), ("tags", .array [.string "x"])]

theorem yes_is_sound_order : bodySlot.verdict bareEnv consumerOrder [] (ofSlot (some order)) = .matched := by
  refine yes_is_sound bareEnv.libraries providerOrder consumerOrder "response.body" bodySlot bareEnv (some order)
    ⟨by decide, by decide⟩ ⟨by decide, by decide⟩ (by decide) (by decide) ?_
  exact (matched_iff (by decide) (by rfl)).2 (by decide)

end PactJanus.Subsumption.Soundness
