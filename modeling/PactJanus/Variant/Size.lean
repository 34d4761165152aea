import Mathlib.Algebra.BigOperators.Ring.List
import Mathlib.Algebra.Order.BigOperators.Group.List
import Mathlib.Algebra.Order.BigOperators.GroupWithZero.List
import Mathlib.Data.Set.Card
import PactJanus.Lib.Lists
import PactJanus.Variant.Membership

namespace PactJanus.Variant.Size

open PactJanus.Lib PactJanus.Lib.Lists PactJanus.Lib.Saturation PactJanus.Shape.Model PactJanus.Shape.VariantSpace
  PactJanus.Shape.Gating PactJanus.Plan.Compile PactJanus.Variant.Assignment PactJanus.Variant.References
  PactJanus.Variant.Policy PactJanus.Variant.Completion PactJanus.Variant.Selection PactJanus.Variant.Membership

/-! The number of a space's complete assignments, as it is counted and as it is. -/

variable {space : List Dimension} {d : Dimension} {rest : List Dimension}

/-- The ways to settle a dimension and all its points open, `fuel` dimensions deep, as a number. -/
def ways (space : List Dimension) : Nat → Dimension → Nat
  | 0, _ => 0
  | fuel + 1, d =>
    (d.points.map fun point => ((childrenByGate space ⟨d.id, point.name⟩).map (ways space fuel)).prod).sum

/-! What a dimension opens comes after it. -/

private theorem not_later_gate {dims later : List Dimension} (h : Ordered (dims ++ later)) {e : Dimension} (he : e ∈ dims)
    {g : Gate} (hg : g ∈ e.gatedBy) {f : Dimension} (hf : f ∈ later) : g.dimension ≠ f.id := by
  induction dims with
  | nil => cases he
  | cons c dims ih =>
    rcases List.mem_cons.1 he with rfl | he
    · exact h.1 g hg f (List.mem_cons_of_mem _ (List.mem_append_right _ hf))
    · exact ih h.2.2 he

private theorem mem_rest_of_gate (h : Forest space) (hsuf : (d :: rest) <:+ space) {e : Dimension} (he : e ∈ space)
    {g : Gate} (hg : g ∈ e.gatedBy) (hid : g.dimension = d.id) : e ∈ rest := by
  obtain ⟨before, rfl⟩ := hsuf
  rcases List.mem_append.1 he with he | he
  · exact absurd hid (not_later_gate h.ordered he hg List.mem_cons_self)
  · rcases List.mem_cons.1 he with rfl | he
    · exact absurd hid (h.ordered.not_own_gate (List.mem_append_right _ List.mem_cons_self) hg)
    · exact he

private theorem mem_children {gate : Gate} {e : Dimension} :
    e ∈ childrenByGate space gate ↔ e ∈ space ∧ lastGate e = some gate := by
  rw [childrenByGate, List.mem_filter, beq_iff_eq]

private theorem gate_of_lastGate {e : Dimension} {g : Gate} (h : lastGate e = some g) : g ∈ e.gatedBy :=
  List.mem_of_getLast? h

private theorem children_rest (h : Forest space) (hsuf : (d :: rest) <:+ space) (point : String) :
    childrenByGate space ⟨d.id, point⟩ = childrenByGate rest ⟨d.id, point⟩ := by
  have hall := fun e he hlast => mem_rest_of_gate h hsuf (e := e) he (gate_of_lastGate (g := ⟨d.id, point⟩) hlast) rfl
  obtain ⟨before, rfl⟩ := hsuf
  have hdistinct := List.nodup_append.1 (List.Nodup.of_map _ h.distinct)
  have hbefore : before.filter (fun e => lastGate e == some ⟨d.id, point⟩) = [] := by
    refine List.filter_eq_nil_iff.2 fun e he hlast => ?_
    exact hdistinct.2.2 e he e (List.mem_cons_of_mem _ (hall e (List.mem_append_left _ he) (beq_iff_eq.1 hlast))) rfl
  have hself : (lastGate d == some ⟨d.id, point⟩) = false := by
    rw [Bool.eq_false_iff]
    intro hlast
    have hmem : d ∈ before ++ d :: rest := List.mem_append_right _ List.mem_cons_self
    exact (List.nodup_cons.1 hdistinct.2.1).1 (hall d hmem (beq_iff_eq.1 hlast))
  rw [childrenByGate, List.filter_append, hbefore, List.filter_cons, hself]
  rfl

private theorem suffix_of_mem {e : Dimension} {l : List Dimension} (h : e ∈ l) : ∃ later, (e :: later) <:+ l := by
  obtain ⟨before, later, rfl⟩ := List.append_of_mem h
  exact ⟨later, before, rfl⟩

/-- A child of a dimension heads a shorter end of the space. -/
private theorem child_suffix (h : Forest space) (hsuf : (d :: rest) <:+ space) {point : String} {e : Dimension}
    (he : e ∈ childrenByGate space ⟨d.id, point⟩) :
    ∃ later, (e :: later) <:+ space ∧ later.length < rest.length := by
  obtain ⟨hmem, hlast⟩ := mem_children.1 he
  obtain ⟨later, hlater⟩ := suffix_of_mem (mem_rest_of_gate h hsuf hmem (gate_of_lastGate hlast) rfl)
  refine ⟨later, hlater.trans ((List.suffix_cons d rest).trans hsuf), ?_⟩
  have := hlater.length_le
  rw [List.length_cons] at this
  omega

/-- Fuel for the dimensions after one is enough. -/
private theorem ways_enough (h : Forest space) (hsuf : (d :: rest) <:+ space) {fuel more : Nat}
    (hfuel : rest.length < fuel) (hmore : rest.length < more) : ways space fuel d = ways space more d := by
  induction fuel generalizing d rest more with
  | zero => omega
  | succ fuel ih =>
    obtain ⟨more, rfl⟩ : ∃ n, more = n + 1 := ⟨more - 1, by omega⟩
    unfold ways
    congr 1
    refine List.map_congr_left fun point _ => congrArg List.prod (List.map_congr_left fun e he => ?_)
    obtain ⟨later, hlater, hlt⟩ := child_suffix h hsuf he
    exact ih hlater (by omega) (by omega)

private theorem ways_eq (h : Forest space) (hsuf : (d :: rest) <:+ space) :
    ways space space.length d = (d.points.map fun point =>
      ((childrenByGate rest ⟨d.id, point.name⟩).map (ways space space.length)).prod).sum := by
  have hlength := hsuf.length_le
  rw [List.length_cons] at hlength
  rw [ways_enough h hsuf (show rest.length < space.length by omega) (show rest.length < space.length + 1 by omega), ways]
  exact congrArg List.sum (List.map_congr_left fun point _ => by rw [children_rest h hsuf])

private theorem prod_pos {l : List Dimension} {f : Dimension → Nat} (h : ∀ e ∈ l, 0 < f e) : 0 < (l.map f).prod :=
  List.prod_pos (List.forall_mem_map.2 h)

/-- The count of a dimension's ways is their number, which is not zero. -/
private theorem weight_counts (h : Forest space) (hsuf : (d :: rest) <:+ space) {fuel : Nat} (hfuel : rest.length < fuel) :
    0 < ways space fuel d ∧ Counts (weight space fuel d.id) (ways space fuel d) := by
  induction fuel generalizing d rest with
  | zero => omega
  | succ fuel ih =>
    have hmem : d ∈ space := hsuf.subset List.mem_cons_self
    have hkids : ∀ point : Point, ∀ e ∈ childrenByGate space ⟨d.id, point.name⟩,
        0 < ways space fuel e ∧ Counts (weight space fuel e.id) (ways space fuel e) := by
      intro point e he
      obtain ⟨later, hlater, hlt⟩ := child_suffix h hsuf he
      exact ih hlater (by omega)
    have hproduct : ∀ point : Point, 0 < ((childrenByGate space ⟨d.id, point.name⟩).map (ways space fuel)).prod :=
      fun point => prod_pos fun e he => (hkids point e he).1
    constructor
    · obtain ⟨p, hp⟩ := List.exists_mem_of_ne_nil _ (h.points d hmem)
      refine Nat.lt_of_lt_of_le (hproduct p) ?_
      exact List.single_le_sum (fun _ _ => Nat.zero_le _) _ (List.mem_map_of_mem hp)
    · simp only [weight, byId_self h.distinct hmem, ways]
      rw [← Nat.zero_add (List.sum _)]
      refine counts_sum (fun point _ => ?_) counts_zero
      rw [← Nat.one_mul (List.prod _)]
      exact counts_prod (fun e he => (hkids point e he).2) (fun e he => (hkids point e he).1) counts_one Nat.one_pos

/-! The length of the enumeration. -/

private theorem prod_split {l : List Dimension} {p q r : Dimension → Bool} (f : Dimension → Nat)
    (h : ∀ e ∈ l, (p e = true ↔ q e = true ∨ r e = true) ∧ ¬(q e = true ∧ r e = true)) :
    ((l.filter p).map f).prod = ((l.filter q).map f).prod * ((l.filter r).map f).prod := by
  induction l with
  | nil => rfl
  | cons e l ih =>
    obtain ⟨⟨hp, hnot⟩, hrest⟩ := List.forall_mem_cons.1 h
    have ih := ih hrest
    by_cases hq : q e = true
    · have hr : ¬r e = true := fun hr => hnot ⟨hq, hr⟩
      rw [List.filter_cons_of_pos (hp.2 (Or.inl hq)), List.filter_cons_of_pos hq, List.filter_cons_of_neg hr,
        List.map_cons, List.map_cons, List.prod_cons, List.prod_cons, ih, Nat.mul_assoc]
    · by_cases hr : r e = true
      · rw [List.filter_cons_of_pos (hp.2 (Or.inr hr)), List.filter_cons_of_neg hq, List.filter_cons_of_pos hr,
          List.map_cons, List.map_cons, List.prod_cons, List.prod_cons, ih]
        exact Nat.mul_left_comm ..
      · have hpe : ¬p e = true := fun hpe => (hp.1 hpe).elim hq hr
        rw [List.filter_cons_of_neg hpe, List.filter_cons_of_neg hq, List.filter_cons_of_neg hr, ih]

/-- What is active once a dimension is given a point: what was, and what the point opens. -/
private theorem active_insert (h : Forest space) (hsuf : (d :: rest) <:+ space) {current : Assignment}
    (hf : Fresh (d :: rest) current) (ha : isActive current d = true) (point : String) {e : Dimension} (he : e ∈ rest) :
    (isActive (SortedMap.insert d.id point current) e = true ↔
      isActive current e = true ∨ (lastGate e == some ⟨d.id, point⟩) = true) ∧
      ¬(isActive current e = true ∧ (lastGate e == some ⟨d.id, point⟩) = true) := by
  have hd : d ∈ space := hsuf.subset List.mem_cons_self
  have hspace : e ∈ space := hsuf.subset (List.mem_cons_of_mem _ he)
  have hnone : current.lookup d.id = none := hf d List.mem_cons_self
  have hlast : (lastGate e == some ⟨d.id, point⟩) = true ↔ lastGate e = some ⟨d.id, point⟩ := beq_iff_eq
  rw [hlast]
  have hexclusive : ¬(isActive current e = true ∧ lastGate e = some ⟨d.id, point⟩) := by
    rintro ⟨hactive, hgate⟩
    have := isActive_iff.1 hactive _ (gate_of_lastGate hgate)
    rw [hnone] at this
    cases this
  refine ⟨?_, hexclusive⟩
  by_cases hmention : ∃ g ∈ e.gatedBy, g.dimension = d.id
  · obtain ⟨g, hg, hid⟩ := hmention
    have hinactive : ¬isActive current e = true := by
      intro hactive
      have := isActive_iff.1 hactive g hg
      rw [hid, hnone] at this
      cases this
    rw [or_iff_right hinactive]
    rcases h.parent e hspace with hnil | ⟨p, hp, q, -, hgates⟩
    · rw [hnil] at hg
      cases hg
    · have hlastGate : lastGate e = some ⟨p.id, q.name⟩ := by
        rw [lastGate, hgates, opens, List.getLast?_append]
        rfl
      by_cases hpd : p = d
      · subst hpd
        rw [hlastGate]
        constructor
        · intro hactive
          have := isActive_iff.1 hactive ⟨p.id, q.name⟩ (gate_of_lastGate hlastGate)
          rw [SortedMap.lookup_insert, if_pos rfl] at this
          rw [Option.some.inj this]
        · intro hsame
          obtain rfl : q.name = point := congrArg Gate.point (Option.some.inj hsame)
          refine isActive_iff.2 fun g hg => ?_
          rw [hgates] at hg
          rcases List.mem_append.1 hg with hg | hg
          · rw [SortedMap.lookup_insert, if_neg (h.ordered.not_own_gate hd hg)]
            exact isActive_iff.1 ha g hg
          · obtain rfl := List.mem_singleton.1 hg
            rw [SortedMap.lookup_insert, if_pos rfl]
      · have hne : p.id ≠ d.id := fun heq => hpd (h.eq_of_id hp hd heq)
        have hprest : p ∈ rest := by
          rw [hgates] at hg
          rcases List.mem_append.1 hg with hg | hg
          · exact mem_rest_of_gate h hsuf hp hg hid
          · obtain rfl := List.mem_singleton.1 hg
            exact absurd hid hne
        constructor
        · intro hactive
          have := isActive_iff.1 hactive ⟨p.id, q.name⟩ (gate_of_lastGate hlastGate)
          rw [SortedMap.lookup_insert, if_neg hne, hf p (List.mem_cons_of_mem _ hprest)] at this
          cases this
        · intro hsame
          rw [hlastGate] at hsame
          exact absurd (congrArg Gate.dimension (Option.some.inj hsame)) hne
  · have hsame : isActive (SortedMap.insert d.id point current) e = isActive current e := by
      refine isActive_congr fun g hg => ?_
      rw [SortedMap.lookup_insert, if_neg fun hid => hmention ⟨g, hg, hid⟩]
    have hnot : ¬lastGate e = some ⟨d.id, point⟩ := fun hgate => hmention ⟨_, gate_of_lastGate hgate, rfl⟩
    rw [hsame, or_iff_left hnot]

private theorem ordered_suffix {dims : List Dimension} (h : Ordered space) (hsuf : dims <:+ space) : Ordered dims := by
  obtain ⟨before, rfl⟩ := hsuf
  induction before with
  | nil => exact h
  | cons c before ih => exact ih h.2.2

/-- The enumeration from an assignment on lists as many as the ways of the dimensions that are active under it. -/
private theorem enumerate_length (h : Forest space) {dims : List Dimension} (hsuf : dims <:+ space)
    {current : Assignment} (hf : Fresh dims current) :
    (enumerateAll [] dims current).length =
      ((dims.filter fun e => isActive current e).map (ways space space.length)).prod := by
  induction dims generalizing current with
  | nil => rfl
  | cons d rest ih =>
    have hrest : rest <:+ space := (List.suffix_cons d rest).trans hsuf
    have ho : Ordered (d :: rest) := ordered_suffix h.ordered hsuf
    unfold enumerateAll
    split
    · rename_i ha
      have hpoint : ∀ point ∈ d.points,
          (enumerateAll [] rest (SortedMap.insert d.id point.name current)).length =
            ((rest.filter fun e => isActive current e).map (ways space space.length)).prod *
              ((childrenByGate rest ⟨d.id, point.name⟩).map (ways space space.length)).prod := by
        intro point _
        rw [ih hrest (hf.insert ho point.name)]
        exact prod_split _ fun e he => active_insert h hsuf hf ha point.name he
      rw [List.filter_cons_of_pos ha, List.map_cons, List.prod_cons, List.length_flatMap, List.map_congr_left hpoint,
        List.sum_map_mul_left, ways_eq h hsuf, Nat.mul_comm]
    · rename_i ha
      rw [List.filter_cons_of_neg ha]
      exact ih hrest hf.tail

/-- The size is the count of what the enumeration lists. -/
theorem spaceSize_counts (h : Forest space) : Counts (spaceSize space) (enumerateAll [] space []).length := by
  have hroots : (space.filter fun e => isActive [] e) = space.filter fun e => e.gatedBy.isEmpty := by
    refine List.filter_congr fun e _ => ?_
    cases hgates : e.gatedBy <;> simp [isActive, hgates]
  rw [enumerate_length h (List.suffix_refl space) fresh_nil, hroots, spaceSize, ← Nat.one_mul (List.prod _)]
  have hweight : ∀ e ∈ space.filter fun e => e.gatedBy.isEmpty,
      0 < ways space space.length e ∧ Counts (weight space space.length e.id) (ways space space.length e) := by
    intro e he
    obtain ⟨later, hlater⟩ := suffix_of_mem (List.mem_of_mem_filter he)
    have := hlater.length_le
    rw [List.length_cons] at this
    exact weight_counts h hlater (by omega)
  exact counts_prod (fun e he => (hweight e he).2) (fun e he => (hweight e he).1) counts_one Nat.one_pos

/-! What the enumeration lists twice. -/

private theorem enumerate_nodup {dims : List Dimension} {current : Assignment} (ho : Ordered dims)
    (hs : SortedMap.Sorted current) (hf : Fresh dims current) (hnames : ∀ d ∈ dims, (d.points.map Point.name).Nodup) :
    (enumerateAll [] dims current).Nodup := by
  induction dims generalizing current with
  | nil => exact List.nodup_singleton current
  | cons d rest ih =>
    obtain ⟨hd, hrest⟩ := List.forall_mem_cons.1 hnames
    unfold enumerateAll
    split
    · refine List.nodup_flatMap.2 ⟨fun p _ => ih ho.2.2 (hs.insert _ _) (hf.insert ho _) hrest, ?_⟩
      refine (List.pairwise_map.1 hd).imp ?_
      intro p q hne β hp hq
      have hlookup : ∀ point, β ∈ enumerateAll [] rest (SortedMap.insert d.id point current) →
          β.lookup d.id = some point := by
        intro point hmem
        have hsettled := ((mem_enumerateAll ho.2.2 (hs.insert _ _) (hf.insert ho _)).1 hmem).1
        rw [hsettled.outside d.id ho.2.1, SortedMap.lookup_insert, if_pos rfl]
      exact hne (Option.some.inj ((hlookup p.name hp).symm.trans (hlookup q.name hq)))
    · exact ih ho.2.2 hs hf.tail hrest

private theorem names_nodup {dims : List Dimension} {current β : Assignment} (ho : Ordered dims)
    (hs : SortedMap.Sorted current) (hf : Fresh dims current) (hnodup : (enumerateAll [] dims current).Nodup)
    (hβ : β ∈ enumerateAll [] dims current) {d : Dimension} (hd : d ∈ dims) {point : String}
    (hpoint : β.lookup d.id = some point) : (d.points.filter fun p => p.name == point).length ≤ 1 := by
  induction dims generalizing current with
  | nil => cases hd
  | cons e rest ih =>
    unfold enumerateAll at hnodup hβ
    split at hnodup
    · rename_i ha
      rw [if_pos ha] at hβ
      obtain ⟨heach, hapart⟩ := List.nodup_flatMap.1 hnodup
      obtain ⟨p, hp, hmem⟩ := List.mem_flatMap.1 hβ
      rcases List.mem_cons.1 hd with rfl | hd
      · have hsettled := ((mem_enumerateAll ho.2.2 (hs.insert d.id p.name) (hf.insert ho p.name)).1 hmem).1
        have hname : p.name = point := by
          rw [hsettled.outside d.id ho.2.1, SortedMap.lookup_insert, if_pos rfl] at hpoint
          exact Option.some.inj hpoint
        subst hname
        -- two points of that name would both list this assignment
        by_contra hmany
        have hpair := (hapart.filter fun q => q.name == p.name)
        obtain ⟨q, r, others, hfilter⟩ := exists_cons_cons (Nat.lt_of_not_le hmany)
        rw [hfilter] at hpair
        have hq : q.name = p.name := by
          have : q ∈ d.points.filter fun q => q.name == p.name := hfilter ▸ List.mem_cons_self
          simpa using (List.mem_filter.1 this).2
        have hr : r.name = p.name := by
          have : r ∈ d.points.filter fun q => q.name == p.name :=
            hfilter ▸ List.mem_cons_of_mem _ List.mem_cons_self
          simpa using (List.mem_filter.1 this).2
        have hdisjoint := (List.pairwise_cons.1 hpair).1 r List.mem_cons_self
        simp only [Function.onFun, hq, hr] at hdisjoint
        exact hdisjoint hmem hmem
      · exact ih ho.2.2 (hs.insert _ _) (hf.insert ho _) (heach p hp) hmem hd
    · rename_i ha
      rw [if_neg ha] at hβ
      rcases List.mem_cons.1 hd with rfl | hd
      · have hsettled := ((mem_enumerateAll ho.2.2 hs hf.tail).1 hβ).1
        rw [hsettled.outside d.id ho.2.1, hf d List.mem_cons_self] at hpoint
        cases hpoint
      · exact ih ho.2.2 hs hf.tail hnodup hβ hd

/-- The enumeration lists nothing twice exactly where no dimension names two points alike. -/
theorem enumerate_nodup_iff (h : Forest space) :
    (enumerateAll [] space []).Nodup ↔ ∀ d ∈ space, (d.points.map Point.name).Nodup := by
  constructor
  · intro hnodup d hd
    rw [List.nodup_iff_count_le_one]
    intro name
    by_cases hname : IsPoint d name
    · obtain ⟨β, hβ, -, hpoint⟩ := exists_completeFor h hd hname
      have hmem : β ∈ enumerateAll [] space [] :=
        (mem_enumerateAll_space h.ordered).2 ⟨hβ, fun e he => nomatch he⟩
      rw [List.count_eq_countP, List.countP_map, List.countP_eq_length_filter]
      exact names_nodup h.ordered SortedMap.sorted_nil fresh_nil hnodup hmem hd hpoint
    · have hnot : name ∉ d.points.map Point.name := fun hmem => hname (List.mem_map.1 hmem)
      rw [List.count_eq_zero_of_not_mem hnot]
      exact Nat.zero_le 1
  · exact enumerate_nodup h.ordered SortedMap.sorted_nil fresh_nil

/-! What the claim on the size says. -/

/-- The number of a space's complete assignments. -/
noncomputable def completions (space : List Dimension) : Nat := Set.ncard {α | CompleteFor space α}

private theorem completions_eq (h : Forest space) : completions space = (enumerateAll [] space []).toFinset.card := by
  have hset : {α | CompleteFor space α} = ↑(enumerateAll [] space []).toFinset := by
    ext α
    have hclear : Clear [] α := fun e he => nomatch he
    simp [mem_enumerateAll_space h.ordered, hclear]
  rw [completions, hset, Set.ncard_coe_finset]

private theorem completions_eq_length (h : Forest space) :
    completions space = (enumerateAll [] space []).length ↔ ∀ d ∈ space, (d.points.map Point.name).Nodup := by
  rw [completions_eq h, ← enumerate_nodup_iff h]
  exact Multiset.toFinset_card_eq_card_iff_nodup

/-- What the exhaustive strategy selects: the complete assignments that no exclusion matches and the seeds, none twice. -/
def ListsSpace (space : List Dimension) (policy : SamplingPolicy) (pins : List Assignment)
    (exclusions : List ResolvedExclusion) (selected : Selected) : Prop :=
  (selected.variants.map Variant.assignment).Nodup ∧
    ∀ α, α ∈ selected.variants.map Variant.assignment ↔
      (CompleteFor space α ∧ Clear exclusions α) ∨
        α ∈ (seeds space policy .exhaustive pins).map Variant.assignment

private theorem lists_space (h : Forest space) {policy : SamplingPolicy} {pins : List Assignment}
    {exclusions : List ResolvedExclusion} {selected : Selected} (hrefs : resolveRefs space policy = .ok (pins, exclusions))
    (hselect : select space policy = some (.ok selected)) (hstrategy : selected.report.strategy = .exhaustive) :
    ListsSpace space policy pins exclusions selected := by
  obtain ⟨pins', exclusions', strategy, covering, hfrom⟩ := select_cases hselect
  obtain ⟨rfl, rfl⟩ : pins' = pins ∧ exclusions' = exclusions := by
    simpa using hfrom.refs.symm.trans hrefs
  obtain rfl : strategy = .exhaustive := by
    rw [hfrom.report] at hstrategy
    exact hstrategy
  obtain rfl := Option.some.inj hfrom.covered
  constructor
  · rw [hfrom.variants]
    refine nodup_pushed (nodup_pushed (nodup_pushed ?_))
    rw [assignments_push]
    exact List.nodup_singleton _
  · intro α
    rw [hfrom.mem, mem_seeds, mem_enumerateAll_space h.ordered]
    exact or_comm

/-- The size of a space is counted right and the exhaustive strategy lists it, the size exactly where no dimension names
two of its points alike or there are too many complete assignments to count. -/
theorem size_and_listing_iff (h : Computed space) :
    (Counts (spaceSize space) (completions space) ∧ ∀ policy pins exclusions selected,
      resolveRefs space policy = .ok (pins, exclusions) → select space policy = some (.ok selected) →
      selected.report.strategy = .exhaustive → ListsSpace space policy pins exclusions selected) ↔
      (∀ d ∈ space, (d.points.map Point.name).Nodup) ∨ 2 ^ 64 ≤ completions space := by
  have hforest := h.forest
  have hcounts := spaceSize_counts hforest
  have hle : completions space ≤ (enumerateAll [] space []).length := by
    rw [completions_eq hforest]
    exact List.toFinset_card_le _
  rw [← completions_eq_length hforest]
  constructor
  · rintro ⟨hsize, -⟩
    by_contra hnot
    obtain ⟨hne, hlt⟩ := not_or.1 hnot
    have hexact := hsize.exact.2 (by omega)
    have hfits := hcounts.exact.1 hexact
    have hvalue := hsize.value.symm.trans hcounts.value
    omega
  · intro hor
    refine ⟨?_, fun policy pins exclusions selected hrefs hselect hstrategy =>
      lists_space hforest hrefs hselect hstrategy⟩
    rcases hor with heq | hlarge
    · rw [heq]
      exact hcounts
    · have hvalue := hcounts.value
      have hexact := hcounts.exact
      constructor
      · omega
      · rw [hexact]
        omega

private def maybe : List Dimension :=
  computeMany [("response.body", .of (.object [("note", .of (.optional (.of .any)))]))]

theorem size_of_maybe : Counts (spaceSize maybe) (completions maybe) :=
  ((size_and_listing_iff ⟨⟨_, by decide, rfl⟩, by decide⟩).2 (Or.inl (by decide))).1

/-- An enumeration of a number and of the string it is written as. -/
private def oneTwice : List Dimension := computeMany [("response.body", .of (.anyOf [.string "1", .number (.posInt 1)]))]

private theorem computed_oneTwice : Computed oneTwice := ⟨⟨_, by decide, rfl⟩, by decide⟩

/-- Two points of one name are counted as two and make one complete assignment. -/
theorem counted_twice :
    Computed oneTwice ∧ spaceSize oneTwice = ⟨2, true⟩ ∧ completions oneTwice = 1 ∧
      ¬Counts (spaceSize oneTwice) (completions oneTwice) := by
  have hone : completions oneTwice = 1 := by
    rw [completions_eq computed_oneTwice.forest]
    rfl
  refine ⟨computed_oneTwice, rfl, hone, fun hcounts => ?_⟩
  have hvalue := hcounts.value
  rw [hone] at hvalue
  exact absurd hvalue (by decide)

end PactJanus.Variant.Size
