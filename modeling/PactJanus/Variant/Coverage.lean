import PactJanus.Variant.Trace

namespace PactJanus.Variant.Coverage

open PactJanus.Lib PactJanus.Lib.Lists PactJanus.Shape.VariantSpace PactJanus.Shape.Gating PactJanus.Plan.Compile
  PactJanus.Variant.Assignment PactJanus.Variant.References PactJanus.Variant.Policy PactJanus.Variant.Targets
  PactJanus.Variant.Growth PactJanus.Variant.Completion PactJanus.Variant.Trace

/-! What a covering covers as it grows, and what its completions keep of it. -/

variable {space : List Dimension} {exclusions : List ResolvedExclusion} {τ reqs : Assignment} {target : Target}
  {ts : List Assignment} {targets remaining initial : List Target} {d : Dimension} {dims : List Dimension}
  {processed : List String}

/-- Only dimensions that are processed are given points. -/
def Within (processed : List String) (α : Assignment) : Prop := ∀ q ∈ α, q.1 ∈ processed

theorem Within.lookup (h : Within processed τ) {id : String} (hid : id ∉ processed) : τ.lookup id = none := by
  rw [Option.eq_none_iff_forall_ne_some]
  exact fun point hpoint => hid (h _ (mem_of_lookup hpoint))

theorem Within.insert (h : Within processed τ) (id point : String) :
    Within (id :: processed) (SortedMap.insert id point τ) := by
  intro q hq
  rcases SortedMap.mem_of_mem_insert hq with rfl | hq
  · exact List.mem_cons_self
  · exact List.mem_cons_of_mem _ (h q hq)

theorem Within.cons (h : Within processed τ) (id : String) : Within (id :: processed) τ := fun q hq =>
  List.mem_cons_of_mem _ (h q hq)

/-- Every gate of a processed dimension is of a processed one. -/
def GatesProcessed (space : List Dimension) (processed : List String) : Prop :=
  ∀ d ∈ space, d.id ∈ processed → ∀ g ∈ d.gatedBy, g.dimension ∈ processed

theorem GatesProcessed.cons (h : GatesProcessed space processed) (hf : Forest space) (hd : d ∈ space)
    (hgates : ∀ g ∈ d.gatedBy, g.dimension ∈ processed) : GatesProcessed space (d.id :: processed) := by
  intro e he hid g hg
  refine List.mem_cons_of_mem _ ?_
  rcases List.mem_cons.1 hid with hid | hid
  · exact hgates g (hf.eq_of_id he hd hid ▸ hg)
  · exact h e he hid g hg

/-! The horizontal pass. -/

theorem insert_extends (h : τ.lookup d.id = none) (point : String) :
    Extends τ (SortedMap.insert d.id point τ) := by
  intro id p hp
  rw [SortedMap.lookup_insert, if_neg]
  · exact hp
  · rintro rfl
    rw [h] at hp
    cases hp

theorem horizontal_within (h : ∀ τ ∈ ts, Within processed τ) :
    ∀ τ ∈ (horizontal exclusions d ts targets).1, Within (d.id :: processed) τ := by
  induction ts generalizing targets with
  | nil => exact fun τ hτ => nomatch hτ
  | cons τ rest ih =>
    obtain ⟨hτ, hrest⟩ := List.forall_mem_cons.1 h
    unfold horizontal
    split
    · exact List.forall_mem_cons.2 ⟨hτ.insert _ _, ih hrest⟩
    · exact List.forall_mem_cons.2 ⟨hτ.cons _, ih hrest⟩

theorem horizontal_grows (h : ∀ τ ∈ ts, Within processed τ) (hd : d.id ∉ processed) :
    Grows ts (horizontal exclusions d ts targets).1 := by
  induction ts generalizing targets with
  | nil => exact fun τ hτ => nomatch hτ
  | cons τ rest ih =>
    obtain ⟨hτ, hrest⟩ := List.forall_mem_cons.1 h
    unfold horizontal
    split
    · exact grows_cons (insert_extends (hτ.lookup hd) _) (ih hrest)
    · exact grows_cons (Extends.refl τ) (ih hrest)

/-- A target the horizontal pass removes is covered. -/
theorem horizontal_covers (h : target ∈ targets) :
    target ∈ (horizontal exclusions d ts targets).2 ∨ Covered (horizontal exclusions d ts targets).1 target := by
  induction ts generalizing targets with
  | nil => exact Or.inl h
  | cons τ rest ih =>
    unfold horizontal
    split
    · rename_i point _
      cases hc : isCovered target (SortedMap.insert d.id point τ) with
      | true => exact Or.inr ⟨_, List.mem_cons_self, hc⟩
      | false =>
        have hstays : target ∈ targets.filter fun other => !isCovered other (SortedMap.insert d.id point τ) :=
          List.mem_filter.2 ⟨h, by rw [hc]; rfl⟩
        rcases ih hstays with hleft | ⟨τ', hτ', hc'⟩
        · exact Or.inl hleft
        · exact Or.inr ⟨τ', List.mem_cons_of_mem _ hτ', hc'⟩
    · rcases ih h with hleft | ⟨τ', hτ', hc'⟩
      · exact Or.inl hleft
      · exact Or.inr ⟨τ', List.mem_cons_of_mem _ hτ', hc'⟩

/-! The vertical pass. -/

theorem reqs_within (hgates : GatesProcessed space processed) (h : Within processed target)
    (hreqs : Requires space target reqs) : Within processed reqs := by
  intro q hq
  rcases hreqs.only q hq with hq | ⟨r, hr, e, he, g, hg, rfl⟩
  · exact h q hq
  · obtain ⟨hmem, hid⟩ := byId_some he
    exact hgates e hmem (hid ▸ h r hr) g hg

theorem extend_within (hgates : GatesProcessed space processed) (htarget : Within processed target)
    (h : ∀ τ ∈ ts, Within processed τ) : ∀ τ ∈ extend space target ts, Within processed τ := by
  unfold extend
  split
  · rename_i reqs hreqs
    have hwithin := reqs_within hgates htarget (requires_of_some hreqs)
    intro τ hτ
    rcases mem_mergeInto hτ with hτ | rfl | ⟨σ, hσ, rfl⟩
    · exact h τ hτ
    · exact hwithin
    · exact fun q hq => (orInsert_mem hq).elim (h σ (List.mem_of_find?_eq_some hσ) q) (hwithin q)
  · exact h

theorem vertical_within (hgates : GatesProcessed space processed) (hremaining : ∀ target ∈ remaining, Within processed target)
    (h : ∀ τ ∈ ts, Within processed τ) : ∀ τ ∈ (vertical space remaining ts targets).1, Within processed τ := by
  induction remaining generalizing ts targets with
  | nil => exact h
  | cons target rest ih =>
    obtain ⟨htarget, hrest⟩ := List.forall_mem_cons.1 hremaining
    unfold vertical
    split
    · exact ih hrest (extend_within hgates htarget h)
    · exact ih hrest h

theorem vertical_grows : Grows ts (vertical space remaining ts targets).1 := by
  induction remaining generalizing ts targets with
  | nil => exact Grows.refl ts
  | cons target rest ih =>
    unfold vertical
    split
    · exact extend_grows.trans ih
    · exact ih

/-- A target the vertical pass removes is covered. -/
theorem vertical_covers (h : target ∈ targets) :
    target ∈ (vertical space remaining ts targets).2 ∨ Covered (vertical space remaining ts targets).1 target := by
  induction remaining generalizing ts targets with
  | nil => exact Or.inl h
  | cons other rest ih =>
    unfold vertical
    split
    · cases hc : (extend space other ts).any fun τ => isCovered target τ with
      | true =>
        obtain ⟨τ, hτ, hc⟩ := List.any_eq_true.1 hc
        exact Or.inr (Covered.grows ⟨τ, hτ, hc⟩ vertical_grows)
      | false =>
        have hstays : target ∈ targets.filter fun t => !(extend space other ts).any fun τ => isCovered t τ :=
          List.mem_filter.2 ⟨h, by rw [hc]; rfl⟩
        exact ih hstays
    · exact ih h

/-- No target is left that the vertical pass has come to. -/
theorem vertical_done (hreach : ∀ target ∈ remaining, (targetRequirements space target).isSome = true)
    (h : target ∈ remaining) : target ∉ (vertical space remaining ts targets).2 := by
  induction remaining generalizing ts targets with
  | nil => cases h
  | cons other rest ih =>
    obtain ⟨hother, hrest⟩ := List.forall_mem_cons.1 hreach
    unfold vertical
    split
    · rcases List.mem_cons.1 h with rfl | h
      · intro hleft
        obtain ⟨-, hnot⟩ := List.mem_filter.1 (vertical_targets hleft)
        obtain ⟨τ, hτ, hc⟩ : Covered (extend space target ts) target := extend_covers hother
        rw [List.any_eq_true.2 ⟨τ, hτ, hc⟩] at hnot
        cases hnot
      · exact ih hrest h
    · rename_i hnot
      rcases List.mem_cons.1 h with rfl | h
      · exact fun hleft => hnot (List.contains_iff_mem.2 (vertical_targets hleft))
      · exact ih hrest h

/-! The whole growth covers every target. -/

theorem mem_inPlay : target ∈ inPlay d processed targets ↔
    target ∈ targets ∧ (target.lookup d.id).isSome = true ∧ Within processed target := by
  simp only [inPlay, List.mem_filter, Bool.and_eq_true, List.all_eq_true, List.contains_iff_mem, Within]

/-- Every target is covered in the end: each was, or waits for a dimension still to be processed. -/
theorem grow_covers (hf : Forest space) (hplaced : PlacedInOrder processed dims) (hnodup : (dims.map Dimension.id).Nodup)
    (hfresh : ∀ d ∈ dims, d.id ∉ processed) (hdims : dims ⊆ space) (hgates : GatesProcessed space processed)
    (hwithin : ∀ τ ∈ ts, Within processed τ)
    (hreach : ∀ target ∈ initial, (targetRequirements space target).isSome = true)
    (hkeys : ∀ target ∈ initial, ∀ q ∈ target, q.1 ∈ processed ∨ q.1 ∈ dims.map Dimension.id)
    (hleft : targets ⊆ initial)
    (h : ∀ target ∈ initial, Covered ts target ∨ target ∈ targets ∧ ¬Within processed target) :
    ∀ target ∈ initial, Covered (grow space exclusions dims processed ts targets) target := by
  induction dims generalizing processed ts targets with
  | nil =>
    intro target htarget
    rcases h target htarget with hc | ⟨-, hnot⟩
    · exact hc
    · exact absurd (fun q hq => (hkeys target htarget q hq).resolve_right List.not_mem_nil) hnot
  | cons d rest ih =>
    obtain ⟨hd, hrest⟩ := List.cons_subset.1 hdims
    obtain ⟨hnot, hnodup⟩ := List.nodup_cons.1 hnodup
    obtain ⟨hdfresh, hrestfresh⟩ := List.forall_mem_cons.1 hfresh
    have hgates' := hgates.cons hf hd hplaced.1
    have hwider : ∀ τ ∈ (horizontal exclusions d ts targets).1, Within (d.id :: processed) τ :=
      horizontal_within hwithin
    have hinPlay : ∀ target ∈ inPlay d (d.id :: processed) (horizontal exclusions d ts targets).2,
        (targetRequirements space target).isSome = true ∧ Within (d.id :: processed) target := by
      intro target htarget
      obtain ⟨hmem, -, hin⟩ := mem_inPlay.1 htarget
      exact ⟨hreach target (hleft (horizontal_targets hmem)), hin⟩
    refine ih hplaced.2 hnodup ?_ hrest hgates' (vertical_within hgates' (fun target ht => (hinPlay target ht).2) hwider)
      ?_ (List.Subset.trans vertical_targets (List.Subset.trans horizontal_targets hleft)) ?_
    · intro e he hmem
      rcases List.mem_cons.1 hmem with heq | hmem
      · exact hnot (heq ▸ List.mem_map_of_mem he)
      · exact hrestfresh e he hmem
    · intro target htarget q hq
      rcases hkeys target htarget q hq with hin | hin
      · exact Or.inl (List.mem_cons_of_mem _ hin)
      · rcases List.mem_cons.1 hin with hin | hin
        · exact Or.inl (hin ▸ List.mem_cons_self)
        · exact Or.inr hin
    · intro target htarget
      rcases h target htarget with hc | ⟨hmem, hout⟩
      · exact Or.inl ((hc.grows (horizontal_grows hwithin hdfresh)).grows vertical_grows)
      · have hpassed : target ∈ (horizontal exclusions d ts targets).2 ∨
            Covered (horizontal exclusions d ts targets).1 target := horizontal_covers hmem
        rcases hpassed with hmem | hc
        · rcases vertical_covers hmem with hlater | hc
          · refine Or.inr ⟨hlater, fun hin => ?_⟩
            have hsome : (target.lookup d.id).isSome = true := by
              rw [lookup_isSome_iff]
              by_contra hno
              refine hout fun q hq => (List.mem_cons.1 (hin q hq)).resolve_left fun heq => ?_
              exact hno (heq ▸ List.mem_map_of_mem hq)
            exact vertical_done (fun target ht => (hinPlay target ht).1) (mem_inPlay.2 ⟨hmem, hsome, hin⟩) hlater
          · exact Or.inl hc
        · exact Or.inl (hc.grows vertical_grows)

end PactJanus.Variant.Coverage
