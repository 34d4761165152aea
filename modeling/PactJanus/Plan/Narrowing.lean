import PactJanus.Plan.Semantics
import PactJanus.Plan.Verdict
import PactJanus.Shape.Cardinality
import PactJanus.Shape.Placed

namespace PactJanus.Plan.Narrowing

open PactJanus.Data.Json PactJanus.Data.Equality PactJanus.Lib.Lists PactJanus.Shape PactJanus.Shape.Model
  PactJanus.Shape.VariantSpace PactJanus.Shape.Valid PactJanus.Shape.Nodes PactJanus.Shape.Placed PactJanus.Shape.Admits
  PactJanus.Shape.Alternatives PactJanus.Plan.Value PactJanus.Plan.Result PactJanus.Plan.Interpret
  PactJanus.Plan.Compile PactJanus.Plan.Navigation PactJanus.Plan.Outcome PactJanus.Plan.Accepts
  PactJanus.Plan.Documents PactJanus.Plan.Semantics PactJanus.Plan.Verdict

/-! A pinned plan accepts no more than the plan nothing is pinned in. -/

variable {strict : Bool} {env : Env} {α : Assignment} {path place : String} {slot : Option Json}

/-! What a pinned size admits. -/

/-- A collection whose least size has a size above it. -/
def roomAbove : ShapeKind → Bool
  | .eachLike _ min max | .eachEntry _ _ min max => max.isSome || min.toNat < 2 ^ 64 - 1
  | _ => true

private theorem roomAbove_unbounded {min : UInt64} {max : Option UInt64}
    (h : (max.isSome || decide (min.toNat < 2 ^ 64 - 1)) = true) (hmax : max = none) : min.toNat < 2 ^ 64 - 1 := by
  subst hmax
  exact of_decide_eq_true h

private theorem sizeAccepts_narrows {min : UInt64} {max : Option UInt64} {size : Nat}
    (hvalid : max.all (fun m => min ≤ m) = true) (hroom : max = none → min.toNat < 2 ^ 64 - 1)
    (h : sizeAccepts α path min max size = true) : withinBounds min max size = true := by
  unfold sizeAccepts at h
  cases hr : (pin α path .cardinality).bind (cardinalityRegion min max) with
  | none => rwa [hr] at h
  | some region =>
    rw [hr] at h
    obtain ⟨point, -, hregion⟩ := Option.bind_eq_some_iff.1 hr
    obtain ⟨hlower, hupper⟩ := Cardinality.region_within hvalid hroom hregion
    simp only [Option.getD_some, Bool.and_eq_true, decide_eq_true_eq] at h
    simp only [withinBounds, Bool.and_eq_true, decide_eq_true_eq]
    refine ⟨hlower.trans h.1, ?_⟩
    cases max with
    | none => rfl
    | some m =>
      obtain ⟨upper, hmem, hle⟩ := hupper m rfl
      have hsize := h.2
      rw [Option.mem_def.1 hmem] at hsize
      simp only [Option.all_some, decide_eq_true_eq] at hsize ⊢
      exact hsize.trans hle

private theorem sizeAccepts_unpinned {operator : String} {min : UInt64} {max : Option UInt64} {size : Nat}
    {gates : List Gate} (hvalid : max.all (fun m => min ≤ m) = true)
    (h : ∀ d ∈ cardinalityDimension path operator min max gates, α.lookup d.id = none) :
    sizeAccepts α path min max size = withinBounds min max size := by
  obtain rfl | hmore : max = some min ∨ 2 ≤ (cardinalityPoints min max).length := by
    obtain rfl | rfl | ⟨m, rfl, hlt⟩ := Cardinality.points_cases hvalid
    · exact Or.inl rfl
    · exact Or.inr le_rfl
    · exact Or.inr (by rw [Cardinality.points_bounded hlt]; simp)
  · unfold sizeAccepts
    cases hr : (pin α path .cardinality).bind (cardinalityRegion min (some min)) with
    | none => rfl
    | some region =>
      obtain ⟨point, -, hregion⟩ := Option.bind_eq_some_iff.1 hr
      rw [Cardinality.region_single hregion]
      rfl
  · rw [cardinalityDimension, if_pos hmore] at h
    have hpin : pin α path .cardinality = none := h _ List.mem_cons_self
    rw [sizeAccepts, hpin]
    rfl

/-! What a pinned option admits. -/

private def pinnedOption (α : Assignment) (path : String) (options : List Json) : Option Json :=
  (pin α path .value).bind fun point => options.find? fun o => canonicalPointName o == point

private theorem anyOfAccepts_pinned {options : List Json} {o : Json} (h : pinnedOption α path options = some o) :
    anyOfAccepts α path options (ofSlot slot) = slot.any fun v => valuesEqual v o := by
  unfold pinnedOption at h
  rw [anyOfAccepts, h]
  exact runtimeEq_ofSlot slot o

private theorem anyOfAccepts_free {options : List Json} (h : pinnedOption α path options = none) :
    anyOfAccepts α path options (ofSlot slot) = anyOfAccepts [] path options (ofSlot slot) := by
  unfold pinnedOption at h
  rw [anyOfAccepts, h]
  rfl

private theorem pinnedOption_mem {options : List Json} {o : Json} (h : pinnedOption α path options = some o) :
    o ∈ options := by
  obtain ⟨point, -, hfind⟩ := Option.bind_eq_some_iff.1 h
  exact List.mem_of_find?_eq_some hfind

private theorem anyOfAccepts_narrows {options : List Json} (ho : ∀ o ∈ options, distinctKeys o = true)
    (hslot : ∀ v ∈ slot, distinctKeys v = true) (h : anyOfAccepts α path options (ofSlot slot) = true) :
    anyOfAccepts [] path options (ofSlot slot) = true := by
  cases hp : pinnedOption α path options with
  | none => rwa [anyOfAccepts_free hp] at h
  | some o =>
    rw [anyOfAccepts_pinned hp, Option.any_eq_true] at h
    obtain ⟨v, rfl, hv⟩ := h
    rw [anyOfAccepts_nil ho hslot]
    exact List.any_eq_true.2 ⟨o, pinnedOption_mem hp, hv⟩

private theorem anyOfAccepts_unpinned {e : Option Example} {options : List Json} {gates : List Gate}
    (ho : ∀ o ∈ options, distinctKeys o = true) (hslot : ∀ v ∈ slot, distinctKeys v = true)
    (h : ∀ d ∈ anyOfDimension path e options gates, α.lookup d.id = none) :
    anyOfAccepts α path options (ofSlot slot) = anyOfAccepts [] path options (ofSlot slot) := by
  cases hp : pinnedOption α path options with
  | none => exact anyOfAccepts_free hp
  | some o =>
    have hmem := pinnedOption_mem hp
    match options with
    | [only] =>
      obtain rfl := List.mem_singleton.1 hmem
      rw [anyOfAccepts_pinned hp, anyOfAccepts_nil ho hslot]
      simp
    | first :: second :: rest =>
      have hpin : pin α path .value = none := h _ List.mem_cons_self
      simp [pinnedOption, hpin] at hp

/-! Where nothing is pinned. -/

/-- An assignment that gives no point to any dimension of the nodes placed. -/
def PinsNothing (α : Assignment) (tree : List PlacedNode) : Prop :=
  ∀ n ∈ tree, ∀ d ∈ ownDimensions n, α.lookup d.id = none

private theorem PinsNothing.under {e : Option Example} {g : Option Json} {k : ShapeKind} {gates : List Gate}
    (h : PinsNothing α (placed ⟨e, g, k⟩ path gates)) {c : PlacedNode} (hc : c ∈ under path gates k) :
    PinsNothing α (placed c.node c.path c.gates) := (forall_placed.1 h).2 c hc

theorem accepts_unpinned {S : ShapeNode} {gates : List Gate} (hvalid : wellFormed S = true)
    (h : PinsNothing α (placed S path gates)) (hslot : ∀ v ∈ slot, distinctKeys v = true) :
    accepts strict env α S path place (ofSlot slot) = accepts strict env [] S path place (ofSlot slot) := by
  induction S generalizing strict slot path place gates with
  | leaf e g k hk =>
    cases k with
    | anyOf options =>
      have hnode := (wellFormed_mk.1 hvalid).2.1
      simp only [nodeValid, Bool.and_eq_true, List.all_eq_true] at hnode
      exact anyOfAccepts_unpinned hnode.1.1.2 hslot (forall_placed.1 h).1
    | object | array | eachLike | eachEntry | contains | optional | nullable | oneOf =>
      exact absurd hk (by simp [isLeaf])
    | _ => rfl
  | object e g members ih =>
    have hstep : ∀ p ∈ members,
        accepts strict env α p.2 (Path.member path p.1) (memberPath place p.1) (memberOf (ofSlot slot) p.1) =
          accepts strict env [] p.2 (Path.member path p.1) (memberPath place p.1) (memberOf (ofSlot slot) p.1) := by
      intro p hp
      obtain ⟨inner, heq, hinner⟩ := memberOf_slot hslot p.1
      rw [heq]
      exact ih p hp (wellFormed_child hvalid (List.mem_map_of_mem hp)) (h.under (List.mem_map_of_mem hp)) hinner
    exact Bool.eq_iff_iff.2 ⟨object_mono fun p hp => (Bool.eq_iff_iff.1 (hstep p hp)).1,
      object_mono fun p hp => (Bool.eq_iff_iff.1 (hstep p hp)).2⟩
  | array e g entries ih =>
    have hstep : ∀ (i : Nat) (s : ShapeNode), entries[i]? = some s →
        accepts strict env α s (Path.arrayIndex path i) (Path.arrayIndex place i) (elementOf (ofSlot slot) i) =
          accepts strict env [] s (Path.arrayIndex path i) (Path.arrayIndex place i) (elementOf (ofSlot slot) i) := by
      intro i s hs
      have hmem := List.mem_of_getElem? hs
      obtain ⟨inner, heq, hinner⟩ := elementOf_slot hslot i
      rw [heq]
      exact ih s hmem (wellFormed_child hvalid hmem) (h.under (mem_under_entries hs)) hinner
    exact Bool.eq_iff_iff.2 ⟨array_mono fun i s hs => (Bool.eq_iff_iff.1 (hstep i s hs)).1,
      array_mono fun i s hs => (Bool.eq_iff_iff.1 (hstep i s hs)).2⟩
  | eachLike e g items min max ih =>
    have hbounds := (wellFormed_mk.1 hvalid).2.1
    simp only [nodeValid, Bool.and_eq_true] at hbounds
    have hsize : ∀ size, sizeAccepts α path min max size = sizeAccepts [] path min max size := fun size =>
      sizeAccepts_unpinned hbounds.1 (forall_placed.1 h).1
    have hstep : ∀ elements, ofSlot slot = .array elements → ∀ p ∈ positions place elements,
        accepts strict env α items (Path.eachLikeItem path) p.2 p.1 =
          accepts strict env [] items (Path.eachLikeItem path) p.2 p.1 := by
      intro elements helements p hp
      obtain ⟨v, heq, hv⟩ := position_slot hslot helements hp
      rw [heq]
      exact ih (wellFormed_child hvalid List.mem_cons_self) (h.under List.mem_cons_self)
        fun w hw => Option.some.inj hw ▸ hv
    exact Bool.eq_iff_iff.2 ⟨eachLike_mono (fun size hs => hsize size ▸ hs) fun es hes p hp =>
      (Bool.eq_iff_iff.1 (hstep es hes p hp)).1, eachLike_mono (fun size hs => hsize size ▸ hs) fun es hes p hp =>
      (Bool.eq_iff_iff.1 (hstep es hes p hp)).2⟩
  | eachEntry e g keys values min max ihk ihv =>
    have hbounds := (wellFormed_mk.1 hvalid).2.1
    simp only [nodeValid, Bool.and_eq_true] at hbounds
    have hsize : ∀ size, sizeAccepts α path min max size = sizeAccepts [] path min max size := fun size =>
      sizeAccepts_unpinned hbounds.1.1 (forall_placed.1 h).1
    have hkey : ∀ k ∈ keys, ∀ place key,
        accepts strict env α k (Path.eachEntryKey path) place (.string key) =
          accepts strict env [] k (Path.eachEntryKey path) place (.string key) := by
      intro k hk place key
      obtain rfl := Option.mem_def.1 hk
      have hdistinct : ∀ v ∈ some (Json.string key), distinctKeys v = true := fun v hv => Option.some.inj hv ▸ rfl
      exact ihk k rfl (wellFormed_child hvalid List.mem_cons_self) (h.under List.mem_cons_self) hdistinct
    have hvalue : ∀ members, ofSlot slot = .object members → ∀ p ∈ members,
        accepts strict env α values (Path.eachEntryValue path) (memberPath place p.1) p.2 =
          accepts strict env [] values (Path.eachEntryValue path) (memberPath place p.1) p.2 := by
      intro members hmembers p hp
      obtain ⟨v, heq, hv⟩ := field_slot hslot hmembers hp
      rw [heq]
      exact ihv (wellFormed_child hvalid (List.mem_append_right _ List.mem_cons_self))
        (h.under (List.mem_append_right _ List.mem_cons_self)) fun w hw => Option.some.inj hw ▸ hv
    exact Bool.eq_iff_iff.2
      ⟨eachEntry_mono (fun size hs => hsize size ▸ hs) (fun k hk p s => (Bool.eq_iff_iff.1 (hkey k hk p s)).1)
        fun ms hms p hp => (Bool.eq_iff_iff.1 (hvalue ms hms p hp)).1,
      eachEntry_mono (fun size hs => hsize size ▸ hs) (fun k hk p s => (Bool.eq_iff_iff.1 (hkey k hk p s)).2)
        fun ms hms p hp => (Bool.eq_iff_iff.1 (hvalue ms hms p hp)).2⟩
  | contains e g entries ih =>
    refine contains_congr fun elements helements i s hs p hp => ?_
    have hmem := List.mem_of_getElem? hs
    obtain ⟨v, heq, hv⟩ := position_slot hslot helements hp
    rw [heq]
    exact ih s hmem (wellFormed_child hvalid hmem) (h.under (mem_under_entries hs)) fun w hw => Option.some.inj hw ▸ hv
  | optional e g of ih =>
    have hpin : pin α path .presence = none := (forall_placed.1 h).1 _ List.mem_cons_self
    rw [accepts_optional, accepts_optional, hpin, pin_nil,
      ih (wellFormed_child hvalid List.mem_cons_self) (h.under List.mem_cons_self) hslot]
  | nullable e g of ih =>
    have hpin : pin α path .nullability = none := (forall_placed.1 h).1 _ List.mem_cons_self
    rw [accepts_nullable, accepts_nullable, hpin, pin_nil,
      ih (wellFormed_child hvalid List.mem_cons_self) (h.under List.mem_cons_self) hslot]
  | oneOf e g discriminator alternatives default ih =>
    have hnode := (wellFormed_mk.1 hvalid).2.1
    simp only [nodeValid, alternativesValid, Bool.and_eq_true, decide_eq_true_eq] at hnode
    have hpin : pin α path .alternative = none := by
      have hown := (forall_placed.1 h).1
      obtain ⟨first, second, rest, rfl⟩ := exists_cons_cons hnode.1.1.1.1.1
      exact hown _ List.mem_cons_self
    have hpinned : pinnedAlternative α path alternatives = none := by simp [pinnedAlternative, hpin]
    rw [accepts_oneOf, accepts_oneOf, hpinned, Option.none_or]
    change _ = (selectedAlternative discriminator alternatives (ofSlot slot)).any _
    cases hselected : selectedAlternative discriminator alternatives (ofSlot slot) with
    | none => rfl
    | some p =>
      have hp : p ∈ alternatives := List.mem_of_find?_eq_some hselected
      exact ih p hp (wellFormed_child hvalid (List.mem_map_of_mem hp)) (h.under (List.mem_map_of_mem hp)) hslot

/-! Where what is pinned only narrows. -/

/-- A union whose alternatives' discriminators are equalities to readable octets, if to octets at all. -/
def discriminatorsDecode : ShapeKind → Bool
  | .oneOf discriminator alternatives _ =>
    alternatives.all fun p => (discriminatorNode discriminator p.2).all octetsDecode
  | _ => true

/-- A search for at most one element, or one in whose entries nothing is pinned. -/
def searchesUnpinned (α : Assignment) (n : PlacedNode) : Bool :=
  match n.node.kind with
  | .contains entries => entries.length ≤ 1 || (under n.path n.gates (.contains entries)).all fun c =>
      (walk c.node c.path c.gates).all fun d => (α.lookup d.id).isNone
  | _ => true

def narrows (α : Assignment) (n : PlacedNode) : Bool :=
  roomAbove n.node.kind && plainAlternatives n.node.kind && discriminatorsDecode n.node.kind && searchesUnpinned α n

private theorem narrows_iff {n : PlacedNode} :
    narrows α n = true ↔ roomAbove n.node.kind = true ∧ plainAlternatives n.node.kind = true ∧
      discriminatorsDecode n.node.kind = true ∧ searchesUnpinned α n = true := by
  simp [narrows, and_assoc]

private theorem unpinned_of_searches {e : Option Example} {g : Option Json} {entries : List ShapeNode}
    {gates : List Gate} (h : searchesUnpinned α ⟨path, gates, ⟨e, g, .contains entries⟩⟩ = true)
    (hmany : ¬ entries.length ≤ 1) {c : PlacedNode} (hc : c ∈ under path gates (.contains entries)) {d : Dimension}
    (hd : d ∈ walk c.node c.path c.gates) : α.lookup d.id = none := by
  simp only [searchesUnpinned, ShapeNode.kind_mk, hmany, decide_false, Bool.false_or, List.all_eq_true,
    Option.isNone_iff_eq_none] at h
  exact h c hc d hd

private theorem literal_of_accepts {n : ShapeNode} {options : List Json} (hnode : nodeValid n.example? n.kind = true)
    (hoctets : octetsDecode n = true) (hliterals : literalsOf n = some options)
    (hslot : ∀ v ∈ slot, distinctKeys v = true) (h : accepts strict env [] n path place (ofSlot slot) = true) :
    ∃ tag, slot = some tag ∧ ∃ o ∈ options, valuesEqual tag o = true := by
  obtain ⟨e, g, rfl, rfl⟩ | ⟨e, g, rfl⟩ := literalsOf_cases hliterals
  · have haccept := (accepts_equality rfl hoctets).symm.trans h
    obtain ⟨tag, rfl, hequal⟩ := (Option.any_eq_true _ _).1 haccept
    obtain ⟨document, hdocument, hequal⟩ := (Option.any_eq_true _ _).1 hequal
    have hvalue : document = e.value := by
      simp only [exampleDocument] at hdocument
      split at hdocument
      · exact absurd hdocument (by simp)
      · exact (Option.some.inj hdocument).symm
    exact ⟨tag, rfl, e.value, List.mem_cons_self, hvalue ▸ hequal⟩
  · simp only [ShapeNode.kind_mk, nodeValid, Bool.and_eq_true, List.all_eq_true] at hnode
    have haccept := (anyOfAccepts_nil hnode.1.1.2 hslot).symm.trans h
    obtain ⟨tag, rfl, hequal⟩ := (Option.any_eq_true _ _).1 haccept
    obtain ⟨o, ho, hequal⟩ := List.any_eq_true.1 hequal
    exact ⟨tag, rfl, o, ho, hequal⟩

/-- What is accepted as an alternative carries one of the alternative's literals. -/
private theorem selectedBy_of_accepts {discriminator : String} {alternative : ShapeNode}
    (hvalid : wellFormed alternative = true) (hslot : ∀ v ∈ slot, distinctKeys v = true)
    (hplain : isNullable alternative = false)
    (hoptions : (discriminatorOptions discriminator alternative).isSome = true)
    (hoctets : (discriminatorNode discriminator alternative).all octetsDecode = true)
    (h : accepts strict env [] alternative path place (ofSlot slot) = true) :
    ∃ v, slot = some v ∧ selectedBy discriminator alternative v = true := by
  obtain ⟨options, hos⟩ := Option.isSome_iff_exists.1 hoptions
  obtain ⟨n, hn, hliterals⟩ := Option.bind_eq_some_iff.1 (discriminatorOptions_eq .. ▸ hos)
  obtain ⟨e, g, k⟩ := alternative
  cases k with
  | object members =>
    have hlookup : members.lookup discriminator = some n := hn
    simp only [accepts, Bool.and_eq_true, acceptsMembers_iff] at h
    have hmember := h.2 _ (mem_of_lookup hlookup)
    obtain ⟨inner, heq, hinner⟩ := memberOf_slot hslot discriminator
    have hnode := (wellFormed_iff.1 hvalid n (discriminatorNode_mem hn)).2
    rw [hn, Option.all_some] at hoctets
    rw [memberOf_ofSlot] at hmember
    obtain ⟨tag, htag, o, ho, hequal⟩ := literal_of_accepts hnode hoctets hliterals (fun v hv => by
      obtain ⟨w, rfl, hget⟩ := Option.bind_eq_some_iff.1 hv
      exact distinctKeys_get (hslot w rfl) hget) hmember
    obtain ⟨v, rfl, hget⟩ := Option.bind_eq_some_iff.1 htag
    exact ⟨v, rfl, selectedBy_iff.2 ⟨tag, hget, options, hos, o, ho, hequal⟩⟩
  | nullable of => simp [isNullable] at hplain
  | _ => exact absurd hn (by simp [discriminatorNode, unwrapObjectMembers])

/-- A value a pinned plan accepts is one the plan with nothing pinned accepts. -/
theorem accepts_narrows {S : ShapeNode} {gates : List Gate} (hvalid : wellFormed S = true)
    (h : ∀ n ∈ placed S path gates, narrows α n = true) (hslot : ∀ v ∈ slot, distinctKeys v = true)
    (haccepts : accepts strict env α S path place (ofSlot slot) = true) :
    accepts strict env [] S path place (ofSlot slot) = true := by
  induction S generalizing strict slot path place gates with
  | leaf e g k hk =>
    cases k with
    | anyOf options =>
      have hnode := (wellFormed_mk.1 hvalid).2.1
      simp only [nodeValid, Bool.and_eq_true, List.all_eq_true] at hnode
      exact anyOfAccepts_narrows hnode.1.1.2 hslot haccepts
    | object | array | eachLike | eachEntry | contains | optional | nullable | oneOf =>
      exact absurd hk (by simp [isLeaf])
    | _ => exact haccepts
  | object e g members ih =>
    refine object_mono (fun p hp haccept => ?_) haccepts
    obtain ⟨inner, heq, hinner⟩ := memberOf_slot hslot p.1
    rw [heq] at haccept ⊢
    exact ih p hp (wellFormed_child hvalid (List.mem_map_of_mem hp))
      ((forall_placed.1 h).2 _ (List.mem_map_of_mem hp)) hinner haccept
  | array e g entries ih =>
    refine array_mono (fun i s hs haccept => ?_) haccepts
    have hmem := List.mem_of_getElem? hs
    obtain ⟨inner, heq, hinner⟩ := elementOf_slot hslot i
    rw [heq] at haccept ⊢
    exact ih s hmem (wellFormed_child hvalid hmem) ((forall_placed.1 h).2 _ (mem_under_entries hs)) hinner haccept
  | eachLike e g items min max ih =>
    have hroom := (narrows_iff.1 (forall_placed.1 h).1).1
    have hbounds := (wellFormed_mk.1 hvalid).2.1
    simp only [nodeValid, Bool.and_eq_true] at hbounds
    refine eachLike_mono (fun size => sizeAccepts_narrows hbounds.1 (roomAbove_unbounded hroom)) ?_ haccepts
    intro elements helements p hp haccept
    obtain ⟨v, heq, hv⟩ := position_slot hslot helements hp
    rw [heq] at haccept ⊢
    exact ih (wellFormed_child hvalid List.mem_cons_self) ((forall_placed.1 h).2 _ List.mem_cons_self)
      (fun w hw => Option.some.inj hw ▸ hv) haccept
  | eachEntry e g keys values min max ihk ihv =>
    have hroom := (narrows_iff.1 (forall_placed.1 h).1).1
    have hbounds := (wellFormed_mk.1 hvalid).2.1
    simp only [nodeValid, Bool.and_eq_true] at hbounds
    refine eachEntry_mono (fun size => sizeAccepts_narrows hbounds.1.1 (roomAbove_unbounded hroom)) ?_ ?_ haccepts
    · intro k hk place key haccept
      obtain rfl := Option.mem_def.1 hk
      have hdistinct : ∀ v ∈ some (Json.string key), distinctKeys v = true := fun v hv => Option.some.inj hv ▸ rfl
      exact ihk k rfl (wellFormed_child hvalid List.mem_cons_self) ((forall_placed.1 h).2 _ List.mem_cons_self)
        hdistinct haccept
    · intro members hmembers p hp haccept
      obtain ⟨v, heq, hv⟩ := field_slot hslot hmembers hp
      rw [heq] at haccept ⊢
      exact ihv (wellFormed_child hvalid (List.mem_append_right _ List.mem_cons_self))
        ((forall_placed.1 h).2 _ (List.mem_append_right _ List.mem_cons_self))
        (fun w hw => Option.some.inj hw ▸ hv) haccept
  | contains e g entries ih =>
    have hstep : ∀ elements, ofSlot slot = .array elements → ∀ (i : Nat) (s : ShapeNode), entries[i]? = some s →
        ∀ p ∈ positions place elements, accepts true env α s (Path.arrayIndex path i) p.2 p.1 = true →
          accepts true env [] s (Path.arrayIndex path i) p.2 p.1 = true := by
      intro elements helements i s hs p hp haccept
      have hmem := List.mem_of_getElem? hs
      obtain ⟨v, heq, hv⟩ := position_slot hslot helements hp
      rw [heq] at haccept ⊢
      exact ih s hmem (wellFormed_child hvalid hmem) ((forall_placed.1 h).2 _ (mem_under_entries hs))
        (fun w hw => Option.some.inj hw ▸ hv) haccept
    rcases entries with _ | ⟨first, _ | ⟨second, rest⟩⟩
    · exact (contains_congr fun _ _ _ _ hs => absurd hs (by simp)).symm.trans haccepts
    · exact contains_single_mono (fun es hes => hstep es hes 0 first rfl) haccepts
    · have hunpinned := (narrows_iff.1 (forall_placed.1 h).1).2.2.2
      refine (contains_congr fun elements helements i s hs p hp => ?_).symm.trans haccepts
      have hmem := List.mem_of_getElem? hs
      have hchild := wellFormed_child hvalid hmem
      obtain ⟨v, heq, hv⟩ := position_slot hslot helements hp
      rw [heq]
      have hfree : PinsNothing α (placed s (Path.arrayIndex path i) gates) := fun n hn d hd =>
        unpinned_of_searches hunpinned (by simp) (mem_under_entries hs) ((mem_walk hchild).2 ⟨n, hn, hd⟩)
      exact accepts_unpinned hchild hfree fun w hw => Option.some.inj hw ▸ hv
  | optional e g of ih =>
    exact optional_mono (Or.inr rfl) (ih (wellFormed_child hvalid List.mem_cons_self)
      ((forall_placed.1 h).2 _ List.mem_cons_self) hslot) haccepts
  | nullable e g of ih =>
    exact nullable_mono (Or.inr rfl) (ih (wellFormed_child hvalid List.mem_cons_self)
      ((forall_placed.1 h).2 _ List.mem_cons_self) hslot) haccepts
  | oneOf e g discriminator alternatives default ih =>
    have hnode := (wellFormed_mk.1 hvalid).2.1
    simp only [nodeValid, Bool.and_eq_true] at hnode
    have hchild : ∀ p ∈ alternatives, wellFormed p.2 = true := fun p hp =>
      wellFormed_child hvalid (List.mem_map_of_mem hp)
    rw [accepts_oneOf, Option.any_eq_true] at haccepts ⊢
    obtain ⟨p, hp, haccept⟩ := haccepts
    have hmem := mem_alternatives discriminator _ hp
    have hfree := ih p hmem (hchild p hmem) ((forall_placed.1 h).2 _ (List.mem_map_of_mem hmem)) hslot haccept
    refine ⟨p, ?_, hfree⟩
    change selectedAlternative discriminator alternatives (ofSlot slot) = some p
    obtain hpinned | ⟨-, hselected⟩ := Option.or_eq_some_iff.1 hp
    · obtain ⟨-, hplain, hoctets, -⟩ := narrows_iff.1 (forall_placed.1 h).1
      have halternatives := hnode.1.1
      simp only [alternativesValid, Bool.and_eq_true, List.all_eq_true] at halternatives
      simp only [plainAlternatives, ShapeNode.kind_mk, List.all_eq_true, Bool.not_eq_true'] at hplain
      simp only [discriminatorsDecode, ShapeNode.kind_mk, List.all_eq_true] at hoctets
      obtain ⟨v, hv, hselected⟩ := selectedBy_of_accepts (hchild p hmem) hslot (hplain p hmem)
        (halternatives.1.2 p hmem) (hoctets p hmem) hfree
      exact (selectedAlternative_eq_some hnode.1.1 hchild hslot).2 ⟨v, hv, hmem, hselected⟩
    · exact hselected

/-- A document that a slot's plan matches under an assignment is one its plan matches under none, where the shape has
room above its least sizes, no alternative is `nullable` or told apart by unreadable octets, and nothing is pinned
inside a search for several elements. -/
theorem pinned_plan_narrows (slot : Slot) (env : Env) (S : ShapeNode) (α : Assignment) (v : Json) (hS : WellFormed S)
    (h : ∀ n ∈ placed S slot.root [], narrows α n = true) (hv : distinctKeys v = true)
    (hmatched : slot.verdict env S α (fromJson v) = .matched) : slot.verdict env S [] (fromJson v) = .matched := by
  rw [matched_iff hS.tree (isDocument_fromJson v)] at hmatched ⊢
  have hslot : ∀ w ∈ some v, distinctKeys w = true := fun w hw => Option.some.inj hw ▸ hv
  have hpinned : accepts false env α S slot.root ("$." ++ slot.root) (ofSlot (some v)) = true := hmatched
  exact accepts_narrows hS.tree h hslot hpinned

private def tagged (name : String) : ShapeNode := .of (.object [("t", .equalTo (.string name))])

private def statusOf (least : UInt64) : ShapeNode :=
  .of (.eachLike (.of (.anyOf [.string "open", .string "closed"])) least none)

theorem pinned_plan_narrows_status :
    bodySlot.verdict bareEnv (statusOf 1) [("response.body[*]#value", "open")] (fromJson (.array [.string "open"])) =
        .matched ∧
      bodySlot.verdict bareEnv (statusOf 1) [] (fromJson (.array [.string "open"])) = .matched := by
  have hmatched : bodySlot.verdict bareEnv (statusOf 1) [("response.body[*]#value", "open")]
      (fromJson (.array [.string "open"])) = .matched := (matched_iff (by decide) rfl).2 (by decide)
  exact ⟨hmatched, pinned_plan_narrows bodySlot bareEnv (statusOf 1) _ _ (by decide) (by decide) (by decide) hmatched⟩

/-- Whether an assignment is of a shape's variant space: each of its pins is a point of a dimension there. -/
def ofSpace (S : ShapeNode) (α : Assignment) : Bool :=
  α.all fun pin => (compute S bodySlot.root).any fun d => d.id == pin.1 && d.points.any fun p => p.name == pin.2

/-- A shape, an assignment of its variant space and a document matched under the assignment alone. -/
def Widens (S : ShapeNode) (α : Assignment) (v : Json) : Prop :=
  WellFormed S ∧ ofSpace S α = true ∧ bodySlot.verdict bareEnv S α (fromJson v) = .matched ∧
    bodySlot.verdict bareEnv S [] (fromJson v) ≠ .matched

private theorem widens {S : ShapeNode} {α : Assignment} {v : Json} (hS : WellFormed S) (hα : ofSpace S α = true)
    (hpinned : accepts false bareEnv α S bodySlot.root ("$." ++ bodySlot.root) (fromJson v) = true)
    (hfree : accepts false bareEnv [] S bodySlot.root ("$." ++ bodySlot.root) (fromJson v) = false) : Widens S α v := by
  refine ⟨hS, hα, (matched_iff hS.tree (isDocument_fromJson v)).2 hpinned, fun hmatched => ?_⟩
  rw [matched_iff hS.tree (isDocument_fromJson v), hfree] at hmatched
  exact absurd hmatched (by simp)

private def oneOrTwo : ShapeNode := .of (.anyOf [.number (.posInt 1), .number (.posInt 2)])

/-- Pinning an entry of a search moves its claim; a `null` selects no alternative; a least size with none above it wraps
round; and octets that cannot be read tell an alternative from nothing. -/
theorem pinned_plan_widens :
    Widens (.of (.contains [oneOrTwo, .equalTo (.number (.posInt 1))])) [("response.body[0]#value", "2")]
        (.array [.number (.posInt 1), .number (.posInt 2)]) ∧
      Widens (.of (.oneOf "t" [("a", .of (.nullable (tagged "a"))), ("b", tagged "b")] none))
        [("response.body#alternative", "a")] .null ∧
      Widens (statusOf 18446744073709551615) [("response.body#cardinality", "min+1")] (.array []) ∧
      Widens (.of (.oneOf "t"
          [("a", .of (.object [("t", ⟨some ⟨.string "!", some "base64"⟩, none, .equality⟩)])), ("b", tagged "b")] none))
        [("response.body#alternative", "a")] (.object []) := by
  refine ⟨widens ?_ ?_ ?_ ?_, widens ?_ ?_ ?_ ?_, widens ?_ ?_ ?_ ?_, widens ?_ ?_ ?_ ?_⟩ <;> decide

end PactJanus.Plan.Narrowing
