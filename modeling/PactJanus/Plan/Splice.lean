import PactJanus.Plan.Compile
import PactJanus.Plan.Fragment

namespace PactJanus.Plan.Splice

open PactJanus.Data.Json PactJanus.Shape PactJanus.Plan.Model PactJanus.Plan.Compile PactJanus.Plan.Fragment

/-! A plan laid out by parts and slots, and what splicing a fragment into one of them leaves alone. -/

/-- The parts of a plan by name, each with what the containers of its slots hold. -/
abbrev Parts := List (String × List (String × List Node))

def slotNode (slot : String × List Node) : Node := .container (some slot.1) slot.2

def partNode (part : String × List (String × List Node)) : Node := .container (some part.1) (part.2.map slotNode)

/-- A plan laid out as an interaction's is. -/
def planRoot (description : String) (parts : Parts) : Node := .container (some description) (parts.map partNode)

theorem compile_root (spec : InteractionSpec) (assignment : Assignment) (variantId : Option String) :
    (compile spec assignment variantId).root = planRoot spec.description (spec.parts.map fun part =>
      (part.1, part.2.map fun slot => (slot.1, compileShape slot.2 (rootCtx part.1 slot.1 assignment)))) := by
  simp only [compile, planRoot, partNode, slotNode, List.map_map, Function.comp_def]

/-- A part but for what one slot's container holds. -/
def partWith (part slot : String) (contents : List Node) (p : String × List (String × List Node)) :
    String × List (String × List Node) :=
  if p.1 = part then (p.1, p.2.map fun s => if s.1 = slot then (s.1, contents) else s) else p

/-- The same plan but for what one slot's container holds. -/
def withContents (part slot : String) (contents : List Node) (parts : Parts) : Parts :=
  parts.map (partWith part slot contents)

/-- Parts and slots are in maps, by name. -/
def DistinctNames (parts : Parts) : Prop :=
  (parts.map Prod.fst).Nodup ∧ ∀ p ∈ parts, (p.2.map Prod.fst).Nodup

def hasSlot (part slot : String) (p : String × List (String × List Node)) : Bool :=
  p.1 == part && p.2.any fun s => s.1 == slot

/-- A container labelled as a slot is. -/
def isLabelled (label : String) : Node → Bool
  | .container (some name) _ => name == label
  | _ => false

/-- A container labelled as a part is, directly holding one labelled as its slot is. -/
def looksLike (part slot : String) : Node → Bool
  | .container (some name) slots => name == part && slots.any (isLabelled slot)
  | _ => false

mutual

/-- Some container within a node looks like the part and its slot. -/
def nests (part slot : String) : Node → Bool
  | .container _ children => nestsAny part slot children
  | _ => false
termination_by structural node => node

def nestsAny (part slot : String) : List Node → Bool
  | [] => false
  | child :: rest => looksLike part slot child || nests part slot child || nestsAny part slot rest
termination_by structural nodes => nodes

end

/-- Nothing that comes before a slot's own container, in the order it is searched for, looks like it. -/
def FoundFirst (part slot : String) (parts : Parts) : Prop :=
  ∀ p ∈ parts.takeWhile fun p => !hasSlot part slot p, nests part slot (partNode p) = false

variable {part slot : String} {fragment other : Node}

/-! What the search finds does not depend on the fragment. -/

theorem intoSlot_isSome (slots : List Node) : (intoSlot slot fragment slots).isSome = slots.any (isLabelled slot) := by
  fun_induction intoSlot slot fragment slots with
  | case1 => rfl
  | case2 rest => simp [isLabelled]
  | case3 contents rest name hne ih => simp [isLabelled, hne, ih]
  | case4 node rest hne ih =>
    have hnot : isLabelled slot node = false := by
      unfold isLabelled
      split
      · exact absurd rfl (hne _ _)
      · rfl
    rw [Option.isSome_map, ih, List.any_cons, hnot, Bool.false_or]

theorem intoPart_isSome (node : Node) : (intoPart part slot fragment node).isSome = looksLike part slot node := by
  unfold intoPart
  split
  · rename_i label slots
    rw [looksLike]
    split
    · rename_i h
      rw [Option.isSome_map, intoSlot_isSome, beq_iff_eq.2 h, Bool.true_and]
    · rename_i h
      rw [beq_eq_false_iff_ne.2 h]
      rfl
  · rename_i hne
    unfold looksLike
    split
    · exact absurd rfl (hne _ _)
    · rfl

mutual

theorem splice_isSome : ∀ node : Node, (splice part slot fragment node).isSome = nests part slot node
  | .container label children => by rw [splice, nests, Option.isSome_map, spliceAll_isSome children]
  | .action .. | .value _ | .resolve _ | .resolveCurrent _ | .pipeline _ | .splat _ | Node.annotation _ => rfl

theorem spliceAll_isSome : ∀ nodes : List Node, (spliceAll part slot fragment nodes).isSome = nestsAny part slot nodes
  | [] => rfl
  | child :: rest => by
    have hpart : (intoPart part slot fragment child).isSome = looksLike part slot child := intoPart_isSome child
    have hchild := splice_isSome child
    have hrest := spliceAll_isSome rest
    rw [spliceAll, nestsAny, ← hpart, ← hchild, ← hrest]
    cases intoPart part slot fragment child with
    | some _ => rfl
    | none =>
      cases splice part slot fragment child with
      | some _ => rfl
      | none => rw [Option.isSome_map]; rfl

end

/-! Two fragments are never left in one place. -/

theorem intoSlot_injective {slots after : List Node} (h : intoSlot slot fragment slots = some after)
    (h' : intoSlot slot other slots = some after) : fragment = other := by
  fun_induction intoSlot slot fragment slots generalizing after with
  | case1 => exact nomatch h
  | case2 rest =>
    rw [intoSlot, if_pos rfl] at h'
    obtain rfl := Option.some.inj h
    simpa using (Option.some.inj h').symm
  | case3 contents rest name hne ih =>
    rw [intoSlot, if_neg hne] at h'
    obtain ⟨rest', hrest, rfl⟩ := Option.map_eq_some_iff.1 h
    obtain ⟨_, hother, heq⟩ := Option.map_eq_some_iff.1 h'
    exact ih hrest (by rw [hother, (List.cons.inj heq).2])
  | case4 node rest hne ih =>
    rw [intoSlot.eq_3 _ _ _ _ hne] at h'
    obtain ⟨rest', hrest, rfl⟩ := Option.map_eq_some_iff.1 h
    obtain ⟨_, hother, heq⟩ := Option.map_eq_some_iff.1 h'
    exact ih hrest (by rw [hother, (List.cons.inj heq).2])

theorem intoPart_injective {node after : Node} (h : intoPart part slot fragment node = some after)
    (h' : intoPart part slot other node = some after) : fragment = other := by
  unfold intoPart at h
  split at h
  · rename_i label slots
    split at h
    · rename_i hlabel
      rw [intoPart, if_pos hlabel] at h'
      obtain ⟨slots', hslots, rfl⟩ := Option.map_eq_some_iff.1 h
      obtain ⟨_, hother, heq⟩ := Option.map_eq_some_iff.1 h'
      injection heq with _ heq
      exact intoSlot_injective hslots (heq ▸ hother)
    · exact nomatch h
  · exact nomatch h

mutual

theorem splice_injective : ∀ {node after : Node}, splice part slot fragment node = some after →
    splice part slot other node = some after → fragment = other
  | .container label children, after, h, h' => by
    rw [splice] at h h'
    obtain ⟨children', hchildren, rfl⟩ := Option.map_eq_some_iff.1 h
    obtain ⟨_, hother, heq⟩ := Option.map_eq_some_iff.1 h'
    injection heq with _ heq
    exact spliceAll_injective hchildren (heq ▸ hother)
  | .action .., _, h, _ | .value _, _, h, _ | .resolve _, _, h, _ | .resolveCurrent _, _, h, _
  | .pipeline _, _, h, _ | .splat _, _, h, _ | Node.annotation _, _, h, _ => nomatch h

theorem spliceAll_injective : ∀ {nodes after : List Node}, spliceAll part slot fragment nodes = some after →
    spliceAll part slot other nodes = some after → fragment = other
  | [], _, h, _ => nomatch h
  | child :: rest, after, h, h' => by
    have hpart : (intoPart part slot fragment child).isSome = (intoPart part slot other child).isSome :=
      (intoPart_isSome child).trans (intoPart_isSome child).symm
    have hchild : (splice part slot fragment child).isSome = (splice part slot other child).isSome :=
      (splice_isSome child).trans (splice_isSome child).symm
    rw [spliceAll] at h h'
    cases hone : intoPart part slot fragment child with
    | some one =>
      obtain ⟨two, htwo⟩ := Option.isSome_iff_exists.1 (hpart.symm.trans (by rw [hone]; rfl))
      rw [hone] at h
      rw [htwo] at h'
      obtain rfl := Option.some.inj h
      obtain rfl := (List.cons.inj (Option.some.inj h')).1
      exact intoPart_injective hone htwo
    | none =>
      rw [Option.isNone_iff_eq_none.1 (Option.isSome_eq_false_iff.1 (hpart.symm.trans (by rw [hone]; rfl)))] at h'
      rw [hone] at h
      cases hone : splice part slot fragment child with
      | some one =>
        obtain ⟨two, htwo⟩ := Option.isSome_iff_exists.1 (hchild.symm.trans (by rw [hone]; rfl))
        rw [hone] at h
        rw [htwo] at h'
        obtain rfl := Option.some.inj h
        obtain rfl := (List.cons.inj (Option.some.inj h')).1
        exact splice_injective hone htwo
      | none =>
        rw [Option.isNone_iff_eq_none.1 (Option.isSome_eq_false_iff.1 (hchild.symm.trans (by rw [hone]; rfl)))] at h'
        rw [hone] at h
        obtain ⟨rest', hrest, rfl⟩ := Option.map_eq_some_iff.1 h
        obtain ⟨_, hother, heq⟩ := Option.map_eq_some_iff.1 h'
        exact spliceAll_injective hrest (by rw [hother, (List.cons.inj heq).2])

end

/-! A slot's own container. -/

theorem looksLike_partNode (p : String × List (String × List Node)) :
    looksLike part slot (partNode p) = hasSlot part slot p := by
  simp only [partNode, looksLike, hasSlot, List.any_map, Function.comp_def, slotNode, isLabelled]

theorem slots_without {slots : List (String × List Node)} {contents : List Node}
    (h : ∀ s ∈ slots, s.1 ≠ slot) : (slots.map fun s => if s.1 = slot then (s.1, contents) else s) = slots := by
  conv_rhs => rw [← List.map_id slots]
  exact List.map_congr_left fun s hs => if_neg (h s hs)

theorem partWith_other {p : String × List (String × List Node)} {contents : List Node}
    (h : hasSlot part slot p = false) : partWith part slot contents p = p := by
  unfold partWith
  split
  · rename_i hpart
    rw [hasSlot, beq_iff_eq.2 hpart, Bool.true_and, List.any_eq_false] at h
    rw [slots_without fun s hs => by simpa using h s hs]
  · rfl

theorem intoSlot_slots {slots : List (String × List Node)} (hnames : (slots.map Prod.fst).Nodup)
    (h : slots.any (fun s => s.1 == slot) = true) : intoSlot slot fragment (slots.map slotNode) =
      some ((slots.map fun s => if s.1 = slot then (s.1, [fragment]) else s).map slotNode) := by
  induction slots with
  | nil => exact nomatch h
  | cons s rest ih =>
    rw [List.map_cons, List.nodup_cons] at hnames
    rw [List.map_cons, slotNode, intoSlot, List.map_cons, List.map_cons]
    by_cases hs : s.1 = slot
    · rw [if_pos hs, if_pos hs, slots_without fun s' hs' (heq : s'.1 = slot) =>
        hnames.1 (hs.trans heq.symm ▸ List.mem_map_of_mem hs')]
      rfl
    · rw [List.any_cons, beq_eq_false_iff_ne.2 hs, Bool.false_or] at h
      rw [if_neg hs, if_neg hs, ih hnames.2 h]
      rfl

theorem spliceAll_parts {parts : Parts} (hnames : DistinctNames parts) (h : FoundFirst part slot parts) :
    spliceAll part slot fragment (parts.map partNode) =
      if parts.any (hasSlot part slot) then some ((withContents part slot [fragment] parts).map partNode) else none := by
  induction parts with
  | nil => rfl
  | cons p rest ih =>
    obtain ⟨hparts, hslots⟩ := hnames
    rw [List.map_cons, List.nodup_cons] at hparts
    rw [List.map_cons, spliceAll, List.any_cons, withContents, List.map_cons, List.map_cons]
    cases hp : hasSlot part slot p with
    | true =>
      obtain ⟨hpart, hslot⟩ := Bool.and_eq_true_iff.1 hp
      rw [beq_iff_eq] at hpart
      have hrest : rest.map (partWith part slot [fragment]) = rest := by
        conv_rhs => rw [← List.map_id rest]
        exact List.map_congr_left fun q hq =>
          if_neg fun (heq : q.1 = part) => hparts.1 (hpart.trans heq.symm ▸ List.mem_map_of_mem hq)
      rw [partNode, intoPart, if_pos hpart, intoSlot_slots (hslots p List.mem_cons_self) hslot, hrest,
        Bool.true_or, if_pos rfl, partWith, if_pos hpart]
      rfl
    | false =>
      have hkept : ∀ q ∈ p :: rest.takeWhile (fun p => !hasSlot part slot p), nests part slot (partNode q) = false := by
        unfold FoundFirst at h
        rwa [List.takeWhile_cons, hp] at h
      have hpart : intoPart part slot fragment (partNode p) = none :=
        Option.isNone_iff_eq_none.1 (Option.isSome_eq_false_iff.1
          ((intoPart_isSome _).trans ((looksLike_partNode p).trans hp)))
      have hchild : splice part slot fragment (partNode p) = none :=
        Option.isNone_iff_eq_none.1 (Option.isSome_eq_false_iff.1
          ((splice_isSome _).trans (hkept p List.mem_cons_self)))
      rw [hpart, hchild, ih ⟨hparts.2, fun q hq => hslots q (List.mem_cons_of_mem _ hq)⟩
        fun q hq => hkept q (List.mem_cons_of_mem _ hq), partWith_other hp, Bool.false_or]
      cases rest.any (hasSlot part slot) <;> rfl

/-- A plan after a fragment was spliced in, or as it was where there is no such slot. -/
def spliced (part slot : String) (fragment root : Node) : Node := (splice part slot fragment root).getD root

theorem spliced_root {parts : Parts} {description : String} (hnames : DistinctNames parts)
    (h : FoundFirst part slot parts) : spliced part slot fragment (planRoot description parts) =
      planRoot description (withContents part slot [fragment] parts) := by
  rw [spliced, planRoot, splice, spliceAll_parts hnames h]
  cases hany : parts.any (hasSlot part slot) with
  | true => rfl
  | false =>
    have hsame : withContents part slot [fragment] parts = parts := by
      conv_rhs => rw [← List.map_id parts]
      exact List.map_congr_left fun p hp => partWith_other (Bool.eq_false_iff.2 (List.any_eq_false.1 hany p hp))
    rw [hsame]
    rfl

private theorem spliced_rest {p : String × List (String × List Node)} {rest : Parts} {contents : List Node}
    (hchild : splice part slot fragment (partNode p) = none)
    (h : (match splice part slot fragment (partNode p) with
      | some child => some (child :: rest.map partNode)
      | none => (spliceAll part slot fragment (rest.map partNode)).map (partNode p :: ·)).getD
        (partNode p :: rest.map partNode) = partNode p :: (rest.map (partWith part slot contents)).map partNode) :
    (spliceAll part slot fragment (rest.map partNode)).getD (rest.map partNode) =
      (withContents part slot contents rest).map partNode := by
  rw [hchild] at h
  cases hs : spliceAll part slot fragment (rest.map partNode) with
  | some _ =>
    rw [hs] at h
    exact (List.cons.inj h).2
  | none =>
    rw [hs] at h
    exact (List.cons.inj h).2

theorem foundFirst_of_spliced {parts : Parts} {contents contents' : List Node} (hne : fragment ≠ other)
    (h : (spliceAll part slot fragment (parts.map partNode)).getD (parts.map partNode) =
      (withContents part slot contents parts).map partNode)
    (h' : (spliceAll part slot other (parts.map partNode)).getD (parts.map partNode) =
      (withContents part slot contents' parts).map partNode) : FoundFirst part slot parts := by
  induction parts with
  | nil => exact fun _ hp => by cases hp
  | cons p rest ih =>
    unfold FoundFirst
    rw [List.takeWhile_cons]
    cases hp : hasSlot part slot p with
    | true => exact fun _ hq => by cases hq
    | false =>
      have hpart : ∀ f, intoPart part slot f (partNode p) = none := fun f =>
        Option.isNone_iff_eq_none.1 (Option.isSome_eq_false_iff.1
          ((intoPart_isSome _).trans ((looksLike_partNode p).trans hp)))
      rw [List.map_cons, spliceAll, hpart, withContents, List.map_cons, List.map_cons, partWith_other hp] at h h'
      have hnests : nests part slot (partNode p) = false := by
        by_contra hc
        rw [Bool.not_eq_false] at hc
        have hfound : ∀ f, ∃ node, splice part slot f (partNode p) = some node := fun f =>
          Option.isSome_iff_exists.1 ((splice_isSome (partNode p)).trans hc)
        obtain ⟨one, hone⟩ := hfound fragment
        obtain ⟨two, htwo⟩ := hfound other
        rw [hone] at h
        rw [htwo] at h'
        obtain rfl : one = partNode p := (List.cons.inj h).1
        obtain rfl : two = partNode p := (List.cons.inj h').1
        exact hne (splice_injective hone htwo)
      have hchild : ∀ f, splice part slot f (partNode p) = none := fun f =>
        Option.isNone_iff_eq_none.1 (Option.isSome_eq_false_iff.1 ((splice_isSome _).trans hnests))
      intro q hq
      rcases List.mem_cons.1 hq with rfl | hq
      · exact hnests
      · exact ih (spliced_rest (hchild _) h) (spliced_rest (hchild _) h') q hq

end PactJanus.Plan.Splice
