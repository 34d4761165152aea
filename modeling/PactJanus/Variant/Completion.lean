import PactJanus.Shape.Gating
import PactJanus.Variant.Assignment

namespace PactJanus.Variant.Completion

open PactJanus.Lib PactJanus.Lib.SortedMap PactJanus.Shape.VariantSpace PactJanus.Shape.Gating PactJanus.Plan.Compile
  PactJanus.Variant.Assignment

/-! What a walk through the dimensions of a space makes: a point for each active dimension, none for the others. -/

variable {α β current partial' : Assignment} {d : Dimension} {dims space : List Dimension}

theorem isActive_iff : isActive α d = true ↔ ∀ g ∈ d.gatedBy, α.lookup g.dimension = some g.point := by
  simp only [isActive, List.all_eq_true, beq_iff_eq]

theorem isActive_congr (h : ∀ g ∈ d.gatedBy, α.lookup g.dimension = β.lookup g.dimension) :
    isActive α d = isActive β d := by
  rw [Bool.eq_iff_iff, isActive_iff, isActive_iff]
  exact forall₂_congr fun g hg => by rw [h g hg]

/-- A name of one of a dimension's points. -/
def IsPoint (d : Dimension) (point : String) : Prop := ∃ p ∈ d.points, p.name = point

instance (d : Dimension) (point : String) : Decidable (IsPoint d point) :=
  inferInstanceAs (Decidable (∃ p ∈ d.points, p.name = point))

/-- An assignment that goes on from another through some dimensions, with allowed points. -/
structure Settled (allowed : Dimension → String → Prop) (dims : List Dimension) (current β : Assignment) : Prop where
  sorted : Sorted β
  outside : ∀ id, (∀ d ∈ dims, d.id ≠ id) → β.lookup id = current.lookup id
  active : ∀ d ∈ dims, isActive β d = true → ∃ point, allowed d point ∧ β.lookup d.id = some point
  inactive : ∀ d ∈ dims, isActive β d = false → β.lookup d.id = none

/-- No dimension is given a point yet. -/
def Fresh (dims : List Dimension) (current : Assignment) : Prop := ∀ d ∈ dims, current.lookup d.id = none

theorem fresh_nil : Fresh dims [] := fun _ _ => rfl

theorem Fresh.insert (h : Fresh (d :: dims) current) (ho : Ordered (d :: dims)) (point : String) :
    Fresh dims (SortedMap.insert d.id point current) := by
  intro e he
  rw [lookup_insert, if_neg (ho.2.1 e he)]
  exact h e (List.mem_cons_of_mem _ he)

theorem Fresh.tail (h : Fresh (d :: dims) current) : Fresh dims current := fun e he => h e (List.mem_cons_of_mem _ he)

variable {allowed : Dimension → String → Prop}

theorem settled_nil (hs : Sorted current) : Settled allowed [] current β ↔ β = current := by
  constructor
  · intro h
    exact h.sorted.ext hs fun id => h.outside id (List.forall_mem_nil _)
  · rintro rfl
    exact ⟨hs, fun _ _ => rfl, List.forall_mem_nil _, List.forall_mem_nil _⟩

private theorem gates_before (ho : Ordered (d :: dims)) {g : Gate} (hg : g ∈ d.gatedBy) :
    (∀ e ∈ d :: dims, e.id ≠ g.dimension) ∧ ∀ e ∈ dims, e.id ≠ g.dimension :=
  ⟨fun e he => Ne.symm (ho.1 g hg e he), fun e he => Ne.symm (ho.1 g hg e (List.mem_cons_of_mem _ he))⟩

private theorem settled_active (ho : Ordered (d :: dims)) (ha : isActive current d = true) :
    Settled allowed (d :: dims) current β ↔
      ∃ point, allowed d point ∧ Settled allowed dims (SortedMap.insert d.id point current) β := by
  constructor
  · intro h
    have hd : isActive β d = true := by
      rw [isActive_congr fun g hg => h.outside g.dimension (gates_before ho hg).1]
      exact ha
    obtain ⟨point, hallowed, hpoint⟩ := h.active d List.mem_cons_self hd
    refine ⟨point, hallowed, h.sorted, ?_, fun e he => h.active e (List.mem_cons_of_mem _ he),
      fun e he => h.inactive e (List.mem_cons_of_mem _ he)⟩
    intro id hid
    rw [lookup_insert]
    split
    · rename_i heq
      exact heq ▸ hpoint
    · rename_i hne
      exact h.outside id (List.forall_mem_cons.2 ⟨fun heq => hne heq.symm, hid⟩)
  · rintro ⟨point, hallowed, h⟩
    have hpoint : β.lookup d.id = some point := by
      rw [h.outside d.id ho.2.1, lookup_insert, if_pos rfl]
    have hout : ∀ id, (∀ e ∈ d :: dims, e.id ≠ id) → β.lookup id = current.lookup id := by
      intro id hid
      obtain ⟨hne, hid⟩ := List.forall_mem_cons.1 hid
      rw [h.outside id hid, lookup_insert, if_neg (Ne.symm hne)]
    have hd : isActive β d = true := by
      rw [isActive_congr fun g hg => hout g.dimension (gates_before ho hg).1]
      exact ha
    exact ⟨h.sorted, hout, List.forall_mem_cons.2 ⟨fun _ => ⟨point, hallowed, hpoint⟩, h.active⟩,
      List.forall_mem_cons.2 ⟨fun hnot => absurd (hd.symm.trans hnot) (by simp), h.inactive⟩⟩

private theorem settled_inactive (ho : Ordered (d :: dims)) (hf : current.lookup d.id = none)
    (ha : isActive current d = false) :
    Settled allowed (d :: dims) current β ↔ Settled allowed dims current β := by
  constructor
  · intro h
    have hd : isActive β d = false := by
      rw [isActive_congr fun g hg => h.outside g.dimension (gates_before ho hg).1]
      exact ha
    refine ⟨h.sorted, ?_, fun e he => h.active e (List.mem_cons_of_mem _ he),
      fun e he => h.inactive e (List.mem_cons_of_mem _ he)⟩
    intro id hid
    by_cases heq : d.id = id
    · rw [← heq, h.inactive d List.mem_cons_self hd, hf]
    · exact h.outside id (List.forall_mem_cons.2 ⟨heq, hid⟩)
  · intro h
    have hd : isActive β d = false := by
      rw [isActive_congr fun g hg => h.outside g.dimension (gates_before ho hg).2]
      exact ha
    refine ⟨h.sorted, fun id hid => h.outside id (List.forall_mem_cons.1 hid).2,
      List.forall_mem_cons.2 ⟨fun hyes => absurd (hd.symm.trans hyes) (by simp), h.active⟩,
      List.forall_mem_cons.2 ⟨fun _ => ?_, h.inactive⟩⟩
    rw [h.outside d.id ho.2.1, hf]

/-- One dimension of the walk: given an allowed point where it is active, passed over where it is not. -/
theorem settled_cons (ho : Ordered (d :: dims)) (hf : current.lookup d.id = none) :
    Settled allowed (d :: dims) current β ↔
      if isActive current d then ∃ point, allowed d point ∧ Settled allowed dims (SortedMap.insert d.id point current) β
      else Settled allowed dims current β := by
  split
  · rename_i ha
    exact settled_active ho ha
  · rename_i ha
    exact settled_inactive ho hf (Bool.not_eq_true _ ▸ ha)

theorem Settled.mono {allowed' : Dimension → String → Prop} (h : Settled allowed dims current β)
    (himp : ∀ d ∈ dims, ∀ point, allowed d point → allowed' d point) : Settled allowed' dims current β := by
  refine ⟨h.sorted, h.outside, fun d hd ha => ?_, h.inactive⟩
  obtain ⟨point, hallowed, hpoint⟩ := h.active d hd ha
  exact ⟨point, himp d hd point hallowed, hpoint⟩

/-! The walk that completes a partial assignment. -/

/-- The point a partial assignment gives a dimension, or its default. -/
def pick (partial' : Assignment) (d : Dimension) : String := (partial'.lookup d.id).getD d.default

theorem settled_completeFrom (ho : Ordered dims) (hs : Sorted current) (hf : Fresh dims current) :
    Settled (fun d point => point = pick partial' d) dims current β ↔ β = completeFrom partial' dims current := by
  induction dims generalizing current with
  | nil => exact settled_nil hs
  | cons d rest ih =>
    rw [settled_cons ho (hf d List.mem_cons_self), completeFrom]
    split
    · rename_i ha
      simp only [exists_eq_left]
      exact ih ho.2.2 (hs.insert _ _) (hf.insert ho _)
    · exact ih ho.2.2 hs hf.tail

variable (ho : Ordered space)

include ho

theorem complete_iff : Settled (fun d point => point = pick partial' d) space [] β ↔ β = complete space partial' :=
  settled_completeFrom ho sorted_nil fresh_nil

theorem complete_settled (partial' : Assignment) :
    Settled (fun d point => point = pick partial' d) space [] (complete space partial') :=
  (complete_iff ho).2 rfl

/-- What `complete` gives a dimension: its point or its default where it is active, nothing where it is not. -/
theorem lookup_complete (hd : d ∈ space) :
    (complete space partial').lookup d.id =
      if isActive (complete space partial') d then some (pick partial' d) else none := by
  have h := complete_settled ho partial'
  split
  · rename_i ha
    obtain ⟨point, rfl, hpoint⟩ := h.active d hd ha
    exact hpoint
  · rename_i ha
    exact h.inactive d hd (Bool.not_eq_true _ ▸ ha)

/-- An assignment that gives points to the active dimensions only is what `complete` makes of it. -/
theorem complete_of_settled (h : Settled allowed space [] β) : complete space β = β := by
  refine ((complete_iff ho).1 ⟨h.sorted, h.outside, ?_, h.inactive⟩).symm
  intro d hd ha
  obtain ⟨point, -, hpoint⟩ := h.active d hd ha
  refine ⟨point, ?_, hpoint⟩
  rw [pick, hpoint]
  rfl

theorem complete_complete (partial' : Assignment) : complete space (complete space partial') = complete space partial' :=
  complete_of_settled ho (complete_settled ho partial')

/-- Complete assignments are the ones made of points of the active dimensions. -/
theorem completeFor_iff :
    CompleteFor space β ↔ Settled IsPoint space [] β := by
  constructor
  · rintro ⟨hfixed, hpoints⟩
    have h := complete_settled ho β
    rw [hfixed] at h
    refine ⟨h.sorted, h.outside, ?_, h.inactive⟩
    intro d hd ha
    obtain ⟨p, hp, hlookup⟩ := hpoints d hd ha
    exact ⟨p.name, ⟨p, hp, rfl⟩, hlookup⟩
  · intro h
    refine ⟨complete_of_settled ho h, ?_⟩
    intro d hd ha
    obtain ⟨point, ⟨p, hp, rfl⟩, hlookup⟩ := h.active d hd ha
    exact ⟨p, hp, hlookup⟩

omit ho

/-! Partial assignments made of points, and those that are kept. -/

/-- Everything a partial assignment says gives a dimension one of its points. -/
def Pointed (space : List Dimension) (partial' : Assignment) : Prop :=
  ∀ q ∈ partial', ∃ d ∈ space, d.id = q.1 ∧ IsPoint d q.2

theorem Pointed.insert (h : Pointed space partial') (hd : d ∈ space) {point : String} (hpoint : IsPoint d point) :
    Pointed space (SortedMap.insert d.id point partial') := by
  intro q hq
  rcases mem_of_mem_insert hq with rfl | hq
  · exact ⟨d, hd, rfl, hpoint⟩
  · exact h q hq

theorem Pointed.lookup (h : Pointed space partial') (hf : Forest space) (hd : d ∈ space) {point : String}
    (hpoint : partial'.lookup d.id = some point) : IsPoint d point := by
  obtain ⟨e, he, hid, hpoint⟩ := h _ (Lists.mem_of_lookup hpoint)
  exact hf.eq_of_id he hd hid ▸ hpoint

/-- A partial assignment that has every gate of each dimension it gives a point. -/
def Closed (space : List Dimension) (partial' : Assignment) : Prop :=
  ∀ d ∈ space, (partial'.lookup d.id).isSome = true → ∀ g ∈ d.gatedBy, partial'.lookup g.dimension = some g.point

/-- `complete` keeps every point of a partial assignment that has the gates of each, whatever it is given besides. -/
theorem lookup_complete_of_extends (h : Forest space) {kept : Assignment} (hclosed : Closed space kept)
    (hkept : ∀ e ∈ space, ∀ point, kept.lookup e.id = some point → partial'.lookup e.id = some point) {point : String}
    (hd : d ∈ space) (hpoint : kept.lookup d.id = some point) :
    (complete space partial').lookup d.id = some point := by
  induction hn : d.gatedBy.length using Nat.strong_induction_on generalizing d point with
  | _ n ih =>
    have hactive : isActive (complete space partial') d = true := by
      refine isActive_iff.2 fun g hg => ?_
      obtain ⟨p, hp, q, -, rfl, hbefore⟩ := h.gate hd hg
      have hlt : p.gatedBy.length < n := by
        have := hbefore.length_le
        rw [opens, List.length_append] at this
        simp only [List.length_singleton] at this
        omega
      exact ih _ hlt hp (hclosed d hd (by rw [hpoint]; rfl) _ hg) rfl
    rw [lookup_complete h.ordered hd, if_pos hactive, pick, hkept d hd point hpoint]
    rfl

theorem lookup_complete_of_closed (h : Forest space) (hclosed : Closed space partial') {point : String}
    (hd : d ∈ space) (hpoint : partial'.lookup d.id = some point) :
    (complete space partial').lookup d.id = some point :=
  lookup_complete_of_extends h hclosed (fun _ _ _ hlookup => hlookup) hd hpoint

/-! Every point of every dimension is in a complete assignment. -/

/-- The gates of a dimension as a partial assignment. -/
def gatesOf (d : Dimension) : Assignment := d.gatedBy.map fun g => (g.dimension, g.point)

theorem nodup_gatesOf (h : Forest space) (hd : d ∈ space) : ((gatesOf d).map Prod.fst).Nodup := by
  rw [gatesOf, List.map_map]
  exact h.nodup_gates hd

theorem lookup_gatesOf (h : Forest space) (hd : d ∈ space) {g : Gate} (hg : g ∈ d.gatedBy) :
    (gatesOf d).lookup g.dimension = some g.point :=
  Lists.lookup_of_mem (nodup_gatesOf h hd) (List.mem_map.2 ⟨g, hg, rfl⟩)

theorem gate_of_mem {q : String × String} (h : q ∈ gatesOf d) : ∃ g ∈ d.gatedBy, (g.dimension, g.point) = q :=
  List.mem_map.1 h

/-- A partial assignment with the gates of a dimension, and of other dimensions at most the dimension itself, has the
gates of each. -/
theorem closed_of_gates (h : Forest space) (hd : d ∈ space)
    (hgates : ∀ g ∈ d.gatedBy, partial'.lookup g.dimension = some g.point)
    (honly : ∀ e ∈ space, (partial'.lookup e.id).isSome = true → e = d ∨ ∃ g ∈ d.gatedBy, g.dimension = e.id) :
    Closed space partial' := by
  intro e he hsome g hg
  rcases honly e he hsome with rfl | ⟨g', hg', hid⟩
  · exact hgates g hg
  · obtain ⟨p, hp, q, -, rfl, hbefore⟩ := h.gate hd hg'
    obtain rfl := h.eq_of_id hp he hid
    exact hgates g (hbefore.subset (List.mem_append_left _ hg))

/-- A partial assignment with a point for every dimension: the one it gives, or the first. -/
def filled (space : List Dimension) (partial' : Assignment) : Assignment :=
  space.map fun d => (d.id, (partial'.lookup d.id).getD ((d.points.head?.map Point.name).getD d.default))

theorem lookup_filled (h : Forest space) (hd : d ∈ space) :
    (filled space partial').lookup d.id =
      some ((partial'.lookup d.id).getD ((d.points.head?.map Point.name).getD d.default)) := by
  have hkeys : ((filled space partial').map Prod.fst).Nodup := by
    rw [filled, List.map_map]
    exact h.distinct
  exact Lists.lookup_of_mem hkeys (List.mem_map.2 ⟨d, hd, rfl⟩)

theorem completeFor_filled (h : Forest space) (hp : Pointed space partial') :
    CompleteFor space (complete space (filled space partial')) := by
  rw [completeFor_iff h.ordered]
  refine (complete_settled h.ordered _).mono fun d hd point hpick => ?_
  rw [hpick, pick, lookup_filled h hd]
  cases hlookup : partial'.lookup d.id with
  | some point => exact hp.lookup h hd hlookup
  | none =>
    obtain ⟨p, rest, hpoints⟩ := List.exists_cons_of_ne_nil (h.points d hd)
    exact ⟨p, hpoints ▸ List.mem_cons_self, by simp [hpoints]⟩

/-- Each point of a dimension is the dimension's in some complete assignment. -/
theorem exists_completeFor (h : Forest space) (hd : d ∈ space) {point : String} (hpoint : IsPoint d point) :
    ∃ β, CompleteFor space β ∧ isActive β d = true ∧ β.lookup d.id = some point := by
  have hown : ((d.id, point) :: gatesOf d).lookup d.id = some point := by
    rw [Lists.lookup_cons_ite, if_pos rfl]
  have hgates : ∀ g ∈ d.gatedBy, ((d.id, point) :: gatesOf d).lookup g.dimension = some g.point := by
    intro g hg
    rw [Lists.lookup_cons_ite, if_neg (h.ordered.not_own_gate hd hg)]
    exact lookup_gatesOf h hd hg
  have hclosed : Closed space ((d.id, point) :: gatesOf d) := by
    refine closed_of_gates h hd hgates fun e he hsome => ?_
    obtain ⟨q, hq⟩ := Option.isSome_iff_exists.1 hsome
    rcases List.mem_cons.1 (Lists.mem_of_lookup hq) with heq | hq
    · exact Or.inl (h.eq_of_id he hd (congrArg Prod.fst heq))
    · obtain ⟨g, hg, heq⟩ := gate_of_mem hq
      exact Or.inr ⟨g, hg, congrArg Prod.fst heq⟩
  have hpointed : Pointed space ((d.id, point) :: gatesOf d) := by
    refine List.forall_mem_cons.2 ⟨⟨d, hd, rfl, hpoint⟩, fun q hq => ?_⟩
    obtain ⟨g, hg, rfl⟩ := gate_of_mem hq
    obtain ⟨p, hp, opened, hopened, rfl, -⟩ := h.gate hd hg
    exact ⟨p, hp, rfl, opened, hopened, rfl⟩
  have hkept : ∀ e ∈ space, ∀ point', ((d.id, point) :: gatesOf d).lookup e.id = some point' →
      (filled space ((d.id, point) :: gatesOf d)).lookup e.id = some point' := by
    intro e he point' hlookup
    rw [lookup_filled h he, hlookup]
    rfl
  refine ⟨complete space (filled space ((d.id, point) :: gatesOf d)), completeFor_filled h hpointed,
    isActive_iff.2 fun g hg => ?_, lookup_complete_of_extends h hclosed hkept hd hown⟩
  obtain ⟨p, hp, q, -, rfl, -⟩ := h.gate hd hg
  exact lookup_complete_of_extends h hclosed hkept hp (hgates _ hg)

end PactJanus.Variant.Completion
