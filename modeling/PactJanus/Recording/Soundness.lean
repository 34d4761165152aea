import PactJanus.Recording.Literals

namespace PactJanus.Recording.Soundness

open PactJanus.Data.Json PactJanus.Lib.Lists PactJanus.Shape.Model PactJanus.Shape.Valid PactJanus.Shape.Nodes
  PactJanus.Shape.Admits PactJanus.Plan.Semantics PactJanus.Recording.Observe PactJanus.Recording.Emission
  PactJanus.Recording.Summary PactJanus.Recording.Literals

/-! A recorded shape is the size of what it describes, valid but where both zeros are kept, and admits what was seen. -/

/-- A shape that is neither absence nor `null` at its root. -/
structure Plain (S : ShapeNode) : Prop where
  present : admitsAbsent S = false
  plain : isNullable S = false

section Modifiers

variable {vs : List Json} {V : ShapeNode}

private theorem present_orNull (h : Plain V) : admitsAbsent (orNull vs V) = false := by
  unfold orNull
  split_ifs
  · rfl
  · exact h.present

private theorem wellFormed_orNull (h : Plain V) : wellFormed (orNull vs V) = true ↔ wellFormed V = true := by
  unfold orNull
  split_ifs
  · obtain ⟨e, g, k⟩ := V
    obtain ⟨hpresent, hplain⟩ := h
    rw [ShapeNode.of, wellFormed_mk]
    cases k <;> simp_all [exampleValid, nodeValid, isNullable, wellFormedKind]
  · exact Iff.rfl

private theorem nodeCount_orNull : nodeCount (orNull vs V) = (vs.any isNull).toNat + nodeCount V := by
  unfold orNull
  split_ifs with hnull
  · rw [hnull]
    rfl
  · rw [Bool.not_eq_true] at hnull
    rw [hnull, Bool.toNat_false, Nat.zero_add]

private theorem depth_orNull : depth (orNull vs V) = (vs.any isNull).toNat + depth V := by
  unfold orNull
  split_ifs with hnull
  · rw [hnull, Nat.add_comm]
    rfl
  · rw [Bool.not_eq_true] at hnull
    rw [hnull, Bool.toNat_false, Nat.zero_add]

private theorem described_orNull (h : Described V) : Described (orNull vs V) := by
  unfold orNull
  split_ifs
  · refine forall_nodes.2 ⟨⟨rfl, rfl⟩, ?_⟩
    exact List.forall_mem_singleton.2 h
  · exact h

private theorem admits_orNull {v : Json} (hv : v ∈ vs) (h : isNull v = false → admitsContent V (some v) = true) :
    admitsContent (orNull vs V) (some v) = true := by
  unfold orNull
  split_ifs with hnull
  · cases hcase : isNull v with
    | true => simp [admitsContent, ShapeNode.of, admitsWith, hcase]
    | false =>
      have hadmits := h hcase
      simp only [admitsContent, ShapeNode.of, admitsWith, Bool.or_eq_true] at hadmits ⊢
      exact Or.inr hadmits
  · refine h (Bool.eq_false_iff.2 fun hcase => hnull (List.any_eq_true.2 ⟨v, hv, hcase⟩))

private theorem wraps_eq (h : held vs ≠ .nulls) : wraps vs = vs.any isNull := by
  simp [wraps, h]

end Modifiers

section Members

variable {vs : List Json} {p : String × ShapeNode}

private theorem wellFormed_orAbsent (h : admitsAbsent p.2 = false) : wellFormed (orAbsent vs p).2 = true ↔ wellFormed p.2 = true := by
  unfold orAbsent
  dsimp only
  split_ifs
  · rw [ShapeNode.of, wellFormed_mk]
    simp [exampleValid, nodeValid, wellFormedKind, h]
  · exact Iff.rfl

private theorem nodeCount_orAbsent : nodeCount (orAbsent vs p).2 = (lacks p.1 vs).toNat + nodeCount p.2 := by
  unfold orAbsent
  dsimp only
  split_ifs with hlacks
  · rw [hlacks]
    rfl
  · rw [Bool.not_eq_true] at hlacks
    rw [hlacks, Bool.toNat_false, Nat.zero_add]

private theorem depth_orAbsent : depth (orAbsent vs p).2 = (lacks p.1 vs).toNat + depth p.2 := by
  unfold orAbsent
  dsimp only
  split_ifs with hlacks
  · rw [hlacks, Nat.add_comm]
    rfl
  · rw [Bool.not_eq_true] at hlacks
    rw [hlacks, Bool.toNat_false, Nat.zero_add]

private theorem described_orAbsent (h : Described p.2) : Described (orAbsent vs p).2 := by
  unfold orAbsent
  dsimp only
  split_ifs
  · refine forall_nodes.2 ⟨⟨rfl, rfl⟩, ?_⟩
    exact List.forall_mem_singleton.2 h
  · exact h

private theorem admits_orAbsent {slot : Option Json} (h : admitsContent p.2 slot = true) : admitsContent (orAbsent vs p).2 slot = true := by
  unfold orAbsent
  dsimp only
  split_ifs
  · simp only [admitsContent, ShapeNode.of, admitsWith, Bool.or_eq_true] at h ⊢
    exact Or.inr h
  · exact h

private theorem names_orAbsent (members : List (String × ShapeNode)) :
    (members.map (orAbsent vs)).map Prod.fst = members.map Prod.fst := by
  rw [List.map_map]
  rfl

end Members

section Described

variable {policy : RecordingPolicy} {vs : List Json} {S : ShapeNode}

theorem present_of_describes (h : Describes policy vs S) : admitsAbsent S = false := by
  cases h with
  | nulls => rfl
  | mixed => exact present_orNull ⟨rfl, rfl⟩
  | scalars =>
    have hsingle := single_scalarShape policy ‹Flat›
    exact present_orNull ⟨hsingle.present, hsingle.plain⟩
  | objects => exact present_orNull ⟨rfl, rfl⟩
  | lists => exact present_orNull ⟨rfl, rfl⟩

private theorem described_any : Described (.of .any) :=
  forall_nodes.2 ⟨⟨rfl, rfl⟩, fun _ hc => absurd hc List.not_mem_nil⟩

theorem described_of_describes (h : Describes policy vs S) : Described S := by
  induction h with
  | nulls => exact forall_nodes.2 ⟨⟨rfl, rfl⟩, fun _ hc => absurd hc List.not_mem_nil⟩
  | mixed => exact described_orNull described_any
  | scalars => exact described_orNull (single_scalarShape policy _).described
  | objects members _ _ _ _ ih =>
    refine described_orNull (forall_nodes.2 ⟨⟨rfl, rfl⟩, ?_⟩)
    simp only [children, List.map_map, List.forall_mem_map]
    exact fun p hp => described_orAbsent (ih p hp)
  | @lists vs _ _ _ _ _ _ hempty _ ih =>
    refine described_orNull (forall_nodes.2 ⟨⟨rfl, rfl⟩, List.forall_mem_singleton.2 ?_⟩)
    by_cases helements : elements vs = []
    · rw [hempty helements]
      exact described_any
    · exact ih helements

/-! Its size. -/

private theorem sum_members (members : List (String × ShapeNode)) (hd : (members.map Prod.fst).Nodup)
    (hnames : ∀ name, name ∈ members.map Prod.fst ↔ name ∈ names vs) (f : String → Nat) :
    (members.map fun p => f p.1).sum = ∑ name ∈ names vs, f name := by
  have hset : names vs = (members.map Prod.fst).toFinset := by
    ext name
    rw [List.mem_toFinset, hnames]
  rw [hset, List.sum_toFinset f hd, List.map_map]
  rfl

private theorem nodeCountMembers_eq (members : List (String × ShapeNode)) :
    nodeCountMembers members = (members.map fun p => nodeCount p.2).sum := by
  induction members with
  | nil => rfl
  | cons p rest ih => rw [nodeCountMembers, List.map_cons, List.sum_cons, ih]

private theorem depthMembers_le {members : List (String × ShapeNode)} {n : Nat} :
    depthMembers members ≤ n ↔ ∀ p ∈ members, depth p.2 + 1 ≤ n := by
  induction members with
  | nil => simp [depthMembers]
  | cons p rest ih => simp [depthMembers, ih]

theorem nodesFor_nil : nodesFor [] = 1 := by
  rw [nodesFor]
  rfl

theorem levelsFor_nil : levelsFor [] = 0 := by
  rw [levelsFor]
  rfl

private theorem nodesFor_flat (hnulls : held vs ≠ .nulls) (hobjects : held vs ≠ .objects) (hlists : held vs ≠ .lists) :
    nodesFor vs = (vs.any isNull).toNat + 1 := by
  rw [nodesFor, dif_neg hobjects, dif_neg hlists, wraps_eq hnulls]

private theorem levelsFor_flat (hnulls : held vs ≠ .nulls) (hobjects : held vs ≠ .objects) (hlists : held vs ≠ .lists) :
    levelsFor vs = (vs.any isNull).toNat := by
  rw [levelsFor, dif_neg hobjects, dif_neg hlists, wraps_eq hnulls, Nat.add_zero]

theorem nodeCount_of_describes (h : Describes policy vs S) : nodeCount S = nodesFor vs := by
  induction h with
  | nulls _ hheld => simp [nodesFor, wraps, hheld, nodeCount, ShapeNode.of, nodeCountKind]
  | mixed hheld =>
    rw [nodeCount_orNull, nodesFor_flat (by simp [hheld]) (by simp [hheld]) (by simp [hheld])]
    rfl
  | scalars hheld =>
    rw [nodeCount_orNull, nodesFor_flat (by simp [hheld]) (by simp [hheld]) (by simp [hheld]),
      (single_scalarShape policy _).nodes]
  | @objects vs members hheld hd hnames _ ih =>
    have hmembers : nodeCountMembers (members.map (orAbsent vs)) =
        ∑ name ∈ names vs, ((lacks name vs).toNat + nodesFor (valuesOf name vs)) := by
      rw [nodeCountMembers_eq, List.map_map, ← sum_members members hd hnames]
      refine congrArg List.sum (List.map_congr_left fun p hp => ?_)
      rw [Function.comp_apply, nodeCount_orAbsent, ih p hp]
    rw [nodeCount_orNull, nodesFor, dif_pos hheld, wraps_eq (by simp [hheld]), ← hmembers, Nat.add_assoc]
    rfl
  | @lists vs items _ _ hheld _ _ hempty _ ih =>
    have hitems : nodeCount items = nodesFor (elements vs) := by
      by_cases helements : elements vs = []
      · rw [hempty helements, helements, nodesFor_nil]
        rfl
      · exact ih helements
    rw [nodeCount_orNull, nodesFor, dif_neg (by simp [hheld]), dif_pos hheld, wraps_eq (by simp [hheld]), ← hitems,
      Nat.add_assoc]
    rfl

theorem depth_of_describes (h : Describes policy vs S) : depth S = levelsFor vs := by
  induction h with
  | nulls _ hheld => simp [levelsFor, wraps, hheld, Shape.Valid.depth, ShapeNode.of, depthKind]
  | mixed hheld =>
    rw [depth_orNull, levelsFor_flat (by simp [hheld]) (by simp [hheld]) (by simp [hheld])]
    rfl
  | scalars hheld =>
    rw [depth_orNull, levelsFor_flat (by simp [hheld]) (by simp [hheld]) (by simp [hheld]),
      (single_scalarShape policy _).depth, Nat.add_zero]
  | @objects vs members hheld hd hnames _ ih =>
    have hmembers : depthMembers (members.map (orAbsent vs)) =
        (names vs).sup fun name => (lacks name vs).toNat + levelsFor (valuesOf name vs) + 1 := by
      refine eq_of_forall_ge_iff fun n => ?_
      rw [depthMembers_le, List.forall_mem_map, Finset.sup_le_iff]
      constructor
      · intro hle name hname
        obtain ⟨p, hp, rfl⟩ := List.mem_map.1 ((hnames name).2 hname)
        have hle' := hle p hp
        rwa [depth_orAbsent, ih p hp] at hle'
      · intro hle p hp
        rw [depth_orAbsent, ih p hp]
        exact hle p.1 ((hnames p.1).1 (List.mem_map_of_mem hp))
    rw [depth_orNull, levelsFor, dif_pos hheld, wraps_eq (by simp [hheld]), ← hmembers]
    rfl
  | @lists vs items _ _ hheld _ _ hempty _ ih =>
    have hitems : depth items = levelsFor (elements vs) := by
      by_cases helements : elements vs = []
      · rw [hempty helements, helements, levelsFor_nil]
        rfl
      · exact ih helements
    rw [depth_orNull, levelsFor, dif_neg (by simp [hheld]), dif_pos hheld, wraps_eq (by simp [hheld]), ← hitems]
    rfl

/-! Its validity. -/

private theorem positions_flat (hobjects : held vs ≠ .objects) (hlists : held vs ≠ .lists) {P : List Json → Prop} :
    (∀ ws, Position vs ws → P ws) ↔ P vs := by
  constructor
  · exact fun h => h vs (.here vs)
  · rintro h ws (_ | ⟨name, hheld, -⟩ | ⟨hheld, -⟩)
    · exact h
    · exact absurd hheld hobjects
    · exact absurd hheld hlists

private theorem positions_objects (hheld : held vs = .objects) {P : List Json → Prop} :
    (∀ ws, Position vs ws → P ws) ↔ P vs ∧ ∀ name ws, Position (valuesOf name vs) ws → P ws := by
  constructor
  · exact fun h => ⟨h vs (.here vs), fun name ws hws => h ws (.member name hheld hws)⟩
  · rintro ⟨hhere, hmembers⟩ ws (_ | ⟨name, -, hws⟩ | ⟨hlists, -⟩)
    · exact hhere
    · exact hmembers name ws hws
    · exact absurd (hheld.symm.trans hlists) (by decide)

private theorem positions_lists (hheld : held vs = .lists) {P : List Json → Prop} :
    (∀ ws, Position vs ws → P ws) ↔ P vs ∧ ∀ ws, Position (elements vs) ws → P ws := by
  constructor
  · exact fun h => ⟨h vs (.here vs), fun ws hws => h ws (.element hheld hws)⟩
  · rintro ⟨hhere, helements⟩ ws (_ | ⟨name, hobjects, -⟩ | ⟨-, hws⟩)
    · exact hhere
    · exact absurd (hheld.symm.trans hobjects) (by decide)
    · exact helements ws hws

private theorem not_zerosTogether (hheld : held vs ≠ .scalars) : ¬ZerosTogether policy vs := fun hzeros => hheld hzeros.scalars

theorem no_zeros_of_nothing : ∀ ws, Position [] ws → ¬ZerosTogether policy ws :=
  (positions_flat (by decide) (by decide)).2 (not_zerosTogether (by decide))

theorem wellFormed_of_describes (h : Describes policy vs S) :
    wellFormed S = true ↔ ∀ ws, Position vs ws → ¬ZerosTogether policy ws := by
  induction h with
  | nulls _ hheld =>
    rw [positions_flat (by simp [hheld]) (by simp [hheld])]
    exact iff_of_true rfl (not_zerosTogether (by simp [hheld]))
  | mixed hheld =>
    rw [positions_flat (by simp [hheld]) (by simp [hheld]), wellFormed_orNull ⟨rfl, rfl⟩]
    exact iff_of_true rfl (not_zerosTogether (by simp [hheld]))
  | scalars hheld hflat =>
    have hsingle := single_scalarShape policy ‹Flat›
    rw [positions_flat (by simp [hheld]) (by simp [hheld]), wellFormed_orNull ⟨hsingle.present, hsingle.plain⟩]
    exact wellFormed_scalarShape hheld hflat
  | @objects vs members hheld hd hnames hdescribes ih =>
    rw [positions_objects hheld, wellFormed_orNull ⟨rfl, rfl⟩, ShapeNode.of, wellFormed_mk, nodeValid, names_orAbsent,
      wellFormedKind, wellFormedMembers_iff, List.forall_mem_map]
    simp only [exampleValid, decide_eq_true hd, true_and]
    constructor
    · intro hmembers
      refine ⟨not_zerosTogether (by simp [hheld]), fun name => ?_⟩
      by_cases hname : name ∈ names vs
      · obtain ⟨p, hp, rfl⟩ := List.mem_map.1 ((hnames name).2 hname)
        rw [← ih p hp, ← wellFormed_orAbsent (present_of_describes (hdescribes p hp))]
        exact hmembers p hp
      · have hnothing : valuesOf name vs = [] := not_not.1 fun hne => hname (mem_names.2 hne)
        rw [hnothing]
        exact no_zeros_of_nothing
    · intro hpositions p hp
      rw [wellFormed_orAbsent (present_of_describes (hdescribes p hp)), ih p hp]
      exact hpositions.2 p.1
  | @lists vs items least most hheld hle _ hempty hdescribes ih =>
    have hitems : admitsAbsent items = false ∧
        (wellFormed items = true ↔ ∀ ws, Position (elements vs) ws → ¬ZerosTogether policy ws) := by
      by_cases helements : elements vs = []
      · rw [hempty helements, helements]
        exact ⟨rfl, iff_of_true rfl no_zeros_of_nothing⟩
      · exact ⟨present_of_describes (hdescribes helements), ih helements⟩
    rw [positions_lists hheld, wellFormed_orNull ⟨rfl, rfl⟩, ShapeNode.of, wellFormed_mk, nodeValid, wellFormedKind,
      hitems.1, hitems.2]
    have hhere : ¬ZerosTogether policy vs := not_zerosTogether (by simp [hheld])
    simp [exampleValid, hle, hhere]

/-! What it admits. -/

theorem admits_of_describes (h : Describes policy vs S) (hcounts : ∀ v ∈ vs, countable v = true)
    (hd : ∀ v ∈ vs, distinctKeys v = true) {v : Json} (hv : v ∈ vs) : admitsContent S (some v) = true := by
  induction h generalizing v with
  | nulls _ hheld =>
    have hnull := held_nulls_iff.1 hheld v hv
    cases v <;> simp_all [isNull, admitsContent, ShapeNode.of, admitsWith, admitsValue, ofKind]
  | mixed => exact admits_orNull hv fun _ => rfl
  | scalars hheld hflat =>
    exact admits_orNull hv fun hnull => admits_scalarShape hflat hv (scalar_of_held hheld hv hnull)
  | @objects vs members hheld _ _ _ ih =>
    refine admits_orNull hv fun hnull => ?_
    obtain ⟨fields, rfl⟩ := object_of_held hheld hv hnull
    simp only [admitsContent, ShapeNode.of, admitsWith, admitsMembers_iff, List.forall_mem_map]
    intro p hp
    cases hlookup : fields.lookup p.1 with
    | none =>
      have hlacks := lacks_of_lookup hv hlookup
      simp [orAbsent, hlacks, hlookup, ShapeNode.of, admitsWith]
    | some w =>
      have hw : w ∈ valuesOf p.1 vs := List.mem_filterMap.2 ⟨fields, mem_objectsIn hv, hlookup⟩
      have hadmits := ih p hp (countable_valuesOf hcounts p.1) (distinct_valuesOf hd p.1) hw
      rw [show (orAbsent vs p).1 = p.1 from rfl, hlookup]
      exact admits_orAbsent hadmits
  | @lists vs items least most hheld _ hbounds _ _ ih =>
    refine admits_orNull hv fun hnull => ?_
    obtain ⟨array, rfl⟩ := list_of_held hheld hv hnull
    obtain ⟨hlow, hhigh⟩ := hbounds array (mem_arraysIn hv)
    have hlength : (UInt64.ofNat array.length).toNat = array.length :=
      UInt64.toNat_ofNat_of_lt' (countable_array (hcounts _ hv)).1
    rw [UInt64.le_iff_toNat_le, hlength] at hlow hhigh
    simp only [admitsContent, ShapeNode.of, admitsWith, Bool.and_eq_true, List.all_eq_true]
    refine ⟨by simp [withinBounds, hlow, hhigh], fun w hw => ?_⟩
    have helement : w ∈ elements vs := List.mem_flatten.2 ⟨array, mem_arraysIn hv, hw⟩
    exact ih (List.ne_nil_of_mem helement) (countable_elements hcounts) (distinct_elements hd) helement

end Described

end PactJanus.Recording.Soundness
