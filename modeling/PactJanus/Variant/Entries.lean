import PactJanus.Variant.Production

namespace PactJanus.Variant.Entries

open PactJanus.Data.Json PactJanus.Shape PactJanus.Shape.Model PactJanus.Shape.Valid PactJanus.Shape.VariantSpace
open PactJanus.Shape.Cardinality PactJanus.Plan.Model PactJanus.Plan.Value PactJanus.Plan.Result PactJanus.Plan.Interpret
open PactJanus.Plan.Compile PactJanus.Plan.Positions PactJanus.Plan.Good PactJanus.Plan.Accepts PactJanus.Plan.Settles
open PactJanus.Plan PactJanus.Plan.Documents PactJanus.Variant.Assignment PactJanus.Variant.Generate PactJanus.Variant.Production

/-! How many entries a map is produced with, against the size its variant names. -/

variable {α : Assignment} {at' : String} {min : UInt64} {max : Option UInt64}

/-- The point of a collection's size that an assignment gives: the one it names, or the only one there is. -/
def GivenSize (α : Assignment) (at' : String) (min : UInt64) (max : Option UInt64) (point : CardinalityPoint) : Prop :=
  point ∈ cardinalityPoints min max ∧
    (α.lookup (Path.dimensionId at' Facet.cardinality.text) = some point.name ∨ cardinalityPoints min max = [point])

/-- As many entries as a point's size, which are in its region and which the plan of the assignment accepts. -/
structure AtSize (α : Assignment) (at' : String) (min : UInt64) (max : Option UInt64) (point : CardinalityPoint)
    (members : List (String × Json)) : Prop where
  count : members.length = point.size.toNat
  region : ∃ region, cardinalityRegion min max point.name = some region ∧ region.1.toNat ≤ members.length ∧
    ∀ upper ∈ region.2, members.length ≤ upper.toNat
  accepted : ∀ (ctx : Compile.Ctx) (c : Interpret.Ctx) (place : String), ctx.assignment = α → ctx.path = at' →
    Resolves c ctx.cursor (fromJson (.object members)) place → childFailed (run (cardinalityAssertion ctx min max) c) = false

/-- The key the entries are produced with, where their shape produces a text. -/
def producedKey (α : Assignment) (keys : Option ShapeNode) (at' : String) : Option String :=
  (generatedKey α keys (Path.eachEntryKey at')).bind asStr

private theorem entryKey_of_none {key? : Option Json} (h : key?.bind asStr = none) (index : Nat) :
    entryKey key? index = entryKey none index := by
  rw [entryKey, h]
  rfl

private theorem insertField_only (name : String) (v : Json) : insertField name v [(name, v)] = [(name, v)] := by
  simp [insertField]

private theorem entryFields_one {key? : Option Json} {name : String} (h : key?.bind asStr = some name) (v : Json)
    (size : Nat) : entryFields key? v (size + 1) = [(name, v)] := by
  have hkey : ∀ index, entryKey key? index = name := by
    intro index
    rw [entryKey, h]
    rfl
  induction size with
  | zero => simp [entryFields, hkey, insertField]
  | succ size ih =>
    rw [entryFields, List.range_succ, List.foldl_append, ← entryFields, ih, List.foldl_cons, List.foldl_nil, hkey]
    exact insertField_only name v

/-- With a text for their key the entries are one at most, without they are as many as they should be. -/
theorem entryFields_length (key? : Option Json) (v : Json) {size : Nat} (hsize : size ≤ 2 ^ 64) :
    (entryFields key? v size).length = size ↔ key?.bind asStr = none ∨ size ≤ 1 := by
  cases hkey : key?.bind asStr with
  | none =>
    have hsame : entryFields key? v size = entryFields none v size := by
      simp only [entryFields, entryKey_of_none hkey]
    rw [hsame, entryFields_numbered v hsize]
    simp
  | some name =>
    cases size with
    | zero => simp [entryFields]
    | succ size =>
      rw [entryFields_one hkey]
      simp only [List.length_singleton, reduceCtorEq, false_or]
      omega

private theorem find_point {point : CardinalityPoint} (hvalid : max.all (fun m => min ≤ m) = true)
    (h : point ∈ cardinalityPoints min max) :
    (cardinalityPoints min max).find? (fun p => p.name == point.name) = some point := by
  obtain rfl | rfl | ⟨m, rfl, hlt⟩ := points_cases hvalid
  · rw [points_single] at h ⊢
    obtain rfl := List.mem_singleton.1 h
    rfl
  · rw [points_unbounded] at h ⊢
    rcases List.mem_cons.1 h with rfl | h
    · rfl
    · obtain rfl := List.mem_singleton.1 h
      rfl
  · rw [points_bounded hlt] at h ⊢
    rcases List.mem_cons.1 h with rfl | h
    · rfl
    · rcases List.mem_cons.1 h with rfl | h
      · rfl
      · split at h
        · exact nomatch h
        · rename_i hne
          obtain rfl := List.mem_singleton.1 h
          rw [if_neg hne]
          rfl

private theorem givenSize_size {point : CardinalityPoint} (hvalid : max.all (fun m => min ≤ m) = true)
    (h : GivenSize α at' min max point) : cardinalitySize at' min max α = point.size := by
  obtain ⟨hmem, hlookup | hsingle⟩ := h
  · rw [cardinalitySize, hlookup]
    simp only [find_point hvalid hmem, Option.map_some, Option.getD_some]
  · have hpoint : (⟨"min", min⟩ : CardinalityPoint) = point := (List.cons.inj hsingle).1
    subst hpoint
    rw [cardinalitySize, hsingle]
    cases α.lookup (Path.dimensionId at' Facet.cardinality.text) with
    | none => rfl
    | some name =>
      by_cases hname : "min" = name <;> simp [hname]

/-- A complete assignment gives a map's size a point. -/
theorem exists_givenSize {e : Option Example} {g : Option Json} {keys : Option ShapeNode} {values : ShapeNode}
    (hα : CompleteFor (compute ⟨e, g, .eachEntry keys values min max⟩ at') α) :
    ∃ point, GivenSize α at' min max point := by
  by_cases hmany : 2 ≤ (cardinalityPoints min max).length
  · have hmem : dimension at' .cardinality "each-entry"
        ((cardinalityPoints min max).map fun p => ⟨p.name, none, some p.size⟩) "min" [] ∈
        compute ⟨e, g, .eachEntry keys values min max⟩ at' := by
      rw [compute, walk, cardinalityDimension, if_pos hmany]
      exact List.mem_append_left _ (List.mem_append_left _ List.mem_cons_self)
    obtain ⟨p, hp, hlookup⟩ := hα.points _ hmem rfl
    obtain ⟨q, hq, rfl⟩ := List.mem_map.1 hp
    exact ⟨q, hq, Or.inl hlookup⟩
  · cases hpoints : cardinalityPoints min max with
    | nil => cases hpoints
    | cons p rest =>
      cases rest with
      | nil => exact ⟨p, hpoints ▸ List.mem_cons_self, Or.inr hpoints⟩
      | cons q rest =>
        rw [hpoints] at hmany
        exact absurd hmany (by simp)

private theorem atSize_of_count {point : CardinalityPoint} {members : List (String × Json)}
    (hvalid : max.all (fun m => min ≤ m) = true) (hpoint : GivenSize α at' min max point)
    (hcount : members.length = point.size.toNat) : AtSize α at' min max point members := by
  have hsize := givenSize_size hvalid hpoint
  refine ⟨hcount, ?_, ?_⟩
  · have hfirst : (cardinalityRegion min max point.name).map Prod.fst = _ := region_size point.name
    rw [find_point hvalid hpoint.1] at hfirst
    obtain ⟨region, hregion, heq⟩ := Option.map_eq_some_iff.1 hfirst
    refine ⟨region, hregion, by rw [heq, hcount], fun upper hupper => ?_⟩
    have hin := region_inhabited hvalid hregion
    rw [Option.mem_def.1 hupper] at hin
    rw [hcount, ← heq]
    simpa using hin
  · intro ctx c place hassignment hpath hresolves
    rw [← good_true, good_cardinality hresolves.here]
    have hlength : lengthOpt (fromJson (.object members)) = some members.length := by
      simp [fromJson, fromJsonMembers_eq, lengthOpt]
    rw [hlength, hassignment, hpath, Option.any_some, hcount, ← hsize]
    exact size_produced hvalid

/-- A map is produced at the size its variant names exactly where its shape gives its entries no text for their key, or
that size is one at most: entries of one key are one entry. -/
theorem entries_at_size_iff (e : Option Example) (g : Option Json) (keys : Option ShapeNode) (values : ShapeNode)
    (min : UInt64) (max : Option UInt64) (at' : String) (α : Assignment)
    (hS : WellFormed ⟨e, g, .eachEntry keys values min max⟩)
    (hα : CompleteFor (compute ⟨e, g, .eachEntry keys values min max⟩ at') α) :
    (∃ point, GivenSize α at' min max point) ∧
      ∃ members, generated α ⟨e, g, .eachEntry keys values min max⟩ at' = some (.document (.object members)) ∧
        ∀ point, GivenSize α at' min max point →
          (AtSize α at' min max point members ↔ producedKey α keys at' = none ∨ point.size.toNat ≤ 1) := by
  have hnode := (wellFormed_mk.1 hS.tree).2.1
  simp only [nodeValid, Bool.and_eq_true] at hnode
  refine ⟨exists_givenSize hα, _, rfl, fun point hpoint => ?_⟩
  rw [givenSize_size hnode.1.1 hpoint]
  have hlength := entryFields_length (generatedKey α keys (Path.eachEntryKey at'))
    (((generated α values (Path.eachEntryValue at')).map Generated.intoJson).getD .null) point.size.toNat_lt.le
  exact ⟨fun h => hlength.1 h.count, fun h => atSize_of_count hnode.1.1 hpoint (hlength.2 h)⟩

/-- A map of at least two colours, their names by example. -/
private def colours : ShapeNode :=
  .of (.eachEntry (some ⟨some ⟨.string "red", none⟩, none, .kind .string⟩) ⟨some ⟨.number (.posInt 1), none⟩, none,
    .kind .integer⟩ 2 none)

private def fewest : Assignment := [("response.body#cardinality", "min")]

private theorem colours_valid : WellFormed colours := by decide

private theorem fewest_complete : CompleteFor (compute colours "response.body") fewest := ⟨by decide, by decide⟩

private theorem fewest_two : GivenSize fewest "response.body" 2 none ⟨"min", 2⟩ := ⟨by decide, Or.inl (by decide)⟩

/-- Two entries are asked for, and both are named "red". -/
theorem colours_produced_at_one :
    WellFormed colours ∧ CompleteFor (compute colours "response.body") fewest ∧
      GivenSize fewest "response.body" 2 none ⟨"min", 2⟩ ∧
      generated fewest colours "response.body" = some (.document (.object [("red", .number (.posInt 1))])) ∧
      ¬AtSize fewest "response.body" 2 none ⟨"min", 2⟩ [("red", .number (.posInt 1))] :=
  ⟨colours_valid, fewest_complete, fewest_two, rfl, fun h => absurd h.count (by decide)⟩

theorem entries_at_size_iff_colours :
    ∃ members, generated fewest colours "response.body" = some (.document (.object members)) ∧
      (AtSize fewest "response.body" 2 none ⟨"min", 2⟩ members ↔
        producedKey fewest (some ⟨some ⟨.string "red", none⟩, none, .kind .string⟩) "response.body" = none ∨ 2 ≤ 1) := by
  obtain ⟨-, members, hmembers, hsize⟩ :=
    entries_at_size_iff none none _ _ 2 none "response.body" fewest colours_valid fewest_complete
  exact ⟨members, hmembers, hsize ⟨"min", 2⟩ fewest_two⟩

end PactJanus.Variant.Entries
