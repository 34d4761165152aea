import PactJanus.Recording.Spellings

namespace PactJanus.Recording.Ordering

open PactJanus.Data.Json PactJanus.Lib PactJanus.Lib.Lists PactJanus.Shape.Model PactJanus.Recording.Observe
  PactJanus.Recording.Emission PactJanus.Recording.Evidence PactJanus.Recording.Summary PactJanus.Recording.Literals
  PactJanus.Recording.Spellings

/-! The shape of the values that several observations held at a position, in any order of the observations. -/

variable {Ω : Type} {policy : RecordingPolicy} {os os' : List Ω} {f g : Ω → List Json}

/-- What each observation held at a position that is described under another, by what they held there. -/
inductive Reaches (os : List Ω) : (Ω → List Json) → (Ω → List Json) → Prop
  | here (f : Ω → List Json) : Reaches os f f
  | member {f g : Ω → List Json} (name : String) : held (os.flatMap f) = .objects →
      Reaches os (fun o => valuesOf name (f o)) g → Reaches os f g
  | element {f g : Ω → List Json} : held (os.flatMap f) = .lists → Reaches os (fun o => elements (f o)) g → Reaches os f g

/-- Each literal a scalar position is written with is written alike by every observation that holds it: of several
spellings of one number, all of them hold the same one first. -/
def WrittenAlike (policy : RecordingPolicy) (os : List Ω) (f : Ω → List Json) : Prop :=
  held (os.flatMap f) = .scalars → ∀ key, Shown policy (os.flatMap f) key → ∀ o ∈ os, ∀ other ∈ os,
    ∀ v ∈ firstSeen key (f o), ∀ w ∈ firstSeen key (f other), v = w

private theorem valuesOf_flatMap (name : String) (os : List Ω) (f : Ω → List Json) :
    valuesOf name (os.flatMap f) = os.flatMap fun o => valuesOf name (f o) := by
  simp only [valuesOf, membersNamed, objectsIn, List.filterMap_flatMap]

private theorem elements_flatMap (os : List Ω) (f : Ω → List Json) :
    elements (os.flatMap f) = os.flatMap fun o => elements (f o) := by
  induction os with
  | nil => rfl
  | cons o rest ih =>
    rw [List.flatMap_cons, List.flatMap_cons, ← ih]
    simp only [elements, arraysIn, List.filterMap_append, List.flatten_append]

/-! The same values in another order. -/

section Values

variable {vs ws : List Json}

private theorem held_congr (hobjects : objectsIn vs = [] ↔ objectsIn ws = []) (harrays : arraysIn vs = [] ↔ arraysIn ws = [])
    (hscalars : scalarsIn vs = [] ↔ scalarsIn ws = []) : held vs = held ws := by
  unfold held
  revert hobjects harrays hscalars
  cases objectsIn vs <;> cases objectsIn ws <;> cases arraysIn vs <;> cases arraysIn ws <;> cases scalarsIn vs <;>
    cases scalarsIn ws <;> simp

private theorem objectsIn_perm (h : vs.Perm ws) : (objectsIn vs).Perm (objectsIn ws) := h.filterMap asObject

private theorem arraysIn_perm (h : vs.Perm ws) : (arraysIn vs).Perm (arraysIn ws) := h.filterMap asArray

theorem nil_iff {α : Type} {as bs : List α} (h : as.Perm bs) : as = [] ↔ bs = [] := by
  constructor
  · rintro rfl
    exact h.symm.eq_nil
  · rintro rfl
    exact h.eq_nil

private theorem held_perm (h : vs.Perm ws) : held vs = held ws :=
  held_congr (nil_iff (objectsIn_perm h)) (nil_iff (arraysIn_perm h)) (nil_iff (h.filter isScalar))

private theorem orNull_perm (h : vs.Perm ws) (S : ShapeNode) : orNull ws S = orNull vs S := by
  rw [orNull, orNull, h.any_eq]

private theorem lacks_perm (h : vs.Perm ws) (name : String) : lacks name ws = lacks name vs := by
  have hvalues : (valuesOf name vs).length = (valuesOf name ws).length := ((objectsIn_perm h).filterMap _).length_eq
  rw [lacks, lacks, hvalues, (objectsIn_perm h).length_eq]

private theorem leastLength_perm (h : vs.Perm ws) (bound : UInt64) :
    leastLength bound (arraysIn ws) = leastLength bound (arraysIn vs) := by
  refine ((arraysIn_perm h).foldl_eq' (fun a _ b _ least => ?_) bound).symm
  simp only [UInt64.lt_iff_toNat_lt]
  split_ifs <;> first | rfl | omega | (apply UInt64.toNat_inj.1; omega)

private theorem mostLength_perm (h : vs.Perm ws) (bound : UInt64) :
    mostLength bound (arraysIn ws) = mostLength bound (arraysIn vs) := by
  refine ((arraysIn_perm h).foldl_eq' (fun a _ b _ most => ?_) bound).symm
  simp only [UInt64.lt_iff_toNat_lt]
  split_ifs <;> first | rfl | omega | (apply UInt64.toNat_inj.1; omega)

private theorem orNull_injective {S T : ShapeNode} (h : orNull vs S = orNull vs T) : S = T := by
  unfold orNull at h
  split at h
  · injection h with _ _ hkind
    exact ShapeKind.nullable.inj hkind
  · exact h

end Values

/-! The members of an object's shape. -/

/-- The shape of a member's values, `optional` where an object was seen without it. -/
def memberShape (policy : RecordingPolicy) (vs : List Json) (name : String) : Option ShapeNode :=
  if valuesOf name vs = [] then none
  else (toShape policy (evidence (valuesOf name vs))).map fun S => (orAbsent vs (name, S)).2

private theorem sorted_memberShapes (policy : RecordingPolicy) (count : Nat) {members : List (String × Profile)}
    (h : SortedMap.Sorted members) : SortedMap.Sorted (memberShapes policy count members) := by
  rw [memberShapes_eq]
  have hkept := h.filterMap fun p => (toShape policy p.2).map fun S => if p.2.flat.seen < count then .of (.optional S) else S
  simpa only [Option.map_map, Function.comp_def] using hkept

private theorem lookup_memberShapes {vs : List Json} (hd : ∀ v ∈ vs, distinctKeys v = true) (name : String) :
    (memberShapes policy (objectsIn vs).length (memberProfiles (objectsIn vs))).lookup name = memberShape policy vs name := by
  have hmembers := lookup_memberProfiles (fun object hobject => (distinct_objectsIn hd object hobject).1) name
  have hnodup := (sorted_memberProfiles (objectsIn vs)).nodup
  rw [memberShapes_eq, memberShape, valuesOf]
  split_ifs at hmembers ⊢ with hempty
  · rw [lookup_eq_none_iff_notMem]
    intro hmem
    obtain ⟨p, hp, hname⟩ := List.mem_map.1 hmem
    obtain ⟨q, hq, hshape⟩ := List.mem_filterMap.1 hp
    obtain ⟨S, -, rfl⟩ := Option.map_eq_some_iff.1 hshape
    exact lookup_eq_none_iff_notMem.1 hmembers (hname ▸ List.mem_map_of_mem hq)
  · have hseen := (flatOf_evidence (membersNamed name (objectsIn vs))).seen
    have hfound := lookup_filterMap (fun p : String × Profile => (toShape policy p.2).map fun S =>
      if p.2.flat.seen < (objectsIn vs).length then ShapeNode.of (.optional S) else S) hnodup (mem_of_lookup hmembers)
    simp only [Option.map_map, Function.comp_def, hseen] at hfound
    rw [hfound]
    refine Option.map_congr fun S _ => ?_
    by_cases hlacks : (membersNamed name (objectsIn vs)).length < (objectsIn vs).length <;>
      simp [orAbsent, lacks, valuesOf, hlacks]

private theorem orAbsent_injective {vs : List Json} {name : String} {S T : ShapeNode}
    (h : (orAbsent vs (name, S)).2 = (orAbsent vs (name, T)).2) : S = T := by
  simp only [orAbsent] at h
  split at h
  · injection h with _ _ hkind
    exact ShapeKind.optional.inj hkind
  · exact h

private theorem memberShape_injective {vs ws : List Json} {name : String} (hnil : valuesOf name vs = [] ↔ valuesOf name ws = [])
    (hlacks : lacks name ws = lacks name vs) (h : memberShape policy ws name = memberShape policy vs name) :
    toShape policy (evidence (valuesOf name ws)) = toShape policy (evidence (valuesOf name vs)) := by
  unfold memberShape at h
  by_cases hempty : valuesOf name vs = []
  · rw [hempty, hnil.1 hempty]
  · have hlaw (S : ShapeNode) : (orAbsent ws (name, S)).2 = (orAbsent vs (name, S)).2 := by rw [orAbsent, orAbsent, hlacks]
    rw [if_neg hempty, if_neg (mt hnil.2 hempty)] at h
    simp only [hlaw] at h
    exact Option.map_injective (fun _ _ => orAbsent_injective) h

/-! One slot, in two orders of the observations. -/

private theorem flatMap_perm (h : os.Perm os') (f : Ω → List Json) : (os.flatMap f).Perm (os'.flatMap f) := h.flatMap_right f

private theorem objects_perm {vs ws : List Json} (h : vs.Perm ws) (hd : ∀ v ∈ vs, distinctKeys v = true)
    (hmember : ∀ name, memberShape policy ws name = memberShape policy vs name) :
    memberShapes policy (objectsIn ws).length (memberProfiles (objectsIn ws)) =
      memberShapes policy (objectsIn vs).length (memberProfiles (objectsIn vs)) := by
  apply (sorted_memberShapes policy _ (sorted_memberProfiles _)).ext (sorted_memberShapes policy _ (sorted_memberProfiles _))
  intro name
  rw [lookup_memberShapes hd, lookup_memberShapes fun v hv => hd v (h.mem_iff.2 hv)]
  exact hmember name

private theorem memberShape_perm {vs ws : List Json} (h : vs.Perm ws) {name : String}
    (hvalues : toShape policy (evidence (valuesOf name ws)) = toShape policy (evidence (valuesOf name vs))) :
    memberShape policy ws name = memberShape policy vs name := by
  have hperm : (valuesOf name vs).Perm (valuesOf name ws) := (objectsIn_perm h).filterMap _
  unfold memberShape
  by_cases hempty : valuesOf name vs = []
  · rw [if_pos hempty, if_pos ((nil_iff hperm).1 hempty)]
  · rw [if_neg hempty, if_neg (mt (nil_iff hperm).2 hempty), hvalues]
    simp only [orAbsent, lacks_perm h]

/-- What is seen first under a key among the values of several observations is what one of them saw first. -/
private theorem firstSeen_flatMap {key : String} {v : Json} (h : firstSeen key (os.flatMap f) = some v) :
    ∃ o ∈ os, firstSeen key (f o) = some v := by
  induction os with
  | nil => exact nomatch h
  | cons o rest ih =>
    rw [firstSeen, List.flatMap_cons, List.find?_append] at h
    cases hfound : firstSeen key (f o) with
    | some w =>
      rw [firstSeen] at hfound
      rw [hfound, Option.some_or] at h
      exact ⟨o, List.mem_cons_self, (congrArg some (Option.some.inj h)) ▸ hfound⟩
    | none =>
      rw [firstSeen] at hfound
      rw [hfound, Option.none_or] at h
      obtain ⟨other, hother, hv⟩ := ih h
      exact ⟨other, List.mem_cons_of_mem _ hother, hv⟩

private theorem firstSeen_perm (h : os.Perm os') (halike : WrittenAlike policy os f) (hheld : held (os.flatMap f) = .scalars)
    {key : String} (hkey : Shown policy (os.flatMap f) key) :
    firstSeen key (os.flatMap f) = firstSeen key (os'.flatMap f) := by
  have hkeys : key ∈ keys (os'.flatMap f) := by
    rw [← firstSeen_isSome, firstSeen, List.find?_isSome]
    obtain ⟨v, hv, hfound⟩ := List.find?_isSome.1 (firstSeen_isSome.2 hkey.1)
    exact ⟨v, (flatMap_perm h f).mem_iff.1 hv, hfound⟩
  obtain ⟨v, hv⟩ := Option.isSome_iff_exists.1 (firstSeen_isSome.2 hkey.1)
  obtain ⟨w, hw⟩ := Option.isSome_iff_exists.1 (firstSeen_isSome.2 hkeys)
  obtain ⟨o, ho, hov⟩ := firstSeen_flatMap hv
  obtain ⟨other, hother, hotherw⟩ := firstSeen_flatMap hw
  rw [hv, hw, halike hheld key hkey o ho other (h.mem_iff.2 hother) v hov w hotherw]

/-- Where every scalar position is written alike by the observations, their order decides nothing of the shape. -/
theorem toShape_perm (hperm : os.Perm os') (hd : ∀ v ∈ os.flatMap f, distinctKeys v = true)
    (halike : ∀ g, Reaches os f g → WrittenAlike policy os g) :
    toShape policy (evidence (os'.flatMap f)) = toShape policy (evidence (os.flatMap f)) := by
  induction hvs : os.flatMap f using values_induction generalizing f with
  | step vs ihMembers ihElements =>
    subst hvs
    have hvalues := flatMap_perm hperm f
    have hheld' := (held_perm hvalues).symm
    cases hheld : held (os.flatMap f) with
    | nulls =>
      by_cases hempty : os.flatMap f = []
      · rw [hempty, (nil_iff hvalues).1 hempty]
      · rw [toShape_nulls policy hempty hheld, toShape_nulls policy (mt (nil_iff hvalues).2 hempty) (hheld'.trans hheld)]
    | mixed => rw [toShape_mixed policy hheld, toShape_mixed policy (hheld'.trans hheld), orNull_perm hvalues]
    | scalars =>
      have hshape := scalarShape_congr hvalues hheld fun key => firstSeen_perm hperm (halike f (.here f)) hheld
      rw [toShape_scalars policy hheld, toShape_scalars policy (hheld'.trans hheld), orNull_perm hvalues, hshape]
    | objects =>
      have hmember (name : String) : toShape policy (evidence (valuesOf name (os'.flatMap f))) =
          toShape policy (evidence (valuesOf name (os.flatMap f))) := by
        have hd' := distinct_valuesOf hd name
        rw [valuesOf_flatMap] at hd'
        rw [valuesOf_flatMap name os']
        exact ihMembers hheld name hd' (fun g hg => halike g (.member name hheld hg)) (valuesOf_flatMap name os f).symm
      have hmembers := objects_perm hvalues hd fun name => memberShape_perm hvalues (hmember name)
      rw [toShape_objects policy hheld, toShape_objects policy (hheld'.trans hheld), orNull_perm hvalues, hmembers]
    | lists =>
      have hitems : toShape policy (evidence (elements (os'.flatMap f))) = toShape policy (evidence (elements (os.flatMap f))) := by
        have hd' := distinct_elements hd
        rw [elements_flatMap] at hd'
        rw [elements_flatMap os']
        exact ihElements hheld hd' (fun g hg => halike g (.element hheld hg)) (elements_flatMap os f).symm
      rw [toShape_lists policy hheld, toShape_lists policy (hheld'.trans hheld), orNull_perm hvalues, hitems,
        leastLength_perm hvalues, mostLength_perm hvalues]

/-! What the shapes of all orders say of the observations. -/

/-- The shape of a position is the same in two orders of the observations. -/
private def SameShape (policy : RecordingPolicy) (os os' : List Ω) (f : Ω → List Json) : Prop :=
  toShape policy (evidence (os'.flatMap f)) = toShape policy (evidence (os.flatMap f))

private theorem SameShape.member (hperm : os.Perm os') (hd : ∀ v ∈ os.flatMap f, distinctKeys v = true)
    (hheld : held (os.flatMap f) = .objects) (h : SameShape policy os os' f) (name : String) :
    SameShape policy os os' fun o => valuesOf name (f o) := by
  have hvalues := flatMap_perm hperm f
  have hperm' : (valuesOf name (os.flatMap f)).Perm (valuesOf name (os'.flatMap f)) := (objectsIn_perm hvalues).filterMap _
  rw [SameShape, toShape_objects policy hheld, toShape_objects policy ((held_perm hvalues).symm.trans hheld),
    orNull_perm hvalues] at h
  have hmembers := orNull_injective (Option.some.inj h)
  injection hmembers with _ _ hkind
  have hlookup := congrArg (List.lookup name) (ShapeKind.object.inj hkind)
  rw [lookup_memberShapes hd, lookup_memberShapes fun v hv => hd v (hvalues.mem_iff.2 hv)] at hlookup
  have hsame := memberShape_injective (nil_iff hperm') (lacks_perm hvalues name) hlookup
  rwa [valuesOf_flatMap, valuesOf_flatMap] at hsame

private theorem SameShape.element (hperm : os.Perm os') (hd : ∀ v ∈ os.flatMap f, distinctKeys v = true)
    (hheld : held (os.flatMap f) = .lists) (h : SameShape policy os os' f) :
    SameShape policy os os' fun o => elements (f o) := by
  have hvalues := flatMap_perm hperm f
  rw [SameShape, toShape_lists policy hheld, toShape_lists policy ((held_perm hvalues).symm.trans hheld),
    orNull_perm hvalues] at h
  have hlists := orNull_injective (Option.some.inj h)
  injection hlists with _ _ hkind
  obtain ⟨hitems, -, -⟩ := ShapeKind.eachLike.inj hkind
  rw [SameShape, ← elements_flatMap, ← elements_flatMap]
  have hperm' : (elements (os.flatMap f)).Perm (elements (os'.flatMap f)) := (arraysIn_perm hvalues).flatten
  by_cases hempty : elements (os.flatMap f) = []
  · rw [hempty, (nil_iff hperm').1 hempty]
  · obtain ⟨S, hS, -⟩ := describes_evidence policy (distinct_elements hd) hempty
    obtain ⟨T, hT, -⟩ := describes_evidence policy
      (distinct_elements fun v hv => hd v (hvalues.mem_iff.2 hv)) (mt (nil_iff hperm').2 hempty)
    rw [hS, hT] at hitems ⊢
    exact congrArg some hitems

private theorem SameShape.reaches (hperm : os.Perm os') (hd : ∀ v ∈ os.flatMap f, distinctKeys v = true)
    (h : SameShape policy os os' f) (hreaches : Reaches os f g) : SameShape policy os os' g := by
  induction hreaches with
  | here => exact h
  | member name hheld _ ih =>
    have hd' := distinct_valuesOf hd name
    rw [valuesOf_flatMap] at hd'
    exact ih hd' (h.member hperm hd hheld name)
  | element hheld _ ih =>
    have hd' := distinct_elements hd
    rw [elements_flatMap] at hd'
    exact ih hd' (h.element hperm hd hheld)

private theorem firstSeen_cons {key : String} {o : Ω} {v : Json} (h : firstSeen key (f o) = some v) :
    firstSeen key ((o :: os).flatMap f) = some v := by
  rw [firstSeen] at h
  rw [firstSeen, List.flatMap_cons, List.find?_append, h, Option.some_or]

/-- Where no order of the observations changes the shape, every scalar position is written alike by them. -/
theorem alike_of_toShape (hd : ∀ v ∈ os.flatMap f, distinctKeys v = true)
    (h : ∀ os', os.Perm os' → toShape policy (evidence (os'.flatMap f)) = toShape policy (evidence (os.flatMap f)))
    (hreaches : Reaches os f g) : WrittenAlike policy os g := by
  intro hheld key hkey o ho other hother v hv w hw
  -- each of the two is fed first, and the literal kept is then the one it holds
  have hfirst (p : Ω) (hp : p ∈ os) (u : Json) (hu : firstSeen key (g p) = some u) :
      firstSeen key (os.flatMap g) = some u := by
    obtain ⟨before, after, rfl⟩ := List.append_of_mem hp
    have hperm : (before ++ p :: after).Perm (p :: (before ++ after)) := List.perm_middle
    have hsame := SameShape.reaches hperm hd (h _ hperm) hreaches
    have hvalues := flatMap_perm hperm g
    rw [SameShape, toShape_scalars policy hheld, toShape_scalars policy ((held_perm hvalues).symm.trans hheld),
      orNull_perm hvalues] at hsame
    rw [firstSeen_of_scalarShape hvalues hheld (orNull_injective (Option.some.inj hsame)) hkey]
    exact firstSeen_cons hu
  exact Option.some.inj ((hfirst o ho v hv).symm.trans (hfirst other hother w hw))

end PactJanus.Recording.Ordering
