import PactJanus.Data.Equality
import PactJanus.SchemaCompat.Validity

namespace PactJanus.SchemaCompat.Reports

open PactJanus.Data.Json PactJanus.Lib.Lists PactJanus.SchemaCompat.Checker PactJanus.SchemaCompat.Validity

/-! What an empty report of the checker says of the nodes it walks. -/

def Clean (debug : List String → String) (b h : Json) : Prop := ∃ path, diffNode debug path b h = []

def LintClean (node : Json) : Prop := ∃ path, lintNode path node = []

variable {debug : List String → String} {b h b' h' node sub : Json} {key name : String}

private theorem get_of_not_object (hb : asObject b = none) (key : String) : get key b = none := by
  cases b with
  | object _ => cases hb
  | _ => rfl

private theorem mapAt_of_not_object (hb : asObject b = none) (key : String) : mapAt key b = none := by
  rw [mapAt, get_of_not_object hb key, Option.bind_none]

private theorem arrayAt_of_not_object (hb : asObject b = none) (key : String) : arrayAt key b = none := by
  rw [arrayAt, get_of_not_object hb key, Option.bind_none]

/-- A clean pair is two objects, or two equal documents that are none. -/
theorem Clean.cases (hclean : Clean debug b h) : ((asObject b).isSome = true ∧ (asObject h).isSome = true) ∨
    (asObject b = none ∧ asObject h = none ∧ same b h = true) := by
  obtain ⟨path, hnil⟩ := hclean
  unfold diffNode at hnil
  split at hnil
  · rename_i hobjects
    exact .inl (by simpa using hobjects)
  · rename_i hobjects
    split at hnil
    · rename_i hsame
      refine .inr ?_
      cases b <;> cases h <;> simp_all [same, equalBy, asObject]
    · cases hnil

private theorem Clean.objects {path : String} (hb : (asObject b).isSome = true) (hh : (asObject h).isSome = true)
    (hnil : diffNode debug path b h = []) :
    (∀ key ∈ FROZEN_KEYWORDS, sameKeyword (get key b) (get key h) = true) ∧
    stringSet (get "required" b) = stringSet (get "required" h) ∧
    (∀ key ∈ SUBSCHEMA_MAPS, ∀ named ∈ (mapAt key b).getD [], ∃ s,
      (mapAt key h).bind (·.lookup named.1) = some s ∧ Clean debug named.2 s) ∧
    (∀ key ∈ SINGLE_SUBSCHEMA, (get key b = none ∧ get key h = none) ∨
      ∃ s s', get key b = some s ∧ get key h = some s' ∧ Clean debug s s') ∧
    ∀ key ∈ SUBSCHEMA_ARRAYS, ∀ bs, arrayAt key b = some bs → ∃ hs, arrayAt key h = some hs ∧
      bs.length ≤ hs.length ∧ ∀ p ∈ bs.zip hs, Clean debug p.1 p.2 := by
  unfold diffNode at hnil
  rw [if_pos (by rw [hb, hh, Bool.and_self])] at hnil
  simp only [List.append_eq_nil_iff, List.flatMap_eq_nil_iff] at hnil
  obtain ⟨⟨⟨⟨⟨hfrozen, hrequired⟩, -⟩, hmaps⟩, hsingle⟩, harrays⟩ := hnil
  refine ⟨fun key hkey => ?_, ?_, fun key hkey named hn => ?_, fun key hkey => ?_, fun key hkey bs hbs => ?_⟩
  · have hnone := List.filterMap_eq_nil_iff.1 hfrozen key hkey
    by_contra hne
    rw [if_neg hne] at hnone
    cases hnone
  · by_contra hne
    rw [diffRequired, if_neg hne] at hrequired
    cases hrequired
  · have hnil := hmaps key hkey ⟨named, hn⟩ (List.mem_attach _ _)
    dsimp only at hnil
    split at hnil
    · cases hnil
    · rename_i s hs
      exact ⟨s, hs, _, hnil⟩
  · have hnil := hsingle key hkey
    split at hnil
    · rename_i hnone hnone'
      exact .inl ⟨hnone, hnone'⟩
    · rename_i s s' hs hs'
      exact .inr ⟨s, s', hs, hs', _, hnil⟩
    · cases hnil
  · have hnil := harrays key hkey
    split at hnil
    · rename_i hnone
      rw [hnone] at hbs
      cases hbs
    · cases hnil
    · rename_i bs' hs hbs' hhs
      obtain rfl := Option.some.inj (hbs'.symm.trans hbs)
      split at hnil
      · cases hnil
      · rename_i hlength
        refine ⟨hs, hhs, Nat.le_of_not_lt hlength, fun p hp => ?_⟩
        obtain ⟨i, hi⟩ := List.mem_iff_getElem?.1 hp
        have hplaced : (p, i) ∈ (bs'.zip hs).zipIdx := List.mk_mem_zipIdx_iff_getElem?.2 hi
        exact ⟨_, List.flatMap_eq_nil_iff.1 hnil ⟨(p, i), hplaced⟩ (List.mem_attach _ _)⟩

theorem Clean.frozen (hclean : Clean debug b h) (hkey : key ∈ FROZEN_KEYWORDS) :
    sameKeyword (get key b) (get key h) = true := by
  obtain ⟨hb, hh⟩ | ⟨hb, hh, -⟩ := hclean.cases
  · obtain ⟨path, hnil⟩ := hclean
    exact (Clean.objects hb hh hnil).1 key hkey
  · rw [get_of_not_object hb, get_of_not_object hh]
    rfl

theorem Clean.required (hclean : Clean debug b h) : stringSet (get "required" b) = stringSet (get "required" h) := by
  obtain ⟨hb, hh⟩ | ⟨hb, hh, -⟩ := hclean.cases
  · obtain ⟨path, hnil⟩ := hclean
    exact (Clean.objects hb hh hnil).2.1
  · rw [get_of_not_object hb, get_of_not_object hh]

theorem Clean.mapped (hclean : Clean debug b h) (hkey : key ∈ SUBSCHEMA_MAPS)
    (hsub : (mapAt key b).bind (·.lookup name) = some b') :
    ∃ h', (mapAt key h).bind (·.lookup name) = some h' ∧ Clean debug b' h' := by
  obtain ⟨hb, hh⟩ | ⟨hb, -, -⟩ := hclean.cases
  · obtain ⟨path, hnil⟩ := hclean
    obtain ⟨named, hnamed, hlookup⟩ := Option.bind_eq_some_iff.1 hsub
    have hmem : (name, b') ∈ (mapAt key b).getD [] := by
      rw [hnamed]
      exact mem_of_lookup hlookup
    exact (Clean.objects hb hh hnil).2.2.1 key hkey (name, b') hmem
  · rw [mapAt_of_not_object hb] at hsub
    cases hsub

theorem Clean.single (hclean : Clean debug b h) (hkey : key ∈ SINGLE_SUBSCHEMA) :
    (get key b = none ∧ get key h = none) ∨ ∃ s s', get key b = some s ∧ get key h = some s' ∧ Clean debug s s' := by
  obtain ⟨hb, hh⟩ | ⟨hb, hh, -⟩ := hclean.cases
  · obtain ⟨path, hnil⟩ := hclean
    exact (Clean.objects hb hh hnil).2.2.2.1 key hkey
  · exact .inl ⟨get_of_not_object hb key, get_of_not_object hh key⟩

theorem Clean.listed (hclean : Clean debug b h) (hkey : key ∈ SUBSCHEMA_ARRAYS) {bs : List Json}
    (hbs : arrayAt key b = some bs) : ∃ hs, arrayAt key h = some hs ∧ bs.length ≤ hs.length ∧
      ∀ (i : Nat) (b' h' : Json), bs[i]? = some b' → hs[i]? = some h' → Clean debug b' h' := by
  obtain ⟨hb, hh⟩ | ⟨hb, -, -⟩ := hclean.cases
  · obtain ⟨path, hnil⟩ := hclean
    obtain ⟨hs, hhs, hlength, hzip⟩ := (Clean.objects hb hh hnil).2.2.2.2 key hkey bs hbs
    refine ⟨hs, hhs, hlength, fun i b' h' hi hi' => ?_⟩
    have hplaced : (bs.zip hs)[i]? = some (b', h') := List.getElem?_zip_eq_some.2 ⟨hi, hi'⟩
    exact hzip (b', h') (List.mem_of_getElem? hplaced)
  · rw [arrayAt_of_not_object hb] at hbs
    cases hbs

/-! The same for a clean lint, which reaches every subschema. -/

private theorem lintClean_of_mem (hnode : LintClean node)
    (hsub : ∀ path, isSchemaObject sub = true → ∃ p ∈ subschemas node path, p.2 = sub) : LintClean sub := by
  by_cases hobject : isSchemaObject sub = true
  · obtain ⟨path, hnil⟩ := hnode
    obtain ⟨p, hp, rfl⟩ := hsub path hobject
    unfold lintNode at hnil
    split at hnil
    · simp only [List.append_eq_nil_iff] at hnil
      exact ⟨_, List.flatMap_eq_nil_iff.1 hnil.2 ⟨p, hp⟩ (List.mem_attach _ _)⟩
    · rename_i hnone
      have hnone := Option.not_isSome_iff_eq_none.1 hnone
      simp [subschemas, mapAt_of_not_object hnone, arrayAt_of_not_object hnone, get_of_not_object hnone,
        SUBSCHEMA_MAPS, SUBSCHEMA_ARRAYS] at hp
  · refine ⟨"", ?_⟩
    unfold lintNode
    exact if_neg hobject

theorem LintClean.enum (hnode : LintClean node) : get "enum" node = none := by
  cases hobject : asObject node with
  | none => exact get_of_not_object hobject _
  | some declared =>
    obtain ⟨path, hnil⟩ := hnode
    unfold lintNode at hnil
    rw [if_pos (by rw [hobject, Option.isSome_some])] at hnil
    simp only [List.append_eq_nil_iff, lintEnum] at hnil
    by_contra hne
    rw [if_pos (Option.isSome_iff_ne_none.2 hne)] at hnil
    exact nomatch hnil.1.1.1.1.1.1.1

theorem LintClean.mapped (hnode : LintClean node) (hkey : key ∈ SUBSCHEMA_MAPS)
    (hsub : (mapAt key node).bind (·.lookup name) = some sub) : LintClean sub := by
  refine lintClean_of_mem hnode fun path hobject => ⟨(path ++ "/" ++ key ++ "/" ++ name, sub), ?_, rfl⟩
  obtain ⟨named, hnamed, hlookup⟩ := Option.bind_eq_some_iff.1 hsub
  simp only [subschemas, List.mem_append, List.mem_flatMap, List.mem_filterMap]
  refine .inl (.inl ⟨key, hkey, (name, sub), ?_, if_pos hobject⟩)
  rw [hnamed]
  exact mem_of_lookup hlookup

theorem LintClean.single (hnode : LintClean node) (hkey : key ∈ SINGLE_SUBSCHEMA) (hsub : get key node = some sub) :
    LintClean sub := by
  refine lintClean_of_mem hnode fun path hobject => ⟨(path ++ "/" ++ key, sub), ?_, rfl⟩
  simp only [subschemas, List.mem_append, List.mem_flatMap, List.mem_filterMap]
  refine .inl (.inr ⟨key, hkey, ?_⟩)
  rw [hsub, Option.bind_some, if_pos hobject]

theorem LintClean.listed (hnode : LintClean node) (hkey : key ∈ SUBSCHEMA_ARRAYS) {subs : List Json} {i : Nat}
    (hsubs : arrayAt key node = some subs) (hsub : subs[i]? = some sub) : LintClean sub := by
  refine lintClean_of_mem hnode fun path hobject => ⟨(path ++ "/" ++ key ++ "/" ++ i.repr, sub), ?_, rfl⟩
  simp only [subschemas, List.mem_append, List.mem_flatMap, List.mem_filterMap]
  refine .inr ⟨key, hkey, (sub, i), ?_, if_pos hobject⟩
  rw [hsubs]
  exact List.mk_mem_zipIdx_iff_getElem?.2 hsub

/-- Two subschemas in one place of two documents that pass every check. -/
structure Twin (debug : List String → String) (b h : Json) : Prop where
  clean : Clean debug b h
  base : LintClean b
  head : LintClean h

variable {V : Vocabulary}

theorem Twin.child {next : Step} (htwin : Twin debug b h) (hb : child b next = some b') :
    ∃ h', child h next = some h' ∧ Twin debug b' h' := by
  cases next with
  | under key =>
    obtain ⟨hkey, hget⟩ := Option.ite_none_right_eq_some.1 hb
    obtain ⟨hnone, -⟩ | ⟨s, h', hs, hh, hclean⟩ := htwin.clean.single hkey
    · rw [hnone] at hget
      cases hget
    · obtain rfl := Option.some.inj (hs.symm.trans hget)
      exact ⟨h', (if_pos hkey).trans hh, hclean, htwin.base.single hkey hs, htwin.head.single hkey hh⟩
  | named key name =>
    obtain ⟨hkey, hget⟩ := Option.ite_none_right_eq_some.1 hb
    obtain ⟨h', hh, hclean⟩ := htwin.clean.mapped hkey hget
    exact ⟨h', (if_pos hkey).trans hh, hclean, htwin.base.mapped hkey hget, htwin.head.mapped hkey hh⟩
  | placed key i =>
    obtain ⟨hkey, hget⟩ := Option.ite_none_right_eq_some.1 hb
    obtain ⟨bs, hbs, hi⟩ := Option.bind_eq_some_iff.1 hget
    obtain ⟨hs, hhs, hlength, hzip⟩ := htwin.clean.listed hkey hbs
    have hbound : i < hs.length := (List.getElem?_eq_some_iff.1 hi).1.trans_le hlength
    have hi' : hs[i]? = some hs[i] := List.getElem?_eq_getElem hbound
    refine ⟨hs[i], (if_pos hkey).trans ?_, hzip i _ _ hi hi', htwin.base.listed hkey hbs hi, htwin.head.listed hkey hhs hi'⟩
    rw [hhs]
    exact hi'

/-- A pointer that leads to a subschema of the base leads to its twin in the head. -/
theorem Twin.follow {steps : List Step} (htwin : Twin debug b h) (hb : follow steps b = some b') :
    ∃ h', follow steps h = some h' ∧ Twin debug b' h' := by
  induction steps generalizing b h with
  | nil =>
    obtain rfl := Option.some.inj hb
    exact ⟨h, rfl, htwin⟩
  | cons next rest ih =>
    obtain ⟨mid, hmid, hrest⟩ := Option.bind_eq_some_iff.1 hb
    obtain ⟨mid', hmid', htwin'⟩ := htwin.child hmid
    obtain ⟨h', hh, htwin''⟩ := ih htwin' hrest
    refine ⟨h', ?_, htwin''⟩
    rw [Validity.follow, hmid', Option.bind_some, hh]

theorem asStr_of_same {a c : Json} (h : same a c = true) : asStr a = asStr c := by
  cases a <;> cases c <;> simp_all [same, equalBy, asStr]

private theorem bind_asStr_of_same {x y : Option Json} (h : sameKeyword x y = true) : x.bind asStr = y.bind asStr := by
  cases x with
  | none =>
    cases y with
    | none => rfl
    | some _ => cases h
  | some a =>
    cases y with
    | none => cases h
    | some c => exact asStr_of_same h

theorem Twin.reference (htwin : Twin debug b h) : reference b = reference h := by
  have hsame : sameKeyword (get "$ref" b) (get "$ref" h) = true := htwin.clean.frozen (by decide)
  exact bind_asStr_of_same hsame

private theorem admits_of_same {x y : Option Json} (v : Json) (h : sameKeyword x y = true) :
    x.all (fun value => V.admits key value v) = y.all (fun value => V.admits key value v) := by
  cases x with
  | none =>
    cases y with
    | none => rfl
    | some _ => cases h
  | some a =>
    cases y with
    | none => cases h
    | some c => exact V.admits_same v h

/-- Twins assert alike of every instance. -/
theorem Twin.asserted (htwin : Twin debug b h) (v : Json) : asserted V b v = asserted V h v := by
  have hassertions : ∀ key ∈ ASSERTIONS, ((get key b).all fun value => V.admits key value v) =
      (get key h).all fun value => V.admits key value v := by
    intro key hkey
    rcases List.mem_cons.1 hkey with rfl | hkey
    · rw [htwin.base.enum, htwin.head.enum]
    · exact admits_of_same v (htwin.clean.frozen (List.mem_filter.1 hkey).1)
  unfold Validity.asserted
  rw [htwin.clean.required, all_congr_mem hassertions]

end PactJanus.SchemaCompat.Reports
