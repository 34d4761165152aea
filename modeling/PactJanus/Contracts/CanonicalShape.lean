import PactJanus.Contracts.Canonical
import PactJanus.Shape.Parsed

namespace PactJanus.Contracts.CanonicalShape

open PactJanus.Data.Json PactJanus.Data.Equality PactJanus.Lib.Lists PactJanus.Shape.Model PactJanus.Shape.Valid
  PactJanus.Shape.MemberOrder PactJanus.Shape.Documents PactJanus.Shape.Parse PactJanus.Shape.Operators
  PactJanus.Shape.Nested PactJanus.Shape.Parsed PactJanus.Contracts.Canonical

/-! A shape written canonically is the shape, and the one way it is written. -/

/-- A node whose operator is one of the core. -/
def IsCore (node : List (String × Json)) : Prop :=
  ∃ operator ∈ coreOperators, node.lookup "shape" = some (.string operator)

/-- A document with one reordering of the members of a core operator's node, or of a union's alternatives. -/
inductive Reordered : Json → Json → Prop
  | node {node node' : List (String × Json)} : IsCore node → node.Perm node' → Reordered (.object node) (.object node')
  | child {before after : List (String × Json)} {name : String} {shape shape' : Json} :
      IsCore (before ++ (name, shape) :: after) → name ∈ ["of", "items", "keys", "values"] → Reordered shape shape' →
        Reordered (.object (before ++ (name, shape) :: after)) (.object (before ++ (name, shape') :: after))
  | entry {before after : List (String × Json)} {entries entries' : List Json} {shape shape' : Json} :
      IsCore (before ++ ("entries", .array (entries ++ shape :: entries')) :: after) → Reordered shape shape' →
        Reordered (.object (before ++ ("entries", .array (entries ++ shape :: entries')) :: after))
          (.object (before ++ ("entries", .array (entries ++ shape' :: entries')) :: after))
  | member {before after members members' : List (String × Json)} {name under : String} {shape shape' : Json} :
      name ∈ ["members", "alternatives"] → IsCore (before ++ (name, .object (members ++ (under, shape) :: members')) :: after) →
        Reordered shape shape' →
        Reordered (.object (before ++ (name, .object (members ++ (under, shape) :: members')) :: after))
          (.object (before ++ (name, .object (members ++ (under, shape') :: members')) :: after))
  | alternatives {before after members members' : List (String × Json)} :
      IsCore (before ++ ("alternatives", .object members) :: after) → members.Perm members' →
        Reordered (.object (before ++ ("alternatives", .object members) :: after))
          (.object (before ++ ("alternatives", .object members') :: after))

/-! What is written is the node's members by name, each written its own way. -/

theorem byName_eq {α : Type} (members : List (String × α)) : byName members = membersByName members := by
  unfold byName membersByName
  congr! 3
  exact le_iff_lt_or_eq.symm

private theorem canonicalMembers_eq (members : List (String × Json)) :
    canonicalMembers members = members.map fun p => (p.1, canonicalMember p.1 p.2) := by
  induction members with
  | nil => rfl
  | cons p rest ih => rw [canonicalMembers, ih, List.map_cons]

private theorem canonicalEach_eq (members : List (String × Json)) :
    canonicalEach members = members.map fun p => (p.1, canonical p.2) := by
  induction members with
  | nil => rfl
  | cons p rest ih => rw [canonicalEach, ih, List.map_cons]

private theorem canonicalAll_eq (items : List Json) : canonicalAll items = items.map canonical := by
  induction items with
  | nil => rfl
  | cons v rest ih => rw [canonicalAll, ih, List.map_cons]

private theorem isCore_iff {node : List (String × Json)} :
    (((get "shape" (.object node)).bind asStr).any fun operator => operator ∈ coreOperators) = true ↔ IsCore node := by
  show (((node.lookup "shape").bind asStr).any _) = true ↔ _
  rw [IsCore]
  cases hlookup : node.lookup "shape" with
  | none => simp
  | some v => cases v <;> simp [asStr]

theorem canonical_core {node : List (String × Json)} (h : IsCore node) :
    canonical (.object node) = .object (membersByName (node.map fun p => (p.1, canonicalMember p.1 p.2))) := by
  rw [canonical, writtenNode, if_pos (isCore_iff.2 h), byName_eq, canonicalMembers_eq]

theorem canonical_other {node : List (String × Json)} (h : ¬IsCore node) : canonical (.object node) = .object node := by
  rw [canonical, writtenNode, if_neg (mt isCore_iff.1 h)]

private theorem lookup_map_snd {f : String → Json → Json} {members : List (String × Json)} {name : String} :
    (members.map fun p => (p.1, f p.1 p.2)).lookup name = (members.lookup name).map (f name) := by
  induction members with
  | nil => rfl
  | cons p rest ih =>
    rw [List.map_cons, lookup_cons_ite, lookup_cons_ite, ih]
    split
    · rename_i hname
      rw [hname, Option.map_some]
    · rfl

/-- A member of what is written is the member, written its own way. -/
theorem get_canonical {node : List (String × Json)} (h : IsCore node) (name : String) :
    get name (canonical (.object node)) = (node.lookup name).map (canonicalMember name) := by
  rw [canonical_core h]
  show (membersByName (node.map fun p => (p.1, canonicalMember p.1 p.2))).lookup name = _
  rw [lookup_membersByName, lookup_map_snd]

theorem canonicalMember_members (members : List (String × Json)) :
    canonicalMember "members" (.object members) = .object (members.map fun p => (p.1, canonical p.2)) := by
  rw [canonicalMember, if_pos rfl, canonicalEach_eq]

theorem canonicalMember_alternatives (members : List (String × Json)) :
    canonicalMember "alternatives" (.object members) =
      .object (membersByName (members.map fun p => (p.1, canonical p.2))) := by
  rw [canonicalMember, if_neg (by decide), if_pos rfl, byName_eq, canonicalEach_eq]

theorem canonicalMember_entries (items : List Json) :
    canonicalMember "entries" (.array items) = .array (items.map canonical) := by
  rw [canonicalMember, if_pos rfl, canonicalAll_eq]

theorem canonicalMember_child {name : String} (hname : name ∈ ["of", "items", "keys", "values"]) (shape : Json) :
    canonicalMember name shape = canonical shape := by
  have hmembers : name ≠ "members" := by
    rintro rfl
    exact absurd hname (by decide)
  have halternatives : name ≠ "alternatives" := by
    rintro rfl
    exact absurd hname (by decide)
  have hentries : name ≠ "entries" := by
    rintro rfl
    exact absurd hname (by decide)
  cases shape with
  | object members => rw [canonicalMember, if_neg hmembers, if_neg halternatives, if_pos hname, canonical]
  | array items => rw [canonicalMember, if_neg hentries, canonical]
  | _ => rfl

/-- The names under which a node's nodes are. -/
def nodeMembers : List String := ["members", "alternatives", "entries", "of", "items", "keys", "values"]

theorem canonicalMember_other {name : String} (hname : name ∉ nodeMembers) (v : Json) : canonicalMember name v = v := by
  simp only [nodeMembers, List.mem_cons, not_or] at hname
  obtain ⟨hmembers, halternatives, hentries, hof, hitems, hkeys, hvalues, -⟩ := hname
  cases v with
  | object members =>
    rw [canonicalMember, if_neg hmembers, if_neg halternatives, if_neg (by simp [hof, hitems, hkeys, hvalues])]
  | array items => rw [canonicalMember, if_neg hentries]
  | _ => rfl

private theorem name_cases (name : String) : name = "members" ∨ name = "alternatives" ∨ name = "entries" ∨
    name ∈ ["of", "items", "keys", "values"] ∨ name ∉ nodeMembers := by
  simp only [nodeMembers, List.mem_cons, List.not_mem_nil, or_false]
  tauto

/-! Writing twice is writing once. -/

private theorem isCore_written {node : List (String × Json)} (h : IsCore node) :
    IsCore (membersByName (node.map fun p => (p.1, canonicalMember p.1 p.2))) := by
  obtain ⟨operator, hoperator, hlookup⟩ := h
  refine ⟨operator, hoperator, ?_⟩
  rw [lookup_membersByName, lookup_map_snd, hlookup, Option.map_some, canonicalMember_other (by decide)]

private theorem map_idem (f : String → Json → Json) {members : List (String × Json)}
    (h : ∀ p ∈ members, f p.1 (f p.1 p.2) = f p.1 p.2) :
    (members.map fun p => (p.1, f p.1 p.2)).map (fun p => (p.1, f p.1 p.2)) = members.map fun p => (p.1, f p.1 p.2) := by
  rw [List.map_map]
  exact List.map_congr_left fun p hp => Prod.ext rfl (h p hp)

private theorem written_idem (f : String → Json → Json) {members : List (String × Json)}
    (h : ∀ p ∈ members, f p.1 (f p.1 p.2) = f p.1 p.2) :
    membersByName ((membersByName (members.map fun p => (p.1, f p.1 p.2))).map fun p => (p.1, f p.1 p.2)) =
      membersByName (members.map fun p => (p.1, f p.1 p.2)) := by
  rw [← membersByName_map (fun p : String × Json => (p.1, f p.1 p.2)) fun _ => rfl, membersByName_idem, map_idem f h]

private theorem canonical_idem_and (v : Json) : canonical (canonical v) = canonical v ∧
    ∀ name, canonicalMember name (canonicalMember name v) = canonicalMember name v := by
  induction v with
  | object members ih =>
    have hself : canonical (canonical (.object members)) = canonical (.object members) := by
      by_cases hcore : IsCore members
      · rw [canonical_core hcore, canonical_core (isCore_written hcore)]
        exact congrArg _ (written_idem canonicalMember fun p hp => (ih p hp).2 p.1)
      · rw [canonical_other hcore, canonical_other hcore]
    have heach (p : String × Json) (hp : p ∈ members) : canonical (canonical p.2) = canonical p.2 := (ih p hp).1
    refine ⟨hself, fun name => ?_⟩
    rcases name_cases name with rfl | rfl | rfl | hchild | hother
    · rw [canonicalMember_members, canonicalMember_members]
      exact congrArg _ (map_idem (fun _ => canonical) heach)
    · rw [canonicalMember_alternatives, canonicalMember_alternatives]
      exact congrArg _ (written_idem (fun _ => canonical) heach)
    · rfl
    · rw [canonicalMember_child hchild, canonicalMember_child hchild, hself]
    · rw [canonicalMember_other hother, canonicalMember_other hother]
  | array items ih =>
    refine ⟨rfl, fun name => ?_⟩
    by_cases hname : name = "entries"
    · subst hname
      rw [canonicalMember_entries, canonicalMember_entries]
      rw [List.map_map]
      exact congrArg _ (List.map_congr_left fun v hv => (ih v hv).1)
    · rw [canonicalMember, if_neg hname, canonicalMember, if_neg hname]
  | _ => exact ⟨rfl, fun _ => rfl⟩

theorem canonical_idem (v : Json) : canonical (canonical v) = canonical v := (canonical_idem_and v).1

/-! What is written has no member twice either. -/

private theorem distinct_written (f : String → Json → Json) {members : List (String × Json)}
    (hd : (members.map Prod.fst).Nodup) (h : ∀ p ∈ members, distinctKeys (f p.1 p.2) = true)
    {members' : List (String × Json)} (hperm : members'.Perm (members.map fun p => (p.1, f p.1 p.2))) :
    distinctKeys (.object members') = true := by
  refine distinctKeys_object.2 ⟨?_, fun p hp => ?_⟩
  · rw [(hperm.map Prod.fst).nodup_iff, List.map_map]
    exact hd
  · obtain ⟨q, hq, rfl⟩ := List.mem_map.1 (hperm.mem_iff.1 hp)
    exact h q hq

private theorem distinct_canonical_and {v : Json} (hd : distinctKeys v = true) :
    distinctKeys (canonical v) = true ∧ ∀ name, distinctKeys (canonicalMember name v) = true := by
  induction v with
  | object members ih =>
    obtain ⟨hnames, hmembers⟩ := distinctKeys_object.1 hd
    have hself : distinctKeys (canonical (.object members)) = true := by
      by_cases hcore : IsCore members
      · rw [canonical_core hcore]
        exact distinct_written canonicalMember hnames (fun p hp => (ih p hp (hmembers p hp)).2 p.1)
          (membersByName_perm _)
      · rwa [canonical_other hcore]
    have heach (p : String × Json) (hp : p ∈ members) : distinctKeys (canonical p.2) = true :=
      (ih p hp (hmembers p hp)).1
    refine ⟨hself, fun name => ?_⟩
    rcases name_cases name with rfl | rfl | rfl | hchild | hother
    · rw [canonicalMember_members]
      exact distinct_written (fun _ => canonical) hnames heach (List.Perm.refl _)
    · rw [canonicalMember_alternatives]
      exact distinct_written (fun _ => canonical) hnames heach (membersByName_perm _)
    · exact hd
    · rwa [canonicalMember_child hchild]
    · rwa [canonicalMember_other hother]
  | array items ih =>
    refine ⟨hd, fun name => ?_⟩
    by_cases hname : name = "entries"
    · subst hname
      rw [canonicalMember_entries, distinctKeys, distinctKeysAll_iff]
      exact List.forall_mem_map.2 fun v hv => (ih v hv (distinctKeysAll_iff.1 hd v hv)).1
    · rwa [canonicalMember, if_neg hname]
  | _ => exact ⟨hd, fun _ => hd⟩

theorem distinct_canonical {v : Json} (hd : distinctKeys v = true) : distinctKeys (canonical v) = true :=
  (distinct_canonical_and hd).1

/-! The shape a document is stands for what is written of it. -/

section Represented

variable {obj : List (String × Json)} {e : Option Example} {g : Option Json} {kind : ShapeKind}

/-- A member with no node under it is written as it is. -/
theorem get_kept (h : IsCore obj) {name : String} (hname : name ∉ nodeMembers) :
    get name (canonical (.object obj)) = get name (.object obj) := by
  rw [get_canonical h]
  show (obj.lookup name).map (canonicalMember name) = obj.lookup name
  cases obj.lookup name with
  | none => rfl
  | some v => rw [Option.map_some, canonicalMember_other hname]

private theorem isCore_of_represents (hcore : isCore kind = true) (h : Represents ⟨e, g, kind⟩ (.object obj)) :
    IsCore obj := ⟨operatorName kind, operatorName_mem_coreOperators hcore, h.1⟩

private theorem exampleOf_written (h : IsCore obj) (he : ExampleOf e (.object obj)) :
    ExampleOf e (canonical (.object obj)) := by
  cases e with
  | none => exact (get_kept h (by decide)).trans he
  | some e => exact ⟨(get_kept h (by decide)).trans he.1, (get_kept h (by decide)).trans he.2⟩

private theorem cardinalityOf_written (h : IsCore obj) {min : UInt64} {max : Option UInt64}
    (hcard : CardinalityOf min max (.object obj)) : CardinalityOf min max (canonical (.object obj)) := by
  obtain ⟨⟨given, hgiven, hmin⟩, hmax⟩ := hcard
  exact ⟨⟨given, (get_kept h (by decide)).trans hgiven, hmin⟩, (get_kept h (by decide)).trans hmax⟩

private theorem represents_written (hcore : isCore kind = true) (h : Represents ⟨e, g, kind⟩ (.object obj))
    (hkind : IsCore obj → RepresentsKind kind (canonical (.object obj))) :
    Represents ⟨e, g, kind⟩ (canonical (.object obj)) := by
  have hnode := isCore_of_represents hcore h
  obtain ⟨hshape, he, hg, -⟩ := h
  exact ⟨(get_kept hnode (by decide)).trans hshape, exampleOf_written hnode he, (get_kept hnode (by decide)).trans hg,
    hkind hnode⟩

/-- A node under a member is written where it was. -/
private theorem child_written (h : IsCore obj) {name : String} (hname : name ∈ ["of", "items", "keys", "values"])
    {v : Json} (hlookup : get name (.object obj) = some v) : get name (canonical (.object obj)) = some (canonical v) := by
  have hv : obj.lookup name = some v := hlookup
  rw [get_canonical h, hv, Option.map_some, canonicalMember_child hname]

private theorem entries_written (h : IsCore obj) {items : List Json}
    (hlookup : get "entries" (.object obj) = some (.array items)) :
    get "entries" (canonical (.object obj)) = some (.array (items.map canonical)) := by
  have hv : obj.lookup "entries" = some (.array items) := hlookup
  rw [get_canonical h, hv, Option.map_some, canonicalMember_entries]

private theorem represents_entries {entries : List ShapeNode} {documents : List Json}
    (ih : ∀ s ∈ entries, ∀ d, Represents s d → Represents s (canonical d)) (h : RepresentsEntries entries documents) :
    RepresentsEntries entries (documents.map canonical) := by
  rw [representsEntries_iff] at h ⊢
  rw [List.forall₂_map_right_iff]
  exact ((List.forall₂_and_left _ _).2 ⟨ih, h⟩).imp fun s d hs => hs.1 d hs.2

private theorem represents_members {members : List (String × ShapeNode)} {documents : List (String × Json)}
    (ih : ∀ p ∈ members, ∀ d, Represents p.2 d → Represents p.2 (canonical d)) (h : RepresentsMembers members documents) :
    RepresentsMembers members (documents.map fun p => (p.1, canonical p.2)) := by
  rw [representsMembers_iff] at h ⊢
  rw [List.forall₂_map_right_iff]
  exact ((List.forall₂_and_left _ _).2 ⟨ih, h⟩).imp fun p d hs => ⟨hs.2.1, hs.1 _ hs.2.2⟩

private theorem leaf_written (hleaf : isLeaf kind = true) (hcore : isCore kind = true) (hnode : IsCore obj)
    (h : RepresentsKind kind (.object obj)) : RepresentsKind kind (canonical (.object obj)) := by
  cases kind with
  | component => exact nomatch hcore
  | regex | temporal | includes | contentType | anyOf => exact (get_kept hnode (by decide)).trans h
  | object | array | eachLike | eachEntry | contains | optional | nullable | oneOf => exact nomatch hleaf
  | _ => trivial

end Represented

/-- A component's node is written as it is. -/
private theorem canonical_component {e : Option Example} {g : Option Json} {operator : String} {raw : List (String × Json)}
    (hvalid : nodeValid e (.component operator raw) = true) {d : Json}
    (h : Represents ⟨e, g, .component operator raw⟩ d) : canonical d = d := by
  obtain ⟨obj, rfl⟩ := object_of_represents h
  refine canonical_other ?_
  rintro ⟨name, hname, hlookup⟩
  have hshape : obj.lookup "shape" = some (.string operator) := h.1
  obtain rfl := Json.string.inj (Option.some.inj (hlookup.symm.trans hshape))
  simp [nodeValid, isComponentOperator, splitOnce_coreOperators _ hname] at hvalid

theorem represents_canonical {shape : ShapeNode} (hvalid : wellFormed shape = true) :
    ∀ d, Represents shape d → Represents shape (canonical d) := by
  induction shape with
  | leaf e g k hk =>
    intro d h
    obtain ⟨obj, rfl⟩ := object_of_represents h
    by_cases hcore : isCore k = true
    · exact represents_written hcore h fun hnode => leaf_written hk hcore hnode h.2.2.2
    · cases k with
      | component operator raw => rwa [canonical_component (wellFormed_mk.1 hvalid).2.1 h]
      | _ => exact absurd rfl hcore
  | object e g members ih =>
    intro d h
    obtain ⟨obj, rfl⟩ := object_of_represents h
    refine represents_written rfl h fun hnode => ?_
    obtain ⟨documents, hlookup, hmembers⟩ := h.2.2.2
    have hunder := wellFormedMembers_iff.1 (wellFormed_mk.1 hvalid).2.2
    have hv : obj.lookup "members" = some (.object documents) := hlookup
    refine ⟨documents.map fun p => (p.1, canonical p.2), ?_, represents_members (fun p hp => ih p hp (hunder p hp)) hmembers⟩
    rw [get_canonical hnode, hv, Option.map_some, canonicalMember_members]
  | array e g entries ih =>
    intro d h
    obtain ⟨obj, rfl⟩ := object_of_represents h
    refine represents_written rfl h fun hnode => ?_
    obtain ⟨documents, hlookup, hentries⟩ := h.2.2.2
    have hunder := wellFormedEntries_iff.1 (wellFormed_mk.1 hvalid).2.2
    exact ⟨documents.map canonical, entries_written hnode hlookup,
      represents_entries (fun s hs => ih s hs (hunder s hs)) hentries⟩
  | contains e g entries ih =>
    intro d h
    obtain ⟨obj, rfl⟩ := object_of_represents h
    refine represents_written rfl h fun hnode => ?_
    obtain ⟨documents, hlookup, hentries⟩ := h.2.2.2
    have hunder := wellFormedEntries_iff.1 (wellFormed_mk.1 hvalid).2.2
    exact ⟨documents.map canonical, entries_written hnode hlookup,
      represents_entries (fun s hs => ih s hs (hunder s hs)) hentries⟩
  | eachLike e g items min max ih =>
    intro d h
    obtain ⟨obj, rfl⟩ := object_of_represents h
    refine represents_written rfl h fun hnode => ?_
    obtain ⟨⟨under, hlookup, hitems⟩, hcard⟩ := h.2.2.2
    exact ⟨⟨canonical under, child_written hnode (by decide) hlookup, ih (wellFormed_mk.1 hvalid).2.2 _ hitems⟩,
      cardinalityOf_written hnode hcard⟩
  | eachEntry e g keys values min max ihk ihv =>
    intro d h
    obtain ⟨obj, rfl⟩ := object_of_represents h
    refine represents_written rfl h fun hnode => ?_
    obtain ⟨⟨under, hlookup, hvalues⟩, hkeys, hcard⟩ := h.2.2.2
    obtain ⟨hkeysValid, hvaluesValid⟩ := Bool.and_eq_true_iff.1 (wellFormed_mk.1 hvalid).2.2
    refine ⟨⟨canonical under, child_written hnode (by decide) hlookup, ihv hvaluesValid _ hvalues⟩, ?_,
      cardinalityOf_written hnode hcard⟩
    cases hfound : get "keys" (.object obj) with
    | none =>
      rw [hfound] at hkeys
      have hnone : obj.lookup "keys" = none := hfound
      rw [get_canonical hnode, hnone]
      exact hkeys
    | some v =>
      rw [hfound] at hkeys
      rw [child_written hnode (by decide) hfound]
      cases keys with
      | none => exact hkeys
      | some node => exact ihk node rfl (wellFormedKeys_iff.1 hkeysValid node rfl) v hkeys
  | optional e g of ih =>
    intro d h
    obtain ⟨obj, rfl⟩ := object_of_represents h
    refine represents_written rfl h fun hnode => ?_
    obtain ⟨under, hlookup, hof⟩ := h.2.2.2
    exact ⟨canonical under, child_written hnode (by decide) hlookup, ih (wellFormed_mk.1 hvalid).2.2 _ hof⟩
  | nullable e g of ih =>
    intro d h
    obtain ⟨obj, rfl⟩ := object_of_represents h
    refine represents_written rfl h fun hnode => ?_
    obtain ⟨under, hlookup, hof⟩ := h.2.2.2
    exact ⟨canonical under, child_written hnode (by decide) hlookup, ih (wellFormed_mk.1 hvalid).2.2 _ hof⟩
  | oneOf e g discriminator alternatives default ih =>
    intro d h
    obtain ⟨obj, rfl⟩ := object_of_represents h
    refine represents_written rfl h fun hnode => ?_
    obtain ⟨hdiscriminator, ⟨documents, written, hlookup, hperm, hwritten⟩, hdefault⟩ := h.2.2.2
    have hunder := wellFormedMembers_iff.1 (wellFormed_mk.1 hvalid).2.2
    have hv : obj.lookup "alternatives" = some (.object documents) := hlookup
    refine ⟨(get_kept hnode (by decide)).trans hdiscriminator, ⟨membersByName (documents.map fun p => (p.1, canonical p.2)),
      written.map fun p => (p.1, canonical p.2), ?_, ?_, represents_members (fun p hp => ih p hp (hunder p hp)) hwritten⟩,
      (get_kept hnode (by decide)).trans hdefault⟩
    · rw [get_canonical hnode, hv, Option.map_some, canonicalMember_alternatives]
    · exact (hperm.map _).trans (membersByName_perm _).symm

/-! Documents that differ in the order of members alone are written as one. -/

section Order

variable {before after : List (String × Json)} {name : String} {v v' : Json}

private theorem lookup_replaced (hname : name ≠ "shape") :
    (before ++ (name, v) :: after).lookup "shape" = (before ++ (name, v') :: after).lookup "shape" := by
  induction before with
  | nil => rw [List.nil_append, List.nil_append, lookup_cons_ite, lookup_cons_ite, if_neg hname.symm, if_neg hname.symm]
  | cons p rest ih => rw [List.cons_append, List.cons_append, lookup_cons_ite, lookup_cons_ite, ih]

/-- A member in another order is written the same, in the same node. -/
private theorem canonical_replaced (hcore : IsCore (before ++ (name, v) :: after)) (hname : name ≠ "shape")
    (h : canonicalMember name v = canonicalMember name v') :
    canonical (.object (before ++ (name, v) :: after)) = canonical (.object (before ++ (name, v') :: after)) := by
  have hcore' : IsCore (before ++ (name, v') :: after) := by
    obtain ⟨operator, hoperator, hlookup⟩ := hcore
    exact ⟨operator, hoperator, (lookup_replaced hname).symm.trans hlookup⟩
  rw [canonical_core hcore, canonical_core hcore']
  simp only [List.map_append, List.map_cons, h]

private theorem distinct_replaced (hd : distinctKeys (.object (before ++ (name, v) :: after)) = true)
    (hv : distinctKeys v' = true) : distinctKeys (.object (before ++ (name, v') :: after)) = true := by
  obtain ⟨hnames, hmembers⟩ := distinctKeys_object.1 hd
  rw [List.map_append, List.map_cons] at hnames
  refine distinctKeys_object.2 ⟨by rwa [List.map_append, List.map_cons], fun p hp => ?_⟩
  rcases List.mem_append.1 hp with hbefore | hafter
  · exact hmembers p (List.mem_append_left _ hbefore)
  · rcases List.mem_cons.1 hafter with rfl | hrest
    · exact hv
    · exact hmembers p (List.mem_append_right _ (List.mem_cons_of_mem _ hrest))

private theorem distinct_member (hd : distinctKeys (.object (before ++ (name, v) :: after)) = true) :
    distinctKeys v = true :=
  (distinctKeys_object.1 hd).2 _ (List.mem_append_right _ List.mem_cons_self)

private theorem lookup_eq_of_perm {members members' : List (String × Json)} (hd : (members.map Prod.fst).Nodup)
    (h : members.Perm members') (key : String) : members.lookup key = members'.lookup key := by
  rw [← lookup_membersByName, membersByName_eq_of_perm hd h, lookup_membersByName]

private theorem written_eq_of_perm (f : String → Json → Json) {members members' : List (String × Json)}
    (hd : (members.map Prod.fst).Nodup) (h : members.Perm members') :
    membersByName (members.map fun p => (p.1, f p.1 p.2)) = membersByName (members'.map fun p => (p.1, f p.1 p.2)) := by
  refine membersByName_eq_of_perm ?_ (h.map _)
  rw [List.map_map]
  exact hd

private theorem distinct_perm {members members' : List (String × Json)} (hd : distinctKeys (.object members) = true)
    (h : members.Perm members') : distinctKeys (.object members') = true := by
  obtain ⟨hnames, hmembers⟩ := distinctKeys_object.1 hd
  exact distinctKeys_object.2 ⟨((h.map Prod.fst).nodup_iff).1 hnames, fun p hp => hmembers p (h.mem_iff.2 hp)⟩

end Order

theorem canonical_eq_of_reordered {d d' : Json} (h : Reordered d d') (hd : distinctKeys d = true) :
    canonical d = canonical d' ∧ distinctKeys d' = true := by
  induction h with
  | node hcore hperm =>
    have hnames := (distinctKeys_object.1 hd).1
    have hcore' := hcore
    obtain ⟨operator, hoperator, hlookup⟩ := hcore'
    rw [canonical_core hcore, canonical_core ⟨operator, hoperator, (lookup_eq_of_perm hnames hperm _).symm.trans hlookup⟩,
      written_eq_of_perm canonicalMember hnames hperm]
    exact ⟨rfl, distinct_perm hd hperm⟩
  | child hcore hname _ ih =>
    obtain ⟨hsame, hd'⟩ := ih (distinct_member hd)
    refine ⟨canonical_replaced hcore ?_ ?_, distinct_replaced hd hd'⟩
    · rintro rfl
      exact absurd hname (by decide)
    · rw [canonicalMember_child hname, canonicalMember_child hname, hsame]
  | entry hcore _ ih =>
    have hall := distinctKeysAll_iff.1 (distinct_member hd)
    obtain ⟨hsame, hd'⟩ := ih (hall _ (List.mem_append_right _ List.mem_cons_self))
    refine ⟨canonical_replaced hcore (by decide) ?_, distinct_replaced hd ?_⟩
    · rw [canonicalMember_entries, canonicalMember_entries, List.map_append, List.map_append, List.map_cons,
        List.map_cons, hsame]
    · refine distinctKeysAll_iff.2 fun u hu => ?_
      rcases List.mem_append.1 hu with hbefore | hafter
      · exact hall u (List.mem_append_left _ hbefore)
      · rcases List.mem_cons.1 hafter with rfl | hrest
        · exact hd'
        · exact hall u (List.mem_append_right _ (List.mem_cons_of_mem _ hrest))
  | member hname hcore _ ih =>
    have hmembers := distinct_member hd
    obtain ⟨hsame, hd'⟩ := ih (distinct_member hmembers)
    refine ⟨canonical_replaced hcore ?_ ?_, distinct_replaced hd (distinct_replaced hmembers hd')⟩
    · rintro rfl
      exact absurd hname (by decide)
    · rcases List.mem_cons.1 hname with rfl | hname
      · rw [canonicalMember_members, canonicalMember_members]
        simp only [List.map_append, List.map_cons, hsame]
      · obtain rfl := List.mem_singleton.1 hname
        rw [canonicalMember_alternatives, canonicalMember_alternatives]
        simp only [List.map_append, List.map_cons, hsame]
  | alternatives hcore hperm =>
    have hmembers := distinct_member hd
    refine ⟨canonical_replaced hcore (by decide) ?_, distinct_replaced hd (distinct_perm hmembers hperm)⟩
    rw [canonicalMember_alternatives, canonicalMember_alternatives]
    exact congrArg _ (written_eq_of_perm (fun _ => canonical) (distinctKeys_object.1 hmembers).1 hperm)

theorem canonical_eq_of_reorderings {d d' : Json} (h : Relation.ReflTransGen Reordered d d')
    (hd : distinctKeys d = true) : canonical d = canonical d' ∧ distinctKeys d' = true := by
  induction h with
  | refl => exact ⟨rfl, hd⟩
  | tail _ hstep ih =>
    obtain ⟨hsame, hd'⟩ := ih
    obtain ⟨hnext, hd''⟩ := canonical_eq_of_reordered hstep hd'
    exact ⟨hsame.trans hnext, hd''⟩

/-- A shape that is parsed is parsed from what is written of it, which is written in one way alone, whatever the order
its core nodes' members come in. -/
theorem canonical_is_the_shape {document : Json} (hd : distinctKeys document = true) {path : String} {shape : ShapeNode}
    (h : parse document path = .ok shape) :
    parse (canonical document) path = .ok shape ∧ canonical (canonical document) = canonical document ∧
      ∀ document', Relation.ReflTransGen Reordered document document' → canonical document' = canonical document := by
  obtain ⟨hrep, hvalid⟩ := (parse_eq_ok hd).1 h
  refine ⟨(parse_eq_ok (distinct_canonical hd)).2 ⟨represents_canonical hvalid.tree _ hrep, hvalid⟩, canonical_idem _, ?_⟩
  exact fun document' hreordered => (canonical_eq_of_reorderings hreordered hd).1.symm

theorem canonical_is_the_shape_nullable :
    parse (canonical (.object [("shape", .string "nullable"), ("of", .object [("shape", .string "string")])])) "" =
        .ok ⟨none, none, .nullable ⟨none, none, .kind .string⟩⟩ ∧
      canonical (.object [("of", .object [("shape", .string "string")]), ("shape", .string "nullable")]) =
        canonical (.object [("shape", .string "nullable"), ("of", .object [("shape", .string "string")])]) :=
  have hshape := @canonical_is_the_shape
    (.object [("shape", .string "nullable"), ("of", .object [("shape", .string "string")])]) (by decide) "" _ rfl
  ⟨hshape.1, hshape.2.2 _ (.single (.node ⟨"nullable", by decide, rfl⟩ (.swap ..)))⟩

/-- The members of a component's node are written in the order they came in. -/
theorem component_members_in_order :
    ∃ node node' : List (String × Json), node.Perm node' ∧ canonical (.object node) ≠ canonical (.object node') ∧
      parse (.object node) "" = .ok ⟨none, none, .component "x:y" [("a", .null), ("b", .null)]⟩ ∧
      parse (.object node') "" = .ok ⟨none, none, .component "x:y" [("b", .null), ("a", .null)]⟩ := by
  refine ⟨[("shape", .string "x:y"), ("a", .null), ("b", .null)], [("shape", .string "x:y"), ("b", .null), ("a", .null)],
    .cons _ (.swap ..), ?_, rfl, rfl⟩
  intro hsame
  have hmembers : [("shape", Json.string "x:y"), ("a", .null), ("b", .null)] =
      [("shape", .string "x:y"), ("b", .null), ("a", .null)] := Json.object.inj hsame
  simp at hmembers

end PactJanus.Contracts.CanonicalShape
