import PactJanus.Plan.Documents

namespace PactJanus.Plan.Semantics

open PactJanus.Data.Json PactJanus.Data.Equality PactJanus.Lib.Lists PactJanus.Shape PactJanus.Shape.Model
  PactJanus.Shape.Valid PactJanus.Shape.Nodes PactJanus.Shape.Admits PactJanus.Shape.Alternatives PactJanus.Plan.Model
  PactJanus.Plan.Value PactJanus.Plan.Result PactJanus.Plan.Interpret PactJanus.Plan.Compile PactJanus.Plan.Navigation
  PactJanus.Plan.Outcome PactJanus.Plan.Accepts PactJanus.Plan.Documents

/-! An unpinned plan accepts what its shape admits. -/

variable {strict : Bool} {env : Env} {path place : String} {slot : Option Json}

theorem pin_nil (facet : VariantSpace.Facet) : pin [] path facet = none := rfl

theorem sizeAccepts_nil (min : UInt64) (max : Option UInt64) (size : Nat) :
    sizeAccepts [] path min max size = withinBounds min max size := rfl

theorem anyOfAccepts_nil {options : List Json} (ho : ∀ o ∈ options, distinctKeys o = true)
    (hslot : ∀ v ∈ slot, distinctKeys v = true) :
    anyOfAccepts [] path options (ofSlot slot) = slot.any fun v => options.any (valuesEqual v) := by
  change (options.any fun o => runtimeEq (fromJson o) (ofSlot slot)) = _
  cases slot with
  | none => simpa using fun o _ => by cases o <;> rfl
  | some v =>
    refine any_congr_mem fun o ho' => ?_
    rw [ofSlot, runtimeEq_fromJson]
    exact valuesEqual_comm (ho o ho') (hslot v rfl)

private theorem kindOf_ofSlot (slot : Option Json) (b : Json) :
    (!isAbsent (ofSlot slot) && kindOf (ofSlot slot) == kindOf (fromJson b)) = slot.any fun v => sameKind v b := by
  cases slot with
  | none => cases b <;> rfl
  | some v => cases v <;> cases b <;> rfl

private theorem kindHolds_ofSlot (k : ValueKind) (slot : Option Json) :
    kindHolds k (ofSlot slot) = slot.any (ofKind k) := by
  cases slot with
  | none => cases k <;> rfl
  | some v => cases k <;> cases v <;> rfl

private theorem isEmpty_ofSlot (slot : Option Json) : (!isEmpty (ofSlot slot)) = slot.any hasContent := by
  cases slot with
  | none => rfl
  | some v =>
    cases v with
    | array items => cases items <;> rfl
    | object fields => cases fields <;> rfl
    | _ => rfl

theorem exampleLiteral_eq {example? : Option Example} {d : Json} (h : exampleDocument example? = some d) :
    fromLiteral (exampleLiteral example?) = fromJson d := by
  cases example? with
  | none => simp [exampleDocument] at h
  | some e =>
    simp only [exampleDocument] at h
    split at h
    · exact absurd h (by simp)
    · rename_i hencoded
      obtain rfl := Option.some.inj h
      rw [exampleLiteral, Literal.fromExample, if_neg hencoded]
      cases e.value <;> rfl

/-- Octets that are an example's, or nothing where they do not decode. -/
private theorem octets_getD (octets : Option (List UInt8)) :
    (match octets with
      | some bytes => RuntimeValue.bytes bytes
      | none => .absent) = (octets.map RuntimeValue.bytes).getD .absent := by
  cases octets <;> rfl

private theorem exampleLiteral_octets {e : Example} (h : e.encoded = some "base64") :
    fromLiteral (exampleLiteral (some e)) =
      (((asStr e.value).bind Lib.Base64.decode).map RuntimeValue.bytes).getD .absent := by
  rw [exampleLiteral, Literal.fromExample, if_pos h]
  exact octets_getD _

private theorem runtimeEq_bytes (slot : Option Json) (bytes : List UInt8) :
    runtimeEq (ofSlot slot) (.bytes bytes) = false := by
  cases slot with
  | none => rfl
  | some v => cases v <;> rfl

theorem accepts_equality {e : Option Example} {g : Option Json} (he : e.isSome = true)
    (hoctets : octetsDecode ⟨e, g, .equality⟩ = true) :
    runtimeEq (ofSlot slot) (fromLiteral (exampleLiteral e)) =
      slot.any fun v => (exampleDocument e).any (valuesEqual v) := by
  obtain ⟨e, rfl⟩ := Option.isSome_iff_exists.1 he
  by_cases hencoded : e.encoded = some "base64"
  · have hdecode : (((asStr e.value).bind Lib.Base64.decode)).isSome = true := by
      simpa [octetsDecode, hencoded] using hoctets
    obtain ⟨bytes, hbytes⟩ := Option.isSome_iff_exists.1 hdecode
    rw [exampleLiteral_octets hencoded, hbytes]
    cases slot <;> simp [exampleDocument, hencoded, runtimeEq_bytes]
  · have hdocument : exampleDocument (some e) = some e.value := by simp [exampleDocument, hencoded]
    rw [exampleLiteral_eq hdocument, runtimeEq_ofSlot, hdocument]
    rfl

private theorem accepts_type {e : Option Example} (he : e.isSome = true) :
    (!isAbsent (ofSlot slot) && kindOf (ofSlot slot) == kindOf (fromLiteral (exampleLiteral e))) =
      slot.any fun v => (exampleDocument e).any (sameKind v) := by
  obtain ⟨e, rfl⟩ := Option.isSome_iff_exists.1 he
  by_cases hencoded : e.encoded = some "base64"
  · rw [exampleLiteral_octets hencoded]
    cases (asStr e.value).bind Lib.Base64.decode <;> cases slot with
    | none => rfl
    | some v => cases v <;> simp [exampleDocument, hencoded, ofSlot, fromJson, kindOf]
  · have hdocument : exampleDocument (some e) = some e.value := by simp [exampleDocument, hencoded]
    rw [exampleLiteral_eq hdocument, kindOf_ofSlot, hdocument]
    rfl

private theorem accepts_leaf {e : Option Example} {g : Option Json} {k : ShapeKind} (hk : isLeaf k = true)
    (hvalid : nodeValid e k = true) (hdescribed : isDescribed k = true) (hoctets : octetsDecode ⟨e, g, k⟩ = true)
    (hslot : ∀ v ∈ slot, distinctKeys v = true) :
    accepts strict env [] ⟨e, g, k⟩ path place (ofSlot slot) = admitsWith hasContent ⟨e, g, k⟩ slot := by
  cases k with
  | any =>
    simp only [accepts, leafAccepts, admitsWith, isAbsent_ofSlot]
    cases slot <;> rfl
  | equality => exact accepts_equality hvalid hoctets
  | type => exact accepts_type hvalid
  | kind k => exact kindHolds_ofSlot k slot
  | notEmpty => exact isEmpty_ofSlot slot
  | forbidden => exact isAbsent_ofSlot slot
  | anyOf options =>
    simp only [nodeValid, Bool.and_eq_true, List.all_eq_true] at hvalid
    exact anyOfAccepts_nil hvalid.1.1.2 hslot
  | component | regex | temporal | includes | contentType | semver => exact absurd hdescribed (by simp [isDescribed])
  | _ => exact absurd hk (by simp [isLeaf])

/-- A tree of described operators, all of whose octets decode. -/
def Described (S : ShapeNode) : Prop := ∀ n ∈ nodes S, isDescribed n.kind = true ∧ octetsDecode n = true

theorem Described.child {e : Option Example} {g : Option Json} {k : ShapeKind} (h : Described ⟨e, g, k⟩)
    {c : ShapeNode} (hc : c ∈ children k) : Described c := (forall_nodes.1 h).2 c hc

private theorem discriminatorLiterals_member (alternative : ShapeNode) (discriminator : String) :
    discriminatorLiterals alternative discriminator =
      match (unwrapObjectMembers alternative).bind fun members => members.lookup discriminator with
      | some ⟨example?, _, .equality⟩ => (example?.map fun e => e.value).toList
      | some ⟨_, _, .anyOf options⟩ => options
      | _ => [] := rfl

theorem discriminatorLiterals_eq {discriminator : String} {alternative : ShapeNode} {options : List Json}
    (h : discriminatorOptions discriminator alternative = some options) :
    discriminatorLiterals alternative discriminator = options := by
  have hsame : discriminatorLiterals alternative discriminator =
      (discriminatorOptions discriminator alternative).getD [] := by
    rw [discriminatorLiterals_member]
    unfold discriminatorOptions
    cases (unwrapObjectMembers alternative).bind fun members => members.lookup discriminator with
    | none => rfl
    | some n =>
      obtain ⟨e?, g, k⟩ := n
      cases k <;> cases e? <;> rfl
  rw [hsame, h, Option.getD_some]

/-- A valid alternative's literals select it exactly where its discriminator says so. -/
theorem selects_eq {discriminator : String} {alternative : ShapeNode} (hvalid : wellFormed alternative = true)
    (hoptions : (discriminatorOptions discriminator alternative).isSome = true) (slot : Option Json) :
    selects (discriminatorLiterals alternative discriminator) (memberOf (ofSlot slot) discriminator) =
      slot.any (selectedBy discriminator alternative) := by
  obtain ⟨options, h⟩ := Option.isSome_iff_exists.1 hoptions
  rw [discriminatorLiterals_eq h, memberOf_ofSlot]
  obtain ⟨o, rest, rfl⟩ := List.exists_cons_of_ne_nil (options_valid hvalid h).1
  simp only [selects, runtimeEq_ofSlot]
  cases slot with
  | none => simp
  | some v =>
    simp only [Option.bind_some, Option.any_some, selectedBy, h]
    cases get discriminator v <;> simp

/-- The alternative the plan takes is the one the discriminator selects. -/
theorem selectedAlternative_eq_some {discriminator : String} {alternatives : List (String × ShapeNode)}
    {p : String × ShapeNode} (halternatives : alternativesValid discriminator alternatives = true)
    (hvalid : ∀ p ∈ alternatives, wellFormed p.2 = true) (hslot : ∀ v ∈ slot, distinctKeys v = true) :
    selectedAlternative discriminator alternatives (ofSlot slot) = some p ↔
      ∃ v, slot = some v ∧ p ∈ alternatives ∧ selectedBy discriminator p.2 v = true := by
  have hselects : ∀ p ∈ alternatives,
      selects (discriminatorLiterals p.2 discriminator) (memberOf (ofSlot slot) discriminator) =
        slot.any (selectedBy discriminator p.2) := fun p hp => by
    refine selects_eq (hvalid p hp) ?_ slot
    simp only [alternativesValid, Bool.and_eq_true, List.all_eq_true] at halternatives
    exact halternatives.1.2 p hp
  constructor
  · intro h
    have hp := List.mem_of_find?_eq_some h
    have hfound : selects (discriminatorLiterals p.2 discriminator) (memberOf (ofSlot slot) discriminator) = true :=
      (List.find?_eq_some_iff_append.1 h).1
    have hselected := (hselects p hp).symm.trans hfound
    obtain ⟨v, rfl, hv⟩ := (Option.any_eq_true _ _).1 hselected
    exact ⟨v, rfl, hp, hv⟩
  · rintro ⟨v, rfl, hp, hv⟩
    refine find?_eq_some_of_pairwise ?_ hp ((hselects p hp).trans hv)
    refine (selected_pairwise halternatives hvalid (hslot v rfl)).imp_of_mem fun ha hb hne => ?_
    rwa [hselects _ ha, hselects _ hb]

private theorem accepts_oneOf_eq {e : Option Example} {g : Option Json} {discriminator : String}
    {alternatives : List (String × ShapeNode)} {default : Option String}
    (hvalid : wellFormed ⟨e, g, .oneOf discriminator alternatives default⟩ = true)
    (hslot : ∀ v ∈ slot, distinctKeys v = true)
    (ih : ∀ p ∈ alternatives, ∀ path, accepts strict env [] p.2 path place (ofSlot slot) = admitsWith hasContent p.2 slot) :
    accepts strict env [] ⟨e, g, .oneOf discriminator alternatives default⟩ path place (ofSlot slot) =
      admitsWith hasContent ⟨e, g, .oneOf discriminator alternatives default⟩ slot := by
  have hnode := (wellFormed_mk.1 hvalid).2.1
  simp only [nodeValid, Bool.and_eq_true] at hnode
  have halternatives := hnode.1.1
  have hchild : ∀ p ∈ alternatives, wellFormed p.2 = true := fun p hp =>
    wellFormed_child hvalid (List.mem_map_of_mem hp)
  rw [Bool.eq_iff_iff, accepts_oneOf, admitsWith_oneOf, Option.any_eq_true]
  change (∃ p, selectedAlternative discriminator alternatives (ofSlot slot) = some p ∧ _) ↔ _
  simp only [selectedAlternative_eq_some halternatives hchild hslot]
  constructor
  · rintro ⟨p, ⟨v, hv, hp, hselected⟩, haccepts⟩
    exact ⟨v, hv, p, hp, hselected, (ih p hp _).symm.trans haccepts⟩
  · rintro ⟨v, hv, p, hp, hselected, hadmits⟩
    exact ⟨p, ⟨v, hv, hp, hselected⟩, (ih p hp _).trans hadmits⟩

/-- What an unpinned plan accepts of a slot is what its shape admits there. -/
theorem accepts_eq_admits {S : ShapeNode} (hvalid : wellFormed S = true) (hdescribed : Described S)
    (hslot : ∀ v ∈ slot, distinctKeys v = true) :
    accepts strict env [] S path place (ofSlot slot) = admitsWith hasContent S slot := by
  induction S generalizing slot path place with
  | leaf e g k hk =>
    obtain ⟨hkind, hoctets⟩ := (forall_nodes.1 hdescribed).1
    exact accepts_leaf hk (wellFormed_mk.1 hvalid).2.1 hkind hoctets hslot
  | object e g members ih =>
    cases slot with
    | none => simp [accepts, admitsWith, ofSlot, isObject]
    | some v =>
      cases v with
      | object fields =>
        rw [Bool.eq_iff_iff]
        simp only [accepts, admitsWith, acceptsMembers_iff, admitsMembers_iff, Bool.and_eq_true, memberOf_ofSlot]
        rw [and_iff_right (show isObject (ofSlot (some (.object fields))) = true from rfl)]
        refine forall₂_congr fun p hp => ?_
        have hchild : p.2 ∈ children (.object members) := List.mem_map_of_mem hp
        have hfield : ∀ v ∈ fields.lookup p.1, distinctKeys v = true := fun v hv =>
          (distinctKeys_object.1 (hslot _ rfl)).2 _ (mem_of_lookup hv)
        exact Bool.eq_iff_iff.1 (ih p hp (wellFormed_child hvalid hchild) (hdescribed.child hchild) hfield)
      | _ => simp [accepts, admitsWith, ofSlot, isObject, fromJson]
  | array e g entries ih =>
    cases slot with
    | none => simp [accepts, admitsWith, ofSlot]
    | some v =>
      cases v with
      | array items =>
        have hitem : ∀ v ∈ items, distinctKeys v = true := distinctKeysAll_iff.1 (hslot _ rfl)
        have hstep : ∀ (i : Nat) (s : ShapeNode), entries[i]? = some s → ∀ path place,
            accepts strict env [] s path place (elementOf (fromJson (.array items)) i) =
              admitsWith hasContent s items[i]? := fun i s hs path place => by
          have hmem : s ∈ entries := List.mem_of_getElem? hs
          rw [elementOf_fromJson]
          exact ih s hmem (wellFormed_child hvalid hmem) (hdescribed.child hmem) fun v hv =>
            hitem v (List.mem_of_getElem? hv)
        rw [Bool.eq_iff_iff]
        simp only [ofSlot, fromJson, accepts, admitsWith, admitsEntries_iff, Bool.and_eq_true,
          acceptsEntries_iff, Nat.zero_add, fromJsonAll_eq, List.length_map, beq_iff_eq, List.forall₂_iff_get]
        simp only [fromJson, fromJsonAll_eq] at hstep
        constructor
        · rintro ⟨hlen, hall⟩
          refine ⟨hlen.symm, fun i hi hi' => ?_⟩
          have hs : entries[i]? = some entries[i] := List.getElem?_eq_getElem hi
          have := (hstep i _ hs _ _).symm.trans (hall i _ hs)
          rwa [List.getElem?_eq_getElem hi'] at this
        · rintro ⟨hlen, hall⟩
          refine ⟨hlen.symm, fun i s hs => ?_⟩
          obtain ⟨hi, rfl⟩ := List.getElem?_eq_some_iff.1 hs
          rw [hstep i _ hs, List.getElem?_eq_getElem (hlen ▸ hi)]
          exact hall i hi (hlen ▸ hi)
      | _ => simp [accepts, admitsWith, ofSlot, fromJson]
  | eachLike e g items min max ih =>
    cases slot with
    | none => simp [accepts, admitsWith, ofSlot]
    | some v =>
      cases v with
      | array elements =>
        have hitem : ∀ v ∈ elements, distinctKeys v = true := distinctKeysAll_iff.1 (hslot _ rfl)
        rw [Bool.eq_iff_iff]
        simp only [ofSlot, fromJson, fromJsonAll_eq, accepts, admitsWith, Bool.and_eq_true, sizeAccepts_nil,
          List.length_map, List.all_eq_true]
        refine and_congr_right fun _ => ?_
        have hstep : ∀ v ∈ elements, ∀ path place,
            accepts strict env [] items path place (fromJson v) = admitsWith hasContent items (some v) :=
          fun v hv path place => ih (wellFormed_child hvalid List.mem_cons_self)
            (hdescribed.child List.mem_cons_self) fun w hw => Option.some.inj hw ▸ hitem v hv
        have hfst := positions_fst place (elements.map fromJson)
        constructor
        · intro hall v hv
          have hmem : fromJson v ∈ (positions place (elements.map fromJson)).map Prod.fst := by
            rw [hfst]
            exact List.mem_map_of_mem hv
          obtain ⟨q, hq, hqv⟩ := List.mem_map.1 hmem
          have := hall q hq
          rw [hqv] at this
          exact (hstep v hv _ _).symm.trans this
        · intro hall q hq
          have hmem : q.1 ∈ elements.map fromJson := hfst ▸ List.mem_map_of_mem hq
          obtain ⟨v, hv, hqv⟩ := List.mem_map.1 hmem
          rw [← hqv, hstep v hv]
          exact hall v hv
      | _ => simp [accepts, admitsWith, ofSlot, fromJson]
  | eachEntry e g keys values min max ihk ihv =>
    cases slot with
    | none => simp [accepts, admitsWith, ofSlot]
    | some v =>
      cases v with
      | object fields =>
        have hfield := (distinctKeys_object.1 (hslot _ rfl)).2
        rw [Bool.eq_iff_iff]
        simp only [ofSlot, fromJson, fromJsonMembers_eq, accepts, admitsWith, Bool.and_eq_true, sizeAccepts_nil,
          List.length_map, List.all_eq_true, List.forall_mem_map]
        refine and_congr_right fun _ => forall₂_congr fun p hp => ?_
        have hvalue : accepts strict env [] values (Path.eachEntryValue path) (memberPath place p.1) (fromJson p.2) =
            admitsWith hasContent values (some p.2) :=
          ihv (wellFormed_child hvalid (by simp [children])) (hdescribed.child (by simp [children]))
            fun w hw => Option.some.inj hw ▸ hfield p hp
        rw [← hvalue]
        refine and_congr_left fun _ => ?_
        cases keys with
        | none => rfl
        | some k =>
          have hkey : accepts strict env [] k (Path.eachEntryKey path) (memberPath place p.1)
              (ofSlot (some (.string p.1))) = admitsWith hasContent k (some (.string p.1)) :=
            ihk k rfl (wellFormed_child hvalid (by simp [children])) (hdescribed.child (by simp [children]))
              fun w hw => Option.some.inj hw ▸ rfl
          exact Bool.eq_iff_iff.1 hkey
      | _ => simp [accepts, admitsWith, ofSlot, fromJson]
  | contains e g entries ih => exact absurd (forall_nodes.1 hdescribed).1.1 (by simp [isDescribed])
  | optional e g of ih =>
    rw [accepts_optional, pin_nil, if_neg (by simp), if_neg (by simp), isAbsent_ofSlot, admitsWith,
      ih (wellFormed_child hvalid List.mem_cons_self) (hdescribed.child List.mem_cons_self) hslot]
  | nullable e g of ih =>
    rw [accepts_nullable, pin_nil, if_neg (by simp), if_neg (by simp), isNullValue_ofSlot, admitsWith,
      ih (wellFormed_child hvalid List.mem_cons_self) (hdescribed.child List.mem_cons_self) hslot]
  | oneOf e g discriminator alternatives default ih =>
    exact accepts_oneOf_eq hvalid hslot fun p hp path =>
      ih p hp (wellFormed_child hvalid (List.mem_map_of_mem hp)) (hdescribed.child (List.mem_map_of_mem hp)) hslot

end PactJanus.Plan.Semantics
