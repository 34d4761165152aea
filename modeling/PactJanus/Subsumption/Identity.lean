import PactJanus.Subsumption.Scope

namespace PactJanus.Subsumption.Identity

open PactJanus.Data.Json PactJanus.Data.Equality PactJanus.Lib.Lists PactJanus.Shape.Model PactJanus.Shape.Valid
  PactJanus.Shape.Nodes PactJanus.Shape.Admits PactJanus.Shape.Alternatives PactJanus.Subsumption.Classes
  PactJanus.Subsumption.Residual PactJanus.Subsumption.Scope

/-! Two nodes that are the same in what they admit admit the same. -/

attribute [local simp] sameAdmits sameLeaf

section Lists

theorem sameMembers_iff {ps cs : List (String × ShapeNode)} :
    sameMembers ps cs = true ↔ ∀ p ∈ ps, ∃ c, cs.lookup p.1 = some c ∧ sameAdmits p.2 c = true := by
  induction ps with
  | nil => simp [sameMembers]
  | cons p rest ih =>
    simp only [sameMembers, Bool.and_eq_true, ih, List.forall_mem_cons]
    refine and_congr_left fun _ => ?_
    cases cs.lookup p.1 <;> simp

theorem sameEntries_iff {ps cs : List ShapeNode} (hlen : ps.length = cs.length) :
    sameEntries ps cs = true ↔ List.Forall₂ (fun p c => sameAdmits p c = true) ps cs := by
  induction ps generalizing cs with
  | nil =>
    obtain rfl := List.length_eq_zero_iff.1 hlen.symm
    simp [sameEntries]
  | cons p rest ih =>
    cases cs with
    | nil => exact absurd hlen (by simp)
    | cons c cs => simp [sameEntries, ih (by simpa using hlen)]

theorem sameAlternatives_iff {ps cs : List (String × ShapeNode)} (hlen : ps.length = cs.length) :
    sameAlternatives ps cs = true ↔ List.Forall₂ (fun p c => p.1 = c.1 ∧ sameAdmits p.2 c.2 = true) ps cs := by
  induction ps generalizing cs with
  | nil =>
    obtain rfl := List.length_eq_zero_iff.1 hlen.symm
    simp [sameAlternatives]
  | cons p rest ih =>
    cases cs with
    | nil => exact absurd hlen (by simp)
    | cons c cs => simp [sameAlternatives, ih (by simpa using hlen), and_assoc]

/-- Every element of the second of two related lists is related to one of the first. -/
private theorem forall₂_left {α β : Type} {r : α → β → Prop} {as : List α} {bs : List β} (h : List.Forall₂ r as bs)
    {a : α} (ha : a ∈ as) : ∃ b ∈ bs, r a b := by
  obtain ⟨i, hi, rfl⟩ := List.mem_iff_getElem.1 ha
  have hi' : i < bs.length := h.length_eq ▸ hi
  exact ⟨bs[i], List.getElem_mem hi', h.get hi hi'⟩

end Lists

section Leaves

variable {pe ce : Option Example} {pg cg : Option Json} {pk ck : ShapeKind} {v : Json}

theorem sameAdmits_leaf (hk : isLeaf pk = true) :
    sameAdmits ⟨pe, pg, pk⟩ ⟨ce, cg, ck⟩ = sameLeaf pe ce pk ck := by
  cases pk <;> first | rfl | exact absurd hk (by simp [isLeaf])

theorem sameKind_iff (a b : Json) : sameKind a b = true ↔ classOfValue a = classOfValue b := by
  cases a <;> cases b <;> simp [sameKind, classOfValue]

theorem admits_leaf {e : Option Example} {g : Option Json} {k : ShapeKind} (hk : isLeaf k = true)
    (hforbidden : k ≠ .forbidden) :
    admitsContent ⟨e, g, k⟩ (some v) = Shape.Admits.admitsValue hasContent e k v := by
  cases k <;> first | rfl | exact absurd rfl hforbidden | exact absurd hk (by simp [isLeaf])

theorem admits_equality (h : Compared ⟨pe, pg, .equality⟩) :
    admitsContent ⟨pe, pg, .equality⟩ (some v) = pe.any fun x => valuesEqual v x.value := by
  rw [admits_leaf rfl (by simp), Shape.Admits.admitsValue, h.exampleDocument_eq]
  cases pe <;> rfl

theorem admits_type (h : Compared ⟨pe, pg, .type⟩) :
    admitsContent ⟨pe, pg, .type⟩ (some v) = pe.any fun x => sameKind v x.value := by
  rw [admits_leaf rfl (by simp), Shape.Admits.admitsValue, h.exampleDocument_eq]
  cases pe <;> rfl

/-- The same literals are the same values. -/
private theorem same_equality (hp : Compared ⟨pe, pg, .equality⟩) (hc : Compared ⟨ce, cg, .equality⟩)
    (h : sameLeaf pe ce .equality .equality = true) (hv : admitsContent ⟨pe, pg, .equality⟩ (some v) = true) :
    admitsContent ⟨ce, cg, .equality⟩ (some v) = true := by
  rw [admits_equality hp] at hv
  rw [admits_equality hc]
  cases pe with
  | none => exact absurd hv (by simp)
  | some x =>
    cases ce with
    | none => exact absurd h (by simp)
    | some y =>
      simp only [sameLeaf, Bool.and_eq_true] at h
      exact valuesEqual_trans hv h.2

private theorem same_type (hp : Compared ⟨pe, pg, .type⟩) (hc : Compared ⟨ce, cg, .type⟩)
    (h : sameLeaf pe ce .type .type = true) (hv : admitsContent ⟨pe, pg, .type⟩ (some v) = true) :
    admitsContent ⟨ce, cg, .type⟩ (some v) = true := by
  have hpe := hp.plain
  have hce := hc.plain
  rw [admits_type hp] at hv
  rw [admits_type hc]
  cases pe with
  | none => exact absurd hv (by simp)
  | some x =>
    cases ce with
    | none => exact absurd h (by simp)
    | some y =>
      have hx : x.encoded = none := by simpa using hpe
      have hy : y.encoded = none := by simpa using hce
      simp only [sameLeaf, classOfExample, hx, hy, Option.isSome_none, Bool.false_eq_true, if_false, beq_iff_eq] at h
      exact (sameKind_iff _ _).2 (((sameKind_iff _ _).1 hv).trans h)

private theorem same_options {ps cs : List Json}
    (h : sameLeaf pe ce (.anyOf ps) (.anyOf cs) = true) (hv : ps.any (valuesEqual v) = true) :
    cs.any (valuesEqual v) = true := by
  simp only [sameLeaf, Bool.and_eq_true, List.all_eq_true, List.any_eq_true] at h hv ⊢
  obtain ⟨o, ho, heq⟩ := hv
  obtain ⟨o', ho', heq'⟩ := h.2 o ho
  exact ⟨o', ho', valuesEqual_trans heq heq'⟩

/-- A leaf admits what one that is the same admits. -/
theorem same_leaf (hk : isLeaf pk = true) (hp : Compared ⟨pe, pg, pk⟩) (hc : Compared ⟨ce, cg, ck⟩)
    (h : sameLeaf pe ce pk ck = true) {slot : Option Json} (hadmits : admitsContent ⟨pe, pg, pk⟩ slot = true) :
    admitsContent ⟨ce, cg, ck⟩ slot = true := by
  by_cases hforbidden : pk = .forbidden
  · subst hforbidden
    cases ck with
    | forbidden => exact hadmits
    | _ => exact absurd h (by simp)
  · have hresidual : isResidual pk = true := by
      cases pk <;> first | rfl | exact absurd rfl hforbidden | exact absurd hk (by simp [isLeaf])
    obtain ⟨v, rfl⟩ := admits_some_of_residual (S := ⟨pe, pg, pk⟩) hresidual hadmits
    have hkind := hp.kind
    cases pk with
    | equality =>
      cases ck with
      | equality => exact same_equality hp hc h hadmits
      | _ => exact absurd h (by simp)
    | type =>
      cases ck with
      | type => exact same_type hp hc h hadmits
      | _ => exact absurd h (by simp)
    | anyOf ps =>
      cases ck with
      | anyOf cs => exact same_options h hadmits
      | _ => exact absurd h (by simp)
    | any =>
      cases ck with
      | any => exact hadmits
      | _ => exact absurd h (by simp)
    | notEmpty =>
      cases ck with
      | notEmpty => exact hadmits
      | _ => exact absurd h (by simp)
    | kind p =>
      cases ck with
      | kind c =>
        obtain rfl : p = c := by simpa using h
        exact hadmits
      | _ => exact absurd h (by simp)
    | forbidden => exact absurd rfl hforbidden
    | object | array | eachLike | eachEntry | optional | nullable | oneOf => exact absurd hk (by simp [isLeaf])
    | component | regex | temporal | includes | contentType | semver | contains => exact absurd hkind (by simp [isCompared])

end Leaves

/-! The literals of the same alternatives. -/

section Literals

variable {p c : ShapeNode} {discriminator : String}

theorem sameAdmits_object {pe : Option Example} {pg : Option Json} {ps : List (String × ShapeNode)}
    (h : sameAdmits ⟨pe, pg, .object ps⟩ c = true) :
    ∃ ce cg cs, c = ⟨ce, cg, .object cs⟩ ∧ ps.length = cs.length ∧
      ∀ p ∈ ps, ∃ q, cs.lookup p.1 = some q ∧ sameAdmits p.2 q = true := by
  obtain ⟨ce, cg, ck⟩ := c
  cases ck with
  | object cs =>
    simp only [sameAdmits, Bool.and_eq_true, beq_iff_eq, sameMembers_iff] at h
    exact ⟨ce, cg, cs, rfl, h.1, h.2⟩
  | _ => exact absurd h (by simp)

private theorem same_members {ps : List (String × ShapeNode)} (h : sameAdmits p c = true)
    (hp : unwrapObjectMembers p = some ps) :
    ∃ cs, unwrapObjectMembers c = some cs ∧ ∀ q ∈ ps, ∃ r, cs.lookup q.1 = some r ∧ sameAdmits q.2 r = true := by
  obtain ⟨pe, pg, pk⟩ := p
  cases pk with
  | object ms =>
    obtain rfl : ms = ps := Option.some.inj hp
    obtain ⟨ce, cg, cs, rfl, -, hall⟩ := sameAdmits_object h
    exact ⟨cs, rfl, hall⟩
  | nullable of =>
    obtain ⟨oe, og, ok⟩ := of
    cases ok with
    | object ms =>
      obtain rfl : ms = ps := Option.some.inj hp
      obtain ⟨ce, cg, ck⟩ := c
      cases ck with
      | nullable cof =>
        obtain ⟨ie, ig, cs, rfl, -, hall⟩ := sameAdmits_object (by simpa using h)
        exact ⟨cs, rfl, hall⟩
      | _ => exact absurd h (by simp)
    | _ => exact absurd hp (by simp [unwrapObjectMembers])
  | _ => exact absurd hp (by simp [unwrapObjectMembers])

private theorem same_literalsOf {n m : ShapeNode} {options : List Json} (h : sameAdmits n m = true)
    (hn : literalsOf n = some options) :
    ∃ others, literalsOf m = some others ∧ ∀ o ∈ options, ∃ o' ∈ others, valuesEqual o o' = true := by
  obtain ⟨ce, cg, ck⟩ := m
  obtain ⟨e, g, rfl, rfl⟩ | ⟨e, g, rfl⟩ := literalsOf_cases hn
  · rw [sameAdmits_leaf rfl] at h
    cases ck with
    | equality =>
      cases ce with
      | none => exact absurd h (by simp)
      | some y =>
        simp only [sameLeaf, Bool.and_eq_true] at h
        exact ⟨[y.value], rfl, List.forall_mem_singleton.2 ⟨y.value, List.mem_singleton_self _, h.2⟩⟩
    | _ => exact absurd h (by simp)
  · rw [sameAdmits_leaf rfl] at h
    cases ck with
    | anyOf others =>
      simp only [sameLeaf, Bool.and_eq_true, List.all_eq_true, List.any_eq_true] at h
      exact ⟨others, by cases ce <;> rfl, h.2⟩
    | _ => exact absurd h (by simp)

/-- A value that selects an alternative selects one that is the same. -/
theorem same_selected {v : Json} (h : sameAdmits p c = true) (hv : selectedBy discriminator p v = true) :
    selectedBy discriminator c v = true := by
  obtain ⟨tag, htag, options, hoptions, o, ho, heq⟩ := selectedBy_iff.1 hv
  rw [discriminatorOptions_eq] at hoptions
  obtain ⟨n, hn, hliterals⟩ := Option.bind_eq_some_iff.1 hoptions
  obtain ⟨ps, hps, hlookup⟩ := Option.bind_eq_some_iff.1 hn
  obtain ⟨cs, hcs, hall⟩ := same_members h hps
  obtain ⟨m, hm, hsame⟩ := hall _ (mem_of_lookup hlookup)
  obtain ⟨others, hothers, hequal⟩ := same_literalsOf hsame hliterals
  obtain ⟨o', ho', heq'⟩ := hequal o ho
  refine selectedBy_iff.2 ⟨tag, htag, others, ?_, o', ho', valuesEqual_trans heq heq'⟩
  rw [discriminatorOptions_eq, discriminatorNode, hcs, Option.bind_some, hm, Option.bind_some, hothers]

end Literals

private theorem fields_of_admits {e : Option Example} {g : Option Json} {k : ShapeKind} {slot : Option Json}
    (hk : (∃ ps, k = .object ps) ∨ ∃ keys p min max, k = .eachEntry keys p min max)
    (h : admitsContent ⟨e, g, k⟩ slot = true) : ∃ fields, slot = some (.object fields) := by
  cases slot with
  | none => obtain ⟨ps, rfl⟩ | ⟨keys, p, min, max, rfl⟩ := hk <;> exact absurd h (by simp [admitsContent, admitsWith])
  | some v =>
    cases v with
    | object fields => exact ⟨fields, rfl⟩
    | _ => obtain ⟨ps, rfl⟩ | ⟨keys, p, min, max, rfl⟩ := hk <;> exact absurd h (by simp [admitsContent, admitsWith])

private theorem items_of_admits {e : Option Example} {g : Option Json} {k : ShapeKind} {slot : Option Json}
    (hk : (∃ ps, k = .array ps) ∨ ∃ p min max, k = .eachLike p min max)
    (h : admitsContent ⟨e, g, k⟩ slot = true) : ∃ items, slot = some (.array items) := by
  cases slot with
  | none => obtain ⟨ps, rfl⟩ | ⟨p, min, max, rfl⟩ := hk <;> exact absurd h (by simp [admitsContent, admitsWith])
  | some v =>
    cases v with
    | array items => exact ⟨items, rfl⟩
    | _ => obtain ⟨ps, rfl⟩ | ⟨p, min, max, rfl⟩ := hk <;> exact absurd h (by simp [admitsContent, admitsWith])

/-- A shape admits what one that is the same admits. -/
theorem same_within {p c : ShapeNode} (hp : Compared p) (hc : Compared c) (h : sameAdmits p c = true) : Within p c := by
  induction p generalizing c with
  | leaf e g k hk =>
    intro slot hslot hadmits
    obtain ⟨ce, cg, ck⟩ := c
    exact same_leaf hk hp hc (by rwa [sameAdmits_leaf hk] at h) hadmits
  | object e g ps ih =>
    intro slot hslot hadmits
    obtain ⟨ce, cg, cs, rfl, hlen, hall⟩ := sameAdmits_object h
    have hnodup : (ps.map Prod.fst).Nodup := by simpa [nodeValid] using hp.valid
    have hcnodup : (cs.map Prod.fst).Nodup := by simpa [nodeValid] using hc.valid
    obtain ⟨fields, rfl⟩ := fields_of_admits (.inl ⟨ps, rfl⟩) hadmits
    simp only [admitsContent, admitsWith, admitsMembers_iff] at hadmits ⊢
    have hsub := names_subset hnodup hlen fun p hmem => by
      obtain ⟨q, hq, -⟩ := hall p hmem
      simp [hq]
    intro q hq
    obtain ⟨p, hmem, hname⟩ := List.mem_map.1 (hsub (List.mem_map_of_mem hq))
    obtain ⟨r, hr, hsame⟩ := hall p hmem
    obtain rfl : r = q.2 := by
      rw [hname, lookup_of_mem hcnodup hq] at hr
      exact (Option.some.inj hr).symm
    rw [← hname]
    refine ih p hmem (hp.child (List.mem_map_of_mem hmem)) (hc.child (List.mem_map_of_mem hq)) hsame _ ?_
      (hadmits p hmem)
    exact fun v hv => (distinctKeys_object.1 (hslot _ rfl)).2 _ (mem_of_lookup hv)
  | array e g ps ih =>
    intro slot hslot hadmits
    obtain ⟨ce, cg, ck⟩ := c
    cases ck with
    | array cs =>
      simp only [sameAdmits, Bool.and_eq_true, beq_iff_eq] at h
      obtain ⟨hlen, hsame⟩ := h
      rw [sameEntries_iff hlen, List.forall₂_iff_get] at hsame
      obtain ⟨items, rfl⟩ := items_of_admits (.inl ⟨ps, rfl⟩) hadmits
      simp only [admitsContent, admitsWith, admitsEntries_iff, List.forall₂_iff_get] at hadmits ⊢
      refine ⟨hlen.symm.trans hadmits.1, fun i hi hi' => ?_⟩
      have hwithin : Within (ps.get ⟨i, hlen ▸ hi⟩) (cs.get ⟨i, hi⟩) :=
        ih _ (List.get_mem ..) (hp.child (List.get_mem ..)) (hc.child (List.get_mem ..)) (hsame.2 i (hlen ▸ hi) hi)
      exact hwithin.some (distinctKeysAll_iff.1 (hslot _ rfl) _ (List.get_mem ..)) (hadmits.2 i (hlen ▸ hi) hi')
    | _ => exact absurd h (by simp)
  | eachLike e g p pmin pmax ih =>
    intro slot hslot hadmits
    obtain ⟨ce, cg, ck⟩ := c
    cases ck with
    | eachLike c cmin cmax =>
      simp only [sameAdmits, Bool.and_eq_true, beq_iff_eq] at h
      obtain ⟨⟨rfl, rfl⟩, hsame⟩ := h
      obtain ⟨items, rfl⟩ := items_of_admits (.inr ⟨p, pmin, pmax, rfl⟩) hadmits
      simp only [admitsContent, admitsWith, Bool.and_eq_true, List.all_eq_true] at hadmits ⊢
      refine ⟨hadmits.1, fun v hv => ?_⟩
      have hwithin : Within p c := ih (hp.child List.mem_cons_self) (hc.child List.mem_cons_self) hsame
      exact hwithin.some (distinctKeysAll_iff.1 (hslot _ rfl) v hv) (hadmits.2 v hv)
    | _ => exact absurd h (by simp)
  | eachEntry e g pkeys p pmin pmax ihk ihv =>
    intro slot hslot hadmits
    obtain ⟨ce, cg, ck⟩ := c
    cases ck with
    | eachEntry ckeys c cmin cmax =>
      simp only [sameAdmits, Bool.and_eq_true, beq_iff_eq] at h
      obtain ⟨⟨⟨rfl, rfl⟩, hkeys⟩, hsame⟩ := h
      obtain ⟨fields, rfl⟩ := fields_of_admits (.inr ⟨pkeys, p, pmin, pmax, rfl⟩) hadmits
      simp only [admitsContent, admitsWith, Bool.and_eq_true, List.all_eq_true] at hadmits ⊢
      refine ⟨hadmits.1, fun q hq => ⟨?_, ?_⟩⟩
      · cases pkeys with
        | none =>
          cases ckeys with
          | none => rfl
          | some ck => exact absurd hkeys (by simp [sameKeys])
        | some pk =>
          cases ckeys with
          | none => exact absurd hkeys (by simp [sameKeys])
          | some ck =>
            have hwithin : Within pk ck := ihk pk rfl (hp.child List.mem_cons_self) (hc.child List.mem_cons_self) hkeys
            exact hwithin.some rfl (hadmits.2 q hq).1
      · have hwithin : Within p c := ihv (hp.child (List.mem_append_right _ List.mem_cons_self))
          (hc.child (List.mem_append_right _ List.mem_cons_self)) hsame
        exact hwithin.some ((distinctKeys_object.1 (hslot _ rfl)).2 q hq) (hadmits.2 q hq).2
    | _ => exact absurd h (by simp)
  | contains e g ps ih => exact absurd hp.kind (by simp [isCompared])
  | optional e g p ih =>
    intro slot hslot hadmits
    obtain ⟨ce, cg, ck⟩ := c
    cases ck with
    | optional c =>
      simp only [admitsContent, admitsWith, Bool.or_eq_true] at hadmits ⊢
      exact hadmits.imp_right (ih (hp.child List.mem_cons_self) (hc.child List.mem_cons_self)
        (by simpa using h) slot hslot)
    | _ => exact absurd h (by simp)
  | nullable e g p ih =>
    intro slot hslot hadmits
    obtain ⟨ce, cg, ck⟩ := c
    cases ck with
    | nullable c =>
      simp only [admitsContent, admitsWith, Bool.or_eq_true] at hadmits ⊢
      exact hadmits.imp_right (ih (hp.child List.mem_cons_self) (hc.child List.mem_cons_self)
        (by simpa using h) slot hslot)
    | _ => exact absurd h (by simp)
  | oneOf e g pd ps default ih =>
    intro slot hslot hadmits
    obtain ⟨ce, cg, ck⟩ := c
    cases ck with
    | oneOf cd cs cdefault =>
      simp only [sameAdmits, Bool.and_eq_true, beq_iff_eq] at h
      obtain ⟨⟨rfl, hlen⟩, hsame⟩ := h
      rw [sameAlternatives_iff hlen] at hsame
      obtain ⟨v, rfl, p, hmem, hselected, hp'⟩ := admitsWith_oneOf.1 hadmits
      obtain ⟨q, hq, -, hsame⟩ := forall₂_left hsame hmem
      refine admitsWith_oneOf.2 ⟨v, rfl, q, hq, same_selected hsame hselected, ?_⟩
      exact ih p hmem (hp.child (List.mem_map_of_mem hmem)) (hc.child (List.mem_map_of_mem hq)) hsame _ hslot hp'
    | _ => exact absurd h (by simp)

end PactJanus.Subsumption.Identity
