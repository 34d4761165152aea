import PactJanus.Shape.Kinds

namespace PactJanus.Shape.Operators

open PactJanus.Data.Json PactJanus.Data.Equality PactJanus.Lib.Lists PactJanus.Shape.Model PactJanus.Shape.Valid
  PactJanus.Shape.Parse PactJanus.Shape.Documents PactJanus.Shape.Accepted
  PactJanus.Shape.MemberOrder PactJanus.Shape.Nested PactJanus.Shape.Kinds

/-! Each operator of the core is taken as what it stands for. -/

section Operators

variable {obj : List (String × Json)} {example? : Option Example} {path operator : String} {depth n n' : Nat}
  {kind : ShapeKind}

theorem takes_leaf (hleaf : isLeaf kind = true) (hn : n ≤ maxNodes) (hdepth : depth ≤ maxDepth)
    (hrep : RepresentsKind kind (.object obj)) (hvalid : nodeValid example? kind = true) :
    KindStands obj example? depth n kind n :=
  (kindStands_leaf hleaf hn hdepth).2 ⟨hrep, hvalid, rfl⟩

private theorem takes_temporal {k : TemporalKind} : Takes (parseTemporal obj path k) n kind n' ↔
    ∃ format : Option String, kind = .temporal k format ∧ obj.lookup "format" = format.map .string ∧ n' = n := by
  rw [parseTemporal, takes_wrapped]
  exact exists_congr fun format => and_congr_right fun _ => takes_optionalString

private theorem takes_cardinality {α : Type} {x : Parser α} {wrap : α → UInt64 → Option UInt64 → ShapeKind} :
    Takes (x >>= fun a => parseCardinality obj path >>= fun bounds => pure (wrap a bounds.1 bounds.2)) n kind n' ↔
      ∃ a min max, kind = wrap a min max ∧ Takes x n a n' ∧ CardinalityOf min max (.object obj) ∧
        (max.all fun m => min ≤ m) = true := by
  simp only [takes_bind]
  constructor
  · rintro ⟨a, m, hx, bounds, m', hbounds, hwrap⟩
    obtain ⟨hcard, hle, rfl⟩ := takes_parseCardinality.1 hbounds
    obtain ⟨rfl, rfl⟩ := takes_pure.1 hwrap
    exact ⟨a, bounds.1, bounds.2, rfl, hx, hcard, hle⟩
  · rintro ⟨a, min, max, rfl, hx, hcard, hle⟩
    exact ⟨a, n', hx, (min, max), n', takes_parseCardinality.2 ⟨hcard, hle, rfl⟩, takes_pure.2 ⟨rfl, rfl⟩⟩

section Each

variable (h : ParsesUnder obj) (hd : distinctKeys (.object obj) = true) (hn : n ≤ maxNodes) (hdepth : depth ≤ maxDepth)
include h

include hd hn hdepth in
private theorem takes_object :
    Takes (do return .object (← needed "members" operator path (← (within obj).members path depth))) n kind n' ↔
      ∃ members, kind = .object members ∧ KindStands obj example? depth n kind n' := by
  refine takes_then.trans ?_
  constructor
  · rintro ⟨nodes, m, hmembers, hkind⟩
    obtain ⟨members, hlookup, hrep, hfits, hcount, hwithin⟩ := (takes_neededMembers h hn).1 hmembers
    obtain ⟨rfl, rfl⟩ := takes_pure.1 hkind
    have hnames : (nodes.map Prod.fst).Nodup := by
      rw [names_of_represents hrep]
      exact (distinctKeys_object.1 ((distinctKeys_object.1 hd).2 _ (mem_of_lookup hlookup))).1
    exact ⟨nodes, rfl, ⟨members, hlookup, hrep⟩, decide_eq_true hnames,
      wellFormedMembers_iff.2 fun p hp => (hfits p hp).tree,
      depthMembers_le.2 ⟨hdepth, fun p hp => (hfits p hp).depth⟩, hcount, hwithin⟩
  · rintro ⟨nodes, rfl, ⟨members, hlookup, hrep⟩, -, hunder, hdeep, hcount, hwithin⟩
    have hfits (p : String × ShapeNode) (hp : p ∈ nodes) : Fits (depth + 1) p.2 :=
      ⟨wellFormedMembers_iff.1 hunder p hp, (depthMembers_le.1 hdeep).2 p hp⟩
    exact ⟨nodes, n', (takes_neededMembers h hn).2 ⟨members, hlookup, hrep, hfits, hcount, hwithin⟩,
      takes_pure.2 ⟨rfl, rfl⟩⟩

include hn hdepth in
private theorem takes_entries {wrap : List ShapeNode → ShapeKind} (hwrap : wrap = .array ∨ wrap = .contains) :
    Takes (do return wrap (← needed "entries" operator path (← (within obj).entries path depth))) n kind n' ↔
      ∃ entries, kind = wrap entries ∧ KindStands obj example? depth n kind n' := by
  refine takes_then.trans ?_
  constructor
  · rintro ⟨nodes, m, hentries, hkind⟩
    obtain ⟨items, hlookup, hall⟩ := (takes_neededEntries h hn).1 hentries
    obtain ⟨rfl, rfl⟩ := takes_pure.1 hkind
    obtain ⟨hrep, hvalid, hunder, hdeep, hcount, hwithin⟩ := (entries_stand hdepth).1 hall
    rcases hwrap with rfl | rfl <;>
      exact ⟨nodes, rfl, ⟨items, hlookup, hrep⟩, hvalid, hunder, hdeep, hcount, hwithin⟩
  · rintro ⟨nodes, rfl, hstands⟩
    have hall : ∃ items, obj.lookup "entries" = some (.array items) ∧ RepresentsEntries nodes items ∧
        (decide (nodes.length ≤ maxNodes) && nodes.all fun s => !admitsAbsent s) = true ∧
        wellFormedEntries nodes = true ∧ depth + depthEntries nodes ≤ maxDepth ∧
        n' = n + nodeCountEntries nodes ∧ n' ≤ maxNodes := by
      rcases hwrap with rfl | rfl <;>
        obtain ⟨⟨items, hlookup, hrep⟩, hvalid, hunder, hdeep, hcount, hwithin⟩ := hstands <;>
        exact ⟨items, hlookup, hrep, hvalid, hunder, hdeep, hcount, hwithin⟩
    obtain ⟨items, hlookup, hall⟩ := hall
    exact ⟨nodes, n', (takes_neededEntries h hn).2 ⟨items, hlookup, (entries_stand hdepth).2 hall⟩,
      takes_pure.2 ⟨rfl, rfl⟩⟩

private theorem takes_eachLike :
    Takes (requireChild (within obj) path depth "items" operator >>= fun items =>
        parseCardinality obj path >>= fun bounds => pure (.eachLike items bounds.1 bounds.2)) n kind n' ↔
      ∃ items min max, kind = .eachLike items min max ∧ KindStands obj example? depth n kind n' := by
  rw [takes_cardinality]
  refine exists₃_congr fun items min max => and_congr_right ?_
  rintro rfl
  rw [takes_requireChild h]
  constructor
  · rintro ⟨⟨v, hlookup, hstands⟩, hcard, hle⟩
    have hdeep := hstands.fits.depth
    refine ⟨⟨⟨v, hlookup, hstands.represents⟩, hcard⟩, ?_, hstands.fits.tree, ?_, hstands.counted, hstands.within⟩
    · rw [nodeValid, hle, hstands.absence rfl]
      rfl
    · rw [depthKind]
      omega
  · rintro ⟨⟨⟨v, hlookup, hrep⟩, hcard⟩, hvalid, hunder, hdeep, hcount, hwithin⟩
    rw [nodeValid, Bool.and_eq_true, Bool.not_eq_true'] at hvalid
    rw [depthKind] at hdeep
    exact ⟨⟨v, hlookup, hrep, ⟨hunder, by omega⟩, fun _ => hvalid.2, hcount, hwithin⟩, hcard, hvalid.1⟩

private theorem takes_of {wrap : ShapeNode → ShapeKind} {x : Parser ShapeKind} {fine : ShapeNode → Prop}
    (hx : Takes x n kind n' ↔
      ∃ of, kind = wrap of ∧ fine of ∧ Takes (requireChild (within obj) path depth "of" operator) n of n')
    (hwrap : ∀ of, (RepresentsKind (wrap of) (.object obj) ↔ ∃ v, obj.lookup "of" = some v ∧ Represents of v) ∧
      (nodeValid example? (wrap of) = true ↔ admitsAbsent of = false ∧ fine of) ∧
      wellFormedKind (wrap of) = wellFormed of ∧ depthKind (wrap of) = Valid.depth of + 1 ∧
      nodeCountKind (wrap of) = nodeCount of) :
    Takes x n kind n' ↔ ∃ of, kind = wrap of ∧ KindStands obj example? depth n kind n' := by
  rw [hx]
  refine exists_congr fun of => and_congr_right ?_
  rintro rfl
  obtain ⟨hrep, hvalid, htree, hdeep, hcount⟩ := hwrap of
  rw [takes_requireChild h]
  constructor
  · rintro ⟨hfine, v, hlookup, hstands⟩
    have hdepth := hstands.fits.depth
    exact ⟨hrep.2 ⟨v, hlookup, hstands.represents⟩, hvalid.2 ⟨hstands.absence rfl, hfine⟩, htree ▸ hstands.fits.tree,
      by omega, by rw [hcount, hstands.counted], hstands.within⟩
  · rintro ⟨hkind, hnode, hunder, hlimit, hcounted, hwithin⟩
    obtain ⟨v, hlookup, hv⟩ := hrep.1 hkind
    obtain ⟨habsent, hfine⟩ := hvalid.1 hnode
    exact ⟨hfine, v, hlookup, hv, ⟨htree ▸ hunder, by omega⟩, fun _ => habsent, by rw [hcounted, hcount], hwithin⟩

private theorem takes_optional :
    Takes (do return .optional (← requireChild (within obj) path depth "of" operator)) n kind n' ↔
      ∃ of, kind = .optional of ∧ KindStands obj example? depth n kind n' := by
  have htakes : Takes (do return .optional (← requireChild (within obj) path depth "of" operator)) n kind n' ↔
      ∃ of, kind = .optional of ∧ True ∧ Takes (requireChild (within obj) path depth "of" operator) n of n' := by
    simp only [true_and]
    exact takes_wrapped
  refine takes_of h htakes fun of => ⟨Iff.rfl, ?_, rfl, rfl, rfl⟩
  simp [nodeValid]

private theorem takes_nullable :
    Takes (parseNullable (within obj) path depth) n kind n' ↔
      ∃ of, kind = .nullable of ∧ KindStands obj example? depth n kind n' := by
  have htakes : Takes (parseNullable (within obj) path depth) n kind n' ↔ ∃ of, kind = .nullable of ∧
      ¬isNullable of = true ∧ Takes (requireChild (within obj) path depth "of" "nullable") n of n' := by
    rw [parseNullable, takes_bind]
    constructor
    · rintro ⟨of, m, hof, hrest⟩
      obtain ⟨hfine, hkind⟩ := takes_check.1 hrest
      obtain ⟨rfl, rfl⟩ := takes_pure.1 hkind
      exact ⟨of, rfl, hfine, hof⟩
    · rintro ⟨of, rfl, hfine, hof⟩
      exact ⟨of, n', hof, takes_check.2 ⟨hfine, takes_pure.2 ⟨rfl, rfl⟩⟩⟩
  refine takes_of h htakes fun of => ⟨Iff.rfl, ?_, rfl, rfl, rfl⟩
  obtain ⟨e, g, k⟩ := of
  cases k <;> simp [nodeValid, isNullable]

/-- The keys of an each-entry, which need not be there. -/
private theorem takes_keys {o : Option (Option ShapeNode)} (hn : n ≤ maxNodes) (hdepth : depth + 1 ≤ maxDepth) :
    Takes ((within obj).child "keys" path (depth + 1)).attempt n o n' ↔
      ∃ keys, o = some keys ∧ RepresentsKeys keys (obj.lookup "keys") ∧
        (keys.all fun s => !admitsAbsent s) = true ∧ wellFormedKeys keys = true ∧
        depth + depthKeys keys ≤ maxDepth ∧ n' = n + nodeCountKeys keys ∧ n' ≤ maxNodes := by
  rw [takes_attempt]
  refine exists_congr fun keys => and_congr_right fun _ => ?_
  rw [takes_child h]
  constructor
  · rintro (⟨hnone, rfl, rfl⟩ | ⟨v, node, hlookup, rfl, hstands⟩)
    · rw [hnone]
      exact ⟨trivial, rfl, rfl, Nat.le_of_succ_le hdepth, rfl, hn⟩
    · have hdeep := hstands.fits.depth
      rw [hlookup]
      refine ⟨hstands.represents, ?_, hstands.fits.tree, ?_, hstands.counted, hstands.within⟩
      · rw [Option.all_some, hstands.absence rfl]
        rfl
      · rw [depthKeys]
        omega
  · rintro ⟨hrep, habsent, htree, hdeep, hcount, hwithin⟩
    cases keys with
    | none =>
      cases hlookup : obj.lookup "keys" with
      | none => exact Or.inl ⟨rfl, rfl, hcount⟩
      | some v =>
        rw [hlookup] at hrep
        exact hrep.elim
    | some node =>
      cases hlookup : obj.lookup "keys" with
      | none =>
        rw [hlookup] at hrep
        exact hrep.elim
      | some v =>
        rw [hlookup] at hrep
        rw [depthKeys] at hdeep
        refine Or.inr ⟨v, node, rfl, rfl, hrep, ⟨htree, by omega⟩, fun _ => ?_, hcount, hwithin⟩
        simpa using habsent

private theorem takes_eachEntry :
    Takes (do
      let values ← requireChild (within obj) path depth "values" operator
      let keys ← ((within obj).child "keys" (path ++ "/keys") (depth + 1)).attempt
      let (min, max) ← parseCardinality obj path
      return .eachEntry keys.join values min max) n kind n' ↔
      ∃ keys values min max, kind = .eachEntry keys values min max ∧ KindStands obj example? depth n kind n' := by
  rw [takes_bind]
  constructor
  · rintro ⟨values, m, hvalues, hrest⟩
    obtain ⟨v, hlookup, hstands⟩ := (takes_requireChild h).1 hvalues
    obtain ⟨o, m', hkeys, hrest⟩ := takes_bind.1 hrest
    have hdeep := hstands.fits.depth
    obtain ⟨keys, rfl, hrep, habsent, htree, hdeepest, hcount, hwithin⟩ :=
      (takes_keys h hstands.within (by omega)).1 hkeys
    obtain ⟨bounds, m'', hbounds, hkind⟩ := takes_bind.1 hrest
    obtain ⟨hcard, hle, rfl⟩ := takes_parseCardinality.1 hbounds
    obtain ⟨rfl, rfl⟩ := takes_pure.1 hkind
    refine ⟨keys, values, bounds.1, bounds.2, rfl, ⟨⟨v, hlookup, hstands.represents⟩, hrep, hcard⟩, ?_, ?_, ?_, ?_,
      hwithin⟩
    · show ((bounds.2.all fun m => bounds.1 ≤ m) && keys.all (fun s => !admitsAbsent s) && !admitsAbsent values) = true
      rw [hle, habsent, hstands.absence rfl]
      rfl
    · show (wellFormedKeys keys && wellFormed values) = true
      rw [htree, hstands.fits.tree]
      rfl
    · show depth + max (depthKeys keys) (Valid.depth values + 1) ≤ maxDepth
      omega
    · show n' = n + (nodeCountKeys keys + nodeCount values)
      rw [hcount, hstands.counted]
      omega
  · rintro ⟨keys, values, min, max, rfl, ⟨⟨v, hlookup, hrep⟩, hkeys, hcard⟩, hvalid, hunder, hdeep, hcount, hwithin⟩
    simp only [nodeValid, Bool.and_eq_true, Bool.not_eq_true'] at hvalid
    obtain ⟨⟨hle, hpresent⟩, habsent⟩ := hvalid
    obtain ⟨htrees, htree⟩ := Bool.and_eq_true_iff.1 hunder
    rw [depthKind] at hdeep
    rw [nodeCountKind] at hcount
    have hstands : Stands .notASlot (depth + 1) v n values (n + nodeCount values) :=
      ⟨hrep, ⟨htree, by omega⟩, fun _ => habsent, rfl, by omega⟩
    refine ⟨values, _, (takes_requireChild h).2 ⟨v, hlookup, hstands⟩, ?_⟩
    refine takes_bind.2 ⟨some keys, n', (takes_keys h hstands.within (by omega)).2
      ⟨keys, rfl, hkeys, hpresent, htrees, by omega, by omega, hwithin⟩, ?_⟩
    exact takes_bind.2 ⟨(min, max), n', takes_parseCardinality.2 ⟨hcard, hle, rfl⟩, takes_pure.2 ⟨rfl, rfl⟩⟩

include hd hn hdepth in
private theorem takes_oneOf :
    Takes (parseOneOf obj (within obj) path depth) n kind n' ↔
      ∃ discriminator alternatives default, kind = .oneOf discriminator alternatives default ∧
        KindStands obj example? depth n kind n' := by
  have hnames {documents : List (String × Json)} (hlookup : obj.lookup "alternatives" = some (.object documents)) :
      (documents.map Prod.fst).Nodup :=
    (distinctKeys_object.1 ((distinctKeys_object.1 hd).2 _ (mem_of_lookup hlookup))).1
  have hnamed (nodes : List (String × ShapeNode)) (default : Option String) :
      (default.all fun name => name ∈ (membersByName nodes).map Prod.fst) =
        default.all fun name => name ∈ nodes.map Prod.fst := by
    simp only [((membersByName_perm nodes).map Prod.fst).mem_iff]
  rw [parseOneOf, takes_bind]
  constructor
  · rintro ⟨discriminator, m, hdiscriminator, hfinding⟩
    obtain ⟨hlookup, rfl⟩ := takes_requireString.1 hdiscriminator
    obtain ⟨⟨nodes, sets⟩, m₁, hfound, hchecking⟩ := takes_then.1 hfinding
    obtain ⟨documents, hdocuments, hmany, hrep, hall, rfl, hcount, hwithin⟩ := (takes_neededAlternatives h hn).1 hfound
    obtain ⟨u, m₂, hdisjoint, hnaming⟩ := takes_bind.1 hchecking
    obtain ⟨-, hapart, rfl⟩ := takes_checkDisjoint.1 hdisjoint
    obtain ⟨default, m₃, hdefault, hkind⟩ := takes_bind.1 hnaming
    obtain ⟨hgiven, hexists, rfl⟩ := takes_parseDefault.1 hdefault
    obtain ⟨rfl, rfl⟩ := takes_pure.1 hkind
    obtain ⟨hwritten, hvalid, hunder, hdeep, hcounted, -⟩ := (alternatives_stand (hnames hdocuments) hdepth).1
      ⟨nodes, rfl, hmany, hrep, hall, hapart, hcount, hwithin⟩
    obtain ⟨written, hperm, hrepresents⟩ := hwritten
    refine ⟨discriminator, membersByName nodes, default, rfl,
      ⟨hlookup, ⟨documents, written, hdocuments, hperm, hrepresents⟩, hgiven⟩, ?_, hunder, hdeep, hcounted, hwithin⟩
    rw [nodeValid, hvalid, hnamed, hexists]
    rfl
  · rintro ⟨discriminator, alternatives, default, rfl, ⟨hlookup, ⟨documents, written, hdocuments, hperm, hrep⟩, hgiven⟩,
      hvalid, hunder, hdeep, hcount, hwithin⟩
    rw [nodeValid, Bool.and_eq_true] at hvalid
    obtain ⟨nodes, rfl, hmany, hnodes, hall, hapart, hcounted, -⟩ := (alternatives_stand (hnames hdocuments) hdepth).2
      ⟨⟨written, hperm, hrep⟩, hvalid.1, hunder, hdeep, hcount, hwithin⟩
    rw [hnamed] at hvalid
    refine ⟨discriminator, n, takes_requireString.2 ⟨hlookup, rfl⟩,
      takes_then.2 ⟨(nodes, literalSets discriminator nodes), n', (takes_neededAlternatives h hn).2
        ⟨documents, hdocuments, hmany, hnodes, hall, rfl, hcounted, hwithin⟩, ?_⟩⟩
    have hdisjoint : Takes (checkDisjoint path [] (literalSets discriminator nodes)) n' () n' :=
      takes_checkDisjoint.2 ⟨fun _ _ _ h => (by cases h), hapart, rfl⟩
    exact takes_bind.2 ⟨(), n', hdisjoint, takes_bind.2 ⟨default, n', takes_parseDefault.2 ⟨hgiven, hvalid.2, rfl⟩,
      takes_pure.2 ⟨rfl, rfl⟩⟩⟩

include hd hn hdepth in
omit h in
private theorem takes_anyOf :
    Takes (parseAnyOf obj example? path) n kind n' ↔
      ∃ options, kind = .anyOf options ∧ KindStands obj example? depth n kind n' := by
  rw [takes_parseAnyOf]
  refine exists_congr fun options => and_congr_right ?_
  rintro rfl
  rw [kindStands_leaf rfl hn hdepth]
  have hdistinct (hlookup : obj.lookup "options" = some (.array options)) : options.all distinctKeys = true :=
    List.all_eq_true.2 (distinctKeysAll_iff.1 ((distinctKeys_object.1 hd).2 _ (mem_of_lookup hlookup)))
  simp only [nodeValid, Bool.and_eq_true, Bool.not_eq_true']
  constructor
  · rintro ⟨hlookup, hnonempty, hpair, hin, hcount⟩
    exact ⟨hlookup, ⟨⟨⟨hnonempty, hdistinct hlookup⟩, hpair⟩, hin⟩, hcount⟩
  · rintro ⟨hlookup, ⟨⟨⟨hnonempty, -⟩, hpair⟩, hin⟩, hcount⟩
    exact ⟨hlookup, hnonempty, hpair, hin, hcount⟩

end Each

/-- A kind that is not a component's. -/
def isCore : ShapeKind → Bool
  | .component .. => false
  | _ => true

section Core

variable (h : ParsesUnder obj) (hd : distinctKeys (.object obj) = true) (hn : n ≤ maxNodes) (hdepth : depth ≤ maxDepth)
include h hd hn hdepth

theorem core_sound (ht : Takes (parseCore obj (within obj) path depth operator example?) n kind n') :
    operatorName kind = operator ∧ isCore kind = true ∧ KindStands obj example? depth n kind n' := by
  unfold parseCore at ht
  split at ht
  case h_1 | h_4 | h_5 | h_6 | h_7 | h_8 | h_9 | h_10 | h_17 | h_24 =>
    obtain ⟨rfl, rfl⟩ := takes_pure.1 ht
    exact ⟨rfl, rfl, takes_leaf rfl hn hdepth trivial rfl⟩
  case h_2 | h_3 =>
    obtain ⟨u, m, hexample, hkind⟩ := takes_bind.1 ht
    obtain ⟨hsome, rfl⟩ := takes_requireExample.1 hexample
    obtain ⟨rfl, rfl⟩ := takes_pure.1 hkind
    exact ⟨rfl, rfl, takes_leaf rfl hn hdepth trivial hsome⟩
  case h_11 | h_15 | h_16 =>
    obtain ⟨text, rfl, htext⟩ := takes_wrapped.1 ht
    obtain ⟨hlookup, rfl⟩ := takes_requireString.1 htext
    exact ⟨rfl, rfl, takes_leaf rfl hn hdepth hlookup rfl⟩
  case h_12 | h_13 | h_14 =>
    obtain ⟨format, rfl, hlookup, rfl⟩ := takes_temporal.1 ht
    exact ⟨rfl, rfl, takes_leaf rfl hn hdepth hlookup rfl⟩
  case h_18 =>
    obtain ⟨members, rfl, hstands⟩ := (takes_object h hd hn hdepth).1 ht
    exact ⟨rfl, rfl, hstands⟩
  case h_19 =>
    obtain ⟨entries, rfl, hstands⟩ := (takes_entries h hn hdepth (Or.inl rfl)).1 ht
    exact ⟨rfl, rfl, hstands⟩
  case h_20 =>
    obtain ⟨entries, rfl, hstands⟩ := (takes_entries h hn hdepth (Or.inr rfl)).1 ht
    exact ⟨rfl, rfl, hstands⟩
  case h_21 =>
    obtain ⟨items, min, max, rfl, hstands⟩ := (takes_eachLike h).1 ht
    exact ⟨rfl, rfl, hstands⟩
  case h_22 =>
    obtain ⟨keys, values, min, max, rfl, hstands⟩ := (takes_eachEntry h).1 ht
    exact ⟨rfl, rfl, hstands⟩
  case h_23 =>
    obtain ⟨of, rfl, hstands⟩ := (takes_optional h).1 ht
    exact ⟨rfl, rfl, hstands⟩
  case h_25 =>
    obtain ⟨of, rfl, hstands⟩ := (takes_nullable h).1 ht
    exact ⟨rfl, rfl, hstands⟩
  case h_26 =>
    obtain ⟨options, rfl, hstands⟩ := (takes_anyOf hd hn hdepth).1 ht
    exact ⟨rfl, rfl, hstands⟩
  case h_27 =>
    obtain ⟨discriminator, alternatives, default, rfl, hstands⟩ := (takes_oneOf h hd hn hdepth).1 ht
    exact ⟨rfl, rfl, hstands⟩
  case h_28 => exact absurd ht takes_fail

theorem core_complete (hcore : isCore kind = true) (hstands : KindStands obj example? depth n kind n') :
    Takes (parseCore obj (within obj) path depth (operatorName kind) example?) n kind n' := by
  cases kind with
  | component => exact nomatch hcore
  | any | notEmpty | semver | forbidden =>
    obtain ⟨-, -, rfl⟩ := (kindStands_leaf rfl hn hdepth).1 hstands
    exact takes_pure.2 ⟨rfl, rfl⟩
  | equality | type =>
    obtain ⟨-, hvalid, rfl⟩ := (kindStands_leaf rfl hn hdepth).1 hstands
    exact takes_bind.2 ⟨(), n', takes_requireExample.2 ⟨hvalid, rfl⟩, takes_pure.2 ⟨rfl, rfl⟩⟩
  | kind k =>
    obtain ⟨-, -, rfl⟩ := (kindStands_leaf rfl hn hdepth).1 hstands
    cases k <;> exact takes_pure.2 ⟨rfl, rfl⟩
  | regex text | includes text | contentType text =>
    obtain ⟨hlookup, -, rfl⟩ := (kindStands_leaf rfl hn hdepth).1 hstands
    exact takes_wrapped.2 ⟨text, rfl, takes_requireString.2 ⟨hlookup, rfl⟩⟩
  | temporal k format =>
    obtain ⟨hlookup, -, rfl⟩ := (kindStands_leaf rfl hn hdepth).1 hstands
    cases k <;> exact takes_temporal.2 ⟨format, rfl, hlookup, rfl⟩
  | object members => exact (takes_object h hd hn hdepth).2 ⟨members, rfl, hstands⟩
  | array entries => exact (takes_entries h hn hdepth (Or.inl rfl)).2 ⟨entries, rfl, hstands⟩
  | contains entries => exact (takes_entries h hn hdepth (Or.inr rfl)).2 ⟨entries, rfl, hstands⟩
  | eachLike items min max => exact (takes_eachLike h).2 ⟨items, min, max, rfl, hstands⟩
  | eachEntry keys values min max => exact (takes_eachEntry h).2 ⟨keys, values, min, max, rfl, hstands⟩
  | optional of => exact (takes_optional h).2 ⟨of, rfl, hstands⟩
  | nullable of => exact (takes_nullable h).2 ⟨of, rfl, hstands⟩
  | anyOf options => exact (takes_anyOf hd hn hdepth).2 ⟨options, rfl, hstands⟩
  | oneOf discriminator alternatives default =>
    exact (takes_oneOf h hd hn hdepth).2 ⟨discriminator, alternatives, default, rfl, hstands⟩

end Core

end Operators

end PactJanus.Shape.Operators
