import PactJanus.Lib.Lists
import PactJanus.Shape.Documents

namespace PactJanus.Shape.Accepted

open PactJanus.Data.Json PactJanus.Lib.Lists PactJanus.Lib.Reporting PactJanus.Shape.Model PactJanus.Shape.Valid
  PactJanus.Shape.Parse PactJanus.Shape.Documents

/-! What the parser takes: what it comes to, and at how many nodes, where it has nothing to report. -/

section

variable {α β : Type} {x : Parser α} {f : α → Parser β} {n n' : Nat} {a : α} {b : β}

/-- The parser with nothing reported yet. -/
def clear (n : Nat) : Budget := ⟨n, false, [], not_reported⟩

theorem not_failed {budget : Budget} : ¬Failed budget ↔ ∃ n, budget = clear n := by
  constructor
  · intro h
    obtain ⟨n, limitReported, problems, hlimit⟩ := budget
    obtain rfl : problems = [] := by simpa [Failed] using h
    cases limitReported with
    | false => exact ⟨n, rfl⟩
    | true => exact absurd rfl (hlimit rfl)
  · rintro ⟨n, rfl⟩
    simp [Failed, clear]

/-- From one number of nodes to another, with nothing reported. -/
def Takes (x : Parser α) (n : Nat) (a : α) (n' : Nat) : Prop := x.Accepts (clear n) a (clear n')

private theorem clear_inj : clear n = clear n' ↔ n = n' := by simp [clear]

theorem takes_pure {a' : α} : Takes (pure a) n a' n' ↔ a' = a ∧ n' = n := by
  rw [Takes, Reporter.accepts_pure, clear_inj, and_iff_left (not_failed.2 ⟨n, rfl⟩)]

theorem takes_bind : Takes (x >>= f) n b n' ↔ ∃ a m, Takes x n a m ∧ Takes (f a) m b n' := by
  rw [Takes, Reporter.accepts_bind]
  constructor
  · rintro ⟨a, s, hx, hf⟩
    obtain ⟨m, rfl⟩ := not_failed.1 hx.2
    exact ⟨a, m, hx, hf⟩
  · rintro ⟨a, m, hx, hf⟩
    exact ⟨a, clear m, hx, hf⟩

theorem takes_then {γ : Type} {g : β → Parser γ} {c : γ} :
    Takes (x >>= fun a => f a >>= g) n c n' ↔ ∃ b m, Takes (x >>= f) n b m ∧ Takes (g b) m c n' := by
  simp only [takes_bind]
  constructor
  · rintro ⟨a, m, hx, b, m', hf, hg⟩
    exact ⟨b, m', ⟨a, m, hx, hf⟩, hg⟩
  · rintro ⟨b, m', ⟨a, m, hx, hf⟩, hg⟩
    exact ⟨a, m, hx, b, m', hf, hg⟩

theorem takes_wrapped {wrap : α → β} :
    Takes (x >>= fun a => pure (wrap a)) n b n' ↔ ∃ a, b = wrap a ∧ Takes x n a n' := by
  rw [takes_bind]
  constructor
  · rintro ⟨a, m, hx, hwrap⟩
    obtain ⟨rfl, rfl⟩ := takes_pure.1 hwrap
    exact ⟨a, rfl, hx⟩
  · rintro ⟨a, rfl, hx⟩
    exact ⟨a, n', hx, takes_pure.2 ⟨rfl, rfl⟩⟩

theorem takes_attempt {o : Option α} : Takes x.attempt n o n' ↔ ∃ a, o = some a ∧ Takes x n a n' :=
  Reporter.accepts_attempt

theorem takes_fail {pointer message : String} : ¬Takes (fail pointer message : Parser α) n a n' :=
  Reporter.not_accepts_fail

theorem takes_report {pointer message : String} {u : Unit} : ¬Takes (report pointer message) n u n' :=
  Reporter.not_accepts_report

/-- A check lets through what it has nothing to report of. -/
theorem takes_check {bad : Prop} [Decidable bad] {pointer message : String} {f : Unit → Parser α} :
    Takes (if bad then report pointer message >>= f else f ()) n a n' ↔ ¬bad ∧ Takes (f ()) n a n' := by
  by_cases h : bad
  · rw [if_pos h, takes_bind]
    exact iff_of_false (fun ⟨_, _, hreport, _⟩ => takes_report hreport) fun hb => hb.1 h
  · rw [if_neg h]
    exact (and_iff_right h).symm

theorem takes_enter {depth : Nat} {path : String} {u : Unit} :
    Takes (enter depth path) n u n' ↔ depth ≤ maxDepth ∧ n + 1 ≤ maxNodes ∧ n' = n + 1 := by
  have hrun : (enter depth path).run (clear n) =
      if maxDepth < depth ∨ maxNodes < n + 1 then (none, (clear (n + 1)).reportLimit path)
      else (some (), clear (n + 1)) := rfl
  rw [Takes, Reporter.Accepts, and_iff_left (not_failed.2 ⟨n', rfl⟩), hrun]
  by_cases h : maxDepth < depth ∨ maxNodes < n + 1
  · rw [if_pos h]
    refine iff_of_false (fun hnone => absurd (Prod.mk.inj hnone).1 (by simp)) ?_
    omega
  · rw [if_neg h, Prod.mk_right_inj, clear_inj]
    omega

/-- What was found where something must be. -/
theorem takes_needed {member operator path : String} {found : Option α} :
    Takes (needed member operator path found) n a n' ↔ found = some a ∧ n' = n := by
  cases found with
  | none => exact iff_of_false takes_fail (by simp)
  | some b =>
    rw [needed, takes_pure, Option.some_inj]
    exact and_congr_left fun _ => eq_comm

end

/-! The members of a node that are not nodes. -/

section Members

variable {obj : List (String × Json)} {member operator path : String} {n n' : Nat}

theorem takes_parseExample {example? : Option Example} :
    Takes (parseExample obj path) n example? n' ↔ ExampleOf example? (.object obj) ∧ n' = n := by
  unfold parseExample ExampleOf
  cases hvalue : obj.lookup "example" with
  | none =>
    simp only [takes_pure]
    cases example? <;> simp [Data.Json.get, hvalue]
  | some value =>
    cases htag : obj.lookup "encoded" with
    | none =>
      simp only [takes_pure]
      cases example? with
      | none => simp [Data.Json.get, hvalue]
      | some e =>
        obtain ⟨v, tag⟩ := e
        cases tag <;> simp [Data.Json.get, hvalue, htag, eq_comm]
    | some tagged =>
      cases tagged with
      | string tag =>
        simp only [takes_pure]
        cases example? with
        | none => simp [Data.Json.get, hvalue]
        | some e =>
          obtain ⟨v, tag'⟩ := e
          cases tag' <;> simp [Data.Json.get, hvalue, htag, eq_comm]
      | _ =>
        refine iff_of_false takes_fail ?_
        cases example? with
        | none => simp [Data.Json.get, hvalue]
        | some e =>
          obtain ⟨v, tag⟩ := e
          cases tag <;> simp [Data.Json.get, htag]

theorem takes_require {value : Json} :
    Takes (require obj member operator path) n value n' ↔ obj.lookup member = some value ∧ n' = n := by
  unfold require
  cases obj.lookup member with
  | none => exact iff_of_false takes_fail (by simp)
  | some v =>
    simp only [takes_pure, Option.some_inj]
    exact and_congr_left fun _ => eq_comm

theorem takes_requireString {text : String} :
    Takes (requireString obj member operator path) n text n' ↔ obj.lookup member = some (.string text) ∧ n' = n := by
  rw [requireString, takes_bind]
  constructor
  · rintro ⟨value, m, hvalue, hrest⟩
    obtain ⟨hlookup, rfl⟩ := takes_require.1 hvalue
    cases value with
    | string s =>
      obtain ⟨rfl, rfl⟩ := takes_pure.1 hrest
      exact ⟨hlookup, rfl⟩
    | _ => exact absurd hrest takes_fail
  · rintro ⟨hlookup, rfl⟩
    exact ⟨.string text, n', takes_require.2 ⟨hlookup, rfl⟩, takes_pure.2 ⟨rfl, rfl⟩⟩

theorem takes_requireExample {example? : Option Example} {u : Unit} :
    Takes (requireExample operator example? path) n u n' ↔ example?.isSome = true ∧ n' = n := by
  unfold requireExample
  cases example? with
  | none => exact iff_of_false takes_report (by simp)
  | some e => exact takes_pure.trans (by simp)

theorem takes_optionalString {text : Option String} :
    Takes (optionalString obj member path) n text n' ↔ obj.lookup member = text.map .string ∧ n' = n := by
  unfold optionalString
  cases obj.lookup member with
  | none =>
    simp only [takes_pure]
    cases text <;> simp
  | some value =>
    cases value with
    | string s =>
      simp only [takes_pure]
      cases text <;> simp [eq_comm]
    | _ =>
      refine iff_of_false ?_ (by cases text <;> simp)
      rw [takes_bind]
      rintro ⟨u, m, hreport, -⟩
      exact takes_report hreport

private theorem asUnsigned_eq_some {value : Json} {k : UInt64} : asUnsigned value = some k ↔ value = unsigned k := by
  cases value with
  | number x => cases x <;> simp [asUnsigned, unsigned]
  | _ => simp [asUnsigned, unsigned]

theorem takes_unsignedMember {k : Option UInt64} :
    Takes (unsignedMember obj member path) n k n' ↔ obj.lookup member = k.map unsigned ∧ n' = n := by
  unfold unsignedMember
  cases obj.lookup member with
  | none =>
    simp only [takes_pure]
    cases k <;> simp
  | some value =>
    simp only
    cases hvalue : asUnsigned value with
    | none =>
      refine iff_of_false takes_fail ?_
      rintro ⟨heq, -⟩
      cases k with
      | none => exact absurd heq (by simp)
      | some k => rw [asUnsigned_eq_some.2 (Option.some.inj heq)] at hvalue; exact absurd hvalue (by simp)
    | some given =>
      obtain rfl := asUnsigned_eq_some.1 hvalue
      simp only [takes_pure]
      cases k <;> simp [unsigned, eq_comm]

theorem takes_parseCardinality {bounds : UInt64 × Option UInt64} :
    Takes (parseCardinality obj path) n bounds n' ↔
      CardinalityOf bounds.1 bounds.2 (.object obj) ∧ (bounds.2.all fun m => bounds.1 ≤ m) = true ∧ n' = n := by
  rw [parseCardinality, takes_bind]
  constructor
  · rintro ⟨given, m, hmin, hrest⟩
    obtain ⟨hgiven, rfl⟩ := takes_unsignedMember.1 hmin
    obtain ⟨max, m, hmost, hrest⟩ := takes_bind.1 hrest
    obtain ⟨hmax, rfl⟩ := takes_unsignedMember.1 hmost
    cases max with
    | none =>
      obtain ⟨rfl, rfl⟩ := takes_pure.1 hrest
      exact ⟨⟨⟨given, hgiven, rfl⟩, hmax⟩, rfl, rfl⟩
    | some most =>
      simp only at hrest
      split at hrest
      · exact absurd hrest takes_fail
      · rename_i hle
        obtain ⟨rfl, rfl⟩ := takes_pure.1 hrest
        exact ⟨⟨⟨given, hgiven, rfl⟩, hmax⟩, by simpa using hle, rfl⟩
  · rintro ⟨⟨⟨given, hgiven, hmin⟩, hmax⟩, hle, rfl⟩
    obtain ⟨min, max⟩ := bounds
    obtain rfl : min = given.getD 1 := hmin
    refine ⟨given, n', takes_unsignedMember.2 ⟨hgiven, rfl⟩, ?_⟩
    refine takes_bind.2 ⟨max, n', takes_unsignedMember.2 ⟨hmax, rfl⟩, ?_⟩
    cases max with
    | none => exact takes_pure.2 ⟨rfl, rfl⟩
    | some most =>
      have hnot : ¬most < given.getD 1 := by simpa using hle
      simp only [if_neg hnot]
      exact takes_pure.2 ⟨rfl, rfl⟩

theorem takes_checkDistinct {options earlier : List Json} {index : Nat} {u : Unit} :
    Takes (checkDistinct path earlier options index) n u n' ↔
      (∀ o ∈ options, earlier.any (valuesEqual o) = false) ∧
        pairwise (fun a b => !valuesEqual b a) options = true ∧ n' = n := by
  induction options generalizing earlier index n with
  | nil => simp [checkDistinct, takes_pure, pairwise]
  | cons o rest ih =>
    rw [checkDistinct, takes_check, ih, List.forall_mem_cons, pairwise, Bool.and_eq_true, List.all_eq_true]
    simp only [List.any_append, List.any_cons, List.any_nil, Bool.or_false, Bool.or_eq_false_iff, Bool.not_eq_true,
      Bool.not_eq_true', forall_and]
    tauto

theorem takes_parseAnyOf {example? : Option Example} {kind : ShapeKind} :
    Takes (parseAnyOf obj example? path) n kind n' ↔
      ∃ options, kind = .anyOf options ∧ obj.lookup "options" = some (.array options) ∧ options.isEmpty = false ∧
        pairwise (fun a b => !valuesEqual b a) options = true ∧
        (example?.all fun e => options.any (valuesEqual · e.value)) = true ∧ n' = n := by
  have hexample (options : List Json) : ¬(example?.any fun e => !options.any (valuesEqual · e.value)) = true ↔
      (example?.all fun e => options.any (valuesEqual · e.value)) = true := by
    cases example? <;> simp
  rw [parseAnyOf, takes_bind]
  constructor
  · rintro ⟨value, m, hvalue, hrest⟩
    obtain ⟨hlookup, rfl⟩ := takes_require.1 hvalue
    cases value with
    | array options =>
      simp only at hrest
      split at hrest
      · exact absurd hrest takes_fail
      · rename_i hnonempty
        obtain ⟨u, m, hdistinct, hthen⟩ := takes_bind.1 hrest
        obtain ⟨-, hpair, rfl⟩ := takes_checkDistinct.1 hdistinct
        obtain ⟨hin, hkind⟩ := takes_check.1 hthen
        obtain ⟨rfl, rfl⟩ := takes_pure.1 hkind
        exact ⟨options, rfl, hlookup, by simpa using hnonempty, hpair, (hexample options).1 hin, rfl⟩
    | _ => exact absurd hrest takes_fail
  · rintro ⟨options, rfl, hlookup, hnonempty, hpair, hin, rfl⟩
    refine ⟨.array options, n', takes_require.2 ⟨hlookup, rfl⟩, ?_⟩
    simp only [hnonempty, Bool.false_eq_true, if_false]
    have hdistinct : Takes (checkDistinct path [] options 0) n' () n' :=
      takes_checkDistinct.2 ⟨fun _ _ => rfl, hpair, rfl⟩
    exact takes_bind.2 ⟨(), n', hdistinct, takes_check.2 ⟨(hexample options).2 hin, takes_pure.2 ⟨rfl, rfl⟩⟩⟩

theorem wellFormed_unwrapped {node : ShapeNode} (hnode : wellFormed node = true)
    {members : List (String × ShapeNode)} (hmembers : unwrapObjectMembers node = some members)
    {p : String × ShapeNode} (hp : p ∈ members) : wellFormed p.2 = true := by
  obtain ⟨e, g, k⟩ := node
  cases k with
  | object ms =>
    obtain rfl := Option.some.inj hmembers
    exact wellFormedMembers_iff.1 (wellFormed_mk.1 hnode).2.2 p hp
  | nullable of =>
    obtain ⟨e', g', k'⟩ := of
    cases k' with
    | object ms =>
      obtain rfl := Option.some.inj hmembers
      have hof : wellFormed ⟨e', g', .object ms⟩ = true := (wellFormed_mk.1 hnode).2.2
      exact wellFormedMembers_iff.1 (wellFormed_mk.1 hof).2.2 p hp
    | _ => exact nomatch hmembers
  | _ => exact nomatch hmembers

/-- The literals of a valid alternative are found where it is one. -/
theorem takes_parseDiscriminator {node : ShapeNode} (hnode : wellFormed node = true)
    {discriminator altPath name : String} {options? : Option (List Json)} :
    Takes (parseDiscriminator node discriminator altPath name) n options? n' ↔
      (discriminatorOptions discriminator node).isSome = true ∧ options? = discriminatorOptions discriminator node ∧
        n' = n := by
  unfold parseDiscriminator discriminatorOptions
  cases hmembers : unwrapObjectMembers node with
  | none => exact iff_of_false takes_fail (by simp)
  | some members =>
    simp only [Option.bind_some]
    cases hmember : members.lookup discriminator with
    | none => exact iff_of_false takes_fail (by simp)
    | some member =>
      have hvalid := wellFormed_unwrapped hnode hmembers (mem_of_lookup hmember)
      obtain ⟨e, g, k⟩ := member
      cases k with
      | equality =>
        obtain ⟨e, rfl⟩ : ∃ v, e = some v := Option.isSome_iff_exists.1 (wellFormed_mk.1 hvalid).2.1
        exact takes_pure.trans (by simp)
      | anyOf options => exact takes_pure.trans (by simp)
      | _ => exact iff_of_false takes_fail (by simp)

/-- Every two of them share no literal, the later looked at with the earlier. -/
theorem takes_reportOverlaps {name : String} {options : List Json} {earlier : List (String × List Json)} {u : Unit} :
    Takes (reportOverlaps path name options earlier) n u n' ↔
      (∀ s ∈ earlier, disjointValues options s.2 = true) ∧ n' = n := by
  induction earlier with
  | nil => simp [reportOverlaps, takes_pure]
  | cons s rest ih =>
    obtain ⟨other, literals⟩ := s
    rw [reportOverlaps, takes_check, ih, List.forall_mem_cons, and_assoc]
    refine and_congr_left fun _ => ?_
    simp [disjointValues]

theorem takes_checkDisjoint {sets earlier : List (String × List Json)} {u : Unit} :
    Takes (checkDisjoint path earlier sets) n u n' ↔
      (∀ s ∈ sets, ∀ t ∈ earlier, disjointValues s.2 t.2 = true) ∧
        sets.Pairwise (fun s t => disjointValues t.2 s.2 = true) ∧ n' = n := by
  induction sets generalizing earlier n with
  | nil => simp [checkDisjoint, takes_pure]
  | cons s rest ih =>
    obtain ⟨name, options⟩ := s
    rw [checkDisjoint, takes_bind, List.forall_mem_cons, List.pairwise_cons]
    constructor
    · rintro ⟨u', m, hfirst, hrest⟩
      obtain ⟨hover, rfl⟩ := takes_reportOverlaps.1 hfirst
      obtain ⟨hearlier, hpair, rfl⟩ := ih.1 hrest
      refine ⟨⟨hover, fun t ht e he => hearlier t ht e (List.mem_append_left _ he)⟩, ⟨fun t ht => ?_, hpair⟩, rfl⟩
      exact hearlier t ht _ (List.mem_append_right _ List.mem_cons_self)
    · rintro ⟨⟨hover, hearlier⟩, ⟨hhere, hpair⟩, rfl⟩
      refine ⟨(), n', takes_reportOverlaps.2 ⟨hover, rfl⟩, ih.2 ⟨fun t ht e he => ?_, hpair, rfl⟩⟩
      rcases List.mem_append.1 he with he | he
      · exact hearlier t ht e he
      · obtain rfl := List.mem_singleton.1 he
        exact hhere t ht

theorem takes_parseDefault {alternatives : List (String × ShapeNode)} {default : Option String} :
    Takes (parseDefault obj alternatives path) n default n' ↔
      obj.lookup "default" = default.map .string ∧
        (default.all fun name => name ∈ alternatives.map Prod.fst) = true ∧ n' = n := by
  unfold parseDefault
  cases obj.lookup "default" with
  | none =>
    refine takes_pure.trans ?_
    cases default <;> simp
  | some value =>
    cases value with
    | string name =>
      refine takes_check.trans ?_
      rw [takes_pure]
      cases default with
      | none => simp
      | some given =>
        simp only [Option.map_some, Option.some_inj, Option.all_some, decide_eq_true_eq, not_not]
        constructor
        · rintro ⟨hin, rfl, rfl⟩
          exact ⟨rfl, hin, rfl⟩
        · rintro ⟨heq, hin, rfl⟩
          obtain rfl := Json.string.inj heq
          exact ⟨hin, rfl, rfl⟩
    | _ =>
      refine iff_of_false (fun h => ?_) (by cases default <;> simp)
      obtain ⟨_, _, hreport, -⟩ := takes_bind.1 h
      exact takes_report hreport

end Members

end PactJanus.Shape.Accepted
