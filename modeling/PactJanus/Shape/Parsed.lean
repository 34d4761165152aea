import PactJanus.Shape.Operators

namespace PactJanus.Shape.Parsed

open PactJanus.Data.Json PactJanus.Data.Equality PactJanus.Lib.Lists PactJanus.Shape.Model PactJanus.Shape.Valid
  PactJanus.Shape.Parse PactJanus.Shape.Documents PactJanus.Shape.Accepted
  PactJanus.Shape.Nested PactJanus.Shape.Kinds PactJanus.Shape.Operators

/-! The parser takes a document as the shape that represents it, where that is a valid one within the limits. -/

section Node

variable {obj : List (String × Json)} {example? : Option Example} {path operator : String} {depth n n' : Nat}
  {kind : ShapeKind}

theorem operatorName_mem_coreOperators (hcore : isCore kind = true) : operatorName kind ∈ coreOperators := by
  cases kind with
  | component => exact nomatch hcore
  | kind k => cases k <;> simp [operatorName, coreOperators, ValueKind.operatorName]
  | temporal k => cases k <;> simp [operatorName, coreOperators, TemporalKind.operatorName]
  | _ => simp [operatorName, coreOperators]

/-- No operator of the core is in a namespace. -/
theorem splitOnce_coreOperators : ∀ name ∈ coreOperators, Lib.Text.splitOnce ':' name = none := by decide

private theorem takes_parseComponent {component name : String}
    (hsplit : Lib.Text.splitOnce ':' operator = some (component, name)) :
    Takes (parseComponent obj path operator component name) n kind n' ↔
      isComponentOperator operator = true ∧ kind = .component operator (rawMembers obj) ∧ n' = n := by
  have hoperator : isComponentOperator operator = true ↔
      ¬(component.isEmpty || name.isEmpty) = true ∧ component ∉ Plan.Actions.reservedNamespaces := by
    simp [isComponentOperator, hsplit]
  rw [parseComponent, hoperator]
  by_cases hempty : (component.isEmpty || name.isEmpty) = true
  · rw [if_pos hempty]
    exact iff_of_false takes_fail fun hall => hall.1.1 hempty
  · rw [if_neg hempty]
    by_cases hreserved : component ∈ Plan.Actions.reservedNamespaces
    · rw [if_pos hreserved]
      exact iff_of_false takes_fail fun hall => hall.1.2 hreserved
    · rw [if_neg hreserved, takes_pure]
      exact (and_iff_right ⟨hempty, hreserved⟩).symm

private theorem distinct_rawMembers (hd : distinctKeys (.object obj) = true) :
    distinctKeysMembers (rawMembers obj) = true :=
  distinctKeysMembers_iff.2 fun p hp => (distinctKeys_object.1 hd).2 p (List.mem_filter.1 hp).1

private theorem exampleValid_of_distinct (hd : distinctKeys (.object obj) = true)
    (he : ExampleOf example? (.object obj)) : exampleValid example? = true := by
  cases example? with
  | none => rfl
  | some e => exact (distinctKeys_object.1 hd).2 _ (mem_of_lookup he.1)

variable (h : ParsesUnder obj) (hd : distinctKeys (.object obj) = true) (hn : n ≤ maxNodes) (hdepth : depth ≤ maxDepth)
include h hd hn hdepth

/-- What the operator a node names comes to. -/
private theorem takes_operator :
    Takes (match Lib.Text.splitOnce ':' operator with
      | some (component, name) => parseComponent obj path operator component name
      | none => parseCore obj (within obj) path depth operator example?) n kind n' ↔
      operatorName kind = operator ∧ KindStands obj example? depth n kind n' := by
  cases hsplit : Lib.Text.splitOnce ':' operator with
  | none =>
    constructor
    · intro ht
      have hsound := core_sound h hd hn hdepth ht
      exact ⟨hsound.1, hsound.2.2⟩
    · rintro ⟨rfl, hstands⟩
      refine core_complete h hd hn hdepth ?_ hstands
      cases kind with
      | component name raw =>
        have hvalid := hstands.valid
        rw [operatorName] at hsplit
        simp [nodeValid, isComponentOperator, hsplit] at hvalid
      | _ => rfl
  | some parts =>
    obtain ⟨component, name⟩ := parts
    show Takes (parseComponent obj path operator component name) n kind n' ↔ _
    rw [takes_parseComponent hsplit]
    constructor
    · rintro ⟨hoperator, rfl, rfl⟩
      refine ⟨rfl, takes_leaf rfl hn hdepth ⟨obj, rfl, rfl⟩ ?_⟩
      rw [nodeValid, hoperator, distinct_rawMembers hd]
      rfl
    · rintro ⟨rfl, hstands⟩
      cases kind with
      | component name raw =>
        obtain ⟨⟨obj', hobj, rfl⟩, hvalid, rfl⟩ := (kindStands_leaf rfl hn hdepth).1 hstands
        obtain rfl := Json.object.inj hobj
        exact ⟨(Bool.and_eq_true_iff.1 hvalid).1, rfl, rfl⟩
      | _ =>
        rw [splitOnce_coreOperators _ (operatorName_mem_coreOperators rfl)] at hsplit
        cases hsplit

omit h hd hn hdepth in
private theorem takes_labelled {x : Parser ShapeKind} {e e' : Option Example} {g g' : Option Json} :
    Takes (x >>= fun k => pure (ShapeNode.mk e g k)) n ⟨e', g', kind⟩ n' ↔ e' = e ∧ g' = g ∧ Takes x n kind n' := by
  rw [takes_wrapped]
  constructor
  · rintro ⟨k, hnode, hx⟩
    obtain ⟨rfl, rfl, rfl⟩ := ShapeNode.mk.inj hnode
    exact ⟨rfl, rfl, hx⟩
  · rintro ⟨rfl, rfl, hx⟩
    exact ⟨kind, rfl, hx⟩

private theorem takes_named {e : Option Example} {g : Option Json} {k : ShapeKind} (found : Option Example) :
    Takes (match Lib.Text.splitOnce ':' operator with
      | some (component, name) => do
        return ⟨found, obj.lookup "generator", ← parseComponent obj path operator component name⟩
      | none => do
        return ⟨found, obj.lookup "generator", ← parseCore obj (within obj) path depth operator found⟩ : Parser ShapeNode)
      n ⟨e, g, k⟩ n' ↔
      e = found ∧ g = obj.lookup "generator" ∧ operatorName k = operator ∧ KindStands obj found depth n k n' := by
  rw [← takes_operator h hd hn hdepth]
  cases Lib.Text.splitOnce ':' operator <;> exact takes_labelled

private theorem takes_parseObject {node : ShapeNode} :
    Takes (parseObject obj (within obj) path depth) n node n' ↔
      Represents node (.object obj) ∧ Fits depth node ∧ n' + 1 = n + nodeCount node ∧ n' ≤ maxNodes := by
  obtain ⟨e, g, k⟩ := node
  have hshape : Data.Json.get "shape" (.object obj) = obj.lookup "shape" := rfl
  rw [Represents, hshape]
  unfold parseObject
  cases hlookup : obj.lookup "shape" with
  | none => exact iff_of_false takes_fail fun hall => by cases hall.1.1
  | some v =>
    cases v with
    | string operator =>
      show Takes ((parseExample obj path).attempt >>= fun found => _) n _ n' ↔ _
      rw [takes_bind]
      constructor
      · rintro ⟨found, m, hfound, hrest⟩
        obtain ⟨example?, rfl, hexample⟩ := takes_attempt.1 hfound
        obtain ⟨hof, rfl⟩ := takes_parseExample.1 hexample
        obtain ⟨rfl, rfl, rfl, hstands⟩ := (takes_named h hd hn hdepth example?).1 hrest
        have hdeep := hstands.depth
        have hcount := hstands.counted
        refine ⟨⟨rfl, hof, rfl, hstands.represents⟩, ⟨?_, hdeep⟩, ?_, hstands.within⟩
        · exact wellFormed_mk.2 ⟨exampleValid_of_distinct hd hof, hstands.valid, hstands.under⟩
        · rw [nodeCount]
          omega
      · rintro ⟨⟨hoperator, hof, hgenerator, hrep⟩, ⟨htree, hdeep⟩, hcount, hwithin⟩
        obtain ⟨-, hvalid, hunder⟩ := wellFormed_mk.1 htree
        rw [nodeCount] at hcount
        obtain rfl := Json.string.inj (Option.some.inj hoperator)
        refine ⟨some e, n, takes_attempt.2 ⟨e, rfl, takes_parseExample.2 ⟨hof, rfl⟩⟩,
          (takes_named h hd hn hdepth e).2 ⟨rfl, hgenerator.symm, rfl, ?_⟩⟩
        exact ⟨hrep, hvalid, hunder, hdeep, by omega, hwithin⟩
    | _ => exact iff_of_false takes_fail fun hall => by cases hall.1.1

end Node

/-- A document that is represented is an object. -/
theorem object_of_represents {node : ShapeNode} {document : Json} (h : Represents node document) :
    ∃ obj, document = .object obj := by
  obtain ⟨e, g, k⟩ := node
  obtain ⟨hshape, -⟩ := h
  cases document with
  | object obj => exact ⟨obj, rfl⟩
  | _ => exact nomatch hshape

private theorem takes_parseNode {document : Json} (hd : distinctKeys document = true)
    (h : ∀ obj, document = .object obj → ParsesUnder obj) {path : String} {depth n n' : Nat} {node : ShapeNode}
    (hn : n ≤ maxNodes) (hdepth : depth ≤ maxDepth) :
    Takes (parseNode document path depth) n node n' ↔
      Represents node document ∧ Fits depth node ∧ n' + 1 = n + nodeCount node ∧ n' ≤ maxNodes := by
  cases document with
  | object obj => exact takes_parseObject (h obj rfl) hd hn hdepth
  | _ =>
    refine iff_of_false takes_fail fun hall => ?_
    obtain ⟨obj, hobj⟩ := object_of_represents hall.1
    exact nomatch hobj

private theorem parses_of_under {document : Json} (hd : distinctKeys document = true)
    (h : ∀ obj, document = .object obj → ParsesUnder obj) : Parses document := by
  intro position path depth n node n'
  rw [parsePlaced, takes_bind]
  constructor
  · rintro ⟨u, m, henter, hrest⟩
    obtain ⟨hdepth, hroom, rfl⟩ := takes_enter.1 henter
    obtain ⟨node', m, hnode, hplaced⟩ := takes_bind.1 hrest
    obtain ⟨hrep, hfits, hcount, hwithin⟩ := (takes_parseNode hd h hroom hdepth).1 hnode
    obtain ⟨habsent, hpure⟩ := takes_check.1 hplaced
    obtain ⟨rfl, rfl⟩ := takes_pure.1 hpure
    exact ⟨hrep, hfits, fun hposition => by simpa [hposition] using habsent, by omega, hwithin⟩
  · rintro ⟨hrep, hfits, habsent, hcount, hwithin⟩
    have hpos := nodeCount_pos node
    have hdepth := hfits.depth
    have hnode : Takes (parseNode document path depth) (n + 1) node n' :=
      (takes_parseNode hd h (by omega) (by omega)).2 ⟨hrep, hfits, by omega, hwithin⟩
    refine ⟨(), n + 1, takes_enter.2 ⟨by omega, by omega, rfl⟩, takes_bind.2 ⟨node, n', hnode, ?_⟩⟩
    refine takes_check.2 ⟨?_, takes_pure.2 ⟨rfl, rfl⟩⟩
    rintro ⟨hposition, hadmits⟩
    rw [habsent hposition] at hadmits
    cases hadmits

private theorem parses_within {document : Json} (hd : distinctKeys document = true) :
    Parses document ∧ ∀ v ∈ elements document, Parses v := by
  induction document with
  | array items ih =>
    refine ⟨parses_of_under hd fun _ => nofun, fun v hv => ?_⟩
    exact (ih v hv (distinctKeysAll_iff.1 hd v hv)).1
  | object members ih =>
    have hunder (p : String × Json) (hp : p ∈ members) : Parses p.2 ∧ ∀ v ∈ elements p.2, Parses v :=
      ih p hp ((distinctKeys_object.1 hd).2 p hp)
    refine ⟨parses_of_under hd fun obj hobj => ?_, fun v hv => ?_⟩
    · obtain rfl := Json.object.inj hobj
      exact hunder
    · obtain ⟨p, hp, rfl⟩ := List.mem_map.1 hv
      exact (hunder p hp).1
  | _ => exact ⟨parses_of_under hd fun _ => nofun, fun _ => nofun⟩

private theorem parse_eq_ok_iff_takes {document : Json} {path : String} {node : ShapeNode} :
    parse document path = .ok node ↔
      ∃ n', Takes (parsePlaced .notASlot path 0 (parseNode document path 0)) 0 node n' := by
  have hclear : Budget.new = clear 0 := rfl
  rw [parse, hclear]
  cases hrun : (parsePlaced .notASlot path 0 (parseNode document path 0)).run (clear 0) with
  | mk node? budget =>
    constructor
    · intro hok
      simp only at hok
      split at hok
      · rename_i hproblems
        obtain ⟨n', rfl⟩ := not_failed.1 (not_not.2 hproblems)
        obtain rfl := Except.ok.inj hok
        exact ⟨n', hrun, not_failed.2 ⟨n', rfl⟩⟩
      · exact nomatch hok
    · rintro ⟨n', htakes, -⟩
      obtain ⟨rfl, rfl⟩ := Prod.mk.inj (hrun.symm.trans htakes)
      rfl

/-- A document is parsed as the one shape that represents it, where that is a shape the engine reads. -/
theorem parse_eq_ok {document : Json} (hd : distinctKeys document = true) {path : String} {node : ShapeNode} :
    parse document path = .ok node ↔ Represents node document ∧ WellFormed node := by
  rw [parse_eq_ok_iff_takes]
  constructor
  · rintro ⟨n', htakes⟩
    have hstands := ((parses_within hd).1 ..).1 htakes
    have hcount := hstands.counted
    have hwithin := hstands.within
    have hdeep := hstands.fits.depth
    exact ⟨hstands.represents, hstands.fits.tree, hstands.absence rfl, by omega, by omega⟩
  · rintro ⟨hrep, htree, hroot, hnodes, hdeep⟩
    exact ⟨nodeCount node, ((parses_within hd).1 ..).2 ⟨hrep, ⟨htree, by omega⟩, fun _ => hroot, by omega, hnodes⟩⟩

end PactJanus.Shape.Parsed
