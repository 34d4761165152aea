import PactJanus.Plan.Pinning
import PactJanus.Plan.Documents
import PactJanus.Plan.Verdict
import PactJanus.Variant.Generate

namespace PactJanus.Variant.Production

open PactJanus.Data.Json PactJanus.Lib PactJanus.Lib.Lists PactJanus.Lib.Text PactJanus.Shape PactJanus.Shape.Model
  PactJanus.Shape.VariantSpace PactJanus.Shape.Valid PactJanus.Shape.Nodes PactJanus.Shape.Placed
  PactJanus.Shape.Cardinality PactJanus.Plan.Value PactJanus.Plan.Result PactJanus.Plan.Interpret PactJanus.Plan.Compile
  PactJanus.Plan.Navigation PactJanus.Plan.Outcome PactJanus.Plan.Accepts PactJanus.Plan.Documents
  PactJanus.Plan.Pinning PactJanus.Plan.Verdict PactJanus.Variant.Assignment PactJanus.Variant.Generate

/-! What is produced for a variant is accepted as that variant. -/

/-- What is produced, as a plan sees it: octets inside a document are their base64 text. -/
def standing (inside : Bool) : Generated → RuntimeValue
  | .document value => fromJson value
  | .octets bytes => if inside then .string (Base64.encode bytes) else .bytes bytes

theorem standing_inside (g : Generated) : standing true g = fromJson g.intoJson := by
  cases g <;> rfl

theorem isDocument_standing (inside : Bool) (g : Generated) : isDocument (standing inside g) = true := by
  cases g with
  | document v => exact isDocument_fromJson v
  | octets bytes => cases inside <;> rfl

/-- What stands in a slot that may be empty. -/
def standingSlot (inside : Bool) (slot : Option Generated) : RuntimeValue := (slot.map (standing inside)).getD .absent

/-- A node stands at a place of what a shape produces at its own, `inside` telling a place in a document from a slot. -/
inductive Stands (n : ShapeNode) (q : String) (b : Bool) : ShapeNode → String → Bool → Prop
  | here : Stands n q b n q b
  | member {e g members place inside} (p : String × ShapeNode) : p ∈ members →
      Stands n q b p.2 (memberPath place p.1) true → Stands n q b ⟨e, g, .object members⟩ place inside
  | entry {e g entries place inside} (i : Nat) (s : ShapeNode) : entries[i]? = some s →
      Stands n q b s (Path.arrayIndex place i) true → Stands n q b ⟨e, g, .array entries⟩ place inside
  | item {e g items min max place inside} (i : Nat) :
      Stands n q b items (Path.arrayIndex place i) true → Stands n q b ⟨e, g, .eachLike items min max⟩ place inside
  | value {e g values min max place inside} (i : Nat) :
      Stands n q b values (memberPath place ("key" ++ i.repr)) true →
      Stands n q b ⟨e, g, .eachEntry none values min max⟩ place inside
  | found {e g entries place inside} (i : Nat) (s : ShapeNode) : entries[i]? = some s →
      Stands n q b s (Path.arrayIndex place i) true → Stands n q b ⟨e, g, .contains entries⟩ place inside
  | present {e g of place inside} : Stands n q b of place inside → Stands n q b ⟨e, g, .optional of⟩ place inside
  | nonNull {e g of place inside} : Stands n q b of place inside → Stands n q b ⟨e, g, .nullable of⟩ place inside
  | alternative {e g discriminator alternatives default place inside} (p : String × ShapeNode) : p ∈ alternatives →
      Stands n q b p.2 place inside → Stands n q b ⟨e, g, .oneOf discriminator alternatives default⟩ place inside

/-- A leaf's example, where the leaf produces it, is accepted by the leaf's own matcher. -/
def Exemplified (env : Env) (n : ShapeNode) (q : String) (inside : Bool) : Prop :=
  match n.kind with
  | .forbidden => True
  | .anyOf _ => ∀ e ∈ n.example?, accepts true env [] n "" q (standing inside (exampleOf e)) = true
  | _ => ∃ e, n.example? = some e ∧ accepts true env [] n "" q (standing inside (exampleOf e)) = true

/-- Every leaf that stands in what a shape produces is exemplified there. -/
def AllExemplified (env : Env) (S : ShapeNode) (place : String) (inside : Bool) : Prop :=
  ∀ n q b, Stands n q b S place inside → isLeaf n.kind = true → Exemplified env n q b

/-- A map entry that names no shape for its keys. -/
def keyless : ShapeKind → Bool
  | .eachEntry (some _) _ _ _ => false
  | _ => true

/-! The sizes produced, and the members of what is produced. -/

section Parts

variable {α : Assignment} {path place : String}

private theorem cardinalitySize_eq (min : UInt64) (max : Option UInt64) :
    cardinalitySize path min max α = (((pin α path .cardinality).bind (cardinalityRegion min max)).map Prod.fst).getD min := by
  have hpin : pin α path .cardinality = α.lookup (Path.dimensionId path Facet.cardinality.text) := rfl
  rw [hpin, cardinalitySize]
  cases α.lookup (Path.dimensionId path Facet.cardinality.text) with
  | none => rfl
  | some point => simp only [Option.bind_some, region_size]

theorem size_produced {min : UInt64} {max : Option UInt64} (h : max.all (fun m => min ≤ m) = true) :
    sizeAccepts α path min max (cardinalitySize path min max α).toNat = true := by
  simp only [sizeAccepts, cardinalitySize_eq, Bool.and_eq_true, decide_eq_true_eq]
  cases hr : (pin α path .cardinality).bind (cardinalityRegion min max) with
  | none =>
    refine ⟨le_rfl, ?_⟩
    cases max with
    | none => rfl
    | some m =>
      have hle : min ≤ m := by simpa using h
      simpa using UInt64.le_iff_toNat_le.1 hle
  | some region =>
    obtain ⟨point, -, hregion⟩ := Option.bind_eq_some_iff.1 hr
    exact ⟨le_rfl, region_inhabited h hregion⟩

private theorem key_injective {i j : Nat} (hi : i < 2 ^ 64) (hj : j < 2 ^ 64) (h : "key" ++ i.repr = "key" ++ j.repr) :
    i = j := by
  have hchars : i.repr.toList = j.repr.toList := by
    have := congrArg String.toList h
    simpa using this
  have hparse := parseUnsigned_repr hi
  rw [hchars, parseUnsigned_repr hj] at hparse
  exact (Option.some.inj hparse).symm

private theorem insertField_fresh {name : String} {fields : List (String × Json)} (v : Json)
    (h : name ∉ fields.map Prod.fst) : insertField name v fields = fields ++ [(name, v)] := by
  induction fields with
  | nil => rfl
  | cons p rest ih =>
    simp only [List.map_cons, List.mem_cons, not_or] at h
    rw [insertField, if_neg (Ne.symm h.1), ih h.2, List.cons_append]

/-- Entries without a shape for their keys have numbered keys, each its own. -/
theorem entryFields_numbered (v : Json) {size : Nat} (hsize : size ≤ 2 ^ 64) :
    entryFields none v size = (List.range size).map fun i => ("key" ++ i.repr, v) := by
  induction size with
  | zero => rfl
  | succ size ih =>
    have hfields := ih (Nat.le_of_succ_le hsize)
    unfold entryFields at hfields ⊢
    rw [List.range_succ, List.foldl_append, hfields, List.map_append]
    refine insertField_fresh v fun hmem => ?_
    rw [List.map_map] at hmem
    obtain ⟨i, hi, hkey⟩ := List.mem_map.1 hmem
    have hlt := List.mem_range.1 hi
    exact absurd (key_injective (by omega) (by omega) hkey) (by omega)

private theorem firstFree_after {β : Type} {accept : β → Bool} {items : List β} {k : Nat} {p : β} (us : List Bool)
    (index : Nat) (hp : items[k]? = some p) (haccept : accept p = true) :
    firstFree accept items (List.replicate k true ++ false :: us) index = some (index + k) := by
  induction k generalizing items index with
  | zero =>
    cases items with
    | nil => exact absurd hp (by simp)
    | cons item rest =>
      obtain rfl : item = p := by simpa using hp
      simp [firstFree, haccept]
  | succ k ih =>
    cases items with
    | nil => exact absurd hp (by simp)
    | cons item rest =>
      have htail := ih (index + 1) (by simpa using hp)
      simp only [List.replicate_succ, List.cons_append, firstFree, if_true]
      rw [htail, Nat.add_assoc, Nat.add_comm 1]

private theorem claim_next (k m : Nat) :
    (List.replicate k true ++ false :: List.replicate m false).set k true =
      List.replicate (k + 1) true ++ List.replicate m false := by
  rw [List.set_append_right _ _ (by simp), List.length_replicate, Nat.sub_self, List.set_cons_zero,
    List.replicate_succ', List.append_assoc]
  rfl

/-- Entries that each accept the element at their own place all find one: each claims that element. -/
private theorem contains_aligned {env : Env} {entries : List ShapeNode} {elements : List (RuntimeValue × String)}
    (index : Nat) (h : ∀ (i : Nat) (s : ShapeNode), entries[i]? = some s → ∃ p, elements[index + i]? = some p ∧
      accepts true env α s (Path.arrayIndex path (index + i)) p.2 p.1 = true) :
    acceptsContains env α entries path index elements
      (List.replicate index true ++ List.replicate entries.length false) = true := by
  induction entries generalizing index with
  | nil => rfl
  | cons s rest ih =>
    obtain ⟨p, hp, haccept⟩ := h 0 s rfl
    rw [Nat.add_zero] at hp haccept
    have hclaim : firstFree (fun p => accepts true env α s (Path.arrayIndex path index) p.2 p.1) elements
        (List.replicate index true ++ false :: List.replicate rest.length false) 0 = some (0 + index) :=
      firstFree_after _ 0 hp haccept
    simp only [acceptsContains, List.length_cons, List.replicate_succ]
    rw [hclaim]
    simp only [Nat.zero_add, claim_next]
    refine ih (index + 1) fun i t ht => ?_
    have hstep : index + 1 + i = index + (i + 1) := by omega
    rw [hstep]
    exact h (i + 1) t (by simpa using ht)

end Parts

/-! What is produced, node by node. -/

/-- What a shape produces is accepted where it stands, and is something unless the shape admits absence. -/
structure ProducesAccepted (env : Env) (α : Assignment) (S : ShapeNode) (path place : String) (inside : Bool) : Prop where
  accepted : accepts true env α S path place (standingSlot inside (generated α S path)) = true
  present : admitsAbsent S = false → ∃ g, generated α S path = some g

section Nodes

variable {env : Env} {α : Assignment} {path place : String} {inside : Bool} {e : Option Example} {g : Option Json}
  {gates : List Gate}

/-- What a shape that admits no absence produces inside a document. -/
private theorem produced_inside {S : ShapeNode} (h : ProducesAccepted env α S path place true)
    (hS : admitsAbsent S = false) :
    ∃ v, Generate.value α S path = some v ∧ accepts true env α S path place (fromJson v) = true := by
  obtain ⟨produced, hproduced⟩ := h.present hS
  have haccepted := h.accepted
  rw [hproduced] at haccepted
  refine ⟨produced.intoJson, by simp [Generate.value, hproduced], ?_⟩
  rw [← standing_inside]
  exact haccepted

private theorem standingSlot_true {S : ShapeNode} :
    standingSlot true (generated α S path) = ofSlot (Generate.value α S path) := by
  cases hg : generated α S path with
  | none => simp [standingSlot, ofSlot, Generate.value, hg]
  | some produced => simp [standingSlot, ofSlot, Generate.value, hg, standing_inside]

private theorem produces_document {S : ShapeNode} {v : Json} (hv : generated α S path = some (.document v))
    (h : accepts true env α S path place (fromJson v) = true) : ProducesAccepted env α S path place inside := by
  refine ⟨?_, fun _ => ⟨_, hv⟩⟩
  rw [hv]
  exact h

/-- A leaf whose matcher is the same under every assignment. -/
private theorem produces_leaf {k : ShapeKind}
    (hgenerated : generated α ⟨e, g, k⟩ path = e.map exampleOf ∨
      generated α ⟨e, g, k⟩ path = some ((e.map exampleOf).getD (.document .null)))
    (hex : ∃ x, e = some x ∧ accepts true env [] ⟨e, g, k⟩ "" place (standing inside (exampleOf x)) = true)
    (hpin : ∀ v, accepts true env [] ⟨e, g, k⟩ "" place v = accepts true env α ⟨e, g, k⟩ path place v) :
    ProducesAccepted env α ⟨e, g, k⟩ path place inside := by
  obtain ⟨x, rfl, haccept⟩ := hex
  have hg : generated α ⟨some x, g, k⟩ path = some (exampleOf x) := by
    obtain h | h := hgenerated
    · exact h
    · exact h
  refine ⟨?_, fun _ => ⟨_, hg⟩⟩
  rw [hg, ← hpin]
  exact haccept

private theorem produces_anyOf {options : List Json} (hvalid : wellFormed ⟨e, g, .anyOf options⟩ = true)
    (hex : ∀ x ∈ e, accepts true env [] ⟨e, g, .anyOf options⟩ "" place (standing inside (exampleOf x)) = true) :
    ProducesAccepted env α ⟨e, g, .anyOf options⟩ path place inside := by
  have hpin : pin α path .value = α.lookup (Path.dimensionId path Facet.value.text) := rfl
  have haccepts : ∀ v, accepts true env α ⟨e, g, .anyOf options⟩ path place v = anyOfAccepts α path options v := fun _ => rfl
  have hnode := (wellFormed_mk.1 hvalid).2.1
  simp only [nodeValid, Bool.and_eq_true, List.all_eq_true] at hnode
  have hunpinned : ∀ v, accepts true env [] ⟨e, g, .anyOf options⟩ "" place v =
      options.any fun o => runtimeEq (fromJson o) v := fun _ => rfl
  cases hpoint : (pin α path .value).bind fun point => options.find? fun o => canonicalPointName o == point with
  | some option =>
    have hgenerated : generated α ⟨e, g, .anyOf options⟩ path = some (.document option) := by
      rw [hpin] at hpoint
      simp only [generated, generatedAnyOf, hpoint]
    refine produces_document hgenerated ?_
    rw [haccepts, anyOfAccepts, hpoint]
    obtain ⟨point, -, hfind⟩ := Option.bind_eq_some_iff.1 hpoint
    have hdistinct := hnode.1.1.2 option (List.mem_of_find?_eq_some hfind)
    exact (runtimeEq_fromJson option option).trans (Data.Equality.valuesEqual_refl hdistinct)
  | none =>
    have hopen : ∀ v, accepts true env α ⟨e, g, .anyOf options⟩ path place v =
        options.any fun o => runtimeEq (fromJson o) v := fun v => by rw [haccepts, anyOfAccepts, hpoint]
    rw [hpin] at hpoint
    cases e with
    | some x =>
      have hgenerated : generated α ⟨some x, g, .anyOf options⟩ path = some (exampleOf x) := by
        simp only [generated, generatedAnyOf, hpoint]
      refine ⟨?_, fun _ => ⟨_, hgenerated⟩⟩
      rw [hgenerated, hopen, ← hunpinned]
      exact hex x rfl
    | none =>
      cases options with
      | nil => cases hnode.1.1.1
      | cons first rest =>
        have hgenerated : generated α ⟨none, g, .anyOf (first :: rest)⟩ path = some (.document first) := by
          simp only [generated]
          unfold generatedAnyOf
          rw [hpoint]
          rfl
        refine produces_document hgenerated ?_
        rw [hopen, List.any_cons, runtimeEq_fromJson,
          Data.Equality.valuesEqual_refl (hnode.1.1.2 first List.mem_cons_self)]
        rfl

private theorem lookup_generatedMembers {members : List (String × ShapeNode)} (hd : (members.map Prod.fst).Nodup)
    {p : String × ShapeNode} (hp : p ∈ members) :
    memberOf (fromJson (.object (generatedMembers α members path))) p.1 =
      ofSlot (Generate.value α p.2 (Path.member path p.1)) := by
  rw [memberOf_fromJson, generatedMembers_eq, Data.Json.get,
    lookup_filterMap (fun q => Generate.value α q.2 (Path.member path q.1)) hd hp]

private theorem entry_produced {entries : List ShapeNode} {i : Nat} {s : ShapeNode} (hs : entries[i]? = some s) :
    (generatedEntries α entries path 0)[i]? = some (Generate.value α s (Path.arrayIndex path i)) := by
  rw [generatedEntries_eq, List.getElem?_mapIdx, hs, Option.map_some, Nat.zero_add]

/-- Entries that all produce something produce it each at its own place. -/
private theorem found_produced {entries : List ShapeNode}
    (h : ∀ (i : Nat) (s : ShapeNode), entries[i]? = some s → ∃ v, Generate.value α s (Path.arrayIndex path i) = some v) :
    (generatedEntries α entries path 0).filterMap id = (generatedEntries α entries path 0).map (·.getD .null) := by
  rw [← List.filterMap_eq_map]
  refine List.filterMap_congr fun o ho => ?_
  obtain ⟨i, hi⟩ := List.mem_iff_getElem?.1 ho
  rw [generatedEntries_eq, List.getElem?_mapIdx] at hi
  obtain ⟨s, hs, rfl⟩ := Option.map_eq_some_iff.1 hi
  obtain ⟨v, hv⟩ := h i s hs
  rw [Nat.zero_add, hv]
  rfl

/-- A shape produces what is accepted where it stands, by induction on the shape: the points of an assignment that
decides the shape lead the production and the plan to the same branches. -/
theorem produces_accepted {S : ShapeNode} (hvalid : wellFormed S = true)
    (h : ∀ n ∈ placed S path gates, Decided α n) (hgates : ∀ g ∈ gates, α.lookup g.dimension = some g.point)
    (hkeys : ∀ n ∈ nodes S, keyless n.kind = true) (hex : AllExemplified env S place inside) :
    ProducesAccepted env α S path place inside := by
  induction S generalizing path place inside gates with
  | leaf e g k hk =>
    have hself := hex _ _ _ .here hk
    cases k with
    | component operator raw => exact produces_leaf (Or.inl rfl) hself fun _ => rfl
    | forbidden => exact ⟨rfl, fun hpresent => absurd hpresent (by simp [admitsAbsent])⟩
    | anyOf options => exact produces_anyOf hvalid hself
    | object | array | eachLike | eachEntry | contains | optional | nullable | oneOf =>
      exact absurd hk (by simp [isLeaf])
    | _ => exact produces_leaf (Or.inr rfl) hself fun _ => rfl
  | object e g members ih =>
    have hnode := (wellFormed_mk.1 hvalid).2.1
    simp only [nodeValid, decide_eq_true_eq] at hnode
    refine produces_document rfl ?_
    simp only [accepts, Bool.and_eq_true, acceptsMembers_iff]
    refine ⟨rfl, fun p hp => ?_⟩
    rw [lookup_generatedMembers hnode hp, ← standingSlot_true]
    exact (ih p hp (wellFormed_child hvalid (List.mem_map_of_mem hp))
      ((forall_placed.1 h).2 _ (List.mem_map_of_mem hp)) hgates ((forall_nodes.1 hkeys).2 _ (List.mem_map_of_mem hp))
      fun n q b hn => hex n q b (.member p hp hn)).accepted
  | array e g entries ih =>
    have hnode := (wellFormed_mk.1 hvalid).2.1
    simp only [nodeValid, Bool.and_eq_true, List.all_eq_true, Bool.not_eq_true'] at hnode
    refine produces_document rfl ?_
    have hlength : (generatedEntries α entries path 0).length = entries.length := by simp [generatedEntries_eq]
    simp only [fromJson, fromJsonAll_eq, accepts, Bool.and_eq_true, acceptsEntries_iff, Nat.zero_add, List.length_map,
      hlength, beq_self_eq_true, true_and]
    intro i s hs
    have hmem := List.mem_of_getElem? hs
    obtain ⟨v, hv, haccept⟩ := produced_inside (ih s hmem (wellFormed_child hvalid hmem)
      ((forall_placed.1 h).2 _ (mem_under_entries hs)) hgates ((forall_nodes.1 hkeys).2 _ hmem)
      fun n q b hn => hex n q b (.entry i s hs hn)) (hnode.2 s hmem)
    simp only [elementOf, List.getElem?_map, entry_produced hs, hv, Option.map_some, Option.getD_some]
    exact haccept
  | eachLike e g items min max ih =>
    have hnode := (wellFormed_mk.1 hvalid).2.1
    simp only [nodeValid, Bool.and_eq_true, Bool.not_eq_true'] at hnode
    have hitem : ∀ i, ∃ v, Generate.value α items (Path.eachLikeItem path) = some v ∧
        accepts true env α items (Path.eachLikeItem path) (Path.arrayIndex place i) (fromJson v) = true := fun i =>
      produced_inside (ih (wellFormed_child hvalid List.mem_cons_self) ((forall_placed.1 h).2 _ List.mem_cons_self) hgates
        ((forall_nodes.1 hkeys).2 _ List.mem_cons_self) fun n q b hn => hex n q b (.item i hn)) hnode.2
    obtain ⟨v, hv, -⟩ := hitem 0
    refine produces_document (v := .array (List.replicate (cardinalitySize path min max α).toNat v)) ?_ ?_
    · simp only [generated]
      rw [Generate.value] at hv
      rw [hv, Option.getD_some]
    · simp only [fromJson, fromJsonAll_eq, accepts, Bool.and_eq_true, List.length_map, List.length_replicate,
        List.all_eq_true]
      refine ⟨size_produced hnode.1, fun p hp => ?_⟩
      obtain ⟨i, hi, rfl⟩ := List.mem_mapIdx.1 hp
      obtain ⟨w, hw, haccept⟩ := hitem i
      obtain rfl : v = w := Option.some.inj (hv.symm.trans hw)
      simp only [List.getElem_map, List.getElem_replicate]
      have hplace : itemPath place i (fromJson v) = Path.arrayIndex place i := by cases v <;> rfl
      rw [hplace]
      exact haccept
  | eachEntry e g keys values min max ihk ihv =>
    have hnode := (wellFormed_mk.1 hvalid).2.1
    simp only [nodeValid, Bool.and_eq_true, Bool.not_eq_true'] at hnode
    have hnokeys := (forall_nodes.1 hkeys).1
    cases keys with
    | some k => exact absurd hnokeys (by simp [keyless])
    | none =>
      have hvalue : ∀ i : Nat, ∃ v, Generate.value α values (Path.eachEntryValue path) = some v ∧ accepts true env α values
          (Path.eachEntryValue path) (memberPath place ("key" ++ i.repr)) (fromJson v) = true := fun i =>
        produced_inside (ihv (wellFormed_child hvalid List.mem_cons_self) ((forall_placed.1 h).2 _ List.mem_cons_self)
          hgates ((forall_nodes.1 hkeys).2 _ List.mem_cons_self) fun n q b hn => hex n q b (.value i hn)) hnode.2
      obtain ⟨v, hv, -⟩ := hvalue 0
      have hsize := (cardinalitySize path min max α).toNat_lt.le
      refine produces_document
        (v := .object ((List.range (cardinalitySize path min max α).toNat).map fun i => ("key" ++ i.repr, v))) ?_ ?_
      · simp only [generated, generatedKey]
        rw [Generate.value] at hv
        rw [hv, Option.getD_some, entryFields_numbered v hsize]
      · simp only [fromJson, fromJsonMembers_eq, accepts, acceptsKey, Bool.and_eq_true, List.length_map,
          List.length_range, List.all_eq_true, true_and]
        refine ⟨size_produced hnode.1.1, fun p hp => ?_⟩
        rw [List.map_map] at hp
        obtain ⟨i, hi, rfl⟩ := List.mem_map.1 hp
        obtain ⟨w, hw, haccept⟩ := hvalue i
        obtain rfl : v = w := Option.some.inj (hv.symm.trans hw)
        exact haccept
  | contains e g entries ih =>
    have hnode := (wellFormed_mk.1 hvalid).2.1
    simp only [nodeValid, Bool.and_eq_true, List.all_eq_true, Bool.not_eq_true'] at hnode
    have hentry : ∀ (i : Nat) (s : ShapeNode), entries[i]? = some s → ∃ v,
        Generate.value α s (Path.arrayIndex path i) = some v ∧
          accepts true env α s (Path.arrayIndex path i) (Path.arrayIndex place i) (fromJson v) = true := by
      intro i s hs
      have hmem := List.mem_of_getElem? hs
      exact produced_inside (ih s hmem (wellFormed_child hvalid hmem) ((forall_placed.1 h).2 _ (mem_under_entries hs))
        hgates ((forall_nodes.1 hkeys).2 _ hmem) fun n q b hn => hex n q b (.found i s hs hn)) (hnode.2 s hmem)
    have hsome : (generatedEntries α entries path 0).filterMap id = (generatedEntries α entries path 0).map (·.getD .null) :=
      found_produced fun i s hs => (hentry i s hs).imp fun v hv => hv.1
    refine produces_document (v := .array ((generatedEntries α entries path 0).map (·.getD .null)))
      (by simp only [generated, hsome]) ?_
    have hlength : (generatedEntries α entries path 0).length = entries.length := by simp [generatedEntries_eq]
    simp only [fromJson, fromJsonAll_eq, accepts, List.map_const', List.length_map, hlength]
    refine contains_aligned 0 fun i s hs => ?_
    obtain ⟨v, hv, haccept⟩ := hentry i s hs
    have hplace : itemPath place i (fromJson v) = Path.arrayIndex place i := by cases v <;> rfl
    refine ⟨(fromJson v, Path.arrayIndex place i), ?_, by rwa [Nat.zero_add]⟩
    simp only [positions, List.getElem?_mapIdx, List.getElem?_map, Nat.zero_add, entry_produced hs, hv, Option.map_some,
      Option.getD_some, hplace]
  | optional e g of ih =>
    have hof : (∀ g ∈ gates ++ [gateAt path .presence "present"], α.lookup g.dimension = some g.point) →
        ProducesAccepted env α of path place inside := fun hgate =>
      ih (wellFormed_child hvalid List.mem_cons_self) ((forall_placed.1 h).2 _ List.mem_cons_self) hgate
        ((forall_nodes.1 hkeys).2 _ List.mem_cons_self) fun n q b hn => hex n q b (.present hn)
    refine ⟨?_, fun hpresent => absurd hpresent (by simp [admitsAbsent])⟩
    rw [accepts_optional]
    obtain hpin | hpin := decided_presence h hgates
    · have hpresent : pin α path .presence = some "present" := hpin
      simp only [generated, hpin]
      rw [hpresent, if_neg (by decide), if_pos rfl]
      exact (hof (gates_append hgates hpin)).accepted
    · have habsent : pin α path .presence = some "absent" := hpin
      simp only [generated, hpin]
      rw [habsent, if_pos rfl]
      rfl
  | nullable e g of ih =>
    have hnode := (wellFormed_mk.1 hvalid).2.1
    simp only [nodeValid, Bool.and_eq_true, Bool.not_eq_true'] at hnode
    have hof : (∀ g ∈ gates ++ [gateAt path .nullability "non-null"], α.lookup g.dimension = some g.point) →
        ProducesAccepted env α of path place inside := fun hgate =>
      ih (wellFormed_child hvalid List.mem_cons_self) ((forall_placed.1 h).2 _ List.mem_cons_self) hgate
        ((forall_nodes.1 hkeys).2 _ List.mem_cons_self) fun n q b hn => hex n q b (.nonNull hn)
    obtain hpin | hpin := decided_nullability h hgates
    · have hnonnull : pin α path .nullability = some "non-null" := hpin
      obtain ⟨haccepted, hpresent⟩ := hof (gates_append hgates hpin)
      have hgenerated : generated α ⟨e, g, .nullable of⟩ path = generated α of path := by
        simp only [generated, hpin]
        rfl
      refine ⟨?_, fun _ => hgenerated ▸ hpresent hnode.1⟩
      rw [accepts_nullable, hnonnull, if_neg (by decide), if_pos rfl, hgenerated]
      exact haccepted
    · have hnull : pin α path .nullability = some "null" := hpin
      refine produces_document (v := .null) (by simp only [generated, hpin]; rfl) ?_
      rw [accepts_nullable, hnull, if_pos rfl]
      rfl
  | oneOf e g discriminator alternatives default ih =>
    have hnode := (wellFormed_mk.1 hvalid).2.1
    simp only [nodeValid, Bool.and_eq_true, List.all_eq_true, Bool.not_eq_true'] at hnode
    obtain ⟨p, hp, hpin⟩ := decided_alternative hvalid h hgates
    have hpinned : pin α path .alternative = some p.1 := hpin
    cases hfind : alternatives.find? fun q => q.1 == p.1 with
    | none => exact absurd (List.find?_eq_none.1 hfind p hp) (by simp)
    | some q =>
      have hq := List.mem_of_find?_eq_some hfind
      have hname : q.1 = p.1 := by simpa using List.find?_some hfind
      have hproduced : ProducesAccepted env α q.2 (Path.alternative path q.1) place inside :=
        ih q hq (wellFormed_child hvalid (List.mem_map_of_mem hq)) ((forall_placed.1 h).2 _ (List.mem_map_of_mem hq))
          (gates_append hgates (hname ▸ hpin)) ((forall_nodes.1 hkeys).2 _ (List.mem_map_of_mem hq))
          fun n q' b hn => hex n q' b (.alternative q hq hn)
      obtain ⟨haccepted, hpresent⟩ := hproduced
      have hgenerated : generated α ⟨e, g, .oneOf discriminator alternatives default⟩ path =
          generated α q.2 (Path.alternative path q.1) := by
        simp only [generated, chosenName, hpin, Option.some_or, Option.bind_some, generatedAlternative_eq, hfind]
      have hchosen : pinnedAlternative α path alternatives = some q := by
        rw [pinnedAlternative, hpinned, Option.bind_some, hfind]
      refine ⟨?_, fun _ => hgenerated ▸ hpresent (hnode.1.2 q hq)⟩
      rw [accepts_oneOf, hchosen, hgenerated]
      exact haccepted

end Nodes

/-! Whole plans. -/

/-- The plan compiled under a complete assignment matches what is produced under it, where every leaf accepts its own
example in the form it takes where it stands. -/
theorem produced_value_matches (slot : Slot) (env : Env) (S : ShapeNode) (α : Assignment) (hS : WellFormed S)
    (hkeys : ∀ n ∈ nodes S, keyless n.kind = true) (hex : AllExemplified env S ("$." ++ slot.root) false)
    (hα : CompleteFor (compute S slot.root) α) {g : Generated} (hg : generated α S slot.root = some g) :
    slot.verdict env S α (standing false g) = .matched := by
  have hdecided := decided_of_completeFor hα hS.tree fun _ hd => hd
  have hproduced := (produces_accepted hS.tree hdecided (by simp) hkeys hex).accepted
  rw [hg] at hproduced
  rw [matched_iff hS.tree (isDocument_standing false g)]
  exact accepts_of_strict S hproduced

private theorem stands_mem {n S : ShapeNode} {q place : String} {b inside : Bool} (h : Stands n q b S place inside) :
    n ∈ nodes S := by
  have hchild : ∀ {e : Option Example} {g : Option Json} {k : ShapeKind} {c : ShapeNode}, c ∈ children k →
      n ∈ nodes c → n ∈ nodes ⟨e, g, k⟩ := by
    intro e g k c hc hn
    rw [nodes_eq]
    exact List.mem_cons_of_mem _ (List.mem_flatMap.2 ⟨c, hc, hn⟩)
  induction h with
  | here => exact mem_nodes_self n
  | member p hp _ ih | alternative p hp _ ih => exact hchild (List.mem_map_of_mem hp) ih
  | entry i s hs _ ih | found i s hs _ ih => exact hchild (List.mem_of_getElem? hs) ih
  | item i _ ih => exact hchild List.mem_cons_self ih
  | value i _ ih => exact hchild List.mem_cons_self ih
  | present _ ih | nonNull _ ih => exact hchild List.mem_cons_self ih

/-- A shape's leaves are exemplified where it stands if they are everywhere. -/
theorem allExemplified_of_nodes {env : Env} {S : ShapeNode} {place : String} {inside : Bool}
    (h : ∀ n ∈ nodes S, isLeaf n.kind = true → ∀ q b, Exemplified env n q b) : AllExemplified env S place inside :=
  fun n q b hn hleaf => h n (stands_mem hn) hleaf q b

/-- A shop: a name, perhaps a note, and among its tags one that is empty and one that is any text. -/
private def shop : ShapeNode :=
  .of (.object [("name", ⟨some ⟨.string "corner", none⟩, none, .notEmpty⟩),
    ("note", .of (.optional (.of (.nullable (.equalTo (.string "open")))))),
    ("tags", .of (.contains [.equalTo (.string ""), ⟨some ⟨.string "x", none⟩, none, .kind .string⟩]))])

private def shopWithoutNote : Assignment :=
  complete (compute shop bodySlot.root) [("response.body.note#presence", "absent")]

theorem produced_value_matches_shop :
    bodySlot.verdict bareEnv shop shopWithoutNote
      (standing false (.document (.object [("name", .string "corner"), ("tags", .array [.string "", .string "x"])]))) =
        .matched := by
  refine produced_value_matches bodySlot bareEnv shop shopWithoutNote (by decide) (by decide)
    (allExemplified_of_nodes ?_) ⟨by decide, by decide⟩ ?_
  · intro n hn hleaf q b
    simp only [shop, ShapeNode.of, ShapeNode.equalTo, nodes, nodesUnder, nodesOfMembers, nodesOfEntries, List.cons_append,
      List.nil_append, List.append_nil, List.mem_cons, List.not_mem_nil, or_false] at hn
    obtain rfl | rfl | rfl | rfl | rfl | rfl | rfl | rfl := hn
    · exact absurd hleaf (by decide)
    · exact ⟨_, rfl, rfl⟩
    · exact absurd hleaf (by decide)
    · exact absurd hleaf (by decide)
    · exact ⟨_, rfl, rfl⟩
    · exact absurd hleaf (by decide)
    · exact ⟨_, rfl, rfl⟩
    · exact ⟨_, rfl, rfl⟩
  · rfl

/-- An object whose one member is an equality to octets. -/
private def octetMember : ShapeNode :=
  .of (.object [("a", ⟨some ⟨.string "AQ==", some "base64"⟩, none, .equality⟩)])

/-- The leaf accepts the octets, the document produced has their text, and the plan does not match it. -/
theorem octets_in_a_document_are_not_matched :
    WellFormed octetMember ∧ (∀ n ∈ nodes octetMember, keyless n.kind = true) ∧
      (∀ n ∈ nodes octetMember, isLeaf n.kind = true →
        ∃ e, n.example? = some e ∧ ∀ q, accepts true bareEnv [] n "" q (standing false (exampleOf e)) = true) ∧
      CompleteFor (compute octetMember bodySlot.root) [] ∧
      generated [] octetMember bodySlot.root = some (.document (.object [("a", .string "AQ==")])) ∧
      bodySlot.verdict bareEnv octetMember [] (standing false (.document (.object [("a", .string "AQ==")]))) ≠ .matched := by
  refine ⟨by decide, by decide, ?_, ⟨by decide, by decide⟩, by rfl, fun hmatched => ?_⟩
  · intro n hn hleaf
    simp only [octetMember, ShapeNode.of, nodes, nodesUnder, nodesOfMembers, List.append_nil, List.mem_cons,
      List.not_mem_nil, or_false] at hn
    obtain rfl | rfl := hn
    · exact absurd hleaf (by decide)
    · exact ⟨_, rfl, fun q => by rfl⟩
  · have haccepts := (matched_iff (by decide) (by rfl)).1 hmatched
    exact absurd haccepts (by decide)

end PactJanus.Variant.Production
