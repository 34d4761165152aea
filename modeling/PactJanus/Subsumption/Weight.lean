import Mathlib.Algebra.Order.BigOperators.Group.List
import PactJanus.Subsumption.Compare

namespace PactJanus.Subsumption.Weight

open PactJanus.Data.Json PactJanus.Lib PactJanus.Lib.Lists PactJanus.Shape PactJanus.Shape.Model PactJanus.Shape.Nodes
  PactJanus.Subsumption.Findings PactJanus.Subsumption.Classes PactJanus.Subsumption.Compare
  PactJanus.Subsumption.Compare.Walk

/-! The walk on a pair goes no deeper than the pair's weight. -/

theorem weight_mk (e : Option Example) (g : Option Json) (k : ShapeKind) :
    weight ⟨e, g, k⟩ = ownWeight k + ((children k).map weight).sum := by
  have hsum : ∀ cs : List ShapeNode,
      ((cs.flatMap nodes).map fun n => ownWeight n.kind).sum = (cs.map weight).sum := by
    intro cs
    induction cs with
    | nil => rfl
    | cons c rest ih => simp [weight, ih]
  rw [weight, nodes_eq, List.map_cons, List.sum_cons, hsum]
  rfl

private theorem ownWeight_pos (k : ShapeKind) : 0 < ownWeight k := by
  cases k <;> simp [ownWeight]

theorem weight_pos (S : ShapeNode) : 0 < weight S := by
  obtain ⟨e, g, k⟩ := S
  have hown := ownWeight_pos k
  rw [weight_mk]
  omega

theorem weight_child {e : Option Example} {g : Option Json} {k : ShapeKind} {c : ShapeNode} (hc : c ∈ children k) :
    weight c < weight ⟨e, g, k⟩ := by
  have hown := ownWeight_pos k
  have hle : weight c ≤ ((children k).map weight).sum := List.le_sum_of_mem (List.mem_map_of_mem hc)
  rw [weight_mk]
  omega

/-- The shape a map's keys are compared by weighs less than the map, though it may be none of the map's own. -/
theorem weight_keys {e : Option Example} {g : Option Json} {keys : Option ShapeNode} {values : ShapeNode} {min : UInt64}
    {max : Option UInt64} : weight (keys.getD anyNode) < weight ⟨e, g, .eachEntry keys values min max⟩ := by
  cases keys with
  | some k => exact weight_child List.mem_cons_self
  | none =>
    have hany : weight anyNode = 1 := rfl
    have hpos := weight_pos values
    have hvalues : weight values < weight ⟨e, g, .eachEntry none values min max⟩ := weight_child List.mem_cons_self
    rw [Option.getD_none, hany]
    omega

/-- A node's residual shape weighs no more than the node. -/
theorem weight_rest {S rest : ShapeNode} (h : (decompose S).rest = some rest) : weight rest ≤ weight S := by
  induction S with
  | optional e g of ih | nullable e g of ih =>
    have hof := ih (by simpa [decompose] using h)
    exact hof.trans (weight_child List.mem_cons_self).le
  | leaf e g k hk =>
    cases k with
    | equality =>
      simp only [decompose] at h
      split at h
      · exact absurd h (by simp)
      · exact (Option.some.inj h) ▸ le_rfl
    | anyOf options =>
      simp only [decompose] at h
      split at h
      · simp only [Option.ite_none_left_eq_some, Option.some.injEq] at h
        rw [← h.2, weight_mk, weight_mk]
        exact le_rfl
      · exact (Option.some.inj h) ▸ le_rfl
    | kind k =>
      cases k with
      | null => exact absurd h (by simp [decompose])
      | _ => exact (Option.some.inj h) ▸ le_rfl
    | forbidden => exact absurd h (by simp [decompose])
    | _ => first | exact (Option.some.inj h) ▸ le_rfl | exact absurd hk (by simp [isLeaf])
  | _ => exact (Option.some.inj h) ▸ le_rfl

theorem weight_desugared (S : ShapeNode) : weight ((desugar S).getD S) ≤ weight S := by
  obtain ⟨e, g, k⟩ := S
  unfold desugar
  split
  · rename_i x hk he
    obtain rfl : k = .type := hk
    split
    · exact le_rfl
    · rw [Option.getD_some, ShapeNode.of, weight_mk, weight_mk]
      cases x.value <;> simp [ownWeight, children, anyNode, ShapeNode.of, weight_mk]
  · exact le_rfl

/-! The alternatives that literals lead to. -/

/-- What a union is searched by: each of its literals' keys, with an alternative that has the literal. -/
theorem mem_byDiscriminator {alternatives : List (String × ShapeNode)} {discriminator : String}
    {q : String × (String × ShapeNode)} (h : q ∈ byDiscriminator alternatives discriminator) :
    q.2 ∈ alternatives ∧ ∃ literal ∈ discriminatorLiterals q.2.2 discriminator, q.1 = literalKey literal := by
  obtain h | h := SortedMap.mem_of_mem_foldl_insert h
  · exact absurd h (by simp)
  · obtain ⟨p, hp, hliteral⟩ := List.mem_flatMap.1 h
    obtain ⟨literal, hmem, rfl⟩ := List.mem_map.1 hliteral
    exact ⟨hp, literal, hmem, rfl⟩

theorem mem_matchedAlternative {alternatives : List (String × ShapeNode)} {discriminator : String}
    {literals : List Json} {q : String × ShapeNode}
    (h : matchedAlternative (byDiscriminator alternatives discriminator) literals = some q) : q ∈ alternatives := by
  unfold matchedAlternative at h
  split at h
  · obtain ⟨r, hr, rfl⟩ := List.mem_map.1 (List.mem_of_find?_eq_some h)
    exact (mem_byDiscriminator hr).1
  · exact absurd h (by simp)

/-! Two walks that answer alike on every lighter pair answer alike on a pair. -/

section Congr

variable {walk : Walk} {node node' : NodeWalk} {p c : ShapeNode} {at' : String}

/-- The two walks agree on every pair lighter than a given one. -/
def AgreeBelow (node node' : NodeWalk) (bound : Nat) : Prop :=
  ∀ p c at', weight p + weight c < bound → node p c at' = node' p c at'

private theorem collections_congr (h : AgreeBelow node node' (weight p + weight c)) :
    walk.collections node p c at' = walk.collections node' p c at' := by
  obtain ⟨pe, pg, pk⟩ := p
  obtain ⟨ce, cg, ck⟩ := c
  have hpair : ∀ p' ∈ children pk, ∀ c' ∈ children ck, ∀ at', node p' c' at' = node' p' c' at' := fun p' hp c' hc at' =>
    h p' c' at' (Nat.add_lt_add (weight_child hp) (weight_child hc))
  unfold collections
  simp only [ShapeNode.kind_mk]
  split
  · rename_i ps cs
    congr 1
    refine List.map_congr_left fun q hq => ?_
    unfold member
    cases hlookup : ps.lookup q.1 with
    | none => rfl
    | some p' =>
      exact hpair p' (List.mem_map_of_mem (f := Prod.snd) (mem_of_lookup hlookup)) q.2
        (List.mem_map_of_mem (mem_membersByName.1 hq)) _
  · rename_i ps cs
    split
    · rfl
    · congr 1
      refine List.ext_getElem (by simp) fun i hi hi' => ?_
      simp only [List.getElem_mapIdx, List.getElem_zip]
      exact hpair _ (List.getElem_mem _) _ (List.getElem_mem _) _
  · rw [hpair _ List.mem_cons_self _ List.mem_cons_self]
  · rename_i p' pmin pmax cs
    congr 2
    refine List.ext_getElem (by simp) fun i hi hi' => ?_
    simp only [List.getElem_mapIdx]
    exact hpair _ List.mem_cons_self _ (List.getElem_mem _) _
  · rename_i ps c' cmin cmax
    congr 2
    refine List.ext_getElem (by simp) fun i hi hi' => ?_
    simp only [List.getElem_mapIdx]
    exact hpair _ (List.getElem_mem _) _ List.mem_cons_self _
  · rename_i pk' p' pmin pmax ck' c' cmin cmax
    have hvalues := hpair p' (List.mem_append_right _ List.mem_cons_self) c' (List.mem_append_right _ List.mem_cons_self)
    have hkeys : node (pk'.getD anyNode) (ck'.getD anyNode) (Path.eachEntryKey at') =
        node' (pk'.getD anyNode) (ck'.getD anyNode) (Path.eachEntryKey at') := by
      exact h _ _ _ (Nat.add_lt_add weight_keys weight_keys)
    rw [hvalues, hkeys]
  · rfl

private theorem exact_congr (h : AgreeBelow node node' (weight p + weight c)) :
    walk.exact node p c at' = walk.exact node' p c at' := by
  obtain ⟨pe, pg, pk⟩ := p
  obtain ⟨ce, cg, ck⟩ := c
  have hcollections : walk.collections node ⟨pe, pg, pk⟩ ⟨ce, cg, ck⟩ at' =
      walk.collections node' ⟨pe, pg, pk⟩ ⟨ce, cg, ck⟩ at' := collections_congr h
  unfold Walk.exact
  simp only [ShapeNode.kind_mk]
  split
  · rename_i pd ps _ cd cs _
    unfold oneOfPair
    split
    · rfl
    · refine congrArg Out.all (List.map_congr_left fun q hq => ?_)
      dsimp only
      split
      · rename_i matched hmatched
        refine h _ _ _ (Nat.add_lt_add (weight_child (List.mem_map_of_mem hq)) ?_)
        exact weight_child (List.mem_map_of_mem (mem_matchedAlternative hmatched))
      · rfl
  · rename_i pd ps _ _
    congr 1
    refine List.map_congr_left fun q hq => ?_
    exact h _ _ _ (Nat.add_lt_add_right (weight_child (List.mem_map_of_mem hq)) _)
  · rename_i cd cs _ _
    unfold insideAlternative
    split
    · rename_i matched hmatched
      refine h _ _ _ (Nat.add_lt_add_left ?_ _)
      exact weight_child (List.mem_map_of_mem (mem_matchedAlternative hmatched))
    · rfl
  · exact hcollections

private theorem table_congr (h : AgreeBelow node node' (weight p + weight c)) :
    walk.table node p c at' = walk.table node' p c at' := by
  unfold table
  rw [exact_congr h]

private theorem operators_congr (h : AgreeBelow node node' (weight p + weight c)) :
    walk.operators node p c at' = walk.operators node' p c at' := by
  have hle := Nat.add_le_add (weight_desugared p) (weight_desugared c)
  unfold operators
  rw [table_congr fun p' c' at' hlt => h p' c' at' (hlt.trans_le hle)]

theorem valueNode_congr (h : AgreeBelow node node' (weight p + weight c)) :
    walk.valueNode node p c at' = walk.valueNode node' p c at' := by
  unfold valueNode
  split
  · rfl
  · dsimp only
    split
    · rfl
    · rfl
    · rename_i hp hc
      have hle := Nat.add_le_add (weight_rest hp) (weight_rest hc)
      rw [operators_congr fun p' c' at' hlt => h p' c' at' (hlt.trans_le hle)]

end Congr

/-- A pair's weight is depth enough: no deeper walk answers otherwise. -/
theorem nodeWithin_eq (walk : Walk) (p c : ShapeNode) (at' : String) {fuel : Nat} (h : weight p + weight c ≤ fuel) :
    walk.nodeWithin fuel p c at' = walk.node p c at' := by
  have hstep : ∀ bound m n, (∀ p c at', weight p + weight c ≤ bound → weight p + weight c ≤ m →
      weight p + weight c ≤ n → walk.nodeWithin m p c at' = walk.nodeWithin n p c at') := by
    intro bound
    induction bound with
    | zero =>
      intro m n p c at' hbound
      exact absurd (weight_pos p) (by omega)
    | succ bound ih =>
      intro m n p c at' hbound hm hn
      have hpos := weight_pos p
      match m, n, hm, hn with
      | m + 1, n + 1, hm, hn =>
        rw [nodeWithin, nodeWithin]
        congr 1
        exact valueNode_congr fun p' c' at' hlt => ih m n p' c' at' (by omega) (by omega) (by omega)
      | 0, _, hm, _ => omega
      | _, 0, _, hn => omega
  exact hstep _ _ _ p c at' le_rfl h le_rfl

/-- The walk on a pair is the comparison of the pair, its caveat attached, by the walk itself. -/
theorem node_eq (walk : Walk) (p c : ShapeNode) (at' : String) :
    walk.node p c at' = walk.caveat (walk.valueNode walk.node p c at') p c at' := by
  have hpos := weight_pos p
  rw [node]
  obtain ⟨fuel, hfuel⟩ : ∃ fuel, weight p + weight c = fuel + 1 := ⟨weight p + weight c - 1, by omega⟩
  rw [hfuel, nodeWithin]
  congr 1
  exact valueNode_congr fun p' c' at' hlt => nodeWithin_eq walk p' c' at' (by omega)

end PactJanus.Subsumption.Weight
