import PactJanus.Data.Equality
import PactJanus.Shape.Admits

namespace PactJanus.Shape.Alternatives

open PactJanus.Data.Json PactJanus.Data.Equality PactJanus.Lib.Lists PactJanus.Shape.Model PactJanus.Shape.Valid
  PactJanus.Shape.Nodes PactJanus.Shape.Admits

/-! The alternatives of a valid union are told apart by their discriminators. -/

theorem pairwise_iff {α : Type} {related : α → α → Bool} {l : List α} :
    pairwise related l = true ↔ l.Pairwise fun a b => related a b = true := by
  induction l with
  | nil => simp [pairwise]
  | cons a rest ih => simp [pairwise, ih]

/-- The node a discriminator's literals are taken from. -/
def discriminatorNode (discriminator : String) (alternative : ShapeNode) : Option ShapeNode :=
  (unwrapObjectMembers alternative).bind fun members => members.lookup discriminator

private theorem mem_nodes_of_child {e : Option Example} {g : Option Json} {k : ShapeKind} {c n : ShapeNode}
    (hc : c ∈ children k) (hn : n ∈ nodes c) : n ∈ nodes ⟨e, g, k⟩ := by
  rw [nodes_eq]
  exact List.mem_cons_of_mem _ (List.mem_flatMap.2 ⟨c, hc, hn⟩)

private theorem mem_nodes_of_members {members : List (String × ShapeNode)} {alternative : ShapeNode}
    (h : unwrapObjectMembers alternative = some members) {p : String × ShapeNode} (hp : p ∈ members) :
    p.2 ∈ nodes alternative := by
  have hself := mem_nodes_self p.2
  obtain ⟨e, g, k⟩ := alternative
  cases k with
  | object ms =>
    obtain rfl : ms = members := Option.some.inj h
    exact mem_nodes_of_child (List.mem_map_of_mem hp) hself
  | nullable of =>
    obtain ⟨e', g', k'⟩ := of
    cases k' with
    | object ms =>
      obtain rfl : ms = members := Option.some.inj h
      exact mem_nodes_of_child List.mem_cons_self (mem_nodes_of_child (List.mem_map_of_mem hp) hself)
    | _ => exact absurd h (by simp [unwrapObjectMembers])
  | _ => exact absurd h (by simp [unwrapObjectMembers])

theorem discriminatorNode_mem {discriminator : String} {alternative n : ShapeNode}
    (h : discriminatorNode discriminator alternative = some n) : n ∈ nodes alternative := by
  obtain ⟨members, hmembers, hlookup⟩ := Option.bind_eq_some_iff.1 h
  exact mem_nodes_of_members hmembers (mem_of_lookup hlookup)

/-- The literals a member's shape binds it to, where it binds it to literals. -/
def literalsOf : ShapeNode → Option (List Json)
  | ⟨some e, _, .equality⟩ => some [e.value]
  | ⟨_, _, .anyOf options⟩ => some options
  | _ => none

theorem discriminatorOptions_eq (discriminator : String) (alternative : ShapeNode) :
    discriminatorOptions discriminator alternative = (discriminatorNode discriminator alternative).bind literalsOf := by
  unfold discriminatorOptions discriminatorNode
  cases (unwrapObjectMembers alternative).bind fun members => members.lookup discriminator with
  | none => rfl
  | some n =>
    obtain ⟨e, g, k⟩ := n
    cases k <;> cases e <;> rfl

theorem literalsOf_cases {n : ShapeNode} {options : List Json} (h : literalsOf n = some options) :
    (∃ e g, n = ⟨some e, g, .equality⟩ ∧ options = [e.value]) ∨ ∃ e g, n = ⟨e, g, .anyOf options⟩ := by
  obtain ⟨e, g, k⟩ := n
  cases k with
  | equality =>
    cases e with
    | none => exact absurd h (by simp [literalsOf])
    | some e => exact Or.inl ⟨e, g, rfl, (Option.some.inj h).symm⟩
  | anyOf os =>
    obtain rfl : os = options := by cases e <;> exact Option.some.inj h
    exact Or.inr ⟨e, g, rfl⟩
  | _ => exact absurd h (by cases e <;> simp [literalsOf])

/-- The literals of a valid alternative: at least one, each a document. -/
theorem options_valid {discriminator : String} {alternative : ShapeNode} {options : List Json}
    (hvalid : wellFormed alternative = true) (h : discriminatorOptions discriminator alternative = some options) :
    options ≠ [] ∧ ∀ o ∈ options, distinctKeys o = true := by
  rw [discriminatorOptions_eq] at h
  obtain ⟨n, hn, hliterals⟩ := Option.bind_eq_some_iff.1 h
  obtain ⟨hexample, hkind⟩ := wellFormed_iff.1 hvalid n (discriminatorNode_mem hn)
  obtain ⟨e, g, rfl, rfl⟩ | ⟨e, g, rfl⟩ := literalsOf_cases hliterals
  · exact ⟨by simp, fun o ho => List.mem_singleton.1 ho ▸ hexample⟩
  · simp only [ShapeNode.kind_mk, nodeValid, Bool.and_eq_true, Bool.not_eq_true', List.all_eq_true] at hkind
    exact ⟨fun hnil => by simp [hnil] at hkind, hkind.1.1.2⟩

theorem selectedBy_iff {discriminator : String} {alternative : ShapeNode} {v : Json} :
    selectedBy discriminator alternative v = true ↔
      ∃ tag, get discriminator v = some tag ∧ ∃ options, discriminatorOptions discriminator alternative = some options ∧
        ∃ o ∈ options, valuesEqual tag o = true := by
  simp [selectedBy, Option.any_eq_true]

theorem distinctKeys_get {v tag : Json} {name : String} (hv : distinctKeys v = true) (h : get name v = some tag) :
    distinctKeys tag = true := by
  cases v with
  | object fields => exact (distinctKeys_object.1 hv).2 _ (mem_of_lookup h)
  | _ => exact absurd h (by simp [Data.Json.get])

/-- Two alternatives with disjoint literals are never both selected. -/
private theorem not_both_selected {discriminator : String} {p q : ShapeNode} {v : Json} (hv : distinctKeys v = true)
    (hp : wellFormed p = true)
    (hd : disjointValues ((discriminatorOptions discriminator p).getD [])
      ((discriminatorOptions discriminator q).getD []) = true) :
    ¬ (selectedBy discriminator p v = true ∧ selectedBy discriminator q v = true) := by
  rintro ⟨hsp, hsq⟩
  obtain ⟨tag, htag, os, hos, o, ho, heq⟩ := selectedBy_iff.1 hsp
  obtain ⟨tag', htag', os', hos', o', ho', heq'⟩ := selectedBy_iff.1 hsq
  obtain rfl : tag = tag' := Option.some.inj (htag.symm.trans htag')
  have hsymm := valuesEqual_symm (distinctKeys_get hv htag) ((options_valid hp hos).2 o ho) heq
  have hne := List.all_eq_true.1 (List.all_eq_true.1 hd o (by simpa [hos] using ho)) o' (by simpa [hos'] using ho')
  simp [valuesEqual_trans hsymm heq'] at hne

theorem selected_pairwise {discriminator : String} {alternatives : List (String × ShapeNode)} {v : Json}
    (halternatives : alternativesValid discriminator alternatives = true)
    (hvalid : ∀ p ∈ alternatives, wellFormed p.2 = true) (hv : distinctKeys v = true) :
    alternatives.Pairwise fun p q =>
      ¬ (selectedBy discriminator p.2 v = true ∧ selectedBy discriminator q.2 v = true) := by
  simp only [alternativesValid, Bool.and_eq_true, pairwise_iff, List.pairwise_map] at halternatives
  exact halternatives.2.imp_of_mem fun hp _ hd => not_both_selected hv (hvalid _ hp) hd

end PactJanus.Shape.Alternatives
