import PactJanus.Shape.Alternatives
import PactJanus.Subsumption.Residual

namespace PactJanus.Subsumption.Scope

open PactJanus.Data.Json PactJanus.Data.Equality PactJanus.Lib.Lists PactJanus.Shape.Model PactJanus.Shape.Valid
  PactJanus.Shape.Nodes PactJanus.Shape.Admits PactJanus.Shape.Alternatives PactJanus.Subsumption.Classes
  PactJanus.Subsumption.Residual

/-! The shapes a comparison is stated of, and the identity of two of them. -/

/-- The operators compared by what they admit of documents. -/
def isCompared : ShapeKind → Bool
  | .component .. | .regex _ | .temporal .. | .includes _ | .contentType _ | .semver | .contains _ => false
  | .kind .integer | .kind .decimal => false
  | _ => true

/-- A node whose example, if it has one, is a document. -/
def isPlain (node : ShapeNode) : Bool := node.example?.all fun e => e.encoded.isNone

/-- A valid tree of the compared operators, with documents for examples. -/
structure Compared (S : ShapeNode) : Prop where
  tree : wellFormed S = true
  nodes : ∀ n ∈ nodes S, isCompared n.kind = true ∧ isPlain n = true

/-- Every value one shape admits the other admits. -/
def Within (p c : ShapeNode) : Prop :=
  ∀ slot : Option Json, (∀ v ∈ slot, distinctKeys v = true) → admitsContent p slot = true → admitsContent c slot = true

/-- Containment, of the value in a slot. -/
theorem Within.some {p c : ShapeNode} (h : Within p c) {v : Json} (hv : distinctKeys v = true)
    (hadmits : admitsContent p (some v) = true) : admitsContent c (some v) = true :=
  h _ (fun _ hw => Option.mem_some.1 hw ▸ hv) hadmits

namespace Compared

variable {S c rest : ShapeNode} {e : Option Example} {g : Option Json} {k : ShapeKind}

theorem child (h : Compared ⟨e, g, k⟩) (hc : c ∈ children k) : Compared c :=
  ⟨wellFormed_child h.tree hc, (forall_nodes.1 h.nodes).2 c hc⟩

theorem kind (h : Compared ⟨e, g, k⟩) : isCompared k = true := (forall_nodes.1 h.nodes).1.1

theorem plain (h : Compared ⟨e, g, k⟩) : e.all (fun x => x.encoded.isNone) = true := (forall_nodes.1 h.nodes).1.2

theorem valid (h : Compared ⟨e, g, k⟩) : nodeValid e k = true := (wellFormed_mk.1 h.tree).2.1

/-- A leaf is compared where it is valid, of a compared operator, and carries a document. -/
theorem of_leaf (hk : isLeaf k = true) (hexample : exampleValid e = true) (hvalid : nodeValid e k = true)
    (hkind : isCompared k = true) (hplain : e.all (fun x => x.encoded.isNone) = true) : Compared ⟨e, g, k⟩ := by
  have hnone : ∀ c, c ∉ children k := by cases k <;> simp [isLeaf] at hk <;> simp [children]
  refine ⟨wellFormed_iff.2 (forall_nodes.2 ⟨⟨hexample, hvalid⟩, fun c hc => absurd hc (hnone c)⟩), ?_⟩
  exact forall_nodes.2 ⟨⟨hkind, hplain⟩, fun c hc => absurd hc (hnone c)⟩

theorem any : Compared anyNode := of_leaf rfl rfl rfl rfl rfl

theorem keys {keys : Option ShapeNode} {values : ShapeNode} {min : UInt64} {max : Option UInt64}
    (h : Compared ⟨e, g, .eachEntry keys values min max⟩) : Compared (keys.getD anyNode) := by
  cases keys with
  | none => exact any
  | some k => exact h.child List.mem_cons_self

/-- The example of a plain node is the document it stands for. -/
theorem exampleDocument_eq (h : Compared ⟨e, g, k⟩) : exampleDocument e = e.map Example.value := by
  cases e with
  | none => rfl
  | some x =>
    have hx : x.encoded = none := by simpa using h.plain
    simp [exampleDocument, hx]

theorem plainExample_eq (h : Compared ⟨e, g, k⟩) : plainExample ⟨e, g, k⟩ = e.map Example.value := by
  cases e with
  | none => rfl
  | some x =>
    have hx : x.encoded = none := by simpa using h.plain
    simp [plainExample, hx]

private theorem pairwise_filter {options : List Json} (h : pairwise (fun a b => !valuesEqual b a) options = true)
    (keep : Json → Bool) : pairwise (fun a b => !valuesEqual b a) (options.filter keep) = true := by
  rw [pairwise_iff] at h ⊢
  exact h.sublist List.filter_sublist

private theorem not_null_of_equal {a b : Json} (h : valuesEqual a b = true) : isNull a = isNull b := by
  cases a <;> cases b <;> first | rfl | exact absurd h (by simp [valuesEqual, equalBy])

private theorem anyOf_rest {options : List Json} (h : Compared ⟨e, g, .anyOf options⟩)
    (hsome : ¬ (options.filter fun o => !isNull o).isEmpty = true) :
    Compared ⟨e.filter fun x => !isNullExample x, none, .anyOf (options.filter fun o => !isNull o)⟩ := by
  obtain ⟨hexample, hnode, -⟩ := wellFormed_mk.1 h.tree
  have hplain := h.plain
  simp only [nodeValid, Bool.and_eq_true, List.all_eq_true, Bool.not_eq_true'] at hnode
  obtain ⟨⟨⟨-, hdistinct⟩, hpairwise⟩, hoption⟩ := hnode
  refine of_leaf rfl ?_ ?_ rfl ?_
  · cases e with
    | none => rfl
    | some x =>
      cases hx : isNullExample x with
      | true => simp [Option.filter_some, hx, exampleValid]
      | false => simpa [Option.filter_some, hx, exampleValid] using hexample
  · simp only [nodeValid, Bool.and_eq_true, List.all_eq_true, Bool.not_eq_true']
    refine ⟨⟨⟨by simpa using hsome, fun o ho => hdistinct o (List.mem_filter.1 ho).1⟩, pairwise_filter hpairwise _⟩, ?_⟩
    cases e with
    | none => rfl
    | some x =>
      cases hx : isNullExample x with
      | true => simp [Option.filter_some, hx]
      | false =>
        have hencoded : x.encoded = none := by simpa using hplain
        have hvalue : isNull x.value = false := by simpa [isNullExample, hencoded] using hx
        simp only [Option.filter_some, hx, Bool.not_false, if_true, Option.all_some, List.any_eq_true] at hoption ⊢
        obtain ⟨o, ho, heq⟩ := hoption
        exact ⟨o, List.mem_filter.2 ⟨ho, by rw [not_null_of_equal heq, hvalue]; rfl⟩, heq⟩
  · cases e with
    | none => rfl
    | some x =>
      cases hx : isNullExample x with
      | true => simp [Option.filter_some, hx]
      | false => simpa [Option.filter_some, hx] using hplain

theorem rest_of (h : Compared S) (hrest : (decompose S).rest = some rest) : Compared rest := by
  induction S with
  | optional e g of ih | nullable e g of ih =>
    exact ih (h.child List.mem_cons_self) (by simpa [decompose] using hrest)
  | leaf e g k hk =>
    cases k with
    | equality =>
      by_cases hnull : e.any isNullExample = true
      · exact absurd hrest (by simp [decompose, hnull])
      · obtain rfl : ⟨e, g, .equality⟩ = rest := by simpa [decompose, hnull] using hrest
        exact h
    | anyOf options =>
      by_cases hnull : options.any isNull = true
      · simp only [decompose, hnull, if_true, Option.ite_none_left_eq_some, Option.some.injEq] at hrest
        obtain ⟨hsome, rfl⟩ := hrest
        exact anyOf_rest h hsome
      · obtain rfl : ⟨e, g, .anyOf options⟩ = rest := by
          simpa only [decompose, hnull, if_false, Bool.false_eq_true, Option.some.injEq] using hrest
        exact h
    | kind k =>
      cases k with
      | null => exact absurd hrest (by simp [decompose])
      | _ => exact (Option.some.inj hrest) ▸ h
    | forbidden => exact absurd hrest (by simp [decompose])
    | object | array | eachLike | eachEntry | contains | optional | nullable | oneOf =>
      exact absurd hk (by simp [isLeaf])
    | _ => exact (Option.some.inj hrest) ▸ h
  | _ => exact (Option.some.inj hrest) ▸ h

/-! `type`, written as the operator it is equivalent to. -/

private theorem desugar_cases (S : ShapeNode) : desugar S = none ∨ ∃ x g, S = ⟨some x, g, .type⟩ ∧ x.encoded = none := by
  obtain ⟨e, g, k⟩ := S
  unfold desugar
  split
  · rename_i x hk he
    obtain rfl : k = .type := hk
    obtain rfl : e = some x := he
    cases hx : x.encoded with
    | some _ => exact Or.inl rfl
    | none => exact Or.inr ⟨x, g, rfl, hx⟩
  · exact Or.inl rfl

private theorem desugar_type (x : Example) (g : Option Json) (hx : x.encoded = none) :
    desugar ⟨some x, g, .type⟩ = some (.of (match x.value with
      | .null => .kind .null
      | .bool _ => .kind .boolean
      | .number _ => .kind .number
      | .string _ => .kind .string
      | .object _ => .object []
      | .array _ => .eachLike anyNode 0 none)) := by
  simp only [desugar, ShapeNode.kind_mk, ShapeNode.example?_mk, hx]
  rfl

theorem desugared (h : Compared S) : Compared ((desugar S).getD S) := by
  obtain hnone | ⟨x, g, rfl, hx⟩ := desugar_cases S
  · rw [hnone]
    exact h
  · rw [desugar_type x g hx, Option.getD_some]
    cases x.value with
    | object members =>
      have hobject : Compared (.of (.object [])) := ⟨by decide, by decide⟩
      exact hobject
    | array items =>
      have harray : Compared (.of (.eachLike anyNode 0 none)) := ⟨by decide, by decide⟩
      exact harray
    | _ => exact of_leaf rfl rfl rfl rfl rfl

theorem desugared_residual (h : isResidual S.kind = true) : isResidual ((desugar S).getD S).kind = true := by
  obtain hnone | ⟨x, g, rfl, hx⟩ := desugar_cases S
  · rw [hnone]
    exact h
  · rw [desugar_type x g hx, Option.getD_some]
    cases x.value <;> rfl

/-- What `type` is written as admits what it admits. -/
theorem admits_desugared (h : Compared S) (slot : Option Json) :
    admitsContent ((desugar S).getD S) slot = admitsContent S slot := by
  obtain hnone | ⟨x, g, rfl, hx⟩ := desugar_cases S
  · rw [hnone]
    rfl
  · rw [desugar_type x g hx, Option.getD_some]
    have htype : admitsContent ⟨some x, g, .type⟩ slot = slot.any fun v => sameKind v x.value := by
      cases slot with
      | none => rfl
      | some v => simp [admitsContent, admitsWith, Shape.Admits.admitsValue, h.exampleDocument_eq]
    rw [htype]
    cases slot with
    | none => cases x.value <;> rfl
    | some v =>
      cases x.value with
      | array items =>
        cases v with
        | array elements =>
          simp [admitsContent, admitsWith, withinBounds, sameKind, ShapeNode.of, anyNode, Shape.Admits.admitsValue]
        | _ => rfl
      | _ => cases v <;> rfl

end Compared

end PactJanus.Subsumption.Scope
