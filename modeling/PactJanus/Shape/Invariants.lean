import PactJanus.Shape.Nodes
import PactJanus.Shape.Parsed

namespace PactJanus.Shape.Invariants

open PactJanus.Data.Json PactJanus.Data.Equality PactJanus.Shape.Model PactJanus.Shape.Valid PactJanus.Shape.Nodes
  PactJanus.Shape.Parse PactJanus.Shape.Documents PactJanus.Shape.Accepted PactJanus.Shape.Alternatives
  PactJanus.Shape.Parsed

/-! What the readers of a shape take for granted of each of its nodes. -/

/-- Two lists of values that have no value in common. -/
def Disjoint (options others : List Json) : Prop := ∀ a ∈ options, ∀ b ∈ others, valuesEqual a b = false

structure Sound (node : ShapeNode) : Prop where
  absence : ∀ child ∈ children node.kind, admitsAbsent child = true → ∃ members, node.kind = .object members
  nullable : ∀ of, node.kind = .nullable of → ∀ inner, of.kind ≠ .nullable inner
  options : ∀ options, node.kind = .anyOf options →
    options ≠ [] ∧ options.Pairwise fun a b => valuesEqual a b = false
  alternatives : ∀ discriminator alternatives default, node.kind = .oneOf discriminator alternatives default →
    ∃ literals : String × ShapeNode → List Json,
      (∀ p ∈ alternatives, discriminatorOptions discriminator p.2 = some (literals p)) ∧
        alternatives.Pairwise fun p q => Disjoint (literals p) (literals q)
  eachLike : ∀ items min max, node.kind = .eachLike items min max → ∀ most ∈ max, min ≤ most
  eachEntry : ∀ keys values min max, node.kind = .eachEntry keys values min max → ∀ most ∈ max, min ≤ most

private theorem absence_sound {e? : Option Example} {kind : ShapeKind} (h : nodeValid e? kind = true) :
    ∀ child ∈ children kind, admitsAbsent child = true → ∃ members, kind = .object members := by
  have hpresent {child : ShapeNode} (hnot : admitsAbsent child = false) (hadmits : admitsAbsent child = true) :
      ∃ members, kind = .object members := by
    rw [hnot] at hadmits
    cases hadmits
  intro child hchild
  cases kind with
  | object members => exact fun _ => ⟨members, rfl⟩
  | array entries | contains entries =>
    simp only [nodeValid, Bool.and_eq_true, List.all_eq_true, Bool.not_eq_true'] at h
    exact hpresent (h.2 child hchild)
  | eachLike items min max =>
    simp only [nodeValid, Bool.and_eq_true, Bool.not_eq_true'] at h
    obtain rfl := List.mem_singleton.1 hchild
    exact hpresent h.2
  | eachEntry keys values min max =>
    simp only [nodeValid, Bool.and_eq_true, Option.all_eq_true, Bool.not_eq_true'] at h
    rcases List.mem_append.1 hchild with hkeys | hvalues
    · exact hpresent (h.1.2 child (Option.mem_toList.1 hkeys))
    · obtain rfl := List.mem_singleton.1 hvalues
      exact hpresent h.2
  | optional of =>
    simp only [nodeValid, Bool.not_eq_true'] at h
    obtain rfl := List.mem_singleton.1 hchild
    exact hpresent h
  | nullable of =>
    simp only [nodeValid, Bool.and_eq_true, Bool.not_eq_true'] at h
    obtain rfl := List.mem_singleton.1 hchild
    exact hpresent h.1
  | oneOf discriminator alternatives default =>
    simp only [nodeValid, Bool.and_eq_true, List.all_eq_true, Bool.not_eq_true'] at h
    obtain ⟨p, hp, rfl⟩ := List.mem_map.1 hchild
    exact hpresent (h.1.2 p hp)
  | _ => cases hchild

private theorem options_sound {e? : Option Example} {options : List Json} (h : nodeValid e? (.anyOf options) = true) :
    options ≠ [] ∧ options.Pairwise fun a b => valuesEqual a b = false := by
  simp only [nodeValid, Bool.and_eq_true, Bool.not_eq_true', List.isEmpty_eq_false_iff, List.all_eq_true,
    pairwise_iff] at h
  obtain ⟨⟨⟨hnonempty, hdistinct⟩, hpair⟩, -⟩ := h
  refine ⟨hnonempty, hpair.imp_of_mem fun ha hb hne => ?_⟩
  rw [valuesEqual_comm (hdistinct _ ha) (hdistinct _ hb)]
  exact hne

private theorem alternatives_sound {e? : Option Example} {discriminator : String}
    {alternatives : List (String × ShapeNode)} {default : Option String}
    (h : nodeValid e? (.oneOf discriminator alternatives default) = true) :
    ∃ literals : String × ShapeNode → List Json,
      (∀ p ∈ alternatives, discriminatorOptions discriminator p.2 = some (literals p)) ∧
        alternatives.Pairwise fun p q => Disjoint (literals p) (literals q) := by
  simp only [nodeValid, alternativesValid, Bool.and_eq_true, List.all_eq_true, pairwise_iff, List.pairwise_map] at h
  obtain ⟨⟨⟨⟨-, hsome⟩, hdisjoint⟩, -⟩, -⟩ := h
  refine ⟨fun p => (discriminatorOptions discriminator p.2).getD [], fun p hp => ?_, hdisjoint.imp fun h a ha b hb => ?_⟩
  · obtain ⟨literals, hliterals⟩ := Option.isSome_iff_exists.1 (hsome p hp)
    simp only [hliterals, Option.getD_some]
  · simp only [disjointValues, List.all_eq_true, Bool.not_eq_true'] at h
    exact h a ha b hb

theorem sound_of_nodeValid {e? : Option Example} {g : Option Json} {kind : ShapeKind} (h : nodeValid e? kind = true) :
    Sound ⟨e?, g, kind⟩ := by
  refine ⟨absence_sound h, ?_, ?_, ?_, ?_, ?_⟩
  · rintro ⟨e, g, inner⟩ rfl within rfl
    simp [nodeValid] at h
  · rintro options rfl
    exact options_sound h
  · rintro discriminator alternatives default rfl
    exact alternatives_sound h
  · rintro items min max rfl most rfl
    simp only [nodeValid, Bool.and_eq_true, Option.all_some, decide_eq_true_eq] at h
    exact h.1
  · rintro keys values min max rfl most rfl
    simp only [nodeValid, Bool.and_eq_true, Option.all_some, decide_eq_true_eq] at h
    exact h.1.1

/-- A shape that is parsed is sound at every node, within the limits, and says what its document says member by
member of what each node's operator reads. -/
theorem parse_sound {document : Json} (hd : distinctKeys document = true) {path : String} {shape : ShapeNode}
    (h : parse document path = .ok shape) :
    (∀ node ∈ nodes shape, Sound node) ∧ admitsAbsent shape = false ∧ depth shape ≤ 64 ∧ nodeCount shape ≤ 20000 ∧
      Represents shape document := by
  obtain ⟨hrep, htree, hroot, hnodes, hdepth⟩ := (parse_eq_ok hd).1 h
  refine ⟨fun node hnode => ?_, hroot, hdepth, hnodes, hrep⟩
  have hvalid := (wellFormed_iff.1 htree node hnode).2
  obtain ⟨e, g, k⟩ := node
  exact sound_of_nodeValid hvalid

/-- The document of a `type` node with an encoded example. -/
def encodedExample : Json :=
  .object [("shape", .string "type"), ("example", .string "AQI="), ("encoded", .string "base64")]

theorem parse_sound_encodedExample :
    distinctKeys encodedExample = true ∧
      parse encodedExample "" = .ok ⟨some ⟨.string "AQI=", some "base64"⟩, none, .type⟩ ∧
      Represents ⟨some ⟨.string "AQI=", some "base64"⟩, none, .type⟩ encodedExample :=
  have hd : distinctKeys encodedExample = true := by decide
  have hparse : parse encodedExample "" = .ok ⟨some ⟨.string "AQI=", some "base64"⟩, none, .type⟩ := rfl
  ⟨hd, hparse, (parse_sound hd hparse).2.2.2.2⟩

/-- Whatever a member that no operator reads is, it is neither in the shape nor reported. -/
theorem unread_member_dropped (v : Json) :
    parse (.object [("shape", .string "any"), ("foo", v)]) "" = .ok (.of .any) := rfl

/-- Two documents that differ in a member, with one shape and no problem between them. -/
theorem member_neither_represented_nor_reported :
    ∃ d d' : Json, get "foo" d ≠ get "foo" d' ∧ parse d "" = .ok (.of .any) ∧ parse d' "" = .ok (.of .any) :=
  ⟨.object [("shape", .string "any"), ("foo", .bool true)], .object [("shape", .string "any"), ("foo", .bool false)],
    by simp [Data.Json.get, List.lookup_cons], unread_member_dropped _, unread_member_dropped _⟩

end PactJanus.Shape.Invariants
