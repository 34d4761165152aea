import PactJanus.Lib.Fueled
import PactJanus.SchemaCompat.Checker

namespace PactJanus.SchemaCompat.Validity

open PactJanus.Data.Json PactJanus.Lib.Fueled PactJanus.SchemaCompat.Checker

/-! Validity of an instance under a schema document, for the keywords the checker names. -/

/-- One step of a pointer to a subschema. -/
inductive Step where
  | under (key : String)
  | named (key name : String)
  | placed (key : String) (index : Nat)

/-- What is left to the validator: which instances an assertion keyword admits, by the keyword's own value, and
how the text of a reference is read as a pointer into the document. -/
structure Vocabulary where
  admits : String → Json → Json → Bool
  admits_same : ∀ {key : String} {a b : Json} (v : Json), same a b = true → admits key a v = admits key b v
  fragment : String → Option (List Step)

/-- Keywords whose verdict on an instance is their own value's. -/
def ASSERTIONS : List String := "enum" :: FROZEN_KEYWORDS.filter (· ≠ "$ref")

/-- A pointer's steps lead to subschemas only. -/
def child (node : Json) : Step → Option Json
  | .under key => if key ∈ SINGLE_SUBSCHEMA then get key node else none
  | .named key name => if key ∈ SUBSCHEMA_MAPS then (mapAt key node).bind (·.lookup name) else none
  | .placed key index => if key ∈ SUBSCHEMA_ARRAYS then (arrayAt key node).bind (·[index]?) else none

def follow : List Step → Json → Option Json
  | [], node => some node
  | next :: rest, node => (child node next).bind (follow rest)

variable (V : Vocabulary)

def reference (node : Json) : Option String := (get "$ref" node).bind asStr

def target (root node : Json) : Option Json := ((reference node).bind V.fragment).bind fun steps => follow steps root

def members (v : Json) : List (String × Json) := (asObject v).getD []

def elements (v : Json) : List Json := (asArray v).getD []

def propertyOf (node : Json) (name : String) : Option Json := (mapAt "properties" node).bind (·.lookup name)

/-- The schema a member of an instance is held to. -/
def memberSchema (node : Json) (name : String) : Option Json :=
  (propertyOf node name).or (get "additionalProperties" node)

def prefixOf (node : Json) (i : Nat) : Option Json := ((arrayAt "prefixItems" node).getD [])[i]?

/-- The schema an element of an instance is held to. -/
def elementSchema (node : Json) (i : Nat) : Option Json := (prefixOf node i).or (get "items" node)

/-- The assertions of a node, and the members it requires. -/
def asserted (node v : Json) : Bool :=
  ASSERTIONS.all (fun key => (get key node).all fun value => V.admits key value v) &&
  ((asObject v).isNone || decide (∀ name ∈ stringSet (get "required" node), (get name v).isSome = true))

def branch (held : Bool) : String := if held then "then" else "else"

theorem branch_single (held : Bool) : branch held ∈ SINGLE_SUBSCHEMA := by cases held <;> decide

section

variable (t : Json × Json → Option Bool) (root node v : Json)

def every : List (Option Bool) → Option Bool := tally (·.all id)

def ask (sub : Option Json) (w : Json) : Option Bool := sub.elim (some true) fun sub => t (sub, w)

def referenced : Option Bool :=
  if (reference node).isSome then (target V root node).bind fun sub => t (sub, v) else some true

def membersValid : Option Bool := every ((members v).map fun member => ask t (memberSchema node member.1) member.2)

def namesValid : Option Bool :=
  every ((members v).map fun member => ask t (get "propertyNames" node) (.string member.1))

def elementsValid : Option Bool :=
  every ((elements v).zipIdx.map fun placed => ask t (elementSchema node placed.2) placed.1)

def conditional : Option Bool :=
  (get "if" node).elim (some true) fun condition =>
    (t (condition, v)).bind fun held => ask t (get (branch held) node) v

def negated : Option Bool := (get "not" node).elim (some true) fun sub => (t (sub, v)).map not

/-- How the verdicts under a combinator are counted. -/
def counted (key : String) (verdicts : List Bool) : Bool :=
  if key = "allOf" then verdicts.all id
  else if key = "anyOf" then verdicts.any id
  else verdicts.count true == 1

def alternatives (key : String) : Option Bool :=
  (arrayAt key node).elim (some true) fun subs => tally (counted key) (subs.map fun sub => t (sub, v))

end

/-- One node's verdict on an instance, over the verdicts of the subschemas that apply. -/
def verdict (root : Json) (t : Json × Json → Option Bool) : Json × Json → Option Bool
  | (.bool b, _) => some b
  | (.object declared, v) =>
    let node := .object declared
    every [some (asserted V node v), referenced V t root node v, membersValid t node v, namesValid t node v,
      elementsValid t node v, conditional t node v, negated t node v, alternatives t node v "allOf",
      alternatives t node v "anyOf", alternatives t node v "oneOf"]
  | _ => none

/-- The document settles that the instance is valid. -/
def Valid (doc v : Json) : Prop := Settles (verdict V doc) (doc, v) true

/-! Where two nodes are asked about the same part of an instance. -/

/-- The combinators of alternatives over the same value. -/
def COMBINATORS : List String := ["allOf", "anyOf", "oneOf"]

/-- A subschema of `x` and the subschema of `y` in its place, with the part of `v` they both apply to. -/
inductive Part (rx ry x y v : Json) (held : Json → Bool → Prop) : Json → Json → Json → Prop
  | reference {x' y' : Json} : target V rx x = some x' → target V ry y = some y' → Part rx ry x y v held x' y' v
  | member {x' y' : Json} {p : String × Json} : p ∈ members v → memberSchema x p.1 = some x' →
      memberSchema y p.1 = some y' → Part rx ry x y v held x' y' p.2
  | name {x' y' : Json} {p : String × Json} : p ∈ members v → get "propertyNames" x = some x' →
      get "propertyNames" y = some y' → Part rx ry x y v held x' y' (.string p.1)
  | element {x' y' w : Json} {i : Nat} : (elements v)[i]? = some w → elementSchema x i = some x' →
      elementSchema y i = some y' → Part rx ry x y v held x' y' w
  | inPlace {x' y' : Json} {key : String} : key ∈ ["if", "not"] → get key x = some x' → get key y = some y' →
      Part rx ry x y v held x' y' v
  | consequence {x' y' c : Json} {r : Bool} : get "if" x = some c → held c r → get (branch r) x = some x' →
      get (branch r) y = some y' → Part rx ry x y v held x' y' v
  | alternative {x' y' : Json} {key : String} {xs ys : List Json} {i : Nat} : key ∈ COMBINATORS →
      arrayAt key x = some xs → arrayAt key y = some ys → xs[i]? = some x' → ys[i]? = some y' →
      Part rx ry x y v held x' y' v

/-- Two nodes that hold the same keywords, as far as the instance meets them. -/
structure Aligned (rx ry x y v : Json) : Prop where
  asserted : asserted V x v = asserted V y v
  reference : (reference x).isSome = (reference y).isSome
  target : (target V rx x).isSome = (target V ry y).isSome
  members : ∀ p ∈ members v, (memberSchema x p.1).isSome = (memberSchema y p.1).isSome
  elements : ∀ i < (elements v).length, (elementSchema x i).isSome = (elementSchema y i).isSome
  single : ∀ key ∈ SINGLE_SUBSCHEMA, (get key x).isSome = (get key y).isSome

variable {V} {rx ry x y v x' y' w : Json} {held : Json → Bool → Prop} {t t' : Json × Json → Option Bool}

theorem Aligned.symm (h : Aligned V rx ry x y v) : Aligned V ry rx y x v :=
  ⟨h.asserted.symm, h.reference.symm, h.target.symm, fun p hp => (h.members p hp).symm,
    fun i hi => (h.elements i hi).symm, fun key hkey => (h.single key hkey).symm⟩

theorem Part.symm {held' : Json → Bool → Prop} (h : Part V rx ry x y v held x' y' w)
    (hheld : ∀ c r, held c r → ∃ c', get "if" y = some c' ∧ held' c' r) : Part V ry rx y x v held' y' x' w := by
  cases h with
  | reference hx hy => exact .reference hy hx
  | member hp hx hy => exact .member hp hy hx
  | name hp hx hy => exact .name hp hy hx
  | element hi hx hy => exact .element hi hy hx
  | inPlace hkey hx hy => exact .inPlace hkey hy hx
  | consequence _ hr hx hy =>
    obtain ⟨c', hc', hr'⟩ := hheld _ _ hr
    exact .consequence hc' hr' hy hx
  | alternative hkey hxs hys hx hy => exact .alternative hkey hys hxs hy hx

theorem below_ask {sx sy : Option Json} (hsome : sx.isSome = sy.isSome)
    (h : ∀ x' y', sx = some x' → sy = some y' → Below (t (x', w)) (t' (y', w))) : Below (ask t sx w) (ask t' sy w) := by
  cases sx with
  | none =>
    cases sy with
    | none => exact .refl _
    | some y' => cases hsome
  | some x' =>
    cases sy with
    | none => cases hsome
    | some y' => exact h x' y' rfl rfl

theorem below_every_map {β : Type} {l : List β} {f g : β → Option Bool} (h : ∀ b ∈ l, Below (f b) (g b)) :
    Below (every (l.map f)) (every (l.map g)) := by
  refine tally_below ?_
  rw [List.forall₂_map_left_iff, List.forall₂_map_right_iff, List.forall₂_same]
  exact h

/-- A node's verdict carries over to an aligned node, where the verdicts of their parts and alternatives do. -/
theorem below_verdict (hobject : (asObject x).isSome = true) (hobject' : (asObject y).isSome = true)
    (haligned : Aligned V rx ry x y v) (hheld : ∀ c r, get "if" x = some c → t (c, v) = some r → held c r)
    (hpart : ∀ x' y' w, Part V rx ry x y v held x' y' w → Below (t (x', w)) (t' (y', w)))
    (halternatives : ∀ key ∈ COMBINATORS, Below (alternatives t x v key) (alternatives t' y v key)) :
    Below (verdict V rx t (x, v)) (verdict V ry t' (y, v)) := by
  have hreferenced : Below (referenced V t rx x v) (referenced V t' ry y v) := by
    unfold referenced
    rw [haligned.reference]
    split
    · cases hx : target V rx x with
      | none => exact below_none _
      | some x' =>
        obtain ⟨y', hy⟩ := Option.isSome_iff_exists.1 (haligned.target.symm.trans (by rw [hx, Option.isSome_some]))
        rw [hy]
        exact hpart x' y' v (.reference hx hy)
    · exact .refl _
  have hmembers : Below (membersValid t x v) (membersValid t' y v) :=
    below_every_map fun p hp => below_ask (haligned.members p hp) fun x' y' hx hy => hpart x' y' p.2 (.member hp hx hy)
  have hnames : Below (namesValid t x v) (namesValid t' y v) :=
    below_every_map fun p hp => below_ask (haligned.single "propertyNames" (by decide)) fun x' y' hx hy =>
      hpart x' y' _ (.name hp hx hy)
  have helements : Below (elementsValid t x v) (elementsValid t' y v) := by
    refine below_every_map fun p hp => ?_
    have hi := List.mem_zipIdx_iff_getElem?.1 hp
    refine below_ask (haligned.elements p.2 (List.getElem?_eq_some_iff.1 hi).1) fun x' y' hx hy => ?_
    exact hpart x' y' p.1 (.element hi hx hy)
  have hconditional : Below (conditional t x v) (conditional t' y v) := by
    unfold conditional
    have hsome := haligned.single "if" (by decide)
    cases hx : get "if" x with
    | none =>
      cases hy : get "if" y with
      | none => exact .refl _
      | some c' => rw [hx, hy] at hsome; cases hsome
    | some c =>
      cases hy : get "if" y with
      | none => rw [hx, hy] at hsome; cases hsome
      | some c' =>
        refine (hpart c c' v (.inPlace (by decide) hx hy)).bind fun r hr => ?_
        exact below_ask (haligned.single _ (branch_single r)) fun x' y' hx' hy' =>
          hpart x' y' v (.consequence hx (hheld c r hx hr) hx' hy')
  have hnegated : Below (negated t x v) (negated t' y v) := by
    unfold negated
    have hsome := haligned.single "not" (by decide)
    cases hx : get "not" x with
    | none =>
      cases hy : get "not" y with
      | none => exact .refl _
      | some y' => rw [hx, hy] at hsome; cases hsome
    | some x' =>
      cases hy : get "not" y with
      | none => rw [hx, hy] at hsome; cases hsome
      | some y' => exact (hpart x' y' v (.inPlace (by decide) hx hy)).map not
  obtain ⟨mx, rfl⟩ : ∃ mx, x = .object mx := by
    cases x with
    | object mx => exact ⟨mx, rfl⟩
    | _ => cases hobject
  obtain ⟨my, rfl⟩ : ∃ my, y = .object my := by
    cases y with
    | object my => exact ⟨my, rfl⟩
    | _ => cases hobject'
  refine tally_below ?_
  rw [haligned.asserted]
  exact .cons (.refl _) <| .cons hreferenced <| .cons hmembers <| .cons hnames <| .cons helements <|
    .cons hconditional <| .cons hnegated <| .cons (halternatives "allOf" (by decide)) <|
    .cons (halternatives "anyOf" (by decide)) <| .cons (halternatives "oneOf" (by decide)) .nil

/-! A verdict rests on finitely many others. -/

/-- All that a node's verdict may ask for. -/
def parts (V : Vocabulary) (root : Json) : Json × Json → List (Json × Json)
  | (node, v) =>
    ((target V root node).toList.map fun sub => (sub, v)) ++
    ((members v).filterMap fun p => (memberSchema node p.1).map fun sub => (sub, p.2)) ++
    ((members v).filterMap fun p => (get "propertyNames" node).map fun sub => (sub, .string p.1)) ++
    ((elements v).zipIdx.filterMap fun p => (elementSchema node p.2).map fun sub => (sub, p.1)) ++
    (["if", "not", "then", "else"].filterMap fun key => (get key node).map fun sub => (sub, v)) ++
    (COMBINATORS.flatMap fun key => ((arrayAt key node).getD []).map fun sub => (sub, v))

private theorem mem_parts {root : Json} (h : Part V root root x x v held x' y' w) :
    x' = y' ∧ (x', w) ∈ parts V root (x, v) := by
  simp only [parts, List.mem_append, List.mem_filterMap, List.mem_map, List.mem_flatMap, Option.mem_toList,
    Option.map_eq_some_iff, Prod.mk.injEq]
  cases h with
  | reference hx hy => exact ⟨Option.some.inj (hx.symm.trans hy), by grind⟩
  | member hp hx hy => exact ⟨Option.some.inj (hx.symm.trans hy), by grind⟩
  | name hp hx hy => exact ⟨Option.some.inj (hx.symm.trans hy), by grind⟩
  | element hi hx hy =>
    have hplaced := List.mk_mem_zipIdx_iff_getElem?.2 hi
    exact ⟨Option.some.inj (hx.symm.trans hy), by grind⟩
  | inPlace hkey hx hy => exact ⟨Option.some.inj (hx.symm.trans hy), by grind⟩
  | consequence hc hr hx hy => exact ⟨Option.some.inj (hx.symm.trans hy), by grind [branch]⟩
  | alternative hkey hx hy hi hj =>
    obtain rfl := Option.some.inj (hx.symm.trans hy)
    exact ⟨Option.some.inj (hi.symm.trans hj), by grind⟩

theorem local_verdict (V : Vocabulary) (root : Json) : Local (verdict V root) (parts V root) := by
  refine ⟨fun {t t' x} h => ?_⟩
  obtain ⟨node, v⟩ := x
  cases hobject : asObject node with
  | none =>
    cases node with
    | object _ => cases hobject
    | bool b => exact .refl _
    | _ => exact below_none _
  | some declared =>
    have hsome : (asObject node).isSome = true := by rw [hobject, Option.isSome_some]
    refine below_verdict hsome hsome ⟨rfl, rfl, rfl, fun _ _ => rfl, fun _ _ => rfl, fun _ _ => rfl⟩
      (fun _ _ _ _ => trivial) (fun x' y' w hpart => ?_) (fun key hkey => ?_)
    · obtain ⟨rfl, hmem⟩ := mem_parts hpart
      exact h _ hmem
    · unfold alternatives
      cases hsubs : arrayAt key node with
      | none => exact .refl _
      | some subs =>
        refine tally_below ?_
        rw [List.forall₂_map_left_iff, List.forall₂_map_right_iff, List.forall₂_same]
        intro sub hsub
        obtain ⟨i, hi⟩ := List.mem_iff_getElem?.1 hsub
        have hpart : Part V root root node node v (fun _ _ => True) sub sub v :=
          .alternative hkey hsubs hsubs hi hi
        exact h _ (mem_parts hpart).2

end PactJanus.SchemaCompat.Validity
