import PactJanus.Plan.Compile
import PactJanus.Plan.Navigation
import PactJanus.Plan.Outcome

namespace PactJanus.Plan.Accepts

open PactJanus.Data.Json PactJanus.Shape PactJanus.Shape.Model PactJanus.Shape.VariantSpace PactJanus.Plan.Model
  PactJanus.Plan.Value PactJanus.Plan.Result PactJanus.Plan.Interpret PactJanus.Plan.Compile PactJanus.Plan.Navigation
  PactJanus.Plan.Outcome PactJanus.Plan.Legacy PactJanus.Lib.Text

/-! What the plan compiled from a shape accepts, by recursion on the shape: the value read at a position, under
an assignment. `strict` asks for what an enclosing action sees (no failed result) in place of what the outcome
sees (no error), which differ on a component that answers `false`. -/

/-- The point an assignment pins for one facet at a dimension path. -/
def pin (α : Assignment) (path : String) (facet : Facet) : Option String := α.lookup (Path.dimensionId path facet.text)

def resultGood (strict : Bool) : NodeResult → Bool
  | .error _ _ => false
  | .value (.bool false) => !strict
  | _ => true

def kindHolds : ValueKind → RuntimeValue → Bool
  | .string => isString
  | .number => isNumber
  | .integer => isInteger
  | .decimal => isDecimalNumber
  | .boolean => isBool
  | .null => isNullValue

def defaultFormat : TemporalKind → String
  | .datetime => "yyyy-MM-dd'T'HH:mm:ssXXX"
  | .date => "yyyy-MM-dd"
  | .time => "HH:mm:ss"

def componentResult (env : Env) (operator : String) (raw : List (String × Json)) (place : String) (v : RuntimeValue) :
    NodeResult :=
  applyComponent operator
    [.resolve place (some (.value v)), .value (Literal.fromJson (.object raw)) (some (.value (fromJson (.object raw))))]
    env.actions

/-- What a shape with no shape under it accepts. -/
def leafAccepts (strict : Bool) (env : Env) (example? : Option Example) (place : String) (v : RuntimeValue) :
    ShapeKind → Bool
  | .component operator raw => resultGood strict (componentResult env operator raw place v)
  | .any => !isAbsent v
  | .equality => runtimeEq v (fromLiteral (exampleLiteral example?))
  | .type => !isAbsent v && kindOf v == kindOf (fromLiteral (exampleLiteral example?))
  | .kind k => kindHolds k v
  | .notEmpty => !isEmpty v
  | .regex pattern =>
    (asMatchableText v).any fun s =>
      match env.libraries.regexMatch pattern s with
      | .ok matched => matched
      | .error _ => false
  | .temporal k format =>
    (asText v).any fun s => (env.libraries.validateDatetime s (format.getD (defaultFormat k))).isOk
  | .includes substring => (asText v).any (containsText substring)
  | .contentType contentType =>
    env.content.any fun detect => (detect v (some place)).any (mediaTypeMatches contentType)
  | .semver => (asText v).any env.libraries.semver
  | .forbidden => isAbsent v
  | _ => false

def sizeAccepts (α : Assignment) (path : String) (min : UInt64) (max : Option UInt64) (size : Nat) : Bool :=
  let bounds := ((pin α path .cardinality).bind (cardinalityRegion min max)).getD (min, max)
  decide (bounds.1.toNat ≤ size) && bounds.2.all fun upper => decide (size ≤ upper.toNat)

def anyOfAccepts (α : Assignment) (path : String) (options : List Json) (v : RuntimeValue) : Bool :=
  match (pin α path .value).bind fun point => options.find? fun o => canonicalPointName o == point with
  | some pinned => runtimeEq v (fromJson pinned)
  | none => options.any fun o => runtimeEq (fromJson o) v

/-- Whether a discriminator's value selects an alternative by its literals. -/
def selects (literals : List Json) (tag : RuntimeValue) : Bool :=
  match literals with
  | [] => runtimeEq tag .null
  | _ => literals.any fun literal => runtimeEq tag (fromJson literal)

/-- The first item not yet claimed that is accepted. -/
def firstFree {β : Type} (accept : β → Bool) : List β → List Bool → Nat → Option Nat
  | item :: items, used :: rest, index =>
    if used then firstFree accept items rest (index + 1)
    else if accept item then some index
    else firstFree accept items rest (index + 1)
  | _, _, _ => none

/-- Each item of an array with the path it is at. -/
def positions (place : String) (items : List RuntimeValue) : List (RuntimeValue × String) :=
  items.mapIdx fun index item => (item, itemPath place index item)

theorem positions_fst (place : String) (items : List RuntimeValue) :
    (positions place items).map Prod.fst = items := by
  simp [positions, List.mapIdx_eq_zipIdx_map, Function.comp_def]

mutual

def accepts (strict : Bool) (env : Env) (α : Assignment) : ShapeNode → String → String → RuntimeValue → Bool
  | ⟨_, _, .object members⟩, path, place, v => isObject v && acceptsMembers strict env α members path place v
  | ⟨_, _, .array entries⟩, path, place, v =>
    match v with
    | .array items => items.length == entries.length && acceptsEntries strict env α entries path place v 0
    | _ => false
  | ⟨_, _, .eachLike items min max⟩, path, place, v =>
    match v with
    | .array elements =>
      sizeAccepts α path min max elements.length &&
        (positions place elements).all fun p => accepts strict env α items (Path.eachLikeItem path) p.2 p.1
    | _ => false
  | ⟨_, _, .eachEntry keys values min max⟩, path, place, v =>
    match v with
    | .object members =>
      sizeAccepts α path min max members.length &&
        members.all fun p =>
          acceptsKey strict env α keys (Path.eachEntryKey path) (memberPath place p.1) p.1 &&
            accepts strict env α values (Path.eachEntryValue path) (memberPath place p.1) p.2
    | _ => false
  | ⟨_, _, .contains entries⟩, path, place, v =>
    match v with
    | .array elements =>
      acceptsContains env α entries path 0 (positions place elements) (elements.map fun _ => false)
    | _ => false
  | ⟨_, _, .optional of⟩, path, place, v =>
    match pin α path .presence with
    | some "absent" => isAbsent v
    | some "present" => accepts strict env α of path place v
    | _ => isAbsent v || accepts strict env α of path place v
  | ⟨_, _, .nullable of⟩, path, place, v =>
    match pin α path .nullability with
    | some "null" => isNullValue v
    | some "non-null" => accepts strict env α of path place v
    | _ => isNullValue v || accepts strict env α of path place v
  | ⟨_, _, .anyOf options⟩, path, _, v => anyOfAccepts α path options v
  | ⟨_, _, .oneOf discriminator alternatives _⟩, path, place, v =>
    match (pin α path .alternative).bind fun point =>
      acceptsNamed strict env α alternatives point path place v with
    | some accepted => accepted
    | none => acceptsChain strict env α alternatives discriminator path place v
  | ⟨example?, _, kind⟩, _, place, v => leafAccepts strict env example? place v kind
termination_by structural node => node

def acceptsMembers (strict : Bool) (env : Env) (α : Assignment) :
    List (String × ShapeNode) → String → String → RuntimeValue → Bool
  | [], _, _, _ => true
  | (name, member) :: rest, path, place, v =>
    accepts strict env α member (Path.member path name) (memberPath place name) (memberOf v name) &&
      acceptsMembers strict env α rest path place v
termination_by structural members => members

def acceptsEntries (strict : Bool) (env : Env) (α : Assignment) :
    List ShapeNode → String → String → RuntimeValue → Nat → Bool
  | [], _, _, _, _ => true
  | entry :: rest, path, place, v, index =>
    accepts strict env α entry (Path.arrayIndex path index) (Path.arrayIndex place index) (elementOf v index) &&
      acceptsEntries strict env α rest path place v (index + 1)
termination_by structural entries => entries

def acceptsKey (strict : Bool) (env : Env) (α : Assignment) : Option ShapeNode → String → String → String → Bool
  | none, _, _, _ => true
  | some keys, path, place, key => accepts strict env α keys path place (.string key)
termination_by structural keys => keys

/-- Each entry claims the first element not yet claimed that it accepts. -/
def acceptsContains (env : Env) (α : Assignment) :
    List ShapeNode → String → Nat → List (RuntimeValue × String) → List Bool → Bool
  | [], _, _, _, _ => true
  | entry :: rest, path, index, elements, used =>
    match firstFree (fun p => accepts true env α entry (Path.arrayIndex path index) p.2 p.1) elements used 0 with
    | some i => acceptsContains env α rest path (index + 1) elements (used.set i true)
    | none => false
termination_by structural entries => entries

/-- What the alternative of a name accepts, if there is one. -/
def acceptsNamed (strict : Bool) (env : Env) (α : Assignment) :
    List (String × ShapeNode) → String → String → String → RuntimeValue → Option Bool
  | [], _, _, _, _ => none
  | (name, alternative) :: rest, point, path, place, v =>
    if name == point then some (accepts strict env α alternative (Path.alternative path name) place v)
    else acceptsNamed strict env α rest point path place v
termination_by structural alternatives => alternatives

/-- What the first alternative selected by the discriminator's value accepts. -/
def acceptsChain (strict : Bool) (env : Env) (α : Assignment) :
    List (String × ShapeNode) → String → String → String → RuntimeValue → Bool
  | [], _, _, _, _ => false
  | (name, alternative) :: rest, discriminator, path, place, v =>
    if selects (discriminatorLiterals alternative discriminator) (memberOf v discriminator) then
      accepts strict env α alternative (Path.alternative path name) place v
    else acceptsChain strict env α rest discriminator path place v
termination_by structural alternatives => alternatives

end

section

-- The equations of these definitions are made here, once for all who rewrite with them.
attribute [local simp] accepts acceptsMembers acceptsEntries acceptsKey acceptsContains acceptsNamed acceptsChain leafAccepts

end

/-! The recursions over lists, as statements about their elements. -/

section Lists

variable {strict : Bool} {env : Env} {α : Assignment} {path place : String} {v : RuntimeValue}

theorem acceptsMembers_iff {members : List (String × ShapeNode)} :
    acceptsMembers strict env α members path place v = true ↔
      ∀ p ∈ members, accepts strict env α p.2 (Path.member path p.1) (memberPath place p.1) (memberOf v p.1) = true := by
  induction members with
  | nil => simp [acceptsMembers]
  | cons p rest ih => simp only [acceptsMembers, Bool.and_eq_true, ih, List.forall_mem_cons]

theorem acceptsEntries_iff {entries : List ShapeNode} {index : Nat} :
    acceptsEntries strict env α entries path place v index = true ↔
      ∀ (i : Nat) (s : ShapeNode), entries[i]? = some s →
        accepts strict env α s (Path.arrayIndex path (index + i)) (Path.arrayIndex place (index + i))
          (elementOf v (index + i)) = true := by
  induction entries generalizing index with
  | nil => simp [acceptsEntries]
  | cons s rest ih =>
    simp only [acceptsEntries, Bool.and_eq_true, ih]
    constructor
    · rintro ⟨hhead, htail⟩ i t ht
      cases i with
      | zero =>
        simp only [List.getElem?_cons_zero, Option.some.injEq] at ht
        subst ht
        exact hhead
      | succ i => simpa [Nat.add_assoc, Nat.add_comm 1] using htail i t (by simpa using ht)
    · intro h
      refine ⟨h 0 s rfl, fun i t ht => ?_⟩
      simpa [Nat.add_assoc, Nat.add_comm 1] using h (i + 1) t (by simpa using ht)

theorem acceptsNamed_eq {alternatives : List (String × ShapeNode)} {point : String} :
    acceptsNamed strict env α alternatives point path place v =
      (alternatives.find? fun p => p.1 == point).map fun p =>
        accepts strict env α p.2 (Path.alternative path p.1) place v := by
  induction alternatives with
  | nil => rfl
  | cons p rest ih => cases h : p.1 == point <;> simp [acceptsNamed, h, ih]

theorem acceptsChain_eq {alternatives : List (String × ShapeNode)} {discriminator : String} :
    acceptsChain strict env α alternatives discriminator path place v =
      (alternatives.find? fun p => selects (discriminatorLiterals p.2 discriminator) (memberOf v discriminator)).any
        fun p => accepts strict env α p.2 (Path.alternative path p.1) place v := by
  induction alternatives with
  | nil => rfl
  | cons p rest ih =>
    cases h : selects (discriminatorLiterals p.2 discriminator) (memberOf v discriminator) <;>
      simp [acceptsChain, h, ih]

theorem accepts_optional {e : Option Example} {g : Option Json} {of : ShapeNode} :
    accepts strict env α ⟨e, g, .optional of⟩ path place v =
      if pin α path .presence = some "absent" then isAbsent v
      else if pin α path .presence = some "present" then accepts strict env α of path place v
      else isAbsent v || accepts strict env α of path place v := by
  simp only [accepts]
  split <;> simp_all

theorem accepts_nullable {e : Option Example} {g : Option Json} {of : ShapeNode} :
    accepts strict env α ⟨e, g, .nullable of⟩ path place v =
      if pin α path .nullability = some "null" then isNullValue v
      else if pin α path .nullability = some "non-null" then accepts strict env α of path place v
      else isNullValue v || accepts strict env α of path place v := by
  simp only [accepts]
  split <;> simp_all

/-- The alternative a position is pinned to, if it is one of the union's. -/
def pinnedAlternative (α : Assignment) (path : String) (alternatives : List (String × ShapeNode)) :
    Option (String × ShapeNode) :=
  (pin α path .alternative).bind fun point => alternatives.find? fun p => p.1 == point

/-- The alternative the discriminator's value selects. -/
def selectedAlternative (discriminator : String) (alternatives : List (String × ShapeNode)) (v : RuntimeValue) :
    Option (String × ShapeNode) :=
  alternatives.find? fun p => selects (discriminatorLiterals p.2 discriminator) (memberOf v discriminator)

theorem mem_alternatives {alternatives : List (String × ShapeNode)} {p : String × ShapeNode} (discriminator : String)
    (v : RuntimeValue) (h : (pinnedAlternative α path alternatives).or (selectedAlternative discriminator alternatives v) = some p) :
    p ∈ alternatives := by
  obtain h | ⟨-, h⟩ := Option.or_eq_some_iff.1 h
  · obtain ⟨point, -, hfind⟩ := Option.bind_eq_some_iff.1 h
    exact List.mem_of_find?_eq_some hfind
  · exact List.mem_of_find?_eq_some h

theorem accepts_oneOf {e : Option Example} {g : Option Json} {discriminator : String}
    {alternatives : List (String × ShapeNode)} {default : Option String} :
    accepts strict env α ⟨e, g, .oneOf discriminator alternatives default⟩ path place v =
      ((pinnedAlternative α path alternatives).or (selectedAlternative discriminator alternatives v)).any
        fun p => accepts strict env α p.2 (Path.alternative path p.1) place v := by
  simp only [accepts, acceptsNamed_eq, acceptsChain_eq, pinnedAlternative, selectedAlternative]
  cases pin α path .alternative with
  | none => simp
  | some point =>
    simp only [Option.bind_some]
    cases alternatives.find? fun p => p.1 == point <;> simp

theorem firstFree_map {β γ : Type} {accept : γ → Bool} (f : β → γ) (items : List β) (used : List Bool) (index : Nat) :
    firstFree accept (items.map f) used index = firstFree (fun p => accept (f p)) items used index := by
  induction items generalizing used index with
  | nil => rfl
  | cons item rest ih =>
    cases used with
    | nil => rfl
    | cons u us => simp only [List.map_cons, firstFree, ih]

theorem firstFree_congr {β : Type} {accept accept' : β → Bool} {items : List β} (used : List Bool) (index : Nat)
    (h : ∀ p ∈ items, accept p = accept' p) : firstFree accept items used index = firstFree accept' items used index := by
  induction items generalizing used index with
  | nil => rfl
  | cons item rest ih =>
    have hrest := fun us i => ih us i fun p hp => h p (List.mem_cons_of_mem _ hp)
    cases used with
    | nil => rfl
    | cons u us => simp only [firstFree, h item List.mem_cons_self, hrest]

end Lists

/-! A structure accepts under one assignment what it accepts under another, when the shapes in it do. -/

section Mono

variable {strict strict' : Bool} {env : Env} {α β : Assignment} {path place : String} {v : RuntimeValue}
  {e : Option Example} {g : Option Json}

theorem object_mono {members : List (String × ShapeNode)}
    (h : ∀ p ∈ members,
      accepts strict env α p.2 (Path.member path p.1) (memberPath place p.1) (memberOf v p.1) = true →
      accepts strict' env β p.2 (Path.member path p.1) (memberPath place p.1) (memberOf v p.1) = true)
    (hv : accepts strict env α ⟨e, g, .object members⟩ path place v = true) :
    accepts strict' env β ⟨e, g, .object members⟩ path place v = true := by
  simp only [accepts, Bool.and_eq_true, acceptsMembers_iff] at hv ⊢
  exact ⟨hv.1, fun p hp => h p hp (hv.2 p hp)⟩

theorem array_mono {entries : List ShapeNode}
    (h : ∀ (i : Nat) (s : ShapeNode), entries[i]? = some s →
      accepts strict env α s (Path.arrayIndex path i) (Path.arrayIndex place i) (elementOf v i) = true →
      accepts strict' env β s (Path.arrayIndex path i) (Path.arrayIndex place i) (elementOf v i) = true)
    (hv : accepts strict env α ⟨e, g, .array entries⟩ path place v = true) :
    accepts strict' env β ⟨e, g, .array entries⟩ path place v = true := by
  cases v with
  | array items =>
    simp only [accepts, Bool.and_eq_true, acceptsEntries_iff, Nat.zero_add] at hv ⊢
    exact ⟨hv.1, fun i s hs => h i s hs (hv.2 i s hs)⟩
  | _ => simp [accepts] at hv

theorem eachLike_mono {items : ShapeNode} {min : UInt64} {max : Option UInt64}
    (hsize : ∀ size, sizeAccepts α path min max size = true → sizeAccepts β path min max size = true)
    (h : ∀ elements, v = .array elements → ∀ p ∈ positions place elements,
      accepts strict env α items (Path.eachLikeItem path) p.2 p.1 = true →
      accepts strict' env β items (Path.eachLikeItem path) p.2 p.1 = true)
    (hv : accepts strict env α ⟨e, g, .eachLike items min max⟩ path place v = true) :
    accepts strict' env β ⟨e, g, .eachLike items min max⟩ path place v = true := by
  cases v with
  | array elements =>
    simp only [accepts, Bool.and_eq_true, List.all_eq_true] at hv ⊢
    exact ⟨hsize _ hv.1, fun p hp => h elements rfl p hp (hv.2 p hp)⟩
  | _ => simp [accepts] at hv

theorem eachEntry_mono {keys : Option ShapeNode} {values : ShapeNode} {min : UInt64} {max : Option UInt64}
    (hsize : ∀ size, sizeAccepts α path min max size = true → sizeAccepts β path min max size = true)
    (hkey : ∀ k ∈ keys, ∀ place key,
      accepts strict env α k (Path.eachEntryKey path) place (.string key) = true →
      accepts strict' env β k (Path.eachEntryKey path) place (.string key) = true)
    (hvalue : ∀ members, v = .object members → ∀ p ∈ members,
      accepts strict env α values (Path.eachEntryValue path) (memberPath place p.1) p.2 = true →
      accepts strict' env β values (Path.eachEntryValue path) (memberPath place p.1) p.2 = true)
    (hv : accepts strict env α ⟨e, g, .eachEntry keys values min max⟩ path place v = true) :
    accepts strict' env β ⟨e, g, .eachEntry keys values min max⟩ path place v = true := by
  cases v with
  | object members =>
    simp only [accepts, Bool.and_eq_true, List.all_eq_true] at hv ⊢
    refine ⟨hsize _ hv.1, fun p hp => ⟨?_, hvalue members rfl p hp (hv.2 p hp).2⟩⟩
    cases keys with
    | none => rfl
    | some k => exact hkey k rfl _ _ (hv.2 p hp).1
  | _ => simp [accepts] at hv

private theorem acceptsContains_congr {entries : List ShapeNode} {elements : List (RuntimeValue × String)} (index : Nat)
    (used : List Bool)
    (h : ∀ (i : Nat) (s : ShapeNode), entries[i]? = some s → ∀ p ∈ elements,
      accepts true env α s (Path.arrayIndex path (index + i)) p.2 p.1 =
        accepts true env β s (Path.arrayIndex path (index + i)) p.2 p.1) :
    acceptsContains env α entries path index elements used = acceptsContains env β entries path index elements used := by
  induction entries generalizing index used with
  | nil => rfl
  | cons entry rest ih =>
    have hhead : ∀ p ∈ elements, accepts true env α entry (Path.arrayIndex path index) p.2 p.1 =
        accepts true env β entry (Path.arrayIndex path index) p.2 p.1 := h 0 entry rfl
    simp only [acceptsContains]
    rw [firstFree_congr used 0 hhead]
    cases firstFree (fun p => accepts true env β entry (Path.arrayIndex path index) p.2 p.1) elements used 0 with
    | none => rfl
    | some i =>
      refine ih (index + 1) _ fun i s hs p hp => ?_
      simpa [Nat.add_assoc, Nat.add_comm 1] using h (i + 1) s (by simpa using hs) p hp

theorem contains_congr {entries : List ShapeNode}
    (h : ∀ elements, v = .array elements → ∀ (i : Nat) (s : ShapeNode), entries[i]? = some s →
      ∀ p ∈ positions place elements,
        accepts true env α s (Path.arrayIndex path i) p.2 p.1 = accepts true env β s (Path.arrayIndex path i) p.2 p.1) :
    accepts strict env α ⟨e, g, .contains entries⟩ path place v =
      accepts strict' env β ⟨e, g, .contains entries⟩ path place v := by
  cases v with
  | array elements =>
    simp only [accepts]
    exact acceptsContains_congr 0 _ (by simpa using h elements rfl)
  | _ => rfl

private theorem firstFree_mono {β : Type} {accept accept' : β → Bool} {items : List β} {used : List Bool} {index : Nat}
    (h : ∀ p ∈ items, accept p = true → accept' p = true) (hs : (firstFree accept items used index).isSome = true) :
    (firstFree accept' items used index).isSome = true := by
  induction items generalizing used index with
  | nil => simp [firstFree] at hs
  | cons item rest ih =>
    cases used with
    | nil => simp [firstFree] at hs
    | cons u us =>
      have hrest : ∀ index, (firstFree accept rest us index).isSome = true →
          (firstFree accept' rest us index).isSome = true := fun _ => ih fun p hp => h p (List.mem_cons_of_mem _ hp)
      cases u with
      | true => exact hrest _ hs
      | false =>
        simp only [firstFree, Bool.false_eq_true, if_false] at hs ⊢
        cases ha : accept' item with
        | true => simp
        | false =>
          rw [if_neg (by simp)]
          rw [if_neg (fun haccept => by simp [h item List.mem_cons_self haccept] at ha)] at hs
          exact hrest _ hs

/-- A search for one element finds one where it found one before. -/
theorem contains_single_mono {entry : ShapeNode}
    (h : ∀ elements, v = .array elements → ∀ p ∈ positions place elements,
      accepts true env α entry (Path.arrayIndex path 0) p.2 p.1 = true →
      accepts true env β entry (Path.arrayIndex path 0) p.2 p.1 = true)
    (hv : accepts strict env α ⟨e, g, .contains [entry]⟩ path place v = true) :
    accepts strict' env β ⟨e, g, .contains [entry]⟩ path place v = true := by
  cases v with
  | array elements =>
    have hsingle : ∀ γ, acceptsContains env γ [entry] path 0 (positions place elements) (elements.map fun _ => false) =
        (firstFree (fun p => accepts true env γ entry (Path.arrayIndex path 0) p.2 p.1) (positions place elements)
          (elements.map fun _ => false) 0).isSome := by
      intro γ
      simp only [acceptsContains]
      split <;> simp_all
    simp only [accepts, hsingle] at hv ⊢
    exact firstFree_mono (h elements rfl) hv
  | _ => simp [accepts] at hv

/-- A choice stays accepted where it stays pinned, or is left open. -/
private theorem choice_mono {p q : Option String} {outer inner : String} {b a a' : Bool} (hpin : p = q ∨ q = none)
    (h : a = true → a' = true) (hv : (if p = some outer then b else if p = some inner then a else b || a) = true) :
    (if q = some outer then b else if q = some inner then a' else b || a') = true := by
  obtain rfl | rfl := hpin
  · by_cases h1 : p = some outer
    · rwa [if_pos h1] at hv ⊢
    · rw [if_neg h1] at hv ⊢
      by_cases h2 : p = some inner
      · rw [if_pos h2] at hv ⊢
        exact h hv
      · rw [if_neg h2, Bool.or_eq_true] at hv ⊢
        exact hv.imp_right h
  · rw [if_neg (by simp), if_neg (by simp), Bool.or_eq_true]
    split at hv
    · exact Or.inl hv
    · split at hv
      · exact Or.inr (h hv)
      · exact (Bool.or_eq_true_iff.1 hv).imp_right h

theorem optional_mono {of : ShapeNode}
    (hpin : pin α path .presence = pin β path .presence ∨ pin β path .presence = none)
    (h : accepts strict env α of path place v = true → accepts strict' env β of path place v = true)
    (hv : accepts strict env α ⟨e, g, .optional of⟩ path place v = true) :
    accepts strict' env β ⟨e, g, .optional of⟩ path place v = true := by
  rw [accepts_optional] at hv ⊢
  exact choice_mono hpin h hv

theorem nullable_mono {of : ShapeNode}
    (hpin : pin α path .nullability = pin β path .nullability ∨ pin β path .nullability = none)
    (h : accepts strict env α of path place v = true → accepts strict' env β of path place v = true)
    (hv : accepts strict env α ⟨e, g, .nullable of⟩ path place v = true) :
    accepts strict' env β ⟨e, g, .nullable of⟩ path place v = true := by
  rw [accepts_nullable] at hv ⊢
  exact choice_mono hpin h hv

end Mono

theorem resultGood_of_strict {r : NodeResult} (h : resultGood true r = true) : resultGood false r = true := by
  cases r with
  | value v =>
    cases v with
    | bool b => cases b <;> rfl
    | _ => rfl
  | _ => exact h

/-- What no enclosing action sees as failed has no error in it. -/
theorem accepts_of_strict {env : Env} {α : Assignment} (node : ShapeNode) {path place : String} {v : RuntimeValue}
    (h : accepts true env α node path place v = true) : accepts false env α node path place v = true := by
  induction node generalizing path place v with
  | leaf e g k hk =>
    cases k with
    | component operator raw =>
      simp only [accepts, leafAccepts] at h ⊢
      exact resultGood_of_strict h
    | anyOf options => simpa only [accepts] using h
    | object | array | eachLike | eachEntry | contains | optional | nullable | oneOf =>
      exact absurd hk (by simp [isLeaf])
    | _ => simpa only [accepts, leafAccepts] using h
  | object e g members ih => exact object_mono (fun p hp => ih p hp) h
  | array e g entries ih => exact array_mono (fun i s hs => ih s (List.mem_of_getElem? hs)) h
  | eachLike e g items min max ih => exact eachLike_mono (fun _ => id) (fun _ _ _ _ => ih) h
  | eachEntry e g keys values min max ihk ihv =>
    exact eachEntry_mono (fun _ => id) (fun k hk _ _ => ihk k hk) (fun _ _ _ _ => ihv) h
  | contains e g entries ih => exact (contains_congr fun _ _ _ _ _ _ _ => rfl).symm.trans h
  | optional e g of ih => exact optional_mono (Or.inl rfl) ih h
  | nullable e g of ih => exact nullable_mono (Or.inl rfl) ih h
  | oneOf e g discriminator alternatives default ih =>
    rw [accepts_oneOf, Option.any_eq_true] at h ⊢
    obtain ⟨p, hp, haccept⟩ := h
    exact ⟨p, hp, ih p (mem_alternatives discriminator v hp) haccept⟩

end PactJanus.Plan.Accepts
