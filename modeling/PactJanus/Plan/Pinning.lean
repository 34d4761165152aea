import PactJanus.Plan.Leaves
import PactJanus.Shape.Cardinality
import PactJanus.Shape.Placed
import PactJanus.Variant.Assignment

namespace PactJanus.Plan.Pinning

open PactJanus.Data.Json PactJanus.Lib.Lists PactJanus.Shape PactJanus.Shape.Model PactJanus.Shape.VariantSpace
  PactJanus.Shape.Valid PactJanus.Shape.Nodes PactJanus.Shape.Placed PactJanus.Plan.Model PactJanus.Plan.Compile
  PactJanus.Plan.Leaves PactJanus.Variant.Assignment

/-! A plan compiled under a complete assignment has nothing left to choose. -/

/-! The nodes a plan chooses with. -/

/-- An action that chooses between what is under it: a condition, or a match of one of several options. -/
def isChoice (name : String) (children : Nat) : Bool :=
  name == "flow:if" || name == "flow:or" || (name == "match:any-of" && decide (3 ≤ children))

mutual

/-- Whether a plan chooses anywhere. -/
def chooses : Node → Bool
  | .container _ children => choosesAny children
  | .action name children => isChoice name children.length || choosesAny children
  | .pipeline children => choosesAny children
  | .splat children => choosesAny children
  | _ => false
termination_by structural node => node

def choosesAny : List Node → Bool
  | [] => false
  | n :: rest => chooses n || choosesAny rest
termination_by structural nodes => nodes

end

/-- A lookup of the compiler: the id it asks for, and how many points there are to choose from. -/
structure Lookup where
  id : String
  width : Nat

mutual

/-- What compiling a shape at a path looks up, in the branches that the assignment leaves in the plan. -/
def lookups (α : Assignment) : ShapeNode → String → List Lookup
  | ⟨_, _, .optional of⟩, path =>
    ⟨Path.dimensionId path Facet.presence.text, 2⟩ ::
      if α.lookup (Path.dimensionId path Facet.presence.text) = some "absent" then [] else lookups α of path
  | ⟨_, _, .nullable of⟩, path =>
    ⟨Path.dimensionId path Facet.nullability.text, 2⟩ ::
      if α.lookup (Path.dimensionId path Facet.nullability.text) = some "null" then [] else lookups α of path
  | ⟨_, _, .anyOf options⟩, path => [⟨Path.dimensionId path Facet.value.text, options.length⟩]
  | ⟨_, _, .oneOf _ alternatives _⟩, path =>
    ⟨Path.dimensionId path Facet.alternative.text, alternatives.length⟩ ::
      lookupsAlternatives α alternatives path
        ((α.lookup (Path.dimensionId path Facet.alternative.text)).filter (· ∈ alternatives.map Prod.fst))
  | ⟨_, _, .eachLike items min max⟩, path =>
    ⟨Path.dimensionId path Facet.cardinality.text, (cardinalityPoints min max).length⟩ ::
      lookups α items (Path.eachLikeItem path)
  | ⟨_, _, .eachEntry keys values min max⟩, path =>
    ⟨Path.dimensionId path Facet.cardinality.text, (cardinalityPoints min max).length⟩ ::
      (lookupsKeys α keys (Path.eachEntryKey path) ++ lookups α values (Path.eachEntryValue path))
  | ⟨_, _, .object members⟩, path => lookupsMembers α members path
  | ⟨_, _, .array entries⟩, path => lookupsEntries α entries path 0
  | ⟨_, _, .contains entries⟩, path => lookupsEntries α entries path 0
  | _, _ => []
termination_by structural node => node

def lookupsMembers (α : Assignment) : List (String × ShapeNode) → String → List Lookup
  | [], _ => []
  | (name, member) :: rest, path => lookups α member (Path.member path name) ++ lookupsMembers α rest path
termination_by structural members => members

/-- The lookups in the alternative of the name, or in all of them where there is no name. -/
def lookupsAlternatives (α : Assignment) : List (String × ShapeNode) → String → Option String → List Lookup
  | [], _, _ => []
  | (name, alternative) :: rest, path, pinned =>
    (if pinned.all (· == name) then lookups α alternative (Path.alternative path name) else []) ++
      lookupsAlternatives α rest path pinned
termination_by structural alternatives => alternatives

def lookupsEntries (α : Assignment) : List ShapeNode → String → Nat → List Lookup
  | [], _, _ => []
  | entry :: rest, path, index =>
    lookups α entry (Path.arrayIndex path index) ++ lookupsEntries α rest path (index + 1)
termination_by structural entries => entries

def lookupsKeys (α : Assignment) : Option ShapeNode → String → List Lookup
  | none, _ => []
  | some keys, path => lookups α keys path
termination_by structural keys => keys

end

section Lists

variable {α : Assignment} {path : String} {l : Lookup}

theorem mem_lookupsMembers {members : List (String × ShapeNode)} :
    l ∈ lookupsMembers α members path ↔ ∃ p ∈ members, l ∈ lookups α p.2 (Path.member path p.1) := by
  induction members with
  | nil => simp [lookupsMembers]
  | cons p rest ih => simp [lookupsMembers, ih]

theorem mem_lookupsAlternatives {alternatives : List (String × ShapeNode)} {pinned : Option String} :
    l ∈ lookupsAlternatives α alternatives path pinned ↔
      ∃ p ∈ alternatives, pinned.all (· == p.1) = true ∧ l ∈ lookups α p.2 (Path.alternative path p.1) := by
  induction alternatives with
  | nil => simp [lookupsAlternatives]
  | cons p rest ih => cases h : pinned.all (· == p.1) <;> simp [lookupsAlternatives, ih, h]

theorem mem_lookupsEntries {entries : List ShapeNode} {index : Nat} :
    l ∈ lookupsEntries α entries path index ↔
      ∃ (i : Nat) (s : ShapeNode), entries[i]? = some s ∧ l ∈ lookups α s (Path.arrayIndex path (index + i)) := by
  induction entries generalizing index with
  | nil => simp [lookupsEntries]
  | cons s rest ih =>
    simp only [lookupsEntries, List.mem_append, ih]
    constructor
    · rintro (h | ⟨i, t, ht, h⟩)
      · exact ⟨0, s, rfl, h⟩
      · exact ⟨i + 1, t, by simpa using ht, by simpa [Nat.add_assoc, Nat.add_comm 1] using h⟩
    · rintro ⟨i, t, ht, h⟩
      cases i with
      | zero =>
        obtain rfl : s = t := by simpa using ht
        exact Or.inl h
      | succ i => exact Or.inr ⟨i, t, by simpa using ht, by simpa [Nat.add_assoc, Nat.add_comm 1] using h⟩

end Lists

/-- The same position under another assignment. -/
def repinned (ctx : Compile.Ctx) (β : Assignment) : Compile.Ctx := ⟨ctx.cursor, ctx.path, ctx.labelled, β⟩

private theorem repinned_resolve (ctx : Compile.Ctx) (β : Assignment) : (repinned ctx β).resolve = ctx.resolve := rfl

private theorem repinned_cardinality {ctx : Compile.Ctx} {β : Assignment} (min : UInt64) (max : Option UInt64)
    (h : ctx.pinned .cardinality = (repinned ctx β).pinned .cardinality) :
    cardinalityAssertion ctx min max = cardinalityAssertion (repinned ctx β) min max := by
  unfold cardinalityAssertion cardinalityBounds
  rw [h]
  rfl

/-- The compiler reads an assignment nowhere but at its lookups. -/
theorem compile_congr {S : ShapeNode} (ctx : Compile.Ctx) (β : Assignment)
    (h : ∀ l ∈ lookups ctx.assignment S ctx.path, ctx.assignment.lookup l.id = β.lookup l.id) :
    compileShape S ctx = compileShape S (repinned ctx β) := by
  induction S generalizing ctx with
  | leaf e g k hk =>
    cases k with
    | anyOf options =>
      have hpin : ctx.pinned .value = (repinned ctx β).pinned .value := h _ List.mem_cons_self
      simp only [compileShape, compileAnyOf, hpin, repinned_resolve]
    | object | array | eachLike | eachEntry | contains | optional | nullable | oneOf =>
      exact absurd hk (by simp [isLeaf])
    | _ => rfl
  | object e g members ih =>
    have hmembers : compileMembers members ctx = compileMembers members (repinned ctx β) := by
      rw [compileMembers_eq, compileMembers_eq]
      refine List.map_congr_left fun p hp => ?_
      have hp' := ih p hp (ctx.member p.1) fun l hl => h l (mem_lookupsMembers.2 ⟨p, hp, hl⟩)
      rw [hp']
      rfl
    simp only [compileShape, hmembers]
    rfl
  | array e g entries ih =>
    have hentries : compileEntries entries ctx 0 = compileEntries entries (repinned ctx β) 0 := by
      rw [compileEntries_eq, compileEntries_eq]
      refine List.ext_getElem (by simp) fun i hi hi' => ?_
      simp only [List.length_mapIdx] at hi
      simp only [List.getElem_mapIdx, Nat.zero_add]
      have hs : entries[i]? = some entries[i] := List.getElem?_eq_getElem hi
      have hp := ih _ (List.getElem_mem hi) (ctx.arrayIndex i) fun l hl =>
        h l (mem_lookupsEntries.2 ⟨i, _, hs, by rwa [Nat.zero_add]⟩)
      rw [hp]
      rfl
    simp only [compileShape, hentries]
    rfl
  | eachLike e g items min max ih =>
    have hitems := ih (itemCtx ctx) fun l hl => h l (List.mem_cons_of_mem _ hl)
    have hpin : ctx.pinned .cardinality = (repinned ctx β).pinned .cardinality := h _ List.mem_cons_self
    have hsize := repinned_cardinality min max hpin
    simp only [compileShape, hitems, hsize]
    rfl
  | eachEntry e g keys values min max ihk ihv =>
    have hvalues := ihv (valueCtx ctx) fun l hl => h l (List.mem_cons_of_mem _ (List.mem_append_right _ hl))
    have hpin : ctx.pinned .cardinality = (repinned ctx β).pinned .cardinality := h _ List.mem_cons_self
    have hsize := repinned_cardinality min max hpin
    have hkeys : compileKeys keys (keyCtx ctx) = compileKeys keys (repinned (keyCtx ctx) β) := by
      cases keys with
      | none => rfl
      | some k =>
        have hk := ihk k rfl (keyCtx ctx) fun l hl => h l (List.mem_cons_of_mem _ (List.mem_append_left _ hl))
        simp only [compileKeys, hk]
        rfl
    simp only [compileShape, hvalues, hsize, hkeys]
    rfl
  | contains e g entries ih =>
    have hentries : compileContains entries ctx 0 = compileContains entries (repinned ctx β) 0 := by
      rw [compileContains_eq, compileContains_eq]
      refine List.ext_getElem (by simp) fun i hi hi' => ?_
      simp only [List.length_mapIdx] at hi
      simp only [List.getElem_mapIdx, Nat.zero_add]
      have hs : entries[i]? = some entries[i] := List.getElem?_eq_getElem hi
      have hp := ih _ (List.getElem_mem hi) (entryCtx ctx i) fun l hl =>
        h l (mem_lookupsEntries.2 ⟨i, _, hs, by rwa [Nat.zero_add]⟩)
      rw [hp]
      rfl
    simp only [compileShape, hentries]
    rfl
  | optional e g of ih =>
    have hpin : ctx.pinned .presence = (repinned ctx β).pinned .presence := h _ List.mem_cons_self
    by_cases habsent : ctx.pinned .presence = some "absent"
    · rw [compileShape, compileShape, compileOptional, compileOptional, ← hpin, habsent]
      rfl
    · have hof := ih ctx fun l hl => h l (List.mem_cons_of_mem _ ((if_neg habsent).symm ▸ hl))
      simp only [compileShape, compileOptional, hpin, hof]
      rfl
  | nullable e g of ih =>
    have hpin : ctx.pinned .nullability = (repinned ctx β).pinned .nullability := h _ List.mem_cons_self
    by_cases hnull : ctx.pinned .nullability = some "null"
    · rw [compileShape, compileShape, compileNullable, compileNullable, ← hpin, hnull]
      rfl
    · have hof := ih ctx fun l hl => h l (List.mem_cons_of_mem _ ((if_neg hnull).symm ▸ hl))
      simp only [compileShape, compileNullable, hpin, hof]
      rfl
  | oneOf e g discriminator alternatives default ih =>
    have hpin : ctx.pinned .alternative = (repinned ctx β).pinned .alternative := h _ List.mem_cons_self
    have hstep : ∀ p ∈ alternatives,
        ((ctx.pinned .alternative).filter (· ∈ alternatives.map Prod.fst)).all (· == p.1) = true →
          compileShape p.2 (ctx.alternative p.1) = compileShape p.2 ((repinned ctx β).alternative p.1) := fun p hp hname =>
      ih p hp (ctx.alternative p.1) fun l hl =>
        h l (List.mem_cons_of_mem _ (mem_lookupsAlternatives.2 ⟨p, hp, hname, hl⟩))
    have hmap : (ctx.pinned .alternative).filter (· ∈ alternatives.map Prod.fst) = none →
        compileAlternatives alternatives discriminator ctx =
          compileAlternatives alternatives discriminator (repinned ctx β) := by
      intro hfree
      rw [compileAlternatives_eq, compileAlternatives_eq]
      refine List.map_congr_left fun p hp => ?_
      rw [hstep p hp (by rw [hfree]; rfl)]
    rw [compileShape, compileShape, compileOneOf, compileOneOf, ← hpin]
    cases hpoint : ctx.pinned .alternative with
    | none =>
      rw [hmap (by rw [hpoint]; rfl)]
      rfl
    | some point =>
      by_cases hmem : point ∈ alternatives.map Prod.fst
      · rw [compileAlternatives_eq, compileAlternatives_eq]
        simp only [Option.bind_some, List.find?_map, Function.comp_def]
        cases hfind : alternatives.find? fun p => p.1 == point with
        | some p =>
          have hname : p.1 = point := by simpa using List.find?_some hfind
          simp only [Option.map_some, Alternative.branch]
          rw [hstep p (List.mem_of_find?_eq_some hfind) (by simp [hpoint, Option.filter_some, hmem, hname])]
        | none =>
          obtain ⟨p, hp, hname⟩ := List.mem_map.1 hmem
          exact absurd (List.find?_eq_none.1 hfind p hp) (by simp [hname])
      · rw [hmap (by rw [hpoint, Option.filter_some, if_neg (by simpa using hmem)])]
        rfl

/-! What a complete assignment says of each node it reaches. -/

/-- Where the gates above a node stand open, its dimensions have one of their points. -/
def Decided (α : Assignment) (n : PlacedNode) : Prop :=
  (∀ g ∈ n.gates, α.lookup g.dimension = some g.point) →
    ∀ d ∈ ownDimensions n, ∃ p ∈ d.points, α.lookup d.id = some p.name

section Decided

variable {α : Assignment} {path : String} {gates : List Gate} {e : Option Example} {g : Option Json} {k : ShapeKind}

/-- The gates a shape stands behind are open: those of the node above it, and its own. -/
theorem gates_append {extra : Gate} (hgates : ∀ g ∈ gates, α.lookup g.dimension = some g.point)
    (hextra : α.lookup extra.dimension = some extra.point) :
    ∀ g ∈ gates ++ [extra], α.lookup g.dimension = some g.point :=
  List.forall_mem_append.2 ⟨hgates, List.forall_mem_singleton.2 hextra⟩

private theorem decided_root (h : ∀ n ∈ placed ⟨e, g, k⟩ path gates, Decided α n)
    (hgates : ∀ g ∈ gates, α.lookup g.dimension = some g.point) {d : Dimension}
    (hd : d ∈ ownDimensions ⟨path, gates, ⟨e, g, k⟩⟩) : ∃ p ∈ d.points, α.lookup d.id = some p.name :=
  (forall_placed.1 h).1 hgates d hd

theorem decided_presence {of : ShapeNode} (h : ∀ n ∈ placed ⟨e, g, .optional of⟩ path gates, Decided α n)
    (hgates : ∀ g ∈ gates, α.lookup g.dimension = some g.point) :
    α.lookup (Path.dimensionId path Facet.presence.text) = some "present" ∨
      α.lookup (Path.dimensionId path Facet.presence.text) = some "absent" := by
  obtain ⟨p, hp, hpin⟩ := decided_root h hgates List.mem_cons_self
  simp only [dimension, List.mem_cons, List.not_mem_nil, or_false] at hp
  obtain rfl | rfl := hp
  · exact Or.inl hpin
  · exact Or.inr hpin

theorem decided_nullability {of : ShapeNode} (h : ∀ n ∈ placed ⟨e, g, .nullable of⟩ path gates, Decided α n)
    (hgates : ∀ g ∈ gates, α.lookup g.dimension = some g.point) :
    α.lookup (Path.dimensionId path Facet.nullability.text) = some "non-null" ∨
      α.lookup (Path.dimensionId path Facet.nullability.text) = some "null" := by
  obtain ⟨p, hp, hpin⟩ := decided_root h hgates List.mem_cons_self
  simp only [dimension, List.mem_cons, List.not_mem_nil, or_false] at hp
  obtain rfl | rfl := hp
  · exact Or.inl hpin
  · exact Or.inr hpin

theorem decided_alternative {discriminator : String} {alternatives : List (String × ShapeNode)}
    {default : Option String} (hvalid : wellFormed ⟨e, g, .oneOf discriminator alternatives default⟩ = true)
    (h : ∀ n ∈ placed ⟨e, g, .oneOf discriminator alternatives default⟩ path gates, Decided α n)
    (hgates : ∀ g ∈ gates, α.lookup g.dimension = some g.point) :
    ∃ p ∈ alternatives, α.lookup (Path.dimensionId path Facet.alternative.text) = some p.1 := by
  have hnode := (wellFormed_mk.1 hvalid).2.1
  simp only [nodeValid, alternativesValid, Bool.and_eq_true, decide_eq_true_eq] at hnode
  obtain ⟨first, second, rest, rfl⟩ := exists_cons_cons hnode.1.1.1.1.1
  obtain ⟨p, hp, hpin⟩ := decided_root h hgates List.mem_cons_self
  obtain ⟨q, hq, rfl⟩ := List.mem_map.1 hp
  exact ⟨q, hq, hpin⟩

end Decided

/-! Whole interactions. -/

/-- What compiling an interaction looks up. -/
def interactionLookups (α : Assignment) (spec : InteractionSpec) : List Lookup :=
  spec.parts.flatMap fun part => part.2.flatMap fun slot => lookups α slot.2 (Path.root part.1 slot.1)

/-- An interaction's plan depends on its assignment through its lookups alone. -/
theorem interaction_congr {spec : InteractionSpec} {α β : Assignment} {variantId : Option String}
    (h : ∀ l ∈ interactionLookups α spec, α.lookup l.id = β.lookup l.id) :
    compile spec α variantId = compile spec β variantId := by
  simp only [compile]
  congr 2
  refine List.map_congr_left fun part hpart => ?_
  congr 1
  refine List.map_congr_left fun slot hslot => ?_
  congr 1
  exact compile_congr (rootCtx part.1 slot.1 α) β fun l hl =>
    h l (List.mem_flatMap.2 ⟨part, hpart, List.mem_flatMap.2 ⟨slot, hslot, hl⟩⟩)

private theorem cardinality_gates {path operator : String} {min : UInt64} {max : Option UInt64} {gates : List Gate}
    {d : Dimension} (hd : d ∈ cardinalityDimension path operator min max gates) : d.gatedBy = gates := by
  simp only [cardinalityDimension] at hd
  split at hd
  · obtain rfl := List.mem_singleton.1 hd
    rfl
  · exact absurd hd (by simp)

private theorem own_gates {n : PlacedNode} {d : Dimension} (hd : d ∈ ownDimensions n) : d.gatedBy = n.gates := by
  unfold ownDimensions at hd
  split at hd
  · exact List.mem_singleton.1 hd ▸ rfl
  · exact List.mem_singleton.1 hd ▸ rfl
  · unfold anyOfDimension at hd
    split at hd
    · exact List.mem_singleton.1 hd ▸ rfl
    · exact absurd hd (by simp)
  · split at hd
    · exact List.mem_singleton.1 hd ▸ rfl
    · exact absurd hd (by simp)
  · exact cardinality_gates hd
  · exact cardinality_gates hd
  · exact absurd hd (by simp)

/-- An assignment complete for a space that has all of a shape's dimensions decides the shape. -/
theorem decided_of_completeFor {space : List Dimension} {α : Assignment} (hα : CompleteFor space α) {S : ShapeNode}
    (hvalid : wellFormed S = true) {path : String} (hspace : ∀ d ∈ walk S path [], d ∈ space) :
    ∀ n ∈ placed S path [], Decided α n := by
  intro n hn hgates d hd
  refine hα.points d (hspace d ((mem_walk hvalid).2 ⟨n, hn, hd⟩)) (List.all_eq_true.2 fun g hg => ?_)
  rw [own_gates hd] at hg
  exact beq_iff_eq.2 (hgates g hg)

end PactJanus.Plan.Pinning
