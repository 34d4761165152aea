import PactJanus.Legacy.Body
import PactJanus.Legacy.Covers
import PactJanus.Plan.Leaves

namespace PactJanus.Legacy.Checked

open PactJanus.Data.Json PactJanus.Data.Equality PactJanus.Lib.Lists PactJanus.Shape PactJanus.Plan.Model
  PactJanus.Plan.Value PactJanus.Plan.Result PactJanus.Plan.Interpret PactJanus.Plan.Compile PactJanus.Plan.Legacy
  PactJanus.Plan.Navigation PactJanus.Plan.Documents PactJanus.Plan.Outcome PactJanus.Plan.Accepts PactJanus.Plan.Good
  PactJanus.Plan.Positions PactJanus.Plan.Checks PactJanus.Plan.Flow PactJanus.Plan.Leaves PactJanus.Legacy.Body
  PactJanus.Legacy.Covers

/-! The nodes a document compiles to are the checks of `Covers`, each at the plain text of its steps. -/

/-- A step as the compiler of older contracts writes it. -/
def plainStep : Step → List Char
  | .member name => '.' :: name.toList
  | .index i => '[' :: i.repr.toList ++ [']']

def plainPath (steps : List Step) : List Char := steps.flatMap plainStep

mutual

/-- Every array of the document has a length a machine word holds. -/
def countable : Json → Bool
  | .object members => countableMembers members
  | .array items => decide (items.length < 2 ^ 64) && countableAll items
  | _ => true
termination_by structural e => e

def countableMembers : List (String × Json) → Bool
  | [] => true
  | (_, e) :: rest => countable e && countableMembers rest
termination_by structural members => members

def countableAll : List Json → Bool
  | [] => true
  | e :: rest => countable e && countableAll rest
termination_by structural items => items

end

theorem countable_object {members : List (String × Json)} :
    countable (.object members) = true ↔ ∀ m ∈ members, countable m.2 = true := by
  rw [countable]
  induction members with
  | nil => simp [countableMembers]
  | cons m rest ih => simp [countableMembers, ih]

theorem countable_array {items : List Json} :
    countable (.array items) = true ↔ items.length < 2 ^ 64 ∧ ∀ e ∈ items, countable e = true := by
  have hitems : countableAll items = true ↔ ∀ e ∈ items, countable e = true := by
    induction items with
    | nil => simp [countableAll]
    | cons e rest ih => simp [countableAll, ih]
  rw [countable, Bool.and_eq_true, hitems, decide_eq_true_eq]

section Nodes

variable {c : Plan.Interpret.Ctx} {ctx : BodyCtx} {path : String}

theorem yields_resolve (c : Plan.Interpret.Ctx) (path : String) : Yields (run (.resolve path) c) (c.resolver path) path :=
  ⟨rfl, rfl, (clean_of_result rfl).2 ⟨by rw [resultGood_false]; rfl, by simp [childrenOf, run]⟩⟩

private theorem fromLiteral_fromDocument {e : Json} (he : isScalar e = true) :
    fromLiteral (Literal.fromDocument (fromJson e)) = fromJson e := by
  cases e <;> first | rfl | exact absurd he (by simp [isScalar])

theorem good_equal (hctx : ctx.cursor = .absolute path) {e : Json} (he : isScalar e = true) :
    good false (run (compileBodyScalar (fromJson e) ctx) c) ↔ (Check.equal ⟨e, he⟩).holds (c.resolver path) = true := by
  rw [compileBodyScalar, BodyCtx.resolve, hctx]
  exact good_against matchEquality (yields_resolve c path) rfl fun es hv hl _ => by
    rw [good_matchEquality, hv, hl, fromLiteral_fromDocument he]
    rfl

theorem good_count (hctx : ctx.cursor = .absolute path) {n : Nat} (hn : n < 2 ^ 64) :
    good false (run (.action "expect:count" [ctx.resolve, .value (Literal.number (UInt64.ofNat n))]) c) ↔
      (Check.count n).holds (c.resolver path) = true := by
  rw [BodyCtx.resolve, hctx]
  exact good_against expectCount (yields_resolve c path) rfl fun es hv hl _ => by
    rw [good_expectCount hl, hv, UInt64.toNat_ofNat_of_lt' hn]
    rfl

private theorem allowedNames_literals (first : Executed) (names : List String) (c : Plan.Interpret.Ctx) :
    allowedNames (first :: names.map fun name => run (.value (Literal.string name)) c) = names := by
  rw [allowedNames, List.drop_succ_cons, List.drop_zero, List.map_map]
  exact List.map_id' names

private theorem good_onlyEntries {es : List Executed} {names : List String} (hnames : allowedNames es = names) :
    resultGood false (onlyEntries es) = (Check.only names).holds (valueAt es 0) := by
  unfold onlyEntries
  cases h : valueAt es 0 with
  | object members =>
    simp only [hnames, Check.holds]
    rw [apply_ite (resultGood false), resultGood_ok, resultGood_error]
    by_cases hall : ∀ p ∈ members, p.1 ∈ names
    · have hnone : (members.map Prod.fst).filter (fun k => k ∉ names) = [] := by
        rw [List.filter_eq_nil_iff]
        intro k hk
        obtain ⟨p, hp, rfl⟩ := List.mem_map.1 hk
        simpa using hall p hp
      rw [hnone, List.isEmpty_nil, if_pos rfl, eq_comm, List.all_eq_true]
      simpa using hall
    · push Not at hall
      obtain ⟨p, hp, hnot⟩ := hall
      have hsome : p.1 ∈ (members.map Prod.fst).filter (fun k => k ∉ names) :=
        List.mem_filter.2 ⟨List.mem_map_of_mem hp, by simpa using hnot⟩
      have hfalse : (members.all fun p => decide (p.1 ∈ names)) = false :=
        List.all_eq_false.2 ⟨p, hp, by simpa using hnot⟩
      rw [hfalse, if_neg]
      intro hempty
      rw [List.isEmpty_iff.1 hempty] at hsome
      exact absurd hsome List.not_mem_nil
  | _ => rfl

private theorem run_onlyEntries (n : Node) (names : List String) (c : Plan.Interpret.Ctx) :
    run (.action "legacy:only-entries" (n :: names.map fun name => .value (Literal.string name))) c =
      .action "legacy:only-entries" (run n c :: names.map fun name => run (.value (Literal.string name)) c)
        (some (onlyEntries (run n c :: names.map fun name => run (.value (Literal.string name)) c))) := by
  rw [run, tooFew_eq_none 1 (by decide) (by simp), runAll_eq_map]
  · simp only [List.map_cons, List.map_map, Function.comp_def]
    rfl
  all_goals simp

theorem good_only (hctx : ctx.cursor = .absolute path) (names : List String) :
    good false (run (.action "legacy:only-entries"
        (ctx.resolve :: names.map fun name => .value (Literal.string name))) c) ↔
      (Check.only names).holds (c.resolver path) = true := by
  have hy := yields_resolve c path
  rw [BodyCtx.resolve, hctx, Cursor.resolve, run_onlyEntries,
    good_of_result rfl (by simp [childrenOf, hy.clean, clean_literal]),
    good_onlyEntries (allowedNames_literals _ names c), valueAt_zero, hy.valueOf]

end Nodes

theorem compileBodyMembers_eq (members : List (String × RuntimeValue)) (ctx : BodyCtx) :
    compileBodyMembers members ctx = members.map fun p =>
      (p.1, .container (some (ctx.member p.1).labelPath) (compileBodyValue p.2 (ctx.member p.1))) := by
  induction members with
  | nil => rfl
  | cons p rest ih => simp [compileBodyMembers, ih]

theorem mem_compileBodyItems {items : List RuntimeValue} {ctx : BodyCtx} {start : Nat} {n : Node} :
    n ∈ compileBodyItems items ctx start ↔ ∃ (i : Nat) (v : RuntimeValue), items[i]? = some v ∧
      n = .container (some (ctx.index (start + i)).labelPath) (compileBodyValue v (ctx.index (start + i))) := by
  induction items generalizing start with
  | nil => simp [compileBodyItems]
  | cons v rest ih =>
    rw [compileBodyItems, List.mem_cons, ih]
    constructor
    · rintro (rfl | ⟨i, w, hi, rfl⟩)
      · exact ⟨0, v, rfl, rfl⟩
      · exact ⟨i + 1, w, by simpa using hi, by rw [Nat.add_right_comm, Nat.add_assoc]⟩
    · rintro ⟨i, w, hi, rfl⟩
      cases i with
      | zero =>
        obtain rfl : v = w := by simpa using hi
        exact Or.inl rfl
      | succ i => exact Or.inr ⟨i, w, by simpa using hi, by rw [Nat.add_right_comm, Nat.add_assoc]⟩

theorem ofList_plainPath_member (path name : String) (steps : List Step) :
    path ++ String.ofList (plainPath (.member name :: steps)) =
      Path.member path name ++ String.ofList (plainPath steps) := by
  rw [← String.toList_inj]
  simp [plainPath, plainStep, Path.member]

theorem ofList_plainPath_index (path : String) (i : Nat) (steps : List Step) :
    path ++ String.ofList (plainPath (.index i :: steps)) =
      Path.arrayIndex path i ++ String.ofList (plainPath steps) := by
  rw [← String.toList_inj]
  simp [plainPath, plainStep, Path.arrayIndex]

theorem allGood_append {strict : Bool} {c : Plan.Interpret.Ctx} {ns ms : List Node} :
    allGood strict c (ns ++ ms) ↔ allGood strict c ns ∧ allGood strict c ms := by
  simp [allGood, or_imp, forall_and]

private theorem only_perm {names others : List String} (h : names.Perm others) (v : RuntimeValue) :
    (Check.only names).holds v = (Check.only others).holds v := by
  cases v <;> simp [Check.holds, h.mem_iff]

/-- What a path's checks read, each at the plain text of its steps. -/
def readPlain (resolver : String → RuntimeValue) (path : String) (steps : List Step) : RuntimeValue :=
  resolver (path ++ String.ofList (plainPath steps))

private theorem readPlain_nil (resolver : String → RuntimeValue) (path : String) :
    readPlain resolver path [] = resolver path := by
  simp [readPlain, plainPath]

/-- What a document compiles to is clean where its checks hold of what their plain paths resolve to. -/
theorem allGood_compileBodyValue {e : Json} (he : countable e = true) {c : Plan.Interpret.Ctx} {ctx : BodyCtx}
    {path : String} (hctx : ctx.cursor = .absolute path) :
    allGood false c (compileBodyValue (fromJson e) ctx) ↔ Holds ctx.closedObjects e (readPlain c.resolver path) := by
  induction e generalizing ctx path with
  | object members ih =>
    have hmember (m : String × Json) (hm : m ∈ members) :
        good false (run (.container (some (ctx.member m.1).labelPath)
          (compileBodyValue (fromJson m.2) (ctx.member m.1))) c) ↔
          Holds ctx.closedObjects m.2 fun steps => readPlain c.resolver path (.member m.1 :: steps) := by
      have hcursor : (ctx.member m.1).cursor = .absolute (Path.member path m.1) := by
        rw [BodyCtx.member, hctx]
        rfl
      rw [good_runContainer, ih m hm (countable_object.1 he m hm) hcursor]
      simp only [readPlain, ofList_plainPath_member]
      rfl
    have hperm := List.perm_insertionSort (fun a b : String × Node => a.1 ≤ b.1)
      (compileBodyMembers (fromJsonMembers members) ctx)
    have hnames : ((byName (compileBodyMembers (fromJsonMembers members) ctx)).map Prod.fst).Perm
        (members.map Prod.fst) := by
      refine (hperm.map Prod.fst).trans (List.Perm.of_eq ?_)
      rw [compileBodyMembers_eq, fromJsonMembers_eq, List.map_map, List.map_map]
      rfl
    rw [fromJson, compileBodyValue, allGood_append, holds_object]
    refine and_congr ?_ ?_
    · rw [allGood, List.forall_mem_map]
      refine (forall_congr' fun p => imp_congr_left hperm.mem_iff).trans ?_
      rw [compileBodyMembers_eq, fromJsonMembers_eq, List.forall_mem_map, List.forall_mem_map]
      exact forall₂_congr hmember
    · unfold onlyNamed
      cases hclosed : ctx.closedObjects with
      | false => simp [allGood]
      | true =>
        rw [if_pos rfl, allGood_one, good_only hctx, only_perm hnames, readPlain_nil]
        simp
  | array items ih =>
    obtain ⟨hlen, hitems⟩ := countable_array.1 he
    have hindex (i : Nat) (e : Json) (hi : items[i]? = some e) :
        good false (run (.container (some (ctx.index i).labelPath) (compileBodyValue (fromJson e) (ctx.index i))) c) ↔
          Holds ctx.closedObjects e fun steps => readPlain c.resolver path (.index i :: steps) := by
      have hcursor : (ctx.index i).cursor = .absolute (Path.arrayIndex path i) := by
        rw [BodyCtx.index, hctx]
        rfl
      rw [good_runContainer, ih e (List.mem_of_getElem? hi) (hitems e (List.mem_of_getElem? hi)) hcursor]
      simp only [readPlain, ofList_plainPath_index]
      rfl
    rw [fromJson, compileBodyValue, allGood_cons, holds_array, fromJsonAll_eq, List.length_map, good_count hctx hlen,
      readPlain_nil]
    refine and_congr_right fun _ => ⟨fun h i e hi => ?_, fun h n hn => ?_⟩
    · refine (hindex i e hi).1 (h _ (mem_compileBodyItems.2 ⟨i, fromJson e, ?_, by rw [Nat.zero_add]⟩))
      rw [List.getElem?_map, hi]
      rfl
    · obtain ⟨i, v, hi, rfl⟩ := mem_compileBodyItems.1 hn
      rw [List.getElem?_map] at hi
      obtain ⟨e, he, rfl⟩ := Option.map_eq_some_iff.1 hi
      rw [Nat.zero_add]
      exact (hindex i e he).2 (h i e he)
  | _ =>
    rw [holds_scalar rfl, readPlain_nil]
    exact allGood_one.trans (good_equal hctx rfl)

end PactJanus.Legacy.Checked
