import PactJanus.Lib.Distinct
import PactJanus.Plan.Flow

namespace PactJanus.Plan.Contains

open PactJanus.Data.Json PactJanus.Lib.Distinct PactJanus.Plan.Model PactJanus.Plan.Value PactJanus.Plan.Result
open PactJanus.Plan.Interpret PactJanus.Plan.Accepts PactJanus.Plan.Flow

/-! The search of `match:contains`, against the assignments of distinct elements to its entries. -/

variable {c : Interpret.Ctx} {items : List (RuntimeValue × Option String)}

/-- An entry's node does not fail at the item of an index. -/
def AcceptsAt (c : Interpret.Ctx) (items : List (RuntimeValue × Option String)) (entry : Node) (index : Nat) : Prop :=
  ∃ p, items[index]? = some p ∧ childFailed (run entry (c.push p.1 p.2)) = false

/-- No entry has claimed the item of an index. -/
def Free (used : List Bool) (index : Nat) : Prop := used[index]? = some false

private theorem firstFree_some {accept : RuntimeValue × Option String → Bool} {used : List Bool} {start index : Nat}
    (h : firstFree accept items used start = some index) :
    ∃ i, index = start + i ∧ Free used i ∧ ∃ p, items[i]? = some p ∧ accept p = true := by
  induction items generalizing used start with
  | nil => simp [firstFree] at h
  | cons item rest ih =>
    cases used with
    | nil => simp [firstFree] at h
    | cons u us =>
      have hnext : firstFree accept rest us (start + 1) = some index →
          ∃ i, index = start + i ∧ Free (u :: us) i ∧ ∃ p, (item :: rest)[i]? = some p ∧ accept p = true := by
        intro h
        obtain ⟨i, rfl, hi, p, hp, ha⟩ := ih h
        exact ⟨i + 1, by omega, hi, p, hp, ha⟩
      unfold firstFree at h
      split at h
      · exact hnext h
      · split at h
        · rename_i hu ha
          obtain rfl := Option.some.inj h
          exact ⟨0, rfl, by simpa [Free] using hu, item, rfl, ha⟩
        · exact hnext h

private theorem firstFree_none {accept : RuntimeValue × Option String → Bool} {used : List Bool} {start : Nat}
    (h : firstFree accept items used start = none) {i : Nat} (hi : Free used i) {p : RuntimeValue × Option String}
    (hp : items[i]? = some p) : accept p = false := by
  induction items generalizing used start i with
  | nil => cases hp
  | cons item rest ih =>
    cases used with
    | nil => cases hi
    | cons u us =>
      unfold firstFree at h
      cases i with
      | zero =>
        obtain rfl := Option.some.inj hp
        obtain rfl := Option.some.inj hi
        simp only [Bool.false_eq_true, if_false] at h
        split at h
        · cases h
        · rename_i ha
          exact Bool.eq_false_iff.2 ha
      | succ i =>
        split at h
        · exact ih h hi hp
        · split at h
          · cases h
          · exact ih h hi hp

private theorem free_set (used : List Bool) (i j : Nat) :
    Free (used.set i true) j ↔ Free used j ∧ j ≠ i := by
  unfold Free
  rw [List.getElem?_set]
  split
  · rename_i heq
    subst heq
    simp
  · rename_i hne
    exact ⟨fun h => ⟨h, Ne.symm hne⟩, And.left⟩

/-- The first entry's search, and those after it. -/
private theorem claimed_cons (entry : Node) (entries : List Node) (used : List Bool) :
    claimed c items (entry :: entries) used = true ↔
      ∃ i, firstFree (fun p => !childFailed (run entry (c.push p.1 p.2))) items used 0 = some i ∧
        claimed c items entries (used.set i true) = true := by
  rw [claimed]
  cases firstFree (fun p => !childFailed (run entry (c.push p.1 p.2))) items used 0 <;> simp

private theorem exists_assigns {entries : List Node} {used : List Bool} (h : claimed c items entries used = true) :
    ∃ chosen, Assigns (AcceptsAt c items) (Free used) entries chosen := by
  induction entries generalizing used with
  | nil => exact ⟨[], Assigns.nil⟩
  | cons entry entries ih =>
    obtain ⟨index, hfirst, hrest⟩ := (claimed_cons entry entries used).1 h
    obtain ⟨i, hindex, hi, p, hp, ha⟩ := firstFree_some hfirst
    obtain rfl : index = i := hindex.trans (Nat.zero_add i)
    obtain ⟨chosen, hchosen⟩ := ih hrest
    have hfree : (fun j => Free used j ∧ j ≠ index) = Free (used.set index true) := funext fun j =>
      propext (free_set used _ j).symm
    exact ⟨index :: chosen, Assigns.cons hi ⟨p, hp, by simpa using ha⟩ (hfree ▸ hchosen)⟩

private theorem claimed_of_assigns {entries : List Node} {used : List Bool} {chosen : List Nat}
    (hnested : Nested (AcceptsAt c items) entries) (h : Assigns (AcceptsAt c items) (Free used) entries chosen) :
    claimed c items entries used = true := by
  induction entries generalizing used chosen with
  | nil => rfl
  | cons entry entries ih =>
    obtain ⟨x, others, ⟨q, hq, haccept⟩, -, rfl⟩ := List.forall₂_cons_left_iff.1 h.accepted
    cases hfirst : firstFree (fun p => !childFailed (run entry (c.push p.1 p.2))) items used 0 with
    | none =>
      have hreject := firstFree_none hfirst (h.isFree x List.mem_cons_self) hq
      simp [haccept] at hreject
    | some index =>
      obtain ⟨i, hindex, hi, p, hp, ha⟩ := firstFree_some hfirst
      obtain rfl : index = i := hindex.trans (Nat.zero_add i)
      obtain ⟨chosen, hchosen⟩ := h.exchange hnested ⟨p, hp, by simpa using ha⟩
      have hfree : (fun j => Free used j ∧ j ≠ index) = Free (used.set index true) := funext fun j =>
        propext (free_set used _ j).symm
      exact (claimed_cons entry entries used).2 ⟨index, hfirst, ih (List.pairwise_cons.1 hnested).2 (hfree ▸ hchosen)⟩

private theorem contains_result {source : Node} {entries : List Node} {elements : List RuntimeValue}
    (h : valueOf (run source c) = .array elements) :
    resultTruthy (run (.action "match:contains" (source :: entries)) c) =
      claimed c (itemPaths (pathOf (run source c)) elements) entries (elements.map fun _ => false) := by
  have hrun : run (.action "match:contains" (source :: entries)) c = runContains (source :: entries) c := by
    rw [run, tooFew_eq_none 1 (by decide) (by simp)]
  have hused : (itemPaths (pathOf (run source c)) elements).map (fun _ => false) = elements.map fun _ => false := by
    simp [itemPaths, List.mapIdx_eq_zipIdx_map, Function.comp_def]
  have hfailed := (runEntries_claimed c (itemPaths (pathOf (run source c)) elements) entries
    (elements.map fun _ => false)).1
  rw [hrun]
  simp only [runContains, h, hused, resultTruthy, resultOf, hfailed]
  cases claimed c (itemPaths (pathOf (run source c)) elements) entries (elements.map fun _ => false) <;> rfl

/-- `match:contains` succeeds only where its entries can be assigned distinct elements each accepts. It does succeed there
where its entries are nested, the elements an earlier one shares with a later one being no reason to hold them back. -/
theorem contains_assigns (source : Node) (entries : List Node) (elements : List RuntimeValue)
    (h : valueOf (run source c) = .array elements) :
    (resultTruthy (run (.action "match:contains" (source :: entries)) c) = true →
      ∃ chosen, Assigns (AcceptsAt c (itemPaths (pathOf (run source c)) elements)) (· < elements.length) entries chosen) ∧
    (Nested (AcceptsAt c (itemPaths (pathOf (run source c)) elements)) entries →
      (∃ chosen, Assigns (AcceptsAt c (itemPaths (pathOf (run source c)) elements)) (· < elements.length) entries
        chosen) →
      resultTruthy (run (.action "match:contains" (source :: entries)) c) = true) := by
  have hfree : (fun i => i < elements.length) = Free (elements.map fun _ => false) := by
    funext i
    simp [Free, List.getElem?_eq_some_iff]
  rw [contains_result h, hfree]
  exact ⟨exists_assigns, fun hnested ⟨_, hassigns⟩ => claimed_of_assigns hnested hassigns⟩

/-- The letters "a" and "b", as a source resolves them. -/
private def letters : Interpret.Ctx :=
  ⟨⟨fun _ _ => .ok true, fun _ => true, fun _ _ => .ok (), id, id⟩, fun _ => .array [.string "a", .string "b"], none, none,
    [], []⟩

private def anyString : Node := .action "match:string" [.resolveCurrent "~>"]

private def theLetterA : Node := .action "match:equality" [.resolveCurrent "~>", .value (Literal.string "a")]

private def stringThenA : Node := .action "match:contains" [.resolve "$.letters", anyString, theLetterA]

private theorem accepts_letters :
    AcceptsAt letters (itemPaths (some "$.letters") [.string "a", .string "b"]) anyString 0 ∧
      AcceptsAt letters (itemPaths (some "$.letters") [.string "a", .string "b"]) anyString 1 ∧
      AcceptsAt letters (itemPaths (some "$.letters") [.string "a", .string "b"]) theLetterA 0 :=
  ⟨⟨_, rfl, by decide +kernel⟩, ⟨_, rfl, by decide +kernel⟩, ⟨_, rfl, by decide +kernel⟩⟩

/-- An entry that any string satisfies takes the one element the next entry needs, though it could leave it. -/
theorem contains_takes_the_only_match :
    resultTruthy (run stringThenA letters) = false ∧
      Assigns (AcceptsAt letters (itemPaths (some "$.letters") [.string "a", .string "b"])) (· < 2)
        [anyString, theLetterA] [1, 0] := by
  obtain ⟨-, hany, hthe⟩ := accepts_letters
  refine ⟨by decide +kernel, by decide, by decide, ?_⟩
  exact List.Forall₂.cons hany (List.Forall₂.cons hthe List.Forall₂.nil)

/-- Put the other way round, the entries are nested and each finds its element. -/
theorem contains_assigns_letters :
    valueOf (run (.resolve "$.letters") letters) = .array [.string "a", .string "b"] ∧
      resultTruthy (run (.action "match:contains" [.resolve "$.letters", theLetterA, anyString]) letters) = true := by
  obtain ⟨hfirst, hany, hthe⟩ := accepts_letters
  have hnested : Nested (AcceptsAt letters (itemPaths (some "$.letters") [.string "a", .string "b"]))
      [theLetterA, anyString] := by
    refine List.pairwise_pair.2 fun i j _ _ hj => ?_
    obtain ⟨p, hp, -⟩ := hj
    match j, hp with
    | 0, _ => exact hfirst
    | 1, _ => exact hany
  refine ⟨rfl, (contains_assigns (.resolve "$.letters") [theLetterA, anyString] [.string "a", .string "b"] rfl).2 hnested
    ⟨[0, 1], by decide, by decide, ?_⟩⟩
  exact List.Forall₂.cons hthe (List.Forall₂.cons hany List.Forall₂.nil)

end PactJanus.Plan.Contains
