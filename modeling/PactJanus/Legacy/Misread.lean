import PactJanus.Legacy.Checked

namespace PactJanus.Legacy.Misread

open PactJanus.Data.Json PactJanus.Data.Equality PactJanus.Lib PactJanus.Lib.Lists PactJanus.Plan.Value
  PactJanus.Plan.Result PactJanus.Plan.Navigation PactJanus.Plan.Documents PactJanus.Plan.Replacement
  PactJanus.Legacy.Covers PactJanus.Legacy.Checked

/-! What a plain path is read back as: its own steps where no name has a `.` or a `[`, other steps where one has. -/

def told : Step → Bool
  | .member name => plainlyNamed name
  | .index _ => true

/-- Where a check's plain path leads when it is read. -/
def readAs (steps : List Step) : Option (List Step) := readSteps (plainPath steps)

theorem plainPath_head {steps : List Step} {c : Char} (h : c ∈ (plainPath steps).head?) : c = '.' ∨ c = '[' := by
  cases steps with
  | nil => exact absurd h (by simp [plainPath])
  | cons s rest =>
    cases s with
    | member name =>
      obtain rfl : '.' = c := by simpa [plainPath, plainStep] using h
      exact Or.inl rfl
    | index i =>
      obtain rfl : '[' = c := by simpa [plainPath, plainStep] using h
      exact Or.inr rfl

theorem readAs_told {steps : List Step} (hfits : ∀ s ∈ steps, s.fits) (htold : steps.all told = true) :
    readAs steps = some steps := by
  induction steps with
  | nil => simp [readAs, plainPath, readSteps]
  | cons s rest ih =>
    rw [List.all_cons, Bool.and_eq_true] at htold
    have hrest := ih (fun t ht => hfits t (List.mem_cons_of_mem _ ht)) htold.2
    rw [readAs] at hrest ⊢
    rw [plainPath, List.flatMap_cons, ← plainPath]
    cases s with
    | member name =>
      have hname : ∀ c ∈ name.toList, (!endsMember c) = true := List.all_eq_true.1 htold.1
      have hend : ∀ c ∈ (plainPath rest).head?, (!endsMember c) = false := fun c hc => by
        rcases plainPath_head hc with rfl | rfl <;> decide
      simpa [plainStep, hrest] using readSteps_member hname hend
    | index i =>
      have hi : i < 2 ^ 64 := hfits (.index i) List.mem_cons_self
      simpa [plainStep, hrest] using readSteps_index hi (plainPath rest)

/-! Steps weigh what marks their plain path has: a path that is read as steps with an odd name in them is heavier
than those steps, for the name stands in it in quotes. -/

def mark (c : Char) : Bool := c = '.' ∨ c = '[' ∨ c = '\''

def Step.weight : Step → Nat
  | .member name => name.toList.countP mark + 1
  | .index _ => 1

def weight (steps : List Step) : Nat := (steps.map Step.weight).sum

theorem weight_cons (s : Step) (rest : List Step) : weight (s :: rest) = Step.weight s + weight rest := by simp [weight]

theorem weight_append (p q : List Step) : weight (p ++ q) = weight p + weight q := by simp [weight]

theorem countP_plainPath (steps : List Step) : (plainPath steps).countP mark = weight steps := by
  induction steps with
  | nil => rfl
  | cons s rest ih =>
    rw [plainPath, List.flatMap_cons, ← plainPath, List.countP_append, ih, weight_cons]
    congr 1
    cases s with
    | member name => simp [plainStep, Step.weight, mark]
    | index i =>
      have hdigits : i.repr.toList.countP mark = 0 := by
        rw [List.countP_eq_zero]
        intro c hc hm
        have hd := Text.isDigit_of_mem_repr hc
        simp only [mark, decide_eq_true_eq] at hm
        rcases hm with rfl | rfl | rfl <;> exact absurd hd (by decide)
      simp only [plainStep, Step.weight, List.cons_append, List.countP_cons, List.countP_append, hdigits]
      rfl

private theorem countP_span (p : Char → Bool) (cs : List Char) :
    (cs.takeWhile p).countP mark + (cs.dropWhile p).countP mark = cs.countP mark := by
  rw [← List.countP_append, List.takeWhile_append_dropWhile]

private theorem countP_unquote (cs : List Char) :
    (unquote cs).1.countP mark + (unquote cs).2.countP mark ≤ cs.countP mark := by
  fun_induction unquote cs <;> simp_all [List.countP_cons] <;> omega

/-- What a path is read as weighs no more than the path, and less where a name in it is not plain. -/
theorem weight_readSteps {path : List Char} {steps : List Step} (h : readSteps path = some steps) :
    weight steps ≤ path.countP mark ∧ (steps.all told = false → weight steps < path.countP mark) := by
  induction path using readSteps.induct generalizing steps with
  | case1 =>
    rw [readSteps] at h
    obtain rfl := Option.some.inj h
    exact ⟨Nat.le_refl _, fun h => absurd h (by simp)⟩
  | case2 after ih =>
    rw [readSteps] at h
    obtain ⟨rest, hrest, rfl⟩ := Option.map_eq_some_iff.1 h
    have hspan := countP_span (fun c => !endsMember c) after
    have htold : told (.member (String.ofList (after.takeWhile fun c => !endsMember c))) = true := by
      rw [told, plainlyNamed, String.toList_ofList, List.all_eq_true]
      exact List.all_eq_true.1 (List.all_takeWhile ..)
    have hbelow := ih hrest
    have hmark : mark '.' = true := by decide
    simp only [weight_cons, Step.weight, String.toList_ofList, List.all_cons, htold, Bool.true_and, List.countP_cons,
      hmark, if_true]
    refine ⟨by omega, fun hodd => ?_⟩
    have := hbelow.2 hodd
    omega
  | case3 quoted ih =>
    rw [readSteps] at h
    obtain ⟨rest, hrest, rfl⟩ := Option.map_eq_some_iff.1 h
    have hquoted := countP_unquote quoted
    have hbelow := (ih hrest).1
    have hmark : mark '[' = true ∧ mark '\'' = true := by decide
    simp only [weight_cons, Step.weight, String.toList_ofList, List.countP_cons, hmark.1, hmark.2, if_true]
    omega
  | case4 after hquoted ih =>
    rw [readSteps] at h
    · obtain ⟨i, hi, h⟩ := Option.bind_eq_some_iff.1 h
      obtain ⟨rest, hrest, rfl⟩ := Option.map_eq_some_iff.1 h
      have hspan := countP_span (fun c => decide (c ≠ ']')) after
      have hdrop : ((after.dropWhile fun c => decide (c ≠ ']')).drop 1).countP mark ≤ _ :=
        (List.drop_sublist 1 (after.dropWhile fun c => decide (c ≠ ']'))).countP_le
      have hbelow := ih hrest
      have hmark : mark '[' = true := by decide
      simp only [weight_cons, Step.weight, List.all_cons, told, Bool.true_and, List.countP_cons, hmark, if_true]
      refine ⟨by omega, fun hodd => ?_⟩
      have := hbelow.2 hodd
      omega
    · exact hquoted
  | case5 path h1 h2 h3 h4 =>
    rw [readSteps] at h
    · exact absurd h (by simp)
    all_goals assumption

end PactJanus.Legacy.Misread
