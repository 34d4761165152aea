import PactJanus.Hooks.Changes

namespace PactJanus.Hooks.Whole

open PactJanus.Data.Json PactJanus.Contracts.Model PactJanus.Hooks.Points PactJanus.Hooks.Changes PactJanus.Lib
  PactJanus.Lib.Text

/-! Whether a hook's changes are made whole or not at all. -/

variable {result : InvokeResult} {entry : HookEntry} {point : Point} {parts : Parts}

/-- A refusal leaves the parts as they were; a success changes what its paths name, to what was given for them. -/
def AllOrNothing (result : InvokeResult) (entry : HookEntry) (point : Point) (parts : Parts) : Prop :=
  match applyChanges result entry point parts with
  | (.error _, left) => left = parts
  | (.ok names, changed) =>
    names = result.changes.map Prod.fst ∧ (∀ c ∈ result.changes, Holds changed c.1 c.2) ∧
      DiffersAt (fun part slot => ∃ c ∈ result.changes, Names c.1 part slot) parts changed

/-- Some change is one the point does not permit or the entry does not declare. -/
def SomeNotAllowed (result : InvokeResult) (entry : HookEntry) (point : Point) : Prop :=
  ∃ c ∈ result.changes, point.permits c.1 = false ∨ c.1 ∉ entry.changes

/-- Each change before the first with an unreadable value gives what the parts hold already. -/
def HeldBeforeUnreadable (changes : List (String × Json)) (parts : Parts) : Prop :=
  ∀ before c after, changes = before ++ c :: after → (∀ b ∈ before, readable b.1 b.2 = true) →
    readable c.1 c.2 = false → ∀ b ∈ before, Holds parts b.1 b.2

private theorem notAllowed_isSome {path : String} :
    (notAllowed entry point path).isSome = true ↔ point.permits path = false ∨ path ∉ entry.changes := by
  unfold notAllowed
  cases point.permits path <;> by_cases h : path ∈ entry.changes <;> simp [h]

private theorem applyChanges_refused (parts : Parts) (h : SomeNotAllowed result entry point) :
    ∃ refusal, applyChanges result entry point parts = (.error refusal, parts) := by
  obtain ⟨c, hc, hnot⟩ := h
  have hsome : (result.changes.findSome? fun c => notAllowed entry point c.1).isSome = true :=
    List.findSome?_isSome_iff.2 ⟨c, hc, notAllowed_isSome.2 hnot⟩
  obtain ⟨refusal, hr⟩ := Option.isSome_iff_exists.1 hsome
  exact ⟨refusal, by rw [applyChanges, hr]⟩

private theorem applyChanges_allowed (h : ¬ SomeNotAllowed result entry point) :
    applyChanges result entry point parts = applyEach result.changes parts := by
  have hnone : result.changes.findSome? (fun c => notAllowed entry point c.1) = none := by
    rw [List.findSome?_eq_none_iff]
    intro c hc
    rw [← Option.not_isSome_iff_eq_none]
    exact fun hsome => h ⟨c, hc, notAllowed_isSome.1 hsome⟩
  rw [applyChanges, hnone]

/-- The paths of changes that a point may take together: the whole parts once, or slots of them. -/
def Together (changes : List (String × Json)) : Prop :=
  (∀ c ∈ changes, c.1 = "parts") ∨ ∀ c ∈ changes, ∃ part slot, split '.' c.1 = ["parts", part, slot]

private theorem together_of_allowed (h : ¬ SomeNotAllowed result entry point) : Together result.changes := by
  have hpermits : ∀ c ∈ result.changes, point.permits c.1 = true := fun c hc => by
    by_contra hnot
    exact h ⟨c, hc, Or.inl (Bool.eq_false_iff.2 hnot)⟩
  rcases point.permits_cases with hall | hall
  · exact Or.inl fun c hc => hall _ (hpermits c hc)
  · exact Or.inr fun c hc => hall _ (hpermits c hc)

private theorem Together.tail {c : String × Json} {rest : List (String × Json)} (h : Together (c :: rest)) :
    Together rest :=
  h.imp (fun h b hb => h b (List.mem_cons_of_mem _ hb)) fun h b hb => h b (List.mem_cons_of_mem _ hb)

/-- What is held for one path is held still where no path after it names its slot. -/
private theorem holds_kept {left : Parts} {c : String × Json} {rest : List (String × Json)} (htogether : Together (c :: rest))
    (hd : ((c :: rest).map Prod.fst).Nodup) (hheld : Holds parts c.1 c.2)
    (hframe : DiffersAt (fun part slot => ∃ b ∈ rest, Names b.1 part slot) parts left)
    (hnone : rest = [] → left = parts) : Holds left c.1 c.2 := by
  obtain ⟨hfresh, -⟩ := List.nodup_cons.1 hd
  rcases htogether with hall | hall
  · cases rest with
    | nil => rwa [hnone rfl]
    | cons b rest =>
      have hsame : b.1 = c.1 := (hall b (by simp)).trans (hall c (by simp)).symm
      exact absurd (hsame ▸ List.mem_map_of_mem (List.mem_cons_self ..)) hfresh
  · obtain ⟨part, slot, hsplit⟩ := hall c List.mem_cons_self
    have hother : ¬ ∃ b ∈ rest, Names b.1 part slot := by
      rintro ⟨b, hb, hparts | hb'⟩
      · obtain ⟨part', slot', hsplit'⟩ := hall b (List.mem_cons_of_mem _ hb)
        rw [hparts] at hsplit'
        exact absurd hsplit' (by simp [show split '.' "parts" = ["parts"] from by decide])
      · have hsame : b.1 = c.1 := split_injective '.' (hb'.trans hsplit.symm)
        exact hfresh (hsame ▸ List.mem_map_of_mem hb)
    unfold Holds at hheld ⊢
    simp only [hsplit] at hheld ⊢
    rwa [hframe.slot part slot hother]

/-- Readable changes are all made. -/
private theorem applyEach_readable {changes : List (String × Json)} (htogether : Together changes)
    (hd : (changes.map Prod.fst).Nodup) (hr : ∀ c ∈ changes, readable c.1 c.2 = true) (parts : Parts) :
    ∃ left, (∀ after, applyEach (changes ++ after) parts =
        ((applyEach after left).1.map (changes.map Prod.fst ++ ·), (applyEach after left).2)) ∧
      (∀ c ∈ changes, Holds left c.1 c.2) ∧
      DiffersAt (fun part slot => ∃ c ∈ changes, Names c.1 part slot) parts left ∧ (changes = [] → left = parts) := by
  induction changes generalizing parts with
  | nil =>
    refine ⟨parts, fun after => ?_, List.forall_mem_nil _, .rfl, fun _ => rfl⟩
    refine Prod.ext ?_ rfl
    rw [List.nil_append]
    cases (applyEach after parts).1 <;> rfl
  | cons c rest ih =>
    obtain ⟨changed, happly, hheld, hframe⟩ := applyChange_ok parts (hr c List.mem_cons_self)
    obtain ⟨left, hrun, hall, hrest, hnone⟩ :=
      ih htogether.tail (List.nodup_cons.1 hd).2 (fun b hb => hr b (List.mem_cons_of_mem _ hb)) changed
    refine ⟨left, fun after => ?_, List.forall_mem_cons.2 ⟨?_, hall⟩, ?_, by simp⟩
    · rw [List.cons_append, applyEach, happly]
      simp only [hrun after]
      cases (applyEach after left).1 <;> rfl
    · exact holds_kept htogether hd hheld hrest hnone
    · apply hframe.trans hrest
      rintro part slot (hn | ⟨b, hb, hn⟩)
      · exact ⟨c, List.mem_cons_self, hn⟩
      · exact ⟨b, List.mem_cons_of_mem _ hb, hn⟩

/-- Changes the parts hold already leave them as they are. -/
private theorem applyEach_held {before : List (String × Json)} (h : ∀ c ∈ before, Holds parts c.1 c.2)
    (after : List (String × Json)) :
    (applyEach (before ++ after) parts).2 = (applyEach after parts).2 := by
  induction before with
  | nil => rfl
  | cons c rest ih =>
    rw [List.cons_append, applyEach, applyChange_held (h c List.mem_cons_self)]
    exact ih fun b hb => h b (List.mem_cons_of_mem _ hb)

private theorem applyEach_unreadable {c : String × Json} (h : readable c.1 c.2 = false) (after : List (String × Json))
    (parts : Parts) : ∃ refusal, applyEach (c :: after) parts = (.error refusal, parts) := by
  obtain ⟨refusal, hr⟩ := applyChange_error parts h
  exact ⟨refusal, by rw [applyEach, hr]⟩

/-- Either every value can be read, or there is a first that cannot. -/
private theorem readable_or_first (changes : List (String × Json)) :
    (∀ c ∈ changes, readable c.1 c.2 = true) ∨
      ∃ before c after, changes = before ++ c :: after ∧ (∀ b ∈ before, readable b.1 b.2 = true) ∧
        readable c.1 c.2 = false := by
  cases h : changes.find? fun c => !readable c.1 c.2 with
  | none => exact Or.inl fun c hc => by simpa using List.find?_eq_none.1 h c hc
  | some c =>
    obtain ⟨hc, before, after, heq, hbefore⟩ := List.find?_eq_some_iff_append.1 h
    exact Or.inr ⟨before, c, after, heq, fun b hb => by simpa using hbefore b hb, by simpa using hc⟩

/-- Where a list is parted at its first unreadable change, there is one way to do it. -/
private theorem first_unique {before before' after after' : List (String × Json)} {c c' : String × Json}
    (h : before ++ c :: after = before' ++ c' :: after') (hb : ∀ b ∈ before, readable b.1 b.2 = true)
    (hc : readable c.1 c.2 = false) (hb' : ∀ b ∈ before', readable b.1 b.2 = true) (hc' : readable c'.1 c'.2 = false) :
    before = before' ∧ c = c' ∧ after = after' := by
  induction before generalizing before' with
  | nil =>
    cases before' with
    | nil => exact ⟨rfl, List.cons.inj h⟩
    | cons b rest =>
      obtain rfl := (List.cons.inj h).1
      exact absurd ((hb' c List.mem_cons_self).symm.trans hc) (by simp)
  | cons b rest ih =>
    cases before' with
    | nil =>
      obtain rfl := (List.cons.inj h).1
      exact absurd ((hb b List.mem_cons_self).symm.trans hc') (by simp)
    | cons b' rest' =>
      obtain ⟨rfl, htail⟩ := List.cons.inj h
      obtain ⟨rfl, heq⟩ := ih htail (fun x hx => hb x (List.mem_cons_of_mem _ hx))
        fun x hx => hb' x (List.mem_cons_of_mem _ hx)
      exact ⟨rfl, heq⟩

/-- The changes are made whole or not at all exactly when one of them is not allowed, or nothing new is given before
the first value that cannot be read. -/
theorem all_or_nothing_iff (result : InvokeResult) (entry : HookEntry) (point : Point) (parts : Parts) :
    AllOrNothing result entry point parts ↔
      SomeNotAllowed result entry point ∨ HeldBeforeUnreadable result.changes parts := by
  by_cases hallowed : SomeNotAllowed result entry point
  · obtain ⟨refusal, hr⟩ := applyChanges_refused parts hallowed
    exact iff_of_true (by rw [AllOrNothing, hr]) (Or.inl hallowed)
  rw [or_iff_right hallowed, AllOrNothing, applyChanges_allowed hallowed]
  have htogether := together_of_allowed hallowed
  rcases readable_or_first result.changes with hall | ⟨before, c, after, heq, hbefore, hc⟩
  · obtain ⟨left, hrun, hheld, hframe, -⟩ := applyEach_readable htogether result.distinct hall parts
    have hdone : applyEach result.changes parts = (.ok (result.changes.map Prod.fst), left) := by
      simpa [applyEach, Except.map] using hrun []
    refine iff_of_true ?_ ?_
    · rw [hdone]
      exact ⟨rfl, hheld, hframe⟩
    · intro before c after heq _ hc
      have := hall c (heq ▸ List.mem_append_right _ List.mem_cons_self)
      exact absurd (this.symm.trans hc) (by simp)
  · have hsub : before.Sublist result.changes := heq ▸ List.sublist_append_left _ _
    have htogether' : Together before :=
      htogether.imp (fun h b hb => h b (hsub.subset hb)) fun h b hb => h b (hsub.subset hb)
    obtain ⟨left, hrun, hheld, -, -⟩ :=
      applyEach_readable htogether' (result.distinct.sublist (hsub.map _)) hbefore parts
    obtain ⟨refusal, hstop⟩ := applyEach_unreadable hc after left
    have hrefused : applyEach result.changes parts = (.error refusal, left) := by
      rw [heq, hrun, hstop]
      rfl
    rw [hrefused]
    constructor
    · rintro rfl before' c' after' heq' hbefore' hc' b hb
      obtain ⟨rfl, rfl, rfl⟩ := first_unique (heq.symm.trans heq') hbefore hc hbefore' hc'
      exact hheld b hb
    · intro hcond
      have hkept := applyEach_held (hcond before c after heq hbefore hc) (c :: after)
      rw [← heq, hrefused] at hkept
      obtain ⟨_, hstop'⟩ := applyEach_unreadable hc after parts
      rw [hstop'] at hkept
      exact hkept

/-- Headers that are a slot value, and a body that is none: what the hook may change, as the point permits. -/
private def signed : InvokeResult :=
  ⟨some .ok, [("parts.request.headers", .object [("content", .object [("authorization", .string "t")])]),
    ("parts.request.body", .string "{}")], none, by decide⟩

private def signing (onFailure : Option String) : HookEntry :=
  ⟨"sign", ["parts.request.headers", "parts.request.body"], onFailure⟩

/-- The change is refused with the headers changed, and where failures only warn the run goes on with them. -/
theorem refused_half_made :
    ∃ point, Points.point "before-request" = some point ∧ ¬ AllOrNothing signed (signing none) point .empty ∧
      (answered signed (signing (some "warn")) point .empty).1 = .proceed ∧
      (slotAt (answered signed (signing (some "warn")) point .empty).2 "request" "headers").isSome = true := by
  refine ⟨_, rfl, fun h => ?_, rfl, rfl⟩
  have hempty := congrArg (fun parts => (slotAt parts "request" "headers").isSome) (show _ = OrderedMap.empty from h)
  exact absurd (show true = false from hempty) (by decide)

end PactJanus.Hooks.Whole
