import Mathlib.Algebra.Ring.Nat
import Mathlib.Data.List.Infix
import Mathlib.Tactic.Tauto

namespace PactJanus.Lib.Delimited

/-! Lists cut where a delimiter first stands. -/

variable {α : Type} [DecidableEq α]

/-- What is before the first place a delimiter stands, and what is after it. -/
def cutAt (mark : List α) : List α → Option (List α × List α)
  | [] => if mark.isPrefixOf [] then some ([], []) else none
  | x :: rest =>
    if mark.isPrefixOf (x :: rest) then some ([], (x :: rest).drop mark.length)
    else (cutAt mark rest).map fun (before, after) => (x :: before, after)

variable {mark before after : List α}

theorem cutAt_append_self (mark after : List α) : cutAt mark (mark ++ after) = some ([], after) := by
  cases h : mark ++ after with
  | nil =>
    obtain ⟨rfl, rfl⟩ := List.append_eq_nil_iff.1 h
    rfl
  | cons x rest =>
    rw [cutAt, ← h, if_pos (List.isPrefixOf_iff_prefix.2 (List.prefix_append mark after)), List.drop_left]

theorem cutAt_cons {x : α} {rest : List α} (h : ¬mark <+: x :: rest) :
    cutAt mark (x :: rest) = (cutAt mark rest).map fun (before, after) => (x :: before, after) := by
  rw [cutAt, if_neg (mt List.isPrefixOf_iff_prefix.1 h)]

theorem eq_of_cutAt {l : List α} (h : cutAt mark l = some (before, after)) : l = before ++ mark ++ after := by
  induction l generalizing before with
  | nil =>
    rw [cutAt] at h
    split at h
    · obtain ⟨rfl, rfl⟩ := Prod.mk.inj (Option.some.inj h)
      have hmark : mark = [] := List.prefix_nil.1 (List.isPrefixOf_iff_prefix.1 ‹_›)
      rw [hmark]
      rfl
    · exact nomatch h
  | cons x rest ih =>
    by_cases hstarts : mark <+: x :: rest
    · obtain ⟨tail, htail⟩ := hstarts
      rw [← htail, cutAt_append_self] at h
      obtain ⟨rfl, rfl⟩ := Prod.mk.inj (Option.some.inj h)
      exact htail.symm
    · rw [cutAt_cons hstarts] at h
      obtain ⟨⟨b, a⟩, hcut, hpair⟩ := Option.map_eq_some_iff.1 h
      obtain ⟨rfl, rfl⟩ := Prod.mk.inj hpair
      rw [ih hcut]
      rfl

theorem cutAt_eq_none {l : List α} (hmark : mark ≠ []) : cutAt mark l = none ↔ ¬mark <:+: l := by
  induction l with
  | nil => simp [cutAt, hmark]
  | cons x rest ih =>
    by_cases hstarts : mark <+: x :: rest
    · obtain ⟨tail, htail⟩ := hstarts
      rw [← htail, cutAt_append_self]
      exact ⟨fun h => (nomatch h), fun h => absurd (List.prefix_append mark tail).isInfix h⟩
    · rw [cutAt_cons hstarts, Option.map_eq_none_iff, ih, List.infix_cons_iff, not_or, and_iff_right hstarts]

/-- A delimiter whose first thing is nowhere else in it is found where it stands, after a list it is not in. -/
theorem cutAt_of_absent {x : α} {marks : List α} (hx : x ∉ marks) {before : List α} (h : ¬(x :: marks) <:+: before)
    (after : List α) : cutAt (x :: marks) (before ++ (x :: marks) ++ after) = some (before, after) := by
  induction before with
  | nil => exact cutAt_append_self _ _
  | cons y rest ih =>
    have hrest : ¬(x :: marks) <:+: rest := fun hwithin => h (hwithin.trans (List.suffix_cons y rest).isInfix)
    have hstarts : ¬(x :: marks) <+: y :: (rest ++ (x :: marks) ++ after) := by
      intro hstart
      have hwhole : y :: rest <+: y :: (rest ++ (x :: marks) ++ after) := ⟨(x :: marks) ++ after, by simp⟩
      rcases List.prefix_or_prefix_of_prefix hstart hwhole with hmark | ⟨tail, htail⟩
      · exact h hmark.isInfix
      · cases tail with
        | nil => exact h ⟨[], [], by simpa using htail.symm⟩
        | cons z tail =>
          have hz : z = x := by
            have hsplit : (y :: rest) ++ z :: tail <+: (y :: rest) ++ ((x :: marks) ++ after) := by
              rw [htail]
              simpa using hstart
            exact (List.cons_prefix_cons.1 ((List.prefix_append_right_inj (y :: rest)).1 hsplit)).1
          have hmarks : marks = rest ++ z :: tail := (List.cons.inj htail).2.symm
          exact hx (hmarks ▸ hz ▸ List.mem_append_right rest List.mem_cons_self)
    rw [List.cons_append, List.cons_append, cutAt_cons hstarts, ih hrest]
    rfl

/-- What is cut off before a delimiter has none of it. -/
theorem not_infix_of_cutAt {l : List α} (hmark : mark ≠ []) (h : cutAt mark l = some (before, after)) :
    ¬mark <:+: before := by
  induction l generalizing before with
  | nil =>
    rw [eq_comm, cutAt] at h
    split at h
    · exact absurd (List.prefix_nil.1 (List.isPrefixOf_iff_prefix.1 ‹_›)) hmark
    · exact nomatch h
  | cons x rest ih =>
    by_cases hstarts : mark <+: x :: rest
    · obtain ⟨tail, htail⟩ := hstarts
      rw [← htail, cutAt_append_self] at h
      obtain ⟨rfl, rfl⟩ := Prod.mk.inj (Option.some.inj h)
      exact fun hwithin => hmark (List.infix_nil.1 hwithin)
    · have hl := eq_of_cutAt h
      rw [cutAt_cons hstarts] at h
      obtain ⟨⟨b, a⟩, hcut, hpair⟩ := Option.map_eq_some_iff.1 h
      obtain ⟨rfl, rfl⟩ := Prod.mk.inj hpair
      intro hwithin
      rcases List.infix_cons_iff.1 hwithin with hstart | hlater
      · refine hstarts (hstart.trans ?_)
        rw [hl, List.append_assoc]
        exact List.prefix_append _ _
      · exact ih hcut hlater

/-- Lines up to an empty one, each ended by the delimiter, and what is after the empty one. -/
def linesFuel (mark : List α) : Nat → List α → Option (List (List α) × List α)
  | 0, _ => none
  | fuel + 1, l =>
    match cutAt mark l with
    | none => none
    | some ([], after) => some ([], after)
    | some (line, after) => (linesFuel mark fuel after).map fun (lines, rest) => (line :: lines, rest)

def lines (mark l : List α) : Option (List (List α) × List α) := linesFuel mark (l.length + 1) l

theorem linesFuel_append {x : α} {marks : List α} (hx : x ∉ marks) {block : List (List α)}
    (hblock : ∀ line ∈ block, line ≠ [] ∧ ¬(x :: marks) <:+: line) (rest : List α) {fuel : Nat}
    (hfuel : block.length < fuel) :
    linesFuel (x :: marks) fuel (block.flatMap (· ++ (x :: marks)) ++ (x :: marks) ++ rest) = some (block, rest) := by
  induction block generalizing fuel with
  | nil =>
    obtain ⟨n, rfl⟩ := Nat.exists_eq_succ_of_ne_zero (Nat.ne_of_gt hfuel)
    rw [List.flatMap_nil, List.nil_append, linesFuel, cutAt_append_self]
  | cons line others ih =>
    obtain ⟨⟨hne, hline⟩, hothers⟩ := List.forall_mem_cons.1 hblock
    obtain ⟨n, rfl⟩ := Nat.exists_eq_succ_of_ne_zero (Nat.ne_of_gt (Nat.lt_of_le_of_lt (Nat.zero_le _) hfuel))
    obtain ⟨c, cs, rfl⟩ := List.exists_cons_of_ne_nil hne
    have hcut := cutAt_of_absent hx hline (others.flatMap (· ++ (x :: marks)) ++ (x :: marks) ++ rest)
    rw [List.flatMap_cons, linesFuel]
    simp only [List.append_assoc] at hcut ⊢
    rw [hcut]
    dsimp only
    have hrest := ih hothers (Nat.lt_of_succ_lt_succ hfuel)
    simp only [List.append_assoc] at hrest
    rw [hrest]
    rfl

theorem lines_append {x : α} {marks : List α} (hx : x ∉ marks) {block : List (List α)}
    (hblock : ∀ line ∈ block, line ≠ [] ∧ ¬(x :: marks) <:+: line) (rest : List α) :
    lines (x :: marks) (block.flatMap (· ++ (x :: marks)) ++ (x :: marks) ++ rest) = some (block, rest) := by
  refine linesFuel_append hx hblock rest ?_
  have hlength : block.length ≤ (block.flatMap (· ++ (x :: marks))).length := by
    clear hblock
    induction block with
    | nil => exact Nat.le_refl 0
    | cons line others ih =>
      rw [List.flatMap_cons, List.length_append, List.length_append, List.length_cons, List.length_cons]
      omega
  rw [List.length_append, List.length_append]
  omega

/-- What a list of lines is read from. -/
theorem eq_of_lines {l rest : List α} {block : List (List α)} (hmark : mark ≠ []) (h : lines mark l = some (block, rest)) :
    l = block.flatMap (· ++ mark) ++ mark ++ rest ∧ ∀ line ∈ block, line ≠ [] ∧ ¬mark <:+: line := by
  have hfuel : ∀ (fuel : Nat) (l : List α) (block : List (List α)), linesFuel mark fuel l = some (block, rest) →
      l = block.flatMap (· ++ mark) ++ mark ++ rest ∧ ∀ line ∈ block, line ≠ [] ∧ ¬mark <:+: line := by
    intro fuel
    induction fuel with
    | zero => exact fun _ _ h => nomatch h
    | succ fuel ih =>
      intro l block h
      rw [linesFuel] at h
      split at h
      · exact nomatch h
      · rename_i after hcut
        obtain ⟨rfl, rfl⟩ := Prod.mk.inj (Option.some.inj h)
        exact ⟨eq_of_cutAt hcut, nofun⟩
      · rename_i line after hne hcut
        obtain ⟨⟨others, tail⟩, hothers, hpair⟩ := Option.map_eq_some_iff.1 h
        obtain ⟨rfl, rfl⟩ := Prod.mk.inj hpair
        obtain ⟨hafter, hall⟩ := ih after others hothers
        refine ⟨?_, List.forall_mem_cons.2 ⟨⟨?_, not_infix_of_cutAt hmark hcut⟩, hall⟩⟩
        · rw [eq_of_cutAt hcut, hafter, List.flatMap_cons]
          simp only [List.append_assoc]
        · rintro rfl
          exact hne rfl
  exact hfuel _ l block h

/-- Two things that stand nowhere in a list nor at the border of it and another are nowhere in both. -/
theorem pair_infix_append_iff {x y : α} {l l' : List α} :
    [x, y] <:+: l ++ l' ↔ [x, y] <:+: l ∨ [x, y] <:+: l' ∨ (l.getLast? = some x ∧ l'.head? = some y) := by
  induction l with
  | nil => simp
  | cons a rest ih =>
    rw [List.cons_append, List.infix_cons_iff, List.infix_cons_iff, ih]
    cases rest with
    | nil =>
      cases l' with
      | nil => simp
      | cons b others =>
        have hborder : [a].getLast? = some x ∧ (b :: others).head? = some y ↔ x = a ∧ y = b := by
          simp only [List.getLast?_singleton, List.head?_cons, Option.some.injEq]
          exact and_congr eq_comm eq_comm
        have hnone : ¬[x, y] <+: [a] := fun h => absurd h.length_le (by simp)
        have hnil : ¬[x, y] <:+: ([] : List α) := fun h => absurd (List.infix_nil.1 h) (List.cons_ne_nil _ _)
        rw [hborder]
        simp only [List.nil_append, List.cons_prefix_cons, List.nil_prefix, and_true, hnone, hnil, false_or]
        tauto
    | cons b others =>
      have hstarts : [x, y] <+: a :: (b :: others ++ l') ↔ [x, y] <+: a :: b :: others := by
        simp [List.cons_prefix_cons]
      rw [hstarts, List.getLast?_cons_cons]
      tauto

end PactJanus.Lib.Delimited

namespace PactJanus.Lib.Offsets

open PactJanus.Lib.Delimited

/-! Text cut at byte offsets of its UTF-8, which is possible between two characters only. -/

/-- How many bytes a text takes. -/
def width (text : List Char) : Nat := (text.map Char.utf8Size).sum

@[simp] theorem width_nil : width [] = 0 := rfl

@[simp] theorem width_cons (c : Char) (text : List Char) : width (c :: text) = c.utf8Size + width text := by
  simp [width]

@[simp] theorem width_append (a b : List Char) : width (a ++ b) = width a + width b := by simp [width]

theorem width_eq_zero {text : List Char} : width text = 0 ↔ text = [] := by
  cases text with
  | nil => simp
  | cons c rest =>
    have hpos := c.utf8Size_pos
    simp only [width_cons, reduceCtorEq, iff_false]
    omega

theorem width_take_le (n : Nat) (text : List Char) : width (text.take n) ≤ width text := by
  have hsplit := congrArg width (List.take_append_drop n text)
  rw [width_append] at hsplit
  omega

/-- A text cut at an offset, `none` where the offset is inside a character or past the end. -/
def cut (offset : Nat) : List Char → Option (List Char × List Char)
  | [] => if offset = 0 then some ([], []) else none
  | c :: rest =>
    if offset = 0 then some ([], c :: rest)
    else if offset < c.utf8Size then none
    else (cut (offset - c.utf8Size) rest).map fun (before, after) => (c :: before, after)

/-- The text from an offset on. -/
def after (offset : Nat) (text : List Char) : Option (List Char) := (cut offset text).map Prod.snd

/-- The text up to an offset. -/
def upTo (offset : Nat) (text : List Char) : Option (List Char) := (cut offset text).map Prod.fst

/-- The text between two offsets. -/
def between (start stop : Nat) (text : List Char) : Option (List Char) :=
  if start ≤ stop then (after start text).bind (upTo (stop - start)) else none

theorem cut_append (a b : List Char) : cut (width a) (a ++ b) = some (a, b) := by
  induction a with
  | nil => cases b <;> rfl
  | cons c a ih =>
    have hpos := c.utf8Size_pos
    rw [width_cons, List.cons_append, cut, if_neg (by omega), if_neg (by omega), Nat.add_sub_cancel_left, ih]
    rfl

theorem after_append (a b : List Char) : after (width a) (a ++ b) = some b := by
  rw [after, cut_append, Option.map_some]

theorem upTo_append (a b : List Char) : upTo (width a) (a ++ b) = some a := by
  rw [upTo, cut_append, Option.map_some]

theorem between_append (a b c : List Char) : between (width a) (width a + width b) (a ++ b ++ c) = some b := by
  rw [between, if_pos (Nat.le_add_right _ _), List.append_assoc, after_append, Option.bind_some, Nat.add_sub_cancel_left,
    upTo_append]

theorem after_take (n : Nat) (text : List Char) : after (width (text.take n)) text = some (text.drop n) := by
  have hcut := after_append (text.take n) (text.drop n)
  rwa [List.take_append_drop] at hcut

theorem upTo_take (n : Nat) (text : List Char) : upTo (width (text.take n)) text = some (text.take n) := by
  have hcut := upTo_append (text.take n) (text.drop n)
  rwa [List.take_append_drop] at hcut

/-- The offset of the first character of a kind. -/
def find (p : Char → Bool) : List Char → Option Nat
  | [] => none
  | c :: rest => if p c then some 0 else (find p rest).map (c.utf8Size + ·)

/-- The offset of the first place a text stands. -/
def findText (mark text : List Char) : Option Nat := (cutAt mark text).map fun cut => width cut.1

/-- Up to the first character of a kind, or to the end. -/
theorem find_getD (p : Char → Bool) (text : List Char) :
    (find p text).getD (width text) = width (text.takeWhile fun c => !p c) := by
  induction text with
  | nil => rfl
  | cons c rest ih =>
    by_cases hc : p c = true
    · simp [find, hc]
    · have hc := Bool.eq_false_iff.2 hc
      cases hfind : find p rest with
      | none => simpa [find, hc, hfind] using ih
      | some n => simpa [find, hc, hfind] using ih

theorem find_eq_findText (c : Char) (text : List Char) : find (· = c) text = findText [c] text := by
  induction text with
  | nil => rfl
  | cons d rest ih =>
    by_cases hd : d = c
    · subst hd
      simp [find, findText, cutAt]
    · have hstarts : ¬[c] <+: d :: rest := fun h => hd (List.cons_prefix_cons.1 h).1.symm
      rw [find, if_neg (by simpa using hd), ih, findText, findText, cutAt_cons hstarts]
      cases cutAt [c] rest <;> simp

end PactJanus.Lib.Offsets
