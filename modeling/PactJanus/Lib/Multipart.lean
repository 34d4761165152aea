import PactJanus.Lib.Delimited
import PactJanus.Lib.Utf8

namespace PactJanus.Lib.Multipart

open PactJanus.Lib.Delimited

/-! Bodies of several parts, cut at a boundary. -/

def crlf : List UInt8 := [13, 10]

def dashes : List UInt8 := [45, 45]

/-- What stands between two parts. -/
def delimiter (boundary : List UInt8) : List UInt8 := crlf ++ dashes ++ boundary

/-- The parts after a boundary: none after two dashes, and otherwise each up to the next delimiter. -/
def partsFuel (boundary : List UInt8) : Nat → List UInt8 → Option (List (List UInt8))
  | 0, _ => none
  | fuel + 1, rest =>
    if dashes.isPrefixOf rest then some []
    else if crlf.isPrefixOf rest then
      (cutAt (delimiter boundary) (rest.drop 2)).bind fun (part, after) => (partsFuel boundary fuel after).map (part :: ·)
    else none

/-- The parts of a body that begins with a boundary. -/
def bodyParts (boundary body : List UInt8) : Option (List (List UInt8)) :=
  if (dashes ++ boundary).isPrefixOf body then
    partsFuel boundary (body.length + 1) (body.drop (boundary.length + 2))
  else none

/-- A part, its header lines and what is after them. -/
structure RawPart where
  lines : List (List UInt8)
  content : List UInt8

def rawPart (part : List UInt8) : Option RawPart := (lines crlf part).map fun (lines, content) => ⟨lines, content⟩

/-- Parts each between a boundary and a line's end, and the boundary that ends them. -/
def written (boundary : List UInt8) (parts : List (List UInt8)) : List UInt8 :=
  parts.flatMap (fun part => dashes ++ boundary ++ crlf ++ part ++ crlf) ++ dashes ++ boundary ++ dashes ++ crlf

variable {boundary : List UInt8} {parts : List (List UInt8)}

/-- What is after the first boundary of a body. -/
private def afterFirst (boundary : List UInt8) : List (List UInt8) → List UInt8
  | [] => dashes ++ crlf
  | part :: rest => crlf ++ part ++ delimiter boundary ++ afterFirst boundary rest

private theorem written_eq (boundary : List UInt8) (parts : List (List UInt8)) :
    written boundary parts = dashes ++ boundary ++ afterFirst boundary parts := by
  induction parts with
  | nil => simp [written, afterFirst]
  | cons part rest ih =>
    rw [written] at ih ⊢
    rw [List.flatMap_cons, afterFirst, delimiter]
    simp only [List.append_assoc] at ih ⊢
    rw [ih]

private theorem partsFuel_afterFirst (hboundary : 13 ∉ boundary) {fuel : Nat} (hfuel : parts.length < fuel) :
    partsFuel boundary fuel (afterFirst boundary parts) = some parts ↔ ∀ part ∈ parts, ¬delimiter boundary <:+: part := by
  induction parts generalizing fuel with
  | nil =>
    obtain ⟨n, rfl⟩ := Nat.exists_eq_succ_of_ne_zero (Nat.ne_of_gt hfuel)
    exact iff_of_true rfl nofun
  | cons part rest ih =>
    obtain ⟨n, rfl⟩ := Nat.exists_eq_succ_of_ne_zero (Nat.ne_of_gt (Nat.lt_of_le_of_lt (Nat.zero_le _) hfuel))
    have hmark : (13 : UInt8) ∉ 10 :: (dashes ++ boundary) := by simp [dashes, hboundary]
    have hstep : partsFuel boundary (n + 1) (afterFirst boundary (part :: rest)) =
        (cutAt (delimiter boundary) (part ++ delimiter boundary ++ afterFirst boundary rest)).bind
          fun (part, after) => (partsFuel boundary n after).map (part :: ·) := by
      rw [partsFuel, afterFirst]
      rfl
    rw [hstep, List.forall_mem_cons]
    refine ⟨fun h => ?_, fun ⟨hpart, hrest⟩ => ?_⟩
    · obtain ⟨⟨first, after⟩, hcut, hmap⟩ := Option.bind_eq_some_iff.1 h
      obtain ⟨others, hothers, hcons⟩ := Option.map_eq_some_iff.1 hmap
      obtain ⟨rfl, rfl⟩ := List.cons.inj hcons
      have hpart := not_infix_of_cutAt (List.cons_ne_nil _ _) hcut
      have hexact := cutAt_of_absent hmark hpart (afterFirst boundary others)
      obtain ⟨-, rfl⟩ := Prod.mk.inj (Option.some.inj (hcut.symm.trans hexact))
      exact ⟨hpart, (ih (Nat.lt_of_succ_lt_succ hfuel)).1 hothers⟩
    · have hcut := cutAt_of_absent hmark hpart (afterFirst boundary rest)
      refine Option.bind_eq_some_iff.2 ⟨(part, afterFirst boundary rest), hcut, ?_⟩
      dsimp only
      rw [(ih (Nat.lt_of_succ_lt_succ hfuel)).2 hrest]
      rfl

/-- Parts that are written are cut as they were exactly where none has the delimiter in it. -/
theorem bodyParts_written_iff (hboundary : 13 ∉ boundary) :
    bodyParts boundary (written boundary parts) = some parts ↔ ∀ part ∈ parts, ¬delimiter boundary <:+: part := by
  have hlength : parts.length ≤ (afterFirst boundary parts).length := by
    induction parts with
    | nil => exact Nat.zero_le _
    | cons part rest ih =>
      rw [afterFirst, List.length_append, List.length_append, List.length_append, List.length_cons, crlf, List.length_cons]
      omega
  rw [bodyParts, written_eq, if_pos (List.isPrefixOf_iff_prefix.2 (List.prefix_append _ _))]
  have hdrop : (dashes ++ boundary ++ afterFirst boundary parts).drop (boundary.length + 2) = afterFirst boundary parts := by
    rw [List.drop_left' (by simp [dashes])]
  rw [hdrop, partsFuel_afterFirst hboundary]
  rw [List.length_append]
  omega

private theorem infix_of_cons_ne {b : UInt8} {mark l : List UInt8} (hb : b ≠ 13) (h : 13 :: mark <:+: b :: l) :
    13 :: mark <:+: l := by
  rcases List.infix_cons_iff.1 h with hstart | hlater
  · exact absurd (List.cons_prefix_cons.1 hstart).1.symm hb
  · exact hlater

private theorem infix_after_line {mark line rest : List UInt8} (hline : 13 ∉ line)
    (h : 13 :: mark <:+: line ++ 13 :: rest) : mark <+: rest ∨ 13 :: mark <:+: rest := by
  induction line with
  | nil =>
    rcases List.infix_cons_iff.1 h with hstart | hlater
    · exact .inl (List.cons_prefix_cons.1 hstart).2
    · exact .inr hlater
  | cons b others ih =>
    obtain ⟨hb, hothers⟩ := not_or.1 (mt List.mem_cons.2 hline)
    exact ih hothers (infix_of_cons_ne (Ne.symm hb) h)

private theorem starts_of_line {mark line rest : List UInt8} (hmark : 13 ∉ mark) (h : mark <+: line ++ 13 :: rest) :
    mark <+: line := by
  rcases List.prefix_or_prefix_of_prefix h (List.prefix_append line _) with hstart | ⟨more, hmore⟩
  · exact hstart
  · cases more with
    | nil => rw [← hmore, List.append_nil]
    | cons b others =>
      rw [← hmore, List.prefix_append_right_inj] at h
      obtain ⟨rfl, -⟩ := List.cons_prefix_cons.1 h
      exact absurd (hmore ▸ List.mem_append_right _ List.mem_cons_self) hmark

/-- A part whose lines do not begin as a delimiter's does, nor its octets hold one, has none in it. -/
theorem not_delimiter_infix (hboundary : 13 ∉ boundary) {block : List (List UInt8)} {content : List UInt8}
    (hblock : ∀ line ∈ block, 13 ∉ line ∧ ¬dashes ++ boundary <+: line) (hcontent : ¬dashes ++ boundary <:+: content) :
    ¬delimiter boundary <:+: block.flatMap (· ++ crlf) ++ crlf ++ content := by
  have hmark : 13 ∉ dashes ++ boundary := by simp [dashes, hboundary]
  have hempty : ¬dashes ++ boundary <+: 13 :: 10 :: content := fun h =>
    absurd (List.cons_prefix_cons.1 h).1 (by decide)
  have hrest : ∀ rest, ¬dashes ++ boundary <+: rest → ¬delimiter boundary <:+: rest →
      ¬(10 :: (dashes ++ boundary) <+: 10 :: rest ∨ 13 :: 10 :: (dashes ++ boundary) <:+: 10 :: rest) := by
    rintro rest hstart hinside (h | h)
    · exact hstart (List.cons_prefix_cons.1 h).2
    · exact hinside (infix_of_cons_ne (by decide) h)
  induction block with
  | nil =>
    intro h
    have hinside : ¬delimiter boundary <:+: content := fun hinside =>
      hcontent ((List.suffix_append crlf (dashes ++ boundary)).isInfix.trans (by simpa [delimiter] using hinside))
    have hlines : 13 :: 10 :: (dashes ++ boundary) <:+: [] ++ 13 :: 10 :: content := h
    exact hrest content (fun hstart => hcontent hstart.isInfix) hinside (infix_after_line List.not_mem_nil hlines)
  | cons line others ih =>
    obtain ⟨⟨hline, -⟩, hothers⟩ := List.forall_mem_cons.1 hblock
    intro h
    have hnext : ¬dashes ++ boundary <+: others.flatMap (· ++ crlf) ++ crlf ++ content := by
      cases others with
      | nil => exact hempty
      | cons next more =>
        intro hstart
        have hline : dashes ++ boundary <+: next ++ 13 :: 10 :: (more.flatMap (· ++ crlf) ++ crlf ++ content) := by
          simpa [crlf] using hstart
        exact (hothers next List.mem_cons_self).2 (starts_of_line hmark hline)
    refine hrest _ hnext (ih hothers) (infix_after_line hline ?_)
    simpa [crlf, delimiter] using h

/-- Parts each between a boundary and a line's end. -/
def spread (boundary : List UInt8) (parts : List (List UInt8)) : List UInt8 :=
  parts.flatMap fun part => dashes ++ boundary ++ crlf ++ part ++ crlf

private theorem partsFuel_spread {fuel : Nat} {rest : List UInt8} (h : partsFuel boundary fuel rest = some parts) :
    ∃ tail, dashes ++ boundary ++ rest = spread boundary parts ++ dashes ++ boundary ++ tail := by
  induction fuel generalizing rest parts with
  | zero => exact nomatch h
  | succ fuel ih =>
    rw [partsFuel] at h
    split at h
    · obtain rfl := Option.some.inj h
      exact ⟨rest, by simp [spread]⟩
    · split at h
      · rename_i hcrlf
        obtain ⟨more, rfl⟩ := List.isPrefixOf_iff_prefix.1 hcrlf
        obtain ⟨⟨part, after⟩, hcut, hmap⟩ := Option.bind_eq_some_iff.1 h
        obtain ⟨others, hothers, rfl⟩ := Option.map_eq_some_iff.1 hmap
        obtain ⟨tail, htail⟩ := ih hothers
        have hmore : more = part ++ delimiter boundary ++ after := eq_of_cutAt hcut
        refine ⟨tail, ?_⟩
        rw [hmore, spread, List.flatMap_cons, ← spread, delimiter]
        simp only [List.append_assoc] at htail ⊢
        rw [htail]
      · exact nomatch h

theorem spread_written (boundary : List UInt8) (parts : List (List UInt8)) :
    spread boundary parts ++ dashes ++ boundary <+: written boundary parts := by
  rw [written, ← spread, List.append_assoc _ dashes crlf]
  exact List.prefix_append _ _

/-- A body cut into parts begins with them and one boundary more. -/
theorem spread_of_bodyParts {body : List UInt8} (h : bodyParts boundary body = some parts) :
    spread boundary parts ++ dashes ++ boundary <+: body := by
  unfold bodyParts at h
  split at h
  · rename_i hstart
    obtain ⟨rest, rfl⟩ := List.isPrefixOf_iff_prefix.1 hstart
    have hdrop : (dashes ++ boundary ++ rest).drop (boundary.length + 2) = rest := by
      rw [List.drop_left' (by simp [dashes])]
    rw [hdrop] at h
    obtain ⟨tail, htail⟩ := partsFuel_spread h
    exact ⟨tail, htail.symm⟩
  · exact nomatch h

private theorem takeWhile_line {l : List UInt8} (h : 13 ∉ l) (rest : List UInt8) :
    (l ++ 13 :: rest).takeWhile (· != 13) = l := by
  have hline : ∀ x ∈ l, (x != 13) = true := fun x hx => bne_iff_ne.2 (ne_of_mem_of_not_mem hx h)
  rw [List.takeWhile_append_of_pos hline, List.takeWhile_cons_of_neg (by decide), List.append_nil]

/-- The boundary a body begins with is the one on its first line. -/
theorem boundary_unique {other body : List UInt8} (hboundary : 13 ∉ boundary) (hother : 13 ∉ other)
    (h : dashes ++ boundary ++ crlf <+: body) (h' : dashes ++ other ++ crlf <+: body) : boundary = other := by
  obtain ⟨rest, rfl⟩ := h
  obtain ⟨rest', hrest⟩ := h'
  simp only [List.append_assoc, List.append_cancel_left_eq] at hrest
  have hline := congrArg (List.takeWhile (· != 13)) hrest
  rw [crlf, List.cons_append, takeWhile_line hother, List.cons_append, takeWhile_line hboundary] at hline
  exact hline.symm

end PactJanus.Lib.Multipart
