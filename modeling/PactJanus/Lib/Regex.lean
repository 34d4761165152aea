import Mathlib.Computability.Language

namespace PactJanus.Lib.Regex

open Computability

/-! Regular expressions as they are written, and the texts they are of. -/

inductive Pattern where
  /-- Characters that stand for themselves. -/
  | lit (cs : List Char)
  /-- One character of some ranges. -/
  | oneOf (ranges : List (Char × Char))
  | opt (p : Pattern)
  | star (p : Pattern)
  | plus (p : Pattern)
  | cat (p q : Pattern)
  | alt (p q : Pattern)
  | group (p : Pattern)
  /-- A group whose letters are of either case. -/
  | anyCase (p : Pattern)

/-- A character that is written with a backslash where it stands for itself. -/
def special (c : Char) : Bool := c ∈ ['\\', '.', '+', '*', '?', '(', ')', '|', '[', ']', '{', '}', '^', '$']

def text : Pattern → List Char
  | .lit cs => cs.flatMap fun c => if special c then ['\\', c] else [c]
  | .oneOf ranges => '[' :: ranges.flatMap (fun r => if r.1 = r.2 then [r.1] else [r.1, '-', r.2]) ++ [']']
  | .opt p => text p ++ ['?']
  | .star p => text p ++ ['*']
  | .plus p => text p ++ ['+']
  | .cat p q => text p ++ text q
  | .alt p q => text p ++ '|' :: text q
  | .group p => '(' :: '?' :: ':' :: text p ++ [')']
  | .anyCase p => '(' :: '?' :: 'i' :: ':' :: text p ++ [')']

/-- A pattern written to match a whole text. -/
def whole (p : Pattern) : String := String.ofList ('^' :: text p ++ ['$'])

def within (ranges : List (Char × Char)) (c : Char) : Bool := ranges.any fun r => r.1 ≤ c && c ≤ r.2

/-- The texts a pattern matches the whole of; the letters of an `anyCase` have no case but ASCII's. -/
def language : Pattern → Language Char
  | .lit cs => {cs}
  | .oneOf ranges => {w | ∃ c, within ranges c = true ∧ w = [c]}
  | .opt p => 1 + language p
  | .star p => (language p)∗
  | .plus p => language p * (language p)∗
  | .cat p q => language p * language q
  | .alt p q => language p + language q
  | .group p => language p
  | .anyCase p => {w | ∃ v ∈ language p, w.map Char.toLower = v.map Char.toLower}

variable {p q : Pattern} {ranges : List (Char × Char)} {w : List Char}

theorem mem_lit {cs : List Char} : w ∈ language (.lit cs) ↔ w = cs := Iff.rfl

theorem mem_oneOf : w ∈ language (.oneOf ranges) ↔ ∃ c, within ranges c = true ∧ w = [c] := Iff.rfl

theorem mem_opt : w ∈ language (.opt p) ↔ w = [] ∨ w ∈ language p := Iff.rfl

theorem mem_cat : w ∈ language (.cat p q) ↔ ∃ a ∈ language p, ∃ b ∈ language q, a ++ b = w := Iff.rfl

theorem mem_alt : w ∈ language (.alt p q) ↔ w ∈ language p ∨ w ∈ language q := Iff.rfl

theorem mem_group : w ∈ language (.group p) ↔ w ∈ language p := Iff.rfl

theorem mem_anyCase : w ∈ language (.anyCase p) ↔ ∃ v ∈ language p, w.map Char.toLower = v.map Char.toLower := Iff.rfl

/-- Any number of characters of some ranges. -/
theorem mem_star_oneOf : w ∈ language (.star (.oneOf ranges)) ↔ ∀ c ∈ w, within ranges c = true := by
  constructor
  · intro h c hc
    obtain ⟨pieces, rfl, hpieces⟩ := Language.mem_kstar.1 h
    obtain ⟨piece, hpiece, hc⟩ := List.mem_flatten.1 hc
    obtain ⟨d, hd, rfl⟩ := mem_oneOf.1 (hpieces piece hpiece)
    rwa [List.mem_singleton.1 hc]
  · intro h
    refine Language.mem_kstar.2 ⟨w.map fun c => [c], ?_, fun piece hpiece => ?_⟩
    · induction w with
      | nil => rfl
      | cons c rest ih =>
        rw [List.map_cons, List.flatten_cons, ← ih fun d hd => h d (List.mem_cons_of_mem _ hd), List.singleton_append]
    · obtain ⟨c, hc, rfl⟩ := List.mem_map.1 hpiece
      exact mem_oneOf.2 ⟨c, h c hc, rfl⟩

/-- At least one character of some ranges, and no other. -/
theorem mem_plus_oneOf : w ∈ language (.plus (.oneOf ranges)) ↔ w ≠ [] ∧ ∀ c ∈ w, within ranges c = true := by
  constructor
  · rintro ⟨a, ha, b, hb, rfl⟩
    obtain ⟨c, hc, rfl⟩ := mem_oneOf.1 ha
    exact ⟨by simp, List.forall_mem_cons.2 ⟨hc, mem_star_oneOf.1 hb⟩⟩
  · rintro ⟨hne, hall⟩
    obtain ⟨c, rest, rfl⟩ := List.exists_cons_of_ne_nil hne
    obtain ⟨hc, hrest⟩ := List.forall_mem_cons.1 hall
    exact ⟨[c], ⟨c, hc, rfl⟩, rest, mem_star_oneOf.2 hrest, rfl⟩

end PactJanus.Lib.Regex
