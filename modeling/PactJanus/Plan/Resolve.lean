import PactJanus.Plan.Value

namespace PactJanus.Plan.Resolve

open PactJanus.Plan.Value

/-- Already decoded values by the absolute path each was captured at. -/
abbrev CapturedValues := List (String × RuntimeValue)

def capture (captured : CapturedValues) (path : String) (value : RuntimeValue) : CapturedValues :=
  (path, value) :: captured

def isCut (c : Char) : Bool := c = '.' ∨ c = '['

/-- Where the last `.` or `[` of a text stands. -/
def lastCut (cs : List Char) : Option Nat :=
  match cs.reverse.findIdx? isCut with
  | some i => some (cs.length - 1 - i)
  | none => none

theorem lastCut_lt {cs : List Char} {cut : Nat} (h : lastCut cs = some cut) : cut < cs.length := by
  unfold lastCut at h
  split at h
  · rename_i i hi
    have := (List.findIdx?_eq_some_iff_findIdx_eq.1 hi).1
    simp only [List.length_reverse] at this
    simp only [Option.some.injEq] at h
    omega
  · exact absurd h (by simp)

/-- The value of the longest captured prefix of a path among its first `n` characters and the cuts before
them, read at the rest of the path. -/
def resolveFrom (captured : CapturedValues) (path : List Char) (n : Nat) : RuntimeValue :=
  match captured.lookup (String.ofList (path.take n)) with
  | some value => navigate value (path.drop n)
  | none =>
    match _h : lastCut (path.take n) with
    | some cut => resolveFrom captured path cut
    | none => .absent
termination_by n
decreasing_by
  have := lastCut_lt _h
  simp only [List.length_take] at this
  omega

def resolve (captured : CapturedValues) (path : String) : RuntimeValue :=
  resolveFrom captured path.toList path.toList.length

/-- What detects the content type of a value, resolved from a path when one resolved it. -/
abbrev ContentDetector := RuntimeValue → Option String → Option String

end PactJanus.Plan.Resolve
