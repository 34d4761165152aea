import Mathlib.Data.List.Basic
import Mathlib.Data.List.Chain

namespace PactJanus.Lib.Runs

variable {κ α : Type}

/-! Text in runs, each of one kind. -/

/-- Runs with no empty one, and no two of one kind side by side. -/
structure Apart (runs : List (κ × List α)) : Prop where
  kinds : runs.IsChain fun a b => a.1 ≠ b.1
  nonempty : ∀ run ∈ runs, run.2 ≠ []

structure RunText (κ α : Type) where
  runs : List (κ × List α)
  apart : Apart runs

section Grouping

variable [DecidableEq κ]

/-- A run before others: it joins the first of them where their kinds are one. -/
def attach (kind : κ) (a : α) : List (κ × List α) → List (κ × List α)
  | [] => [(kind, [a])]
  | (other, text) :: rest => if kind = other then (other, a :: text) :: rest else (kind, [a]) :: (other, text) :: rest

/-- Letters in runs, from the kind of each. -/
def group : List (κ × α) → List (κ × List α)
  | [] => []
  | (kind, a) :: rest => attach kind a (group rest)

end Grouping

def spreadOf (runs : List (κ × List α)) : List (κ × α) := runs.flatMap fun run => run.2.map fun a => (run.1, a)

theorem spreadOf_append (a b : List (κ × List α)) : spreadOf (a ++ b) = spreadOf a ++ spreadOf b :=
  List.flatMap_append

theorem spreadOf_run (kind : κ) (text : List α) : spreadOf [(kind, text)] = text.map fun a => (kind, a) := by
  simp [spreadOf]

section Spreading

variable [DecidableEq κ]

private theorem group_map_append (kind : κ) {text : List α} (hne : text ≠ []) {rest : List (κ × α)}
    (h : ∀ run ∈ (group rest).head?, run.1 ≠ kind) :
    group (text.map (fun a => (kind, a)) ++ rest) = (kind, text) :: group rest := by
  induction text with
  | nil => exact absurd rfl hne
  | cons a more ih =>
    rw [List.map_cons, List.cons_append, group]
    cases more with
    | nil =>
      rw [List.map_nil, List.nil_append]
      cases hgroup : group rest with
      | nil => rfl
      | cons run others => exact if_neg fun heq => h run (by simp [hgroup]) heq.symm
    | cons b more => rw [ih (List.cons_ne_nil _ _), attach, if_pos rfl]

private theorem group_spreadOf {runs : List (κ × List α)} (h : Apart runs) : group (spreadOf runs) = runs := by
  induction runs with
  | nil => rfl
  | cons run rest ih =>
    have hrest : Apart rest := ⟨h.kinds.tail, fun run hrun => h.nonempty run (List.mem_cons_of_mem _ hrun)⟩
    rw [spreadOf, List.flatMap_cons, ← spreadOf, group_map_append run.1 (h.nonempty run List.mem_cons_self), ih hrest]
    intro next hnext
    rw [ih hrest] at hnext
    cases rest with
    | nil => nomatch hnext
    | cons first others =>
      obtain rfl := Option.some.inj hnext
      exact (List.isChain_cons_cons.1 h.kinds).1.symm

end Spreading

namespace RunText

def new : RunText κ α := ⟨[], ⟨.nil, by simp⟩⟩

/-- The letters of the text, each with the kind of its run. -/
def spread (r : RunText κ α) : List (κ × α) := spreadOf r.runs

private theorem apart_concat {runs : List (κ × List α)} {run : κ × List α} (h : Apart runs) (hne : run.2 ≠ [])
    (hlast : ∀ last ∈ runs.getLast?, last.1 ≠ run.1) : Apart (runs ++ [run]) := by
  refine ⟨h.kinds.append (.singleton _) fun last hmem next hnext => ?_, ?_⟩
  · obtain rfl := Option.some.inj hnext
    exact hlast last hmem
  · simpa [or_imp, forall_and] using ⟨fun kind text hrun => h.nonempty (kind, text) hrun, hne⟩

@[simp] theorem spread_new : (new : RunText κ α).spread = [] := rfl

variable [DecidableEq κ]

/-- Runs are known by their letters and the kinds of these. -/
theorem ext_spread {r s : RunText κ α} (h : r.spread = s.spread) : r = s := by
  obtain ⟨runs, hr⟩ := r
  obtain ⟨others, hs⟩ := s
  have hruns : runs = others := by rw [← group_spreadOf hr, ← group_spreadOf hs]; exact congrArg group h
  subst hruns
  rfl

/-- The runs with a text at their end, which joins the last where its kind is the same. -/
def pushed (kind : κ) (text : List α) (runs : List (κ × List α)) : List (κ × List α) :=
  match runs.getLast? with
  | some last => if last.1 = kind then runs.dropLast ++ [(kind, last.2 ++ text)] else runs ++ [(kind, text)]
  | none => [(kind, text)]

private theorem apart_pushed (kind : κ) {text : List α} (hne : text ≠ []) {runs : List (κ × List α)} (h : Apart runs) :
    Apart (pushed kind text runs) := by
  unfold pushed
  split
  · rename_i last hlast
    obtain ⟨before, rfl⟩ := List.getLast?_eq_some_iff.1 hlast
    split
    · rename_i hkind
      rw [List.dropLast_concat]
      refine apart_concat ⟨h.kinds.left_of_append, fun run hrun => h.nonempty run (by simp [hrun])⟩ (by simp [hne]) ?_
      intro previous hprevious
      have hchain := (List.isChain_append.1 h.kinds).2.2 previous hprevious last (by simp)
      rwa [hkind] at hchain
    · rename_i hkind
      exact apart_concat h hne fun other hother => by rw [hlast] at hother; exact Option.some.inj hother ▸ hkind
  · exact ⟨.singleton _, by simpa using hne⟩

def push (kind : κ) (text : List α) (r : RunText κ α) : RunText κ α :=
  if h : text = [] then r else ⟨pushed kind text r.runs, apart_pushed kind h r.apart⟩

def append (r s : RunText κ α) : RunText κ α := s.runs.foldl (fun acc run => acc.push run.1 run.2) r

def of (kind : κ) (text : List α) : RunText κ α := new.push kind text

def text (r : RunText κ α) : List α := r.spread.map Prod.snd

@[simp] theorem spread_push (kind : κ) (text : List α) (r : RunText κ α) :
    (r.push kind text).spread = r.spread ++ text.map fun a => (kind, a) := by
  unfold push
  split
  · rename_i h
    simp [h]
  · unfold spread pushed
    dsimp only
    split
    · rename_i last hlast
      obtain ⟨before, hbefore⟩ := List.getLast?_eq_some_iff.1 hlast
      rw [hbefore]
      split
      · rename_i hkind
        obtain ⟨other, more⟩ := last
        obtain rfl : other = kind := hkind
        simp [spreadOf]
      · simp [spreadOf]
    · rename_i hnone
      rw [List.getLast?_eq_none_iff.1 hnone]
      simp [spreadOf]

@[simp] theorem spread_append (r s : RunText κ α) : (r.append s).spread = r.spread ++ s.spread := by
  suffices h : ∀ (runs : List (κ × List α)) (acc : RunText κ α),
      (runs.foldl (fun acc run => acc.push run.1 run.2) acc).spread = acc.spread ++ spreadOf runs from h s.runs r
  intro runs
  induction runs with
  | nil => intro acc; simp [spreadOf]
  | cons run rest ih =>
    intro acc
    rw [List.foldl_cons, ih, spread_push, List.append_assoc]
    rfl

@[simp] theorem spread_of (kind : κ) (text : List α) : (of kind text).spread = text.map fun a => (kind, a) := by
  simp [of]

end RunText

end PactJanus.Lib.Runs
