import Mathlib.Data.List.Sort
import Mathlib.Data.List.Perm.Basic

namespace PactJanus.Lib.KeyedUnion

/-! Two lists of keyed things joined into one in the order of their keys. What both hold has one content. -/

variable {α κ β : Type}

/-- Wherever the two hold a key both, they hold one content. -/
def Agree (key : α → κ) (content : α → β) (held new : List α) : Prop :=
  ∀ a ∈ held, ∀ n ∈ new, key n = key a → content n = content a

theorem Agree.symm {key : α → κ} {content : α → β} {held new : List α} (h : Agree key content held new) :
    Agree key content new held :=
  fun n hn a ha hkey => (h a ha n hn hkey.symm).symm

variable [LinearOrder κ] (key : α → κ) (content : α → β)

def inOrder (l : List α) : List α := l.insertionSort fun a b => key a ≤ key b

/-- The things whose keys the new ones do not have. -/
def kept (held new : List α) : List α := held.filter fun a => (new.find? fun n => key n = key a).isNone

/-- The things that a new one has the key of, with another content. -/
def clashing [DecidableEq β] (held new : List α) : List α :=
  held.filter fun a => (new.find? fun n => key n = key a).any fun n => content n ≠ content a

def joined (held new : List α) : List α := inOrder key (new ++ kept key held new)

/-- Each key once, in order. -/
def Ordered (l : List α) : Prop := l.Pairwise fun a b => key a < key b

variable {key content} {held new : List α}

theorem Ordered.nodup {l : List α} (h : Ordered key l) : (l.map key).Nodup :=
  List.pairwise_map.2 (h.imp ne_of_lt)

theorem inOrder_perm (l : List α) : (inOrder key l).Perm l := List.perm_insertionSort _ l

theorem mem_inOrder {l : List α} {a : α} : a ∈ inOrder key l ↔ a ∈ l := (inOrder_perm l).mem_iff

theorem inOrder_ordered {l : List α} (h : (l.map key).Nodup) : Ordered key (inOrder key l) := by
  have hsorted : (inOrder key l).Pairwise fun a b => key a ≤ key b := by
    have : Std.Total fun a b : α => key a ≤ key b := ⟨fun a b => le_total (key a) (key b)⟩
    have : IsTrans α fun a b => key a ≤ key b := ⟨fun _ _ _ => le_trans⟩
    exact List.pairwise_insertionSort _ l
  have hnodup : ((inOrder key l).map key).Nodup := ((inOrder_perm l).map key).nodup_iff.2 h
  exact hsorted.and (List.pairwise_map.1 hnodup) |>.imp fun ⟨hle, hne⟩ => lt_of_le_of_ne hle hne

/-- Lists in order hold the same keys and contents in the same places if they hold the same at all. -/
theorem contents_eq {l m : List α} (hl : Ordered key l) (hm : Ordered key m)
    (h : ∀ k c, (∃ a ∈ l, key a = k ∧ content a = c) ↔ ∃ a ∈ m, key a = k ∧ content a = c) :
    l.map content = m.map content := by
  let pair : α → κ × β := fun a => (key a, content a)
  have hpairs {l : List α} (hl : Ordered key l) : (l.map pair).Pairwise fun p q => p.1 < q.1 := List.pairwise_map.2 hl
  have hnodup {l : List α} (hl : Ordered key l) : (l.map pair).Nodup :=
    (hpairs hl).imp fun hlt => fun heq => hlt.ne (congrArg Prod.fst heq)
  have hmem (l : List α) (p : κ × β) : p ∈ l.map pair ↔ ∃ a ∈ l, key a = p.1 ∧ content a = p.2 := by
    simp [pair, Prod.ext_iff]
  have hperm : (l.map pair).Perm (m.map pair) := by
    rw [List.perm_ext_iff_of_nodup (hnodup hl) (hnodup hm)]
    intro p
    rw [hmem, hmem, h]
  have heq : l.map pair = m.map pair :=
    hperm.eq_of_pairwise (fun p q _ _ hpq hqp => absurd (hpq.trans hqp) (lt_irrefl _)) (hpairs hl) (hpairs hm)
  have hsnd (l : List α) : l.map content = (l.map pair).map Prod.snd := by simp [pair]
  rw [hsnd, hsnd, heq]

theorem inOrder_eq_of_perm {l m : List α} (hl : (l.map key).Nodup) (h : l.Perm m) : inOrder key l = inOrder key m := by
  have hm : (m.map key).Nodup := (h.map key).nodup_iff.1 hl
  have hperm : (inOrder key l).Perm (inOrder key m) := (inOrder_perm l).trans (h.trans (inOrder_perm m).symm)
  exact hperm.eq_of_pairwise (fun a b _ _ hab hba => absurd (hab.trans hba) (lt_irrefl _)) (inOrder_ordered hl)
    (inOrder_ordered hm)

private theorem find?_isNone {a : α} : (new.find? fun n => key n = key a).isNone = true ↔ ∀ n ∈ new, key n ≠ key a := by
  simp

theorem mem_kept {a : α} : a ∈ kept key held new ↔ a ∈ held ∧ ∀ n ∈ new, key n ≠ key a := by
  rw [kept, List.mem_filter, find?_isNone]

theorem mem_joined {a : α} :
    a ∈ joined key held new ↔ a ∈ new ∨ a ∈ held ∧ ∀ n ∈ new, key n ≠ key a := by
  rw [joined, mem_inOrder, List.mem_append, mem_kept]

private theorem unsorted_nodup (hheld : (held.map key).Nodup) (hnew : (new.map key).Nodup) :
    ((new ++ kept key held new).map key).Nodup := by
  rw [List.map_append, List.nodup_append]
  refine ⟨hnew, hheld.sublist (List.filter_sublist.map key), ?_⟩
  intro k hk j hj hkj
  obtain ⟨n, hn, rfl⟩ := List.mem_map.1 hk
  obtain ⟨a, ha, rfl⟩ := List.mem_map.1 hj
  exact (mem_kept.1 ha).2 n hn hkj

theorem joined_ordered (hheld : (held.map key).Nodup) (hnew : (new.map key).Nodup) :
    Ordered key (joined key held new) := inOrder_ordered (unsorted_nodup hheld hnew)

/-- A key is in the union exactly where it is on one of the sides. -/
theorem mem_keys_joined {k : κ} :
    k ∈ (joined key held new).map key ↔ k ∈ held.map key ∨ k ∈ new.map key := by
  simp only [List.mem_map, mem_joined]
  constructor
  · rintro ⟨a, ha | ⟨ha, -⟩, rfl⟩
    · exact Or.inr ⟨a, ha, rfl⟩
    · exact Or.inl ⟨a, ha, rfl⟩
  · rintro (⟨a, ha, rfl⟩ | ⟨n, hn, rfl⟩)
    · by_cases hnew : ∀ n ∈ new, key n ≠ key a
      · exact ⟨a, Or.inr ⟨ha, hnew⟩, rfl⟩
      · push Not at hnew
        obtain ⟨n, hn, hkey⟩ := hnew
        exact ⟨n, Or.inl hn, hkey⟩
    · exact ⟨n, Or.inl hn, rfl⟩

theorem clashing_eq_nil [DecidableEq β] (hnew : (new.map key).Nodup) : clashing key content held new = [] ↔ Agree key content held new := by
  rw [clashing, List.filter_eq_nil_iff]
  refine forall₂_congr fun a _ => ?_
  constructor
  · intro h n hn hkey
    have hfound : (new.find? fun n => key n = key a) = some n := by
      cases hf : new.find? fun n => key n = key a with
      | none => exact absurd hkey (by simpa using List.find?_eq_none.1 hf n hn)
      | some m =>
        have hm : key m = key a := by simpa using List.find?_some hf
        exact congrArg some (List.inj_on_of_nodup_map hnew (List.mem_of_find?_eq_some hf) hn (hm.trans hkey.symm))
    simpa [hfound] using h
  · intro h
    cases hf : new.find? fun n => key n = key a with
    | none => simp
    | some m =>
      have hm : key m = key a := by simpa using List.find?_some hf
      simpa using h m (List.mem_of_find?_eq_some hf) hm

/-- What is in a union of lists that agree: what is in one or the other, content for content. -/
theorem content_mem_joined (h : Agree key content held new) {k : κ} {c : β} :
    (∃ a ∈ joined key held new, key a = k ∧ content a = c) ↔
      (∃ a ∈ held, key a = k ∧ content a = c) ∨ ∃ a ∈ new, key a = k ∧ content a = c := by
  simp only [mem_joined]
  constructor
  · rintro ⟨a, ha | ⟨ha, -⟩, hk⟩
    · exact Or.inr ⟨a, ha, hk⟩
    · exact Or.inl ⟨a, ha, hk⟩
  · rintro (⟨a, ha, rfl, rfl⟩ | ⟨a, ha, hk⟩)
    · by_cases hnew : ∀ n ∈ new, key n ≠ key a
      · exact ⟨a, Or.inr ⟨ha, hnew⟩, rfl, rfl⟩
      · push Not at hnew
        obtain ⟨n, hn, hkey⟩ := hnew
        exact ⟨n, Or.inl hn, hkey, h a ha n hn hkey⟩
    · exact ⟨a, Or.inl ha, hk⟩

/-- Joining with lists that agree asks no more of a third than each of them does. -/
theorem agree_joined {third : List α} (h : Agree key content held new) :
    Agree key content (joined key held new) third ↔ Agree key content held third ∧ Agree key content new third := by
  constructor
  · intro hall
    constructor
    · intro a ha n hn hkey
      obtain ⟨b, hb, hbkey, hbcontent⟩ := (content_mem_joined h).2 (Or.inl ⟨a, ha, rfl, rfl⟩)
      exact (hall b hb n hn (hkey.trans hbkey.symm)).trans hbcontent
    · exact fun a ha n hn hkey => hall a (mem_joined.2 (Or.inl ha)) n hn hkey
  · rintro ⟨hheld, hnew⟩ a ha n hn hkey
    rcases mem_joined.1 ha with ha | ⟨ha, -⟩
    · exact hnew a ha n hn hkey
    · exact hheld a ha n hn hkey

/-- Joining the same things again changes nothing. -/
theorem joined_again (hheld : (held.map key).Nodup) (hnew : (new.map key).Nodup) :
    joined key (joined key held new) new = joined key held new := by
  have hkept : (kept key (joined key held new) new).Perm (kept key held new) := by
    have hunsorted : kept key (new ++ kept key held new) new = kept key held new := by
      rw [kept, List.filter_append]
      have hnone : new.filter (fun a => (new.find? fun n => key n = key a).isNone) = [] := by
        rw [List.filter_eq_nil_iff]
        exact fun a ha h => find?_isNone.1 h a ha rfl
      rw [hnone, List.nil_append, kept, List.filter_filter]
      simp
    rw [← hunsorted]
    exact (inOrder_perm _).filter _
  exact inOrder_eq_of_perm (unsorted_nodup (joined_ordered hheld hnew).nodup hnew) (hkept.append_left new)

theorem agree_again (hnew : (new.map key).Nodup) : Agree key content (joined key held new) new := by
  intro a ha n hn hkey
  rcases mem_joined.1 ha with ha | ⟨-, hfresh⟩
  · rw [List.inj_on_of_nodup_map hnew hn ha hkey]
  · exact absurd hkey (hfresh n hn)

/-- Two lists joined to a third one after the other give the same contents in either order. -/
theorem contents_joined_comm {first second : List α} (hheld : (held.map key).Nodup) (hfirst : (first.map key).Nodup)
    (hsecond : (second.map key).Nodup) (h₁ : Agree key content held first) (h₂ : Agree key content held second)
    (h₁₂ : Agree key content first second) :
    (joined key (joined key held first) second).map content = (joined key (joined key held second) first).map content := by
  refine contents_eq (joined_ordered (joined_ordered hheld hfirst).nodup hsecond)
    (joined_ordered (joined_ordered hheld hsecond).nodup hfirst) fun k c => ?_
  rw [content_mem_joined ((agree_joined h₁).2 ⟨h₂, h₁₂⟩), content_mem_joined h₁,
    content_mem_joined ((agree_joined h₂).2 ⟨h₁, h₁₂.symm⟩), content_mem_joined h₂]
  exact or_right_comm

end PactJanus.Lib.KeyedUnion
