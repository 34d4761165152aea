import PactJanus.Lib.Lists
import PactJanus.Plan.Resolve

namespace PactJanus.Plan.Navigation

open PactJanus.Plan.Value PactJanus.Plan.Resolve PactJanus.Lib PactJanus.Lib.Lists

/-- One step of a path within a document. -/
inductive Step where
  | member (name : String)
  | index (i : Nat)

def Step.text : Step → List Char
  | .member name => (memberSegment name).toList
  | .index i => '[' :: i.repr.toList ++ [']']

def pathText (steps : List Step) : List Char := steps.flatMap Step.text

/-- An index that a path can hold. -/
def Step.fits : Step → Prop
  | .member _ => True
  | .index i => i < 2 ^ 64

def memberOf (value : RuntimeValue) (name : String) : RuntimeValue :=
  match value with
  | .object members => (members.lookup name).getD .absent
  | _ => .absent

def elementOf (value : RuntimeValue) (i : Nat) : RuntimeValue :=
  match value with
  | .array items => (items[i]?).getD .absent
  | _ => .absent

def stepOf (value : RuntimeValue) : Step → RuntimeValue
  | .member name => memberOf value name
  | .index i => elementOf value i

/-- The value steps lead to, step by step. -/
def walkSteps (value : RuntimeValue) (steps : List Step) : RuntimeValue := steps.foldl stepOf value

mutual

/-- A value with no entry in it: what a document can hold. -/
def isDocument : RuntimeValue → Bool
  | .entry .. => false
  | .array items => isDocumentAll items
  | .object members => isDocumentMembers members
  | _ => true
termination_by structural v => v

def isDocumentAll : List RuntimeValue → Bool
  | [] => true
  | v :: rest => isDocument v && isDocumentAll rest
termination_by structural vs => vs

def isDocumentMembers : List (String × RuntimeValue) → Bool
  | [] => true
  | (_, v) :: rest => isDocument v && isDocumentMembers rest
termination_by structural ms => ms

end

section

-- The equations of these definitions are made here, once for all who rewrite with them.
attribute [local simp] isDocument isDocumentAll isDocumentMembers memberOf elementOf stepOf pathText Step.text

end

theorem isDocumentAll_iff {items : List RuntimeValue} : isDocumentAll items = true ↔ ∀ v ∈ items, isDocument v = true := by
  induction items with
  | nil => simp [isDocumentAll]
  | cons v rest ih => simp [isDocumentAll, ih]

theorem isDocumentMembers_iff {members : List (String × RuntimeValue)} :
    isDocumentMembers members = true ↔ ∀ p ∈ members, isDocument p.2 = true := by
  induction members with
  | nil => simp [isDocumentMembers]
  | cons p rest ih => simp [isDocumentMembers, ih]

theorem isDocument_memberOf {v : RuntimeValue} (h : isDocument v = true) (name : String) :
    isDocument (memberOf v name) = true := by
  cases v with
  | object members =>
    cases hl : members.lookup name with
    | none => simp [memberOf, hl, isDocument]
    | some w => simpa [memberOf, hl] using isDocumentMembers_iff.1 h _ (mem_of_lookup hl)
  | _ => rfl

theorem isDocument_elementOf {v : RuntimeValue} (h : isDocument v = true) (i : Nat) :
    isDocument (elementOf v i) = true := by
  cases v with
  | array items =>
    cases hi : items[i]? with
    | none => simp [elementOf, hi, isDocument]
    | some w => simpa [elementOf, hi] using isDocumentAll_iff.1 h w (List.mem_of_getElem? hi)
  | _ => rfl

theorem isDocument_stepOf {v : RuntimeValue} (h : isDocument v = true) (step : Step) :
    isDocument (stepOf v step) = true := by
  cases step with
  | member name => exact isDocument_memberOf h name
  | index i => exact isDocument_elementOf h i

@[simp] theorem walkSteps_absent (steps : List Step) : walkSteps .absent steps = .absent := by
  induction steps with
  | nil => rfl
  | cons s rest ih => cases s <;> simpa [walkSteps, stepOf, memberOf, elementOf] using ih

/-- Nothing is found in what is absent. -/
theorem navigate_absent (suffix : List Char) : navigate .absent suffix = .absent := by
  rw [navigate.eq_def]
  split <;> simp

/-! Each step of a path reads back as the step it was written for. -/

private theorem takeWhile_append_stop (p : Char → Bool) {xs : List Char} (ys : List Char) (hx : ∀ c ∈ xs, p c = true)
    (hy : ∀ c ∈ ys.head?, p c = false) : (xs ++ ys).takeWhile p = xs ∧ (xs ++ ys).dropWhile p = ys := by
  induction xs with
  | nil =>
    cases ys with
    | nil => simp
    | cons y rest => simp [hy y rfl]
  | cons x rest ih =>
    have hrest := ih fun c hc => hx c (List.mem_cons_of_mem _ hc)
    simp [hx x List.mem_cons_self, hrest]

theorem isDigit_ne {c d : Char} (h : c.isDigit = true) (hd : d.isDigit = false) : c ≠ d := by
  rintro rfl
  rw [h] at hd
  exact absurd hd (by simp)

theorem pathText_head {steps : List Step} {c : Char} (h : c ∈ (pathText steps).head?) : c = '.' ∨ c = '[' := by
  cases steps with
  | nil => exact absurd h (by simp [pathText])
  | cons s rest =>
    cases s with
    | member name =>
      by_cases hp : plain name = true
      · simp [pathText, Step.text, memberSegment, hp] at h
        exact Or.inl h.symm
      · simp [pathText, Step.text, memberSegment, hp] at h
        exact Or.inr h.symm
    | index i =>
      simp [pathText, Step.text] at h
      exact Or.inr h.symm

private theorem unquote_escape (name rest : List Char) :
    unquote (escape name ++ '\'' :: ']' :: rest) = (name, rest) := by
  induction name with
  | nil => simp [escape, unquote]
  | cons c cs ih =>
    by_cases hc : c = '\\' ∨ c = '\''
    · have : escape (c :: cs) = '\\' :: c :: escape cs := by simp [escape, hc]
      rw [this]
      simp only [List.cons_append, unquote, ih]
    · have : escape (c :: cs) = c :: escape cs := by simp [escape, hc]
      rw [this, List.cons_append]
      rw [not_or] at hc
      rw [unquote.eq_def]
      split
      · rename_i heq
        exact absurd (List.cons.inj heq).1 hc.1
      · rename_i heq
        exact absurd (List.cons.inj heq).1 hc.1
      · rename_i heq
        exact absurd (List.cons.inj heq).1 hc.2
      · rename_i heq
        obtain ⟨rfl, rfl⟩ := List.cons.inj heq
        rw [ih]
      · rename_i heq
        exact absurd heq (by simp)

theorem plain_chars {name : String} (h : plain name = true) : ∀ c ∈ name.toList, (!endsMember c) = true := by
  intro c hc
  have hplain : plainChar c = true := by
    simp only [plain, Bool.and_eq_true, List.all_eq_true] at h
    exact h.2 c hc
  by_contra hend
  simp only [endsMember, Bool.not_eq_true', decide_eq_false_iff_not, not_not] at hend
  obtain rfl | rfl := hend <;> exact absurd hplain (by decide)

/-- The steps a path is read as, whatever it is read in: a path that is no such thing has none. -/
def readSteps (path : List Char) : Option (List Step) :=
  match path with
  | [] => some []
  | '.' :: after =>
    (readSteps (after.dropWhile fun c => !endsMember c)).map
      (.member (String.ofList (after.takeWhile fun c => !endsMember c)) :: ·)
  | '[' :: '\'' :: quoted => (readSteps (unquote quoted).2).map (.member (String.ofList (unquote quoted).1) :: ·)
  | '[' :: after =>
    (Text.parseUnsigned (after.takeWhile (· ≠ ']'))).bind fun i =>
      (readSteps ((after.dropWhile (· ≠ ']')).drop 1)).map (.index i :: ·)
  | _ => none
termination_by path.length
decreasing_by
  all_goals simp only [List.length_cons]
  · exact Nat.lt_succ_of_le (length_dropWhile_le _ _)
  · have := unquote_length quoted
    omega
  · have := length_dropWhile_le (· ≠ ']') after
    simp only [List.length_drop]
    omega

section

-- The equations of these definitions are made here, once for all who rewrite with them.
attribute [local simp] readSteps

end

/-- Where steps that may not be there lead. -/
def walkRead (value : RuntimeValue) (steps : Option (List Step)) : RuntimeValue :=
  (steps.map (walkSteps value)).getD .absent

private theorem walkRead_absent (steps : Option (List Step)) : walkRead .absent steps = .absent := by
  cases steps with
  | none => rfl
  | some S => exact walkSteps_absent S

private theorem walkRead_cons (value : RuntimeValue) (step : Step) (steps : Option (List Step)) :
    walkRead value (steps.map (step :: ·)) = walkRead (stepOf value step) steps := by
  cases steps <;> rfl

private theorem navigate_bracket (v : RuntimeValue) (after : List Char) (h : ∀ quoted, after = '\'' :: quoted → False) :
    navigate v ('[' :: after) =
      match Text.parseUnsigned (after.takeWhile (· ≠ ']')) with
      | some i => navigate (elementOf v i) ((after.dropWhile (· ≠ ']')).drop 1)
      | none => .absent := by
  rw [navigate.eq_def]
  split
  · rename_i heq
    exact absurd heq (by simp)
  · rename_i heq
    exact absurd (List.cons.inj heq).1 (by decide)
  · rename_i heq
    exact absurd (List.cons.inj heq).2 (h _)
  · rename_i heq
    obtain rfl := (List.cons.inj heq).2
    cases hi : Text.parseUnsigned (after.takeWhile (· ≠ ']')) with
    | none => simp only [hi]
    | some i =>
      cases v with
      | array items =>
        cases hl : items[i]? <;> simp only [hi, elementOf, hl, navigate_absent, Option.getD_none, Option.getD_some]
      | _ => simp only [hi, elementOf, navigate_absent]
  · rename_i h
    exact absurd rfl (h _)

/-- In a document a path leads where the steps it is read as lead. -/
theorem navigate_eq_walkRead {v : RuntimeValue} (hv : isDocument v = true) (path : List Char) :
    navigate v path = walkRead v (readSteps path) := by
  induction path using readSteps.induct generalizing v with
  | case1 => simp [navigate, readSteps, walkRead, walkSteps]
  | case2 after ih =>
    rw [readSteps, walkRead_cons, ← ih (isDocument_stepOf hv _)]
    cases v with
    | object members =>
      cases hl : members.lookup (String.ofList (after.takeWhile fun c => !endsMember c)) <;>
        simp [navigate, stepOf, memberOf, hl, navigate_absent]
    | entry key v => exact absurd hv (by simp [isDocument])
    | _ => simp [navigate, stepOf, memberOf, navigate_absent]
  | case3 quoted ih =>
    rw [readSteps, walkRead_cons, ← ih (isDocument_stepOf hv _)]
    cases v with
    | object members =>
      cases hl : members.lookup (String.ofList (unquote quoted).1) <;>
        simp [navigate, stepOf, memberOf, hl, navigate_absent]
    | _ => simp [navigate, stepOf, memberOf, navigate_absent]
  | case4 after hquoted ih =>
    rw [readSteps, navigate_bracket v after hquoted]
    · cases Text.parseUnsigned (after.takeWhile (· ≠ ']')) with
      | none => rfl
      | some i => exact (ih (isDocument_stepOf hv (.index i))).trans (walkRead_cons v (.index i) _).symm
    · exact hquoted
  | case5 path hempty hmember hquoted hindex =>
    rw [readSteps, navigate]
    · rfl
    all_goals assumption

/-- A name with neither of the characters a plain name ends at is read back from its plain form. -/
theorem readSteps_member {name rest : List Char} (hname : ∀ c ∈ name, (!endsMember c) = true)
    (hr : ∀ c ∈ rest.head?, (!endsMember c) = false) :
    readSteps ('.' :: (name ++ rest)) = (readSteps rest).map (.member (String.ofList name) :: ·) := by
  obtain ⟨h1, h2⟩ := takeWhile_append_stop _ _ hname hr
  rw [readSteps, h1, h2]

private theorem readSteps_quoted (name rest : List Char) :
    readSteps ('[' :: '\'' :: (escape name ++ '\'' :: ']' :: rest)) =
      (readSteps rest).map (.member (String.ofList name) :: ·) := by
  rw [readSteps, unquote_escape]

private theorem repr_not_quoted (i : Nat) (rest quoted : List Char) : i.repr.toList ++ ']' :: rest ≠ '\'' :: quoted := by
  intro h
  cases hd : i.repr.toList with
  | nil =>
    rw [hd] at h
    exact absurd (List.cons.inj h).1 (by decide)
  | cons c cs =>
    rw [hd] at h
    have hc : c.isDigit = true := Text.isDigit_of_mem_repr (n := i) (by rw [hd]; exact List.mem_cons_self)
    exact isDigit_ne hc (by decide) (List.cons.inj h).1

/-- An index a path can hold is read back. -/
theorem readSteps_index {i : Nat} (hi : i < 2 ^ 64) (rest : List Char) :
    readSteps ('[' :: (i.repr.toList ++ ']' :: rest)) = (readSteps rest).map (.index i :: ·) := by
  have hdigits : ∀ c ∈ i.repr.toList, decide (c ≠ ']') = true := fun c hc => by
    simpa using isDigit_ne (Text.isDigit_of_mem_repr hc) (by decide)
  obtain ⟨h1, h2⟩ := takeWhile_append_stop (· ≠ ']') (']' :: rest) hdigits (by simp)
  rw [readSteps]
  · simp only [h1, h2, Text.parseUnsigned_repr hi, Option.bind_some, List.drop_succ_cons, List.drop_zero]
  · exact fun quoted h => repr_not_quoted i rest quoted h

theorem navigate_entry (word : List Char) (hw : ∀ c ∈ word, (!endsMember c) = true) (key : String)
    (v : RuntimeValue) (steps : List Step) :
    navigate (.entry key v) ('.' :: (word ++ pathText steps)) =
      if String.ofList word = "key" then navigate (.string key) (pathText steps)
      else if String.ofList word = "value" then navigate v (pathText steps) else .absent := by
  obtain ⟨h1, h2⟩ := takeWhile_append_stop (fun c => !endsMember c) (pathText steps) hw
    fun c hc => by obtain rfl | rfl := pathText_head hc <;> decide
  simp only [navigate, h1, h2]

/-- A path under an entry's value is read in the value. -/
theorem navigate_value (key : String) (v : RuntimeValue) (steps : List Step) :
    navigate (.entry key v) (".value".toList ++ pathText steps) = navigate v (pathText steps) :=
  (navigate_entry "value".toList (List.all_eq_true.1 (by decide)) key v steps).trans
    (by rw [if_neg (by decide), if_pos (by decide)])

/-- A path under an entry's key is read in the key. -/
theorem navigate_key (key : String) (v : RuntimeValue) (steps : List Step) :
    navigate (.entry key v) (".key".toList ++ pathText steps) = navigate (.string key) (pathText steps) :=
  (navigate_entry "key".toList (List.all_eq_true.1 (by decide)) key v steps).trans (by rw [if_pos (by decide)])

/-- A path is read back as the steps it was written for. -/
theorem readSteps_pathText {steps : List Step} (hs : ∀ s ∈ steps, s.fits) : readSteps (pathText steps) = some steps := by
  induction steps with
  | nil => simp [pathText, readSteps]
  | cons s rest ih =>
    have hrest := ih fun s' h => hs s' (List.mem_cons_of_mem _ h)
    rw [pathText, List.flatMap_cons, ← pathText]
    cases s with
    | member name =>
      by_cases hp : plain name = true
      · have hend : ∀ c ∈ (pathText rest).head?, (!endsMember c) = false := fun c hc => by
          obtain rfl | rfl := pathText_head hc <;> decide
        simpa [Step.text, memberSegment, hp, hrest] using readSteps_member (plain_chars hp) hend
      · simpa [Step.text, memberSegment, hp, hrest] using readSteps_quoted name.toList (pathText rest)
    | index i =>
      have hi : i < 2 ^ 64 := hs (.index i) List.mem_cons_self
      simpa [Step.text, hrest] using readSteps_index hi (pathText rest)

/-- A path read back leads where its steps lead. -/
theorem navigate_pathText {v : RuntimeValue} (hv : isDocument v = true) {steps : List Step}
    (hs : ∀ s ∈ steps, s.fits) : navigate v (pathText steps) = walkSteps v steps := by
  rw [navigate_eq_walkRead hv, readSteps_pathText hs]
  rfl

/-! A path under a captured value, nothing captured under it, resolves to the value at the rest of the path. -/

private theorem le_lastCut {cs : List Char} {i : Nat} {c : Char} (hi : cs[i]? = some c) (hc : isCut c = true) :
    ∃ cut, lastCut cs = some cut ∧ i ≤ cut := by
  obtain ⟨hlt, hget⟩ := List.getElem?_eq_some_iff.1 hi
  have hj : cs.length - 1 - i < cs.reverse.length := by simp only [List.length_reverse]; omega
  have hrev : cs.reverse[cs.length - 1 - i] = c := by
    rw [List.getElem_reverse, ← hget]
    congr 1
    omega
  unfold lastCut
  cases hf : cs.reverse.findIdx? isCut with
  | none =>
    have := List.findIdx?_eq_none_iff.1 hf c (by rw [← hrev]; exact List.getElem_mem hj)
    exact absurd hc (by simp [this])
  | some k =>
    refine ⟨_, rfl, ?_⟩
    obtain ⟨hk, -, hbefore⟩ := List.findIdx?_eq_some_iff_getElem.1 hf
    have hle : k ≤ cs.length - 1 - i := by
      by_contra hgt
      have := hbefore (cs.length - 1 - i) (by omega)
      rw [hrev] at this
      exact this hc
    omega

/-- A value is captured at a path, and nothing is captured under it. -/
structure CapturedAt (captured : CapturedValues) (base : String) (v : RuntimeValue) : Prop where
  found : captured.lookup base = some v
  alone : ∀ p ∈ captured, base.toList <+: p.1.toList → p.1 = base

private theorem resolveFrom_captured {captured : CapturedValues} {base : String} {v : RuntimeValue} {suffix : List Char}
    (h : CapturedAt captured base v) (hs : ∀ c ∈ suffix.head?, isCut c = true) (n : Nat) (hn : base.toList.length ≤ n)
    (hlen : n ≤ (base.toList ++ suffix).length) :
    resolveFrom captured (base.toList ++ suffix) n = navigate v suffix := by
  induction n using Nat.strongRecOn with
  | _ n ih =>
    rw [resolveFrom]
    by_cases heq : n = base.toList.length
    · subst heq
      simp [h.found]
    · have htake : (base.toList ++ suffix).take n = base.toList ++ suffix.take (n - base.toList.length) := by
        rw [List.take_append, List.take_of_length_le hn]
      have hne : String.ofList ((base.toList ++ suffix).take n) ≠ base := by
        intro h
        have := congrArg (fun s : String => s.toList.length) h
        simp only [String.toList_ofList, List.length_take] at this
        omega
      have hlookup : captured.lookup (String.ofList ((base.toList ++ suffix).take n)) = none := by
        rw [lookup_eq_none_iff_notMem]
        intro hmem
        obtain ⟨p, hp, hpath⟩ := List.mem_map.1 hmem
        have hprefix : base.toList <+: p.1.toList := by
          rw [hpath, String.toList_ofList, htake]
          exact List.prefix_append _ _
        exact hne (hpath ▸ h.alone p hp hprefix)
      obtain ⟨c, hc⟩ : ∃ c, suffix.head? = some c := by
        cases suffix with
        | nil => simp only [List.append_nil] at hlen; omega
        | cons c rest => exact ⟨c, rfl⟩
      have hget : ((base.toList ++ suffix).take n)[base.toList.length]? = some c := by
        rw [List.getElem?_take_of_lt (by omega), List.getElem?_append_right (le_refl _), Nat.sub_self]
        rw [← hc, List.head?_eq_getElem?]
      obtain ⟨cut, hcut, hle⟩ := le_lastCut hget (hs c hc)
      have hlt := lastCut_lt hcut
      simp only [List.length_take] at hlt
      simp only [hlookup]
      split
      · rename_i cut' h
        rw [hcut] at h
        obtain rfl := Option.some.inj h
        exact ih _ (by omega) hle (by omega)
      · rename_i h
        rw [hcut] at h
        exact absurd h (by simp)

theorem resolve_under {captured : CapturedValues} {base : String} {v : RuntimeValue} (h : CapturedAt captured base v)
    {suffix : List Char} (hs : ∀ c ∈ suffix.head?, isCut c = true) :
    resolve captured (base ++ String.ofList suffix) = navigate v suffix := by
  unfold resolve
  rw [String.toList_append, String.toList_ofList]
  exact resolveFrom_captured h hs _ (by simp) (le_refl _)

theorem resolve_captured {base : String} {v : RuntimeValue} (hv : isDocument v = true) {steps : List Step}
    (hs : ∀ s ∈ steps, s.fits) :
    resolve [(base, v)] (base ++ String.ofList (pathText steps)) = walkSteps v steps := by
  rw [← navigate_pathText hv hs]
  have halone : CapturedAt [(base, v)] base v := ⟨by simp [List.lookup_cons], by simp⟩
  refine resolve_under halone fun c hc => ?_
  obtain rfl | rfl := pathText_head hc <;> decide

end PactJanus.Plan.Navigation
