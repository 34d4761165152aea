import PactJanus.Plan.Interpret
import PactJanus.Plan.Navigation

namespace PactJanus.Plan.Places

open PactJanus.Plan.Value PactJanus.Plan.Resolve PactJanus.Plan.Interpret PactJanus.Plan.Navigation PactJanus.Lib.Lists

/-! A value is at a place: what is under it resolves by the path to it. -/

mutual

/-- A value that is decoded from a document: no entry, no member named twice, every element with an index. -/
def isDecoded : RuntimeValue → Bool
  | .entry .. => false
  | .array items => decide (items.length ≤ 2 ^ 64) && isDecodedAll items
  | .object members => decide (members.map Prod.fst).Nodup && isDecodedMembers members
  | _ => true
termination_by structural v => v

def isDecodedAll : List RuntimeValue → Bool
  | [] => true
  | v :: rest => isDecoded v && isDecodedAll rest
termination_by structural vs => vs

def isDecodedMembers : List (String × RuntimeValue) → Bool
  | [] => true
  | (_, v) :: rest => isDecoded v && isDecodedMembers rest
termination_by structural ms => ms

end

theorem isDecodedAll_iff {items : List RuntimeValue} : isDecodedAll items = true ↔ ∀ v ∈ items, isDecoded v = true := by
  induction items with
  | nil => simp [isDecodedAll]
  | cons v rest ih => simp [isDecodedAll, ih]

theorem isDecodedMembers_iff {members : List (String × RuntimeValue)} :
    isDecodedMembers members = true ↔ ∀ p ∈ members, isDecoded p.2 = true := by
  induction members with
  | nil => simp [isDecodedMembers]
  | cons p rest ih => simp [isDecodedMembers, ih]

theorem isDecoded_array {items : List RuntimeValue} :
    isDecoded (.array items) = true ↔ items.length ≤ 2 ^ 64 ∧ ∀ v ∈ items, isDecoded v = true := by
  rw [isDecoded, Bool.and_eq_true, decide_eq_true_iff, isDecodedAll_iff]

theorem isDecoded_object {members : List (String × RuntimeValue)} :
    isDecoded (.object members) = true ↔ (members.map Prod.fst).Nodup ∧ ∀ p ∈ members, isDecoded p.2 = true := by
  rw [isDecoded, Bool.and_eq_true, decide_eq_true_iff, isDecodedMembers_iff]

theorem isDecoded_stepOf {v : RuntimeValue} (h : isDecoded v = true) (step : Step) : isDecoded (stepOf v step) = true := by
  cases step with
  | member name =>
    cases v with
    | object members =>
      show isDecoded ((members.lookup name).getD .absent) = true
      cases hfound : members.lookup name with
      | none => rfl
      | some w => exact (isDecoded_object.1 h).2 _ (mem_of_lookup hfound)
    | _ => rfl
  | index i =>
    cases v with
    | array items =>
      show isDecoded ((items[i]?).getD .absent) = true
      cases hfound : items[i]? with
      | none => rfl
      | some w => exact (isDecoded_array.1 h).2 w (List.mem_of_getElem? hfound)
    | _ => rfl

theorem isDecoded_walkSteps {v : RuntimeValue} (h : isDecoded v = true) (steps : List Step) :
    isDecoded (walkSteps v steps) = true := by
  induction steps generalizing v with
  | nil => exact h
  | cons step rest ih => exact ih (isDecoded_stepOf h step)

/-- A path along steps, from a place. -/
def along (place : String) (steps : List Step) : String := place ++ String.ofList (pathText steps)

theorem along_nil (place : String) : along place [] = place := by simp [along, pathText]

theorem along_append (place : String) (steps more : List Step) :
    along (along place steps) more = along place (steps ++ more) := by
  simp [along, pathText, String.append_assoc, String.ofList_append]

/-- A decoded value is at a place where every path from there resolves to what its steps lead to in the value. -/
structure At (captured : CapturedValues) (place : String) (v : RuntimeValue) : Prop where
  decoded : isDecoded v = true
  reads : ∀ steps : List Step, (∀ s ∈ steps, s.fits) → resolve captured (along place steps) = walkSteps v steps

variable {captured : CapturedValues} {place : String} {v : RuntimeValue}

theorem At.here (h : At captured place v) : resolve captured place = v := by
  have hread := h.reads [] (by simp)
  rwa [along_nil] at hread

theorem At.along (h : At captured place v) {steps : List Step} (hs : ∀ s ∈ steps, s.fits) :
    At captured (along place steps) (walkSteps v steps) := by
  refine ⟨isDecoded_walkSteps h.decoded steps, fun more hmore => ?_⟩
  rw [along_append, h.reads _ (List.forall_mem_append.2 ⟨hs, hmore⟩), walkSteps, List.foldl_append]
  rfl

theorem along_member (place name : String) : along place [.member name] = memberPath place name := by
  simp [along, memberPath, pathText, Step.text]

theorem along_index (place : String) (i : Nat) : along place [.index i] = place ++ "[" ++ i.repr ++ "]" := by
  rw [← String.toList_inj]
  simp [along, pathText, Step.text]

theorem At.member (h : At captured place v) (name : String) :
    At captured (memberPath place name) (memberOf v name) := by
  rw [← along_member]
  exact At.along h (List.forall_mem_singleton.2 trivial)

theorem isDocument_of_isDecoded {v : RuntimeValue} : isDecoded v = true → isDocument v = true := by
  refine RuntimeValue.rec (motive_1 := fun v => isDecoded v = true → isDocument v = true)
    (motive_2 := fun vs => isDecodedAll vs = true → isDocumentAll vs = true)
    (motive_3 := fun ms => isDecodedMembers ms = true → isDocumentMembers ms = true)
    (motive_4 := fun p => isDecoded p.2 = true → isDocument p.2 = true)
    (fun _ => rfl) (fun _ => rfl) (fun _ _ => rfl) (fun _ _ => rfl) (fun _ _ => rfl) ?array ?object (fun _ _ => rfl)
    ?entry (fun _ => rfl) ?element (fun _ => rfl) ?member (fun _ _ ih => ih) v
  case array => exact fun items ih h => ih (Bool.and_eq_true_iff.1 h).2
  case object => exact fun members ih h => ih (Bool.and_eq_true_iff.1 h).2
  case entry => exact fun _ _ _ h => nomatch h
  case element =>
    intro v rest ihv ihrest h
    obtain ⟨hv, hrest⟩ := Bool.and_eq_true_iff.1 h
    exact Bool.and_eq_true_iff.2 ⟨ihv hv, ihrest hrest⟩
  case member =>
    intro p rest ihp ihrest h
    obtain ⟨hp, hrest⟩ := Bool.and_eq_true_iff.1 h
    exact Bool.and_eq_true_iff.2 ⟨ihp hp, ihrest hrest⟩

/-- What is captured is at the path it was captured at. -/
theorem at_captured (hv : isDecoded v = true) (h : CapturedAt captured place v) : At captured place v := by
  refine ⟨hv, fun steps hs => ?_⟩
  rw [along, resolve_under h, navigate_pathText (isDocument_of_isDecoded hv) hs]
  intro c hc
  obtain rfl | rfl := pathText_head hc <;> decide

private theorem resolveFrom_missing {path : List Char} (h : ∀ n, captured.lookup (String.ofList (path.take n)) = none)
    (n : Nat) : resolveFrom captured path n = .absent := by
  induction n using Nat.strongRecOn with
  | _ n ih =>
    rw [resolveFrom]
    simp only [h n]
    split
    · rename_i cut hcut
      have hlt := lastCut_lt hcut
      rw [List.length_take] at hlt
      exact ih cut (by omega)
    · rfl

/-- Nothing is at a path that nothing is captured above or under. -/
theorem at_missing (h : ∀ p ∈ captured, ¬p.1.toList <+: place.toList ∧ ¬place.toList <+: p.1.toList) :
    At captured place .absent := by
  refine ⟨rfl, fun steps hs => ?_⟩
  rw [walkSteps_absent]
  refine resolveFrom_missing (fun n => ?_) _
  rw [lookup_eq_none_iff_notMem]
  intro hmem
  obtain ⟨p, hp, hpath⟩ := List.mem_map.1 hmem
  have hbelow : p.1.toList <+: place.toList ++ pathText steps := by
    have halong : (along place steps).toList = place.toList ++ pathText steps := by simp [along]
    rw [hpath, String.toList_ofList, ← halong]
    exact List.take_prefix n _
  obtain ⟨habove, hunder⟩ := h p hp
  exact (List.prefix_or_prefix_of_prefix hbelow (List.prefix_append _ _)).elim habove hunder

/-! Where the items of a loop are. -/

def isEntry : RuntimeValue → Bool
  | .entry .. => true
  | _ => false

/-- An item at a place: an entry is where its value is. -/
def CurrentAt (captured : CapturedValues) (place : String) : RuntimeValue → Prop
  | .entry _ value => At captured place value
  | item => At captured place item

theorem currentAt_of_at (h : At captured place v) : CurrentAt captured place v := by
  cases v with
  | entry key value => exact absurd h.decoded (by simp [isDecoded])
  | _ => exact h

theorem isEntry_of_decoded (h : isDecoded v = true) : isEntry v = false := by
  cases v with
  | entry => exact absurd h (by simp [isDecoded])
  | _ => rfl

theorem At.element {items : List RuntimeValue} (h : At captured place (.array items)) {i : Nat} {item : RuntimeValue}
    (hi : items[i]? = some item) : At captured (place ++ "[" ++ i.repr ++ "]") item := by
  have hlength := (isDecoded_array.1 h.decoded).1
  have hlt := (List.getElem?_eq_some_iff.1 hi).1
  have hfits : (Step.index i).fits := Nat.lt_of_lt_of_le hlt hlength
  have hat := At.along h (List.forall_mem_singleton.2 hfits)
  have hitem : walkSteps (.array items) [.index i] = item := by
    show (items[i]?).getD .absent = item
    rw [hi, Option.getD_some]
  rwa [along_index, hitem] at hat

theorem At.entry {members : List (String × RuntimeValue)} (h : At captured place (.object members))
    {p : String × RuntimeValue} (hp : p ∈ members) : At captured (memberPath place p.1) p.2 := by
  have hat := At.member h p.1
  have hvalue : memberOf (.object members) p.1 = p.2 := by
    show (members.lookup p.1).getD .absent = p.2
    rw [lookup_of_mem (isDecoded_object.1 h.decoded).1 hp, Option.getD_some]
  rwa [hvalue] at hat

private theorem itemPath_element {item : RuntimeValue} (h : isEntry item = false) (source : String) (i : Nat) :
    itemPath source i item = source ++ "[" ++ i.repr ++ "]" := by
  cases item with
  | entry => exact nomatch h
  | _ => rfl

/-- Each item of a loop over a value is where the loop has it. -/
theorem currentAt_items (h : At captured place v) {p : RuntimeValue × Option String}
    (hp : p ∈ itemPaths (some place) (iterationItems v)) :
    ∃ item, p.2 = some item ∧ CurrentAt captured item p.1 ∧ isEntry p.1 = isObject v := by
  obtain ⟨i, hi, rfl⟩ := List.mem_mapIdx.1 hp
  cases v with
  | array items =>
    have hi' : i < items.length := hi
    have hentry := isEntry_of_decoded ((isDecoded_array.1 h.decoded).2 _ (List.getElem_mem hi'))
    refine ⟨itemPath place i items[i], rfl, ?_, hentry⟩
    show CurrentAt captured (itemPath place i items[i]) items[i]
    rw [itemPath_element hentry]
    exact currentAt_of_at (At.element h (List.getElem?_eq_getElem hi))
  | object members =>
    have hi' : i < members.length := by simpa [iterationItems] using hi
    have hitem : (iterationItems (.object members))[i] = .entry members[i].1 members[i].2 := List.getElem_map ..
    rw [hitem]
    exact ⟨_, rfl, At.entry h (List.getElem_mem hi'), rfl⟩
  | _ => exact absurd hi (by simp [iterationItems])

end PactJanus.Plan.Places
