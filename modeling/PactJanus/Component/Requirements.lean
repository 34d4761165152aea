import PactJanus.Contracts.Model
import PactJanus.Lib.SortedMap
import PactJanus.Lib.Text

namespace PactJanus.Component.Requirements

open PactJanus.Data.Json PactJanus.Lib PactJanus.Lib.SortedMap PactJanus.Contracts.Model

/-! The components the interactions need, checked against those that were loaded. -/

/-- A declared component as it was resolved. -/
structure Resolved where
  name : String
  version : String
  interfaces : List String

/-- One interface of a component the engine has itself. -/
structure InTree where
  interface : String
  name : String
  version : String

structure Unavailable where
  component : String
  message : String
  details : Json

def major (version : String) : Option Nat :=
  (Text.split '.' version).head?.bind fun first => Text.parseUnsigned first.toList

/-- The interface a requirement names, if it names one, and the component's name. -/
def role (component : String) : Option String × String :=
  match Text.splitOnce '/' component with
  | some (interface, name) => (some interface, name)
  | none => (none, component)

def floor (minVersion : Option UInt64) : Nat := (minVersion.getD 0).toNat

def satisfied (resolved : List Resolved) (inTree : List InTree) (component : String) (minVersion : Option UInt64) : Bool :=
  let (interface, name) := role component
  resolved.any (fun r => r.name == name && interface.all (fun i => r.interfaces.any (· == i)) &&
    (major r.version).any fun m => floor minVersion ≤ m) ||
  inTree.any fun t => t.name == name && interface.all (fun i => t.interface == i) &&
    (major t.version).any fun m => floor minVersion ≤ m

def unavailable (loaders : List String) (component : String) (minVersion : Option UInt64) : Unavailable where
  component := component
  message := match minVersion with
    | some v => "no component satisfies '" ++ component ++ "' at major version " ++ v.toNat.repr ++
        " or above; declare one in the project's components"
    | none => "no component satisfies '" ++ component ++ "'; declare one in the project's components"
  details := .object ([("component", .string component), ("loaders", .array (("in-tree" :: loaders).map .string))] ++
    match minVersion with
    | some v => [("min-version", .number (.posInt v))]
    | none => [])

/-- The requirements by their component, in its order: one that is there already stays. -/
def seen (requirements : List Requirement) : List (String × Option UInt64) :=
  (requirements.map fun r => (r.component, r.minVersion)).foldl (fun map entry => insertNew entry.1 entry.2 map) []

/-- Whether every requirement can be satisfied, or the first that cannot. -/
def checkRequirements (requirements : List Requirement) (resolved : List Resolved) (inTree : List InTree)
    (loaders : List String) : Except Unavailable Unit :=
  match (seen requirements).find? fun (component, minVersion) => !satisfied resolved inTree component minVersion with
  | some (component, minVersion) => .error (unavailable loaders component minVersion)
  | none => .ok ()

/-! What a requirement asks for. -/

/-- Some component has a name, an interface when one is named, and a version. -/
def Provides (resolved : List Resolved) (inTree : List InTree) (interface : Option String) (name version : String) : Prop :=
  (∃ r ∈ resolved, r.name = name ∧ (∀ i ∈ interface, i ∈ r.interfaces) ∧ r.version = version) ∨
    ∃ t ∈ inTree, t.name = name ∧ (∀ i ∈ interface, t.interface = i) ∧ t.version = version

/-- A component provides what a requirement names, at a major version that is at least its minimum. -/
def Met (resolved : List Resolved) (inTree : List InTree) (r : Requirement) : Prop :=
  ∃ version m, Provides resolved inTree (role r.component).1 (role r.component).2 version ∧ major version = some m ∧
    floor r.minVersion ≤ m

/-- The requirement a list names first of those on its component. -/
def First (requirements : List Requirement) (r : Requirement) : Prop :=
  requirements.find? (fun q => q.component == r.component) = some r

instance (requirements : List Requirement) (r : Requirement) : Decidable (First requirements r) :=
  inferInstanceAs (Decidable (requirements.find? (fun q => q.component == r.component) = some r))

variable {resolved : List Resolved} {inTree : List InTree} {requirements : List Requirement}

theorem satisfied_iff (r : Requirement) :
    satisfied resolved inTree r.component r.minVersion = true ↔ Met resolved inTree r := by
  simp only [satisfied, Met, Provides, Bool.or_eq_true, List.any_eq_true, Bool.and_eq_true, beq_iff_eq,
    Option.all_eq_true, Option.any_eq_true, decide_eq_true_eq, exists_eq_right]
  constructor
  · rintro (⟨c, hc, ⟨hname, hinterface⟩, m, hm, hle⟩ | ⟨c, hc, ⟨hname, hinterface⟩, m, hm, hle⟩)
    · exact ⟨c.version, m, Or.inl ⟨c, hc, hname, hinterface, rfl⟩, hm, hle⟩
    · exact ⟨c.version, m, Or.inr ⟨c, hc, hname, hinterface, rfl⟩, hm, hle⟩
  · rintro ⟨version, m, ⟨c, hc, hname, hinterface, rfl⟩ | ⟨c, hc, hname, hinterface, rfl⟩, hm, hle⟩
    · exact Or.inl ⟨c, hc, ⟨hname, hinterface⟩, m, hm, hle⟩
    · exact Or.inr ⟨c, hc, ⟨hname, hinterface⟩, m, hm, hle⟩

/-- What meets a requirement meets one on the same component with a lower minimum. -/
theorem Met.mono {r q : Requirement} (h : Met resolved inTree r) (hcomponent : q.component = r.component)
    (hfloor : floor q.minVersion ≤ floor r.minVersion) : Met resolved inTree q := by
  obtain ⟨version, m, hprovides, hmajor, hle⟩ := h
  exact ⟨version, m, hcomponent ▸ hprovides, hmajor, hfloor.trans hle⟩

theorem lookup_seen (component : String) :
    (seen requirements).lookup component =
      (requirements.find? fun q => q.component == component).map Requirement.minVersion := by
  rw [seen, lookup_foldl_insertNew, List.lookup_nil, Option.none_or]
  induction requirements with
  | nil => rfl
  | cons r rest ih =>
    rw [List.map_cons, Lists.lookup_cons_ite, ih, List.find?_cons]
    by_cases h : component = r.component
    · rw [if_pos h, beq_iff_eq.2 h.symm]
      rfl
    · rw [if_neg h, beq_eq_false_iff_ne.2 (Ne.symm h)]

theorem mem_seen {component : String} {minVersion : Option UInt64} :
    (component, minVersion) ∈ seen requirements ↔ First requirements ⟨component, minVersion⟩ := by
  have hsorted : Sorted (seen requirements) := sorted_nil.foldl_insertNew _
  rw [hsorted.mem_iff_lookup, lookup_seen, First, Option.map_eq_some_iff]
  constructor
  · rintro ⟨⟨c, v⟩, hfind, rfl⟩
    have hname := List.find?_some hfind
    obtain rfl : c = component := beq_iff_eq.1 hname
    exact hfind
  · exact fun hfind => ⟨_, hfind, rfl⟩

/-- The check passes where the first requirement on each component is met. -/
theorem checkRequirements_eq_ok (loaders : List String) : checkRequirements requirements resolved inTree loaders = .ok () ↔
    ∀ r, First requirements r → Met resolved inTree r := by
  have hfind : checkRequirements requirements resolved inTree loaders = .ok () ↔
      ((seen requirements).find? fun p => !satisfied resolved inTree p.1 p.2) = none := by
    unfold checkRequirements
    split
    · rename_i heq
      exact ⟨fun h => (nomatch h), fun h => nomatch heq.symm.trans h⟩
    · rename_i heq
      exact ⟨fun _ => heq, fun _ => rfl⟩
  rw [hfind, List.find?_eq_none]
  constructor
  · intro h r hr
    have hsat := h (r.component, r.minVersion) (mem_seen.2 hr)
    rw [Bool.not_eq_true, Bool.not_eq_false'] at hsat
    exact (satisfied_iff r).1 hsat
  · rintro h ⟨component, minVersion⟩ hp
    rw [(satisfied_iff ⟨component, minVersion⟩).2 (h _ (mem_seen.1 hp))]
    exact Bool.false_ne_true

theorem First.mem {r : Requirement} (h : First requirements r) : r ∈ requirements := List.mem_of_find?_eq_some h

theorem exists_first {r : Requirement} (h : r ∈ requirements) :
    ∃ q, First requirements q ∧ q.component = r.component := by
  have hfound : (requirements.find? fun q => q.component == r.component).isSome = true :=
    List.find?_isSome.2 ⟨r, h, beq_self_eq_true r.component⟩
  obtain ⟨q, hq⟩ := Option.isSome_iff_exists.1 hfound
  have hname := List.find?_some hq
  rw [beq_iff_eq] at hname
  exact ⟨q, by rw [First, hname]; exact hq, hname⟩

theorem First.unique {r q : Requirement} (hr : First requirements r) (hq : First requirements q)
    (h : q.component = r.component) : q = r := by
  rw [First, h] at hq
  exact Option.some.inj (hq.symm.trans hr)

/-- A list in which the requirements that are met come first. -/
private theorem first_met {order : List Requirement} (p : Requirement → Bool)
    (h : ∀ r ∈ order, ∃ q ∈ order, q.component = r.component ∧ p q = true) {r : Requirement}
    (hr : First (order.filter p ++ order.filter fun q => !p q) r) : p r = true := by
  obtain ⟨q, hq, hname, hmet⟩ := h r ((List.mem_append.1 hr.mem).elim (fun h => (List.mem_filter.1 h).1)
    fun h => (List.mem_filter.1 h).1)
  have hfound : ((order.filter p).find? fun q => q.component == r.component).isSome = true :=
    List.find?_isSome.2 ⟨q, List.mem_filter.2 ⟨hq, hmet⟩, beq_iff_eq.2 hname⟩
  obtain ⟨found, hfind⟩ := Option.isSome_iff_exists.1 hfound
  rw [First, List.find?_append, hfind] at hr
  obtain rfl : found = r := Option.some.inj hr
  exact (List.mem_filter.1 (List.mem_of_find?_eq_some hfind)).2

private theorem right_in_one_order (loaders : List String) :
    (checkRequirements requirements resolved inTree loaders = .ok () ↔ ∀ r ∈ requirements, Met resolved inTree r) ↔
      (∃ r, First requirements r ∧ ¬ Met resolved inTree r) ∨
        ∀ r ∈ requirements, ∀ q, First requirements q → q.component = r.component →
          floor q.minVersion < floor r.minVersion → Met resolved inTree r := by
  rw [checkRequirements_eq_ok]
  constructor
  · intro h
    by_cases hfirst : ∀ r, First requirements r → Met resolved inTree r
    · exact Or.inr fun r hr _ _ _ _ => h.1 hfirst r hr
    · obtain ⟨r, hr⟩ := not_forall.1 hfirst
      exact Or.inl ⟨r, Classical.not_imp.1 hr⟩
  · rintro (⟨r, hr, hunmet⟩ | hhigher)
    · exact ⟨fun h => absurd (h r hr) hunmet, fun h => absurd (h r hr.mem) hunmet⟩
    · refine ⟨fun h r hr => ?_, fun h r hr => h r hr.mem⟩
      obtain ⟨q, hq, hname⟩ := exists_first hr
      rcases Nat.lt_or_ge (floor q.minVersion) (floor r.minVersion) with hlt | hle
      · exact hhigher r hr q hq hname hlt
      · exact (h q hq).mono hname.symm hle

private theorem right_in_every_order (loaders : List String) :
    (∀ order, order.Perm requirements →
        (checkRequirements order resolved inTree loaders = .ok () ↔ ∀ r ∈ requirements, Met resolved inTree r)) ↔
      (∃ r ∈ requirements, ∀ q ∈ requirements, q.component = r.component → ¬ Met resolved inTree q) ∨
        ∀ r ∈ requirements, Met resolved inTree r := by
  classical
  constructor
  · intro h
    by_contra hnot
    obtain ⟨hsome, hall⟩ := not_or.1 hnot
    refine hall ((h _ (List.filter_append_perm (fun r => decide (Met resolved inTree r)) requirements)).1
      ((checkRequirements_eq_ok loaders).2 fun r hr => of_decide_eq_true (first_met _ (fun q hq => ?_) hr)))
    by_contra hnone
    refine hsome ⟨q, hq, fun q' hq' hname hmet => hnone ⟨q', hq', hname, decide_eq_true hmet⟩⟩
  · rintro (⟨r, hr, hunmet⟩ | hall) order horder
    · rw [checkRequirements_eq_ok]
      obtain ⟨q, hq, hname⟩ := exists_first (horder.mem_iff.2 hr)
      exact ⟨fun h => absurd (h q hq) (hunmet q (horder.mem_iff.1 hq.mem) hname),
        fun h => absurd (h r hr) (hunmet r hr rfl)⟩
    · rw [checkRequirements_eq_ok]
      exact ⟨fun _ => hall, fun _ r hr => hall r (horder.mem_iff.1 hr.mem)⟩

/-- The check of a list is right where it is refused for a requirement that is named first, or no component is asked
for at a higher version after it was asked for at one that is met; and it is right in every order where it could not
but be. -/
theorem requirements_checked_iff (requirements : List Requirement) (resolved : List Resolved) (inTree : List InTree)
    (loaders : List String) :
    ((checkRequirements requirements resolved inTree loaders = .ok () ↔ ∀ r ∈ requirements, Met resolved inTree r) ↔
      (∃ r, First requirements r ∧ ¬ Met resolved inTree r) ∨
        ∀ r ∈ requirements, ∀ q, First requirements q → q.component = r.component →
          floor q.minVersion < floor r.minVersion → Met resolved inTree r) ∧
    ((∀ order, order.Perm requirements →
        (checkRequirements order resolved inTree loaders = .ok () ↔ ∀ r ∈ requirements, Met resolved inTree r)) ↔
      (∃ r ∈ requirements, ∀ q ∈ requirements, q.component = r.component → ¬ Met resolved inTree q) ∨
        ∀ r ∈ requirements, Met resolved inTree r) := by
  exact ⟨right_in_one_order loaders, right_in_every_order loaders⟩

def csvAtTwo : List Requirement := [⟨"content/csv", some 1⟩, ⟨"content/csv", some 2⟩]

/-- A component asked for at one version and then at a higher one it does not have. -/
theorem higher_minimum_unchecked :
    checkRequirements csvAtTwo [⟨"csv", "1.4.0", ["content"]⟩] [] [] = .ok () ∧
      ¬ (∀ r ∈ csvAtTwo, Met [⟨"csv", "1.4.0", ["content"]⟩] [] r) ∧
      checkRequirements csvAtTwo.reverse [⟨"csv", "1.4.0", ["content"]⟩] [] [] ≠ .ok () := by
  have hone : satisfied [⟨"csv", "1.4.0", ["content"]⟩] [] "content/csv" (some 1) = true := by decide
  have htwo : ¬ Met [⟨"csv", "1.4.0", ["content"]⟩] [] ⟨"content/csv", some 2⟩ := by
    rw [← satisfied_iff]
    decide
  refine ⟨(checkRequirements_eq_ok []).2 fun r hr => ?_, fun h => htwo (h _ (by decide)), fun h => ?_⟩
  · have hmem := hr.mem
    simp only [csvAtTwo, List.mem_cons, List.not_mem_nil, or_false] at hmem
    rcases hmem with rfl | rfl
    · exact (satisfied_iff _).1 hone
    · exact absurd hr (by decide)
  · exact htwo ((checkRequirements_eq_ok []).1 h _ (by decide))

end PactJanus.Component.Requirements
