import Mathlib.Data.List.Pairwise
import PactJanus.Contracts.Files
import PactJanus.Data.Spelling

namespace PactJanus.Contracts.Identity

open PactJanus.Data.Json PactJanus.Data.Equality PactJanus.Data.Spelling PactJanus.Lib PactJanus.Lib.Binary64
open PactJanus.Lib.Lists PactJanus.Contracts.Canonical PactJanus.Contracts.Model PactJanus.Contracts.Merge
open PactJanus.Contracts.Files

/-! The session's own check for duplicate identities, and what the contract merge makes of the same interactions. -/

section Pointwise

variable {α : Type} (eq : α → α → Bool)

def listEq : List α → List α → Bool
  | [], [] => true
  | a :: as, b :: bs => eq a b && listEq as bs
  | _, _ => false

def optionEq : Option α → Option α → Bool
  | none, none => true
  | some a, some b => eq a b
  | _, _ => false

variable {eq}

theorem listEq_iff {as bs : List α} : listEq eq as bs = true ↔ List.Forall₂ (fun a b => eq a b = true) as bs := by
  induction as generalizing bs with
  | nil => cases bs <;> simp [listEq]
  | cons a as ih => cases bs <;> simp [listEq, ih]

theorem optionEq_symm (hsymm : ∀ a b, eq a b = true → eq b a = true) {a b : Option α} (h : optionEq eq a b = true) :
    optionEq eq b a = true := by
  cases a <;> cases b <;> simp_all [optionEq]

theorem optionEq_trans (htrans : ∀ a b c, eq a b = true → eq b c = true → eq a c = true) {a b c : Option α}
    (hab : optionEq eq a b = true) (hbc : optionEq eq b c = true) : optionEq eq a c = true := by
  cases a <;> cases b <;> cases c <;> simp_all [optionEq]
  exact htrans _ _ _ hab hbc

theorem listEq_symm (hsymm : ∀ a b, eq a b = true → eq b a = true) (as bs : List α) (h : listEq eq as bs = true) :
    listEq eq bs as = true := by
  rw [listEq_iff] at h ⊢
  exact h.flip.imp fun a b => hsymm b a

theorem listEq_trans (htrans : ∀ a b c, eq a b = true → eq b c = true → eq a c = true) (as bs cs : List α)
    (hab : listEq eq as bs = true) (hbc : listEq eq bs cs = true) : listEq eq as cs = true := by
  induction as generalizing bs cs with
  | nil => cases bs <;> cases cs <;> simp_all [listEq]
  | cons a as ih =>
    cases bs <;> cases cs <;> simp_all [listEq]
    exact ⟨htrans _ _ _ hab.1 hbc.1, ih _ _ hab.2 hbc.2⟩

/-- Two lists written the same are equal in each place, and written the same there. -/
theorem map_eq_map_iff {β : Type} {write : α → β} {eq alike : α → α → Bool}
    (h : ∀ a b, write a = write b ↔ eq a b = true ∧ alike a b = true) {as bs : List α} :
    as.map write = bs.map write ↔ listEq eq as bs = true ∧ listEq alike as bs = true := by
  induction as generalizing bs with
  | nil => cases bs <;> simp [listEq]
  | cons a as ih =>
    cases bs with
    | nil => simp [listEq]
    | cons b bs =>
      simp only [List.map_cons, List.cons.injEq, listEq, Bool.and_eq_true, h, ih]
      exact and_and_and_comm

theorem option_map_eq_iff {β : Type} {write : α → β} {eq alike : α → α → Bool}
    (h : ∀ a b, write a = write b ↔ eq a b = true ∧ alike a b = true) {a b : Option α} :
    a.map write = b.map write ↔ optionEq eq a b = true ∧ optionEq alike a b = true := by
  cases a <;> cases b <;> simp [optionEq, h]

end Pointwise

/-! Equality of states, as the session compares them. -/

def paramEq (p q : String × Document) : Bool := p.1 == q.1 && same p.2.val q.2.val

def documentEq (v w : Document) : Bool := same v.val w.val

def stateEq (a b : State) : Bool :=
  a.name == b.name && (optionEq (listEq paramEq) a.params b.params &&
    optionEq (listEq documentEq) a.variantParams b.variantParams)

def statesEq (a b : Option (List State)) : Bool := optionEq (listEq stateEq) a b

/-- The session's own test for one identity. -/
def duplicates (earlier later : Interaction) : Bool :=
  earlier.description == later.description && statesEq earlier.states later.states

def duplicateIdentity (i j : Nat) : Problem :=
  ⟨"/interactions/" ++ j.repr, "duplicate interaction identity: same description and states as /interactions/" ++ i.repr⟩

def duplicateIdentityProblems (interactions : List Interaction) : Option (List Problem) :=
  let problems := interactions.zipIdx.flatMap fun (earlier, i) =>
    (interactions.zipIdx.drop (i + 1)).filterMap fun (later, j) =>
      if duplicates earlier later then some (duplicateIdentity i j) else none
  if problems.isEmpty then none else some problems

/-- The contract of a session whose interactions have all been assembled, or why there is none. -/
def assembled (consumer provider : Party) (interactions : List Interaction) : Except (List Problem) Contract :=
  let interactions := sort interactions
  match duplicateIdentityProblems interactions with
  | some problems => .error problems
  | none => .ok ⟨formatToken, none, consumer, provider, interactions, none⟩

/-! Documents that are equal and written alike are one document. -/

/-- Not the two zeros of a float. -/
def zerosAlike : Number → Number → Bool
  | .float x, .float y => x.mantissa != 0 || y.mantissa != 0 || x.negative == y.negative
  | _, _ => true

mutual

/-- Members in the same order at every depth, and no zero under another sign. -/
def alike : Json → Json → Bool
  | .number m, .number n => zerosAlike m n
  | .array as, .array bs => alikeItems as bs
  | .object as, .object bs => alikeMembers as bs
  | _, _ => true
termination_by structural v => v

def alikeItems : List Json → List Json → Bool
  | a :: as, b :: bs => alike a b && alikeItems as bs
  | _, _ => true
termination_by structural vs => vs

def alikeMembers : List (String × Json) → List (String × Json) → Bool
  | (m, a) :: as, (n, b) :: bs => m == n && alike a b && alikeMembers as bs
  | _, _ => true
termination_by structural ms => ms

end

private theorem alike_refl (v : Json) : alike v v = true := by
  induction v with
  | number n => cases n <;> simp [alike, zerosAlike]
  | array items ih =>
    rw [alike]
    induction items with
    | nil => rfl
    | cons v rest ihRest => simp_all [alikeItems]
  | object members ih =>
    rw [alike]
    induction members with
    | nil => rfl
    | cons p rest ihRest => simp_all [alikeMembers]
  | _ => rfl

private theorem number_eq {m n : Number} (hsame : numbersSame m n = true) (halike : zerosAlike m n = true) : m = n := by
  cases m <;> cases n <;> simp_all [numbersSame, zerosAlike]
  case float x y =>
    obtain ⟨xn, xm, xe, hx⟩ := x
    obtain ⟨yn, ym, ye, hy⟩ := y
    simp only [key, Prod.mk.injEq, Binary64.mk.injEq] at hsame halike ⊢
    cases xn <;> cases yn <;> simp_all <;> omega

private theorem items_eq {as bs : List Json} (hsame : List.Forall₂ (fun a b => same a b = true) as bs)
    (halike : alikeItems as bs = true) (ih : ∀ v ∈ as, ∀ w ∈ bs, same v w = true → alike v w = true → v = w) : as = bs := by
  induction hsame with
  | nil => rfl
  | cons hab hrest ihRest =>
    simp only [alikeItems, Bool.and_eq_true] at halike
    rw [ih _ List.mem_cons_self _ List.mem_cons_self hab halike.1,
      ihRest halike.2 fun v hv w hw => ih v (List.mem_cons_of_mem _ hv) w (List.mem_cons_of_mem _ hw)]

private theorem names_eq {as bs : List (String × Json)} (hlen : as.length = bs.length) (halike : alikeMembers as bs = true) :
    as.map Prod.fst = bs.map Prod.fst := by
  induction as generalizing bs with
  | nil =>
    obtain rfl := List.length_eq_zero_iff.1 hlen.symm
    rfl
  | cons p as ih =>
    cases bs with
    | nil => exact nomatch hlen
    | cons q bs =>
      simp only [alikeMembers, Bool.and_eq_true, beq_iff_eq] at halike
      rw [List.map_cons, List.map_cons, halike.1.1, ih (Nat.succ.inj hlen) halike.2]

private theorem members_eq {as bs : List (String × Json)}
    (hsame : List.Forall₂ (fun p q => p.1 = q.1 ∧ same p.2 q.2 = true) as bs) (halike : alikeMembers as bs = true)
    (ih : ∀ p ∈ as, ∀ q ∈ bs, same p.2 q.2 = true → alike p.2 q.2 = true → p.2 = q.2) : as = bs := by
  induction hsame with
  | nil => rfl
  | cons hab hrest ihRest =>
    simp only [alikeMembers, Bool.and_eq_true] at halike
    have hvalue := ih _ List.mem_cons_self _ List.mem_cons_self hab.2 halike.1.2
    rw [Prod.ext hab.1 hvalue,
      ihRest halike.2 fun p hp q hq => ih p (List.mem_cons_of_mem _ hp) q (List.mem_cons_of_mem _ hq)]

private theorem eq_of_same {v w : Json} (hv : distinctKeys v = true) (hw : distinctKeys w = true)
    (hsame : same v w = true) (halike : alike v w = true) : v = w := by
  induction v generalizing w with
  | number m =>
    cases w with
    | number n => exact congrArg Json.number (number_eq hsame halike)
    | _ => simp [same, equalBy] at hsame
  | array as ih =>
    cases w with
    | array bs =>
      have hitems := items_eq (equalBy_array.1 hsame) halike fun v hmem w hmem' =>
        ih v hmem (distinctKeysAll_iff.1 hv v hmem) (distinctKeysAll_iff.1 hw w hmem')
      rw [hitems]
    | _ => simp [same, equalBy] at hsame
  | object as ih =>
    cases w with
    | object bs =>
      obtain ⟨hd, has⟩ := distinctKeys_object.1 hv
      obtain ⟨-, hbs⟩ := distinctKeys_object.1 hw
      obtain ⟨hlen, hlookups⟩ := equalBy_object.1 hsame
      have hplaces : List.Forall₂ (fun p q => p.1 = q.1 ∧ same p.2 q.2 = true) as bs :=
        forall₂_of_lookup (r := fun a b => same a b = true) hd (names_eq hlen halike) hlookups
      rw [members_eq hplaces halike fun p hp q hq => ih p hp (has p hp) (hbs q hq)]
    | _ => simp [same, equalBy] at hsame
  | _ => cases w <;> simp_all [same, equalBy]

theorem eq_iff_same {v w : Json} (hv : distinctKeys v = true) (hw : distinctKeys w = true) :
    v = w ↔ same v w = true ∧ alike v w = true :=
  ⟨fun h => h ▸ ⟨same_refl hv, alike_refl v⟩, fun ⟨hsame, halike⟩ => eq_of_same hv hw hsame halike⟩

/-! One text of the states is equal states that are written alike. -/

def paramAlike (p q : String × Document) : Bool := alike p.2.val q.2.val

def bindingAlike (v w : Document) : Bool := alike (binding v.val) (binding w.val)

def stateAlike (a b : State) : Bool :=
  optionEq (listEq paramAlike) a.params b.params && optionEq (listEq bindingAlike) a.variantParams b.variantParams

def statesAlike (a b : Option (List State)) : Bool := optionEq (listEq stateAlike) a b

private theorem param_eq_iff (p q : String × Document) :
    ((p.1, p.2.val) : String × Json) = (q.1, q.2.val) ↔ paramEq p q = true ∧ paramAlike p q = true := by
  rw [Prod.mk.injEq, eq_iff_same p.2.property q.2.property]
  simp [paramEq, paramAlike, and_assoc]

private theorem binding_eq_iff (v w : Document) :
    binding v.val = binding w.val ↔ documentEq v w = true ∧ bindingAlike v w = true := by
  obtain ⟨hv, hv'⟩ := same_binding v.property
  obtain ⟨hw, hw'⟩ := same_binding w.property
  rw [eq_iff_same hv' hw', documentEq, bindingAlike]
  refine and_congr_left fun _ => ⟨fun h => ?_, fun h => ?_⟩
  · exact same_trans (same_trans hv h) (same_symm w.property hw' hw)
  · exact same_trans (same_trans (same_symm v.property hv' hv) h) hw

private theorem optional_eq_iff {a b c d : Option Json} :
    Model.optional "params" a ++ Model.optional "variant-params" b =
      Model.optional "params" c ++ Model.optional "variant-params" d ↔ a = c ∧ b = d := by
  cases a <;> cases b <;> cases c <;> cases d <;> simp [Model.optional]

private theorem mapJson_eq_iff (as bs : List (String × Document)) :
    mapJson Subtype.val as = mapJson Subtype.val bs ↔ listEq paramEq as bs = true ∧ listEq paramAlike as bs = true := by
  rw [mapJson, mapJson, Json.object.injEq]
  exact map_eq_map_iff param_eq_iff

private theorem listJson_eq_iff {α : Type} {write : α → Json} {eq alike : α → α → Bool}
    (h : ∀ a b, write a = write b ↔ eq a b = true ∧ alike a b = true) (as bs : List α) :
    listJson write as = listJson write bs ↔ listEq eq as bs = true ∧ listEq alike as bs = true := by
  rw [listJson, listJson, Json.array.injEq]
  exact map_eq_map_iff h

private theorem stateJson_eq_iff (a b : State) :
    stateJson a = stateJson b ↔ stateEq a b = true ∧ stateAlike a b = true := by
  rw [stateJson, stateJson, Json.object.injEq, List.cons.injEq, optional_eq_iff, option_map_eq_iff mapJson_eq_iff,
    option_map_eq_iff (listJson_eq_iff binding_eq_iff)]
  simp only [Prod.mk.injEq, true_and, Json.string.injEq, stateEq, stateAlike, Bool.and_eq_true, beq_iff_eq]
  tauto

private theorem statesText_eq_iff (a b : Interaction) :
    statesText a = statesText b ↔ statesEq a.states b.states = true ∧ statesAlike a.states b.states = true := by
  have htext : ∀ as bs : List State, text (statesJson as) = text (statesJson bs) ↔
      listEq stateEq as bs = true ∧ listEq stateAlike as bs = true := by
    intro as bs
    rw [text_injective.eq_iff]
    exact listJson_eq_iff stateJson_eq_iff as bs
  exact option_map_eq_iff htext

/-- Two interactions have one identity in a contract where the session finds them duplicates and their states are
written alike. -/
theorem identity_eq_iff (a b : Interaction) :
    identity a = identity b ↔ duplicates a b = true ∧ statesAlike a.states b.states = true := by
  have hpair : identity a = identity b ↔ a.description = b.description ∧ statesText a = statesText b := by
    rw [identity, identity, toLex.injective.eq_iff, Prod.mk.injEq]
  rw [hpair, statesText_eq_iff, duplicates, Bool.and_eq_true, beq_iff_eq, and_assoc]

/-! The session's check over its interactions. -/

theorem statesEq_symm {a b : Option (List State)} (h : statesEq a b = true) : statesEq b a = true := by
  have hparam : ∀ p q : String × Document, paramEq p q = true → paramEq q p = true := by
    intro p q h
    simp only [paramEq, Bool.and_eq_true, beq_iff_eq] at h ⊢
    exact ⟨h.1.symm, same_symm p.2.property q.2.property h.2⟩
  have hbinding : ∀ v w : Document, documentEq v w = true → documentEq w v = true := fun v w =>
    same_symm v.property w.property
  have hstate : ∀ s t : State, stateEq s t = true → stateEq t s = true := by
    intro s t h
    simp only [stateEq, Bool.and_eq_true, beq_iff_eq] at h ⊢
    exact ⟨h.1.symm, optionEq_symm (listEq_symm hparam) h.2.1, optionEq_symm (listEq_symm hbinding) h.2.2⟩
  exact optionEq_symm (listEq_symm hstate) h

theorem statesEq_trans {a b c : Option (List State)} (hab : statesEq a b = true) (hbc : statesEq b c = true) :
    statesEq a c = true := by
  have hparam : ∀ p q r : String × Document, paramEq p q = true → paramEq q r = true → paramEq p r = true := by
    intro p q r hpq hqr
    simp only [paramEq, Bool.and_eq_true, beq_iff_eq] at hpq hqr ⊢
    exact ⟨hpq.1.trans hqr.1, same_trans hpq.2 hqr.2⟩
  have hbinding : ∀ u v w : Document, documentEq u v = true → documentEq v w = true → documentEq u w = true :=
    fun _ _ _ => same_trans
  have hstate : ∀ s t u : State, stateEq s t = true → stateEq t u = true → stateEq s u = true := by
    intro s t u hst htu
    simp only [stateEq, Bool.and_eq_true, beq_iff_eq] at hst htu ⊢
    exact ⟨hst.1.trans htu.1, optionEq_trans (listEq_trans hparam) hst.2.1 htu.2.1,
      optionEq_trans (listEq_trans hbinding) hst.2.2 htu.2.2⟩
  exact optionEq_trans (listEq_trans hstate) hab hbc

private theorem duplicates_symm (a b : Interaction) (h : duplicates a b = true) : duplicates b a = true := by
  simp only [duplicates, Bool.and_eq_true, beq_iff_eq] at h ⊢
  exact ⟨h.1.symm, statesEq_symm h.2⟩

private theorem duplicates_trans {a b c : Interaction} (hab : duplicates a b = true) (hbc : duplicates b c = true) :
    duplicates a c = true := by
  simp only [duplicates, Bool.and_eq_true, beq_iff_eq] at hab hbc ⊢
  exact ⟨hab.1.trans hbc.1, statesEq_trans hab.2 hbc.2⟩

theorem unlike_symm {a b : Interaction} (h : duplicates a b = false) : duplicates b a = false := by
  rw [Bool.eq_false_iff] at h ⊢
  exact fun hba => h (duplicates_symm b a hba)

/-- No two interactions the session takes for duplicates. -/
def Unrepeated (interactions : List Interaction) : Prop :=
  interactions.Pairwise fun a b => duplicates a b = false

private theorem unrepeated_joined {existing new : Contract} :
    Unrepeated (joinedContract existing new).interactions ↔
      Unrepeated (new.interactions ++ KeyedUnion.kept identity existing.interactions new.interactions) :=
  (KeyedUnion.inOrder_perm _).pairwise_iff unlike_symm

private theorem duplicateIdentityProblems_none {interactions : List Interaction}
    (h : duplicateIdentityProblems interactions = none) : Unrepeated interactions := by
  simp only [duplicateIdentityProblems, ite_eq_left_iff, reduceCtorEq, imp_false, not_not, List.isEmpty_iff,
    List.flatMap_eq_nil_iff, List.filterMap_eq_nil_iff, ite_eq_right_iff, Prod.forall] at h
  rw [Unrepeated, List.pairwise_iff_getElem]
  intro i j hi hj hij
  have hearlier : (interactions[i], i) ∈ interactions.zipIdx := by simp [List.mem_zipIdx_iff_getElem?, hi]
  have hlater : (interactions[j], j) ∈ interactions.zipIdx.drop (i + 1) := by
    rw [List.mem_iff_getElem]
    refine ⟨j - (i + 1), by simp; omega, ?_⟩
    simp [show i + 1 + (j - (i + 1)) = j by omega]
  simpa using h _ _ hearlier _ _ hlater

/-- A contract the session writes has no duplicates, and no two interactions of one identity. -/
theorem assembled_ok {consumer provider : Party} {interactions : List Interaction} {contract : Contract}
    (h : assembled consumer provider interactions = .ok contract) :
    Unrepeated contract.interactions ∧ Distinct contract := by
  cases hproblems : duplicateIdentityProblems (sort interactions) with
  | some problems => simp [assembled, hproblems] at h
  | none =>
    simp only [assembled, hproblems, Except.ok.injEq] at h
    have hunrepeated : Unrepeated contract.interactions := h ▸ duplicateIdentityProblems_none hproblems
    refine ⟨hunrepeated, List.pairwise_map.2 (hunrepeated.imp fun {a b} hab heq => ?_)⟩
    rw [((identity_eq_iff a b).1 heq).1] at hab
    exact Bool.noConfusion hab

private theorem alike_of_unrepeated {existing new : Contract} (hnew : Unrepeated new.interactions)
    (h : Unrepeated (joinedContract existing new).interactions) {a b : Interaction} (ha : a ∈ existing.interactions)
    (hb : b ∈ new.interactions) (hab : duplicates a b = true) : statesAlike a.states b.states = true := by
  rw [unrepeated_joined, Unrepeated, List.pairwise_append] at h
  by_cases hkept : ∀ n ∈ new.interactions, identity n ≠ identity a
  · have hdiffer := h.2.2 b hb a (KeyedUnion.mem_kept.2 ⟨ha, hkept⟩)
    exact absurd (duplicates_symm a b hab) (by simp [hdiffer])
  · push Not at hkept
    obtain ⟨n, hn, hidentity⟩ := hkept
    have hnb : n = b := by
      by_contra hne
      have : Std.Symm fun a b : Interaction => duplicates a b = false := ⟨fun _ _ => unlike_symm⟩
      have hdiffer := List.Pairwise.forall hnew hn hb hne
      have hna := ((identity_eq_iff n a).1 hidentity).1
      exact absurd (duplicates_trans hna hab) (by simp [hdiffer])
    exact ((identity_eq_iff a b).1 (hnb ▸ hidentity.symm)).2

private theorem unrepeated_of_alike {existing new : Contract} (hexisting : Unrepeated existing.interactions)
    (hnew : Unrepeated new.interactions)
    (h : ∀ a ∈ existing.interactions, ∀ b ∈ new.interactions, duplicates a b = true → statesAlike a.states b.states = true) :
    Unrepeated (joinedContract existing new).interactions := by
  rw [unrepeated_joined, Unrepeated, List.pairwise_append]
  refine ⟨hnew, hexisting.sublist List.filter_sublist, fun b hb a ha => ?_⟩
  obtain ⟨ha, hfresh⟩ := KeyedUnion.mem_kept.1 ha
  rw [Bool.eq_false_iff]
  intro hba
  have hab := duplicates_symm b a hba
  exact hfresh b hb ((identity_eq_iff a b).2 ⟨hab, h a ha b hb hab⟩).symm

/-- Two interactions whose states are the same documents, but not written alike: some object's members in another order,
or a zero of the other sign. -/
def WrittenApart (a b : Interaction) : Prop :=
  a.description = b.description ∧ statesEq a.states b.states = true ∧ statesAlike a.states b.states = false

/-- The session's duplicates are the contract's, but for interactions written apart. A contract the session writes has
neither kind, and a merge of two has none of the contract's, and none of the session's where no interaction of the one is
written apart from one of the other. -/
theorem duplicates_iff_identity (a b : Interaction) :
    ((duplicates a b = true ↔ sameIdentity a b = true) ↔ ¬WrittenApart a b) ∧
    (∀ consumer provider interactions contract, assembled consumer provider interactions = .ok contract →
      Unrepeated contract.interactions ∧ Distinct contract) ∧
    ∀ consumer provider interactions existing, assembled consumer provider interactions = .ok existing →
      ∀ consumer' provider' interactions' new, assembled consumer' provider' interactions' = .ok new →
        ∀ merged, merge existing new = .ok merged →
          Distinct merged ∧ (Unrepeated merged.interactions ↔
            ∀ a ∈ existing.interactions, ∀ b ∈ new.interactions, ¬WrittenApart a b) := by
  have happart : ∀ a b, ¬WrittenApart a b ↔ (duplicates a b = true → statesAlike a.states b.states = true) := by
    intro a b
    simp only [WrittenApart, duplicates, Bool.and_eq_true, beq_iff_eq, not_and, Bool.not_eq_false, and_imp]
  refine ⟨?_, fun _ _ _ _ h => assembled_ok h, ?_⟩
  · rw [happart, sameIdentity, decide_eq_true_iff, identity_eq_iff]
    exact ⟨fun h hab => (h.1 hab).2, fun h => ⟨fun hab => ⟨hab, h hab⟩, And.left⟩⟩
  · intro _ _ _ existing hexisting _ _ _ new hnew merged hmerged
    obtain ⟨hexisting, hdistinct⟩ := assembled_ok hexisting
    obtain ⟨hnew, hdistinct'⟩ := assembled_ok hnew
    obtain ⟨-, -, rfl⟩ := (merge_ok_iff hdistinct').1 hmerged
    refine ⟨(KeyedUnion.joined_ordered hdistinct hdistinct').nodup, ?_⟩
    simp only [happart]
    exact ⟨fun h a ha b hb => alike_of_unrepeated hnew h ha hb, unrepeated_of_alike hexisting hnew⟩

/-- One state, its parameter a document of two members in the order given. -/
private def placed (first second : String × Json) (hnames : distinctKeys (.object [first, second]) = true) : Interaction :=
  ⟨"get order", none, some [⟨"an order exists", some [("order", ⟨.object [first, second], hnames⟩)], none⟩], [], none,
    none, ⟨[], []⟩⟩

private def asWritten : Interaction := placed ("x", .number (.posInt 1)) ("y", .number (.posInt 2)) (by decide)

private def otherWay : Interaction := placed ("y", .number (.posInt 2)) ("x", .number (.posInt 1)) (by decide)

/-- Parameters that differ in their members' order alone are duplicates to the session and two identities to a merge. -/
theorem duplicates_in_another_order :
    duplicates asWritten otherWay = true ∧ sameIdentity asWritten otherWay = false := by
  refine ⟨by decide, decide_eq_false fun h => ?_⟩
  exact absurd ((identity_eq_iff asWritten otherWay).1 h).2 (by decide)

end PactJanus.Contracts.Identity
