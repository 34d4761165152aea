import Mathlib.Data.List.Sigma
import PactJanus.Legacy.Upgrade

namespace PactJanus.Legacy.Accounting

open PactJanus.Data.Json PactJanus.Data.Equality PactJanus.Data.Spelling PactJanus.Lib PactJanus.Lib.Text PactJanus.Lib.Disambiguation
  PactJanus.Contracts.Model PactJanus.Contracts.Merge PactJanus.Contracts.Files PactJanus.Contracts.Identity
  PactJanus.Legacy.Upgrade

/-! What becomes of each interaction a pact declares, and whether those converted have identities of their own. -/

variable {η μ : Type}

/-- What becomes of a declared interaction. -/
inductive Fate where
  | converted | excluded | needsPlugins | unknown
deriving DecidableEq

def fate (options : Options) (d : Declared η μ) : Fate :=
  if d.plugins.isEmpty && d.content.isNone then .unknown
  else if options.excludePending && d.pending then .excluded
  else if d.plugins.isEmpty then .converted
  else .needsPlugins

/-- The declared interactions of one fate. -/
def ofFate (options : Options) (f : Fate) (declared : List (Declared η μ)) : List (Declared η μ) :=
  declared.filter fun d => fate options d = f

/-- An interaction of the contract that carries a declared one: its states, and its description or that description
with a position after it. -/
def Carries (d : Declared η μ) (i : Interaction) : Prop :=
  i.states = (statesOf d.providerStates).1 ∧
    (i.description = d.description ∨ ∃ at', i.description = disambiguated d.description at')

/-- Every declared interaction is one of the contract's, or has a finding of its own that says it was left out, or is
counted among those that are neither HTTP nor messages. -/
structure Accounted (options : Options) (key : String) (declared : List (Declared η μ)) (upgraded : Upgraded) : Prop where
  converted : ∃ made, upgraded.contract.interactions.Perm made ∧
    List.Forall₂ Carries (ofFate options .converted declared) made
  leftOut : ∃ excluded plugins rest, upgraded.findings = excluded ++
      (if 0 < (ofFate options .unknown declared).length then
        [unknownDropped key (ofFate options .unknown declared).length declared.length] else []) ++ plugins ++ rest ∧
    List.Forall₂ (fun d f => ∃ index, f = pendingExcluded key index d.description) (ofFate options .excluded declared)
      excluded ∧
    List.Forall₂ (fun d f => f = pluginDropped key ⟨d.description, d.pending, d.providerStates, d.plugins⟩)
      (ofFate options .needsPlugins declared) plugins

/-! The identities the converted interactions are given. -/

/-- An interaction to convert: its position, its description and its states. -/
structure Candidate where
  index : Nat
  description : String
  states : Option (List State)

namespace Candidate

def own (c : Candidate) : String × Option (List State) := (c.description, c.states)

def renamed (c : Candidate) : String × Option (List State) := (c.description ++ " (" ++ (c.index + 1).repr ++ ")", c.states)

end Candidate

def candidate (p : PactInteraction η μ × Nat) : Candidate :=
  ⟨p.2, p.1.description, (statesOf p.1.providerStates).1⟩

def converting (options : Options) (declared : List (Declared η μ)) : List (PactInteraction η μ × Nat) :=
  ((interactions declared).zipIdx.filter fun p => !isExcluded options p.1).filter fun p => (needing p.1).isNone

/-- No interaction that must be renamed is renamed to the description an earlier one has with the same states. -/
def NamesFree (options : Options) (declared : List (Declared η μ)) : Prop :=
  Free sameName Candidate.own Candidate.renamed ((converting options declared).map candidate).reverse

def nameOf (i : Interaction) : String × Option (List State) := (i.description, i.states)

theorem sameName_equality : Equality sameName where
  symm {a b} h := by
    simp only [sameName, Bool.and_eq_true, beq_iff_eq] at h ⊢
    exact ⟨h.1.symm, statesEq_symm h.2⟩
  trans {a b c} hab hbc := by
    simp only [sameName, Bool.and_eq_true, beq_iff_eq] at hab hbc ⊢
    exact ⟨hab.1.trans hbc.1, statesEq_trans hab.2 hbc.2⟩

/-- What follows the last of a mark is the same in one text. -/
private theorem after_last {α : Type} {c : α} {as bs xs ys : List α} (h : as ++ c :: xs = bs ++ c :: ys) (hx : c ∉ xs)
    (hy : c ∉ ys) : xs = ys := by
  rcases List.append_eq_append_iff.1 h with ⟨between, -, heq⟩ | ⟨between, -, heq⟩
  · cases between with
    | nil => exact (List.cons.inj heq).2
    | cons d between =>
      refine absurd ?_ hx
      rw [(List.cons.inj heq).2]
      exact List.mem_append_right _ List.mem_cons_self
  · cases between with
    | nil => exact (List.cons.inj heq).2.symm
    | cons d between =>
      refine absurd ?_ hy
      rw [(List.cons.inj heq).2]
      exact List.mem_append_right _ List.mem_cons_self

/-- A renamed description says which position it was renamed by. -/
theorem index_of_renamed {a b : Candidate} (h : a.renamed.1 = b.renamed.1) : a.index = b.index := by
  have hdigits (n : Nat) : '(' ∉ n.repr.toList := fun hmem => absurd (isDigit_of_mem_repr hmem) (by decide)
  have hlists := congrArg String.toList h
  simp only [Candidate.renamed, String.toList_append] at hlists
  have hopen : (a.description.toList ++ [' ']) ++ '(' :: (a.index + 1).repr.toList =
      (b.description.toList ++ [' ']) ++ '(' :: (b.index + 1).repr.toList := by
    simpa using List.append_cancel_right hlists
  have hsame := after_last hopen (hdigits _) (hdigits _)
  exact Nat.succ.inj (repr_injective (String.toList_inj.1 hsame))

/-! The conversion, one interaction after the other. -/

section Conversion

variable {converter : Converter η μ} {key : String}

/-- An interaction the contract holds for a candidate. -/
def CarriesCandidate (c : Candidate) (i : Interaction) : Prop :=
  i.states = c.states ∧ (i.description = c.description ∨ i.description = c.renamed.1)

theorem identity_eq_claim (description : String) (states : Option (List State)) (at' : Pointer) (seen : Seen) :
    ((Upgrade.identity description states at' seen).1, states) =
      claim sameName Candidate.own Candidate.renamed seen ⟨at'.index, description, states⟩ := by
  unfold Upgrade.identity claim
  change _ = if (seen.any fun k => sameName k (description, states)) = true then _ else _
  split <;> rfl

theorem carries_of_name {seen : Seen} {c : Candidate} {made : Interaction}
    (h : nameOf made = claim sameName Candidate.own Candidate.renamed seen c) : CarriesCandidate c made := by
  unfold claim at h
  split at h
  · exact ⟨congrArg Prod.snd h, Or.inr (congrArg Prod.fst h)⟩
  · exact ⟨congrArg Prod.snd h, Or.inl (congrArg Prod.fst h)⟩

/-- Whatever the content is, the identity given is the candidate's: its own, or the other where its own has been seen. -/
theorem convert_name {β : Type} (content : Pointer → Taken β → String → Option (List State) →
    Except Problems Converted × List Finding) (at' : Pointer) (i : Taken β) (seen : Seen) :
    let c : Candidate := ⟨at'.index, i.description, (statesOf i.providerStates).1⟩
    (convert content at' i seen).2.2 = seen ++ [claim sameName Candidate.own Candidate.renamed seen c] ∧
      ∀ made, (convert content at' i seen).1 = .ok made →
        nameOf made = claim sameName Candidate.own Candidate.renamed seen c := by
  dsimp only
  rw [← identity_eq_claim]
  refine ⟨rfl, fun made hmade => ?_⟩
  have hmap : Except.map _ (content at' i (Upgrade.identity i.description (statesOf i.providerStates).1 at' seen).1
      (statesOf i.providerStates).1).1 = .ok made := hmade
  revert hmap
  cases (content at' i _ _).1 with
  | error problems => exact nofun
  | ok converted =>
    rintro ⟨⟩
    rfl

theorem convertOne_name {p : PactInteraction η μ × Nat} {seen : Seen}
    {out : Except Problems Interaction × List Finding × Seen}
    (h : convertOne converter ⟨key, p.2⟩ p.1 seen = some out) :
    out.2.2 = seen ++ [claim sameName Candidate.own Candidate.renamed seen (candidate p)] ∧
      ∀ made, out.1 = .ok made → nameOf made = claim sameName Candidate.own Candidate.renamed seen (candidate p) := by
  obtain ⟨i, index⟩ := p
  cases i with
  | needsPlugins needs => exact nomatch h
  | http i =>
    obtain rfl := Option.some.inj h
    exact convert_name converter.http ⟨key, index⟩ i seen
  | message i =>
    obtain rfl := Option.some.inj h
    exact convert_name converter.message ⟨key, index⟩ i seen

/-- Where nothing is found wrong, each interaction to convert is one that is made, with the name it is given in turn. -/
theorem convertAll_names {placed : List (PactInteraction η μ × Nat)} (hconvertible : ∀ p ∈ placed, needing p.1 = none)
    (before : List Candidate) {seen : Seen} (hseen : seen = (names sameName Candidate.own Candidate.renamed before).reverse)
    (hproblems : (convertAll converter key placed seen).2.1 = []) :
    seen ++ (convertAll converter key placed seen).1.map nameOf =
        (names sameName Candidate.own Candidate.renamed ((placed.map candidate).reverse ++ before)).reverse ∧
      List.Forall₂ (fun p i => CarriesCandidate (candidate p) i) placed (convertAll converter key placed seen).1 := by
  induction placed generalizing before seen with
  | nil => exact ⟨by simp [convertAll, hseen], List.Forall₂.nil⟩
  | cons p placed ih =>
    obtain ⟨i, index⟩ := p
    cases hone : convertOne converter ⟨key, index⟩ i seen with
    | none =>
      have hnone := hconvertible _ List.mem_cons_self
      cases i <;> first | exact nomatch (show some _ = none from hnone) | exact nomatch (show some _ = none from hone)
    | some out =>
      obtain ⟨hseen', hname⟩ := convertOne_name (p := (i, index)) hone
      obtain ⟨converted, found, seen'⟩ := out
      rw [convertAll, hone] at hproblems ⊢
      dsimp only at hproblems ⊢ hseen' hname
      cases converted with
      | error errors => exact absurd (List.append_eq_nil_iff.1 hproblems).1 errors.property
      | ok made =>
        dsimp only at hproblems ⊢
        have hmade := hname made rfl
        have hnext : claim sameName Candidate.own Candidate.renamed seen (candidate (i, index)) =
            claim sameName Candidate.own Candidate.renamed (names sameName Candidate.own Candidate.renamed before)
              (candidate (i, index)) := by
          rw [claim, claim, hseen, List.any_reverse]
        obtain ⟨hnames, hcarries⟩ := ih (fun q hq => hconvertible q (List.mem_cons_of_mem _ hq))
          (candidate (i, index) :: before) (by rw [hseen', hnext, hseen, names, List.reverse_cons]) hproblems
        refine ⟨?_, List.Forall₂.cons (carries_of_name hmade) hcarries⟩
        rw [List.map_cons, hmade, List.append_cons, ← hseen', hnames, List.map_cons, List.reverse_cons,
          List.append_assoc, List.singleton_append]

end Conversion

/-! The interactions of each fate, and those a conversion handles in each way. -/

/-- Where a test of the interactions taken on is a test of those declared, it picks out the same ones. -/
private theorem selected {f : Declared η μ → Bool} {q : PactInteraction η μ → Bool}
    (hnone : ∀ d, takenOn d = none → f d = false) (hsome : ∀ d i, takenOn d = some i → f d = q i)
    (declared : List (Declared η μ)) (k : Nat) :
    List.Forall₂ (fun d p => takenOn d = some p.1) (declared.filter f)
      (((interactions declared).zipIdx k).filter fun p => q p.1) := by
  induction declared generalizing k with
  | nil => exact List.Forall₂.nil
  | cons d declared ih =>
    cases htaken : takenOn d with
    | none =>
      rw [List.filter_cons_of_neg (by simp [hnone d htaken]), interactions, List.filterMap_cons_none htaken]
      exact ih k
    | some i =>
      rw [interactions, List.filterMap_cons_some htaken, List.zipIdx_cons]
      cases hq : q i with
      | false =>
        rw [List.filter_cons_of_neg (by simp [hsome d i htaken, hq]), List.filter_cons_of_neg (by simp [hq])]
        exact ih (k + 1)
      | true =>
        rw [List.filter_cons_of_pos ((hsome d i htaken).trans hq), List.filter_cons_of_pos (by exact hq)]
        exact List.Forall₂.cons htaken (ih (k + 1))

private theorem takenOn_fate (options : Options) {d : Declared η μ} {i : PactInteraction η μ} (h : takenOn d = some i) :
    fate options d = if isExcluded options i then .excluded else if (needing i).isNone then .converted else .needsPlugins := by
  obtain ⟨description, pending, providerStates, plugins, content⟩ := d
  cases plugins with
  | cons plugin plugins =>
    obtain rfl := Option.some.inj h
    simp [fate, isExcluded, needing, PactInteraction.pending]
  | nil =>
    rcases content with _ | (http | message)
    · exact nomatch h
    all_goals
      obtain rfl := Option.some.inj h
      simp [fate, isExcluded, needing, PactInteraction.pending]

private theorem fate_unknown (options : Options) {d : Declared η μ} (h : takenOn d = none) : fate options d = .unknown := by
  obtain ⟨description, pending, providerStates, plugins, content⟩ := d
  cases plugins with
  | cons plugin plugins => exact nomatch h
  | nil =>
    rcases content with _ | (http | message)
    · rfl
    all_goals exact nomatch h

/-- The interactions of a fate other than the unknown's are those taken on that a test picks out. -/
private theorem ofFate_selected (options : Options) {f : Fate} {q : PactInteraction η μ → Bool} (hf : f ≠ .unknown)
    (hq : ∀ i, (if isExcluded options i then Fate.excluded else if (needing i).isNone then .converted else .needsPlugins) = f ↔
      q i = true) (declared : List (Declared η μ)) :
    List.Forall₂ (fun d p => takenOn d = some p.1) (ofFate options f declared)
      ((interactions declared).zipIdx.filter fun p => q p.1) := by
  refine selected (fun d hnone => ?_) (fun d i hsome => ?_) declared 0
  · rw [fate_unknown options hnone]
    exact decide_eq_false hf.symm
  · rw [takenOn_fate options hsome, Bool.eq_iff_iff, decide_eq_true_iff]
    exact hq i

/-- Every declared interaction has one fate. -/
theorem length_by_fate (options : Options) (declared : List (Declared η μ)) :
    declared.length = (ofFate options .excluded declared).length + (ofFate options .converted declared).length +
      (ofFate options .needsPlugins declared).length + (ofFate options .unknown declared).length := by
  induction declared with
  | nil => rfl
  | cons d declared ih =>
    simp only [ofFate, List.filter_cons, List.length_cons] at ih ⊢
    cases fate options d <;> simp only [decide_true, reduceCtorEq, decide_false, if_true, Bool.false_eq_true, if_false,
      List.length_cons] <;> omega

/-- An interaction taken on is described as the declared one is. -/
private theorem takenOn_described {d : Declared η μ} {i : PactInteraction η μ} (h : takenOn d = some i) :
    i.description = d.description ∧ i.providerStates = d.providerStates ∧
      ∀ needs, needing i = some needs → needs = ⟨d.description, d.pending, d.providerStates, d.plugins⟩ := by
  obtain ⟨description, pending, providerStates, plugins, content⟩ := d
  cases plugins with
  | cons plugin plugins =>
    obtain rfl := Option.some.inj h
    exact ⟨rfl, rfl, fun needs hneeds => (Option.some.inj hneeds).symm⟩
  | nil =>
    rcases content with _ | (http | message)
    · exact nomatch h
    all_goals
      obtain rfl := Option.some.inj h
      exact ⟨rfl, rfl, nofun⟩

private theorem forall₂_filterMap {α β γ : Type} {r : α → β → Prop} {g : β → Option γ} {as : List α} {bs : List β}
    (h : List.Forall₂ r as (bs.filter fun b => (g b).isSome)) :
    List.Forall₂ (fun a c => ∃ b, r a b ∧ g b = some c) as (bs.filterMap g) := by
  induction bs generalizing as with
  | nil =>
    obtain rfl := List.forall₂_nil_right_iff.1 h
    exact List.Forall₂.nil
  | cons b bs ih =>
    cases hg : g b with
    | none =>
      rw [List.filter_cons_of_neg (by simp [hg])] at h
      rw [List.filterMap_cons_none hg]
      exact ih h
    | some c =>
      rw [List.filter_cons_of_pos (by simp [hg])] at h
      rw [List.filterMap_cons_some hg]
      cases h with
      | cons hab hrest => exact List.Forall₂.cons ⟨b, hab, hg⟩ (ih hrest)

private theorem forall₂_trans {α β γ : Type} {r : α → β → Prop} {s : β → γ → Prop} {t : α → γ → Prop}
    (hrs : ∀ {a b c}, r a b → s b c → t a c) {as : List α} {bs : List β} {cs : List γ} (hr : List.Forall₂ r as bs)
    (hs : List.Forall₂ s bs cs) : List.Forall₂ t as cs := by
  induction hr generalizing cs with
  | nil =>
    cases hs
    exact List.Forall₂.nil
  | cons hab _ ih =>
    cases hs with
    | cons hbc hrest => exact List.Forall₂.cons (hrs hab hbc) (ih hrest)

private theorem carries_of_candidate {d : Declared η μ} {p : PactInteraction η μ × Nat} {i : Interaction}
    (htaken : takenOn d = some p.1) (h : CarriesCandidate (candidate p) i) : Carries d i := by
  obtain ⟨hdescription, hstates, -⟩ := takenOn_described htaken
  obtain ⟨hi, hname⟩ := h
  refine ⟨hi.trans (congrArg (fun ps => (statesOf ps).1) hstates), ?_⟩
  rcases hname with hown | hrenamed
  · exact Or.inl (hown.trans hdescription)
  · exact Or.inr ⟨⟨"", p.2⟩, by rw [hrenamed, disambiguated, ← hdescription]; rfl⟩

/-! The whole conversion. -/

section Pact

variable (converter : Converter η μ) (consumer provider : Party) (key : String) (options : Options)
  (declared : List (Declared η μ)) {upgraded : Upgraded}

private theorem converting_selected : List.Forall₂ (fun d p => takenOn d = some p.1) (ofFate options .converted declared)
    (converting options declared) := by
  rw [converting, List.filter_filter]
  refine ofFate_selected options (f := .converted) (q := fun i => (needing i).isNone && !isExcluded options i) nofun
    (fun i => ?_) declared
  cases isExcluded options i <;> cases (needing i).isNone <;> decide

private theorem excluded_selected : List.Forall₂ (fun d p => takenOn d = some p.1) (ofFate options .excluded declared)
    ((interactions declared).zipIdx.filter fun p => isExcluded options p.1) := by
  refine ofFate_selected options (f := .excluded) nofun (fun i => ?_) declared
  cases isExcluded options i <;> cases (needing i).isNone <;> decide

private theorem plugins_selected : List.Forall₂ (fun d needs => needs = ⟨d.description, d.pending, d.providerStates, d.plugins⟩)
    (ofFate options .needsPlugins declared)
    (((interactions declared).zipIdx.filter fun p => !isExcluded options p.1).filterMap fun p => needing p.1) := by
  have hselected := ofFate_selected options (f := .needsPlugins)
    (q := fun i => (needing i).isSome && !isExcluded options i) nofun (fun i => by
      cases isExcluded options i <;> cases needing i <;> simp) declared
  rw [← List.filter_filter] at hselected
  refine (forall₂_filterMap hselected).imp ?_
  rintro d needs ⟨p, htaken, hneeds⟩
  exact (takenOn_described htaken).2.2 needs hneeds

private theorem converting_needs {p : PactInteraction η μ × Nat} (h : p ∈ converting options declared) :
    needing p.1 = none := Option.isNone_iff_eq_none.1 (List.mem_filter.1 h).2

private theorem renamed_apart : ((converting options declared).map candidate).reverse.Pairwise fun a b =>
    sameName b.renamed a.renamed = false := by
  have hindices : ((converting options declared).map Prod.snd).Nodup :=
    ((List.filter_sublist.trans List.filter_sublist).map Prod.snd).nodup (List.nodup_zipIdx_map_snd _)
  rw [List.pairwise_reverse, List.pairwise_map]
  refine (List.pairwise_map.1 hindices).imp fun {p q} hpq => ?_
  refine Bool.eq_false_iff.2 fun hsame => hpq ?_
  rw [sameName, Bool.and_eq_true, beq_iff_eq] at hsame
  exact index_of_renamed (a := candidate p) (b := candidate q) hsame.1

variable {converter consumer provider key options declared}

/-- A converted contract has no two interactions of one identity exactly where the names are free. -/
theorem unrepeated_iff {made : List Interaction} (hmade : (convertAll converter key (converting options declared) []).2.1 = [])
    (hsort : made = sort (convertAll converter key (converting options declared) []).1) :
    Unrepeated made ↔ NamesFree options declared := by
  obtain ⟨hnames, -⟩ := convertAll_names (fun p => converting_needs options declared) [] (show ([] : Seen) = _ from rfl) hmade
  rw [List.append_nil, List.nil_append] at hnames
  rw [Unrepeated, hsort, sort, (KeyedUnion.inOrder_perm _).pairwise_iff unlike_symm, NamesFree,
    ← names_distinct_iff sameName_equality (renamed_apart options declared)]
  have hlist := congrArg (List.Pairwise fun a b => sameName b a = false) hnames
  rw [List.pairwise_reverse, List.pairwise_map] at hlist
  refine Iff.trans ?_ (iff_of_eq hlist)
  exact List.Pairwise.iff fun a b => by
    rw [sameName_equality.comm]
    rfl

private theorem pactWith_ok (h : pactWith converter consumer provider key declared options = .ok upgraded) :
    (convertAll converter key (converting options declared) []).2.1 = [] ∧
      upgraded.contract.interactions = sort (convertAll converter key (converting options declared) []).1 ∧
      upgraded.findings = (((interactions declared).zipIdx.filter fun p => isExcluded options p.1).map fun p =>
          pendingExcluded key p.2 p.1.description) ++
        (if 0 < (ofFate options .unknown declared).length then
          [unknownDropped key (ofFate options .unknown declared).length declared.length] else []) ++
        (((interactions declared).zipIdx.filter fun p => !isExcluded options p.1).filterMap fun p => needing p.1).map
          (pluginDropped key) ++
        (convertAll converter key (converting options declared) []).2.2 := by
  have hunknown : declared.length - ((interactions declared).zipIdx.filter fun p => isExcluded options p.1).length -
      (converting options declared).length -
      (((interactions declared).zipIdx.filter fun p => !isExcluded options p.1).filterMap fun p => needing p.1).length =
      (ofFate options .unknown declared).length := by
    rw [← (excluded_selected options declared).length_eq, ← (converting_selected options declared).length_eq,
      ← (plugins_selected options declared).length_eq]
    have hfates := length_by_fate options declared
    omega
  simp only [converting] at hunknown ⊢
  simp only [pactWith, hunknown] at h
  split at h
  · exact nomatch h
  · rename_i hnone
    obtain rfl := Except.ok.inj h
    exact ⟨by simpa using hnone, rfl, rfl⟩

/-- Nothing a pact declares is lost. -/
theorem accounted (h : pactWith converter consumer provider key declared options = .ok upgraded) :
    Accounted options key declared upgraded := by
  obtain ⟨hproblems, hinteractions, hfindings⟩ := pactWith_ok h
  obtain ⟨-, hcarried⟩ := convertAll_names (fun p => converting_needs options declared) [] (show ([] : Seen) = _ from rfl) hproblems
  have hperm : upgraded.contract.interactions.Perm (convertAll converter key (converting options declared) []).1 := by
    rw [hinteractions]
    exact KeyedUnion.inOrder_perm _
  refine ⟨⟨_, hperm, ?_⟩, ⟨_, _, _, hfindings, ?_, ?_⟩⟩
  · exact forall₂_trans (s := fun p i => CarriesCandidate (candidate p) i) carries_of_candidate
      (converting_selected options declared) hcarried
  · rw [List.forall₂_map_right_iff]
    exact (excluded_selected options declared).imp fun d p htaken => ⟨p.2, by rw [(takenOn_described htaken).1]⟩
  · rw [List.forall₂_map_right_iff]
    exact (plugins_selected options declared).imp fun d needs hneeds => congrArg _ hneeds

/-- A conversion accounts for every interaction the pact declares, and the contract's have identities of their own
exactly where no interaction that must be renamed is renamed to the description an earlier one has with the same
states. -/
theorem upgrade_keeps_interactions_apart_iff
    (h : pactWith converter consumer provider key declared options = .ok upgraded) :
    (Accounted options key declared upgraded ∧ Unrepeated upgraded.contract.interactions) ↔ NamesFree options declared := by
  obtain ⟨hproblems, hinteractions, -⟩ := pactWith_ok h
  rw [← unrepeated_iff hproblems hinteractions]
  exact and_iff_right (accounted h)

end Pact

/-- A conversion of contents that finds nothing to say of any. -/
private def plain : Converter Unit Unit where
  http _ _ _ _ := (.ok ⟨none, [], none, none, ⟨[], []⟩⟩, [])
  message _ _ _ _ := (.ok ⟨none, [], none, none, ⟨[], []⟩⟩, [])

private def get (description : String) : Declared Unit Unit := ⟨description, false, [], [], some (.inl ())⟩

private def withPlugin : List (Declared Unit Unit) := [get "a", get "a", ⟨"b", false, [], ["csv"], none⟩]

/-- Two interactions of one description and one that needs a plugin: the second is renamed, the third is left out. -/
theorem upgrade_keeps_interactions_apart_iff_renamed :
    ∃ upgraded, pactWith plain ⟨"shop"⟩ ⟨"stock"⟩ "interactions" withPlugin ⟨false⟩ = .ok upgraded ∧
      ((Accounted ⟨false⟩ "interactions" withPlugin upgraded ∧ Unrepeated upgraded.contract.interactions) ↔
        NamesFree ⟨false⟩ withPlugin) := by
  obtain ⟨upgraded, h⟩ : ∃ upgraded, pactWith plain ⟨"shop"⟩ ⟨"stock"⟩ "interactions" withPlugin ⟨false⟩ = .ok upgraded :=
    ⟨_, rfl⟩
  exact ⟨upgraded, h, upgrade_keeps_interactions_apart_iff h⟩

/-- A third interaction renamed by its position takes the description the second was written with. -/
theorem renamed_to_an_earlier_description :
    ∃ upgraded, pactWith plain ⟨"shop"⟩ ⟨"stock"⟩ "interactions" [get "a", get "a (3)", get "a"] ⟨false⟩ = .ok upgraded ∧
      ¬Unrepeated upgraded.contract.interactions := by
  refine ⟨_, rfl, fun h => ?_⟩
  have hconverted : (convertAll plain "interactions" (converting ⟨false⟩ [get "a", get "a (3)", get "a"]) []).2.1 = [] := rfl
  have hfree : NamesFree ⟨false⟩ [get "a", get "a (3)", get "a"] := (unrepeated_iff hconverted rfl).1 h
  exact absurd hfree (by unfold NamesFree; decide +kernel)

end PactJanus.Legacy.Accounting
