import PactJanus.Compatibility.Decide
import PactJanus.Variant.Params

namespace PactJanus.Variant.Rebinding

open PactJanus.Data.Json PactJanus.Data.Equality PactJanus.Lib.Lists PactJanus.Lib.Collect PactJanus.Contracts.Canonical
  PactJanus.Contracts.Model PactJanus.Compatibility.Decide PactJanus.Shape PactJanus.Shape.VariantSpace
  PactJanus.Plan.Compile PactJanus.Variant.Assignment PactJanus.Variant.References PactJanus.Variant.Params

/-! The bindings a contract records, each with the id its dimension has, and what binding them again gives. -/

/-- An entry with the dimension it resolved to. -/
def withDimension (id : String) : Json → Json
  | .object members => .object (setMember "dimension" (.string id) members)
  | other => other

theorem distinctKeys_withDimension (id : String) {v : Json} (hv : distinctKeys v = true) :
    distinctKeys (withDimension id v) = true := by
  cases v with
  | object members =>
    obtain ⟨hd, hmembers⟩ := distinctKeys_object.1 hv
    refine distinctKeys_object.2 ⟨setMember_nodup hd, fun p hp => ?_⟩
    rcases mem_of_mem_setMember hp with rfl | hp
    · rfl
    · exact hmembers p hp
  | _ => exact hv

def resolveEntry (entry : Document) (b : Binding) : Document :=
  ⟨withDimension b.dimension entry.val, distinctKeys_withDimension b.dimension entry.property⟩

/-- The entries that have a binding with its dimension, those after them as they are. -/
def resolveEntries : List Document → List Binding → List Document
  | entry :: entries, b :: bindings => resolveEntry entry b :: resolveEntries entries bindings
  | entries, _ => entries

/-- The states with every binding's dimension replaced by the id it resolved to. -/
def withResolvedDimensions (states : List State) (bound : List (List Binding)) : List State :=
  List.zipWith (fun state bindings =>
    { state with variantParams := state.variantParams.map fun entries => resolveEntries entries bindings }) states bound

/-- An entry as its contract writes it. -/
def writtenEntry (entry : Document) : Document := ⟨binding entry.val, (same_binding entry.property).2⟩

/-- The states of a contract, as they are read from what was written of them. -/
def recorded (states : List State) (bound : List (List Binding)) : List State :=
  (withResolvedDimensions states bound).map fun state =>
    { state with variantParams := state.variantParams.map (List.map writtenEntry) }

/-- One parameter bound to one dimension with the same cases. -/
structure Agrees (b b' : Binding) : Prop where
  name : b'.name = b.name
  dimension : b'.dimension = b.dimension
  cases : b'.cases = b.cases
  default : b'.default = b.default

/-- A dimension whose id refers to it and to nothing else. -/
def NamedAlone (space : List Dimension) (d : Dimension) : Prop :=
  d.id ≠ "" ∧ ∀ e ∈ space, refersTo d.id e = true → e = d

/-- Every dimension an entry's reference names is named alone by its id. -/
def KeepsDimension (space : List Dimension) (entry : Document) : Prop :=
  ∀ reference, nonEmpty "dimension" entry.val = some reference → ∀ d ∈ space, refersTo reference d = true →
    NamedAlone space d

/-! What is read of a recorded entry. -/

private theorem get_withDimension {id name : String} {v : Json} (hobject : ∃ members, v = .object members) :
    get name (withDimension id v) = if name = "dimension" then some (.string id) else get name v := by
  obtain ⟨members, rfl⟩ := hobject
  exact lookup_setMember

private theorem asStr_sorted (v : Json) : asStr (sorted v) = asStr v := by cases v <;> rfl

private theorem nonEmpty_congr {name : String} {v w : Json} (h : (get name v).bind asStr = (get name w).bind asStr) :
    nonEmpty name v = nonEmpty name w := by
  rw [nonEmpty, nonEmpty, h]

private theorem nonEmpty_binding {v : Json} (hv : distinctKeys v = true) {name : String} (hcases : name ≠ "cases")
    (hdefault : name ≠ "default") : nonEmpty name (binding v) = nonEmpty name v := by
  apply nonEmpty_congr
  rw [binding, get_written hv]
  cases get name v with
  | none => rfl
  | some member =>
    simp only [Option.map_some, Option.bind_some]
    split
    · exact absurd rfl hdefault
    · exact absurd rfl hcases
    · exact asStr_sorted member

private theorem get_default_binding {v : Json} (hv : distinctKeys v = true) :
    get "default" (binding v) = get "default" v := by
  rw [binding, get_written hv]
  cases get "default" v <;> rfl

private theorem get_cases_binding {v : Json} (hv : distinctKeys v = true) {raw : List Json} :
    get "cases" v = some (.array raw) → get "cases" (binding v) = some (.array (raw.map case)) := by
  intro h
  rw [binding, get_written hv, h]
  rfl

private theorem readsCase_case {d : Dimension} {raw : Json} {c : Case} (hraw : distinctKeys raw = true)
    (h : ReadsCase d raw c) : ReadsCase d (case raw) c := by
  refine ⟨Eq.trans ?_ h.point, Eq.trans ?_ h.value, h.known⟩
  · apply nonEmpty_congr
    rw [case, get_written hraw]
    cases get "point" raw with
    | none => rfl
    | some member => exact asStr_sorted member
  · rw [case, get_written hraw]
    cases get "value" raw <;> rfl

private theorem forall₂_case {d : Dimension} {raw : List Json} {cases : List Case}
    (hraw : ∀ r ∈ raw, distinctKeys r = true) (h : List.Forall₂ (ReadsCase d) raw cases) :
    List.Forall₂ (ReadsCase d) (raw.map case) cases := by
  induction h with
  | nil => exact List.Forall₂.nil
  | cons hc _ ih =>
    obtain ⟨hr, hrest⟩ := List.forall_mem_cons.1 hraw
    exact List.Forall₂.cons (readsCase_case hr hc) (ih hrest)

private theorem distinctKeys_get {v member : Json} {name : String} (hv : distinctKeys v = true)
    (h : get name v = some member) : distinctKeys member = true := by
  cases v with
  | object members => exact (distinctKeys_object.1 hv).2 _ (mem_of_lookup h)
  | _ => exact nomatch h

private theorem readsCases_binding {d : Dimension} {v : Json} {cases : List Case} (hv : distinctKeys v = true)
    (h : ReadsCases d v cases) : ReadsCases d (binding v) cases := by
  obtain ⟨raw, hne, hraw, hcases⟩ := h
  have hdistinct := distinctKeysAll_iff.1 (distinctKeys_get hv hraw)
  exact ⟨raw.map case, mt List.map_eq_nil_iff.1 hne, get_cases_binding hv hraw, forall₂_case hdistinct hcases⟩

/-- An entry as it is recorded with the dimension of its binding. -/
def recordEntry (entry : Document) (b : Binding) : Document := writtenEntry (resolveEntry entry b)

private theorem isObject_of_name {v : Json} {name : String} (h : nonEmpty "name" v = some name) :
    ∃ members, v = .object members := by
  cases v with
  | object members => exact ⟨members, rfl⟩
  | _ => exact nomatch h

section Entry

variable {state state' : State} {space : List Dimension} {entry : Document} {b : Binding}

private theorem nonEmpty_recordEntry (h : Binds state space entry.val b) {name : String} (hdimension : name ≠ "dimension")
    (hcases : name ≠ "cases") (hdefault : name ≠ "default") :
    nonEmpty name (recordEntry entry b).val = nonEmpty name entry.val := by
  refine (nonEmpty_binding (resolveEntry entry b).property hcases hdefault).trans (nonEmpty_congr ?_)
  rw [resolveEntry, get_withDimension (isObject_of_name h.name), if_neg hdimension]

private theorem dimension_recordEntry (h : Binds state space entry.val b) :
    nonEmpty "dimension" (recordEntry entry b).val = (some b.dimension).filter fun s => s ≠ "" := by
  refine (nonEmpty_binding (resolveEntry entry b).property (by decide) (by decide)).trans ?_
  rw [nonEmpty, resolveEntry, get_withDimension (isObject_of_name h.name), if_pos rfl]
  rfl

private theorem get_resolveEntry (h : Binds state space entry.val b) {name : String} (hdimension : name ≠ "dimension") :
    get name (resolveEntry entry b).val = get name entry.val := by
  rw [resolveEntry, get_withDimension (isObject_of_name h.name), if_neg hdimension]

private theorem refersTo_id (d : Dimension) : refersTo d.id d = true := by
  rw [refersTo, beq_self_eq_true, Bool.true_or, Bool.true_or]

private theorem mem_of_refersTo {reference : String} {d : Dimension} (hd : d ∈ space) (h : refersTo reference d = true)
    {e : Dimension} (halone : space.filter (refersTo reference) = [e]) : d = e :=
  List.mem_singleton.1 (halone ▸ List.mem_filter.2 ⟨hd, h⟩)

/-- An entry is bound again to the dimension it was bound to where the id it is recorded with names that alone. -/
theorem rebinds_iff (hparams : state'.params = state.params) (h : Binds state space entry.val b) :
    (∃ b', Binds state' space (recordEntry entry b).val b' ∧ Agrees b b') ↔ KeepsDimension space entry := by
  obtain ⟨d, hd, hid, hcases, hgates⟩ := h.dimension
  have hmem : d ∈ space ∧ refersTo b.reference d = true := List.mem_filter.1 (hd ▸ List.mem_singleton_self d)
  constructor
  · rintro ⟨b', hb', hagrees⟩ reference hreference e he href
    obtain rfl : b.reference = reference := Option.some.inj (h.reference.symm.trans hreference)
    obtain rfl := mem_of_refersTo he href hd
    obtain ⟨f, hf, hfid, -, -⟩ := hb'.dimension
    obtain ⟨hb'id, hne⟩ := Option.filter_eq_some_iff.1 ((dimension_recordEntry h).symm.trans hb'.reference)
    have hreference' : b'.reference = e.id := (Option.some.inj hb'id).symm.trans hid.symm
    rw [hreference'] at hf hne
    obtain rfl := mem_of_refersTo he (refersTo_id e) hf
    exact ⟨of_decide_eq_true hne, fun g hg hgref => mem_of_refersTo hg hgref hf⟩
  · intro hkeeps
    obtain ⟨hne, halone⟩ := hkeeps b.reference h.reference d hmem.1 hmem.2
    refine ⟨{ b with reference := b.dimension }, ⟨?_, ?_, ?_, ?_, d, ?_, hid, ?_, hgates⟩, rfl, rfl, rfl, rfl⟩
    · exact (nonEmpty_recordEntry h (by decide) (by decide) (by decide)).trans h.name
    · rw [dimension_recordEntry h, ← hid]
      exact Option.filter_eq_some_iff.2 ⟨rfl, decide_eq_true hne⟩
    · rw [isLiteral, hparams]
      exact h.fresh
    · exact (get_default_binding (resolveEntry entry b).property).trans
        ((get_resolveEntry h (by decide)).trans h.default)
    · rw [← hd, ← hid]
      apply List.filter_congr
      intro e he
      rw [Bool.eq_iff_iff]
      constructor
      · intro href
        exact halone e he href ▸ hmem.2
      · intro href
        exact mem_of_refersTo he href hd ▸ refersTo_id e
    · apply readsCases_binding (resolveEntry entry b).property
      obtain ⟨raw, hraw, hget, hall⟩ := hcases
      exact ⟨raw, hraw, (get_resolveEntry h (by decide)).trans hget, hall⟩

end Entry

/-! Every entry of every state. -/

/-- A state as its contract holds it, each of its entries with the dimension of its binding. -/
def recordState (state : State) (bindings : List Binding) : State :=
  { state with variantParams := state.variantParams.map fun entries => (resolveEntries entries bindings).map writtenEntry }

private theorem recorded_eq (states : List State) (bound : List (List Binding)) :
    recorded states bound = List.zipWith recordState states bound := by
  rw [recorded, withResolvedDimensions, List.map_zipWith]
  apply congrArg (fun f => List.zipWith f states bound)
  funext state bindings
  cases hentries : state.variantParams <;> simp [recordState, hentries]

private theorem map_resolveEntries {entries : List Document} {bindings : List Binding}
    (h : entries.length = bindings.length) :
    (resolveEntries entries bindings).map writtenEntry = List.zipWith recordEntry entries bindings := by
  induction entries generalizing bindings with
  | nil => rfl
  | cons entry entries ih =>
    cases bindings with
    | nil => exact absurd h (Nat.succ_ne_zero _)
    | cons b bindings =>
      rw [resolveEntries, List.map_cons, ih (Nat.succ.inj h)]
      rfl

private theorem entries_recordState {state : State} {bindings : List Binding}
    (h : (entries state).length = bindings.length) :
    entries (recordState state bindings) = List.zipWith recordEntry (entries state) bindings := by
  unfold entries recordState
  cases hentries : state.variantParams with
  | none => rfl
  | some raw =>
    rw [entries, hentries] at h
    exact map_resolveEntries h

variable {states : List State} {space : List Dimension} {bound : List (List Binding)} {pointerBase : String}

/-- The recorded states are bound to the same dimensions and cases where every id they are recorded with names its
dimension alone. -/
theorem bind_recorded_iff (h : bind states space pointerBase = .ok bound) :
    (∃ again, bind (recorded states bound) space pointerBase = .ok again ∧
        List.Forall₂ (List.Forall₂ Agrees) bound again) ↔
      ∀ state ∈ states, ∀ entry ∈ entries state, KeepsDimension space entry := by
  simp only [bind_ok_iff, recorded_eq]
  apply forall₂_again_iff (bind_ok_iff.1 h)
  intro state bindings hbindings
  rw [entries_recordState hbindings.length_eq]
  have hparams : (recordState state bindings).params = state.params := rfl
  exact forall₂_again_iff hbindings fun entry b hb => rebinds_iff hparams hb

private theorem resolveParam_agrees {b b' : Binding} (h : Agrees b b') (α : Assignment) (params : List (String × Json)) :
    resolveParam α params b' = resolveParam α params b := by
  obtain ⟨hname, hdimension, hcases, hdefault⟩ := h
  simp only [resolveParam, resolveBinding, hname, hdimension, hcases, hdefault]

private theorem resolveState_agrees {bindings again : List Binding} (h : List.Forall₂ Agrees bindings again)
    (α : Assignment) (state : State) (other : List Binding) :
    resolveState α (recordState state other) again = resolveState α state bindings := by
  have hfold (params : List (String × Json)) :
      again.foldl (resolveParam α) params = bindings.foldl (resolveParam α) params := by
    induction h generalizing params with
    | nil => rfl
    | cons hb _ ih =>
      rw [List.foldl_cons, List.foldl_cons, resolveParam_agrees hb]
      exact ih _
  simp only [resolveState, recordState, hfold]

/-- Where the recorded states are bound alike, they are resolved alike. -/
theorem resolveStates_recorded (h : bind states space pointerBase = .ok bound) {again : List (List Binding)}
    (hagain : bind (recorded states bound) space pointerBase = .ok again)
    (hagree : List.Forall₂ (List.Forall₂ Agrees) bound again) (α : Assignment) :
    resolveStates (some (recorded states bound)) space α = resolveStates (some states) space α := by
  have hbound : bind states space "/states" = .ok bound := bind_ok_iff.2 (bind_ok_iff.1 h)
  have hagain' : bind (recorded states bound) space "/states" = .ok again := bind_ok_iff.2 (bind_ok_iff.1 hagain)
  rw [recorded_eq] at hagain'
  simp only [resolveStates, Option.map_some, hbound, recorded_eq, hagain']
  apply congrArg some
  clear h hagain hbound hagain'
  induction hagree generalizing states with
  | nil => simp
  | cons hstate _ ih =>
    cases states with
    | nil => rfl
    | cons state states =>
      rw [List.zipWith_cons_cons, List.zipWith_cons_cons, List.zipWith_cons_cons, resolveState_agrees hstate, ih]

/-- A document that is accepted is bound and resolved alike once it is recorded, where and only where every dimension its
references name is named alone by its id. -/
theorem recorded_alike_iff (h : bind states space pointerBase = .ok bound) :
    ((∃ again, bind (recorded states bound) space pointerBase = .ok again ∧
          List.Forall₂ (List.Forall₂ Agrees) bound again) ∧
        ∀ α, resolveStates (some (recorded states bound)) space α = resolveStates (some states) space α) ↔
      ∀ state ∈ states, ∀ entry ∈ entries state, KeepsDimension space entry := by
  rw [← bind_recorded_iff h]
  constructor
  · rintro ⟨halike, -⟩
    exact halike
  · rintro ⟨again, hagain, hagree⟩
    exact ⟨⟨again, hagain, hagree⟩, resolveStates_recorded h hagain hagree⟩

/-- Where no path holds the mark that comes before an id's facet, every dimension is named alone by its id. -/
theorem namedAlone_of_plain (hd : (space.map Dimension.id).Nodup)
    (hid : ∀ d ∈ space, d.id = Path.dimensionId d.path d.facet.text) (hplain : ∀ d ∈ space, '#' ∉ d.path.toList)
    {d : Dimension} (h : d ∈ space) : NamedAlone space d := by
  have hmark : '#' ∈ d.id.toList := by
    rw [hid d h, Path.dimensionId, String.toList_append, String.toList_append]
    exact List.mem_append_left _ (List.mem_append_right _ (List.mem_singleton_self '#'))
  refine ⟨fun hempty => ?_, fun e he href => ?_⟩
  · rw [hempty] at hmark
    exact absurd hmark List.not_mem_nil
  · by_contra hne
    have hids : e.id ≠ d.id := fun heq => hne (List.inj_on_of_nodup_map hd he h heq)
    exact hplain e he (mem_path_of_refersTo href hids hmark)

open PactJanus.Shape.Model

/-- A body with a member of its own, and one that is called as the first one's dimension is. -/
private def marked : List Dimension :=
  computeMany [("response.body",
    .of (.object [("sent", .of (.optional (.of .any))), ("sent#presence", .of (.optional (.of .any)))]))]

private def sent : List State :=
  [⟨"an order exists", none, some [⟨.object [("name", .string "sent"), ("dimension", .string "sent"),
    ("cases", .array [.object [("point", .string "present"), ("value", .bool true)]])], by decide⟩]⟩]

private def bothPresent : Assignment :=
  [("response.body.sent#presence", "present"), ("response.body.sent#presence#presence", "present")]

theorem recorded_ambiguous :
    (marked.map Dimension.id).Nodup ∧ CompleteFor marked bothPresent ∧
      ∃ bound, bind sent marked "/states" = .ok bound ∧
        (∃ problems, bind (recorded sent bound) marked "/states" = .error problems) ∧
        resolveStates (some (recorded sent bound)) marked bothPresent ≠ resolveStates (some sent) marked bothPresent := by
  refine ⟨by decide, ⟨by decide, by decide⟩, _, rfl, ⟨_, rfl⟩, fun h => ?_⟩
  have hparams := congrArg (Option.map (List.map fun state => state.params.isSome)) h
  exact absurd hparams (by decide)

private def noted : List Dimension := computeMany [("response.body", .of (.object [("sent", .of (.optional (.of .any)))]))]

theorem recorded_alike_noted :
    ∃ bound, bind sent noted "/states" = .ok bound ∧
      (((∃ again, bind (recorded sent bound) noted "/states" = .ok again ∧ List.Forall₂ (List.Forall₂ Agrees) bound again) ∧
          ∀ α, resolveStates (some (recorded sent bound)) noted α = resolveStates (some sent) noted α) ↔
        ∀ state ∈ sent, ∀ entry ∈ entries state, KeepsDimension noted entry) :=
  ⟨_, rfl, recorded_alike_iff rfl⟩

end PactJanus.Variant.Rebinding
