import PactJanus.Legacy.Builder
import PactJanus.Lib.Fallible

namespace PactJanus.Legacy.Indices

open PactJanus.Data.Json PactJanus.Lib PactJanus.Contracts.Files PactJanus.Legacy.Steps PactJanus.Legacy.Parts
open PactJanus.Legacy.Builder

/-! The only thing that stops a build is an index past what a list can hold. -/

variable {R G C : Type} (ffi : Ffi R G C)

/-- Whether a header's value is read as a list of values. -/
def isList (value : String) : Bool :=
  match ffi.parseJson value with
  | some (.object map) => (map.lookup "value").any fun v => (asArray v).isSome
  | _ => false

/-- Whether a step puts one value at an index past what a list can hold. -/
def tooFar : Step → Bool
  | .withQueryParameter _ index _ => decide (capacity ≤ index.toNat)
  | .withHeader _ _ index value => decide (capacity ≤ index.toNat) && !isList ffi value
  | _ => false

section Values

variable {α : Type} (values : Values α) (index : UInt64) (v : α)

private theorem resized_ok (h : index.toNat < capacity) :
    ∃ room, resized values index v = .ok room ∧ index.toNat < room.1.length := by
  unfold resized
  split
  · exact ⟨values, rfl, ‹_›⟩
  · rename_i hlength
    have hcapacity : capacity < 2 ^ 63 := by decide
    rw [if_neg (by omega)]
    have hroom : (values.1 ++ List.replicate (index.toNat + 1 - values.1.length) v).length = index.toNat + 1 := by
      rw [List.length_append, List.length_replicate]
      omega
    rw [dif_pos (by omega)]
    exact ⟨_, rfl, by rw [hroom]; exact Nat.lt_succ_self _⟩

private theorem resized_error (h : capacity ≤ index.toNat) : ∃ fault, resized values index v = .error fault := by
  unfold resized
  have hlength := values.2
  rw [if_neg (by omega)]
  split
  · exact ⟨_, rfl⟩
  · rw [dif_neg]
    · exact ⟨_, rfl⟩
    · rw [List.length_append, List.length_replicate]
      omega

private theorem putAt_ok (h : index.toNat < values.1.length) : ∃ put, putAt values index v = .ok put := by
  rw [putAt, if_pos h]
  exact ⟨_, rfl⟩

private theorem placed_ok_iff (filler : α) :
    (∃ put, placed values index filler v = .ok put) ↔ index.toNat < capacity := by
  refine ⟨fun hput => ?_, fun h => ?_⟩
  · by_contra hnot
    obtain ⟨fault, hfault⟩ := resized_error values index filler (Nat.le_of_not_lt hnot)
    rw [placed, hfault] at hput
    exact nomatch hput
  · obtain ⟨room, hroom, hlength⟩ := resized_ok values index filler h
    rw [placed, hroom]
    exact putAt_ok room index v hlength

end Values

/-! What one step does. -/

private theorem exampleOf_isArray (path : DocPath) (category : String) (map : List (String × Json)) (ledger : Ledger R G) :
    (asArray (exampleOf ffi path category map ledger).1).isSome =
      (map.lookup "value").any fun v => (asArray v).isSome := by
  unfold exampleOf
  cases map.lookup "value" with
  | none => rfl
  | some v => cases v <;> rfl

private theorem objectValue_isArray (path : DocPath) (category : String) (index : UInt64) (map : List (String × Json))
    (ledger : Ledger R G) : (asArray (objectValue ffi path category index map ledger).1).isSome =
      (map.lookup "value").any fun v => (asArray v).isSome := by
  unfold objectValue
  split
  · exact exampleOf_isArray ffi path category map ledger
  · cases map.lookup "value" <;> rfl

private theorem oneOrSeveral_isRight (result : Json) : (oneOrSeveral result).isRight = (asArray result).isSome := by
  cases result <;> rfl

private theorem fromIntegrationJsonV2_isRight (value : String) (path : DocPath) (category : String) (index : UInt64)
    (ledger : Ledger R G) : (fromIntegrationJsonV2 ffi value path category index ledger).1.isRight = isList ffi value := by
  unfold fromIntegrationJsonV2 isList
  cases ffi.parseJson value with
  | none => rfl
  | some json =>
    cases json with
    | object map => exact (oneOrSeveral_isRight _).trans (objectValue_isArray ffi path category index map _)
    | _ => rfl

private theorem overFirst_ok (headers : Headers) (key value : String) (existing : Values String) :
    ∃ r, overFirst ffi headers key value existing = .ok r := by
  unfold overFirst
  dsimp only
  split
  · exact ⟨_, rfl⟩
  · rename_i hfilled
    have hroom : (0 : UInt64).toNat < existing.1.length := by
      rw [List.isEmpty_iff, ← List.length_eq_zero_iff] at hfilled
      exact Nat.pos_of_ne_zero hfilled
    split
    · exact (Fallible.exists_map_eq_ok _).2 (putAt_ok existing 0 "" hroom)
    · split
      · exact (Fallible.exists_map_eq_ok _).2 (putAt_ok existing 0 value hroom)
      · exact ⟨_, rfl⟩

private theorem withQueryParameter_ok_iff (built : HttpRequest R G C) (name : String) (index : UInt64) (value : String) :
    (∃ r, withQueryParameter ffi built name index value = .ok r) ↔ index.toNat < capacity :=
  (Fallible.exists_map_eq_ok _).trans (placed_ok_iff ..)

private theorem headerValue_ok_iff (headers : Headers) (name : String) (index : UInt64) (value : String) :
    (∃ r, headerValue ffi headers name index value = .ok r) ↔ index.toNat < capacity := by
  unfold headerValue
  dsimp only
  split
  · exact (Fallible.exists_map_eq_ok _).trans (placed_ok_iff ..)
  · rename_i hzero
    refine iff_of_true ?_ ?_
    · split
      · rename_i key hkey
        have hmem : key ∈ headers.entries.map Prod.fst :=
          (ffi.keyOrder (headers.entries.map Prod.fst)).2.mem_iff.1 (List.mem_of_find?_eq_some hkey)
        obtain ⟨existing, hexisting⟩ := Option.isSome_iff_exists.1 (Lists.lookup_isSome_iff.2 hmem)
        have hget : headers.get key = some existing := hexisting
        simp only [hget]
        exact overFirst_ok ffi headers key value existing
      · exact ⟨_, rfl⟩
    · have hindex : index.toNat = 0 := by
        rw [UInt64.lt_iff_toNat_lt] at hzero
        simpa using hzero
      rw [hindex]
      decide

private theorem withHeader_ok_iff (http : HttpPart R G C) (name : String) (index : UInt64) (value : String) :
    (∃ r, withHeader ffi http name index value = .ok r) ↔ (capacity ≤ index.toNat → isList ffi value = true) := by
  unfold withHeader
  dsimp only
  rw [← fromIntegrationJsonV2_isRight ffi value _ "header" index http.ledger]
  split
  · rename_i values hvalues
    rw [hvalues]
    exact iff_of_true ⟨_, rfl⟩ fun _ => rfl
  · rename_i single hsingle
    rw [hsingle, Fallible.exists_map_eq_ok, headerValue_ok_iff]
    simp

def isHttp : Building R G C → Bool
  | .http _ => true
  | _ => false

/-- Whether a step is one an HTTP interaction is given to apply. -/
def goesToHttp : Step → Bool
  | .begin .. | .description _ | .given .. | .messageWithContents .. | .messageWithMetadata .. => false
  | _ => true

private theorem applyToHttp_ok_iff (specification : PactSpecification) (built : SynchronousHttp R G C) {step : Step}
    (h : goesToHttp step = true) :
    (∃ r, applyToHttp ffi specification built step = .ok r) ↔ tooFar ffi step = false := by
  cases step with
  | withQueryParameter name index value =>
    rw [applyToHttp, Fallible.exists_map_eq_ok, withQueryParameter_ok_iff]
    simp [tooFar]
  | withHeader part name index value =>
    rw [applyToHttp, Fallible.exists_map_eq_ok, withHeader_ok_iff]
    simp [tooFar]
  | withMatchingRules part rules =>
    refine iff_of_true ?_ rfl
    rw [applyToHttp]
    split <;> exact ⟨_, rfl⟩
  | withGenerators part generators =>
    refine iff_of_true ?_ rfl
    rw [applyToHttp]
    split <;> exact ⟨_, rfl⟩
  | begin | description | given | messageWithContents | messageWithMetadata => exact absurd h Bool.false_ne_true
  | withRequest | responseStatus | withBody | withBinaryFile | withBinaryBody | withMultipartFile =>
    exact iff_of_true ⟨_, rfl⟩ rfl

private theorem apply_http (specification : PactSpecification) (built : SynchronousHttp R G C) {step : Step}
    (h : goesToHttp step = true) :
    apply ffi specification step (.http built) =
      (applyToHttp ffi specification built step).map fun (http, problems) => (.http http, problems) := by
  cases step with
  | begin | description | given | messageWithContents | messageWithMetadata => exact absurd h Bool.false_ne_true
  | _ => rfl

/-- A step that begins nothing is applied to anything but an HTTP interaction, and keeps it what it is. -/
private theorem apply_message (specification : PactSpecification) {step : Step} (built : Building R G C)
    (hbegin : ∀ kind description, step ≠ .begin kind description)
    (h : isHttp built = false ∨ goesToHttp step = false) :
    ∃ r, apply ffi specification step built = .ok r ∧ isHttp r.1 = isHttp built := by
  cases step with
  | begin kind description => exact absurd rfl (hbegin kind description)
  | withMatchingRules part rules =>
    cases built with
    | http => simp [isHttp, goesToHttp] at h
    | _ =>
      simp only [apply]
      split <;> exact ⟨_, rfl, rfl⟩
  | withGenerators part generators =>
    cases built with
    | http => simp [isHttp, goesToHttp] at h
    | _ =>
      simp only [apply]
      split <;> exact ⟨_, rfl, rfl⟩
  | description | given | messageWithContents | messageWithMetadata => cases built <;> exact ⟨_, rfl, rfl⟩
  | withRequest | withQueryParameter | withHeader | responseStatus | withBody | withBinaryFile | withBinaryBody
  | withMultipartFile =>
    cases built with
    | http => simp [isHttp, goesToHttp] at h
    | _ => exact ⟨_, rfl, rfl⟩

private theorem tooFar_of_not_goesToHttp {step : Step} (h : goesToHttp step = false) : tooFar ffi step = false := by
  cases step with
  | withQueryParameter | withHeader => exact absurd h.symm Bool.false_ne_true
  | _ => rfl

/-- A step is applied exactly where it puts nothing too far into an HTTP interaction. -/
theorem apply_ok_iff (specification : PactSpecification) {step : Step} (built : Building R G C)
    (hbegin : ∀ kind description, step ≠ .begin kind description) :
    (∃ r, apply ffi specification step built = .ok r) ↔ (isHttp built = true → tooFar ffi step = false) := by
  cases hgoes : goesToHttp step with
  | false =>
    obtain ⟨r, hr, -⟩ := apply_message ffi specification built hbegin (.inr hgoes)
    exact iff_of_true ⟨r, hr⟩ fun _ => tooFar_of_not_goesToHttp ffi hgoes
  | true =>
    cases built with
    | http http =>
      rw [apply_http ffi specification http hgoes, Fallible.exists_map_eq_ok, applyToHttp_ok_iff ffi specification http hgoes]
      exact ⟨fun h _ => h, fun h => h rfl⟩
    | asynchronous message =>
      obtain ⟨r, hr, -⟩ := apply_message ffi specification (.asynchronous message) hbegin (.inl rfl)
      exact iff_of_true ⟨r, hr⟩ nofun
    | synchronous message =>
      obtain ⟨r, hr, -⟩ := apply_message ffi specification (.synchronous message) hbegin (.inl rfl)
      exact iff_of_true ⟨r, hr⟩ nofun

theorem apply_isHttp {specification : PactSpecification} {step : Step} {built : Building R G C}
    {r : Building R G C × List String} (h : apply ffi specification step built = .ok r) : isHttp r.1 = isHttp built := by
  have hbegin : ∀ kind description, step ≠ .begin kind description := by
    rintro kind description rfl
    exact nomatch h
  by_cases hother : isHttp built = false ∨ goesToHttp step = false
  · obtain ⟨s, hs, hkind⟩ := apply_message ffi specification built hbegin hother
    rwa [Except.ok.inj (h.symm.trans hs)]
  · obtain ⟨hbuilt, hgoes⟩ := not_or.1 hother
    cases built with
    | http http =>
      rw [apply_http ffi specification http (by simpa using hgoes)] at h
      obtain ⟨s, -, rfl⟩ := Fallible.map_eq_ok h
      rfl
    | _ => exact absurd rfl hbuilt

/-! What a whole list of steps does. -/

def readAt (entry : Json × Nat) : Except Problem Step := Step.read entry.1 ("/pact/steps/" ++ entry.2.repr)

/-- Whether a step decides what interaction the steps build. -/
def decides (entry : Json × Nat) : Prop := entry.2 = 0 ∧ ∃ kind description, readAt entry = .ok (.begin kind description)

variable (specification : PactSpecification) (state : Building R G C × List Problem)

private theorem buildStep_cases (entry : Json × Nat) (hdecides : ¬decides entry) :
    (∃ problem, (∀ step, readAt entry = .ok step → tooFar ffi step = false) ∧ Below "/pact" problem.pointer ∧
      buildStep ffi specification state entry = .ok (state.1, state.2 ++ [problem])) ∨
    ∃ step, readAt entry = .ok step ∧ (∀ kind description, step ≠ .begin kind description) ∧
      buildStep ffi specification state entry = (apply ffi specification step state.1).map fun r =>
        (r.1, state.2 ++ r.2.map fun message => ⟨"/pact/steps/" ++ entry.2.repr, message⟩) := by
  have hplace : Below "/pact" ("/pact/steps/" ++ entry.2.repr) :=
    .inr ⟨"steps/" ++ entry.2.repr, by rw [← String.append_assoc]; rfl⟩
  unfold buildStep
  dsimp only
  cases hread : Step.read entry.1 ("/pact/steps/" ++ entry.2.repr) with
  | error problem =>
    have hnone : ∀ step, readAt entry = .ok step → tooFar ffi step = false := by
      intro step h
      rw [readAt, hread] at h
      exact nomatch h
    exact .inl ⟨problem, hnone, (read_problem hread).trans hplace, rfl⟩
  | ok step =>
    cases step with
    | begin kind description =>
      have hindex : entry.2 ≠ 0 := fun h => hdecides ⟨h, kind, description, hread⟩
      dsimp only
      rw [if_neg hindex]
      refine .inl ⟨_, fun step h => ?_, Below.trans (.inr ⟨"call", ?_⟩) hplace, rfl⟩
      · rw [← Except.ok.inj (hread.symm.trans h)]
        rfl
      · simp only [String.append_assoc]
        rfl
    | _ =>
      exact .inr ⟨_, hread, nofun, rfl⟩

/-- A step keeps an interaction the kind it is, and every problem inside the pact. -/
private theorem buildStep_keeps {entry : Json × Nat} (hdecides : ¬decides entry) {r : Building R G C × List Problem}
    (h : buildStep ffi specification state entry = .ok r) :
    isHttp r.1 = isHttp state.1 ∧
      ((∀ p ∈ state.2, Below "/pact" p.pointer) → ∀ p ∈ r.2, Below "/pact" p.pointer) := by
  rcases buildStep_cases ffi specification state entry hdecides with
    ⟨problem, -, hproblem, hstep⟩ | ⟨step, -, -, hstep⟩
  · rw [hstep] at h
    obtain rfl := Except.ok.inj h
    exact ⟨rfl, fun hall => List.forall_mem_append.2 ⟨hall, List.forall_mem_singleton.2 hproblem⟩⟩
  · rw [hstep] at h
    obtain ⟨applied, happly, rfl⟩ := Fallible.map_eq_ok h
    refine ⟨apply_isHttp ffi happly, fun hall => List.forall_mem_append.2 ⟨hall, ?_⟩⟩
    intro p hp
    obtain ⟨message, -, rfl⟩ := List.mem_map.1 hp
    exact .inr ⟨"steps/" ++ entry.2.repr, by rw [← String.append_assoc]; rfl⟩

private theorem buildStep_ok_iff (entry : Json × Nat) (hdecides : ¬decides entry) :
    (∃ r, buildStep ffi specification state entry = .ok r) ↔
      (isHttp state.1 = true → ∀ step, readAt entry = .ok step → tooFar ffi step = false) := by
  rcases buildStep_cases ffi specification state entry hdecides with
    ⟨problem, hfits, -, hstep⟩ | ⟨step, hread, hbegin, hstep⟩
  · exact iff_of_true ⟨_, hstep⟩ fun _ => hfits
  · rw [hstep, Fallible.exists_map_eq_ok, apply_ok_iff ffi specification state.1 hbegin]
    refine imp_congr_right fun _ => ⟨fun h other hother => ?_, fun h => h step hread⟩
    rwa [← Except.ok.inj (hread.symm.trans hother)]

/-- Steps none of which decides the interaction. -/
private theorem foldlM_ok_iff (entries : List (Json × Nat)) (hdecides : ∀ entry ∈ entries, ¬decides entry)
    (state : Building R G C × List Problem) :
    (∃ r, entries.foldlM (buildStep ffi specification) state = .ok r) ↔
      (isHttp state.1 = true → ∀ entry ∈ entries, ∀ step, readAt entry = .ok step → tooFar ffi step = false) := by
  induction entries generalizing state with
  | nil => exact iff_of_true ⟨state, rfl⟩ fun _ => nofun
  | cons entry rest ih =>
    obtain ⟨hentry, hrest⟩ := List.forall_mem_cons.1 hdecides
    have hstep := buildStep_ok_iff ffi specification state entry hentry
    rw [List.foldlM_cons]
    cases hbuild : buildStep ffi specification state entry with
    | error fault =>
      rw [hbuild] at hstep
      refine iff_of_false (fun ⟨_, h⟩ => nomatch h) fun h => ?_
      obtain ⟨r, hr⟩ := hstep.2 fun hhttp => h hhttp entry List.mem_cons_self
      exact nomatch hr
    | ok next =>
      have hkeeps := (buildStep_keeps ffi specification state hentry hbuild).1
      have hfits := hstep.1 ⟨next, hbuild⟩
      change (∃ r, rest.foldlM (buildStep ffi specification) next = .ok r) ↔ _
      rw [ih hrest next, hkeeps]
      exact ⟨fun h hhttp => List.forall_mem_cons.2 ⟨hfits hhttp, h hhttp⟩,
        fun h hhttp => (List.forall_mem_cons.1 (h hhttp)).2⟩

private theorem foldlM_below (entries : List (Json × Nat)) (hdecides : ∀ entry ∈ entries, ¬decides entry)
    {r : Building R G C × List Problem} (h : entries.foldlM (buildStep ffi specification) state = .ok r)
    (hall : ∀ p ∈ state.2, Below "/pact" p.pointer) : ∀ p ∈ r.2, Below "/pact" p.pointer := by
  induction entries generalizing state with
  | nil => rwa [← Except.ok.inj h]
  | cons entry rest ih =>
    obtain ⟨hentry, hrest⟩ := List.forall_mem_cons.1 hdecides
    rw [List.foldlM_cons] at h
    obtain ⟨next, hnext, hfold⟩ := Fallible.bind_eq_ok h
    exact ih next hrest hfold ((buildStep_keeps ffi specification state hentry hnext).2 hall)

private theorem not_decides_zipIdx (steps : List Json) : ∀ entry ∈ steps.zipIdx 1, ¬decides entry := by
  intro entry hentry hdecides
  have hindex := List.le_snd_of_mem_zipIdx hentry
  rw [hdecides.1] at hindex
  exact absurd hindex (by decide)

/-- The steps of an HTTP interaction put nothing past what a list can hold. -/
def IndicesFit (pact : Json) : Prop :=
  ∀ form specification steps, asObject pact = some form → specificationOf form = .ok specification →
    form.lookup "steps" = some (.array steps) → (∀ entry ∈ steps.zipIdx, ¬decides entry) →
    ∀ entry ∈ steps.zipIdx, ∀ step, readAt entry = .ok step → tooFar ffi step = false

private theorem specificationOf_below {form : List (String × Json)} {problem : Problem}
    (h : specificationOf form = .error problem) : Below "/pact" problem.pointer := by
  unfold specificationOf at h
  split at h
  · exact nomatch h
  · split at h
    · exact nomatch h
    · exact nomatch h
    · exact nomatch h
    · obtain rfl := Except.error.inj h
      exact .inr ⟨"specification", rfl⟩
  · obtain rfl := Except.error.inj h
    exact .inr ⟨"specification", rfl⟩

/-- An interaction, or problems all of them in the pact. -/
def Settles : Except Fault (Except (List Problem) (Building R G C)) → Prop
  | .ok (.ok _) => True
  | .ok (.error problems) => problems ≠ [] ∧ ∀ p ∈ problems, Below "/pact" p.pointer
  | .error _ => False

private theorem settles_map_iff {built : Except Fault (Building R G C × List Problem)}
    (h : ∀ r, built = .ok r → ∀ p ∈ r.2, Below "/pact" p.pointer) :
    Settles (built.map fun r => if r.2.isEmpty then Except.ok r.1 else .error r.2) ↔ ∃ r, built = .ok r := by
  cases built with
  | error fault => exact iff_of_false id fun ⟨_, hr⟩ => nomatch hr
  | ok r =>
    refine iff_of_true ?_ ⟨r, rfl⟩
    change Settles (Except.ok (if r.2.isEmpty then Except.ok r.1 else .error r.2))
    split
    · trivial
    · rename_i hfound
      exact ⟨fun hnil => hfound (List.isEmpty_iff.2 hnil), h r rfl⟩

/-- The steps of an interaction, done one after another. -/
private theorem settles_steps_iff (steps : List Json) :
    Settles ((steps.zipIdx.foldlM (buildStep ffi specification) (.http (emptyHttp ffi), [])).map fun r =>
        if r.2.isEmpty then Except.ok r.1 else .error r.2) ↔
      ((∀ entry ∈ steps.zipIdx, ¬decides entry) →
        ∀ entry ∈ steps.zipIdx, ∀ step, readAt entry = .ok step → tooFar ffi step = false) := by
  by_cases hdecides : ∀ entry ∈ steps.zipIdx, ¬decides entry
  · rw [settles_map_iff fun r hr => foldlM_below ffi specification _ _ hdecides hr (List.forall_mem_nil _),
      foldlM_ok_iff ffi specification _ hdecides]
    exact ⟨fun h _ => h rfl, fun h _ => h hdecides⟩
  · refine iff_of_true ?_ fun h => absurd h hdecides
    cases steps with
    | nil => exact absurd nofun hdecides
    | cons step rest =>
      rw [List.zipIdx_cons] at hdecides ⊢
      have hrest := not_decides_zipIdx rest
      obtain ⟨-, kind, description, hread⟩ : decides (step, 0) := by
        by_contra hfirst
        exact hdecides (List.forall_mem_cons.2 ⟨hfirst, hrest⟩)
      have hstep : buildStep ffi specification (.http (emptyHttp ffi), []) (step, 0) = .ok (begin' ffi kind description, []) := by
        unfold readAt at hread
        simp only [buildStep, hread, if_true]
      have hmessage : isHttp (begin' ffi kind description) = false := by cases kind <;> rfl
      rw [List.foldlM_cons, hstep]
      change Settles ((List.foldlM (buildStep ffi specification) (begin' ffi kind description, []) (rest.zipIdx 1)).map _)
      rw [settles_map_iff fun r hr => foldlM_below ffi specification _ _ hrest hr (List.forall_mem_nil _),
        foldlM_ok_iff ffi specification _ hrest]
      exact fun hhttp => absurd (hmessage.symm.trans hhttp) Bool.false_ne_true

/-- A build ends with an interaction or with problems exactly where the indices fit. -/
theorem build_settles_iff (pact : Json) : Settles (build ffi pact) ↔ IndicesFit ffi pact := by
  unfold build IndicesFit
  cases hform : asObject pact with
  | none =>
    refine iff_of_true ⟨List.cons_ne_nil _ _, List.forall_mem_singleton.2 (.inl rfl)⟩ ?_
    intro _ _ _ h
    exact nomatch h
  | some form =>
    dsimp only
    cases hspecification : specificationOf form with
    | error problem =>
      refine iff_of_true ⟨List.cons_ne_nil _ _, List.forall_mem_singleton.2 (specificationOf_below hspecification)⟩ ?_
      rintro _ _ _ ⟨⟩ h
      rw [hspecification] at h
      exact nomatch h
    | ok specification =>
      dsimp only
      split
      · rename_i steps hsteps
        rw [settles_steps_iff]
        refine ⟨?_, fun h => h form specification steps rfl hspecification hsteps⟩
        rintro h _ _ others ⟨⟩ - hothers
        obtain rfl : steps = others := Json.array.inj (Option.some.inj (hsteps.symm.trans hothers))
        exact h
      · rename_i hsteps
        refine iff_of_true ⟨List.cons_ne_nil _ _, List.forall_mem_singleton.2 (.inr ⟨"steps", rfl⟩)⟩ ?_
        rintro _ _ steps ⟨⟩ - h
        exact absurd h (hsteps steps)

/-- A pact library for steps whose texts are plain and whose parts have no rules. -/
private def plain : Ffi Unit Unit Unit where
  noRules := ()
  noGenerators := ()
  mergeRules _ _ := ()
  addGenerators _ _ := ()
  matchersFromJson _ := .ok ()
  generatorsFromJson _ := .ok ()
  addCategory _ _ := ()
  addRule _ _ _ _ := ()
  parseJson text := if text = "1" then some (.number (.posInt 1)) else none
  processObject _ _ map ledger := (.object map, ledger)
  processArray _ _ _ items ledger := (items, ledger)
  addMatchers _ _ _ _ ledger := ledger
  generateXmlBody _ _ _ := (.ok [], (), ())
  processFormUrlencodedJson text ledger := (text, ledger)
  parseContentType _ := some ()
  contentTypeFrom _ := ()
  contentTypeText _ := "text/plain"
  isJson _ := false
  isXml _ := false
  isText _ := true
  isFormUrlencoded _ := false
  plainText := ()
  detectContentType _ := none
  partContentType _ := none
  messageContentType _ := none
  hasHeader headers name := headers.any fun headers => (headers.get name).isSome
  setHeader headers _ _ := headers
  parseHeader _ value := ⟨[value], one_le_capacity⟩
  parsePath name := some [.root, .field name]
  toLowercase := Text.toAsciiLowercase
  keyOrder keys := ⟨keys, List.Perm.refl keys⟩

/-- A query parameter at the last index there is. -/
private def lastIndex : Json :=
  .object [("steps", .array [.object [("call", .string "with_query_parameter"), ("name", .string "page"),
    ("index", .number (.posInt 18446744073709551615)), ("value", .string "1")]])]

theorem last_index_overflows : build plain lastIndex = .error .overflow ∧ ¬Settles (build plain lastIndex) := by
  have hbuild : build plain lastIndex = .error .overflow := by rfl
  exact ⟨hbuild, by rw [hbuild]; exact id⟩

end PactJanus.Legacy.Indices
