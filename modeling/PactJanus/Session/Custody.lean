import Mathlib.Data.List.Perm.Basic
import PactJanus.Data.Spelling
import PactJanus.Session.Attribution
import PactJanus.Session.Provenance

namespace PactJanus.Session.Custody

open PactJanus.Lib.Lists PactJanus.Lib.PartialMap PactJanus.Lib.Machine PactJanus.Session.Exchange PactJanus.Session.Model
open PactJanus.Session.Interleaving PactJanus.Session.Attribution PactJanus.Session.Provenance

/-! Where each exchange that is over is kept, from the transport that carried it out to the evidence of its variant. -/

/-- What a piece of evidence came from, nothing where there is none. -/
def sourcesOf (ledger : Option Ledger) : List Source := ledger.elim [] Ledger.sources

/-- What was merged into a variant's evidence. -/
def merged (session : ConsumerSession Ledger) (key : Key) : List Source :=
  sourcesOf ((session.interactions key.1).bind fun entry => entry.exercised key.2)

/-- The exchanges of a variant that the report being answered has taken from the transports. -/
def taken : Dispatch Ledger → Key → List Source
  | .settling handle variantId _ _ settled _, key =>
    if (handle, variantId) = key then settled.flatMap Ledger.sources else []
  | _, _ => []

/-- The exchanges of a variant that wait on the transports. -/
def waiting (transports : List (TransportRun Ledger)) (key : Key) : List Source :=
  transports.flatMap fun run => sourcesOf (run.exchange.outcomes key)

/-- What is on its way to a variant's evidence. -/
def underway (system : System Ledger) (key : Key) : List Source :=
  taken system.dispatch key ++ waiting system.transports key

/-- All there is of a variant's exchanges that are over. -/
def kept (system : System Ledger) (key : Key) : List Source := merged system.session key ++ underway system key

/-- The exchanges of a variant that a run was noted to be over with. -/
def settledOf (notes : List Note) (key : Key) : List Exercised :=
  notes.filterMap fun note =>
    match note with
    | .settled _ k e => if k = key then some e else none
    | .attributed _ _ => none

theorem settledOf_append (first second : List Note) (key : Key) :
    settledOf (first ++ second) key = settledOf first key ++ settledOf second key := List.filterMap_append

theorem waiting_split (before after : List (TransportRun Ledger)) (run : TransportRun Ledger) (key : Key) :
    waiting (before ++ run :: after) key =
      waiting before key ++ (sourcesOf (run.exchange.outcomes key) ++ waiting after key) := by
  rw [waiting, List.flatMap_append, List.flatMap_cons]
  rfl

theorem sourcesOf_merge (a b : Option Ledger) :
    sourcesOf (Option.merge Evidence.merge a b) = sourcesOf a ++ sourcesOf b := by
  cases a <;> cases b <;> simp [sourcesOf, Option.merge]

theorem sourcesOf_record {κ : Type} [DecidableEq κ] (map : PMap κ Ledger) (key k : κ) (ledger : Ledger) :
    sourcesOf (map.record Evidence.merge key ledger k) =
      sourcesOf (map k) ++ if k = key then ledger.sources else [] := by
  rw [PMap.record_apply]
  split
  · rw [sourcesOf_merge]
    rfl
  · rw [List.append_nil]

/-! The interactions of a session keep their handles and what they were added with. -/

section Session

variable {ε : Type}

/-- An interaction whose exchanges the transports carry out. -/
def Passive (session : ConsumerSession ε) (handle : String) : Prop :=
  ∃ entry, session.interactions handle = some entry ∧ emissiveKind entry.spec = none

/-- Every handle in use was given out. -/
def Numbered (session : ConsumerSession ε) : Prop :=
  ∀ handle entry, session.interactions handle = some entry →
    ∃ n < session.nextHandle, handle = ConsumerSession.handleName n

/-- Every interaction in the session's order is one of its interactions. -/
def Ordered (session : ConsumerSession ε) : Prop := ∀ handle ∈ session.order, (session.interactions handle).isSome = true

/-- A session that holds what another does, under the same handles, and more only under handles given out since. -/
structure Continues (session session' : ConsumerSession ε) : Prop where
  keeps : ∀ handle entry, session.interactions handle = some entry →
    ∃ entry', session'.interactions handle = some entry' ∧ entry'.spec = entry.spec
  given : ∀ handle entry', session'.interactions handle = some entry' →
    (∃ entry, session.interactions handle = some entry ∧ entry'.spec = entry.spec) ∨ entry'.exercised = PMap.empty
  numbered : Numbered session → Numbered session'
  ordered : Ordered session → Ordered session'

variable {session session' : ConsumerSession ε} {handle : String}

theorem Continues.refl (session : ConsumerSession ε) : Continues session session :=
  ⟨fun _ entry h => ⟨entry, h, rfl⟩, fun _ entry h => .inl ⟨entry, h, rfl⟩, id, id⟩

theorem Passive.continues (h : Passive session handle) (hcont : Continues session session') : Passive session' handle := by
  obtain ⟨entry, hentry, hpassive⟩ := h
  obtain ⟨entry', hentry', hspec⟩ := hcont.keeps handle entry hentry
  exact ⟨entry', hentry', hspec ▸ hpassive⟩

theorem handleName_injective {m n : Nat} (h : ConsumerSession.handleName m = ConsumerSession.handleName n) : m = n := by
  have hlist := congrArg String.toList h
  simp only [ConsumerSession.handleName, String.toList_append] at hlist
  exact Data.Spelling.repr_injective (String.toList_inj.1 (List.append_cancel_left hlist))

theorem Numbered.fresh (h : Numbered session) :
    session.interactions (ConsumerSession.handleName session.nextHandle) = none := by
  cases hentry : session.interactions (ConsumerSession.handleName session.nextHandle) with
  | none => rfl
  | some entry =>
    obtain ⟨n, hn, heq⟩ := h _ entry hentry
    exact absurd (handleName_injective heq).symm (Nat.ne_of_lt hn)

/-- A session whose interactions changed in place, each with the specification it had. -/
theorem continues_mapped (g : String → InteractionEntry ε → InteractionEntry ε)
    (hspec : ∀ h entry, session.interactions h = some entry → (g h entry).spec = entry.spec)
    (hnext : session'.nextHandle = session.nextHandle) (horder : session'.order = session.order)
    (hmap : ∀ h, session'.interactions h = (session.interactions h).map (g h)) : Continues session session' where
  keeps h entry hentry := ⟨g h entry, by rw [hmap, hentry, Option.map_some], hspec h entry hentry⟩
  given h entry' hentry' := by
    rw [hmap] at hentry'
    obtain ⟨entry, hentry, rfl⟩ := Option.map_eq_some_iff.1 hentry'
    exact .inl ⟨entry, hentry, hspec h entry hentry⟩
  numbered hnumbered h entry' hentry' := by
    rw [hmap] at hentry'
    obtain ⟨entry, hentry, -⟩ := Option.map_eq_some_iff.1 hentry'
    rw [hnext]
    exact hnumbered h entry hentry
  ordered hordered h hmem := by
    rw [hmap, Option.isSome_map]
    exact hordered h (horder ▸ hmem)

theorem continues_addInteraction (h : Numbered session) (spec : InteractionSpec) (rawParts) (converted) :
    Continues session (session.addInteraction spec rawParts converted) where
  keeps handle entry hentry := by
    have hne : handle ≠ ConsumerSession.handleName session.nextHandle := by
      rintro rfl
      rw [h.fresh] at hentry
      cases hentry
    refine ⟨entry, ?_, rfl⟩
    simp only [ConsumerSession.addInteraction]
    rw [PMap.insert_apply, if_neg hne, hentry]
  given handle entry hentry := by
    simp only [ConsumerSession.addInteraction] at hentry
    rw [PMap.insert_apply] at hentry
    split at hentry
    · obtain rfl := Option.some.inj hentry
      exact .inr rfl
    · exact .inl ⟨entry, hentry, rfl⟩
  numbered _ handle entry hentry := by
    simp only [ConsumerSession.addInteraction] at hentry ⊢
    rw [PMap.insert_apply] at hentry
    split at hentry
    · rename_i heq
      exact ⟨session.nextHandle, Nat.lt_succ_self _, heq⟩
    · obtain ⟨n, hn, heq⟩ := h handle entry hentry
      exact ⟨n, Nat.lt_succ_of_lt hn, heq⟩
  ordered hordered handle hmem := by
    simp only [ConsumerSession.addInteraction] at hmem ⊢
    rw [PMap.insert_apply]
    split
    · rfl
    · rename_i hne
      obtain hmem | hmem := List.mem_append.1 hmem
      · exact hordered handle hmem
      · exact absurd (List.mem_singleton.1 hmem) hne

/-- A session with the entry of one handle changed, its specification apart. -/
theorem continues_modify (session : ConsumerSession ε) (handle : String) {f : InteractionEntry ε → InteractionEntry ε}
    (hspec : ∀ entry, (f entry).spec = entry.spec) :
    Continues session { session with interactions := session.interactions.modify handle f } := by
  refine continues_mapped (fun h entry => if h = handle then f entry else entry) (fun h entry _ => ?_) rfl rfl fun h => ?_
  · split
    · exact hspec entry
    · rfl
  · refine (PMap.modify_apply ..).trans ?_
    split
    · rfl
    · exact Option.map_id'.symm

theorem continues_put {entry entry' : InteractionEntry ε} (hentry : session.interactions handle = some entry)
    (hspec : entry'.spec = entry.spec) :
    Continues session { session with interactions := session.interactions.insert handle entry' } := by
  refine continues_mapped (fun h e => if h = handle then entry' else e) (fun h e he => ?_) rfl rfl fun h => ?_
  · split
    · rename_i heq
      rw [heq, hentry] at he
      obtain rfl := Option.some.inj he
      exact hspec
    · rfl
  · refine (PMap.insert_apply ..).trans ?_
    split
    · rename_i heq
      rw [heq, hentry]
      rfl
    · exact Option.map_id'.symm

end Session

/-! What one step does to the exchanges that are over. -/

/-- A transport whose armings, and the exchange under way, are of interactions it carries out. -/
structure Carries {ε : Type} (session : ConsumerSession ε) (run : TransportRun ε) : Prop where
  armed : ∀ armed ∈ run.exchange.armed, Passive session armed.handle
  handling : ∀ candidate, run.loop = .handling candidate → Passive session candidate.armed.handle

theorem Carries.continues {ε : Type} {session session' : ConsumerSession ε} {run : TransportRun ε}
    (h : Carries session run) (hcont : Continues session session') : Carries session' run :=
  ⟨fun armed harmed => (h.armed armed harmed).continues hcont,
    fun candidate hloop => (h.handling candidate hloop).continues hcont⟩

/-- What holds of a session, its transports and what was noted all along a run: each exchange that is over is kept in
one place, and all that is kept is of interactions the transports carry out. -/
structure Balanced (system : System Ledger) (seen : List Note) : Prop where
  numbered : Numbered system.session
  ordered : Ordered system.session
  carries : ∀ run ∈ system.transports, Carries system.session run
  arming : ∀ armed waiting, system.dispatch = .arming armed waiting → Passive system.session armed.handle
  underway : ∀ key, underway system key ≠ [] → Passive system.session key.1
  settled : ∀ key, settledOf seen key ≠ [] → Passive system.session key.1
  balance : ∀ key, Passive system.session key.1 → ((settledOf seen key).map .exchanged).Perm (kept system key)

/-- What one step passes on: what was kept is, with what the step is noted for, and nothing merged is taken back. -/
structure Passes (system system' : System Ledger) (new : List Note) : Prop where
  continues : Continues system.session system'.session
  carries : ∀ run ∈ system'.transports, Carries system'.session run
  arming : ∀ armed waiting, system'.dispatch = .arming armed waiting → Passive system'.session armed.handle
  underway : ∀ key, underway system' key ≠ [] → Passive system.session key.1
  settled : ∀ key, settledOf new key ≠ [] → Passive system.session key.1
  kept : ∀ key, Passive system.session key.1 →
    (kept system' key).Perm (kept system key ++ (settledOf new key).map .exchanged)
  merged : ∀ key, Passive system.session key.1 → merged system.session key <+: merged system'.session key

private theorem merged_given {session session' : ConsumerSession Ledger} (hcont : Continues session session') {key : Key}
    (hnew : Passive session' key.1) (hold : ¬Passive session key.1) : merged session' key = [] := by
  obtain ⟨entry', hentry', hpassive⟩ := hnew
  obtain ⟨entry, hentry, hspec⟩ | hempty := hcont.given _ entry' hentry'
  · exact absurd ⟨entry, hentry, hspec ▸ hpassive⟩ hold
  · simp only [merged, hentry', Option.bind_some, hempty]
    rfl

theorem Balanced.passes {system system' : System Ledger} {seen new : List Note} (h : Balanced system seen)
    (hpasses : Passes system system' new) : Balanced system' (seen ++ new) where
  numbered := hpasses.continues.numbered h.numbered
  ordered := hpasses.continues.ordered h.ordered
  carries := hpasses.carries
  arming := hpasses.arming
  underway key hne := (hpasses.underway key hne).continues hpasses.continues
  settled key hne := by
    rw [settledOf_append] at hne
    refine Passive.continues ?_ hpasses.continues
    by_contra hnot
    have hseen : settledOf seen key = [] := by_contra fun hc => hnot (h.settled key hc)
    have hnew : settledOf new key = [] := by_contra fun hc => hnot (hpasses.settled key hc)
    exact hne (by rw [hseen, hnew, List.append_nil])
  balance key hnew := by
    rw [settledOf_append, List.map_append]
    by_cases hold : Passive system.session key.1
    · exact ((h.balance key hold).append_right _).trans (hpasses.kept key hold).symm
    · have hseen : settledOf seen key = [] := by_contra fun hc => hold (h.settled key hc)
      have hnone : settledOf new key = [] := by_contra fun hc => hold (hpasses.settled key hc)
      have hunder : Custody.underway system' key = [] := by_contra fun hc => hold (hpasses.underway key hc)
      rw [hseen, hnone, Custody.kept, merged_given hpasses.continues hnew hold, hunder]
      exact List.Perm.refl _

section Steps

variable {world : World} {system system' : System Ledger} {seen : List Note}

/-- A step of the session alone, between requests. -/
private theorem passes_session {session : ConsumerSession Ledger} (h : Balanced system seen)
    (hcont : Continues system.session session)
    (hmerged : ∀ key, Passive system.session key.1 → merged session key = merged system.session key)
    {dispatch : Dispatch Ledger} (harming : ∀ armed waiting, dispatch = .arming armed waiting → Passive session armed.handle)
    (htaken : ∀ key, taken dispatch key = taken system.dispatch key) :
    Passes system { system with session := session, dispatch := dispatch } [] where
  continues := hcont
  carries run hrun := (h.carries run hrun).continues hcont
  arming := harming
  underway key hne := h.underway key (by simpa only [underway, htaken] using hne)
  settled _ hne := absurd rfl hne
  kept key hpassive := by
    refine List.Perm.of_eq ?_
    simp only [kept, underway, hmerged key hpassive, htaken, settledOf, List.filterMap_nil, List.map_nil, List.append_nil]
  merged key hpassive := (hmerged key hpassive).symm ▸ List.prefix_refl _

private theorem taken_idle {dispatch : Dispatch Ledger} (h : dispatch.isIdle = true) (key : Key) :
    taken dispatch key = [] := by
  cases dispatch with
  | idle => rfl
  | _ => cases h

private theorem not_arming {dispatch : Dispatch Ledger} (h : dispatch.isIdle = true) (armed : ArmedExchange)
    (waiting : List String) : dispatch ≠ .arming armed waiting := by
  rintro rfl
  cases h

private theorem passes_request {session : ConsumerSession Ledger} (h : Balanced system seen)
    (hstep : system.request session = some system') (hcont : Continues system.session session)
    (hmerged : ∀ key, Passive system.session key.1 → merged session key = merged system.session key) :
    Passes system system' [] := by
  rw [System.request] at hstep
  split at hstep
  · rename_i hidle
    obtain rfl := Option.some.inj hstep
    exact passes_session h hcont hmerged (fun armed waiting harming => absurd harming (not_arming hidle armed waiting))
      fun _ => rfl
  · cases hstep

private theorem merged_addInteraction (h : Numbered system.session) (spec : InteractionSpec) (rawParts) (converted)
    (key : Key) : merged (system.session.addInteraction spec rawParts converted) key = merged system.session key := by
  simp only [merged, ConsumerSession.addInteraction]
  rw [PMap.insert_apply]
  split
  · rename_i heq
    rw [heq, h.fresh]
    rfl
  · rfl

private theorem merged_modify {session : ConsumerSession Ledger} {handle : String}
    {f : InteractionEntry Ledger → InteractionEntry Ledger} (hf : ∀ entry, (f entry).exercised = entry.exercised)
    (key : Key) : merged { session with interactions := session.interactions.modify handle f } key = merged session key := by
  simp only [merged]
  rw [PMap.modify_apply]
  split
  · cases session.interactions key.1 with
    | none => rfl
    | some entry => simp only [Option.map_some, Option.bind_some, hf]
  · rfl

private theorem merged_put {session : ConsumerSession Ledger} {handle : String} {entry entry' : InteractionEntry Ledger}
    (hentry : session.interactions handle = some entry)
    (hexercised : ∀ variantId, sourcesOf (entry'.exercised variantId) = sourcesOf (entry.exercised variantId))
    (key : Key) : merged { session with interactions := session.interactions.insert handle entry' } key =
      merged session key := by
  simp only [merged]
  rw [PMap.insert_apply]
  split
  · rename_i heq
    rw [heq, hentry]
    exact hexercised key.2
  · rfl

/-- A step of one transport that records nothing. -/
private theorem passes_transport {before after : List (TransportRun Ledger)} {run run' : TransportRun Ledger}
    (h : Balanced system seen) (hsplit : system.transports = before ++ run :: after)
    (houtcomes : run'.exchange.outcomes = run.exchange.outcomes)
    (hcarries : Carries system.session run → Carries system.session run') {dispatch : Dispatch Ledger}
    (harming : ∀ armed waiting, dispatch = .arming armed waiting → Passive system.session armed.handle)
    (htaken : ∀ key, taken dispatch key = taken system.dispatch key) :
    Passes system { system with transports := before ++ run' :: after, dispatch := dispatch } [] where
  continues := Continues.refl _
  carries := by
    have hall := h.carries
    rw [hsplit, List.forall_mem_append, List.forall_mem_cons] at hall
    exact List.forall_mem_append.2 ⟨hall.1, List.forall_mem_cons.2 ⟨hcarries hall.2.1, hall.2.2⟩⟩
  arming := harming
  underway key hne := h.underway key (by simpa only [underway, htaken, hsplit, waiting_split, houtcomes] using hne)
  settled _ hne := absurd rfl hne
  kept key _ := by
    refine List.Perm.of_eq ?_
    simp only [kept, underway, htaken, hsplit, waiting_split, houtcomes, settledOf, List.filterMap_nil, List.map_nil,
      List.append_nil]
  merged _ _ := List.prefix_refl _

/-- What serving a variant leaves of the session, and what it arms. -/
private theorem serveVariant_cases (world : World) (running : List String) (session : ConsumerSession Ledger)
    (handle variantId : String) {session' : ConsumerSession Ledger} {served : Except ServeVariantError Served}
    (h : session.serveVariant world running handle variantId = (session', served)) :
    (session' = session ∧ ∀ armed, served ≠ .ok (.armed (some armed))) ∨
      ∃ entry entry', session.interactions handle = some entry ∧
        session' = { session with interactions := session.interactions.insert handle entry' } ∧
        entry'.spec = entry.spec ∧
        (entry'.exercised = entry.exercised ∨ emissiveKind entry.spec ≠ none ∧
          ∃ e, entry'.exercised = entry.exercised.insert variantId (Evidence.handed e)) ∧
        ∀ kind armed, served = .ok (.armed (some (kind, armed))) → armed.handle = handle ∧ emissiveKind entry.spec = none := by
  unfold ConsumerSession.serveVariant at h
  cases hentry : session.interactions handle with
  | none =>
    rw [hentry] at h
    obtain ⟨rfl, rfl⟩ := Prod.mk.inj h
    exact .inl ⟨rfl, fun _ hne => by cases hne⟩
  | some entry =>
    rw [hentry] at h
    dsimp only at h
    cases hvariant : entry.selection.bind fun selected => selected.variants.find? fun v => v.id = variantId with
    | none =>
      rw [hvariant] at h
      obtain ⟨rfl, rfl⟩ := Prod.mk.inj h
      exact .inl ⟨rfl, fun _ hne => by cases hne⟩
    | some variant =>
      rw [hvariant] at h
      dsimp only at h
      right
      cases hkind : emissiveKind entry.spec with
      | some kind =>
        rw [hkind] at h
        dsimp only at h
        split at h
        · obtain ⟨rfl, rfl⟩ := Prod.mk.inj h
          exact ⟨entry, _, rfl, rfl, rfl, .inl rfl, fun _ _ hne => by cases hne⟩
        · obtain ⟨rfl, rfl⟩ := Prod.mk.inj h
          exact ⟨entry, _, rfl, rfl, rfl, .inr ⟨by simp [hkind], _, rfl⟩, fun _ _ hne => by cases hne⟩
      | none =>
        rw [hkind] at h
        dsimp only at h
        split at h
        · obtain ⟨rfl, rfl⟩ := Prod.mk.inj h
          refine ⟨entry, _, rfl, rfl, rfl, .inl rfl, fun _ armed heq => ?_⟩
          cases heq
          exact ⟨rfl, hkind⟩
        · obtain ⟨rfl, rfl⟩ := Prod.mk.inj h
          exact ⟨entry, _, rfl, rfl, rfl, .inl rfl, fun _ _ hne => by cases hne⟩

private theorem merged_served {session session' : ConsumerSession Ledger} {handle variantId : String}
    {entry entry' : InteractionEntry Ledger} (hentry : session.interactions handle = some entry)
    (hsession : session' = { session with interactions := session.interactions.insert handle entry' })
    (hexercised : entry'.exercised = entry.exercised ∨ emissiveKind entry.spec ≠ none ∧
      ∃ e, entry'.exercised = entry.exercised.insert variantId (Evidence.handed e))
    {key : Key} (hpassive : Passive session key.1) : merged session' key = merged session key := by
  subst hsession
  obtain hsame | ⟨hemissive, -⟩ := hexercised
  · exact merged_put hentry (fun id => by rw [hsame]) key
  · -- what is handed to its test is of another interaction
    have hne : key.1 ≠ handle := by
      intro heq
      obtain ⟨other, hother, hnone⟩ := hpassive
      rw [heq] at hother
      obtain rfl := Option.some.inj (hentry.symm.trans hother)
      exact hemissive hnone
    simp only [merged]
    rw [PMap.insert_apply, if_neg hne]

private theorem passes_serve {handle variantId : String} (h : Balanced system seen)
    (hstep : serve world system handle variantId = some system') : Passes system system' [] := by
  rw [serve] at hstep
  split at hstep
  · rename_i hidle
    rcases hserve : system.session.serveVariant world (system.transports.map TransportRun.kind) handle variantId with
      ⟨session, served⟩
    rw [hserve] at hstep
    have hcases := serveVariant_cases world _ _ _ _ hserve
    have hcont : Continues system.session session := by
      obtain ⟨rfl, -⟩ | ⟨entry, entry', hentry, rfl, hspec, -, -⟩ := hcases
      · exact Continues.refl _
      · exact continues_put hentry hspec
    have hmerged : ∀ key, Passive system.session key.1 → merged session key = merged system.session key := by
      obtain ⟨rfl, -⟩ | ⟨entry, entry', hentry, hsession, -, hexercised, -⟩ := hcases
      · exact fun _ _ => rfl
      · exact fun _ => merged_served hentry hsession hexercised
    dsimp only at hstep
    split at hstep
    · rename_i kind armed
      obtain rfl := Option.some.inj hstep
      refine passes_session h hcont hmerged ?_ fun key => ((taken_idle hidle key).trans rfl).symm
      rintro other waiting ⟨⟩
      obtain ⟨-, hne⟩ | ⟨entry, entry', hentry, -, -, -, harmed⟩ := hcases
      · exact absurd rfl (hne _)
      · obtain ⟨hhandle, hnone⟩ := harmed _ _ rfl
        exact Passive.continues ⟨entry, hhandle ▸ hentry, hnone⟩ hcont
    · obtain rfl := Option.some.inj hstep
      exact passes_session h hcont hmerged (fun armed waiting harming => absurd harming (not_arming hidle armed waiting))
        fun _ => rfl
  · cases hstep

private theorem passes_arm (h : Balanced system seen) (hstep : step world system .arm = some system') :
    Passes system system' [] := by
  rw [step] at hstep
  split at hstep
  · rename_i armed instance' waiting hdispatch
    obtain ⟨⟨mid, _⟩, hat, rfl⟩ := Option.map_eq_some_iff.1 hstep
    obtain ⟨before, run, run', after, hsplit, -, hrun, rfl⟩ := atTransport_some hat
    obtain ⟨rfl, -⟩ := Prod.mk.inj (Option.some.inj hrun)
    refine passes_transport h hsplit ?_ ?_ ?_ ?_
    · rfl
    · refine fun hrun => ⟨fun other hother => ?_, hrun.handling⟩
      obtain hother | hother := List.mem_append.1 hother
      · exact hrun.armed other (List.mem_filter.1 hother).1
      · obtain rfl := List.mem_singleton.1 hother
        exact h.arming _ _ hdispatch
    · rintro other rest ⟨⟩
      exact h.arming _ _ hdispatch
    · intro key
      rw [hdispatch]
      rfl
  · rename_i armed hdispatch
    obtain rfl := Option.some.inj hstep
    exact passes_session h (Continues.refl _) (fun _ _ => rfl) (fun _ _ hne => by cases hne) fun key => by
      rw [hdispatch]
      rfl
  · cases hstep

private theorem perm_moved {α : Type} (taken before recorded after : List α) :
    (taken ++ recorded ++ (before ++ after)).Perm (taken ++ (before ++ (recorded ++ after))) := by
  rw [List.append_assoc, ← List.append_assoc recorded, ← List.append_assoc before]
  exact List.Perm.append_left _ (List.Perm.append_right _ List.perm_append_comm)

private theorem flatMap_toList (recorded : Option Ledger) :
    recorded.toList.flatMap Ledger.sources = sourcesOf recorded := by
  cases recorded <;> simp [sourcesOf]

private theorem passes_settle (h : Balanced system seen) (hstep : step world system .settle = some system') :
    Passes system system' [] := by
  rw [step] at hstep
  split at hstep
  · rename_i handle variantId verdict instance' rest settled late hdispatch
    obtain ⟨⟨mid, recorded, active⟩, hat, rfl⟩ := Option.map_eq_some_iff.1 hstep
    obtain ⟨before, run, run', after, hsplit, -, hrun, rfl⟩ := atTransport_some hat
    obtain ⟨rfl, hpair⟩ := Prod.mk.inj (Option.some.inj hrun)
    obtain ⟨rfl, -⟩ := Prod.mk.inj hpair
    have hmoved : ∀ key, ((if (handle, variantId) = key then
          (settled ++ (run.exchange.outcomes (handle, variantId)).toList).flatMap Ledger.sources else []) ++
        (waiting before key ++ (sourcesOf (run.exchange.outcomes.remove (handle, variantId) key) ++
          waiting after key))).Perm (underway system key) := by
      intro key
      simp only [underway, hsplit, waiting_split, hdispatch, taken]
      rw [PMap.remove_apply]
      by_cases hkey : (handle, variantId) = key
      · subst hkey
        rw [if_pos rfl, if_pos rfl, if_pos rfl, List.flatMap_append, flatMap_toList]
        exact perm_moved _ _ _ _
      · rw [if_neg hkey, if_neg hkey, if_neg (Ne.symm hkey)]
    have hall := h.carries
    rw [hsplit, List.forall_mem_append, List.forall_mem_cons] at hall
    refine ⟨Continues.refl _, ?_, fun _ _ hne => (by cases hne), fun key hne => h.underway key fun hnil => hne ?_,
      fun _ hne => absurd rfl hne, fun key _ => ?_, fun _ _ => List.prefix_refl _⟩
    · refine List.forall_mem_append.2 ⟨hall.1, List.forall_mem_cons.2 ⟨⟨fun armed harmed => ?_, ?_⟩, hall.2.2⟩⟩
      · exact hall.2.1.armed armed (List.mem_filter.1 harmed).1
      · exact hall.2.1.handling
    · have hperm := hmoved key
      rw [hnil] at hperm
      simpa only [underway, waiting_split, taken] using hperm.eq_nil
    · simp only [kept, settledOf, List.filterMap_nil, List.map_nil, List.append_nil]
      refine List.Perm.append_left _ ?_
      simpa only [underway, waiting_split, taken] using hmoved key
  · cases hstep

private theorem sourcesOf_collected (settled : List Ledger) (exercised : PMap String Ledger) (variantId id : String) :
    sourcesOf (settled.foldl (fun exercised e => exercised.record Evidence.merge variantId e) exercised id) =
      sourcesOf (exercised id) ++ if id = variantId then settled.flatMap Ledger.sources else [] := by
  induction settled generalizing exercised with
  | nil => simp
  | cons e settled ih =>
    rw [List.foldl_cons, ih, sourcesOf_record]
    split <;> simp

private theorem passes_answer (h : Balanced system seen) (hstep : step world system .answer = some system') :
    Passes system system' [] := by
  rw [step] at hstep
  split at hstep
  · rename_i handle variantId verdict settled late hdispatch
    obtain rfl := Option.some.inj hstep
    have hcont : Continues system.session (system.session.collect handle variantId verdict settled) :=
      continues_modify _ _ fun _ => rfl
    have hmerged : ∀ key, Passive system.session key.1 →
        merged (system.session.collect handle variantId verdict settled) key =
          merged system.session key ++ taken system.dispatch key := by
      rintro ⟨handle', variantId'⟩ ⟨entry, hentry, -⟩
      rw [hdispatch]
      simp only [merged, taken, ConsumerSession.collect]
      rw [PMap.modify_apply, hentry]
      by_cases hhandle : handle' = handle
      · rw [if_pos hhandle, Option.map_some, Option.bind_some, Option.bind_some, sourcesOf_collected]
        subst hhandle
        simp [eq_comm]
      · rw [if_neg hhandle, if_neg fun heq => hhandle (congrArg Prod.fst heq).symm, List.append_nil]
    refine ⟨hcont, fun run hrun => (h.carries run hrun).continues hcont, fun _ _ hne => (by cases hne), fun key hne =>
      h.underway key fun hnil => hne ?_, fun _ hne => absurd rfl hne, fun key hpassive => ?_, fun key hpassive => ?_⟩
    · simpa only [underway, taken, List.nil_append] using (List.append_eq_nil_iff.1 hnil).2
    · refine List.Perm.of_eq ?_
      simp only [kept, underway, hmerged key hpassive, taken, settledOf, List.filterMap_nil, List.map_nil, List.append_nil,
        List.nil_append, List.append_assoc]
    · rw [hmerged key hpassive]
      exact List.prefix_append _ _
  · cases hstep

private theorem passes_drain (h : Balanced system seen) (hstep : step world system .drain = some system') :
    Passes system system' [] := by
  rw [step] at hstep
  split at hstep
  · rename_i hdispatch _
    obtain rfl := Option.some.inj hstep
    exact passes_session h (Continues.refl _) (fun _ _ => rfl) (fun _ _ hne => by cases hne) fun key => by
      rw [hdispatch]
      rfl
  · rename_i name kind exchange rest hdispatch htransports
    obtain rfl := Option.some.inj hstep
    let drained := fun handle (entry : InteractionEntry Ledger) variantId =>
      Option.merge Evidence.merge (entry.exercised variantId) (exchange.outcomes (handle, variantId))
    have hcont : Continues system.session (system.session.drain exchange.outcomes) :=
      continues_mapped (fun handle entry => { entry with exercised := drained handle entry }) (fun _ _ _ => rfl) rfl
        rfl fun _ => rfl
    have hmerged : ∀ key, Passive system.session key.1 → merged (system.session.drain exchange.outcomes) key =
        merged system.session key ++ sourcesOf (exchange.outcomes key) := by
      rintro key ⟨entry, hentry, -⟩
      simp only [merged, ConsumerSession.drain, hentry]
      exact sourcesOf_merge _ _
    have hrest : ∀ run ∈ rest, run ∈ system.transports := fun run hrun => by
      rw [htransports]
      exact List.mem_cons_of_mem _ hrun
    refine ⟨hcont, fun run hrun => (h.carries run (hrest run hrun)).continues hcont,
      fun armed waiting harming => (h.arming armed waiting harming).continues hcont, fun key hne =>
      h.underway key fun hnil => hne ?_, fun _ hne => absurd rfl hne, fun key hpassive => ?_, fun key hpassive => ?_⟩
    · rw [underway, htransports, waiting, List.flatMap_cons] at hnil
      rw [underway, (List.append_eq_nil_iff.1 hnil).1]
      exact (List.append_eq_nil_iff.1 (List.append_eq_nil_iff.1 hnil).2).2
    · refine List.Perm.of_eq ?_
      simp only [kept, underway, hmerged key hpassive, hdispatch, taken, htransports, settledOf, List.filterMap_nil,
        List.map_nil, List.append_nil, List.nil_append, waiting, List.flatMap_cons, List.append_assoc]
    · rw [hmerged key hpassive]
      exact List.prefix_append _ _
  · cases hstep

private theorem passes_arrival {instance' : String} {inbound : Exchange.Parts} (h : Balanced system seen)
    (hstep : step world system (.arrival instance' inbound) = some system') : Passes system system' [] := by
  obtain ⟨⟨mid, _⟩, hat, rfl⟩ := Option.map_eq_some_iff.1 hstep
  obtain ⟨before, run, run', after, hsplit, -, hrun, rfl⟩ := atTransport_some hat
  rw [TransportRun.arrive] at hrun
  split at hrun
  · obtain ⟨rfl, -⟩ := Prod.mk.inj (Option.some.inj hrun)
    refine passes_transport h hsplit ?_ ?_ h.arming fun _ => rfl
    · rfl
    · refine fun hrun => ⟨hrun.armed, fun candidate hloop => ?_⟩
      change (run.exchange.arrive world.toScope (world.names run.kind) inbound).2.elim Loop.polling Loop.handling =
        .handling candidate at hloop
      cases hchosen : (run.exchange.arrive world.toScope (world.names run.kind) inbound).2 with
      | none =>
        rw [hchosen] at hloop
        cases hloop
      | some chosen =>
        rw [hchosen] at hloop
        obtain rfl := Loop.handling.inj hloop
        exact hrun.armed _ (arrive_mem hchosen)
  · cases hrun

private theorem passes_delivery {instance' : String} {undelivered : Option String} (h : Balanced system seen)
    (hstep : step world system (.delivery instance' undelivered) = some system') :
    Passes system system' (notes world system (.delivery instance' undelivered)) := by
  obtain ⟨⟨mid, _⟩, hat, rfl⟩ := Option.map_eq_some_iff.1 hstep
  obtain ⟨before, run, run', after, hsplit, hfind, hrun, rfl⟩ := atTransport_some hat
  rw [TransportRun.deliver] at hrun
  split at hrun
  · rename_i candidate hloop
    obtain ⟨rfl, -⟩ := Prod.mk.inj (Option.some.inj hrun)
    have hnoted : notes world system (.delivery instance' undelivered) =
        [.settled instance' candidate.armed.key (exercised candidate undelivered)] := by
      obtain ⟨name, kind, exchange, loop⟩ := run
      obtain rfl : loop = .handling candidate := hloop
      rw [notes, hfind]
    have hall := h.carries
    rw [hsplit, List.forall_mem_append, List.forall_mem_cons] at hall
    have hover : ∀ key, settledOf [.settled instance' candidate.armed.key (exercised candidate undelivered)] key =
        if key = candidate.armed.key then [exercised candidate undelivered] else [] := by
      intro key
      by_cases hkey : key = candidate.armed.key
      · simp [settledOf, hkey]
      · simp [settledOf, hkey, Ne.symm hkey]
    rw [hnoted]
    have hout : ∀ key, sourcesOf ((run.exchange.conclude candidate undelivered).outcomes key) =
        sourcesOf (run.exchange.outcomes key) ++
          if key = candidate.armed.key then [.exchanged (exercised candidate undelivered)] else [] := by
      intro key
      rw [ExchangeState.conclude, sourcesOf_record, sources_exchanged]
    have hpassive : Passive system.session candidate.armed.key.1 := hall.2.1.handling candidate hloop
    refine ⟨Continues.refl _, ?_, h.arming, fun key hne => ?_, fun key hne => ?_, fun key _ => ?_,
      fun _ _ => List.prefix_refl _⟩
    · exact List.forall_mem_append.2 ⟨hall.1, List.forall_mem_cons.2
        ⟨⟨hall.2.1.armed, fun _ hpolling => by cases hpolling⟩, hall.2.2⟩⟩
    · by_cases hkey : key = candidate.armed.key
      · rw [hkey]
        exact hpassive
      · refine h.underway key ?_
        simpa only [underway, hsplit, waiting_split, hout, if_neg hkey, List.append_nil] using hne
    · rw [hover] at hne
      split at hne
      · rename_i hkey
        rw [hkey]
        exact hpassive
      · exact absurd rfl hne
    · have hmap : ((if key = candidate.armed.key then [exercised candidate undelivered] else []).map Source.exchanged) =
          if key = candidate.armed.key then [.exchanged (exercised candidate undelivered)] else [] := by
        split <;> rfl
      simp only [kept, underway, hsplit, waiting_split, hout, hover, hmap, List.append_assoc]
      refine List.Perm.append_left _ (List.Perm.append_left _ (List.Perm.append_left _ (List.Perm.append_left _ ?_)))
      exact List.perm_append_comm
  · cases hrun

private theorem passes_ending {instance' : String} (h : Balanced system seen)
    (hstep : step world system (.ending instance') = some system') : Passes system system' [] := by
  obtain ⟨⟨mid, _⟩, hat, rfl⟩ := Option.map_eq_some_iff.1 hstep
  obtain ⟨before, run, run', after, hsplit, -, hrun, rfl⟩ := atTransport_some hat
  obtain ⟨rfl, -⟩ := Prod.mk.inj (Option.some.inj hrun)
  refine passes_transport h hsplit ?_ ?_ h.arming fun _ => rfl
  · rfl
  · exact fun hrun => ⟨hrun.armed, fun _ hloop => by cases hloop⟩

/-- What every step passes on. -/
theorem step_passes {event : Event} (h : Balanced system seen) (hstep : step world system event = some system') :
    Passes system system' (notes world system event) := by
  cases event with
  | addInteraction spec rawParts converted =>
    exact passes_request h hstep (continues_addInteraction h.numbered spec rawParts converted)
      fun key _ => merged_addInteraction h.numbered spec rawParts converted key
  | refuse refusal =>
    have hcont : Continues system.session (system.session.recordRefusal refusal) :=
      ⟨fun _ entry hentry => ⟨entry, hentry, rfl⟩, fun _ entry hentry => .inl ⟨entry, hentry, rfl⟩, id, id⟩
    exact passes_request h hstep hcont fun _ _ => rfl
  | startTransport kind number =>
    rw [step] at hstep
    split at hstep
    · obtain rfl := Option.some.inj hstep
      refine ⟨Continues.refl _, ?_, h.arming, fun key hne => h.underway key ?_, fun _ hne => absurd rfl hne, fun key _ => ?_,
        fun _ _ => List.prefix_refl _⟩
      · refine List.forall_mem_append.2 ⟨h.carries, List.forall_mem_singleton.2 ⟨?_, ?_⟩⟩
        · exact fun _ harmed => by cases harmed
        · exact fun _ hpolling => by cases hpolling
      · simpa [underway, waiting, sourcesOf, ExchangeState.initial] using hne
      · simp [kept, underway, waiting, sourcesOf, ExchangeState.initial, settledOf, notes]
    · cases hstep
  | variants handle selected =>
    exact passes_request h hstep (continues_modify _ _ fun _ => rfl)
      fun key _ => merged_modify (f := fun entry => { entry with selection := some selected }) (fun _ => rfl) key
  | serveVariant handle variantId => exact passes_serve h hstep
  | arm => exact passes_arm h hstep
  | reportVariant handle variantId verdict =>
    rw [step] at hstep
    split at hstep
    · rename_i hidle
      split at hstep
      · obtain rfl := Option.some.inj hstep
        exact passes_session h (Continues.refl _) (fun _ _ => rfl) h.arming fun _ => rfl
      · obtain rfl := Option.some.inj hstep
        refine passes_session h (Continues.refl _) (fun _ _ => rfl) (fun _ _ hne => (by cases hne)) fun key => ?_
        rw [taken_idle hidle]
        simp [taken]
    · cases hstep
  | settle => exact passes_settle h hstep
  | answer => exact passes_answer h hstep
  | finalise =>
    rw [step] at hstep
    split at hstep
    · rename_i hidle
      obtain rfl := Option.some.inj hstep
      exact passes_session h (Continues.refl _) (fun _ _ => rfl) (fun _ _ hne => (by cases hne))
        fun key => ((taken_idle hidle key).trans rfl).symm
    · cases hstep
  | drain => exact passes_drain h hstep
  | arrival instance' inbound =>
    have hquiet : ∀ key, settledOf (notes world system (.arrival instance' inbound)) key = [] := by
      intro key
      rw [notes]
      split
      · cases (ExchangeState.arrive _ _ _ inbound).2 <;> rfl
      · rfl
    have hpasses := passes_arrival h hstep
    refine ⟨hpasses.continues, hpasses.carries, hpasses.arming, hpasses.underway, fun key hne => absurd (hquiet key) hne,
      fun key hpassive => ?_, hpasses.merged⟩
    rw [hquiet]
    exact hpasses.kept key hpassive
  | delivery instance' undelivered => exact passes_delivery h hstep
  | ending instance' => exact passes_ending h hstep

end Steps

/-! What a whole run keeps. -/

section Runs

variable {world : World} {consumer provider : Contracts.Model.Party} {required : Bool}

theorem balanced_start : Balanced (System.start consumer provider required) [] where
  numbered _ _ h := by cases h
  ordered _ h := by cases h
  carries _ h := by cases h
  arming _ _ h := by cases h
  underway _ h := absurd rfl h
  settled _ h := absurd rfl h
  balance _ _ := List.Perm.refl _

theorem run_balanced {events : List Event} {system : System Ledger}
    (h : run (step world) (System.start consumer provider required) events = some system) :
    Balanced system (log (step world) (notes world) (System.start consumer provider required : System Ledger) events) :=
  run_invariant balanced_start (fun _ _ _ _ hbalanced hstep => hbalanced.passes (step_passes hbalanced hstep)) h

/-- A session runs as the reading of one that keeps what its evidence came from. -/
theorem ledgers_of_run {events : List Event} {system : System Exercised}
    (h : run (step world) (System.start consumer provider required) events = some system) :
    ∃ ledgers : System Ledger, run (step world) (System.start consumer provider required) events = some ledgers ∧
      mapSystem Ledger.weigh ledgers = system ∧
      log (step world) (notes world) (System.start consumer provider required : System Exercised) events =
        log (step world) (notes world) (System.start consumer provider required : System Ledger) events := by
  have hstart : mapSystem Ledger.weigh (System.start consumer provider required) =
      System.start consumer provider required := rfl
  rw [← hstart, run_map (step_map weigh_reading world)] at h
  obtain ⟨ledgers, hrun, rfl⟩ := Option.map_eq_some_iff.1 h
  refine ⟨ledgers, hrun, rfl, ?_⟩
  rw [← hstart]
  exact log_map (step_map weigh_reading world) (notes_map world) _ _

end Runs

end PactJanus.Session.Custody
