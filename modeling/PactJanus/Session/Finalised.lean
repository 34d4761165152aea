import PactJanus.Session.Custody

namespace PactJanus.Session.Finalised

open PactJanus.Lib.Lists PactJanus.Lib.PartialMap PactJanus.Lib.Machine PactJanus.Session.Exchange PactJanus.Session.Model
open PactJanus.Session.Interleaving PactJanus.Session.Attribution PactJanus.Session.Provenance PactJanus.Session.Custody

/-! What the evidence of a session comes to once its transports are gone. -/

variable {world : World} {consumer provider : Contracts.Model.Party} {required : Bool}

section Steps

variable {ε : Type}

/-- A finalised session has no transport left. -/
def Emptied (system : System ε) : Prop := system.dispatch = .finalised → system.transports = []

private theorem idle_emptied {system : System ε} (h : system.dispatch.isIdle = true) : Emptied system := by
  intro hfinalised
  rw [hfinalised] at h
  cases h

private theorem atTransport_emptied {α : Type} {instance' : String} {f : TransportRun ε → Option (TransportRun ε × α)}
    {system mid : System ε} {a : α} (h : atTransport instance' f system = some (mid, a)) (hs : Emptied system) :
    Emptied mid := by
  obtain ⟨before, run, run', after, hsplit, -, -, rfl⟩ := atTransport_some h
  intro hfinalised
  have hnil := hs hfinalised
  rw [hsplit] at hnil
  exact absurd hnil (by simp)

private theorem request_emptied {system system' : System ε} {session : ConsumerSession ε}
    (h : system.request session = some system') : Emptied system' := by
  rw [System.request] at h
  split at h
  · rename_i hidle
    obtain rfl := Option.some.inj h
    exact idle_emptied hidle
  · cases h

variable [Evidence ε]

private theorem step_emptied (system : System ε) (event : Event) (system' : System ε) (hs : Emptied system)
    (h : step world system event = some system') : Emptied system' := by
  cases event with
  | addInteraction spec rawParts converted => exact request_emptied h
  | refuse refusal => exact request_emptied h
  | startTransport kind number =>
    rw [step] at h
    split at h
    · rename_i hidle
      obtain rfl := Option.some.inj h
      exact idle_emptied hidle.1
    · cases h
  | variants handle selected => exact request_emptied h
  | serveVariant handle variantId =>
    rw [step, serve] at h
    split at h
    · rename_i hidle
      dsimp only at h
      split at h
      · obtain rfl := Option.some.inj h
        exact fun hfinalised => by cases hfinalised
      · obtain rfl := Option.some.inj h
        exact idle_emptied hidle
    · cases h
  | arm =>
    rw [step] at h
    split at h
    · obtain ⟨⟨mid, _⟩, -, rfl⟩ := Option.map_eq_some_iff.1 h
      exact fun hfinalised => by cases hfinalised
    · obtain rfl := Option.some.inj h
      exact fun hfinalised => by cases hfinalised
    · cases h
  | reportVariant handle variantId verdict =>
    rw [step] at h
    split at h
    · split at h <;> obtain rfl := Option.some.inj h
      · exact hs
      · exact fun hfinalised => by cases hfinalised
    · cases h
  | settle =>
    rw [step] at h
    split at h
    · obtain ⟨⟨mid, _, _⟩, -, rfl⟩ := Option.map_eq_some_iff.1 h
      exact fun hfinalised => by cases hfinalised
    · cases h
  | answer =>
    rw [step] at h
    split at h
    · obtain rfl := Option.some.inj h
      exact fun hfinalised => by cases hfinalised
    · cases h
  | finalise =>
    rw [step] at h
    split at h
    · obtain rfl := Option.some.inj h
      exact fun hfinalised => by cases hfinalised
    · cases h
  | drain =>
    rw [step] at h
    split at h
    · rename_i hnil
      obtain rfl := Option.some.inj h
      exact fun _ => hnil
    · rename_i hdispatch _
      obtain rfl := Option.some.inj h
      intro hfinalised
      cases hdispatch.symm.trans hfinalised
    · cases h
  | arrival instance' inbound =>
    obtain ⟨⟨mid, _⟩, hat, rfl⟩ := Option.map_eq_some_iff.1 h
    exact atTransport_emptied hat hs
  | delivery instance' undelivered =>
    obtain ⟨⟨mid, _⟩, hat, rfl⟩ := Option.map_eq_some_iff.1 h
    exact atTransport_emptied hat hs
  | ending instance' =>
    obtain ⟨⟨mid, _⟩, hat, rfl⟩ := Option.map_eq_some_iff.1 h
    exact atTransport_emptied hat hs

theorem run_emptied {events : List Event} {system : System ε}
    (h : run (step world) (System.start consumer provider required) events = some system) : Emptied system :=
  run_preserves step_emptied (fun hfinalised => by cases hfinalised) h

end Steps

private theorem foldl_failed (e : Exercised) (sources : List Source) :
    (sources.foldl (fun e source => e.merge source.exercised) e).outcome = .failed ↔
      e.outcome = .failed ∨ ∃ source ∈ sources, source.exercised.outcome = .failed := by
  induction sources generalizing e with
  | nil => simp
  | cons source sources ih =>
    have hmerge : (e.merge source.exercised).outcome = .failed ↔ e.outcome = .failed ∨ source.exercised.outcome = .failed := by
      simp only [Exercised.merge]
      split
      · rename_i hfailed
        simp [hfailed]
      · rename_i hnot
        simp [hnot]
    rw [List.foldl_cons, ih, hmerge, List.exists_mem_cons_iff, or_assoc]

private theorem foldl_mismatches (e : Exercised) (sources : List Source) :
    (sources.foldl (fun e source => e.merge source.exercised) e).mismatches =
      e.mismatches ++ sources.flatMap fun source => source.exercised.mismatches := by
  induction sources generalizing e with
  | nil => simp
  | cons source sources ih =>
    rw [List.foldl_cons, ih, List.flatMap_cons]
    exact List.append_assoc ..

theorem weigh_failed (ledger : Ledger) :
    ledger.weigh.outcome = .failed ↔ ∃ source ∈ ledger.sources, source.exercised.outcome = .failed := by
  rw [Ledger.weigh, foldl_failed, Ledger.sources, List.exists_mem_cons_iff]

theorem weigh_mismatches (ledger : Ledger) :
    ledger.weigh.mismatches = ledger.sources.flatMap fun source => source.exercised.mismatches :=
  foldl_mismatches _ _

section Answers

variable {session : ConsumerSession Exercised} {entry : InteractionEntry Exercised}

theorem variantStatus_verified_iff {id : String} :
    variantStatus session entry id = .verified ↔ (∀ report ∈ entry.reports id, report.passed = true) ∧
      (entry.exercised id).map Exercised.outcome = some .verified ∧
      (session.verdictsRequired = true → (entry.reports id).isSome = true) := by
  unfold variantStatus
  cases hreport : entry.reports id with
  | none =>
    cases hexercised : (entry.exercised id).map Exercised.outcome with
    | none => simp
    | some outcome => cases outcome <;> simp
  | some report =>
    cases hexercised : (entry.exercised id).map Exercised.outcome with
    | none => cases hpassed : report.passed <;> simp [hpassed]
    | some outcome => cases outcome <;> cases hpassed : report.passed <;> simp [hpassed]

/-- An interaction whose every selected variant is verified. -/
def Complete (session : ConsumerSession Exercised) (handle : String) : Prop :=
  ∃ entry selected, session.interactions handle = some entry ∧ entry.selection = some selected ∧
    ∀ v ∈ selected.variants, variantStatus session entry v.id = .verified

private theorem recorded_isSome_iff (world : World) {handle : String} :
    ((session.interactions handle).bind (recordedInteraction world session)).isSome = true ↔ Complete session handle := by
  unfold Complete recordedInteraction
  cases session.interactions handle with
  | none => simp
  | some entry =>
    cases hselected : entry.selection with
    | none => simp [hselected]
    | some selected =>
      simp only [Option.bind_some, hselected, Option.some.injEq, exists_and_left, exists_eq_left', List.all_eq_true,
        decide_eq_true_eq]
      split <;> simp_all

theorem contract_none_iff :
    contract world session = .ok none ↔ withheld session = true ∨ ¬∀ handle ∈ session.order, Complete session handle := by
  have hmap : ∀ {assembled : Except (List Contracts.Files.Problem) Contracts.Model.Contract},
      assembled.map some ≠ .ok none := by
    intro assembled
    cases assembled <;> simp [Except.map]
  unfold contract
  split
  · rename_i hwithheld
    exact iff_of_true rfl (.inl hwithheld)
  · rename_i hwithheld
    simp only [hwithheld, Bool.false_eq_true, false_or, ← recorded_isSome_iff world, ← mapM_isSome_iff]
    split
    · rename_i hnone
      simp [hnone]
    · rename_i interactions hsome
      simp [hsome, hmap]

private theorem worst_verified {statuses : List VariantStatus} :
    (worst statuses).getD .verified = .verified ↔ ∀ status ∈ statuses, status = .verified := by
  induction statuses with
  | nil => simp [worst]
  | cons status rest ih =>
    rw [worst, List.forall_mem_cons, ← ih]
    cases hrest : worst rest with
    | none => simp
    | some other => cases status <;> cases other <;> simp [VariantStatus.rank]

theorem interactionResult_verified_iff {handle : String} :
    (interactionResult session handle entry).status = .verified ↔
      ∃ selected, entry.selection = some selected ∧ ∀ v ∈ selected.variants, variantStatus session entry v.id = .verified := by
  unfold interactionResult
  cases entry.selection with
  | none => simp
  | some selected => simp [worst_verified, variantResult]

end Answers

private def finalising : List Event := [.finalise, .ending "t-1", .drain, .drain]

variable (world consumer provider required) in
/-- The exchanges of a variant that a run is over with. -/
def settledBy (events : List Event) (key : Key) : List Exercised :=
  settledOf (log (step world) (notes world) (System.start consumer provider required : System Exercised) events) key

theorem passive_map {ε δ : Type} {f : ε → δ} {session : ConsumerSession ε} {handle : String} :
    Passive (mapSession f session) handle ↔ Passive session handle := by
  constructor
  · rintro ⟨entry, hentry, hpassive⟩
    obtain ⟨ledger, hledger, rfl⟩ := Option.map_eq_some_iff.1 hentry
    exact ⟨ledger, hledger, hpassive⟩
  · rintro ⟨entry, hentry, hpassive⟩
    exact ⟨mapEntry f entry, by simp [mapSession, hentry], hpassive⟩

/-- All along a run each exchange that is over is in one place, as often as it was noted: in the evidence of the
variant it was attributed to, with the report being answered, or on its transport. -/
theorem settled_exchanges_kept {events : List Event} {system : System Exercised}
    (h : run (step world) (System.start consumer provider required) events = some system) :
    ∃ ledgers : System Ledger, mapSystem Ledger.weigh ledgers = system ∧ ∀ key,
      (settledBy world consumer provider required events key ≠ [] → Passive system.session key.1) ∧
      (Passive system.session key.1 →
        ((settledBy world consumer provider required events key).map .exchanged).Perm (kept ledgers key)) := by
  obtain ⟨ledgers, hrun, rfl, hlog⟩ := ledgers_of_run h
  have hbalanced := run_balanced hrun
  refine ⟨ledgers, rfl, fun key => ⟨fun hne => passive_map.2 (hbalanced.settled key ?_),
    fun hpassive => ?_⟩⟩
  · rwa [settledBy, hlog] at hne
  · rw [settledBy, hlog]
    exact hbalanced.balance key (passive_map.1 hpassive)

theorem settled_exchanges_kept_asked :
    ∃ system : System Exercised, run (step serving) (System.start ⟨"web"⟩ ⟨"orders"⟩ true) (asked none) = some system ∧
      ∃ ledgers : System Ledger, mapSystem Ledger.weigh ledgers = system ∧ ∀ key,
        (settledBy serving ⟨"web"⟩ ⟨"orders"⟩ true (asked none) key ≠ [] → Passive system.session key.1) ∧
        (Passive system.session key.1 →
          ((settledBy serving ⟨"web"⟩ ⟨"orders"⟩ true (asked none) key).map .exchanged).Perm (kept ledgers key)) :=
  ⟨_, rfl, settled_exchanges_kept rfl⟩

/-- Evidence kept with its sources comes to what the exchanges it was made of come to. -/
theorem evidence_weighed {settled : List Exercised} {ledger : Option Ledger}
    (h : (settled.map Source.exchanged).Perm (sourcesOf ledger)) :
    (ledger.map Ledger.weigh = none ↔ settled = []) ∧ ∀ e ∈ ledger.map Ledger.weigh,
      (e.outcome = .failed ↔ ∃ x ∈ settled, x.outcome = .failed) ∧
        e.mismatches.Perm (settled.flatMap Exercised.mismatches) := by
  cases ledger with
  | none => exact ⟨iff_of_true rfl (List.map_eq_nil_iff.1 h.eq_nil), fun _ he => by cases he⟩
  | some ledger =>
    refine ⟨iff_of_false (by simp) fun hnil => ?_, ?_⟩
    · rw [hnil] at h
      exact absurd h.symm.eq_nil (by simp [sourcesOf, Ledger.sources])
    · rintro e ⟨⟩
      constructor
      · rw [weigh_failed]
        have hmem : ∀ source, source ∈ ledger.sources ↔ source ∈ settled.map Source.exchanged :=
          fun source => h.symm.mem_iff
        constructor
        · rintro ⟨source, hsource, hfailed⟩
          obtain ⟨x, hx, rfl⟩ := List.mem_map.1 ((hmem source).1 hsource)
          exact ⟨x, hx, hfailed⟩
        · rintro ⟨x, hx, hfailed⟩
          exact ⟨.exchanged x, (hmem _).2 (List.mem_map_of_mem hx), hfailed⟩
      · rw [weigh_mismatches]
        exact (h.symm.flatMap_right _).trans (List.Perm.of_eq (List.flatMap_map ..))

/-- Once a session is finalised, all that its transports carried out of a variant is in the variant's evidence. -/
theorem settled_merged {events : List Event} {system : System Exercised}
    (h : run (step world) (System.start consumer provider required) events = some system)
    (hfinalised : system.dispatch = .finalised) {handle : String} {entry : InteractionEntry Exercised}
    (hentry : system.session.interactions handle = some entry) (hpassive : emissiveKind entry.spec = none) (id : String) :
    ∃ ledger : Option Ledger, ledger.map Ledger.weigh = entry.exercised id ∧
      ((settledBy world consumer provider required events (handle, id)).map Source.exchanged).Perm (sourcesOf ledger) := by
  obtain ⟨ledgers, hrun, rfl, hlog⟩ := ledgers_of_run h
  obtain ⟨ledgerEntry, hledgers, rfl⟩ := Option.map_eq_some_iff.1 hentry
  have hgone : ledgers.dispatch = .finalised := by
    cases hdispatch : ledgers.dispatch with
    | finalised => rfl
    | _ => simp [mapSystem, mapDispatch, hdispatch] at hfinalised
  have hbalance := (run_balanced hrun).balance (handle, id) ⟨ledgerEntry, hledgers, hpassive⟩
  rw [← hlog, kept, underway, run_emptied hrun hgone, hgone, merged, hledgers, Option.bind_some] at hbalance
  simp only [taken, waiting, List.flatMap_nil, List.append_nil] at hbalance
  exact ⟨ledgerEntry.exercised id, rfl, hbalance⟩

/-- Once a session is finalised, the evidence of a variant the transports carried out is what its exchanges come to. -/
theorem finalised_evidence {events : List Event} {system : System Exercised}
    (h : run (step world) (System.start consumer provider required) events = some system)
    (hfinalised : system.dispatch = .finalised) {handle : String} {entry : InteractionEntry Exercised}
    (hentry : system.session.interactions handle = some entry) (hpassive : emissiveKind entry.spec = none) (id : String) :
    (entry.exercised id = none ↔ settledBy world consumer provider required events (handle, id) = []) ∧
      ∀ e ∈ entry.exercised id,
        (e.outcome = .failed ↔
          ∃ x ∈ settledBy world consumer provider required events (handle, id), x.outcome = .failed) ∧
        e.mismatches.Perm
          ((settledBy world consumer provider required events (handle, id)).flatMap Exercised.mismatches) := by
  obtain ⟨ledger, hledger, hperm⟩ := settled_merged h hfinalised hentry hpassive id
  rw [← hledger]
  exact evidence_weighed hperm

/-- All along a run the interactions that were added are there, in the order they were added. -/
theorem run_ordered {events : List Event} {system : System Exercised}
    (h : run (step world) (System.start consumer provider required) events = some system) : Ordered system.session := by
  obtain ⟨ledgers, hrun, rfl, -⟩ := ledgers_of_run h
  intro handle hmem
  have hkept := (run_balanced hrun).ordered handle hmem
  simpa [mapSystem, mapSession] using hkept

/-- All along a run a contract is written, or refused for its problems, exactly where nothing withholds it and each
result says that its interaction is verified. -/
theorem contract_given_iff {events : List Event} {system : System Exercised}
    (h : run (step world) (System.start consumer provider required) events = some system) :
    contract world system.session ≠ .ok none ↔
      withheld system.session = false ∧ ∀ result ∈ results system.session, result.status = .verified := by
  rw [ne_eq, contract_none_iff, not_or, not_not, Bool.not_eq_true]
  refine and_congr_right fun _ => ?_
  simp only [results, List.mem_filterMap, Option.map_eq_some_iff]
  constructor
  · rintro hall result ⟨handle, hmem, entry, hentry, rfl⟩
    obtain ⟨other, selected, hother, hselected, hverified⟩ := hall handle hmem
    obtain rfl := Option.some.inj (hentry.symm.trans hother)
    exact interactionResult_verified_iff.2 ⟨selected, hselected, hverified⟩
  · intro hall handle hmem
    obtain ⟨entry, hentry⟩ := Option.isSome_iff_exists.1 (run_ordered h handle hmem)
    obtain ⟨selected, hselected, hverified⟩ :=
      interactionResult_verified_iff.1 (hall _ ⟨handle, hmem, entry, hentry, rfl⟩)
    exact ⟨entry, selected, hentry, hselected, hverified⟩

/-- What was merged into the evidence of a variant stays there. -/
theorem merged_run {seen : List Note} {ledgers ledgers' : System Ledger} {events : List Event}
    (h : Balanced ledgers seen) (hrun : run (step world) ledgers events = some ledgers') (key : Key)
    (hpassive : Passive ledgers.session key.1) :
    merged ledgers.session key <+: merged ledgers'.session key ∧ Passive ledgers'.session key.1 := by
  induction events generalizing ledgers seen with
  | nil =>
    obtain rfl : ledgers = ledgers' := Option.some.inj hrun
    exact ⟨List.prefix_refl _, hpassive⟩
  | cons event events ih =>
    obtain ⟨mid, hstep, hrest⟩ := Option.bind_eq_some_iff.1 hrun
    have hpasses := step_passes h hstep
    obtain ⟨hstart, hlast⟩ := ih (h.passes hpasses) hrest (hpassive.continues hpasses.continues)
    exact ⟨(hpasses.merged key hpassive).trans hstart, hlast⟩

/-- Once a failed exchange is in the evidence of a variant, the variant has failed from then on. -/
theorem failure_stays {events later : List Event} {system system' : System Exercised}
    (h : run (step world) (System.start consumer provider required) events = some system)
    (hlater : run (step world) system later = some system') {handle id : String} {entry : InteractionEntry Exercised}
    (hentry : system.session.interactions handle = some entry) (hpassive : emissiveKind entry.spec = none)
    (hfailed : (entry.exercised id).map Exercised.outcome = some .failed) :
    ∃ entry', system'.session.interactions handle = some entry' ∧ variantStatus system'.session entry' id = .failed := by
  obtain ⟨ledgers, hrun, rfl, -⟩ := ledgers_of_run h
  rw [run_map (step_map weigh_reading world)] at hlater
  obtain ⟨ledgers', hrest, rfl⟩ := Option.map_eq_some_iff.1 hlater
  obtain ⟨ledgerEntry, hledgers, rfl⟩ := Option.map_eq_some_iff.1 hentry
  obtain ⟨hstart, entry', hentry', -⟩ := merged_run (run_balanced hrun) hrest (handle, id)
    ⟨ledgerEntry, hledgers, hpassive⟩
  simp only [merged, hledgers, hentry', Option.bind_some] at hstart
  obtain ⟨ledger, hledger, hweigh⟩ : ∃ ledger, ledgerEntry.exercised id = some ledger ∧ ledger.weigh.outcome = .failed := by
    have hexercised : (mapEntry Ledger.weigh ledgerEntry).exercised id = (ledgerEntry.exercised id).map Ledger.weigh := rfl
    rw [hexercised, Option.map_map] at hfailed
    exact Option.map_eq_some_iff.1 hfailed
  obtain ⟨source, hsource, hfailing⟩ := (weigh_failed ledger).1 hweigh
  rw [hledger] at hstart
  refine ⟨mapEntry Ledger.weigh entry', by simp [mapSystem, mapSession, hentry'], ?_⟩
  have hmem : source ∈ sourcesOf (entry'.exercised id) := hstart.subset hsource
  cases hledger' : entry'.exercised id with
  | none =>
    rw [hledger'] at hmem
    exact absurd hmem (by simp [sourcesOf])
  | some ledger' =>
    rw [hledger'] at hmem
    have hstill : ledger'.weigh.outcome = .failed := (weigh_failed ledger').2 ⟨source, hmem, hfailing⟩
    have hexercised : ((mapEntry Ledger.weigh entry').exercised id).map Exercised.outcome = some .failed := by
      change ((entry'.exercised id).map Ledger.weigh).map Exercised.outcome = some .failed
      rw [hledger', Option.map_some, Option.map_some, hstill]
    unfold variantStatus
    simp only [hexercised]
    split <;> rfl

/-- A variant whose first answer is lost fails, though all that follows of it is verified. -/
theorem failure_stays_lost :
    ∃ (system system' : System Exercised) (entry' : InteractionEntry Exercised),
      run (step serving) (System.start ⟨"web"⟩ ⟨"orders"⟩ true) (asked (some "gone")) = some system ∧
        run (step serving) system finalising = some system' ∧ system'.session.interactions "i-1" = some entry' ∧
        variantStatus system'.session entry' "base" = .failed := by
  obtain ⟨system, system', entry, hrun, hlater, hentry, hpassive, hfailed⟩ :
      ∃ (system system' : System Exercised) (entry : InteractionEntry Exercised),
        run (step serving) (System.start ⟨"web"⟩ ⟨"orders"⟩ true) (asked (some "gone")) = some system ∧
          run (step serving) system finalising = some system' ∧ system.session.interactions "i-1" = some entry ∧
          emissiveKind entry.spec = none ∧ (entry.exercised "base").map Exercised.outcome = some .failed :=
    ⟨_, _, _, rfl, rfl, rfl, rfl, rfl⟩
  obtain ⟨entry', hentry', hstays⟩ := failure_stays hrun hlater hentry hpassive hfailed
  exact ⟨system, system', entry', hrun, hlater, hentry', hstays⟩

end PactJanus.Session.Finalised
