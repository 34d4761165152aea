import PactJanus.Session.Interleaving

namespace PactJanus.Session.Provenance

open PactJanus.Lib.Lists PactJanus.Lib.PartialMap PactJanus.Lib.Machine PactJanus.Session.Exchange PactJanus.Session.Model
open PactJanus.Session.Interleaving

/-! The evidence of a variant as the exchanges it was merged from. A session that keeps these in place of the evidence
runs as the session itself does. -/

/-- What a piece of evidence came from: a variant handed to its test, or an exchange of it. -/
inductive Source where
  | handed (exercised : Exercised)
  | exchanged (exercised : Exercised)

def Source.exercised : Source → Exercised
  | .handed e => e
  | .exchanged e => e

/-- All a variant's evidence came from, in the order it was merged in. -/
structure Ledger where
  first : Source
  later : List Source

instance : Evidence Ledger where
  exchanged e := ⟨.exchanged e, []⟩
  handed e := ⟨.handed e, []⟩
  merge a b := ⟨a.first, a.later ++ b.first :: b.later⟩

/-- The evidence a ledger comes to. -/
def Ledger.weigh (ledger : Ledger) : Exercised :=
  ledger.later.foldl (fun e source => e.merge source.exercised) ledger.first.exercised

def Ledger.sources (ledger : Ledger) : List Source := ledger.first :: ledger.later

theorem merge_assoc (a b c : Exercised) : (a.merge b).merge c = a.merge (b.merge c) := by
  have houtcome : ((a.merge b).merge c).outcome = (a.merge (b.merge c)).outcome := by
    cases hc : c.outcome <;> simp [Exercised.merge, hc]
  simp only [Exercised.merge, List.append_assoc, Exercised.mk.injEq, and_true] at houtcome ⊢
  exact houtcome

private theorem foldl_merge (a b : Exercised) (sources : List Source) :
    sources.foldl (fun e source => e.merge source.exercised) (a.merge b) =
      a.merge (sources.foldl (fun e source => e.merge source.exercised) b) := by
  induction sources generalizing b with
  | nil => rfl
  | cons source sources ih =>
    rw [List.foldl_cons, List.foldl_cons, merge_assoc]
    exact ih _

@[simp] theorem sources_merge (a b : Ledger) : (Evidence.merge a b).sources = a.sources ++ b.sources := rfl

@[simp] theorem sources_exchanged (e : Exercised) : (Evidence.exchanged e : Ledger).sources = [.exchanged e] := rfl

section Reading

variable {ε δ : Type} [Evidence ε] [Evidence δ]

/-- A reading of evidence as other evidence, which may be taken before or after merging. -/
structure Reading (f : ε → δ) : Prop where
  exchanged : ∀ e, f (Evidence.exchanged e) = Evidence.exchanged e
  handed : ∀ e, f (Evidence.handed e) = Evidence.handed e
  merge : ∀ a b, f (Evidence.merge a b) = Evidence.merge (f a) (f b)

end Reading

theorem weigh_reading : Reading Ledger.weigh where
  exchanged _ := rfl
  handed _ := rfl
  merge a b := by
    change (a.later ++ b.first :: b.later).foldl _ _ = _
    rw [List.foldl_append, List.foldl_cons]
    exact foldl_merge _ _ _

/-! A system with its evidence read as other evidence. -/

section Map

variable {ε δ : Type} (f : ε → δ)

def mapEntry (entry : InteractionEntry ε) : InteractionEntry δ :=
  ⟨entry.spec, entry.rawParts, entry.selection, entry.armed, entry.exercised.mapped f, entry.reports, entry.armings,
    entry.converted⟩

def mapSession (session : ConsumerSession ε) : ConsumerSession δ :=
  ⟨session.consumer, session.provider, session.interactions.mapped (mapEntry f), session.order, session.nextHandle,
    session.verdictsRequired, session.refused⟩

def mapExchange (state : ExchangeState ε) : ExchangeState δ := ⟨state.armed, state.inFlight, state.outcomes.mapped f⟩

def mapRun (run : TransportRun ε) : TransportRun δ := ⟨run.instance', run.kind, mapExchange f run.exchange, run.loop⟩

def mapDispatch : Dispatch ε → Dispatch δ
  | .idle => .idle
  | .arming armed waiting => .arming armed waiting
  | .settling handle variantId verdict waiting settled late =>
    .settling handle variantId verdict waiting (settled.map f) late
  | .stopping => .stopping
  | .finalised => .finalised

def mapSystem (system : System ε) : System δ :=
  ⟨mapSession f system.session, system.transports.map (mapRun f), system.nextTransport, mapDispatch f system.dispatch⟩

variable {f}

theorem isIdle_map (dispatch : Dispatch ε) : (mapDispatch f dispatch).isIdle = dispatch.isIdle := by
  cases dispatch <;> rfl

private theorem request_map (system : System ε) (session : ConsumerSession ε) :
    (mapSystem f system).request (mapSession f session) = (system.request session).map (mapSystem f) := by
  rw [System.request, System.request, mapSystem, isIdle_map]
  split <;> rfl

private theorem addInteraction_map (session : ConsumerSession ε) (spec : InteractionSpec) (rawParts) (converted) :
    (mapSession f session).addInteraction spec rawParts converted =
      mapSession f (session.addInteraction spec rawParts converted) := by
  simp only [ConsumerSession.addInteraction, mapSession, PMap.mapped_insert]
  rfl

private theorem variants_map (session : ConsumerSession ε) (handle : String) (selected : Selected) :
    (mapSession f session).variants handle selected = mapSession f (session.variants handle selected) := by
  simp only [ConsumerSession.variants, mapSession]
  rw [PMap.mapped_modify (mapEntry f) _ (fun entry => { entry with selection := some selected }) fun _ => rfl]

private theorem reportRefused_map (session : ConsumerSession ε) (handle variantId : String) :
    (mapSession f session).reportRefused handle variantId = session.reportRefused handle variantId := by
  simp only [ConsumerSession.reportRefused, mapSession, PMap.mapped_apply]
  cases session.interactions handle <;> rfl

private theorem atTransport_map {α β : Type} {k : α → β} {g : TransportRun ε → Option (TransportRun ε × α)}
    {g' : TransportRun δ → Option (TransportRun δ × β)}
    (h : ∀ run, g' (mapRun f run) = (g run).map (Prod.map (mapRun f) k)) (instance' : String) (system : System ε) :
    atTransport instance' g' (mapSystem f system) =
      (atTransport instance' g system).map (Prod.map (mapSystem f) k) := by
  have hat := stepAt_map (fun run : TransportRun ε => run.instance' == instance')
    (fun run : TransportRun δ => run.instance' == instance') (fun _ => rfl) h system.transports
  rw [atTransport, atTransport, mapSystem, hat]
  cases stepAt _ g system.transports <;> rfl

private theorem arrive_map (world : World) (inbound : Parts) (run : TransportRun ε) :
    (mapRun f run).arrive world inbound = (run.arrive world inbound).map (Prod.map (mapRun f) id) := by
  obtain ⟨name, kind, exchange, loop⟩ := run
  cases loop <;> rfl

private theorem settle_map (key : Key) (run : TransportRun ε) :
    (mapRun f run).settle key = (run.settle key).map (Prod.map (mapRun f) (Prod.map (Option.map f) id)) := by
  simp only [TransportRun.settle, ExchangeState.settle, mapRun, mapExchange, Option.map_some, Prod.map_apply,
    PMap.mapped_remove, PMap.mapped_apply, id_eq]
  rfl

private theorem armWith_map (armed : ArmedExchange) (run : TransportRun ε) :
    (mapRun f run).armWith armed = (run.armWith armed).map (Prod.map (mapRun f) id) := rfl

private theorem endLoop_map (run : TransportRun ε) :
    (mapRun f run).endLoop = run.endLoop.map (Prod.map (mapRun f) id) := rfl

variable [Evidence ε] [Evidence δ] (hf : Reading f)

include hf

private theorem serveVariant_map (world : World) (running : List String) (session : ConsumerSession ε)
    (handle variantId : String) :
    (mapSession f session).serveVariant world running handle variantId =
      (mapSession f (session.serveVariant world running handle variantId).1,
        (session.serveVariant world running handle variantId).2) := by
  have hput : ∀ entry, ({ mapSession f session with
      interactions := (mapSession f session).interactions.insert handle (mapEntry f entry) } : ConsumerSession δ) =
      mapSession f { session with interactions := session.interactions.insert handle entry } := by
    intro entry
    simp only [mapSession, PMap.mapped_insert]
  simp only [ConsumerSession.serveVariant]
  have hentry : (mapSession f session).interactions handle = (session.interactions handle).map (mapEntry f) := rfl
  rw [hentry]
  cases session.interactions handle with
  | none => rfl
  | some entry =>
    simp only [Option.map_some]
    have hselection : (mapEntry f entry).selection = entry.selection := rfl
    have hspec : (mapEntry f entry).spec = entry.spec := rfl
    rw [hselection, hspec]
    cases entry.selection.bind fun selected => selected.variants.find? fun v => v.id = variantId with
    | none => rfl
    | some variant =>
      have harming : (mapEntry f entry).arming world variant = entry.arming world variant := rfl
      have hhanded : (entry.exercised.insert variantId
          (Evidence.handed ⟨.verified, (entry.arming world variant).parts, []⟩)).mapped f =
          (mapEntry f entry).exercised.insert variantId
            (Evidence.handed ⟨.verified, (entry.arming world variant).parts, []⟩) := by
        rw [PMap.mapped_insert, hf.handed]
        rfl
      have harmed := hput { entry with
        armings := entry.armings.insert variantId (entry.arming world variant), armed := some variantId }
      have hhandedOver := hput { entry with
        armings := entry.armings.insert variantId (entry.arming world variant), armed := some variantId
        exercised := entry.exercised.insert variantId
          (Evidence.handed ⟨.verified, (entry.arming world variant).parts, []⟩) }
      simp only [mapEntry, hhanded] at hhandedOver
      dsimp only
      rw [harming]
      cases emissiveKind entry.spec with
      | none =>
        cases passiveKind entry.spec <;> cases (entry.arming world variant).requestPlan <;> exact Prod.ext harmed rfl
      | some kind =>
        dsimp only
        split
        · exact Prod.ext harmed rfl
        · exact Prod.ext hhandedOver rfl

private theorem collect_map (session : ConsumerSession ε) (handle variantId : String) (verdict : TestVerdict)
    (settled : List ε) : (mapSession f session).collect handle variantId verdict (settled.map f) =
      mapSession f (session.collect handle variantId verdict settled) := by
  have hfold : ∀ exercised : PMap String ε,
      (settled.map f).foldl (fun exercised e => exercised.record Evidence.merge variantId e) (exercised.mapped f) =
        (settled.foldl (fun exercised e => exercised.record Evidence.merge variantId e) exercised).mapped f := by
    induction settled with
    | nil => exact fun _ => rfl
    | cons e settled ih =>
      intro exercised
      rw [List.map_cons, List.foldl_cons, List.foldl_cons, ← ih, PMap.mapped_record hf.merge]
  simp only [ConsumerSession.collect, mapSession]
  rw [PMap.mapped_modify (mapEntry f) _ (fun entry => { entry with
    exercised := (settled.map f).foldl (fun exercised e => exercised.record Evidence.merge variantId e) entry.exercised
    armed := if entry.armed = some variantId then none else entry.armed
    reports := entry.reports.insert variantId verdict })]
  intro entry
  simp only [mapEntry, hfold]
  rfl

private theorem drain_map (session : ConsumerSession ε) (outcomes : PMap Key ε) :
    (mapSession f session).drain (outcomes.mapped f) = mapSession f (session.drain outcomes) := by
  have hinteractions : ((mapSession f session).drain (outcomes.mapped f)).interactions =
      (mapSession f (session.drain outcomes)).interactions := by
    funext handle
    simp only [ConsumerSession.drain, mapSession, PMap.mapped_apply, Option.map_map]
    refine congrArg (fun g => Option.map g (session.interactions handle)) (funext fun entry => ?_)
    have hexercised : (fun variantId => Option.merge Evidence.merge ((entry.exercised variantId).map f)
        ((outcomes (handle, variantId)).map f)) = PMap.mapped f fun variantId =>
          Option.merge Evidence.merge (entry.exercised variantId) (outcomes (handle, variantId)) :=
      funext fun variantId => (map_merge hf.merge _ _).symm
    simp only [Function.comp_apply, mapEntry, PMap.mapped_apply, hexercised]
  simp only [ConsumerSession.drain, mapSession, ConsumerSession.mk.injEq, and_true, true_and] at hinteractions ⊢
  exact hinteractions

private theorem conclude_map (state : ExchangeState ε) (candidate : Candidate) (undelivered : Option String) :
    (mapExchange f state).conclude candidate undelivered = mapExchange f (state.conclude candidate undelivered) := by
  simp only [ExchangeState.conclude, mapExchange, PMap.mapped_record hf.merge, hf.exchanged]

private theorem deliver_map (undelivered : Option String) (run : TransportRun ε) :
    (mapRun f run).deliver undelivered = (run.deliver undelivered).map (Prod.map (mapRun f) id) := by
  obtain ⟨name, kind, exchange, loop⟩ := run
  cases loop with
  | handling candidate =>
    simp only [TransportRun.deliver, mapRun, conclude_map hf, Option.map_some]
    rfl
  | _ => rfl

private theorem serve_map (world : World) (system : System ε) (handle variantId : String) :
    serve world (mapSystem f system) handle variantId = (serve world system handle variantId).map (mapSystem f) := by
  have hkinds : (mapSystem f system).transports.map TransportRun.kind = system.transports.map TransportRun.kind := by
    rw [mapSystem, List.map_map]
    rfl
  have hserved := serveVariant_map hf world (system.transports.map TransportRun.kind) system.session handle variantId
  simp only [serve, hkinds]
  rw [show (mapSystem f system).session = mapSession f system.session from rfl,
    show (mapSystem f system).dispatch = mapDispatch f system.dispatch from rfl, isIdle_map, hserved]
  split
  · dsimp only
    split
    · rename_i kind armed _
      have hnames : (((mapSystem f system).transports.filter fun run => run.kind = kind).map TransportRun.instance') =
          (system.transports.filter fun run => run.kind = kind).map TransportRun.instance' := by
        rw [mapSystem, List.filter_map, List.map_map]
        rfl
      simp only [hnames, Option.map_some]
      rfl
    · rfl
  · rfl

/-- A session steps as the reading of one that keeps other evidence. -/
theorem step_map (world : World) (system : System ε) (event : Event) :
    step world (mapSystem f system) event = (step world system event).map (mapSystem f) := by
  cases event with
  | addInteraction spec rawParts converted =>
    rw [step, step, ← request_map, ← addInteraction_map]
    rfl
  | refuse refusal =>
    rw [step, step, ← request_map]
    rfl
  | startTransport kind number =>
    simp only [step]
    rw [show (mapSystem f system).dispatch = mapDispatch f system.dispatch from rfl, isIdle_map,
      show (mapSystem f system).nextTransport = system.nextTransport from rfl]
    split
    · simp only [Option.map_some, mapSystem, List.map_append, List.map_cons, List.map_nil]
      rfl
    · rfl
  | variants handle selected =>
    rw [step, step, ← request_map, ← variants_map]
    rfl
  | serveVariant handle variantId => exact serve_map hf world system handle variantId
  | arm =>
    obtain ⟨session, transports, nextTransport, dispatch⟩ := system
    cases dispatch with
    | arming armed waiting =>
      cases waiting with
      | nil => rfl
      | cons instance' waiting =>
        have hat := atTransport_map (armWith_map (f := f) armed) instance'
          (⟨session, transports, nextTransport, .arming armed (instance' :: waiting)⟩ : System ε)
        simp only [step, mapSystem, mapDispatch] at hat ⊢
        rw [hat, Option.map_map, Option.map_map]
        rfl
    | _ => rfl
  | reportVariant handle variantId verdict =>
    simp only [step]
    rw [show (mapSystem f system).dispatch = mapDispatch f system.dispatch from rfl, isIdle_map,
      show (mapSystem f system).session = mapSession f system.session from rfl, reportRefused_map]
    split
    · cases system.session.reportRefused handle variantId with
      | some _ => rfl
      | none =>
        have hnames : (mapSystem f system).transports.map TransportRun.instance' =
            system.transports.map TransportRun.instance' := by
          rw [mapSystem, List.map_map]
          rfl
        simp only [hnames, Option.map_some]
        rfl
    · rfl
  | settle =>
    obtain ⟨session, transports, nextTransport, dispatch⟩ := system
    cases dispatch with
    | settling handle variantId verdict waiting settled late =>
      cases waiting with
      | nil => rfl
      | cons instance' waiting =>
        have hat := atTransport_map (settle_map (f := f) (handle, variantId)) instance'
          (⟨session, transports, nextTransport,
            .settling handle variantId verdict (instance' :: waiting) settled late⟩ : System ε)
        simp only [step, mapSystem, mapDispatch] at hat ⊢
        rw [hat, Option.map_map, Option.map_map]
        refine congrArg (fun g => Option.map g _) (funext fun x => ?_)
        obtain ⟨mid, taken, underway⟩ := x
        cases taken <;> simp [mapSystem, mapDispatch]
    | _ => rfl
  | answer =>
    obtain ⟨session, transports, nextTransport, dispatch⟩ := system
    cases dispatch with
    | settling handle variantId verdict waiting settled late =>
      cases waiting with
      | nil =>
        simp only [step, mapSystem, mapDispatch, collect_map hf, Option.map_some]
      | cons instance' waiting => rfl
    | _ => rfl
  | finalise =>
    simp only [step]
    rw [show (mapSystem f system).dispatch = mapDispatch f system.dispatch from rfl, isIdle_map]
    split <;> rfl
  | drain =>
    obtain ⟨session, transports, nextTransport, dispatch⟩ := system
    cases dispatch with
    | stopping =>
      cases transports with
      | nil => rfl
      | cons run rest =>
        obtain ⟨name, kind, exchange, loop⟩ := run
        cases loop with
        | ended =>
          have hdrain := drain_map hf session exchange.outcomes
          simp only [step, mapSystem, mapDispatch, List.map_cons, mapRun, mapExchange, Option.map_some, hdrain]
        | _ => rfl
    | _ => cases transports <;> rfl
  | arrival instance' inbound =>
    rw [step, step, atTransport_map (arrive_map world inbound)]
    cases atTransport instance' (TransportRun.arrive world inbound) system <;> rfl
  | delivery instance' undelivered =>
    rw [step, step, atTransport_map (deliver_map hf undelivered)]
    cases atTransport instance' (TransportRun.deliver undelivered) system <;> rfl
  | ending instance' =>
    rw [step, step, atTransport_map endLoop_map]
    cases atTransport instance' TransportRun.endLoop system <;> rfl

omit hf [Evidence ε] [Evidence δ] in
/-- A step is noted alike whatever evidence is kept. -/
theorem notes_map [Evidence ε] [Evidence δ] (world : World) (system : System ε) (event : Event) :
    notes world (mapSystem f system) event = notes world system event := by
  have hfind : ∀ instance', (mapSystem f system).transports.find? (fun run => run.instance' == instance') =
      (system.transports.find? fun run => run.instance' == instance').map (mapRun f) := by
    intro instance'
    rw [mapSystem, List.find?_map]
    rfl
  cases event with
  | arrival instance' inbound =>
    simp only [notes, hfind]
    cases system.transports.find? fun run => run.instance' == instance' with
    | none => rfl
    | some run =>
      obtain ⟨name, kind, exchange, loop⟩ := run
      cases loop <;> rfl
  | delivery instance' undelivered =>
    simp only [notes, hfind]
    cases system.transports.find? fun run => run.instance' == instance' with
    | none => rfl
    | some run =>
      obtain ⟨name, kind, exchange, loop⟩ := run
      cases loop <;> rfl
  | _ => rfl

end Map

end PactJanus.Session.Provenance
