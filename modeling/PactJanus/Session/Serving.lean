import PactJanus.Session.Interleaving

namespace PactJanus.Session.Serving

open PactJanus.Lib.PartialMap PactJanus.Contracts.Model PactJanus.Session.Exchange PactJanus.Session.Model
open PactJanus.Session.Interleaving

/-! What a request to serve a variant leaves of the session when it is refused. -/

section Session

variable {ε : Type} {world : World} {running : List String} {session : ConsumerSession ε}
  {handle variantId : String} {entry : InteractionEntry ε} {variant : Variant}

/-- The variant of an interaction's selection that a request names. -/
def InteractionEntry.selected (entry : InteractionEntry ε) (variantId : String) : Option Variant :=
  entry.selection.bind fun selected => selected.variants.find? fun v => v.id = variantId

/-- The variant is the one armed last, and what arming it takes has been worked out. -/
def AlreadyArmed (entry : InteractionEntry ε) (variantId : String) : Prop :=
  entry.armed = some variantId ∧ (entry.armings variantId).isSome = true

/-- The request names a selected variant that a started transport of its kind would have to deliver, and which is not
the one armed already. -/
def Undeliverable (running : List String) (session : ConsumerSession ε) (handle variantId : String) : Prop :=
  ∃ entry ∈ session.interactions handle, (InteractionEntry.selected entry variantId).isSome = true ∧
    (∃ kind ∈ emissiveKind entry.spec, kind ∈ running) ∧ ¬ AlreadyArmed entry variantId

theorem selected_id (h : InteractionEntry.selected entry variantId = some variant) : variant.id = variantId := by
  obtain ⟨selected, -, hfind⟩ := Option.bind_eq_some_iff.1 h
  simpa using List.find?_some hfind

/-- Arming a variant again with what it was armed with changes nothing. -/
theorem armed_again_iff (world : World) (hid : variant.id = variantId) :
    ({ entry with armings := entry.armings.insert variantId (entry.arming world variant), armed := some variantId } :
      InteractionEntry ε) = entry ↔ AlreadyArmed entry variantId := by
  constructor
  · intro h
    have harmed : some variantId = entry.armed := congrArg InteractionEntry.armed h
    have harmings : entry.armings.insert variantId (entry.arming world variant) variantId = entry.armings variantId :=
      congrFun (congrArg InteractionEntry.armings h) variantId
    rw [PMap.insert_apply, if_pos rfl] at harmings
    exact ⟨harmed.symm, by rw [← harmings]; rfl⟩
  · rintro ⟨harmed, hsome⟩
    obtain ⟨arming, harming⟩ := Option.isSome_iff_exists.1 hsome
    have hsame : entry.arming world variant = arming := by rw [InteractionEntry.arming, hid, harming]
    have hinsert : entry.armings.insert variantId arming = entry.armings := by
      funext id
      rw [PMap.insert_apply]
      split
      · rename_i heq
        rw [heq, harming]
      · rfl
    rw [hsame, hinsert, ← harmed]

/-- Putting an entry in place of another changes nothing when they are the same. -/
theorem put_eq_iff {entry' : InteractionEntry ε} (h : session.interactions handle = some entry) :
    ({ session with interactions := session.interactions.insert handle entry' } : ConsumerSession ε) = session ↔
      entry' = entry := by
  constructor
  · intro heq
    have hat : session.interactions.insert handle entry' handle = session.interactions handle :=
      congrFun (congrArg ConsumerSession.interactions heq) handle
    rw [PMap.insert_apply, if_pos rfl, h] at hat
    exact Option.some.inj hat
  · rintro rfl
    have hinsert : session.interactions.insert handle entry' = session.interactions := by
      funext other
      rw [PMap.insert_apply]
      split
      · rename_i heq
        rw [heq, h]
      · rfl
    rw [hinsert]

variable [Evidence ε]

/-- Serving ends in an error. -/
def Refused (world : World) (running : List String) (session : ConsumerSession ε) (handle variantId : String) : Prop :=
  ∃ err, (session.serveVariant world running handle variantId).2 = .error err

/-- A refused request leaves the session as it was, unless it is for a variant that cannot be delivered. -/
theorem refused_keeps_session_iff (world : World) :
    (Refused world running session handle variantId →
      (session.serveVariant world running handle variantId).1 = session) ↔
      ¬ Undeliverable running session handle variantId := by
  simp only [Refused, Undeliverable, ConsumerSession.serveVariant]
  cases hentry : session.interactions handle with
  | none => simp
  | some entry =>
    cases hselected : InteractionEntry.selected entry variantId with
    | none =>
      have hnone := hselected
      rw [InteractionEntry.selected] at hnone
      simp [hnone, hselected]
    | some variant =>
      have hsome := hselected
      rw [InteractionEntry.selected] at hsome
      simp only [hsome, Option.mem_some_iff, exists_eq_left', hselected, Option.isSome_some, true_and]
      cases hkind : emissiveKind entry.spec with
      | none =>
        simp only [Option.mem_def, reduceCtorEq, false_and, exists_const, not_false_eq_true, iff_true]
        cases passiveKind entry.spec <;> cases (entry.arming world variant).requestPlan <;> simp
      | some kind =>
        by_cases hrunning : kind ∈ running
        · simp only [hrunning, if_true, Option.mem_some_iff, exists_eq_left', true_and, not_not]
          rw [← armed_again_iff world (selected_id hselected), ← put_eq_iff hentry]
          simp
        · simp [hrunning]

end Session

/-- The kinds of the transports a system has started. -/
def kinds {ε : Type} (system : System ε) : List String := system.transports.map TransportRun.kind

/-- A request to serve a variant that is refused leaves the session and its transports as they were, exactly when it
is not taken for a variant that cannot be delivered. -/
theorem refused_serving_changes_nothing_iff (world : World) (system : System Exercised) (handle variantId : String) :
    (∀ system' ∈ step world system (.serveVariant handle variantId),
        Refused world (kinds system) system.session handle variantId → system' = system) ↔
      (system.dispatch.isIdle = true → ¬ Undeliverable (kinds system) system.session handle variantId) := by
  rw [← refused_keeps_session_iff world]
  have hstep : step world system (.serveVariant handle variantId) = serve world system handle variantId := rfl
  rw [hstep, serve]
  cases hidle : system.dispatch.isIdle with
  | false => simp
  | true =>
    simp only [if_true, true_implies, Refused, kinds]
    cases hserved : (system.session.serveVariant world (system.transports.map TransportRun.kind) handle variantId).2 with
    | ok served => simp
    | error err =>
      simp only [Option.mem_some_iff, forall_eq', Except.error.injEq, exists_eq', true_implies]
      exact ⟨fun h => congrArg System.session h, fun h => by rw [h]⟩

/-! A message to be published, in a session that has started a transport of its kind. -/

def publishingWorld : World :=
  ⟨⟨⟨fun _ _ => .ok false, fun _ => false, fun _ _ => .error "no formats", id, id⟩, none, none⟩,
    fun _ => ⟨"contents", none⟩, fun _ _ plan => plan, fun _ _ _ => none⟩

def messageEntry : InteractionEntry Exercised :=
  ⟨⟨⟨"an order is placed", []⟩, some ⟨"message", some "emissive"⟩, none, none, none⟩, [],
    some ⟨[⟨"base", .base, []⟩], []⟩, none, PMap.empty, PMap.empty, PMap.empty, none⟩

def publishing : System Exercised :=
  ⟨⟨⟨"web"⟩, ⟨"orders"⟩, PMap.empty.insert "i-1" messageEntry, ["i-1"], 2, false, []⟩,
    [⟨"t-1", "message", ExchangeState.initial, .polling⟩], 2, .idle⟩

/-- Serving the message is refused, and the session has it armed all the same. -/
theorem refused_message_is_armed :
    ¬ ∀ (world : World) (system : System Exercised) (handle variantId : String),
      ∀ system' ∈ step world system (.serveVariant handle variantId),
        Refused world (kinds system) system.session handle variantId → system' = system := by
  intro h
  have hsame := h publishingWorld publishing "i-1" "base" _ rfl ⟨.deliveryUnsupported "message", rfl⟩
  have harmed := congrArg (fun system => (system.session.interactions "i-1").bind InteractionEntry.armed) hsame
  exact absurd harmed (by decide)

end PactJanus.Session.Serving
