import PactJanus.Data.Spelling
import PactJanus.Session.Interleaving

namespace PactJanus.Session.Attribution

open PactJanus.Lib.Lists PactJanus.Lib.Machine PactJanus.Plan.Result PactJanus.Plan.Outcome
open PactJanus.Session.Exchange PactJanus.Session.Model PactJanus.Session.Interleaving

/-! Which arming an arrival goes to, and what can be armed at one time. -/

theorem closer_iff {a b : Candidate} :
    closer a b = true ↔ a.mismatches.length < b.mismatches.length ∨
      a.mismatches.length = b.mismatches.length ∧ b.passed < a.passed := by
  simp [closer]

/-- The best candidate is closer than all before it, and none after it is closer. -/
theorem best_place {candidates : List Candidate} {chosen : Candidate} (h : best candidates = some chosen) :
    ∃ before after, candidates = before ++ chosen :: after ∧ (∀ c ∈ before, closer chosen c = true) ∧
      ∀ c ∈ after, closer c chosen = false := by
  induction candidates generalizing chosen with
  | nil => exact nomatch h
  | cons c rest ih =>
    rw [best] at h
    cases hrest : best rest with
    | none =>
      rw [hrest] at h
      obtain rfl := Option.some.inj h
      cases rest with
      | nil => exact ⟨[], [], rfl, by simp, by simp⟩
      | cons d rest =>
        rw [best] at hrest
        cases hbest : best rest <;> simp [hbest] at hrest
    | some other =>
      obtain ⟨before, after, rfl, hbefore, hafter⟩ := ih hrest
      rw [hrest] at h
      obtain rfl := Option.some.inj h
      by_cases hcloser : closer other c = true
      · rw [if_pos hcloser]
        exact ⟨c :: before, after, rfl, List.forall_mem_cons.2 ⟨hcloser, hbefore⟩, hafter⟩
      · rw [if_neg hcloser]
        refine ⟨[], before ++ other :: after, rfl, by simp, fun d hd => Bool.eq_false_iff.2 fun hdc => hcloser ?_⟩
        -- a candidate of the rest closer than `c` would make the best of the rest closer than `c`
        rw [closer_iff] at hdc ⊢
        obtain hd | hd := List.mem_append.1 hd
        · have hother := closer_iff.1 (hbefore d hd)
          omega
        · obtain rfl | hd := List.mem_cons.1 hd
          · exact hdc
          · have hother := hafter d hd
            rw [Bool.eq_false_iff, ne_eq, closer_iff] at hother
            omega

theorem best_isSome {candidates : List Candidate} (h : candidates ≠ []) : ∃ chosen, best candidates = some chosen := by
  cases candidates with
  | nil => exact absurd rfl h
  | cons c rest =>
    rw [best]
    cases best rest with
    | none => exact ⟨c, rfl⟩
    | some other => exact ⟨_, rfl⟩

section Arrival

variable {ε : Type} {scope : Scope} {names : ExchangeParts} {inbound : Parts}

/-- Whether an arming's plan matches a request. -/
def Matches (scope : Scope) (names : ExchangeParts) (inbound : Parts) (armed : ArmedExchange) : Prop :=
  (candidate scope names inbound armed).status = .matched

/-- How many of an arming's actions a request passes: the more, the more specific the match. -/
def passedBy (scope : Scope) (names : ExchangeParts) (inbound : Parts) (armed : ArmedExchange) : Nat :=
  (candidate scope names inbound armed).passed

/-- The arming matches the request, none that matches it is more specific, and none armed before it is as specific. -/
structure BestMatch (scope : Scope) (names : ExchangeParts) (inbound : Parts) (armings : List ArmedExchange)
    (armed : ArmedExchange) : Prop where
  matched : Matches scope names inbound armed
  place : ∃ before after, armings = before ++ armed :: after ∧
    (∀ other ∈ before, Matches scope names inbound other →
      passedBy scope names inbound other < passedBy scope names inbound armed) ∧
    ∀ other ∈ after, Matches scope names inbound other →
      passedBy scope names inbound other ≤ passedBy scope names inbound armed

theorem outcome_matched_iff (executed : Executed) : (outcome executed).1 = .matched ↔ (outcome executed).2.length = 0 := by
  simp [outcome]

theorem matches_iff {armed : ArmedExchange} :
    Matches scope names inbound armed ↔ (candidate scope names inbound armed).mismatches.length = 0 :=
  outcome_matched_iff _

/-- An arrival that some arming's plan matches goes to the best match among the armings. -/
theorem arrive_best {state : ExchangeState ε} (h : ∃ armed ∈ state.armed, Matches scope names inbound armed) :
    ∃ armed, (state.arrive scope names inbound).2 = some (candidate scope names inbound armed) ∧
      BestMatch scope names inbound state.armed armed := by
  obtain ⟨armed, harmed, hmatches⟩ := h
  have hne : state.armed.map (candidate scope names inbound) ≠ [] := List.ne_nil_of_mem (List.mem_map_of_mem harmed)
  obtain ⟨chosen, hchosen⟩ := best_isSome hne
  obtain ⟨before, after, hsplit, hbefore, hafter⟩ := best_place hchosen
  obtain ⟨before, rest, hstate, rfl, hrest⟩ := List.map_eq_append_iff.1 hsplit
  obtain ⟨first, after, rfl, rfl, rfl⟩ := List.map_eq_cons_iff.1 hrest
  have hzero : (candidate scope names inbound first).mismatches.length = 0 := by
    have hleast := matches_iff.1 hmatches
    rw [hstate] at harmed
    obtain hmem | hmem := List.mem_append.1 harmed
    · have hcloser := closer_iff.1 (hbefore _ (List.mem_map_of_mem hmem))
      omega
    · obtain rfl | hmem := List.mem_cons.1 hmem
      · exact hleast
      · have hnot := hafter _ (List.mem_map_of_mem hmem)
        rw [Bool.eq_false_iff, ne_eq, closer_iff] at hnot
        omega
  refine ⟨first, hchosen, matches_iff.2 hzero, before, after, hstate, fun other hother hm => ?_,
    fun other hother hm => ?_⟩
  · have hcloser := closer_iff.1 (hbefore _ (List.mem_map_of_mem hother))
    have hleast := matches_iff.1 hm
    simp only [passedBy]
    omega
  · have hnot := hafter _ (List.mem_map_of_mem hother)
    rw [Bool.eq_false_iff, ne_eq, closer_iff] at hnot
    have hleast := matches_iff.1 hm
    simp only [passedBy]
    omega

end Arrival

section Runs

variable {ε : Type}

/-- No handle has two armings on a transport. -/
def ArmedApart (system : System ε) : Prop :=
  ∀ run ∈ system.transports, (run.exchange.armed.map ArmedExchange.handle).Nodup

theorem arm_apart {state : ExchangeState ε} (h : (state.armed.map ArmedExchange.handle).Nodup) (armed : ArmedExchange) :
    ((state.arm armed).armed.map ArmedExchange.handle).Nodup := by
  rw [ExchangeState.arm, List.map_append, List.nodup_append]
  refine ⟨h.sublist (List.Sublist.map _ List.filter_sublist), by simp, ?_⟩
  intro handle hhandle last hlast
  obtain ⟨other, hother, rfl⟩ := List.mem_map.1 hhandle
  obtain rfl : last = armed.handle := by simpa using hlast
  simpa using (List.mem_filter.1 hother).2

theorem settle_apart {state : ExchangeState ε} (h : (state.armed.map ArmedExchange.handle).Nodup) (key : Key) :
    ((state.settle key).1.armed.map ArmedExchange.handle).Nodup :=
  h.sublist (List.Sublist.map _ List.filter_sublist)

/-- A step of one transport that keeps its own armings apart keeps all of them apart. -/
theorem atTransport_apart {α : Type} {f : TransportRun ε → Option (TransportRun ε × α)}
    (hf : ∀ run run' a, f run = some (run', a) → (run.exchange.armed.map ArmedExchange.handle).Nodup →
      (run'.exchange.armed.map ArmedExchange.handle).Nodup)
    {system system' : System ε} {instance' : String} {a : α} (h : atTransport instance' f system = some (system', a))
    (hs : ArmedApart system) : ArmedApart system' := by
  obtain ⟨⟨transports, a'⟩, hat, heq⟩ := Option.map_eq_some_iff.1 h
  obtain ⟨rfl, rfl⟩ := Prod.mk.inj heq
  obtain ⟨before, run, run', after, hsplit, -, -, hrun, rfl⟩ := stepAt_eq_some hat
  simp only [ArmedApart, hsplit, List.forall_mem_append, List.forall_mem_cons] at hs ⊢
  exact ⟨hs.1, hf run run' a' hrun hs.2.1, hs.2.2⟩

variable {world : World}

theorem request_apart {system system' : System ε} {session : ConsumerSession ε}
    (h : system.request session = some system') (hs : ArmedApart system) : ArmedApart system' := by
  rw [System.request] at h
  split at h
  · obtain rfl := Option.some.inj h
    exact hs
  · exact nomatch h

private theorem armWith_apart (armed : ArmedExchange) (run run' : TransportRun ε) (a : Unit)
    (h : run.armWith armed = some (run', a)) (hr : (run.exchange.armed.map ArmedExchange.handle).Nodup) :
    (run'.exchange.armed.map ArmedExchange.handle).Nodup := by
  obtain ⟨rfl, rfl⟩ := Prod.mk.inj (Option.some.inj h)
  exact arm_apart hr armed

private theorem settleRun_apart (key : Key) (run run' : TransportRun ε) (a : Option ε × Bool)
    (h : run.settle key = some (run', a)) (hr : (run.exchange.armed.map ArmedExchange.handle).Nodup) :
    (run'.exchange.armed.map ArmedExchange.handle).Nodup := by
  obtain ⟨rfl, rfl⟩ := Prod.mk.inj (Option.some.inj h)
  exact settle_apart hr key

private theorem arriveRun_apart (inbound : Parts) (run run' : TransportRun ε) (a : Unit)
    (h : run.arrive world inbound = some (run', a)) (hr : (run.exchange.armed.map ArmedExchange.handle).Nodup) :
    (run'.exchange.armed.map ArmedExchange.handle).Nodup := by
  rw [TransportRun.arrive] at h
  split at h
  · obtain ⟨rfl, rfl⟩ := Prod.mk.inj (Option.some.inj h)
    exact hr
  · exact nomatch h

private theorem endLoop_apart (run run' : TransportRun ε) (a : Unit) (h : run.endLoop = some (run', a))
    (hr : (run.exchange.armed.map ArmedExchange.handle).Nodup) :
    (run'.exchange.armed.map ArmedExchange.handle).Nodup := by
  obtain ⟨rfl, rfl⟩ := Prod.mk.inj (Option.some.inj h)
  exact hr

variable [Evidence ε]

theorem serve_apart {system system' : System ε} {handle variantId : String}
    (h : serve world system handle variantId = some system') (hs : ArmedApart system) : ArmedApart system' := by
  rw [serve] at h
  split at h
  · dsimp only at h
    split at h
    · obtain rfl := Option.some.inj h
      exact hs
    · obtain rfl := Option.some.inj h
      exact hs
  · exact nomatch h

private theorem deliver_apart (undelivered : Option String) (run run' : TransportRun ε) (a : Unit)
    (h : run.deliver undelivered = some (run', a)) (hr : (run.exchange.armed.map ArmedExchange.handle).Nodup) :
    (run'.exchange.armed.map ArmedExchange.handle).Nodup := by
  rw [TransportRun.deliver] at h
  split at h
  · obtain ⟨rfl, rfl⟩ := Prod.mk.inj (Option.some.inj h)
    exact hr
  · exact nomatch h

/-- No step arms a handle twice. -/
theorem step_apart (system : System ε) (event : Event) (system' : System ε) (hs : ArmedApart system)
    (h : step world system event = some system') : ArmedApart system' := by
  cases event with
  | addInteraction spec rawParts converted => exact request_apart h hs
  | refuse refusal => exact request_apart h hs
  | startTransport kind number =>
    rw [step] at h
    split at h
    · obtain rfl := Option.some.inj h
      exact List.forall_mem_append.2 ⟨hs, by simp [ExchangeState.initial]⟩
    · exact nomatch h
  | variants handle selected => exact request_apart h hs
  | serveVariant handle variantId => exact serve_apart h hs
  | arm =>
    rw [step] at h
    split at h
    · rename_i armed instance' waiting _
      obtain ⟨⟨mid, _⟩, hat, rfl⟩ := Option.map_eq_some_iff.1 h
      have hmid : ArmedApart mid := atTransport_apart (armWith_apart armed) hat hs
      exact hmid
    · obtain rfl := Option.some.inj h
      exact hs
    · exact nomatch h
  | reportVariant handle variantId verdict =>
    rw [step] at h
    split at h
    · split at h <;> obtain rfl := Option.some.inj h <;> exact hs
    · exact nomatch h
  | settle =>
    rw [step] at h
    split at h
    · rename_i handle variantId verdict instance' waiting settled late _
      obtain ⟨⟨mid, _, _⟩, hat, rfl⟩ := Option.map_eq_some_iff.1 h
      have hmid : ArmedApart mid := atTransport_apart (settleRun_apart (handle, variantId)) hat hs
      exact hmid
    · exact nomatch h
  | answer =>
    rw [step] at h
    split at h
    · obtain rfl := Option.some.inj h
      exact hs
    · exact nomatch h
  | finalise =>
    rw [step] at h
    split at h
    · obtain rfl := Option.some.inj h
      exact hs
    · exact nomatch h
  | drain =>
    rw [step] at h
    split at h
    · obtain rfl := Option.some.inj h
      exact hs
    · rename_i heq
      obtain rfl := Option.some.inj h
      rw [ArmedApart, heq] at hs
      exact (List.forall_mem_cons.1 hs).2
    · exact nomatch h
  | arrival instance' inbound =>
    obtain ⟨⟨mid, _⟩, hat, rfl⟩ := Option.map_eq_some_iff.1 h
    exact atTransport_apart (arriveRun_apart inbound) hat hs
  | delivery instance' undelivered =>
    obtain ⟨⟨mid, _⟩, hat, rfl⟩ := Option.map_eq_some_iff.1 h
    exact atTransport_apart (deliver_apart undelivered) hat hs
  | ending instance' =>
    obtain ⟨⟨mid, _⟩, hat, rfl⟩ := Option.map_eq_some_iff.1 h
    exact atTransport_apart endLoop_apart hat hs

/-- All along a run no handle has two armings on a transport. -/
theorem run_apart {consumer provider : Contracts.Model.Party} {required : Bool} {events : List Event} {system : System ε}
    (h : run (step world) (System.start consumer provider required) events = some system) : ArmedApart system :=
  run_preserves step_apart (fun _ hrun => absurd hrun (by simp [System.start])) h

/-- On every transport, with any armings, a request that some arming's plan matches goes to the best match among them;
and all along a run no handle has two armings on a transport. -/
theorem arrival_goes_to_best_match (world : World) (consumer provider : Contracts.Model.Party) (required : Bool) :
    (∀ (names : ExchangeParts) (state : ExchangeState Exercised) (inbound : Parts),
      (∃ armed ∈ state.armed, Matches world.toScope names inbound armed) →
      ∃ armed, (state.arrive world.toScope names inbound).2 = some (candidate world.toScope names inbound armed) ∧
        BestMatch world.toScope names inbound state.armed armed) ∧
    ∀ (events : List Event) (system : System Exercised),
      run (step world) (System.start consumer provider required) events = some system → ArmedApart system :=
  ⟨fun _ _ _ h => arrive_best h, fun _ _ h => run_apart h⟩

end Runs

/-! The exchanges each transport takes and is over with, in their order. -/

section Order

theorem atTransport_some {ε α : Type} {instance' : String} {f : TransportRun ε → Option (TransportRun ε × α)}
    {system mid : System ε} {a : α} (h : atTransport instance' f system = some (mid, a)) :
    ∃ before run run' after, system.transports = before ++ run :: after ∧
      (system.transports.find? fun run => run.instance' == instance') = some run ∧ f run = some (run', a) ∧
      mid = { system with transports := before ++ run' :: after } := by
  obtain ⟨⟨transports, a'⟩, hat, heq⟩ := Option.map_eq_some_iff.1 h
  obtain ⟨rfl, rfl⟩ := Prod.mk.inj heq
  obtain ⟨before, run, run', after, hsplit, hfind, -, hrun, rfl⟩ := stepAt_eq_some hat
  exact ⟨before, run, run', after, hsplit, hfind, hrun, rfl⟩

/-- The armings a transport's arrivals were attributed to. -/
def attributedAt (notes : List Note) (instance' : String) : List Key :=
  notes.filterMap fun note =>
    match note with
    | .attributed name key => if name = instance' then some key else none
    | .settled _ _ _ => none

/-- The armings of the exchanges a transport is over with. -/
def settledAt (notes : List Note) (instance' : String) : List Key :=
  notes.filterMap fun note =>
    match note with
    | .attributed _ _ => none
    | .settled name key _ => if name = instance' then some key else none

theorem attributedAt_append (first second : List Note) (instance' : String) :
    attributedAt (first ++ second) instance' = attributedAt first instance' ++ attributedAt second instance' :=
  List.filterMap_append

theorem settledAt_append (first second : List Note) (instance' : String) :
    settledAt (first ++ second) instance' = settledAt first instance' ++ settledAt second instance' :=
  List.filterMap_append

/-- The exchange a transport's loop has under way. -/
def inHand : Loop → List Key
  | .handling candidate => [candidate.armed.key]
  | _ => []

theorem instanceName_injective {m n : Nat} (h : instanceName m = instanceName n) : m = n := by
  have hlist := congrArg String.toList h
  simp only [instanceName, String.toList_append] at hlist
  exact Data.Spelling.repr_injective (String.toList_inj.1 (List.append_cancel_left hlist))

/-- What holds of the transports' names, and of the order of what was noted of each. -/
structure InOrder {ε : Type} (system : System ε) (seen : List Note) : Prop where
  named : ∀ run ∈ system.transports, ∃ n < system.nextTransport, run.instance' = instanceName n
  apart : (system.transports.map TransportRun.instance').Nodup
  unstarted : ∀ n, system.nextTransport ≤ n → attributedAt seen (instanceName n) = [] ∧ settledAt seen (instanceName n) = []
  running : ∀ run ∈ system.transports, run.loop ≠ .ended →
    attributedAt seen run.instance' = settledAt seen run.instance' ++ inHand run.loop
  all : ∀ name, ∃ underway, underway.length ≤ 1 ∧ attributedAt seen name = settledAt seen name ++ underway

variable {ε : Type} {system system' : System ε} {seen : List Note}

private theorem inOrder_keep (h : InOrder system seen) {session : ConsumerSession ε} {dispatch : Dispatch ε} :
    InOrder { system with session := session, dispatch := dispatch } seen := ⟨h.named, h.apart, h.unstarted, h.running, h.all⟩

/-- A step of one transport keeps the order of what is noted where it keeps that of its own. -/
private theorem inOrder_at {before after : List (TransportRun ε)} {run : TransportRun ε} (run' : TransportRun ε)
    (dispatch : Dispatch ε) (new : List Note) (h : InOrder system seen) (hsplit : system.transports = before ++ run :: after)
    (hname : run'.instance' = run.instance')
    (hothers : ∀ name ≠ run.instance', attributedAt new name = [] ∧ settledAt new name = [])
    (hown : run'.loop ≠ .ended → attributedAt (seen ++ new) run.instance' =
      settledAt (seen ++ new) run.instance' ++ inHand run'.loop)
    (hall : ∃ underway, underway.length ≤ 1 ∧ attributedAt (seen ++ new) run.instance' =
      settledAt (seen ++ new) run.instance' ++ underway) :
    InOrder { system with transports := before ++ run' :: after, dispatch := dispatch } (seen ++ new) := by
  have hkept : ∀ name ≠ run.instance', attributedAt (seen ++ new) name = attributedAt seen name ∧
      settledAt (seen ++ new) name = settledAt seen name := by
    intro name hne
    rw [attributedAt_append, settledAt_append, (hothers name hne).1, (hothers name hne).2, List.append_nil, List.append_nil]
    exact ⟨rfl, rfl⟩
  have hnamed := h.named
  have hrunning := h.running
  have hapart := h.apart
  rw [hsplit, List.forall_mem_append, List.forall_mem_cons] at hnamed hrunning
  rw [hsplit, List.map_append, List.map_cons] at hapart
  have hdistinct : ∀ other, other ∈ before ∨ other ∈ after → other.instance' ≠ run.instance' := by
    rintro other (hmem | hmem) heq
    · exact (List.nodup_append.1 hapart).2.2 _ (List.mem_map_of_mem hmem) _ List.mem_cons_self heq
    · exact (List.nodup_cons.1 (List.nodup_append.1 hapart).2.1).1 (heq ▸ List.mem_map_of_mem hmem)
  refine ⟨?_, ?_, fun n hn => ?_, ?_, fun name => ?_⟩
  · exact List.forall_mem_append.2 ⟨hnamed.1, List.forall_mem_cons.2 ⟨hname ▸ hnamed.2.1, hnamed.2.2⟩⟩
  · rw [List.map_append, List.map_cons, hname]
    exact hapart
  · obtain ⟨m, hm, heq⟩ := hnamed.2.1
    have hne : instanceName n ≠ run.instance' := by
      rw [heq]
      exact fun hsame => absurd (instanceName_injective hsame) (Nat.ne_of_gt (Nat.lt_of_lt_of_le hm hn))
    rw [(hkept _ hne).1, (hkept _ hne).2]
    exact h.unstarted n hn
  · refine List.forall_mem_append.2 ⟨fun other hmem hended => ?_, List.forall_mem_cons.2 ⟨?_, fun other hmem hended => ?_⟩⟩
    · rw [(hkept _ (hdistinct other (.inl hmem))).1, (hkept _ (hdistinct other (.inl hmem))).2]
      exact hrunning.1 other hmem hended
    · rw [hname]
      exact hown
    · rw [(hkept _ (hdistinct other (.inr hmem))).1, (hkept _ (hdistinct other (.inr hmem))).2]
      exact hrunning.2.2 other hmem hended
  · by_cases hsame : name = run.instance'
    · rw [hsame]
      exact hall
    · rw [(hkept _ hsame).1, (hkept _ hsame).2]
      exact h.all name

/-- A step of one transport that is noted for nothing and leaves its loop. -/
private theorem inOrder_same {before after : List (TransportRun ε)} {run : TransportRun ε} (run' : TransportRun ε)
    (dispatch : Dispatch ε) (h : InOrder system seen) (hsplit : system.transports = before ++ run :: after)
    (hname : run'.instance' = run.instance') (hloop : run'.loop = run.loop) :
    InOrder { system with transports := before ++ run' :: after, dispatch := dispatch } seen := by
  have hmem : run ∈ system.transports := by
    rw [hsplit]
    exact List.mem_append_right _ List.mem_cons_self
  have hat := inOrder_at run' dispatch [] h hsplit hname (fun _ _ => ⟨rfl, rfl⟩)
  rw [List.append_nil] at hat
  exact hat (fun hended => by
    rw [hloop] at hended ⊢
    exact h.running run hmem hended) (h.all _)

variable {world : World}

private theorem request_inOrder {session : ConsumerSession ε} (h : InOrder system seen)
    (hstep : system.request session = some system') : InOrder system' seen := by
  rw [System.request] at hstep
  split at hstep
  · obtain rfl := Option.some.inj hstep
    exact inOrder_keep h
  · cases hstep

private theorem start_inOrder {kind : String} {number : Nat} (h : InOrder system seen)
    (hnumber : system.nextTransport ≤ number) :
    InOrder { system with
      transports := system.transports ++ [⟨instanceName number, kind, ExchangeState.initial, .polling⟩]
      nextTransport := number + 1 } seen := by
  refine ⟨?_, ?_, fun n hn => h.unstarted n (Nat.le_of_succ_le (Nat.le_trans (Nat.succ_le_succ hnumber) hn)), ?_, h.all⟩
  · refine List.forall_mem_append.2 ⟨fun run hrun => ?_, List.forall_mem_singleton.2 ⟨number, Nat.lt_succ_self _, rfl⟩⟩
    obtain ⟨n, hn, heq⟩ := h.named run hrun
    exact ⟨n, Nat.lt_succ_of_lt (Nat.lt_of_lt_of_le hn hnumber), heq⟩
  · rw [List.map_append, List.nodup_append]
    refine ⟨h.apart, List.nodup_singleton _, fun name hname other hother heq => ?_⟩
    obtain ⟨run, hrun, rfl⟩ := List.mem_map.1 hname
    obtain ⟨n, hn, hnamed⟩ := h.named run hrun
    rw [heq, List.mem_singleton.1 hother] at hnamed
    have hsame := instanceName_injective hnamed
    omega
  · refine List.forall_mem_append.2 ⟨h.running, List.forall_mem_singleton.2 fun _ => ?_⟩
    dsimp only
    rw [(h.unstarted number hnumber).1, (h.unstarted number hnumber).2]
    rfl

variable [Evidence ε]

private theorem arrival_inOrder {instance' : String} {inbound : Exchange.Parts} (h : InOrder system seen)
    (hstep : step world system (.arrival instance' inbound) = some system') :
    InOrder system' (seen ++ notes world system (.arrival instance' inbound)) := by
  obtain ⟨⟨mid, _⟩, hat, rfl⟩ := Option.map_eq_some_iff.1 hstep
  obtain ⟨before, run, run', after, hsplit, hfind, hrun, rfl⟩ := atTransport_some hat
  have hmem : run ∈ system.transports := List.mem_of_find?_eq_some hfind
  have hname : run.instance' = instance' := by simpa using List.find?_some hfind
  rw [TransportRun.arrive] at hrun
  split at hrun
  · rename_i hloop
    obtain ⟨rfl, -⟩ := Prod.mk.inj (Option.some.inj hrun)
    have hnoted : notes world system (.arrival instance' inbound) =
        ((run.exchange.arrive world.toScope (world.names run.kind) inbound).2.map fun candidate =>
          Note.attributed instance' candidate.armed.key).toList := by
      obtain ⟨name, kind, exchange, loop⟩ := run
      obtain rfl : loop = .polling := hloop
      simp only [notes, hfind]
    have hseen := h.running run hmem (by rw [hloop]; exact fun heq => by cases heq)
    replace hseen : attributedAt seen run.instance' = settledAt seen run.instance' := by simpa [hloop, inHand] using hseen
    rw [hnoted]
    refine inOrder_at _ _ _ h hsplit ?_ ?_ ?_ ?_
    · rfl
    · intro name hne
      rw [hname] at hne
      cases (run.exchange.arrive world.toScope (world.names run.kind) inbound).2 with
      | none => exact ⟨rfl, rfl⟩
      | some candidate => simp [attributedAt, settledAt, Ne.symm hne]
    · intro _
      rw [attributedAt_append, settledAt_append, hseen, hname]
      change _ = _ ++ inHand ((run.exchange.arrive world.toScope (world.names run.kind) inbound).2.elim .polling .handling)
      cases (run.exchange.arrive world.toScope (world.names run.kind) inbound).2 with
      | none => simp [attributedAt, settledAt, inHand]
      | some candidate => simp [attributedAt, settledAt, inHand]
    · rw [attributedAt_append, settledAt_append, hseen, hname]
      cases (run.exchange.arrive world.toScope (world.names run.kind) inbound).2 with
      | none => exact ⟨[], by simp, by simp [attributedAt, settledAt]⟩
      | some candidate => exact ⟨[candidate.armed.key], by simp, by simp [attributedAt, settledAt]⟩
  · cases hrun

private theorem delivery_inOrder {instance' : String} {undelivered : Option String} (h : InOrder system seen)
    (hstep : step world system (.delivery instance' undelivered) = some system') :
    InOrder system' (seen ++ notes world system (.delivery instance' undelivered)) := by
  obtain ⟨⟨mid, _⟩, hat, rfl⟩ := Option.map_eq_some_iff.1 hstep
  obtain ⟨before, run, run', after, hsplit, hfind, hrun, rfl⟩ := atTransport_some hat
  have hmem : run ∈ system.transports := List.mem_of_find?_eq_some hfind
  have hname : run.instance' = instance' := by simpa using List.find?_some hfind
  rw [TransportRun.deliver] at hrun
  split at hrun
  · rename_i candidate hloop
    obtain ⟨rfl, -⟩ := Prod.mk.inj (Option.some.inj hrun)
    have hnoted : notes world system (.delivery instance' undelivered) =
        [.settled instance' candidate.armed.key (exercised candidate undelivered)] := by
      obtain ⟨name, kind, exchange, loop⟩ := run
      obtain rfl : loop = .handling candidate := hloop
      simp only [notes, hfind]
    have hseen := h.running run hmem (by rw [hloop]; exact fun heq => by cases heq)
    rw [hloop, inHand] at hseen
    have hboth : attributedAt (seen ++ [.settled instance' candidate.armed.key (exercised candidate undelivered)])
        run.instance' = settledAt (seen ++ [.settled instance' candidate.armed.key (exercised candidate undelivered)])
          run.instance' := by
      rw [attributedAt_append, settledAt_append, hseen, hname]
      simp [attributedAt, settledAt]
    rw [hnoted]
    refine inOrder_at _ _ _ h hsplit ?_ ?_ ?_ ?_
    · rfl
    · intro name hne
      rw [hname] at hne
      simp [attributedAt, settledAt, Ne.symm hne]
    · exact fun _ => hboth.trans (List.append_nil _).symm
    · exact ⟨[], by simp, hboth.trans (List.append_nil _).symm⟩
  · cases hrun

/-- Every step keeps the order. -/
theorem step_inOrder {event : Event} (h : InOrder system seen) (hstep : step world system event = some system') :
    InOrder system' (seen ++ notes world system event) := by
  cases event with
  | arrival instance' inbound => exact arrival_inOrder h hstep
  | delivery instance' undelivered => exact delivery_inOrder h hstep
  | addInteraction spec rawParts converted =>
    change InOrder system' (seen ++ [])
    rw [List.append_nil]
    exact request_inOrder h hstep
  | refuse refusal =>
    change InOrder system' (seen ++ [])
    rw [List.append_nil]
    exact request_inOrder h hstep
  | variants handle selected =>
    change InOrder system' (seen ++ [])
    rw [List.append_nil]
    exact request_inOrder h hstep
  | startTransport kind number =>
    change InOrder system' (seen ++ [])
    rw [List.append_nil]
    rw [step] at hstep
    split at hstep
    · rename_i hready
      obtain rfl := Option.some.inj hstep
      exact start_inOrder h hready.2
    · cases hstep
  | serveVariant handle variantId =>
    change InOrder system' (seen ++ [])
    rw [List.append_nil]
    rw [step, serve] at hstep
    split at hstep
    · dsimp only at hstep
      split at hstep <;> obtain rfl := Option.some.inj hstep <;> exact inOrder_keep h
    · cases hstep
  | arm =>
    change InOrder system' (seen ++ [])
    rw [List.append_nil]
    rw [step] at hstep
    split at hstep
    · rename_i armed _ waiting _
      obtain ⟨⟨mid, _⟩, hat, rfl⟩ := Option.map_eq_some_iff.1 hstep
      obtain ⟨before, run, run', after, hsplit, -, hrun, rfl⟩ := atTransport_some hat
      obtain ⟨rfl, -⟩ := Prod.mk.inj (Option.some.inj hrun)
      have hsame := inOrder_same { run with exchange := run.exchange.arm armed } (.arming armed waiting) h hsplit rfl rfl
      exact hsame
    · obtain rfl := Option.some.inj hstep
      exact inOrder_keep h
    · cases hstep
  | reportVariant handle variantId verdict =>
    change InOrder system' (seen ++ [])
    rw [List.append_nil]
    rw [step] at hstep
    split at hstep
    · split at hstep <;> obtain rfl := Option.some.inj hstep
      · exact h
      · exact inOrder_keep h
    · cases hstep
  | settle =>
    change InOrder system' (seen ++ [])
    rw [List.append_nil]
    rw [step] at hstep
    split at hstep
    · rename_i handle variantId verdict instance' rest settled late _
      obtain ⟨⟨mid, recorded, active⟩, hat, rfl⟩ := Option.map_eq_some_iff.1 hstep
      obtain ⟨before, run, run', after, hsplit, -, hrun, rfl⟩ := atTransport_some hat
      obtain ⟨rfl, -⟩ := Prod.mk.inj (Option.some.inj hrun)
      have hsame := inOrder_same { run with exchange := (run.exchange.settle (handle, variantId)).1 }
        (.settling handle variantId verdict rest (settled ++ recorded.toList) (late || active)) h hsplit rfl rfl
      exact hsame
    · cases hstep
  | answer =>
    change InOrder system' (seen ++ [])
    rw [List.append_nil]
    rw [step] at hstep
    split at hstep
    · obtain rfl := Option.some.inj hstep
      exact inOrder_keep h
    · cases hstep
  | finalise =>
    change InOrder system' (seen ++ [])
    rw [List.append_nil]
    rw [step] at hstep
    split at hstep
    · obtain rfl := Option.some.inj hstep
      exact inOrder_keep h
    · cases hstep
  | drain =>
    change InOrder system' (seen ++ [])
    rw [List.append_nil]
    rw [step] at hstep
    split at hstep
    · obtain rfl := Option.some.inj hstep
      exact inOrder_keep h
    · rename_i htransports
      obtain rfl := Option.some.inj hstep
      have hnamed := h.named
      have hapart := h.apart
      have hrunning := h.running
      rw [htransports] at hnamed hapart hrunning
      refine ⟨(List.forall_mem_cons.1 hnamed).2, (List.nodup_cons.1 hapart).2, h.unstarted, ?_, h.all⟩
      exact (List.forall_mem_cons.1 hrunning).2
    · cases hstep
  | ending instance' =>
    change InOrder system' (seen ++ [])
    rw [List.append_nil]
    obtain ⟨⟨mid, _⟩, hat, rfl⟩ := Option.map_eq_some_iff.1 hstep
    obtain ⟨before, run, run', after, hsplit, -, hrun, rfl⟩ := atTransport_some hat
    obtain ⟨rfl, -⟩ := Prod.mk.inj (Option.some.inj hrun)
    have hat' := inOrder_at { run with loop := .ended } system.dispatch [] h hsplit rfl fun _ _ => ⟨rfl, rfl⟩
    rw [List.append_nil] at hat'
    exact hat' (fun hended => absurd rfl hended) (h.all _)

variable {consumer provider : Contracts.Model.Party} {required : Bool}

/-- All along a run each transport takes one arrival at a time, attributes it to one of its armings if to any, and is
over with what it attributed, in that order; at most the last is not over. -/
theorem exchanges_settled_in_order {events : List Event} {system : System ε}
    (h : run (step world) (System.start consumer provider required) events = some system) :
    (∀ name, ∃ underway, underway.length ≤ 1 ∧
      attributedAt (log (step world) (notes world) (System.start consumer provider required : System ε) events) name =
        settledAt (log (step world) (notes world) (System.start consumer provider required : System ε) events) name ++
          underway) ∧
      ∀ instance' inbound, (notes world system (.arrival instance' inbound)).length ≤ 1 ∧
        ∀ key, .attributed instance' key ∈ notes world system (.arrival instance' inbound) →
          ∃ run ∈ system.transports, run.instance' = instance' ∧ ∃ armed ∈ run.exchange.armed, armed.key = key := by
  have hstart : InOrder (System.start consumer provider required : System ε) [] :=
    ⟨fun _ hrun => (by cases hrun), List.nodup_nil, fun _ _ => ⟨rfl, rfl⟩, fun _ hrun => (by cases hrun),
      fun _ => ⟨[], by simp, rfl⟩⟩
  refine ⟨(run_invariant hstart (fun _ _ _ _ hseen hstep => step_inOrder hseen hstep) h).all, fun instance' inbound => ?_⟩
  unfold notes
  dsimp only
  split
  · rename_i name kind exchange hfind
    refine ⟨?_, fun key hmem => ?_⟩
    · cases (exchange.arrive world.toScope (world.names kind) inbound).2 <;> simp
    · obtain ⟨candidate, hchosen, hnote⟩ := Option.map_eq_some_iff.1 (Option.mem_toList.1 hmem)
      obtain ⟨-, rfl⟩ := Note.attributed.inj hnote
      exact ⟨_, List.mem_of_find?_eq_some hfind, by simpa using List.find?_some hfind, _, arrive_mem hchosen, rfl⟩
  · exact ⟨by simp, fun _ hmem => by cases hmem⟩

/-! An interaction without slots, served to a consumer that asks for it twice. -/

def serving : World :=
  ⟨⟨⟨fun _ _ => .ok false, fun _ => false, fun _ _ => .error "no formats", id, id⟩, none, none⟩,
    fun _ => ⟨"request", some "response"⟩, fun _ _ plan => plan, fun _ _ _ => none⟩

def ordering : InteractionSpec := ⟨⟨"an order is placed", []⟩, some ⟨"http", none⟩, none, none, none⟩

def asked (undelivered : Option String) : List Event :=
  [.addInteraction ordering [] none, .variants "i-1" ⟨[⟨"base", .base, []⟩], []⟩, .startTransport "http" 1,
    .serveVariant "i-1" "base", .arm, .arm, .arrival "t-1" [], .delivery "t-1" undelivered, .arrival "t-1" [],
    .delivery "t-1" none, .reportVariant "i-1" "base" (.new "passed" none), .settle, .answer]

theorem exchanges_settled_in_order_asked :
    ∃ system : System Exercised, run (step serving) (System.start ⟨"web"⟩ ⟨"orders"⟩ true) (asked none) = some system ∧
      ∃ underway, underway.length ≤ 1 ∧
        attributedAt (log (step serving) (notes serving) (System.start ⟨"web"⟩ ⟨"orders"⟩ true : System Exercised)
            (asked none)) "t-1" =
          settledAt (log (step serving) (notes serving) (System.start ⟨"web"⟩ ⟨"orders"⟩ true : System Exercised)
            (asked none)) "t-1" ++ underway :=
  ⟨_, rfl, (exchanges_settled_in_order rfl).1 "t-1"⟩

end Order

end PactJanus.Session.Attribution
