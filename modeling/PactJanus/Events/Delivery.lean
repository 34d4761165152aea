import PactJanus.Events.Stream

namespace PactJanus.Events.Delivery

open PactJanus.Data.Json PactJanus.Lib.Machine PactJanus.Events.Stream

/-! What a host is delivered of a stream, in every interleaving of its producers and its drains. -/

/-- The events appended, in the order the lock was held. -/
def appended : List Note → List Event
  | [] => []
  | .appended event :: rest => event :: appended rest
  | _ :: rest => appended rest

def delivered : List Note → List Event
  | [] => []
  | .delivered event :: rest => event :: delivered rest
  | _ :: rest => delivered rest

/-- What a stream promises its host. -/
structure Promise (seen : List Note) : Prop where
  gapless : (delivered seen).map Event.seq = List.range' 1 (delivered seen).length
  kept : ∀ {before : List Note} {terminal : Event} {after : List Note},
    seen = before ++ .appended terminal :: after → terminal.last = true →
      (∀ entry, .dropped entry ∉ before) ∧
        (terminal ∈ delivered seen → ∃ rest, delivered seen = appended before ++ terminal :: rest)
  once : ((delivered seen).filter fun event => event.last).length ≤ 1
  ended : ∀ {before : List Event} {terminal : Event} {after : List Event},
    delivered seen = before ++ terminal :: after → terminal.last = true → after = []

section Notes

variable (first second : List Note)

theorem appended_append : appended (first ++ second) = appended first ++ appended second := by
  induction first with
  | nil => rfl
  | cons note first ih => cases note <;> simp [appended, ih]

theorem delivered_append : delivered (first ++ second) = delivered first ++ delivered second := by
  induction first with
  | nil => rfl
  | cons note first ih => cases note <;> simp [delivered, ih]

theorem appended_delivered (events : List Event) : appended (events.map .delivered) = [] := by
  induction events with
  | nil => rfl
  | cons event events ih => exact ih

theorem delivered_delivered (events : List Event) : delivered (events.map .delivered) = events := by
  induction events with
  | nil => rfl
  | cons event events ih => exact congrArg (event :: ·) ih

end Notes

/-- What one step does to the buffer. -/
inductive Change (id : String) (fresh : Prop) : Inner → Inner → List Note → Prop
  | none (inner : Inner) : Change id fresh inner inner []
  | drop (inner : Inner) (entry : Entry) (produced : inner.producedLast = true) :
      Change id fresh inner inner [.dropped entry]
  | append (inner : Inner) (entry : Entry) (open' : fresh → inner.producedLast = false) :
      Change id fresh inner (inner.append id entry) [.appended (inner.event id entry)]
  | drain (inner : Inner) (max : Nat) :
      Change id fresh inner (inner.drain max) ((inner.pending.take max).map .delivered)

section Steps

variable {ρ ω : Type} [DecidableEq ρ] {observe : ω → String → Json → List (String × Json) × ω}

/-- A producer that waited for room finds it when the terminal event has been appended meanwhile. -/
def Stale (system : System ρ ω) : Act ρ ω → Prop
  | .wake producer =>
    (∃ entry toPush, system.producers producer = .parked entry toPush) ∧ system.inner.isFull = false ∧
      system.inner.producedLast = true
  | _ => False

def Fresh (system : System ρ ω) (act : Act ρ ω) : Prop := ¬Stale system act

theorem step_change {s t : System ρ ω} {act : Act ρ ω} (h : step observe s act = some t) :
    t.id = s.id ∧ Change s.id (Fresh s act) s.inner t.inner (notes observe s act) := by
  obtain ⟨⟨t', seen⟩, hmove, rfl⟩ := Option.map_eq_some_iff.1 h
  simp only [notes, hmove, Option.elim_some]
  cases act with
  | observe observer =>
    obtain ⟨rfl, rfl⟩ := hmove
    exact ⟨rfl, .none _⟩
  | call producer kind payload last =>
    change s.call observe producer kind payload last = some (t', seen) at hmove
    unfold System.call at hmove
    split at hmove
    · obtain ⟨rfl, rfl⟩ := hmove
      exact ⟨rfl, .none _⟩
    · exact nomatch hmove
  | push producer =>
    change s.push producer = some (t', seen) at hmove
    unfold System.push at hmove
    split at hmove
    · split at hmove
      · rename_i hproduced
        obtain ⟨rfl, rfl⟩ := hmove
        exact ⟨rfl, .drop _ _ hproduced⟩
      · rename_i hproduced
        split at hmove
        · obtain ⟨rfl, rfl⟩ := hmove
          exact ⟨rfl, .none _⟩
        · obtain ⟨rfl, rfl⟩ := hmove
          exact ⟨rfl, .append _ _ fun _ => Bool.eq_false_iff.2 hproduced⟩
    · exact nomatch hmove
  | wake producer =>
    change s.wake producer = some (t', seen) at hmove
    unfold System.wake at hmove
    split at hmove
    · rename_i entry toPush hparked
      split at hmove
      · obtain ⟨rfl, rfl⟩ := hmove
        exact ⟨rfl, .none _⟩
      · rename_i hfull
        obtain ⟨rfl, rfl⟩ := hmove
        refine ⟨rfl, .append _ _ fun hfresh => Bool.eq_false_iff.2 fun hproduced => hfresh ?_⟩
        exact ⟨⟨entry, toPush, hparked⟩, Bool.eq_false_iff.2 hfull, hproduced⟩
    · exact nomatch hmove
  | drain max =>
    obtain ⟨rfl, rfl⟩ := hmove
    exact ⟨rfl, .drain _ _⟩

/-! What the buffer holds is what was appended and not delivered yet. -/

structure Buffered (inner : Inner) (seen : List Note) : Prop where
  order : delivered seen ++ inner.pending = appended seen
  counted : inner.nextSeq = (appended seen).length
  seqs : (appended seen).map Event.seq = List.range' 1 (appended seen).length

theorem buffered_change {id : String} {fresh : Prop} {inner inner' : Inner} {seen new : List Note}
    (h : Buffered inner seen) (hchange : Change id fresh inner inner' new) : Buffered inner' (seen ++ new) := by
  cases hchange with
  | none => rwa [List.append_nil]
  | drop entry hproduced =>
    refine ⟨?_, ?_, ?_⟩ <;> simp only [appended_append, delivered_append, appended, delivered, List.append_nil]
    · exact h.order
    · exact h.counted
    · exact h.seqs
  | append entry hopen =>
    refine ⟨?_, ?_, ?_⟩ <;> simp only [appended_append, delivered_append, appended, delivered, List.append_nil,
      List.length_append, List.length_singleton, List.map_append, List.map_cons, List.map_nil]
    · rw [← h.order, List.append_assoc]
      rfl
    · exact congrArg (· + 1) h.counted
    · rw [h.seqs, List.range'_1_concat, Inner.event, h.counted, Nat.add_comm 1]
  | drain max =>
    refine ⟨?_, ?_, ?_⟩ <;> simp only [appended_append, delivered_append, appended_delivered, delivered_delivered,
      List.append_nil]
    · rw [← h.order, List.append_assoc]
      exact congrArg (delivered seen ++ ·) (List.take_append_drop max inner.pending)
    · exact h.counted
    · exact h.seqs

/-- In every run, whatever the producers do, events are delivered in the order they were appended and numbered. -/
theorem run_buffered {id : String} {acts : List (Act ρ ω)} {s : System ρ ω}
    (h : run (step observe) (System.start id) acts = some s) :
    Buffered s.inner (log (step observe) (notes observe) (System.start id) acts) := by
  refine run_invariant (I := fun s seen => Buffered s.inner seen) ⟨rfl, rfl, rfl⟩ ?_ h
  exact fun s act t seen hs hstep => buffered_change hs (step_change hstep).2

/-! Where no producer is stale, the terminal event is the last appended. -/

/-- Neither the terminal event nor an entry that comes too late. -/
def Quiet : Note → Prop
  | .appended event => event.last = false
  | .dropped _ => False
  | .delivered _ => True

/-- The terminal event was appended once, with nothing dropped before it and nothing appended after it. -/
def Ended (seen : List Note) : Prop :=
  ∃ before terminal after, seen = before ++ .appended terminal :: after ∧ terminal.last = true ∧
    (∀ note ∈ before, Quiet note) ∧ appended after = []

def Settled (inner : Inner) (seen : List Note) : Prop :=
  if inner.producedLast then Ended seen else ∀ note ∈ seen, Quiet note

theorem settled_new : Settled .new [] := by
  intro note hnote
  exact nomatch hnote

private theorem ended_append {seen new : List Note} (h : Ended seen) (hnew : appended new = []) : Ended (seen ++ new) := by
  obtain ⟨before, terminal, after, rfl, hlast, hquiet, hafter⟩ := h
  refine ⟨before, terminal, after ++ new, by simp, hlast, hquiet, ?_⟩
  rw [appended_append, hafter, hnew, List.nil_append]

theorem settled_change {id : String} {fresh : Prop} {inner inner' : Inner} {seen new : List Note} (hfresh : fresh)
    (h : Settled inner seen) (hchange : Change id fresh inner inner' new) : Settled inner' (seen ++ new) := by
  cases hchange with
  | none => rwa [List.append_nil]
  | drop entry hproduced =>
    rw [Settled, if_pos hproduced] at h ⊢
    exact ended_append h rfl
  | append entry hopen =>
    rw [Settled, if_neg (by simp [hopen hfresh])] at h
    unfold Settled
    split
    · rename_i hlast
      exact ⟨seen, _, [], rfl, hlast, h, rfl⟩
    · rename_i hlast
      intro note hnote
      rcases List.mem_append.1 hnote with hnote | hnote
      · exact h note hnote
      · obtain rfl := List.mem_singleton.1 hnote
        exact Bool.eq_false_iff.2 hlast
  | drain max =>
    unfold Settled at h ⊢
    split
    · rename_i hproduced
      rw [if_pos (show inner.producedLast = true from hproduced)] at h
      exact ended_append h (appended_delivered _)
    · rename_i hproduced
      rw [if_neg (show ¬inner.producedLast = true from hproduced)] at h
      intro note hnote
      rcases List.mem_append.1 hnote with hnote | hnote
      · exact h note hnote
      · obtain ⟨event, -, rfl⟩ := List.mem_map.1 hnote
        trivial

/-- What holds of a run of a stream none of whose producers is stale. -/
theorem run_settled {id : String} {acts : List (Act ρ ω)} {s : System ρ ω}
    (h : run (step observe) (System.start id) acts = some s) (hfresh : Along Fresh (step observe) (System.start id) acts) :
    Settled s.inner (log (step observe) (notes observe) (System.start id) acts) := by
  refine run_invariant_along (I := fun s seen => Settled s.inner seen) settled_new ?_ h hfresh
  exact fun s act t seen hfresh hs hstep => settled_change hfresh hs (step_change hstep).2

end Steps

/-! The promise, from the two. -/

section Promise

variable {inner : Inner} {seen : List Note}

private theorem appended_last {events : List Note} {terminal : Event} (hquiet : ∀ note ∈ events, Quiet note)
    (hlast : terminal.last = true) : terminal ∉ appended events := by
  induction events with
  | nil => exact nofun
  | cons note events ih =>
    have ih := ih fun n hn => hquiet n (List.mem_cons_of_mem _ hn)
    have hnote := hquiet note List.mem_cons_self
    cases note with
    | appended event =>
      rw [appended, List.mem_cons, not_or]
      refine ⟨?_, ih⟩
      rintro rfl
      exact absurd (hlast.symm.trans hnote) (by decide)
    | dropped entry => exact hnote.elim
    | delivered event => exact ih

/-- Where the terminal event has been appended it is the last appended, and what was seen before it was quiet. -/
private theorem terminal_last (h : Settled inner seen) {before : List Note} {terminal : Event} {after : List Note}
    (hseen : seen = before ++ .appended terminal :: after) (hlast : terminal.last = true) :
    (∀ note ∈ before, Quiet note) ∧ appended after = [] := by
  unfold Settled at h
  split at h
  · obtain ⟨before', terminal', after', hseen', hlast', hquiet', hafter'⟩ := h
    rcases List.append_eq_append_iff.1 (hseen.symm.trans hseen') with ⟨between, hbefore, heq⟩ | ⟨between, hbefore, heq⟩
    · cases between with
      | nil =>
        obtain ⟨-, rfl⟩ := List.cons.inj heq
        rw [List.append_nil] at hbefore
        exact ⟨hbefore ▸ hquiet', hafter'⟩
      | cons note between =>
        obtain ⟨rfl, -⟩ := List.cons.inj heq
        have hquiet := hquiet' (.appended terminal) (by rw [hbefore]; simp)
        exact absurd (hlast.symm.trans hquiet) (by decide)
    · cases between with
      | nil =>
        obtain ⟨-, rfl⟩ := List.cons.inj heq
        rw [List.append_nil] at hbefore
        exact ⟨hbefore ▸ hquiet', hafter'⟩
      | cons note between =>
        have hbetween : after' = between ++ .appended terminal :: after := (List.cons.inj heq).2
        rw [hbetween, appended_append] at hafter'
        exact nomatch (List.append_eq_nil_iff.1 hafter').2
  · have hquiet := h (.appended terminal) (by rw [hseen]; simp)
    exact absurd (hlast.symm.trans hquiet) (by decide)

private theorem exists_appended {events : List Note} {event : Event} (h : event ∈ appended events) :
    ∃ before after, events = before ++ .appended event :: after := by
  induction events with
  | nil => exact nomatch h
  | cons note events ih =>
    have hrest (h : event ∈ appended events) : ∃ before after, note :: events = before ++ .appended event :: after := by
      obtain ⟨before, after, rfl⟩ := ih h
      exact ⟨note :: before, after, rfl⟩
    cases note with
    | appended event' =>
      rcases List.mem_cons.1 h with rfl | h
      · exact ⟨[], events, rfl⟩
      · exact hrest h
    | dropped entry => exact hrest h
    | delivered event' => exact hrest h

/-- What was appended ends in the terminal event, where that has been. -/
private theorem appended_ends (h : Settled inner seen) {terminal : Event} (hmem : terminal ∈ appended seen)
    (hlast : terminal.last = true) :
    ∃ before, appended seen = before ++ [terminal] ∧ ∀ event ∈ before, event.last = false := by
  obtain ⟨before, after, hseen⟩ := exists_appended hmem
  obtain ⟨hquiet, hafter⟩ := terminal_last h hseen hlast
  refine ⟨appended before, ?_, fun event hevent => ?_⟩
  · rw [hseen, appended_append, appended, hafter]
  · exact Bool.eq_false_iff.2 fun hlast => appended_last hquiet hlast hevent

/-- What a list's only last element is in ends with it. -/
private theorem whole_of_mem {α : Type} {first second init : List α} {a : α} (h : first ++ second = init ++ [a])
    (hmem : a ∈ first) (hnot : a ∉ init) : first = init ++ [a] ∧ second = [] := by
  rcases List.append_eq_append_iff.1 h with ⟨between, rfl, -⟩ | ⟨between, rfl, heq⟩
  · exact absurd (List.mem_append_left _ hmem) hnot
  · cases between with
    | nil =>
      rw [List.append_nil] at hmem
      exact absurd hmem hnot
    | cons b between =>
      obtain ⟨rfl, hrest⟩ := List.cons.inj heq
      obtain ⟨rfl, rfl⟩ := List.append_eq_nil_iff.1 hrest.symm
      exact ⟨rfl, rfl⟩

theorem promise_of_settled (hbuffered : Buffered inner seen) (hsettled : Settled inner seen) : Promise seen where
  gapless := by
    have hseqs := hbuffered.seqs
    rw [← hbuffered.order, List.map_append, List.length_append, ← List.range'_append_1] at hseqs
    exact List.append_inj_left hseqs (by simp)
  kept {before terminal after} hseen hlast := by
    obtain ⟨hquiet, hafter⟩ := terminal_last hsettled hseen hlast
    refine ⟨fun entry hentry => hquiet _ hentry, fun hmem => ⟨[], ?_⟩⟩
    have horder : delivered seen ++ inner.pending = appended before ++ [terminal] := by
      rw [hbuffered.order, ← hafter]
      conv_lhs => rw [hseen, appended_append, appended]
    exact (whole_of_mem horder hmem (appended_last hquiet hlast)).1
  once := by
    by_cases hmem : ∃ terminal ∈ delivered seen, terminal.last = true
    · obtain ⟨terminal, hmem, hlast⟩ := hmem
      have hin : terminal ∈ appended seen := hbuffered.order ▸ List.mem_append_left _ hmem
      obtain ⟨init, hends, hinit⟩ := appended_ends hsettled hin hlast
      have hnot : terminal ∉ init := fun h => absurd (hlast.symm.trans (hinit _ h)) (by decide)
      rw [(whole_of_mem (hbuffered.order.trans hends) hmem hnot).1, List.filter_append,
        List.filter_eq_nil_iff.2 fun event hevent => by simp [hinit event hevent]]
      exact List.length_filter_le _ _
    · rw [List.filter_eq_nil_iff.2 fun event hevent hlast => hmem ⟨event, hevent, hlast⟩]
      exact Nat.zero_le _
  ended {before terminal after} hdelivered hlast := by
    have hin : terminal ∈ appended seen := by
      rw [← hbuffered.order, hdelivered]
      simp
    obtain ⟨init, hends, hinit⟩ := appended_ends hsettled hin hlast
    have hnot : terminal ∉ init := fun h => absurd (hlast.symm.trans (hinit _ h)) (by decide)
    have hall : (before ++ [terminal]) ++ (after ++ inner.pending) = init ++ [terminal] := by
      rw [← hends, ← hbuffered.order, hdelivered]
      simp
    exact (List.append_eq_nil_iff.1 (whole_of_mem hall (by simp) hnot).2).1

end Promise

/-- A stream keeps its promise along every run in which no woken producer is stale. -/
theorem stream_keeps_its_promise {ρ ω : Type} [DecidableEq ρ] {observe : ω → String → Json → List (String × Json) × ω}
    {id : String} {acts : List (Act ρ ω)} {s : System ρ ω} (h : run (step observe) (System.start id) acts = some s)
    (hfresh : Along Fresh (step observe) (System.start id) acts) :
    Promise (log (step observe) (notes observe) (System.start id) acts) :=
  promise_of_settled (run_buffered h) (run_settled h hfresh)

/-- What a run's report adds to each event. -/
private def reported : Unit → String → Json → List (String × Json) × Unit := fun _ kind _ => ([("report", .string kind)], ())

private def short : List (Act Bool Unit) :=
  [.observe (), .emit false "progress" .null, .push false, .finish true "finished" .null, .push false, .push true, .push true,
    .drain 10]

theorem stream_keeps_its_promise_observed :
    ∃ s, run (step reported) (System.start "s-1") short = some s ∧
      Promise (log (step reported) (notes reported) (System.start "s-1") short) := by
  obtain ⟨s, h⟩ : ∃ s, run (step reported) (System.start "s-1") short = some s := ⟨_, rfl⟩
  refine ⟨s, h, stream_keeps_its_promise h ?_⟩
  simp [short, Along, Fresh, Stale, Act.emit, Act.finish]

/-! Two producers that wait for room, each to append a terminal event. -/

section Overfull

/-- No observer. -/
private def unobserved : Empty → String → Json → List (String × Json) × Empty := nofun

private def filling (n : Nat) : List (Act Bool Empty) :=
  (List.replicate n [Act.emit false "progress" .null, .push false]).flatten

private def finishing : List (Act Bool Empty) :=
  [.finish false "finished" .null, .push false, .finish true "finished" .null, .push true, .drain 2, .wake false,
    .wake true, .drain bufferCap]

private def holding (pending : List Event) (n : Nat) : System Bool Empty :=
  ⟨"s-1", ⟨n, pending, false, false⟩, none, fun _ => .running []⟩

private theorem run_filling {n : Nat} (h : n ≤ bufferCap) :
    ∃ pending, pending.length = n ∧ run (step unobserved) (System.start "s-1") (filling n) = some (holding pending n) := by
  induction n with
  | zero => exact ⟨[], rfl, rfl⟩
  | succ n ih =>
    obtain ⟨pending, hlength, hrun⟩ := ih (Nat.le_of_succ_le h)
    have hroom : ¬bufferCap ≤ pending.length := by omega
    refine ⟨pending ++ [⟨"s-1", n + 1, "progress", .null, false⟩], by simp [hlength], ?_⟩
    rw [filling, List.replicate_succ', List.flatten_append, run_append]
    change (run (step unobserved) (System.start "s-1") (filling n)).bind _ = _
    rw [hrun]
    simp [run, step, System.move, Act.emit, System.call, System.push, System.becomes, System.append, observed, entries,
      holding, Inner.isFull, Inner.append, Inner.event, hroom]

private theorem run_finishing {pending : List Event} {n : Nat} (h : pending.length = bufferCap) :
    (∃ s, run (step unobserved) (holding pending n) finishing = some s) ∧
      delivered (log (step unobserved) (notes unobserved) (holding pending n) finishing) =
        pending ++ [⟨"s-1", n + 1, "finished", .null, true⟩, ⟨"s-1", n + 2, "finished", .null, true⟩] := by
  have hone : ¬bufferCap ≤ bufferCap - 2 := by decide
  have htwo : ¬bufferCap ≤ bufferCap - 2 + 1 := by decide
  have hall (added : List Event) (hadded : added.length = 2) :
      pending.take 2 ++ (pending.drop 2 ++ added).take bufferCap = pending ++ added := by
    have hlength : (pending.drop 2 ++ added).length ≤ bufferCap := by
      rw [List.length_append, List.length_drop, h, hadded]
      decide
    rw [List.take_of_length_le hlength, ← List.append_assoc, List.take_append_drop]
  simp [finishing, run, log, notes, step, System.move, Act.finish, System.call, System.push, System.wake, System.becomes,
    System.append, observed, entries, holding, Inner.isFull, Inner.append, Inner.event, Inner.drain, h, hone, htwo,
    delivered, delivered_append, delivered_delivered, hall, -List.map_take, -List.map_drop, -List.map_append]

/-- With the buffer full and two producers waiting to finish, both do once there is room: two terminal events are
delivered, one after the other. -/
theorem two_terminal_events_delivered :
    ∃ s, run (step unobserved) (System.start "s-1") (filling bufferCap ++ finishing) = some s ∧
      ¬Promise (log (step unobserved) (notes unobserved) (System.start "s-1") (filling bufferCap ++ finishing)) := by
  obtain ⟨pending, hlength, hfilled⟩ := run_filling (Nat.le_refl bufferCap)
  obtain ⟨⟨s, hfinished⟩, hdelivered⟩ := run_finishing (n := bufferCap) hlength
  refine ⟨s, ?_, fun hpromise => ?_⟩
  · rw [run_append, hfilled]
    exact hfinished
  · have hseen : log (step unobserved) (notes unobserved) _ (filling bufferCap ++ finishing) = _ := log_append finishing hfilled
    have hends := congrArg delivered hseen
    rw [delivered_append, hdelivered, ← List.append_assoc, List.append_cons] at hends
    have hended := hpromise.ended (hends.trans (List.append_assoc _ _ _)) rfl
    exact nomatch hended

end Overfull

end PactJanus.Events.Delivery
