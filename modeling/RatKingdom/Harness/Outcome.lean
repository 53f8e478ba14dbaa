/-
The outcome of a control message.

A message the runner has taken is pending, or awaits the sign of its own turn, or was
acknowledged, as long as nothing overwrites its slot (`Open`).  There is one slot of each
kind, so this takes that no other message arrives while one is pending, that a message
still awaiting when the child exits is confirmed by what the drain reads before the slot is
handed to the next one, and that the drain is not cut while it delivers an acknowledgement.
Then every message has its outcome in front of `Exited` (`outcome_before_exit`).
-/
import RatKingdom.Harness.Acknowledge

namespace RatKingdom.Harness

open List Runner

open Steer (ControlEnvelope)

def Received (log : List Entry) (id : String) : Prop :=
  ∃ e : ControlEnvelope, Entry.received e ∈ log ∧ e.messageId = id

def Reported (log : List Entry) (id : String) : Prop :=
  ∃ before why after, log = before ++
    .sent (.stderr ("Codex control " ++ id ++ Failing.what why)) :: .sent (.retry 0 why.error) :: after

def HasOutcome (log : List Entry) (id : String) : Prop := Acked log id ∨ Reported log id

/-- `Exited` is published only once every message received has an outcome. -/
def Accounted (log : List Entry) : Entry → Prop
  | .sent (.exited _) => ∀ id, Received log id → HasOutcome log id
  | _ => True

/-- The time limit does not cut the drain while it acts on a confirmation. -/
def Undisturbed (s : Runner) : Stop → Prop
  | .sending event => s.confirmation event = none
  | .delivering event => s.confirmation event = none
  | _ => True

def afterDrain (s : Runner) (d : Drain) : Runner := if s.stdout then d.events.foldl forward s else s

def Settles (s : Runner) : Label → Prop
  | .steer msg => s.knows msg.messageId = true ∨ s.pending = none
  | .childExits _ d _ =>
    (s.stdout = true → Undisturbed (afterDrain s d) d.stop) ∧
      (s.pending.isSome = true → (afterDrain s d).awaitingAck = none)
  | _ => True

/-- Where the messages received are.  `held` is the pending envelope, or the one the exit
branch has taken out of its slot. -/
structure Open (s : Runner) (held : Option ControlEnvelope) : Prop where
  accounted : Lib.Warranted Accounted s.log
  delivered : ∀ id ∈ s.delivered, Acked s.log id
  received : ∀ id, Received s.log id → HasOutcome s.log id ∨
    (∃ e, held = some e ∧ e.messageId = id) ∨ ∃ e, s.awaitingAck = some e ∧ e.messageId = id

theorem open_launched (stderr : Bool) : Open (launched stderr) none := by
  refine ⟨Lib.warranted_nil, nofun, fun id h => ?_⟩
  obtain ⟨e, he, -⟩ := h
  cases he

def Plain : Entry → Prop
  | .received _ => False
  | .sent (.exited _) => False
  | _ => True

theorem Plain.accounted {x : Entry} (h : Plain x) (log : List Entry) : Accounted log x := by
  cases x with
  | received e => exact h.elim
  | sent e =>
    cases e with
    | exited code => exact h.elim
    | _ => trivial
  | _ => trivial

variable {log : List Entry} {id : String}

theorem Acked.append (h : Acked log id) (xs : List Entry) : Acked (log ++ xs) id := by
  obtain ⟨e, he, hid⟩ := h
  exact ⟨e, mem_append_left _ he, hid⟩

theorem Reported.append (h : Reported log id) (xs : List Entry) : Reported (log ++ xs) id := by
  obtain ⟨before, why, after, rfl⟩ := h
  exact ⟨before, why, after ++ xs, by simp⟩

theorem HasOutcome.append (h : HasOutcome log id) (xs : List Entry) :
    HasOutcome (log ++ xs) id := by
  rcases h with h | h
  · exact .inl (h.append xs)
  · exact .inr (h.append xs)

theorem received_append_plain {xs : List Entry} (hxs : ∀ x ∈ xs, Plain x)
    (h : Received (log ++ xs) id) : Received log id := by
  obtain ⟨e, he, hid⟩ := h
  rcases mem_append.mp he with he | he
  · exact ⟨e, he, hid⟩
  · exact (hxs _ he).elim

theorem plain_singleton {x : Entry} (h : Plain x) : ∀ y ∈ [x], Plain y := by
  intro y hy
  rw [mem_singleton.mp hy]
  exact h

section
variable {s : Runner} {held : Option ControlEnvelope}

theorem Open.note (h : Open s held) {xs : List Entry} (hxs : ∀ x ∈ xs, Plain x) :
    Open (s.note xs) held := by
  refine ⟨h.accounted.append fun x hx before => (hxs x hx).accounted before,
    fun id hid => (h.delivered id hid).append xs, fun id hid => ?_⟩
  rcases h.received id (received_append_plain hxs hid) with houtcome | hslot
  · exact .inl (houtcome.append xs)
  · exact .inr hslot

theorem awaitingAck_confirmed {event : HarnessEvent} (hc : s.confirmation event = none) :
    (s.confirmed event).awaitingAck = s.awaitingAck := by
  rw [confirmation] at hc
  rw [confirmed]
  rcases confirmAwaitingAck_cases event s.awaitingAck s.awaitingAckStarted with
    heq | ⟨id, -, heq⟩ | ⟨text, e, -, -, -, heq⟩
  · rw [heq]
  · rw [heq]
  · rw [heq] at hc
    cases hc

theorem Open.output (h : Open s held) {event : HarnessEvent} (hc : s.confirmation event = none)
    (f : Bool) : Open ((s.confirmed event).note [.output event f]) held := by
  have hnote : Open (s.note [.output event f]) held := h.note (plain_singleton trivial)
  refine ⟨hnote.accounted, hnote.delivered, fun id hid => ?_⟩
  have hplaces := hnote.received id hid
  show HasOutcome (s.log ++ [.output event f]) id ∨ _ ∨
    ∃ e, (s.confirmed event).awaitingAck = some e ∧ _
  rw [awaitingAck_confirmed hc]
  exact hplaces

theorem Open.forward (h : Open s held) (event : HarnessEvent) : Open (s.forward event) held := by
  rw [Runner.forward]
  cases hc : s.confirmation event with
  | none => exact h.output hc true
  | some e =>
    obtain ⟨-, hslot, -, hsame⟩ := confirmation_eq_some hc
    have hplain : ∀ x ∈ [.output event true, .sent (.controlDelivered e)], Plain x := by
      intro x hx
      rcases mem_cons.mp hx with rfl | hx
      · trivial
      · rw [mem_singleton.mp hx]
        trivial
    have hnote := h.note hplain
    have hacked : Acked (s.log ++ [.output event true, .sent (.controlDelivered e)])
        e.messageId := ⟨e, by simp, rfl⟩
    refine ⟨hnote.accounted, forall_mem_cons.mpr ⟨hacked, hnote.delivered⟩, fun id hid => ?_⟩
    · rcases hnote.received id hid with h | h | ⟨e', he', rfl⟩
      · exact .inl h
      · exact .inr (.inl h)
      · have heq : s.awaitingAck = some e' := he'
        rw [hslot] at heq
        cases heq
        exact .inl (.inl hacked)

theorem Open.foldl {f : Runner → HarnessEvent → Runner}
    (hf : ∀ s event, Open s held → Open (f s event) held) (h : Open s held)
    (events : List HarnessEvent) : Open (events.foldl f s) held := by
  induction events generalizing s with
  | nil => exact h
  | cons event events ih => exact ih (hf s event h)

section
variable (h : Open s held)
include h

theorem Open.interrupt : Open s.interrupt held := by
  have hnote : Open (s.note [.signalled .sigint]) held := h.note (plain_singleton trivial)
  exact ⟨hnote.accounted, hnote.delivered, hnote.received⟩

theorem Open.named (event : HarnessEvent) : Open (s.named event) held := by
  unfold Runner.named
  split
  · exact ⟨h.accounted, h.delivered, h.received⟩
  · exact h

theorem Open.read (event : HarnessEvent) : Open (s.read event) held := by
  rw [Runner.read]
  split
  · exact (h.named event).interrupt.forward event
  · exact (h.named event).forward event

theorem Open.closed : Open { s with stdout := false } held := ⟨h.accounted, h.delivered, h.received⟩

theorem Open.said (text : String) : Open (s.note [.sent (.stderr text)]) held :=
  h.note (plain_singleton trivial)

theorem Open.told (waited : Except String (Option Int)) : Open (s.told waited) held := by
  cases waited with
  | ok code => exact h
  | error error => exact h.said _

theorem Open.drainStderr (d : Drain) : Open (s.drainStderr d) held := by
  rw [Runner.drainStderr]
  split
  · refine h.note fun x hx => ?_
    obtain ⟨text, -, rfl⟩ := mem_map.mp hx
    trivial
  · exact h

end

variable {d : Drain}

theorem Open.drainStdout (h : Open s held)
    (hd : s.stdout = true → Undisturbed (afterDrain s d) d.stop) :
    Open (s.drainStdout d) held := by
  rw [Runner.drainStdout]
  split
  · rename_i hstdout
    have hundisturbed := hd hstdout
    rw [afterDrain, if_pos hstdout] at hundisturbed
    have hdrained : Open (d.events.foldl .forward s) held :=
      h.foldl (fun s event hs => hs.forward event) d.events
    cases hstop : d.stop with
    | eof => exact hdrained.closed
    | readError error => exact (hdrained.said _).closed
    | waiting => exact hdrained
    | sending event =>
      rw [hstop] at hundisturbed
      exact hdrained.output hundisturbed false
    | delivering event =>
      rw [hstop] at hundisturbed
      have hn : (d.events.foldl .forward s).confirmation event = none := hundisturbed
      simp only [hn]
      exact hdrained.forward event
  · exact h

theorem Open.drain (h : Open s held) (hd : s.stdout = true → Undisturbed (afterDrain s d) d.stop) :
    Open (s.drain d) held := by
  rw [Runner.drain]
  split
  · exact h.drainStdout hd
  · exact (h.drainStdout hd).drainStderr d

section
variable (h : s.awaitingAck = none) (event : HarnessEvent)
include h

theorem confirmation_of_none : s.confirmation event = none := by
  cases hc : s.confirmation event with
  | none => rfl
  | some e =>
    have hslot := (confirmation_eq_some hc).2.1
    rw [h] at hslot
    cases hslot

theorem awaitingAck_confirmed_of_none : (s.confirmed event).awaitingAck = none := by
  rw [awaitingAck_confirmed (confirmation_of_none h event), h]

theorem awaitingAck_forward_of_none : (s.forward event).awaitingAck = none := by
  rw [forward, confirmation_of_none h event]
  exact awaitingAck_confirmed_of_none h event

end

theorem awaitingAck_drain (h : (afterDrain s d).awaitingAck = none) :
    (s.drain d).awaitingAck = none := by
  have hstdout : (s.drainStdout d).awaitingAck = none := by
    rw [afterDrain] at h
    rw [drainStdout]
    split
    · rename_i hopen
      rw [if_pos hopen] at h
      cases d.stop with
      | eof | readError error | waiting => exact h
      | sending event => exact awaitingAck_confirmed_of_none h event
      | delivering event =>
        dsimp only
        split
        · exact awaitingAck_forward_of_none h event
        · exact awaitingAck_confirmed_of_none h event
    · rename_i hopen
      rw [if_neg hopen] at h
      exact h
  rw [drain]
  split
  · exact hstdout
  · rw [drainStderr]
    split
    · exact hstdout
    · exact hstdout

theorem open_finish (haccounted : Lib.Warranted Accounted s.log)
    (hdelivered : ∀ id ∈ s.delivered, Acked s.log id) (code : Option Int)
    {events : List HarnessEvent} (hevents : ∀ c, .exited c ∉ events)
    (hall : ∀ id, Received s.log id → HasOutcome (s.log ++ events.map Entry.sent) id) :
    Open (s.finish code events) none := by
  have hplain : ∀ x ∈ events.map .sent, Plain x := by
    intro x hx
    obtain ⟨event, hevent, rfl⟩ := mem_map.mp hx
    cases event with
    | exited c => exact (hevents c hevent).elim
    | _ => trivial
  have hlog : (s.finish code events).log =
      (s.log ++ events.map .sent) ++ [.sent (.exited code)] := by
    show s.log ++ (events ++ [Supervisor.HarnessEvent.exited code]).map Entry.sent = _
    rw [map_append, append_assoc]
    rfl
  have hreceived : ∀ id, Received (s.log ++ events.map .sent) id →
      HasOutcome (s.log ++ events.map .sent) id :=
    fun id hid => hall id (received_append_plain hplain hid)
  refine ⟨?_, fun id hid => ?_, fun id hid => .inl ?_⟩
  · rw [hlog]
    exact Lib.warranted_concat.mpr
      ⟨haccounted.append fun x hx before => (hplain x hx).accounted before, hreceived⟩
  · rw [hlog]
    exact ((hdelivered id hid).append _).append _
  · rw [hlog] at hid ⊢
    refine (hreceived id ?_).append _
    obtain ⟨e, he, heq⟩ := hid
    rcases mem_append.mp he with he | he
    · exact ⟨e, he, heq⟩
    · cases mem_singleton.mp he

theorem reported_failure (log : List Entry) (envelope : ControlEnvelope) (why : Failing) :
    Reported (log ++ (failure envelope why).map Entry.sent) envelope.messageId :=
  ⟨log, why, [], rfl⟩

theorem exited_not_mem_failure (envelope : ControlEnvelope) (why : Failing) :
    ∀ c, .exited c ∉ Runner.failure envelope why := by
  intro c
  simp [Runner.failure]

theorem open_finish_failure (haccounted : Lib.Warranted Accounted s.log)
    (hdelivered : ∀ id ∈ s.delivered, Acked s.log id) (code : Option Int)
    {envelope : ControlEnvelope} {why : Failing}
    (hall : ∀ id, Received s.log id → HasOutcome s.log id ∨ envelope.messageId = id) :
    Open (s.finish code (failure envelope why)) none := by
  refine open_finish haccounted hdelivered code (exited_not_mem_failure envelope why) ?_
  intro id hid
  rcases hall id hid with houtcome | rfl
  · exact houtcome.append _
  · exact .inr (reported_failure s.log envelope why)

theorem Open.finishTurn (h : Open s none) (code : Option Int) : Open (s.finishTurn code) none := by
  rw [Runner.finishTurn]
  cases hslot : s.awaitingAck with
  | none =>
    refine open_finish h.accounted h.delivered code (by simp) fun id hid => ?_
    rcases h.received id hid with houtcome | ⟨e, he, -⟩ | ⟨e, he, -⟩
    · exact houtcome.append _
    · cases he
    · rw [hslot] at he
      cases he
  | some envelope =>
    refine open_finish_failure h.accounted h.delivered code fun id hid => ?_
    rcases h.received id hid with houtcome | ⟨e, he, -⟩ | ⟨e, he, heq⟩
    · exact .inl houtcome
    · cases he
    · rw [hslot] at he
      cases he
      exact .inr heq

theorem Open.handOver {envelope : ControlEnvelope} (h : Open s (some envelope))
    (hslot : s.awaitingAck = none) (session : Option String) (resume : Resume) (code : Option Int) :
    Open (s.handOver session envelope resume code) none := by
  have hall : ∀ id, Received s.log id → HasOutcome s.log id ∨ envelope.messageId = id := by
    intro id hid
    rcases h.received id hid with houtcome | ⟨e, he, heq⟩ | ⟨e, he, -⟩
    · exact .inl houtcome
    · cases he
      exact .inr heq
    · rw [hslot] at he
      cases he
  cases session with
  | none => exact open_finish_failure h.accounted h.delivered code hall
  | some session =>
    have hplain : ∀ x ∈ [.child session envelope], Plain x := plain_singleton trivial
    have hchild : Open (s.note [.child session envelope]) (some envelope) := h.note hplain
    cases resume with
    | notStarted => exact open_finish_failure h.accounted h.delivered code hall
    | withoutStdout =>
      refine open_finish_failure hchild.accounted hchild.delivered code fun id hid => ?_
      rcases hall id (received_append_plain hplain hid) with houtcome | heq
      · exact .inl (houtcome.append _)
      · exact .inr heq
    | started stderr =>
      refine ⟨hchild.accounted, hchild.delivered, fun id hid => ?_⟩
      rcases hall id (received_append_plain hplain hid) with houtcome | heq
      · exact .inl (houtcome.append _)
      · exact .inr (.inr ⟨envelope, rfl, heq⟩)

end

/-- The two states agree in what a drain reads. -/
def SameSlots (s s' : Runner) : Prop :=
  s.awaitingAck = s'.awaitingAck ∧ s.awaitingAckStarted = s'.awaitingAckStarted ∧
    s.stdout = s'.stdout

variable {s s' : Runner}

theorem SameSlots.confirmation (h : SameSlots s s') (event : HarnessEvent) :
    s.confirmation event = s'.confirmation event := by
  rw [Runner.confirmation, Runner.confirmation, h.1, h.2.1]

theorem SameSlots.confirmed (h : SameSlots s s') (event : HarnessEvent) :
    SameSlots (s.confirmed event) (s'.confirmed event) := by
  refine ⟨?_, ?_, h.2.2⟩
  · show (confirmAwaitingAck event s.awaitingAck s.awaitingAckStarted).1 = _
    rw [h.1, h.2.1]
    rfl
  · show (confirmAwaitingAck event s.awaitingAck s.awaitingAckStarted).2.1 = _
    rw [h.1, h.2.1]
    rfl

theorem SameSlots.forward (h : SameSlots s s') (event : HarnessEvent) :
    SameSlots (s.forward event) (s'.forward event) := by
  have hconfirmed := h.confirmed event
  rw [Runner.forward, Runner.forward, h.confirmation event]
  split
  · exact hconfirmed
  · exact hconfirmed

theorem SameSlots.foldl (h : SameSlots s s') (events : List HarnessEvent) :
    SameSlots (events.foldl Runner.forward s) (events.foldl Runner.forward s') := by
  induction events generalizing s s' with
  | nil => exact h
  | cons event events ih => exact ih (h.forward event)

theorem SameSlots.afterDrain (h : SameSlots s s') (d : Drain) :
    SameSlots (afterDrain s d) (afterDrain s' d) := by
  rw [Harness.afterDrain, Harness.afterDrain, h.2.2]
  split
  · exact h.foldl d.events
  · exact h

theorem SameSlots.undisturbed (h : SameSlots s s') {stop : Stop} (hs : Undisturbed s stop) :
    Undisturbed s' stop := by
  cases stop with
  | sending event | delivering event =>
    rw [Undisturbed, ← h.confirmation event]
    exact hs
  | _ => trivial

theorem sameSlots_told (s : Runner) (waited : Except String (Option Int)) :
    SameSlots s (({ s with pending := none } : Runner).told waited) := by
  cases waited with
  | ok code | error error => exact ⟨rfl, rfl, rfl⟩

theorem Open.childExits (h : Open s s.pending) {waited : Except String (Option Int)} {d : Drain}
    {resume : Resume} (hguard : Settles s (.childExits waited d resume)) :
    Open (s.childExits waited d resume) none := by
  obtain ⟨hcut, hslot⟩ := hguard
  rw [Runner.childExits]
  cases hpending : s.pending with
  | none =>
    rw [hpending] at h
    have hsame : SameSlots s (s.told waited) := by
      have htold := sameSlots_told s waited
      cases waited <;> exact htold
    refine ((h.told waited).drain fun hstdout => ?_).finishTurn _
    exact (hsame.afterDrain d).undisturbed (hcut (by rw [hsame.2.2, hstdout]))
  | some envelope =>
    rw [hpending] at h hslot
    have hsame := sameSlots_told s waited
    have htaken : Open ({ s with pending := none } : Runner) (some envelope) :=
      ⟨h.accounted, h.delivered, h.received⟩
    refine ((htaken.told waited).drain fun hstdout => ?_).handOver ?_ _ _ _
    · exact (hsame.afterDrain d).undisturbed (hcut (by rw [hsame.2.2, hstdout]))
    · refine awaitingAck_drain ?_
      rw [← (hsame.afterDrain d).1]
      exact hslot rfl

theorem knows_iff :
    s.knows id = true ↔ id ∈ s.delivered ∨ (∃ e, s.pending = some e ∧ e.messageId = id) ∨
      ∃ e, s.awaitingAck = some e ∧ e.messageId = id := by
  have hslot : ∀ slot : Option ControlEnvelope,
      (slot.any fun e => e.messageId = id) = true ↔ ∃ e, slot = some e ∧ e.messageId = id := by
    intro slot
    cases slot <;> simp
  rw [knows, Bool.or_eq_true, Bool.or_eq_true, hslot, hslot, any_eq_true]
  simp [or_assoc]

theorem Open.steer (h : Open s s.pending) {msg : ControlEnvelope}
    (hguard : Settles s (.steer msg)) : Open (s.steer msg) (s.steer msg).pending := by
  have hheard : ∀ id, Received (s.log ++ [.received msg]) id →
      Received s.log id ∨ msg.messageId = id := by
    intro id hid
    obtain ⟨e, he, heq⟩ := hid
    rcases mem_append.mp he with he | he
    · exact .inl ⟨e, he, heq⟩
    · cases mem_singleton.mp he
      exact .inr heq
  have haccounted : Lib.Warranted Accounted (s.log ++ [.received msg]) :=
    Lib.warranted_concat.mpr ⟨h.accounted, trivial⟩
  have hdelivered : ∀ id ∈ s.delivered, Acked (s.log ++ [.received msg]) id :=
    fun id hid => (h.delivered id hid).append _
  rw [Runner.steer]
  dsimp only
  split
  · rename_i hknown
    refine ⟨haccounted, hdelivered, fun id hid => ?_⟩
    rcases hheard id hid with hid | rfl
    · rcases h.received id hid with houtcome | hplace
      · exact .inl (houtcome.append _)
      · exact .inr hplace
    · rcases knows_iff.mp hknown with hm | hplace
      · exact .inl (.inl (hdelivered _ hm))
      · exact .inr hplace
  · rename_i hunknown
    have hempty : s.pending = none := by
      rcases hguard with hknown | hempty
      · exact (hunknown hknown).elim
      · exact hempty
    have hheld : Open { s.note [.received msg] with pending := some msg } (some msg) := by
      refine ⟨haccounted, hdelivered, fun id hid => ?_⟩
      rcases hheard id hid with hid | rfl
      · rcases h.received id hid with houtcome | ⟨e, he, -⟩ | hawaiting
        · exact .inl (houtcome.append _)
        · rw [hempty] at he
          cases he
        · exact .inr (.inr hawaiting)
      · exact .inr (.inl ⟨msg, rfl, rfl⟩)
    split
    · exact hheld.interrupt
    · exact hheld

def isKill : Label → Bool
  | .kill _ => true
  | _ => false

theorem open_step {l : Label} (h : Open s s.pending) (hs : step s l = some s')
    (hguard : isKill l = false ∧ Settles s l) : Open s' s'.pending := by
  unfold step at hs
  obtain ⟨-, hs⟩ := Option.ite_none_left_eq_some.mp hs
  cases l with
  | stdoutLine events =>
    dsimp only at hs
    split at hs
    · cases hs
      rw [pending_foldl pending_read]
      exact h.foldl (fun s event hs => hs.read event) events
    · cases hs
  | stdoutEnd =>
    dsimp only at hs
    split at hs
    · cases hs
      exact h.closed
    · cases hs
  | stdoutError error | stderrLine text =>
    dsimp only at hs
    split at hs
    · cases hs
      exact h.said _
    · cases hs
  | stderrEnd =>
    dsimp only at hs
    split at hs
    · cases hs
      exact ⟨h.accounted, h.delivered, h.received⟩
    · cases hs
  | stderrError error =>
    dsimp only at hs
    split at hs
    · cases hs
      have hsaid := h.said ("Codex stderr read failed: " ++ error)
      exact ⟨hsaid.accounted, hsaid.delivered, hsaid.received⟩
    · cases hs
  | steer msg =>
    cases hs
    exact h.steer hguard.2
  | kill k => cases hguard.1
  | childExits waited d resume =>
    cases hs
    rw [pending_childExits]
    exact h.childExits hguard.2

/-- Without kill signals, a run whose steps meet the condition publishes `Exited` only when
every message received was acknowledged or reported as failed. -/
theorem outcome_before_exit {stderr : Bool} {ls : List Label} (hkill : ∀ l ∈ ls, isKill l = false)
    (hsettles : Lib.Meets step Settles (launched stderr) ls) :
    Lib.Keeps step (fun s => Lib.Warranted Accounted s.log) (launched stderr) ls := by
  have hno : Lib.Meets step (fun _ l => isKill l = false) (launched stderr) ls :=
    Lib.meets_of_forall hkill (launched stderr)
  have hmeets := hno.and hsettles
  have hopen : Lib.Keeps step (fun s => Open s s.pending) (launched stderr) ls :=
    Lib.keeps_of_meets (fun s l s' h hs hg => open_step h hs hg) (open_launched stderr) hmeets
  exact hopen.mono fun s h => h.accounted

theorem outcome_before_exit_reported :
    Lib.Keeps step (fun s => Lib.Warranted Accounted s.log) (launched true)
      [.stdoutLine [.started (some "s1")], .steer stopMessage,
        .childExits (.ok (some 0)) ⟨[], .eof, []⟩ .notStarted] := by
  refine outcome_before_exit (by decide) ?_
  refine Lib.meets_cons rfl trivial (Lib.meets_cons rfl (.inr rfl) ?_)
  exact Lib.meets_cons rfl ⟨fun _ => trivial, fun _ => rfl⟩ trivial

theorem Reported.line (h : Reported log id) :
    ∃ text, Entry.sent (.stderr text) ∈ log ∧
      ("Codex control ".toList ++ id.toList).isPrefixOf text.toList = true := by
  obtain ⟨before, why, after, rfl⟩ := h
  refine ⟨"Codex control " ++ id ++ why.what, by simp, ?_⟩
  rw [List.isPrefixOf_iff_prefix, String.toList_append, String.toList_append]
  exact prefix_append _ _

/-- Two messages before the child exits: the second takes the slot of the first, and the
session ends with the second reported and no word of the first. -/
theorem not_outcome_before_exit :
    ∃ s, Lib.run step (launched true)
        [.steer stopMessage, .steer { stopMessage with messageId := "m2" },
          .childExits (.ok (some 0)) ⟨[], .eof, []⟩ .notStarted] = some s ∧
      ¬ Lib.Warranted Accounted s.log := by
  refine ⟨_, rfl, fun h => ?_⟩
  have hl := h [.received stopMessage, .received { stopMessage with messageId := "m2" },
    .sent (.stderr "Codex control m2 could not resume: no session id was established"),
    .sent (.retry 0 "Codex session could not resume because no session id was established")]
    (.sent (.exited (some 0))) [] rfl
  rcases hl "m1" ⟨stopMessage, mem_cons_self, rfl⟩ with hacked | hreported
  · obtain ⟨e, he, -⟩ := hacked
    simp at he
  · obtain ⟨text, htext, hn⟩ := hreported.line
    have heq : text = "Codex control m2 could not resume: no session id was established" := by
      simpa using htext
    rw [heq] at hn
    revert hn
    decide

end RatKingdom.Harness
