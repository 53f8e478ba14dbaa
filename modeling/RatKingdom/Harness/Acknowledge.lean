/-
An acknowledgement belongs to the turn that earned it.

The awaiting slot is filled only at a hand-over, by the envelope whose child has just been
started, and the flag beside it is set only by a `Started` of that child's stdout.  So the
assistant text that clears the slot is the answer of a session resumed for this envelope
(`Turns`), whichever loop reads it.  `ControlDelivered` is then sent once, and an id that
was acknowledged is not taken up again.
-/
import RatKingdom.Harness.Runner

namespace RatKingdom.Harness

open List Runner

open Steer (ControlEnvelope)

def Acked (log : List Entry) (id : String) : Prop :=
  ∃ e : ControlEnvelope, Entry.sent (.controlDelivered e) ∈ log ∧ e.messageId = id

/-- No child was started in this part of the log. -/
def OneChild (turn : List Entry) : Prop := ∀ session e, Entry.child session e ∉ turn

/-- The last child was started by the resume command of the envelope, and its stdout gave a
`Started` with a session id and then assistant text. -/
def Answered (log : List Entry) (envelope : ControlEnvelope) : Prop :=
  ∃ before session turn, log = before ++ .child session envelope :: turn ∧ OneChild turn ∧
    ∃ t₁ id f t₂ text f' t₃,
      turn = t₁ ++ .output (.started (some id)) f :: (t₂ ++ .output (.assistantText text) f' :: t₃)

def Grounds (log : List Entry) : Entry → Prop
  | .sent (.controlDelivered e) => Answered log e ∧ ¬ Acked log e.messageId
  | .child _ e => ¬ Acked log e.messageId
  | _ => True

def Quiet : Entry → Prop
  | .sent (.controlDelivered _) => False
  | .child _ _ => False
  | _ => True

theorem Quiet.grounds {x : Entry} (h : Quiet x) (log : List Entry) : Grounds log x := by
  cases x with
  | received e | signalled k | output e f => trivial
  | child session e => exact h.elim
  | sent e =>
    cases e with
    | controlDelivered e => exact h.elim
    | _ => trivial

theorem acked_append_quiet {log xs : List Entry} (hxs : ∀ x ∈ xs, Quiet x) {id : String} :
    Acked (log ++ xs) id ↔ Acked log id := by
  constructor
  · intro h
    obtain ⟨e, he, hid⟩ := h
    rcases mem_append.mp he with he | he
    · exact ⟨e, he, hid⟩
    · exact (hxs _ he).elim
  · intro h
    obtain ⟨e, he, hid⟩ := h
    exact ⟨e, mem_append_left _ he, hid⟩

/-- The last child was started for the envelope, and has started its session where the flag
says so. -/
def OnTurn (log : List Entry) (envelope : ControlEnvelope) (started : Bool) : Prop :=
  ∃ before session turn, log = before ++ .child session envelope :: turn ∧ OneChild turn ∧
    (started = true → ∃ id f, Entry.output (.started (some id)) f ∈ turn)

theorem OneChild.append {turn xs : List Entry} (h : OneChild turn) (hxs : ∀ x ∈ xs, Quiet x) :
    OneChild (turn ++ xs) := by
  intro session e he
  rcases mem_append.mp he with he | he
  · exact h session e he
  · exact hxs _ he

variable {e : ControlEnvelope}

theorem OnTurn.append {log xs : List Entry} {started : Bool}
    (h : OnTurn log e started) (hxs : ∀ x ∈ xs, Quiet x) : OnTurn (log ++ xs) e started := by
  obtain ⟨before, session, turn, rfl, hone, hstarted⟩ := h
  refine ⟨before, session, turn ++ xs, by simp, hone.append hxs, fun hs => ?_⟩
  obtain ⟨id, f, hm⟩ := hstarted hs
  exact ⟨id, f, mem_append_left _ hm⟩

theorem OnTurn.started {log : List Entry} {started : Bool}
    (h : OnTurn log e started) (id : String) (f : Bool) :
    OnTurn (log ++ [.output (.started (some id)) f]) e true := by
  obtain ⟨before, session, turn, rfl, hone, -⟩ := h
  refine ⟨before, session, turn ++ [.output (.started (some id)) f], by simp,
    hone.append fun x hx => ?_, fun _ => ⟨id, f, mem_append_right _ mem_cons_self⟩⟩
  rw [mem_singleton.mp hx]
  trivial

theorem OnTurn.answered {log : List Entry} (h : OnTurn log e true) (text : String) (f : Bool) :
    Answered (log ++ [.output (.assistantText text) f]) e := by
  obtain ⟨before, session, turn, rfl, hone, hstarted⟩ := h
  obtain ⟨id, f', hm⟩ := hstarted rfl
  obtain ⟨t₁, t₂, rfl⟩ := append_of_mem hm
  refine ⟨before, session, _, by simp; rfl, hone.append fun x hx => ?_,
    t₁, id, f', t₂, text, f, [], by simp⟩
  rw [mem_singleton.mp hx]
  trivial

/-- The two slots and the acknowledged ids.  `held` is the pending envelope, or the one the
exit branch has taken out of its slot. -/
structure Turns (s : Runner) (held : Option ControlEnvelope) : Prop where
  grounded : Lib.Warranted Grounds s.log
  covered : ∀ id, Acked s.log id → id ∈ s.delivered
  awaiting : ∀ e, s.awaitingAck = some e →
    e.messageId ∉ s.delivered ∧ OnTurn s.log e s.awaitingAckStarted
  held : ∀ e, held = some e → e.messageId ∉ s.delivered ∧
    ∀ a, s.awaitingAck = some a → a.messageId ≠ e.messageId

theorem turns_launched (stderr : Bool) : Turns (launched stderr) none := by
  refine ⟨Lib.warranted_nil, fun id h => ?_, nofun, nofun⟩
  obtain ⟨e, he, -⟩ := h
  cases he

section
variable {s : Runner} {held : Option ControlEnvelope}

theorem Turns.drop (h : Turns s held) : Turns s none := ⟨h.grounded, h.covered, h.awaiting, nofun⟩

theorem Turns.note (h : Turns s held) {xs : List Entry} (hxs : ∀ x ∈ xs, Quiet x) :
    Turns (s.note xs) held := by
  refine ⟨h.grounded.append fun x hx before => (hxs x hx).grounds before, fun id hid => ?_,
    fun e he => ?_, h.held⟩
  · exact h.covered id ((acked_append_quiet hxs).mp hid)
  · exact ⟨(h.awaiting e he).1, (h.awaiting e he).2.append hxs⟩

theorem confirmAwaitingAck_cases (event : HarnessEvent) (slot : Option ControlEnvelope)
    (flag : Bool) :
    confirmAwaitingAck event slot flag = (slot, flag, none) ∨ (∃ id, event = .started (some id) ∧
        confirmAwaitingAck event slot flag = (slot, flag || slot.isSome, none)) ∨
          ∃ text e, event = .assistantText text ∧ slot = some e ∧ flag = true ∧
            confirmAwaitingAck event slot flag = (none, false, some e) := by
  cases event with
  | started sessionId =>
    cases sessionId with
    | none => exact .inl rfl
    | some id => exact .inr (.inl ⟨id, rfl, rfl⟩)
  | assistantText text =>
    cases slot with
    | none =>
      refine .inl ?_
      simp [confirmAwaitingAck]
    | some e =>
      cases flag with
      | false => exact .inl rfl
      | true => exact .inr (.inr ⟨text, e, rfl, rfl, rfl, rfl⟩)
  | _ => exact .inl rfl

theorem Turns.output (h : Turns s held) (event : HarnessEvent) (f : Bool) :
    Turns ((s.confirmed event).note [.output event f]) held := by
  have hquiet : ∀ x ∈ [.output event f], Quiet x := by
    intro x hx
    rw [mem_singleton.mp hx]
    trivial
  have hnote := h.note hquiet
  rcases confirmAwaitingAck_cases event s.awaitingAck s.awaitingAckStarted with
    heq | ⟨id, rfl, heq⟩ | ⟨text, e, rfl, hslot, hflag, heq⟩
  · have hsame : s.confirmed event = s := by rw [confirmed, heq]
    rw [hsame]
    exact hnote
  · have hsame : s.confirmed (.started (some id)) =
        { s with awaitingAckStarted := s.awaitingAckStarted || s.awaitingAck.isSome } := by
      rw [confirmed, heq]
    refine ⟨hnote.grounded, hnote.covered, fun e he => ⟨(hnote.awaiting e he).1, ?_⟩, hnote.held⟩
    have hslot : s.awaitingAck = some e := he
    have hturn := (h.awaiting e he).2.started id f
    show OnTurn (s.log ++ [.output (.started (some id)) f]) e
      (s.awaitingAckStarted || s.awaitingAck.isSome)
    rw [hslot, Option.isSome_some, Bool.or_true]
    exact hturn
  · have hsame : s.confirmed (.assistantText text) =
        { s with awaitingAck := none, awaitingAckStarted := false } := by
      rw [confirmed, heq]
    rw [hsame]
    exact ⟨hnote.grounded, hnote.covered, nofun, fun e he => ⟨(hnote.held e he).1, nofun⟩⟩

theorem confirmation_eq_some {event : HarnessEvent} (h : s.confirmation event = some e) :
    (∃ text, event = .assistantText text) ∧ s.awaitingAck = some e ∧ s.awaitingAckStarted = true ∧
        s.confirmed event = { s with awaitingAck := none, awaitingAckStarted := false } := by
  rw [confirmation] at h
  rcases confirmAwaitingAck_cases event s.awaitingAck s.awaitingAckStarted with
    heq | ⟨id, rfl, heq⟩ | ⟨text, e', rfl, hslot, hflag, heq⟩
  · rw [heq] at h
    cases h
  · rw [heq] at h
    cases h
  · rw [heq] at h
    cases h
    exact ⟨⟨text, rfl⟩, hslot, hflag, by rw [confirmed, heq]⟩

theorem Turns.delivered (h : Turns s held) {event : HarnessEvent}
    (hc : s.confirmation event = some e) (f : Bool) :
    Turns { (s.confirmed event).note [.output event f] with
      delivered := e.messageId :: s.delivered } held := by
  obtain ⟨-, hslot, -, hsame⟩ := confirmation_eq_some hc
  have hout := h.output event f
  rw [hsame] at hout ⊢
  refine ⟨hout.grounded, fun id hid => mem_cons_of_mem _ (hout.covered id hid),
    nofun, fun p hp => ⟨?_, nofun⟩⟩
  rw [mem_cons, not_or]
  exact ⟨fun heq => (h.held p hp).2 e hslot heq.symm, (h.held p hp).1⟩

theorem Turns.forward (h : Turns s held) (event : HarnessEvent) : Turns (s.forward event) held := by
  rw [Runner.forward]
  cases hc : s.confirmation event with
  | none => exact h.output event true
  | some e =>
    obtain ⟨⟨text, rfl⟩, hslot, hflag, hsame⟩ := confirmation_eq_some hc
    have hdelivered := h.delivered hc true
    have hout := h.output (.assistantText text) true
    have hawaiting := h.awaiting e hslot
    rw [hflag] at hawaiting
    have hfresh : ¬ Acked (s.log ++ [.output (.assistantText text) true]) e.messageId := by
      intro hacked
      refine hawaiting.1 (h.covered _ ((acked_append_quiet fun x hx => ?_).mp hacked))
      rw [mem_singleton.mp hx]
      trivial
    have hlog : s.log ++ [.output (.assistantText text) true, .sent (.controlDelivered e)] =
          (s.log ++ [.output (.assistantText text) true]) ++ [.sent (.controlDelivered e)] := by
      simp
    rw [hsame] at hdelivered hout ⊢
    refine ⟨?_, fun id hid => ?_, nofun, hdelivered.held⟩
    · show Lib.Warranted Grounds (s.log ++ [.output (.assistantText text) true,
        .sent (.controlDelivered e)])
      rw [hlog]
      exact Lib.warranted_concat.mpr ⟨hout.grounded, hawaiting.2.answered text true, hfresh⟩
    · obtain ⟨e', he', rfl⟩ := hid
      change .sent (.controlDelivered e') ∈ s.log ++ [.output (.assistantText text) true,
        .sent (.controlDelivered e)] at he'
      rw [hlog] at he'
      rcases mem_append.mp he' with he' | he'
      · exact hdelivered.covered _ ⟨e', he', rfl⟩
      · cases mem_singleton.mp he'
        exact mem_cons_self

theorem Turns.foldl {f : Runner → HarnessEvent → Runner}
    (hf : ∀ s event, Turns s held → Turns (f s event) held) (h : Turns s held)
    (events : List HarnessEvent) : Turns (events.foldl f s) held := by
  induction events generalizing s with
  | nil => exact h
  | cons event events ih => exact ih (hf s event h)

theorem Turns.interrupt (h : Turns s held) : Turns s.interrupt held := by
  have hquiet : ∀ x ∈ [.signalled .sigint], Quiet x := by
    intro x hx
    rw [mem_singleton.mp hx]
    trivial
  have hnote := h.note hquiet
  exact ⟨hnote.grounded, hnote.covered, hnote.awaiting, hnote.held⟩

theorem Turns.named (h : Turns s held) (event : HarnessEvent) : Turns (s.named event) held := by
  unfold Runner.named
  split
  · exact ⟨h.grounded, h.covered, h.awaiting, h.held⟩
  · exact h

theorem Turns.read (h : Turns s held) (event : HarnessEvent) : Turns (s.read event) held := by
  rw [Runner.read]
  split
  · exact (h.named event).interrupt.forward event
  · exact (h.named event).forward event

end

variable {s : Runner}

theorem not_knows {id : String} (h : s.knows id = false) :
    id ∉ s.delivered ∧ ∀ a, s.awaitingAck = some a → a.messageId ≠ id := by
  simp only [knows, Bool.or_eq_false_iff, any_eq_false, decide_eq_true_eq] at h
  refine ⟨fun hm => h.1.1 id hm rfl, fun a ha heq => ?_⟩
  have hno := h.2
  rw [ha, Option.any_some, decide_eq_false_iff_not] at hno
  exact hno heq

theorem Turns.steer (h : Turns s s.pending) (msg : ControlEnvelope) :
    Turns (s.steer msg) (s.steer msg).pending := by
  have hquiet : ∀ x ∈ [.received msg], Quiet x := by
    intro x hx
    rw [mem_singleton.mp hx]
    trivial
  have hheard : Turns (s.note [.received msg]) s.pending := h.note hquiet
  rw [Runner.steer]
  dsimp only
  split
  · exact hheard
  · rename_i hknows
    have hnew := not_knows (Bool.eq_false_iff.mpr hknows)
    have hheld : Turns { s.note [.received msg] with pending := some msg } (some msg) :=
      ⟨hheard.grounded, hheard.covered, hheard.awaiting, fun e he => by cases he; exact hnew⟩
    split
    · exact hheld.interrupt
    · exact hheld

theorem Turns.kill (h : Turns s s.pending) (k : KillSignal) :
    Turns (s.kill k) (s.kill k).pending := by
  have hquiet : ∀ x ∈ [.signalled (signalOf k)], Quiet x := by
    intro x hx
    rw [mem_singleton.mp hx]
    trivial
  have hnote := (h.note hquiet).drop
  exact ⟨hnote.grounded, hnote.covered, hnote.awaiting, hnote.held⟩

section
variable {s : Runner} {held : Option ControlEnvelope}

theorem Turns.closed (h : Turns s held) : Turns { s with stdout := false } held :=
  ⟨h.grounded, h.covered, h.awaiting, h.held⟩

theorem Turns.said (h : Turns s held) (text : String) :
    Turns (s.note [.sent (.stderr text)]) held := by
  refine h.note fun x hx => ?_
  rw [mem_singleton.mp hx]
  trivial

theorem Turns.drainStdout (h : Turns s held) (d : Drain) : Turns (s.drainStdout d) held := by
  rw [Runner.drainStdout]
  have hdrained : Turns (d.events.foldl .forward s) held :=
    h.foldl (fun s event hs => hs.forward event) d.events
  split
  · dsimp only
    split
    · exact hdrained.closed
    · exact (hdrained.said _).closed
    · exact hdrained
    · exact hdrained.output _ false
    · split
      · exact hdrained.forward _
      · rename_i hc
        exact hdrained.delivered hc true
  · exact h

theorem Turns.drainStderr (h : Turns s held) (d : Drain) : Turns (s.drainStderr d) held := by
  rw [Runner.drainStderr]
  split
  · refine h.note fun x hx => ?_
    obtain ⟨text, -, rfl⟩ := mem_map.mp hx
    trivial
  · exact h

theorem Turns.drain (h : Turns s held) (d : Drain) : Turns (s.drain d) held := by
  rw [Runner.drain]
  split
  · exact h.drainStdout d
  · exact (h.drainStdout d).drainStderr d

theorem quiet_finish (code : Option Int) {events : List HarnessEvent}
    (hevents : ∀ e, .controlDelivered e ∉ events) :
    ∀ x ∈ (events ++ [Supervisor.HarnessEvent.exited code]).map Entry.sent, Quiet x := by
  intro x hx
  obtain ⟨event, hevent, rfl⟩ := mem_map.mp hx
  cases event with
  | controlDelivered e =>
    rcases mem_append.mp hevent with hm | hm
    · exact (hevents e hm).elim
    · cases mem_singleton.mp hm
  | _ => trivial

theorem turns_finish (hgrounded : Lib.Warranted Grounds s.log)
    (hcovered : ∀ id, Acked s.log id → id ∈ s.delivered) (code : Option Int)
    {events : List HarnessEvent} (hevents : ∀ e, .controlDelivered e ∉ events) :
    Turns (s.finish code events) none := by
  have hquiet := quiet_finish code hevents
  refine ⟨hgrounded.append fun x hx before => (hquiet x hx).grounds before, fun id hid => ?_,
    nofun, nofun⟩
  exact hcovered id ((acked_append_quiet hquiet).mp hid)

theorem Turns.finish (h : Turns s held) (code : Option Int) {events : List HarnessEvent}
    (hevents : ∀ e, .controlDelivered e ∉ events) :
    Turns (s.finish code events) none :=
  turns_finish h.grounded h.covered code hevents

theorem not_mem_failure (envelope e : ControlEnvelope) (why : Failing) :
    .controlDelivered e ∉ Runner.failure envelope why := by
  simp [Runner.failure]

theorem Turns.finishTurn (h : Turns s held) (code : Option Int) :
    Turns (s.finishTurn code) none := by
  rw [Runner.finishTurn]
  split
  · exact h.finish code nofun
  · exact h.finish code fun e => not_mem_failure _ e _

theorem Turns.child (h : Turns s held) {envelope : ControlEnvelope} (hheld : held = some envelope)
    (session : String) :
    Lib.Warranted Grounds (s.log ++ [.child session envelope]) ∧
      ∀ id, Acked (s.log ++ [.child session envelope]) id → id ∈ s.delivered := by
  have hcovered : ∀ id, Acked (s.log ++ [.child session envelope]) id → id ∈ s.delivered := by
    intro id hid
    obtain ⟨e, he, heq⟩ := hid
    rcases mem_append.mp he with he | he
    · exact h.covered id ⟨e, he, heq⟩
    · cases mem_singleton.mp he
  refine ⟨Lib.warranted_concat.mpr ⟨h.grounded, fun hacked => ?_⟩, hcovered⟩
  exact (h.held envelope hheld).1 (h.covered _ hacked)

theorem Turns.handOver {envelope : ControlEnvelope} (h : Turns s (some envelope))
    (session : Option String) (resume : Resume) (code : Option Int) :
    Turns (s.handOver session envelope resume code) none := by
  cases session with
  | none => exact h.finish code fun e => not_mem_failure _ e _
  | some session =>
    have hchild := h.child rfl session
    cases resume with
    | notStarted => exact h.finish code fun e => not_mem_failure _ e _
    | withoutStdout =>
      exact @turns_finish (s.note [.child session envelope]) hchild.1 hchild.2 code _
        fun e => not_mem_failure _ e _
    | started stderr =>
      refine ⟨hchild.1, hchild.2, fun e he => ?_, nofun⟩
      cases he
      refine ⟨(h.held envelope rfl).1, s.log, session, [], rfl, fun _ _ hm => ?_, fun hs => ?_⟩
      · cases hm
      · cases hs

end

theorem Turns.told {held : Option ControlEnvelope} (h : Turns s held)
    (waited : Except String (Option Int)) : Turns (s.told waited) held := by
  cases waited with
  | ok code => exact h
  | error error => exact h.said _

theorem Turns.childExits (h : Turns s s.pending)
    (waited : Except String (Option Int)) (d : Drain) (resume : Resume) :
    Turns (s.childExits waited d resume) none := by
  rw [Runner.childExits]
  split
  · exact ((h.told waited).drain d).finishTurn _
  · rename_i envelope henvelope
    rw [henvelope] at h
    have htaken : Turns { s with pending := none } (some envelope) :=
      ⟨h.grounded, h.covered, h.awaiting, h.held⟩
    exact ((htaken.told waited).drain d).handOver s.sessionId resume _

theorem pending_forward (s : Runner) (event : HarnessEvent) :
    (s.forward event).pending = s.pending := by
  rw [forward]
  split <;> rfl

theorem pending_named (s : Runner) (event : HarnessEvent) :
    (s.named event).pending = s.pending := by
  unfold named
  split <;> rfl

theorem pending_read (s : Runner) (event : HarnessEvent) : (s.read event).pending = s.pending := by
  rw [Runner.read]
  split
  · rw [pending_forward]
    exact pending_named s event
  · rw [pending_forward, pending_named]

theorem pending_foldl {f : Runner → HarnessEvent → Runner}
    (hf : ∀ s event, (f s event).pending = s.pending) (events : List HarnessEvent) (s : Runner) :
    (events.foldl f s).pending = s.pending := by
  induction events generalizing s with
  | nil => rfl
  | cons event events ih => rw [foldl_cons, ih, hf]

theorem pending_drainStdout (s : Runner) (d : Drain) : (s.drainStdout d).pending = s.pending := by
  have hdrained := pending_foldl pending_forward d.events s
  rw [drainStdout]
  split
  · dsimp only
    split
    · exact hdrained
    · exact hdrained
    · exact hdrained
    · exact hdrained
    · split
      · rw [pending_forward, hdrained]
      · exact hdrained
  · rfl

theorem pending_drain (s : Runner) (d : Drain) : (s.drain d).pending = s.pending := by
  have hstderr : ∀ m : Runner, (m.drainStderr d).pending = m.pending := by
    intro m
    rw [drainStderr]
    split <;> rfl
  rw [drain]
  split
  · exact pending_drainStdout s d
  · rw [hstderr, pending_drainStdout]

theorem pending_told (s : Runner) (waited : Except String (Option Int)) :
    (s.told waited).pending = s.pending := by
  cases waited <;> rfl

theorem pending_handOver (h : s.pending = none) (session : Option String)
    (envelope : ControlEnvelope) (resume : Resume) (code : Option Int) :
    (s.handOver session envelope resume code).pending = none := by
  cases session with
  | none => rfl
  | some session =>
    cases resume with
    | notStarted | withoutStdout => rfl
    | started stderr => exact h

theorem pending_childExits (s : Runner) (waited : Except String (Option Int)) (d : Drain)
    (resume : Resume) : (s.childExits waited d resume).pending = none := by
  rw [childExits]
  split
  · rw [finishTurn]
    split <;> rfl
  · refine pending_handOver ?_ _ _ _ _
    rw [pending_drain, pending_told]

theorem turns_step {s s' : Runner} {l : Label} (h : Turns s s.pending) (hs : step s l = some s') :
    Turns s' s'.pending := by
  unfold step at hs
  obtain ⟨-, hs⟩ := Option.ite_none_left_eq_some.mp hs
  cases l with
  | stdoutLine events =>
    dsimp only at hs
    split at hs
    · cases hs
      rw [pending_foldl pending_read]
      exact h.foldl (fun s event hs => hs.read event) events
    · cases hs
  | stdoutEnd =>
    dsimp only at hs
    split at hs
    · cases hs
      exact h.closed
    · cases hs
  | stdoutError error | stderrLine text =>
    dsimp only at hs
    split at hs
    · cases hs
      exact h.said _
    · cases hs
  | stderrEnd =>
    dsimp only at hs
    split at hs
    · cases hs
      exact ⟨h.grounded, h.covered, h.awaiting, h.held⟩
    · cases hs
  | stderrError error =>
    dsimp only at hs
    split at hs
    · cases hs
      have hsaid := h.said ("Codex stderr read failed: " ++ error)
      exact ⟨hsaid.grounded, hsaid.covered, hsaid.awaiting, hsaid.held⟩
    · cases hs
  | steer msg =>
    cases hs
    exact h.steer msg
  | kill k =>
    cases hs
    exact h.kill k
  | childExits waited d resume =>
    cases hs
    rw [pending_childExits]
    exact h.childExits waited d resume

/-- Over every run of a session: `ControlDelivered` is sent for an envelope only behind a
`Started` and then assistant text of the child its resume command started, and only once
for an id; and no child is started for an id that was acknowledged. -/
theorem acknowledged_by_own_turn {stderr : Bool} {ls : List Label} {s : Runner}
    (h : Lib.run step (launched stderr) ls = some s) : Lib.Warranted Grounds s.log := by
  have hturns := Lib.run_invariant (fun s l s' hI hs => turns_step hI hs) (turns_launched stderr) h
  exact hturns.grounded

def stopMessage : ControlEnvelope :=
  { messageId := "m1", sender := "castle", target := "rat", deliveryGeneration := "g1"
    resumeGeneration := "g2", text := "stop" }

theorem acknowledged_by_own_turn_resumed :
    ∃ s, Lib.run step (launched true) [.stdoutLine [.started (some "s1")], .steer stopMessage,
          .childExits (.ok (some 0)) ⟨[], .eof, []⟩ (.started true),
          .stdoutLine [.started (some "s1"), .assistantText "stopping"],
          .childExits (.ok (some 0)) ⟨[], .eof, []⟩ .notStarted] = some s ∧
      Acked s.log "m1" ∧ Lib.Warranted Grounds s.log := by
  refine ⟨_, rfl, ⟨stopMessage, ?_, rfl⟩, @acknowledged_by_own_turn true
    [.stdoutLine [.started (some "s1")], .steer stopMessage,
      .childExits (.ok (some 0)) ⟨[], .eof, []⟩ (.started true),
      .stdoutLine [.started (some "s1"), .assistantText "stopping"],
      .childExits (.ok (some 0)) ⟨[], .eof, []⟩ .notStarted] _ rfl⟩
  refine mem_iff_getElem?.mpr ⟨6, rfl⟩

end RatKingdom.Harness
