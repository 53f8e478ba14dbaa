/-
Recoveries over whole runs: submissions, claims, processing, the operator's retries, the
resuming pass, and an interruption of each after any of its writes.

An entry that ends with a marker settles its receipt before its row goes, so a receipt
whose entry was queued has a row or a newer marker.  The one ending without a marker is
the quarantine, and `one_recovery_per_hold` is about the runs in which no entry under a
receipt meets it.
-/
import RatKingdom.Landing.Recovery
import RatKingdom.Landing.Retry

namespace RatKingdom.Landing

open Lib Core List Function Option

section
variable {mint : Nat → RecordId} {repo : String} {c c' : Client} {d : Daemon}

theorem Traced.client (h : Traced mint repo c d) (hh : InHand repo c' d) : Traced mint repo c' d :=
  ⟨h.lineage, h.granted, hh⟩

theorem InHand.subset (h : InHand repo c d) (hsub : ∀ x ∈ c'.held, x ∈ c.held) : InHand repo c' d :=
  ⟨fun x hx => h.logged x (hsub x hx), fun x hx => h.settled x (hsub x hx)⟩

theorem InHand.claim (h : InHand repo c d) {es : List LandingQueueEntry}
    (hes : ∀ e ∈ es, Logged e d) : InHand repo (c.claim es) d := by
  have hheld : ∀ x ∈ (c.claim es).held, x ∈ c.held ∨ ∃ e ∈ es, ({ entry := e } : Held) = x :=
    fun x hx => (mem_append.mp hx).imp id mem_map.mp
  constructor
  · intro x hx
    rcases hheld x hx with hx | ⟨e, he, rfl⟩
    · exact h.logged x hx
    · exact hes e he
  · intro x hx hset
    rcases hheld x hx with hx | ⟨e, -, rfl⟩
    · exact h.settled x hx hset
    · cases hset

theorem InHand.update (h : InHand repo c d) {k : Nat} {y : Held} (hlog : Logged y.entry d)
    (hset : y.settled = true → Accounted repo y.entry d) : InHand repo (c.update k y) d := by
  constructor
  · intro x hx
    rcases mem_or_eq_of_mem_set hx with hx | rfl
    · exact h.logged x hx
    · exact hlog
  · intro x hx
    rcases mem_or_eq_of_mem_set hx with hx | rfl
    · exact h.settled x hx
    · exact hset

theorem Accounted.kin {e e' : LandingQueueEntry} (h : Accounted repo e d) (hk : Kin e e') :
    Accounted repo e' d := by
  intro hr r hrec hid
  exact h (hk.repoName ▸ hr) r hrec (hk.recovery ▸ hid)

theorem Granted.restart (h : Granted mint repo d) : Granted mint repo d.restart :=
  ⟨h.markerIds, h.markerMinted, h.marks, h.heldAlone, h.alone, h.ids, h.idMinted, h.holds,
    h.evidence, h.known, h.once⟩

theorem Traced.restart (h : Traced mint repo c d) :
    Traced mint repo { c with held := [] } d.restart := by
  obtain ⟨hl, hg, -⟩ := h
  refine ⟨⟨hl.nodup, hl.minted, hl.logged, hl.alone, hl.bound, ?_, hl.kin, hl.begun⟩, hg.restart,
    ⟨?_, ?_⟩⟩
  · exact nofun
  all_goals exact fun x hx => (not_mem_nil hx).elim

/-- An operation whose triple ends in the client's new knowledge keeps `Traced` wherever
it is interrupted between its writes. -/
theorem exec_traced {α : Type} {s s' : State} {m : Op α} {next : α → Client}
    {i : Option Interruption} (hs : Traced mint repo s.client s.daemon)
    (hm : Triple (Traced mint repo s.client) (fun d => d = s.daemon) m
      (fun a d => Traced mint repo (next a) d))
    (h : s.exec m next false i = some s') : Traced mint repo s'.client s'.daemon :=
  exec_keeps (fun _ hd => hd.restart) hs hm h

theorem enqueueDisposition_traced (hmint : Injective mint) {e : LandingQueueEntry}
    (ha : Alone repo e.repoName) (he : e.admissionRecovery = none) (tip : Option String)
    (contained : Bool) (now : DateTime) :
    Triple (Traced mint repo c) (Traced mint repo c) (enqueueDisposition mint e tip contained now)
      (fun _ d => Traced mint repo c d) := by
  refine .bind (Q := fun _ d => Traced mint repo c d) (.read fun _ h => h) fun s => ?_
  cases s.admissionMarker e tip with
  | error _ => exact .fail
  | ok o =>
    cases o with
    | none =>
      cases contained with
      | true =>
        have hmark : ∀ d, Traced mint repo c d →
            Traced mint repo c (d.addProcessed mint (markerOf e "empty" tip)) :=
          fun d hd => hd.mark hmint (fun id hid => by rw [he] at hid; cases hid) "empty" tip
        exact .bind (.write hmark hmark) fun _ => .pure fun d hd => hd
      | false =>
        refine .bind (Q := fun _ d => Traced mint repo c d) ?_ fun b => ?_
        · exact .bind (scanCurrent_carries (traced_carries hmint) e.repoName none)
            fun _ => .pure fun _ h => h.1
        · cases b with
          | true => exact .pure fun d hd => hd
          | false =>
            exact .bind (enqueue_unrecovered hmint ha he now) fun _ => .pure fun _ h => h
    | some marker =>
      dsimp only
      split
      · exact .fail
      · exact .pure fun d hd => hd

def State.spares (s : State) : Operation → Bool
  | .process k env => s.client.held[k]?.all fun h =>
    h.entry.admissionRecovery.isNone || !s.daemon.quarantines env h.entry
  | .conclude k _ (.quarantine _) => s.client.held[k]?.all fun h => h.entry.admissionRecovery.isNone
  | _ => true

/-- What a run has to meet: no counter file is torn, work arrives only for the repository
itself or for one with a counter of its own, and no entry under a receipt is put in
quarantine. -/
def State.Spares (repo : String) (s : State) (l : ErrandLabel) : Prop :=
  match l.errand with
  | .queue op => (⟨op, l.interrupted, l.torn⟩ : Label).On repo ∧ s.spares op = true
  | .retry .. | .resume .. => l.torn = false

theorem conclude_traced (hmint : Injective mint) {h : Held} (hh : h ∈ c.held)
    (env : EntryEnv) (ending : Ending)
    (hq : ∀ reason, ending = .quarantine reason → h.entry.admissionRecovery = none) :
    Triple (Traced mint repo c) (Traced mint repo c) (conclude mint env h.entry ending)
      (fun _ d => Traced mint repo c d ∧ (ending.settles = true → Accounted repo h.entry d)) :=
  conclude_accounts (traced_accounts hmint hh) env ending fun reason he _ _ _ =>
    accounted_of_none (hq reason he)

theorem process_traced (hmint : Injective mint) {h : Held} (hh : h ∈ c.held)
    (env : EntryEnv) (hd : Traced mint repo c d)
    (hq : h.entry.admissionRecovery = none ∨ d.quarantines env h.entry = false) :
    Triple (Traced mint repo c) (fun t => t = d) (processEntry mint env h.entry)
      (fun _ t => Traced mint repo c t ∧ Accounted repo h.entry t) := by
  apply processEntry_accounts (traced_accounts hmint hh) env hd
  intro hb t _ _
  rcases hq with hn | hq
  · exact accounted_of_none hn
  · rw [hq] at hb
    cases hb

theorem step_traced (hmint : Injective mint) {s s' : State} {l : Label}
    (hl : l.On repo) (hadm : s.admits l.op = true) (hsp : s.spares l.op = true)
    (hs : Traced mint repo s.client s.daemon) (h : s.step mint l = some s') :
    Traced mint repo s'.client s'.daemon := by
  have hstart : ∀ x, x = s.daemon → Traced mint repo s.client x := by
    rintro x rfl
    exact hs
  have hheld : ∀ {k : Nat} {x : Held}, s.client.held[k]? = some x → x ∈ s.client.held :=
    fun hk => mem_of_getElem? hk
  have hJ : Carries mint (Traced mint repo s.client) Logged := traced_carries hmint
  have hrow : ∀ {d : Daemon} {e : LandingQueueEntry}, Traced mint repo s.client d →
      (∃ r ∈ d.rows, r.entry = e) → Logged e d := by
    rintro d _ hd ⟨r, hr, rfl⟩
    exact ⟨r, hd.lineage.logged r hr, .refl _⟩
  obtain ⟨op, i, torn⟩ := l
  obtain ⟨rfl, hl⟩ : torn = false ∧ _ := hl
  cases op with
  | enqueue e now =>
    have he : e.admissionRecovery = none := by simpa [State.admits] using hadm
    refine exec_traced hs ((enqueue_unrecovered hmint hl he now).mono hstart ?_) h
    intro _ d hd
    exact hd.client ⟨hd.inHand.logged, hd.inHand.settled⟩
  | submit e tip contained now =>
    have he : e.admissionRecovery = none := by simpa [State.admits] using hadm
    refine exec_traced hs ((enqueueDisposition_traced hmint hl he tip contained now).mono hstart
      fun o d hd => hd.client ?_) h
    cases o <;> exact ⟨hd.inHand.logged, hd.inHand.settled⟩
  | claimNext r t now =>
    refine exec_traced hs ((claimNext_carries hJ r t now).mono hstart fun o d hd => ?_) h
    exact hd.1.client (hd.1.inHand.claim fun e he => hrow hd.1 (hd.2 e (mem_toList.mp he)))
  | claimBatch r t n now =>
    refine exec_traced hs ((claimBatch_carries hJ r t n now).mono hstart fun es d hd => ?_) h
    exact hd.1.client (hd.1.inHand.claim fun e he => hrow hd.1 (hd.2 e he))
  | setStatus k st now =>
    obtain ⟨x, hk, h⟩ := bind_eq_some_iff.mp h
    have hlog : ∀ d, Traced mint repo s.client d → Logged x.entry d :=
      fun d hd => hd.inHand.logged x (hheld hk)
    exact exec_traced hs ((setStatus_carries hJ hlog st now).mono hstart fun _ _ hd => hd) h
  | persist k patch st now =>
    obtain ⟨x, hk, h⟩ := bind_eq_some_iff.mp h
    have hlog : ∀ d, Traced mint repo s.client d → Logged x.entry d :=
      fun d hd => hd.inHand.logged x (hheld hk)
    refine exec_traced hs
      ((persist_carries hJ hlog ((Kin.refl x.entry).edit (by rfl)) st now).mono hstart
      fun e d hd => hd.1.client (hd.1.inHand.update ((hlog d hd.1).kin hd.2) fun hset => ?_)) h
    exact (hd.1.inHand.settled x (hheld hk) hset).kin hd.2
  | requeueTail k now =>
    obtain ⟨x, hk, h⟩ := bind_eq_some_iff.mp h
    have hn : x.entry.admissionRecovery = none := by simpa [State.admits, hk] using hadm
    have ha : Alone repo x.entry.repoName := (hs.inHand.logged x (hheld hk)).alone hs
    exact exec_traced hs ((enqueue_unrecovered hmint (e := x.entry.retry) ha hn now).mono hstart
      fun _ _ hd => hd) h
  | process k env =>
    obtain ⟨x, hk, h⟩ := bind_eq_some_iff.mp h
    have hq : x.entry.admissionRecovery = none ∨ s.daemon.quarantines env x.entry = false := by
      simpa [State.spares, hk] using hsp
    refine exec_traced hs ((process_traced hmint (hheld hk) env hs hq).mono (fun _ hx => hx)
      fun o d hd => hd.1.client ?_) h
    exact hd.1.inHand.update (hd.1.inHand.logged x (hheld hk)) fun _ => hd.2
  | conclude k env ending =>
    obtain ⟨x, hk, h⟩ := bind_eq_some_iff.mp h
    have hq : ∀ reason, ending = .quarantine reason → x.entry.admissionRecovery = none := by
      rintro reason rfl
      simpa [State.spares, hk] using hsp
    refine exec_traced hs ((conclude_traced hmint (hheld hk) env ending hq).mono hstart ?_) h
    intro o d hd
    cases hb : ending.settles with
    | true =>
      refine hd.1.client (hd.1.inHand.update (hd.1.inHand.logged x (hheld hk)) fun _ => ?_)
      exact hd.2 hb
    | false => exact hd.1
  | remove k =>
    obtain ⟨x, hk, h⟩ := bind_eq_some_iff.mp h
    cases hset : x.settled with
    | false => simp [hset] at h
    | true =>
      rw [hset, if_pos rfl] at h
      refine exec_traced hs ((remove_traced hmint (hheld hk) hset).mono hstart fun _ d hd => ?_) h
      exact hd.client (hd.inHand.subset fun z hz => mem_of_mem_eraseIdx hz)
  | scan r t =>
    exact exec_traced hs ((scanCurrent_carries hJ r t).mono hstart fun _ _ hd => hd.1) h

theorem recover_traced (hmint : Injective mint) {s s' : State} {l : ErrandLabel}
    (hl : s.Spares repo l) (hs : Traced mint repo s.client s.daemon)
    (h : s.recover mint l = some s') : Traced mint repo s'.client s'.daemon := by
  have hstart : ∀ x, x = s.daemon → Traced mint repo s.client x := by
    rintro x rfl
    exact hs
  obtain ⟨errand, i, torn⟩ := l
  cases errand with
  | queue op =>
    simp only [State.recover] at h
    split at h
    next hadm => exact step_traced hmint hl.1 hadm hl.2 hs h
    · cases h
  | retry hold reason env =>
    obtain rfl : torn = false := hl
    exact exec_traced hs ((retryAdmission_traced hmint hold reason env).mono hstart
      fun _ _ hd => hd) h
  | resume refs now =>
    obtain rfl : torn = false := hl
    exact exec_traced hs ((resumeAdmissionRecoveries_traced hmint refs now).mono hstart
      fun _ _ hd => hd) h

theorem traced_fresh : Traced mint repo {} {} := by
  refine ⟨?_, ?_, ?_⟩ <;> constructor <;> simp

theorem Traced.oneRecovery (h : Traced mint repo c d) : OneRecovery repo d := by
  have hqueued : ∀ r ∈ d.receipts, r.entry.repoName = repo → d.recoveries r.id ≤ 1 := by
    intro r hr hrr
    rcases h.granted.once r hr hrr with h0 | ⟨h1, -⟩ <;> omega
  refine ⟨fun hold => ?_, hqueued, ?_⟩
  · have hcount : d.receipts.countP (fun r => r.hold = hold) =
        (d.receipts.map Receipt.hold).count hold := by
      rw [List.count, countP_map]
      congr 1
    rw [hcount]
    exact nodup_iff_count_le_one.mp h.granted.holds hold
  · intro r hr hrr m hm hid
    have h1 := h.granted.marks m hm r.id hid
    have h2 := hqueued r hr hrr
    omega

def expiredAdmission : EntryEnv :=
  let expired : CheckValue :=
    { verdict := "infra", executed := some false, reason := some "admission-timeout" }
  { verified "infra" "infra" with
    gates := ⟨0, 10, ⟨0, none⟩, fun _ => false, fun _ => ⟨⟨0, none⟩, ⟨0, none⟩, 0, 0, .ok expired⟩,
      fun _ => answered "infra"⟩ }

def refsStand : RecoveryEnv :=
  { now := 5, samePath := true, refs := .ok (), refsAgain := .ok (), budget := .ok 10
    opened := ⟨5, none⟩ }

/-- A candidate whose check was never admitted; the operator's retry of it, cut right after
the receipt; the pass after the restart, and the recovery's claim. -/
def heldThenRetried : List ErrandLabel :=
  [ { errand := .queue (.submit candidate (some "b0") false 1) },
    { errand := .queue (.claimNext "rk" "main" 2) },
    { errand := .queue (.process 0 expiredAdmission) },
    { errand := .queue (.remove 0) },
    { errand := .retry 6 "the runner was down" refsStand, interrupted := some (.crash 1) },
    { errand := .resume (fun _ => .ok ()) 6 },
    { errand := .queue (.claimNext "rk" "main" 7) } ]

def recoveredOnce : List ErrandLabel :=
  heldThenRetried ++
  [ { errand := .queue (.process 0 (verified "pass" "pass")) }, { errand := .queue (.remove 0) },
    { errand := .retry 6 "once more" refsStand },
    { errand := .resume (fun _ => .ok ()) 8 } ]

instance (repo : String) (l : Label) : Decidable (l.On repo) :=
  match l with
  | ⟨.enqueue e _, _, _⟩ => inferInstanceAs (Decidable (_ ∧ (_ ∨ _)))
  | ⟨.submit e _ _ _, _, _⟩ => inferInstanceAs (Decidable (_ ∧ (_ ∨ _)))
  | ⟨.claimNext .., _, _⟩ | ⟨.claimBatch .., _, _⟩ | ⟨.setStatus .., _, _⟩
  | ⟨.persist .., _, _⟩ | ⟨.requeueTail .., _, _⟩ | ⟨.process .., _, _⟩
  | ⟨.conclude .., _, _⟩ | ⟨.remove .., _, _⟩ | ⟨.scan .., _, _⟩ =>
    inferInstanceAs (Decidable (_ ∧ True))

instance (repo : String) (s : State) (l : ErrandLabel) : Decidable (s.Spares repo l) :=
  match l with
  | ⟨.queue op, i, torn⟩ => inferInstanceAs (Decidable (_ ∧ _))
  | ⟨.retry .., _, _⟩ | ⟨.resume .., _, _⟩ => inferInstanceAs (Decidable (_ = _))

/-- The target branch is gone when the recovery is processed and is back, at the same
commit, when the next pass looks. -/
def quarantinedRecovery : List ErrandLabel :=
  heldThenRetried ++
  [ { errand := .queue (.process 0 { verified "pass" "pass" with targetMissing := true }) },
    { errand := .queue (.remove 0) },
    { errand := .resume (fun _ => .ok ()) 8 } ]

end

end RatKingdom.Landing
