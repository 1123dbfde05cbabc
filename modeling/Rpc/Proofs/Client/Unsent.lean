import Rpc.Client.Call
import Rpc.Proofs.Client.Calls
import Rpc.Proofs.Client.Ended

/-!
# Calls that end without a handle

- `Pool.unsent_of_step`: what becomes of a send that fails or is given up, and of its connection;
- `Traced`: the ids on connections are those of sends that began on them, with ids used at will;
- `CallStage.Fits`: a pool has the dial or the send that a call goes by, whatever others do (`CallRun.fits_of_reaches`);
- `CallRun.Turn`: what a move of a call can be;
- `CallRun.unsent_leaves_nothing`: a call that ends without a handle leaves nothing behind;
- `CallRun.client_send`: sending by a client is such a call.
-/

namespace Rpc

namespace Connection

/-- After it was given back, a connection is open if it was, and idle if it is open. -/
def Freed (c d : Connection) : Prop := d.closed = c.closed ∧ (d.closed = false → d.busy = false)

/-- After it was closed, a connection is nobody's. -/
def Shut (d : Connection) : Prop := d.closed = true ∧ d.busy = false

theorem freed_release (c : Connection) : c.Freed c.release := by
  refine ⟨closed_release c, fun hopen => ?_⟩
  rw [closed_release] at hopen
  simp [release, hopen]

end Connection

/-! ## What others leave alone -/

namespace Pool

variable {p q : Pool} {t : PoolStep} {a : PoolAnswer}

/-- Dials and sends go on only by steps that are about them. -/
structure Untouched (p q : Pool) (t : PoolStep) : Prop where
  dials : ∀ n, t.dial? ≠ some n → p.dials.contains n = true → q.dials.contains n = true
  sends : ∀ k x, t.send? ≠ some k → p.sends.get? k = some x → q.sends.get? k = some x

theorem untouched_same (hd : q.dials = p.dials) (hs : q.sends = p.sends) : Untouched p q t :=
  ⟨fun _ _ hn => hd ▸ hn, fun _ _ _ hx => hs ▸ hx⟩

/-- A step that is about one dial touches no other. -/
theorem untouched_of_dial {m : Nat} (ht : t.dial? = some m) (hd : q.dials = p.dials.erase m)
    (hs : q.sends = p.sends) : Untouched p q t := by
  refine ⟨fun n hne hn => ?_, fun _ _ _ hx => hs ▸ hx⟩
  have hmn : m ≠ n := fun heq => hne (heq ▸ ht)
  rw [hd, Table.contains, Table.get?_erase, if_neg hmn]
  exact hn

/-- A step that is about one send touches no other. -/
theorem untouched_of_send {j : Nat} (ht : t.send? = some j) (hd : q.dials = p.dials)
    (hs : ∀ k, j ≠ k → q.sends.get? k = p.sends.get? k) : Untouched p q t := by
  refine ⟨fun _ _ hn => hd ▸ hn, fun k x hne hx => ?_⟩
  rw [hs k fun heq => hne (heq ▸ ht)]
  exact hx

theorem untouched_of_step (hm : p.Manned) (h : p.step? t = some (q, a)) : Untouched p q t := by
  cases t with
  | acquire x =>
    obtain rfl : (p.acquire x).1 = q := congrArg Prod.fst (Option.some.inj h)
    unfold acquire
    split
    · exact untouched_same rfl rfl
    · dsimp only
      split
      · exact untouched_same rfl rfl
      · refine ⟨fun n _ hn => ?_, fun _ _ _ hx => hx⟩
        rw [Table.contains, Table.get?_set]
        split
        · rfl
        · exact hn
  | dialed m now =>
    obtain ⟨-, hq⟩ := silently_eq_some h
    cases hq
    unfold dialed
    split
    · exact untouched_same rfl rfl
    · exact untouched_of_dial rfl rfl rfl
  | dialFailed m =>
    obtain ⟨-, hq⟩ := silently_eq_some h
    cases hq
    exact untouched_of_dial rfl rfl rfl
  | startSend m id =>
    simp only [step?] at h
    split at h <;> cases h
    refine ⟨fun n _ hn => hn, fun k x _ hx => ?_⟩
    show (p.sends.set p.nextSend ⟨m, id, .queued⟩).get? k = some x
    rw [Table.get?_set, if_neg (Nat.ne_of_gt (hm.below k x hx))]
    exact hx
  | beginWrite j =>
    simp only [step?] at h
    split at h
    next y hy =>
      obtain ⟨-, hq⟩ := silently_eq_some h
      cases hq
      unfold beginWrite
      rw [hy]
      exact untouched_of_send rfl rfl fun k hk => (Table.get?_set ..).trans (if_neg hk)
    next => cases h
  | endSend j result now =>
    simp only [step?] at h
    repeat' split at h
    all_goals cases h
    next hq =>
      have hdials := (p.dials_endSend j result now).1
      have hsends := p.sends_endSend j result now
      rw [hq] at hdials hsends
      refine untouched_of_send rfl hdials fun k hk => ?_
      rcases hsends with hsame | herased
      · rw [hsame]
      · rw [herased, Table.get?_erase, if_neg hk]
  | abandonSend j =>
    obtain ⟨-, hq⟩ := silently_eq_some h
    cases hq
    unfold abandonSend
    split
    · exact untouched_same rfl rfl
    · exact untouched_of_send rfl rfl fun k hk => (Table.get?_erase ..).trans (if_neg hk)
  | handOver m =>
    obtain ⟨-, hq⟩ := silently_eq_some h
    cases hq
    unfold handOver
    repeat' split
    all_goals exact untouched_same rfl rfl
  | checkConnection k now w m =>
    obtain ⟨-, hq⟩ := silently_eq_some h
    cases hq
    unfold checkConnection
    repeat' split
    all_goals exact untouched_same rfl rfl
  | poll k | expire k after =>
    simp only [step?] at h
    split at h <;> cases h
    exact untouched_same rfl rfl
  | receive | endReading | release | close | prune | shutdown | clear | drop =>
    obtain ⟨-, hq⟩ := silently_eq_some h
    cases hq
    exact untouched_same rfl rfl

theorem acquire_refused {x : SocketAddress} (h : (p.acquire x).2 = .refused) : (p.acquire x).1 = p := by
  unfold acquire at h ⊢
  split
  · rfl
  next hopen =>
    rw [if_neg hopen] at h
    dsimp only at h
    split at h <;> cases h

/-! ## Sends that fail or are given up -/

/-- The connection of a send that is forgotten after the connection was changed. -/
theorem exists_forgotten {x : Send} {c : Connection} (hc : p.connections.get? x.connection = some c)
    (f : Connection → Connection) (k : Nat) :
    ∃ d, ((p.update x.connection f).forget k x).connections.get? x.connection = some d ∧
      d.closed = (f c).closed ∧ d.busy = (f c).busy ∧ x.requestId ∉ d.writing := by
  have hd := get_update (get_update hc f) fun c =>
    let c := c.stopWriting x.requestId
    if x.phase = .started then { c with writerTaken := false } else c
  refine ⟨_, hd, ?_⟩
  dsimp only
  split <;> exact ⟨rfl, rfl, by simp [Connection.stopWriting]⟩

theorem sends_forget_self (p : Pool) (k : Nat) (x : Send) : (p.forget k x).sends.get? k = none := by
  show (p.sends.erase k).get? k = none
  rw [Table.get?_erase, if_pos rfl]

/-- What becomes of a send, and of its connection by how much of the request may have been written: nothing if the send
had not got the writer or the request cannot be encoded. -/
structure Unsent (p q : Pool) (t : PoolStep) (k : Nat) (x : Send) (c : Connection) : Prop where
  gone : q.sends.get? k = none
  connection : ∃ d, q.connections.get? x.connection = some d ∧ x.requestId ∉ d.writing ∧
    (x.phase = .queued ∨ (∃ e now, t = .endSend k (.unencodable e) now) → c.Freed d) ∧
    (x.phase = .started → (∀ e now, t ≠ .endSend k (.unencodable e) now) → d.Shut)

variable {k : Nat} {x : Send} {c : Connection}

theorem unsent_of_freed (hc : p.connections.get? x.connection = some c) {f : Connection → Connection}
    (hf : c.Freed (f c)) (ht : x.phase = .queued ∨ ∃ e now, t = .endSend k (.unencodable e) now) :
    Unsent p ((p.update x.connection f).forget k x) t k x c := by
  obtain ⟨d, hd, hclosed, hbusy, hwriting⟩ := exists_forgotten hc f k
  refine ⟨sends_forget_self _ k x, d, hd, hwriting, fun _ => ⟨hclosed.trans hf.1, fun hopen => ?_⟩, fun hx hne => ?_⟩
  · rw [hbusy]
    exact hf.2 (hclosed ▸ hopen)
  · rcases ht with hqueued | ⟨e, now, ht⟩
    · exact absurd (hqueued.symm.trans hx) nofun
    · exact absurd ht (hne e now)

theorem unsent_of_shut (hc : p.connections.get? x.connection = some c) {f : Connection → Connection}
    (hf : (f c).Shut) (hx : x.phase = .started) (ht : ∀ e now, t ≠ .endSend k (.unencodable e) now) :
    Unsent p ((p.update x.connection f).forget k x) t k x c := by
  obtain ⟨d, hd, hclosed, hbusy, hwriting⟩ := exists_forgotten hc f k
  refine ⟨sends_forget_self _ k x, d, hd, hwriting, fun hnot => ?_, fun _ _ => ⟨hclosed.trans hf.1, hbusy.trans hf.2⟩⟩
  rcases hnot with hqueued | ⟨e, now, hte⟩
  · exact absurd (hqueued.symm.trans hx) nofun
  · exact absurd hte (ht e now)

/-- A send that is stopped closes its connection if it had the writer, and else gives it back. -/
theorem unsent_of_stopped (hc : p.connections.get? x.connection = some c) {f : Connection → Connection}
    (hf : ∀ d, (f d).closed = d.closed) (ht : ∀ e now, t ≠ .endSend k (.unencodable e) now) :
    Unsent p ((p.update x.connection fun d => if x.phase = .started then (f d).close else (f d).release).forget k x)
      t k x c := by
  cases hphase : x.phase with
  | queued =>
    have hfreed := Connection.freed_release (f c)
    exact unsent_of_freed hc ⟨hfreed.1.trans (hf c), hfreed.2⟩ (.inl hphase)
  | started => exact unsent_of_shut hc ⟨rfl, rfl⟩ hphase ht

/-- **A send that fails or is given up** is over. Its connection is given back if nothing of the request can have been
written, and else it is closed. -/
theorem unsent_of_step (h : p.step? t = some (q, a)) (hx : p.sends.get? k = some x)
    (hc : p.connections.get? x.connection = some c) (hfails : t.fails k = true) : Unsent p q t k x c := by
  cases t with
  | endSend j result now =>
    cases result with
    | written => cases hfails
    | unencodable e =>
      obtain rfl : j = k := of_decide_eq_true hfails
      simp only [step?, hx, endSend, update_update] at h
      split at h <;> cases h
      exact unsent_of_freed hc (Connection.freed_release (c.touch now)) (.inr ⟨e, now, rfl⟩)
    | failed reason =>
      obtain rfl : j = k := of_decide_eq_true hfails
      simp only [step?, hx, endSend, update_update] at h
      split at h <;> cases h
      next hcan => exact unsent_of_shut hc ⟨rfl, rfl⟩ (of_decide_eq_true hcan) (by rintro _ _ ⟨⟩)
    | timedOut after =>
      obtain rfl : j = k := of_decide_eq_true hfails
      simp only [step?, hx, endSend, update_update] at h
      split at h <;> cases h
      exact unsent_of_stopped hc (f := (·.touch now)) (fun _ => rfl) (by rintro _ _ ⟨⟩)
  | abandonSend j =>
    obtain rfl : j = k := of_decide_eq_true hfails
    obtain ⟨-, hq⟩ := silently_eq_some h
    cases hq
    unfold abandonSend
    rw [hx]
    exact unsent_of_stopped hc (f := fun d => d) (fun _ => rfl) (by rintro _ _ ⟨⟩)
  | _ => cases hfails

end Pool

/-! ## Where ids come from -/

variable {run : Run} {v w : View}

/-- Steps of callers before they have handles. -/
def PoolStep.isCalls : PoolStep → Bool
  | .acquire _ | .dialed .. | .dialFailed _ | .startSend .. | .beginWrite _ | .endSend .. | .abandonSend _ => true
  | _ => false

theorem PoolStep.isCalls_of_reads? {t : PoolStep} {h : Nat} (ht : t.reads? = some h) : t.isCalls = false := by
  cases t <;> first | rfl | cases ht

/-- Unless a request is written, callers leave alone what waits and what is outstanding. -/
theorem Effect.calls {t : PoolStep} {a : PoolAnswer} (he : Effect v t a w) (ht : t.isCalls = true)
    (hw : ∀ k now, t ≠ .endSend k .written now) : w.pending = v.pending ∧ w.outstanding = v.outstanding := by
  cases he with
  | written => exact absurd rfl (hw _ _)
  | quiet | dialed | started | failed => exact ⟨rfl, rfl⟩
  | took | handed | discarded | finished | expired | dropped | cleared => cases ht
  | read hs => rw [PoolStep.isCalls_of_reads? hs] at ht; cases ht

theorem Effect.nextSend_le {t : PoolStep} {a : PoolAnswer} (he : Effect v t a w) : v.nextSend ≤ w.nextSend := by
  cases he with
  | started => exact Nat.le_succ _
  | _ => exact Nat.le_refl _

/-- The ids on a connection are those of sends that began on it: sends on their way for what is being written, and sends
that are over for what is outstanding. -/
structure Traced (run : Run) (v : View) : Prop where
  below : ∀ k x, v.sends k = some x → k < v.nextSend
  underway : Underway v
  written : ∀ h k, Written run h k → v.sends k = none ∧ k < v.nextSend
  owed : ∀ n id, id ∈ v.outstanding n → ∃ k h, Started run k n id ∧ Written run h k

theorem traced_start : Traced [] Pool.empty.view where
  below _ _ h := nomatch h
  underway _ _ h := nomatch h
  written _ _ h := nomatch h
  owed _ _ h := nomatch h

theorem Traced.step {t : PoolStep} {a : PoolAnswer} (ht : Traced run v) (hl : Leads Pool.empty.view run v)
    (he : Effect v t a w) : Traced (run ++ [(t, a)]) w := by
  have hnew : v.sends v.nextSend = none := Option.eq_none_iff_forall_ne_some.mpr fun x hx =>
    Nat.lt_irrefl _ (ht.below _ x hx)
  have hold {n : Nat} {id : UInt32} (hid : id ∈ v.outstanding n) :
      ∃ k h, Started (run ++ [(t, a)]) k n id ∧ Written (run ++ [(t, a)]) h k := by
    obtain ⟨k, h, hs, now, hw⟩ := ht.owed n id hid
    exact ⟨k, h, hs.mono _, now, List.mem_append_left _ hw⟩
  -- A send that was over is still over.
  have hover {k : Nat} (hk : v.sends k = none ∧ k < v.nextSend) : w.sends k = none ∧ k < w.nextSend := by
    refine ⟨Option.eq_none_iff_forall_ne_some.mpr fun x hx => ?_, Nat.lt_of_lt_of_le hk.2 he.nextSend_le⟩
    rcases he.sends_some hx with hx | ⟨-, -, rfl⟩
    · rw [hk.1] at hx
      cases hx
    · exact Nat.lt_irrefl _ hk.2
  refine ⟨fun k x hx => ?_, ht.underway.step hnew he, fun h k hw => ?_, fun n id hid => ?_⟩
  · rcases he.sends_some hx with hx | ⟨rfl, rfl, rfl⟩
    · exact Nat.lt_of_lt_of_le (ht.below k x hx) he.nextSend_le
    · rw [he.of_startSend.2]
      exact Nat.lt_succ_self _
  · rcases written_snoc.mp hw with hw | ⟨now, heq⟩
    · exact hover (ht.written h k hw)
    · cases heq
      obtain ⟨n, id, hx, -, rfl⟩ := he.of_written
      exact ⟨Function.update_self .., ht.below k _ hx⟩
  · rcases he.plain_or with hp | ⟨k, m, j, now, rfl, rfl, hx, rfl⟩ | ⟨m, j, r, -, -, -, -, rfl⟩
    · exact hold (hp.outstanding ▸ hid)
    · simp only [View.register, Function.update_apply] at hid
      split at hid
      next hnm =>
        rcases List.mem_insert_iff.mp hid with rfl | hid
        · exact ⟨k, _, hnm ▸ (hl.going hx).mono _, now, List.mem_append_right _ (List.mem_singleton_self _)⟩
        · exact hold (hnm ▸ hid)
      next => exact hold hid
    · simp only [View.handOn, Function.update_apply] at hid
      split at hid
      next hnm => exact hold (hnm ▸ (List.mem_filter.mp hid).1)
      next => exact hold hid

theorem traced_of_leads (hl : Leads Pool.empty.view run v) : Traced run v := by
  induction hl with
  | refl => exact traced_start
  | snoc hl he ih => exact ih.step hl he

/-! ## One call -/

/-- A pool has the dial or the send that a call goes by. -/
def CallStage.Fits (p : Pool) : CallStage → Prop
  | .dialing _ _ n => p.dials.contains n = true
  | .queued id n s => p.sends.get? s = some ⟨n, id, .queued⟩
  | .writing id n s => p.sends.get? s = some ⟨n, id, .started⟩
  | _ => True

theorem CallStage.Fits.send {p : Pool} {stage : CallStage} (hf : stage.Fits p) {k : Nat} (hk : stage.send? = some k) :
    ∃ x, p.sends.get? k = some x := by
  cases stage with
  | queued | writing =>
    cases hk
    exact ⟨_, hf⟩
  | _ => cases hk

namespace CallRun

variable {c d : CallRun} {m : CallMove} {steps : Run}

/-- Every move takes one step of the pool or none. -/
theorem pool_of_step (h : c.step? m = some (d, steps)) : Pool.Reaches c.pool steps d.pool := by
  unfold step? at h
  split at h
  · cases h
  · cases h
    exact .refl _
  · obtain ⟨⟨q, a⟩, hstep, heq⟩ := Option.map_eq_some_iff.mp h
    cases heq
    exact .next hstep (.refl _)

theorem pool_of_reaches {run : Run} (h : c.Reaches run d) : Pool.Reaches c.pool run d.pool := by
  induction h with
  | refl => exact .refl _
  | next _ hstep ih => exact Pool.reaches_append ih (pool_of_step hstep)

/-- What others do leaves alone what the call goes by. -/
theorem fits_other {p q : Pool} {stage : CallStage} {t : PoolStep} {a : PoolAnswer} (hp : p.Manned)
    (hf : stage.Fits p) (h : p.step? t = some (q, a)) (howns : stage.owns t = false) : stage.Fits q := by
  have huntouched := Pool.untouched_of_step hp h
  cases stage with
  | dialing id x n => exact huntouched.dials n (of_decide_eq_false howns) hf
  | queued id n s | writing id n s => exact huntouched.sends s _ (of_decide_eq_false howns) hf
  | _ => trivial

/-- What a move of a call can be. -/
inductive Turn (c : CallRun) : CallMove → CallRun → Prop
  | elsewhere {t : PoolStep} {q : Pool} {a : PoolAnswer} : c.stage.owns t = false → c.pool.step? t = some (q, a) →
      Turn c (.other t) ⟨q, c.stage⟩
  | found {id : UInt32} {x : SocketAddress} : c.stage = .resolving →
      Turn c (.routes (.ok (id, x))) ⟨c.pool, .routed id x⟩
  | unrouted {m : CallMove} {e : CallEnd} : c.stage = .resolving → (∀ h, e ≠ .handle h) →
      Turn c m ⟨c.pool, .ended e⟩
  | asked {id : UInt32} {x : SocketAddress} {q : Pool} {a : PoolAnswer} : c.stage = .routed id x →
      c.pool.step? (.acquire x) = some (q, a) → Turn c .asks ⟨q, .afterAsking id x a⟩
  | connected {id : UInt32} {x : SocketAddress} {n : Nat} {now : Instant} {q : Pool} {a : PoolAnswer} :
      c.stage = .dialing id x n → c.pool.step? (.dialed n now) = some (q, a) →
      Turn c (.dials .connected now) ⟨q, .inHand id n⟩
  | unconnected {m : CallMove} {id : UInt32} {x : SocketAddress} {n : Nat} {e : CallEnd} {q : Pool} {a : PoolAnswer} :
      c.stage = .dialing id x n → c.pool.step? (.dialFailed n) = some (q, a) → (∀ h, e ≠ .handle h) →
      Turn c m ⟨q, .ended e⟩
  | queued {id : UInt32} {n : Nat} {q : Pool} {a : PoolAnswer} : c.stage = .inHand id n →
      c.pool.step? (.startSend n id) = some (q, a) → Turn c .startsSend ⟨q, .afterStarting id n a⟩
  | writing {id : UInt32} {n s : Nat} {q : Pool} {a : PoolAnswer} : c.stage = .queued id n s →
      c.pool.step? (.beginWrite s) = some (q, a) → Turn c .beginsWrite ⟨q, .writing id n s⟩
  | sent {s : Nat} {result : Pool.WriteResult} {now : Instant} {q : Pool} {a : PoolAnswer} :
      c.stage.send? = some s → c.pool.step? (.endSend s result now) = some (q, a) →
      Turn c (.endsWrite result now) ⟨q, .afterSending a⟩
  | abandoned {s : Nat} {q : Pool} {a : PoolAnswer} : c.stage.send? = some s →
      c.pool.step? (.abandonSend s) = some (q, a) → Turn c .giveUp ⟨q, .ended .givenUp⟩

theorem turn_of_step (h : c.step? m = some (d, steps)) : c.Turn m d := by
  obtain ⟨p, stage⟩ := c
  unfold step? at h
  split at h
  · cases h
  next next hmove =>
    cases h
    unfold CallStage.move? at hmove
    dsimp only at hmove
    split at hmove <;> try cases hmove
    · exact .unrouted rfl nofun
    · exact .found rfl
    · exact .unrouted rfl nofun
    · split at hmove <;> cases hmove
  next t next hmove =>
    obtain ⟨⟨q, a⟩, hstep, heq⟩ := Option.map_eq_some_iff.mp h
    cases heq
    unfold CallStage.move? at hmove
    dsimp only at hmove
    split at hmove <;> try cases hmove
    · exact .asked rfl hstep
    · exact .connected rfl hstep
    iterate 3 exact .unconnected rfl hstep nofun
    · exact .queued rfl hstep
    · exact .writing rfl hstep
    iterate 2 exact .sent rfl hstep
    iterate 2 exact .abandoned rfl hstep
    · split at hmove
      · cases hmove
      next howns =>
        cases hmove
        exact .elsewhere (Bool.eq_false_iff.mpr howns) hstep

/-- A pool goes on having what a call goes by. -/
theorem Turn.fits (ht : c.Turn m d) (hp : c.pool.Manned) (hf : c.stage.Fits c.pool) : d.stage.Fits d.pool := by
  cases ht with
  | elsewhere howns hstep => exact fits_other hp hf hstep howns
  | @asked id x q a _ hstep =>
    obtain rfl : (c.pool.acquire x).1 = q := congrArg Prod.fst (Option.some.inj hstep)
    obtain rfl : .acquired (c.pool.acquire x).2 = a := congrArg Prod.snd (Option.some.inj hstep)
    dsimp only
    cases hx : (c.pool.acquire x).2 with
    | dialing n => exact Pool.contains_of_dialing (Prod.ext rfl hx)
    | refused | idle n => trivial
  | queued _ hstep =>
    simp only [Pool.step?] at hstep
    split at hstep <;> cases hstep
    exact (Table.get?_set ..).trans (if_pos rfl)
  | @writing id n s q a hstage hstep =>
    have hx : c.pool.sends.get? s = some ⟨n, id, .queued⟩ := by
      rw [hstage] at hf
      exact hf
    simp only [Pool.step?, hx] at hstep
    obtain ⟨-, hq⟩ := Pool.silently_eq_some hstep
    cases hq
    simp only [Pool.beginWrite, hx]
    exact (Table.get?_set ..).trans (if_pos rfl)
  | @sent s result now q a hsend hstep =>
    dsimp only
    unfold CallStage.afterSending
    split <;> trivial
  | found | unrouted | connected | unconnected | abandoned => trivial

theorem fits_of_reaches {run : Run} (hp : c.pool.Manned) (hf : c.stage.Fits c.pool) (h : c.Reaches run d) :
    d.stage.Fits d.pool := by
  induction h with
  | refl => exact hf
  | next hreaches hstep ih => exact (turn_of_step hstep).fits (Pool.manned_of_reaches hp (pool_of_reaches hreaches)) ih

/-- Who waits can give up. -/
theorem can_give_up (hf : c.stage.Fits c.pool) (hwaits : c.stage.waits = true) :
    ∃ d steps, c.step? .giveUp = some (d, steps) ∧ d.stage = .ended .givenUp := by
  obtain ⟨p, stage⟩ := c
  cases stage with
  | resolving => exact ⟨_, _, rfl, rfl⟩
  | dialing id x n =>
    have hstep : p.step? (.dialFailed n) = some (p.dialFailed n, .nothing) := if_pos hf
    exact ⟨_, _, congrArg (Option.map _) hstep, rfl⟩
  | queued id n k | writing id n k =>
    have hthere : p.sends.contains k = true := Option.isSome_iff_exists.mpr ⟨_, hf⟩
    have hstep : p.step? (.abandonSend k) = some (p.abandonSend k, .nothing) := if_pos hthere
    exact ⟨_, _, congrArg (Option.map _) hstep, rfl⟩
  | _ => cases hwaits

/-- A request that is written gives its caller a handle. -/
theorem ne_written {p q : Pool} {s : Nat} {result : Pool.WriteResult} {now : Instant} {a : PoolAnswer}
    (hp : p.Numbered) (h : p.step? (.endSend s result now) = some (q, a))
    (hno : ∀ h, CallStage.afterSending a ≠ .ended (.handle h)) : result ≠ .written := by
  rintro rfl
  obtain ⟨-, -, -, rfl, -⟩ := (Pool.effect_of_step hp h).of_written
  exact hno _ rfl

/-- Unless a call gets a handle, its moves leave alone what waits and what is outstanding. -/
theorem Turn.calls (ht : c.Turn m d) (hp : c.pool.Numbered) (hown : ∀ t, m ≠ .other t)
    (hno : ∀ h, d.stage ≠ .ended (.handle h)) :
    d.pool.pending = c.pool.pending ∧ d.pool.view.outstanding = c.pool.view.outstanding := by
  cases ht with
  | elsewhere => exact absurd rfl (hown _)
  | found | unrouted => exact ⟨rfl, rfl⟩
  | asked _ hstep | connected _ hstep | unconnected _ hstep | queued _ hstep | writing _ hstep | abandoned _ hstep =>
    exact (Pool.effect_of_step hp hstep).calls rfl nofun
  | sent _ hstep =>
    refine (Pool.effect_of_step hp hstep).calls rfl fun s now hwritten => ?_
    cases hwritten
    exact ne_written hp hstep hno rfl

/-- A move that ends a send without a handle is a failure of it or gives it up. -/
theorem Turn.fails (ht : c.Turn m d) (hp : c.pool.Numbered) (hown : ∀ t, m ≠ .other t) {k : Nat}
    (hk : c.stage.send? = some k) {e : CallEnd} (he : d.stage = .ended e) (hno : ∀ h, e ≠ .handle h) :
    ∃ t a, c.pool.step? t = some (d.pool, a) ∧ t.fails k = true ∧
      ∀ e now, t = .endSend k (.unencodable e) now ↔ m = .endsWrite (.unencodable e) now := by
  cases ht with
  | elsewhere => exact absurd rfl (hown _)
  | found hstage | unrouted hstage | asked hstage | connected hstage | unconnected hstage | queued hstage =>
    rw [hstage] at hk
    cases hk
  | writing => cases he
  | @sent s result now q a hs hstep =>
    obtain rfl : s = k := Option.some.inj (hs.symm.trans hk)
    have hresult : result ≠ .written := ne_written hp hstep fun h heq => by
      rw [show CallStage.afterSending a = .ended e from he] at heq
      exact hno h (CallStage.ended.inj heq)
    have hfails : (PoolStep.endSend s result now).fails s = true := by
      cases result <;> first | exact absurd rfl hresult | exact decide_eq_true rfl
    refine ⟨_, a, hstep, hfails, fun e now => ⟨fun heq => ?_, fun heq => ?_⟩⟩
    · cases heq
      rfl
    · cases heq
      rfl
  | @abandoned s q a hs hstep =>
    obtain rfl : s = k := Option.some.inj (hs.symm.trans hk)
    exact ⟨_, a, hstep, decide_eq_true rfl, fun e now => ⟨nofun, nofun⟩⟩

/-- What becomes of a send that such a move ends, and of its connection. -/
theorem Turn.unsent (ht : c.Turn m d) (hp : c.pool.Numbered) (hown : ∀ t, m ≠ .other t) {k : Nat}
    (hk : c.stage.send? = some k) {e : CallEnd} (he : d.stage = .ended e) (hno : ∀ h, e ≠ .handle h) {x : Send}
    (hx : c.pool.sends.get? k = some x) :
    d.pool.sends.get? k = none ∧ ∃ u v, c.pool.connections.get? x.connection = some u ∧
      d.pool.connections.get? x.connection = some v ∧ x.requestId ∉ v.writing ∧
      (x.phase = .queued ∨ (∃ e now, m = .endsWrite (.unencodable e) now) → u.Freed v) ∧
      (x.phase = .started → (∀ e now, m ≠ .endsWrite (.unencodable e) now) → v.Shut) := by
  obtain ⟨u, hu⟩ := Pool.get_of_reader (hp.sends k _ _ (congrArg (Option.map _) hx))
  obtain ⟨t, a, hstep, hfails, hunencodable⟩ := ht.fails hp hown hk he hno
  obtain ⟨hgone, v, hv, hwriting, hfreed, hshut⟩ := Pool.unsent_of_step hstep hx hu hfails
  simp only [hunencodable, ne_eq] at hfreed hshut
  exact ⟨hgone, u, v, hu, hv, hwriting, hfreed, hshut⟩

/-- A call that ends before its request is being sent leaves connections and sends alone, and dials nothing. -/
theorem Turn.early (ht : c.Turn m d) (hown : ∀ t, m ≠ .other t) (hk : c.stage.send? = none) {x : CallEnd}
    (hx : d.stage = .ended x) : d.pool.connections = c.pool.connections ∧ d.pool.sends = c.pool.sends ∧
      ∀ id a n, c.stage = .dialing id a n → d.pool.dials.contains n = false := by
  cases ht with
  | elsewhere => exact absurd rfl (hown _)
  | unrouted hstage => exact ⟨rfl, rfl, fun _ _ _ hdialing => nomatch hstage.symm.trans hdialing⟩
  | @asked id y q a hstage hstep =>
    obtain rfl : (c.pool.acquire y).1 = q := congrArg Prod.fst (Option.some.inj hstep)
    obtain rfl : .acquired (c.pool.acquire y).2 = a := congrArg Prod.snd (Option.some.inj hstep)
    cases hy : (c.pool.acquire y).2 with
    | refused =>
      dsimp only
      rw [Pool.acquire_refused hy]
      exact ⟨rfl, rfl, fun _ _ _ hdialing => nomatch hstage.symm.trans hdialing⟩
    | idle | dialing =>
      rw [hy] at hx
      cases hx
  | unconnected hstage hstep =>
    obtain ⟨-, hq⟩ := Pool.silently_eq_some hstep
    cases hq
    refine ⟨rfl, rfl, fun id a n hdialing => ?_⟩
    cases hstage.symm.trans hdialing
    show Table.contains (Table.erase _ _) _ = false
    rw [Table.contains, Table.get?_erase, if_pos rfl]
    rfl
  | queued hstage hstep =>
    simp only [Pool.step?] at hstep
    split at hstep <;> cases hstep
    cases hx
  | sent hs | abandoned hs =>
    rw [hs] at hk
    cases hk
  | found | connected | writing => cases hx

/-- A call has ended by a move, after a run, and has left nothing behind. What connections keep of ids is of other
sends: what is being written of sends that are on their way, and what is outstanding of sends that were written. -/
structure LeavesNothing (run : Run) (c : CallRun) (m : CallMove) (d : CallRun) : Prop where
  pending : d.pool.pending = c.pool.pending
  dials : ∀ id x n, c.stage = .dialing id x n → d.pool.dials.contains n = false
  sends : ∀ k, c.stage.send? = some k → d.pool.sends.get? k = none
  writing : ∀ n id, id ∈ d.pool.view.writing n →
    ∃ k, d.pool.view.sends k = some (n, id) ∧ c.stage.send? ≠ some k
  outstanding : ∀ n id, id ∈ d.pool.view.outstanding n →
    ∃ k h, Started run k n id ∧ Written run h k ∧ c.stage.send? ≠ some k
  unsent : c.stage.send? = none → d.pool.connections = c.pool.connections ∧ d.pool.sends = c.pool.sends
  /-- Nothing was written. -/
  queued : ∀ id n k, c.stage = .queued id n k →
    ∃ x y, c.pool.connections.get? n = some x ∧ d.pool.connections.get? n = some y ∧ id ∉ y.writing ∧ x.Freed y
  /-- Some of the request may have been written, unless it cannot be encoded. -/
  started : ∀ id n k, c.stage = .writing id n k →
    ∃ x y, c.pool.connections.get? n = some x ∧ d.pool.connections.get? n = some y ∧ id ∉ y.writing ∧
      ((∃ e now, m = .endsWrite (.unencodable e) now) → x.Freed y) ∧
      ((∀ e now, m ≠ .endsWrite (.unencodable e) now) → y.Shut)

/-- **A call that ends without a handle leaves nothing behind**, whatever others do meanwhile: its caller can give it up
wherever it waits, and unless it gets a handle it leaves alone what waits for responses with each of its moves. -/
theorem unsent_leaves_nothing {past run : Run} {p : Pool} (hp : Pool.Reaches .empty past p)
    (hc : (start p).Reaches run c) :
    (c.stage.waits = true → ∃ d steps, c.step? .giveUp = some (d, steps) ∧ d.stage = .ended .givenUp) ∧
    (∀ m d steps, c.step? m = some (d, steps) → (∀ t, m ≠ .other t) → (∀ h, d.stage ≠ .ended (.handle h)) →
      d.pool.pending = c.pool.pending) ∧
    ∀ m d steps e, c.step? m = some (d, steps) → (∀ t, m ≠ .other t) → d.stage = .ended e →
      (∀ h, e ≠ .handle h) → LeavesNothing (past ++ run) c m d := by
  have hreach : Pool.Reaches .empty (past ++ run) c.pool := Pool.reaches_append hp (pool_of_reaches hc)
  obtain ⟨hl, hn⟩ := Pool.leads_of_reaches Pool.numbered_empty hreach
  have hf : c.stage.Fits c.pool :=
    fits_of_reaches (Pool.manned_of_reaches Pool.manned_empty hp) (show (start p).stage.Fits p from trivial) hc
  refine ⟨fun hwaits => can_give_up hf hwaits, fun m d steps h hown hno => ((turn_of_step h).calls hn hown hno).1,
    fun m d steps e h hown he hno => ?_⟩
  have ht := turn_of_step h
  have htraced := traced_of_leads hl
  have htraced' := traced_of_leads
    (Pool.leads_of_reaches Pool.numbered_empty (Pool.reaches_append hreach (pool_of_step h))).1
  obtain ⟨hpending, hout⟩ := ht.calls hn hown fun k hk => hno k (CallStage.ended.inj (he.symm.trans hk))
  have hgone (k : Nat) (hk : c.stage.send? = some k) : d.pool.sends.get? k = none := by
    obtain ⟨x, hx⟩ := hf.send hk
    exact (ht.unsent hn hown hk he hno hx).1
  refine ⟨hpending, fun id x n hstage => ?_, hgone, fun n id hid => ?_, fun n id hid => ?_, fun hk => ?_,
    fun id n k hstage => ?_, fun id n k hstage => ?_⟩
  · exact (ht.early hown (by rw [hstage]; rfl) he).2.2 id x n hstage
  · obtain ⟨k, hk⟩ := htraced'.underway n id hid
    refine ⟨k, hk, fun hself => ?_⟩
    simp [Pool.view, hgone k hself] at hk
  · rw [hout] at hid
    obtain ⟨k, h, hstarted, hwritten⟩ := htraced.owed n id hid
    refine ⟨k, h, hstarted, hwritten, fun hself => ?_⟩
    obtain ⟨x, hx⟩ := hf.send hself
    have hover := (htraced.written h k hwritten).1
    simp [Pool.view, hx] at hover
  · exact ⟨(ht.early hown hk he).1, (ht.early hown hk he).2.1⟩
  · rw [hstage] at hf
    obtain ⟨-, u, v, hu, hv, hwriting, hfreed, -⟩ := ht.unsent hn hown (by rw [hstage]; rfl) he hno hf
    exact ⟨u, v, hu, hv, hwriting, hfreed (.inl rfl)⟩
  · rw [hstage] at hf
    obtain ⟨-, u, v, hu, hv, hwriting, hfreed, hshut⟩ := ht.unsent hn hown (by rw [hstage]; rfl) he hno hf
    exact ⟨u, v, hu, hv, hwriting, fun hm => hfreed (.inr hm), hshut rfl⟩

/-- Request 7 has got the writer of a new connection. -/
def writingSeven : Run :=
  [(.acquire (.v4 0 80), .acquired (.dialing 0)), (.dialed 0 0, .nothing), (.startSend 0 7, .sending 0),
    (.beginWrite 0, .nothing)]

/-- Its caller gives it up, and the connection is closed. -/
theorem unsent_leaves_nothing_seven : ∃ c d steps, (start .empty).Reaches writingSeven c ∧
    c.step? .giveUp = some (d, steps) ∧ LeavesNothing writingSeven c .giveUp d ∧
    ∃ x, d.pool.connections.get? 0 = some x ∧ x.Shut := by
  have hwriting : ∃ c, (start .empty).Reaches writingSeven c ∧ c.stage = .writing 7 0 0 := by
    have hfound := (Reaches.refl (c := start .empty)).next (m := .routes (.ok (7, .v4 0 80))) rfl
    have hdialing := hfound.next (m := .asks) rfl
    have hinHand := hdialing.next (m := .dials .connected 0) rfl
    have hqueued := hinHand.next (m := .startsSend) rfl
    exact ⟨_, hqueued.next (m := .beginsWrite) rfl, rfl⟩
  obtain ⟨c, hc, hstage⟩ := hwriting
  obtain ⟨hgiveUp, -, hends⟩ := unsent_leaves_nothing (.refl _) hc
  obtain ⟨d, steps, hstep, hended⟩ := hgiveUp (by rw [hstage]; rfl)
  have hleft := hends .giveUp d steps _ hstep nofun hended nofun
  obtain ⟨-, x, -, hx, -, -, hshut⟩ := hleft.started 7 0 0 hstage
  exact ⟨c, d, steps, hc, hstep, hleft, x, hx, hshut nofun⟩

/-! ## Calls of a client -/

/-- A call with an id and an address gets a connection, or ends. -/
theorem reaches_connect {run : Run} {p : Pool} {id : UInt32} {x : SocketAddress} (h : c.Reaches run ⟨p, .routed id x⟩)
    (dial : SocketAddress → Pool.DialResult) (now : Instant) : ∃ run, c.Reaches run ⟨(p.connect x dial now).1,
      match (p.connect x dial now).2 with
      | .ok n => .inHand id n
      | .error e => .ended (.failed e)⟩ := by
  have hasks : (⟨p, .routed id x⟩ : CallRun).step? .asks = some (⟨(p.acquire x).1,
      .afterAsking id x (.acquired (p.acquire x).2)⟩, [(.acquire x, .acquired (p.acquire x).2)]) := rfl
  unfold Pool.connect
  cases hacquire : p.acquire x with
  | mk q y =>
    rw [hacquire] at hasks
    cases y with
    | refused | idle => exact ⟨_, h.next hasks⟩
    | dialing n =>
      have hdial := Pool.contains_of_dialing hacquire
      have hdialed : q.step? (.dialed n now) = some (q.dialed n now, .nothing) := if_pos hdial
      have hfailed : q.step? (.dialFailed n) = some (q.dialFailed n, .nothing) := if_pos hdial
      dsimp only
      cases hresult : dial x with
      | connected => exact ⟨_, (h.next hasks).next (m := .dials .connected now) (congrArg (Option.map _) hdialed)⟩
      | failed reason =>
        exact ⟨_, (h.next hasks).next (m := .dials (.failed reason) now) (congrArg (Option.map _) hfailed)⟩
      | timedOut => exact ⟨_, (h.next hasks).next (m := .dials .timedOut now) (congrArg (Option.map _) hfailed)⟩

/-- **Sending by a client is such a call**: it fails where the call ends, and else the call waits for the writer. -/
theorem client_send (client : Client) (r : Request) (o : CallOptions) (dial : SocketAddress → Pool.DialResult)
    (now : Instant) :
    ∃ run stage, (start client.pool).Reaches run ⟨(client.send r o dial now).1.pool, stage⟩ ∧
      match (client.send r o dial now).2 with
      | .error e => stage = .ended (.failed e)
      | .ok out => ∃ id n, stage = .queued id n out.send := by
  have hroute := Callers.pool_route client r.service o
  unfold Client.send
  cases hr : client.route r.service o with
  | mk routed y =>
    rw [hr] at hroute
    dsimp only at hroute
    rw [← hroute]
    cases y with
    | error e => exact ⟨_, _, Reaches.refl.next (m := .routes (.error e)) rfl, rfl⟩
    | ok z =>
      obtain ⟨id, x⟩ := z
      have hfound : (start routed.pool).Reaches _ ⟨routed.pool, .routed id x⟩ :=
        Reaches.refl.next (m := .routes (.ok (id, x))) rfl
      obtain ⟨run, hrun⟩ := reaches_connect hfound dial now
      dsimp only
      cases hconn : routed.pool.connect x dial now with
      | mk q res =>
        rw [hconn] at hrun
        cases res with
        | error e => exact ⟨run, _, hrun, rfl⟩
        | ok n =>
          have hthere := Pool.contains_connect (congrArg Prod.snd hconn)
          rw [hconn] at hthere
          have hstart : q.step? (.startSend n id) = some ((q.startSend n id).1, .sending (q.startSend n id).2) :=
            if_pos hthere
          exact ⟨_, _, hrun.next (m := .startsSend) (congrArg (Option.map _) hstart), id, n, rfl⟩

end CallRun

end Rpc
