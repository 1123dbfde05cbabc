import Rpc.Proofs.Client.Effect

/-!
# Who writes

A connection has one writer. It is taken only by a send that is being written there (`Pool.Manned`); every step of a
pool keeps this (`Pool.Manned.step`), so it is so on every run (`Pool.manned_of_reaches`).
-/

namespace Rpc

namespace Pool

variable {p q : Pool}

/-- The writer of a connection is taken only by a send that is being written there. -/
structure Manned (p : Pool) : Prop where
  below : ∀ k x, p.sends.get? k = some x → k < p.nextSend
  writer : ∀ n c, p.connections.get? n = some c → c.writerTaken = true →
    ∃ k x, p.sends.get? k = some x ∧ x.connection = n ∧ x.phase = .started

theorem manned_empty : empty.Manned := ⟨fun _ _ h => (nomatch h), fun _ _ h => nomatch h⟩

/-- A connection whose writer is taken was such a connection before. -/
def KeepsWriters (p q : Pool) : Prop :=
  ∀ n c, q.connections.get? n = some c → c.writerTaken = true →
    ∃ d, p.connections.get? n = some d ∧ d.writerTaken = true

theorem Manned.keep (h : p.Manned) (hs : q.sends = p.sends) (hn : q.nextSend = p.nextSend)
    (hw : KeepsWriters p q) : q.Manned := by
  refine ⟨fun k x hx => ?_, fun n c hc ht => ?_⟩
  · rw [hn]
    exact h.below k x (hs ▸ hx)
  · obtain ⟨d, hd, htaken⟩ := hw n c hc ht
    rw [hs]
    exact h.writer n d hd htaken

theorem keepsWriters_update {f : Connection → Connection} (hf : ∀ c, (f c).writerTaken = c.writerTaken) (p : Pool)
    (n : Nat) : KeepsWriters p (p.update n f) := by
  intro m c hc ht
  rw [connections_update] at hc
  split at hc
  · obtain ⟨d, hd, rfl⟩ := Option.map_eq_some_iff.mp hc
    exact ⟨d, hd, by rw [← hf d]; exact ht⟩
  · exact ⟨c, hc, ht⟩

theorem Manned.update (h : p.Manned) (n : Nat) (f : Connection → Connection)
    (hf : ∀ c, (f c).writerTaken = c.writerTaken) : (p.update n f).Manned :=
  h.keep rfl rfl (keepsWriters_update hf p n)

theorem writerTaken_release (c : Connection) : c.release.writerTaken = c.writerTaken := by
  unfold Connection.release
  split <;> rfl

/-! ## Sends -/

/-- A send that ends gives back the writer if it had it. -/
theorem Manned.forget (h : p.Manned) {k : Nat} {x : Send} (hx : p.sends.get? k = some x) : (p.forget k x).Manned := by
  have hget : ∀ j, (p.forget k x).sends.get? j = if k = j then none else p.sends.get? j :=
    fun j => Table.get?_erase p.sends k j
  refine ⟨fun j y hy => ?_, fun n c hc ht => ?_⟩
  · rw [hget] at hy
    split at hy
    · cases hy
    · exact h.below j y hy
  · have hother : ∀ d, p.connections.get? n = some d → d.writerTaken = true →
        (x.connection = n → x.phase ≠ .started) →
        ∃ j y, (p.forget k x).sends.get? j = some y ∧ y.connection = n ∧ y.phase = .started := by
      intro d hd htaken hne
      obtain ⟨j, y, hy, hconn, hph⟩ := h.writer n d hd htaken
      have hkj : k ≠ j := by
        rintro rfl
        cases hx.symm.trans hy
        exact hne hconn hph
      exact ⟨j, y, by rw [hget, if_neg hkj]; exact hy, hconn, hph⟩
    have hconn := connections_update p x.connection n fun c =>
      let c := c.stopWriting x.requestId
      if x.phase = .started then { c with writerTaken := false } else c
    replace hc := hconn.symm.trans hc
    split at hc
    · obtain ⟨d, hd, rfl⟩ := Option.map_eq_some_iff.mp hc
      by_cases hph : x.phase = .started
      · simp [hph] at ht
      · refine hother d hd ?_ fun _ => hph
        simpa [hph, Connection.stopWriting] using ht
    · rename_i hne
      exact hother c hc ht fun h => absurd h hne

theorem Manned.startSend (h : p.Manned) (n : Nat) (id : UInt32) : (p.startSend n id).1.Manned := by
  have hget : ∀ j, (p.startSend n id).1.sends.get? j =
      if p.nextSend = j then some ⟨n, id, .queued⟩ else p.sends.get? j :=
    fun j => Table.get?_set p.sends p.nextSend j _
  refine ⟨fun j y hy => ?_, fun m c hc ht => ?_⟩
  · rw [hget] at hy
    show j < p.nextSend + 1
    split at hy
    · omega
    · exact Nat.lt_succ_of_lt (h.below j y hy)
  · obtain ⟨d, hd, htaken⟩ := keepsWriters_update (f := (·.startWriting id)) (fun _ => rfl) p n m c hc ht
    obtain ⟨k, x, hx, hrest⟩ := h.writer m d hd htaken
    refine ⟨k, x, ?_, hrest⟩
    rw [hget, if_neg (Nat.ne_of_gt (h.below k x hx))]
    exact hx

theorem Manned.beginWrite (h : p.Manned) {k : Nat} {x : Send} (hx : p.sends.get? k = some x) :
    (p.beginWrite k).Manned := by
  have heq : p.beginWrite k =
      { p.update x.connection (fun c => { c with writerTaken := true }) with
        sends := p.sends.set k { x with phase := .started } } := by
    unfold Pool.beginWrite
    rw [hx]
  have hget : ∀ j, (p.beginWrite k).sends.get? j =
      if k = j then some { x with phase := .started } else p.sends.get? j := by
    rw [heq]
    exact fun j => Table.get?_set p.sends k j _
  refine ⟨fun j y hy => ?_, fun n c hc ht => ?_⟩
  · rw [hget] at hy
    rw [heq]
    split at hy
    · rename_i hkj
      exact h.below j x (hkj ▸ hx)
    · exact h.below j y hy
  · by_cases hn : x.connection = n
    · exact ⟨k, { x with phase := .started }, by rw [hget, if_pos rfl], hn, rfl⟩
    · rw [heq] at hc
      have hconn := connections_update p x.connection n fun c => { c with writerTaken := true }
      rw [if_neg hn] at hconn
      obtain ⟨j, y, hy, hyn, hph⟩ := h.writer n c (hconn.symm.trans hc) ht
      have hkj : k ≠ j := by
        rintro rfl
        cases hx.symm.trans hy
        exact hn hyn
      exact ⟨j, y, by rw [hget, if_neg hkj]; exact hy, hyn, hph⟩

theorem Manned.endSend (h : p.Manned) {k : Nat} {x : Send} (hx : p.sends.get? k = some x) (result : WriteResult)
    (now : Instant) : (p.endSend k result now).1.Manned := by
  have htouch : (p.update x.connection (·.touch now)).Manned := h.update _ _ fun _ => rfl
  unfold Pool.endSend
  rw [hx]
  cases result with
  | written =>
    have hexpect : Manned { (p.update x.connection (·.touch now)).update x.connection (·.expect x.requestId) with
        pending := (p.pending.insert x.requestId x.connection).1 } := by
      have hupdate := htouch.update x.connection (·.expect x.requestId) fun _ => rfl
      exact ⟨hupdate.below, hupdate.writer⟩
    exact hexpect.forget hx
  | unencodable => exact (htouch.update _ _ writerTaken_release).forget hx
  | failed => exact (htouch.update x.connection (·.close) fun _ => rfl).forget hx
  | timedOut after =>
    refine (htouch.update _ _ fun c => ?_).forget hx
    split
    · rfl
    · exact writerTaken_release c

theorem Manned.abandonSend (h : p.Manned) (k : Nat) : (p.abandonSend k).Manned := by
  unfold Pool.abandonSend
  split
  · exact h
  · rename_i x hk
    refine Manned.forget (h.update _ _ fun c => ?_) hk
    split
    · rfl
    · exact writerTaken_release c

/-! ## Connections -/

theorem Manned.acquire (h : p.Manned) (a : SocketAddress) : (p.acquire a).1.Manned := by
  unfold Pool.acquire
  split
  · exact h
  · dsimp only
    split
    · have hmembers : Manned { p with members := p.members.set a (p.openMembers a) } := ⟨h.below, h.writer⟩
      exact hmembers.update _ (fun c => { c with busy := true }) fun _ => rfl
    · exact ⟨h.below, h.writer⟩

/-- Nobody writes to a new connection. -/
theorem Manned.dialed (h : p.Manned) (n : Nat) (now : Instant) : (p.dialed n now).Manned := by
  unfold Pool.dialed
  split
  · exact h
  · refine h.keep rfl rfl fun m c hc ht => ?_
    simp only [Table.get?_set] at hc
    split at hc
    · cases hc
      cases ht
    · exact ⟨c, hc, ht⟩

theorem Manned.receive (h : p.Manned) (n : Nat) (i : Inbound) (now : Instant) : (p.receive n i now).Manned := by
  refine h.update _ _ fun c => ?_
  unfold Connection.receive
  split <;> rfl

theorem writerTaken_answered (c : Connection) (id : UInt32) : (c.answered id).writerTaken = c.writerTaken := by
  unfold Connection.answered
  dsimp only
  split
  · exact writerTaken_release _
  · rfl

theorem Manned.handOver (h : p.Manned) (n : Nat) : (p.handOver n).Manned := by
  have hread : (p.update n fun c => { c with reader := .reading }).Manned := h.update _ _ fun _ => rfl
  unfold Pool.handOver
  split
  · split
    · rename_i id _ _
      split
      · have hanswered := hread.update n (·.answered id) fun c => writerTaken_answered c id
        exact ⟨hanswered.below, hanswered.writer⟩
      · exact hread
    · exact h
  · exact h

theorem Manned.endReading (h : p.Manned) (n : Nat) : (p.endReading n).Manned := by
  have hend : (p.update n fun c => { c.close with reader := .finished }).Manned := h.update _ _ fun _ => rfl
  exact ⟨hend.below, hend.writer⟩

theorem Manned.shutdown (h : p.Manned) : p.shutdown.Manned := by
  refine h.keep rfl rfl fun n c hc ht => ?_
  simp only [Pool.shutdown, Table.get?_map] at hc
  obtain ⟨d, hd, rfl⟩ := Option.map_eq_some_iff.mp hc
  exact ⟨d, hd, ht⟩

theorem Manned.checkConnection (h : p.Manned) (reclaimAfter : Nat) (now : Instant) (written : Bool) (n : Nat) :
    (p.checkConnection reclaimAfter now written n).Manned := by
  have hprobe : Manned { p with nextProbe := p.nextProbe + 1 } := ⟨h.below, h.writer⟩
  unfold Pool.checkConnection
  repeat' split
  · exact h
  · exact h
  · exact hprobe
  · exact hprobe.update _ _ fun _ => rfl
  · exact h
  · exact h.update _ _ writerTaken_release
  · exact h.update _ _ fun _ => rfl

/-! ## Steps -/

theorem Manned.silently {b : Bool} {a : PoolAnswer} (h : p.Manned) (hs : Pool.silently b p = some (q, a)) :
    q.Manned := by
  obtain ⟨-, hx⟩ := silently_eq_some hs
  cases hx
  exact h

/-- **Writers are taken only by sends that are being written, after every step.** -/
theorem Manned.step (h : p.Manned) {s : PoolStep} {a : PoolAnswer} (hs : p.step? s = some (q, a)) : q.Manned := by
  cases s with
  | acquire x =>
    have hq : (p.acquire x).1 = q := congrArg Prod.fst (Option.some.inj hs)
    exact hq ▸ h.acquire x
  | dialed n now => exact (h.dialed n now).silently hs
  | startSend n id =>
    simp only [step?] at hs
    split at hs <;> cases hs
    exact h.startSend n id
  | beginWrite k =>
    simp only [step?] at hs
    split at hs
    · rename_i x hk
      exact (h.beginWrite hk).silently hs
    · cases hs
  | endSend k result now =>
    simp only [step?] at hs
    split at hs
    · cases hs
    · rename_i x hk
      split at hs
      · have hend := h.endSend hk result now
        split at hs
        · rename_i q' y hq
          cases hs
          rw [hq] at hend
          exact hend
        · cases hs
      · cases hs
  | abandonSend k => exact (h.abandonSend k).silently hs
  | receive n i now => exact (h.receive n i now).silently hs
  | handOver n => exact (h.handOver n).silently hs
  | endReading n => exact (h.endReading n).silently hs
  | release n => exact (h.update n _ writerTaken_release).silently hs
  | close n => exact (h.update n (·.close) fun _ => rfl).silently hs
  | checkConnection reclaimAfter now written n => exact (h.checkConnection reclaimAfter now written n).silently hs
  | shutdown => exact h.shutdown.silently hs
  | poll k | expire k after =>
    simp only [step?] at hs
    split at hs <;> cases hs
    exact ⟨h.below, h.writer⟩
  | dialFailed | prune | clear | drop =>
    -- neither sends nor connections change
    obtain ⟨-, hx⟩ := silently_eq_some hs
    cases hx
    exact ⟨h.below, h.writer⟩

theorem manned_of_reaches {run : List (PoolStep × PoolAnswer)} (h : p.Manned) (hr : Reaches p run q) : q.Manned := by
  induction hr with
  | refl => exact h
  | next hs _ ih => exact ih (h.step hs)

end Pool

end Rpc
