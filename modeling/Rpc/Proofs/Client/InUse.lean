import Rpc.Client.Callers
import Rpc.Proofs.Client.History
import Rpc.Proofs.Client.Writers

/-!
# Connections in use

A connection that is open is checked out exactly while somebody is at work on it, and one at most is (`Pool.Balanced`).
Everything that callers, readers and peers do keeps the balance (`Callers.balanced_step`), but one: a look at a
connection gives it back if it is quiet, has no request waiting and owes nothing, and does not ask whether a request is
being written on it (`Callers.GivesBack`).

- `Pool.checkConnection_cases`: what a look at a connection can do;
- `Pool.Balanced.ends`, `Pool.Balanced.answered`: the two ends of a use;
- `Callers.balanced_of_reaches`: balance on every run;
- `Callers.in_use_unless_given_back`: the main statement;
- `Callers.written_on_and_idle`: a connection that is given back while it is written on.
-/

namespace Rpc

namespace Connection

/-- What is given back is idle, unless it is closed. -/
theorem release_open {c : Connection} (h : c.release.closed = false) :
    c.closed = false ∧ c.release.busy = false ∧ c.release.outstanding = c.outstanding := by
  unfold release at h ⊢
  split at h
  · next hclosed =>
    rw [hclosed] at h
    cases h
  · next hopen =>
    rw [if_neg hopen]
    exact ⟨h, rfl, rfl⟩

/-- A change that a send leaves behind on its connection: if nothing is owed from before and the connection is still
open, it is checked out exactly if a response is owed now. -/
def Settles (f : Connection → Connection) : Prop :=
  ∀ c, (f c).closed = false →
    c.closed = false ∧ (c.outstanding = [] → c.busy = true → (f c).inFlight = (f c).busy.toNat)

theorem settles_close : Settles close := fun _ hopen => nomatch hopen

theorem settles_release : Settles release := by
  intro c hopen
  obtain ⟨hbefore, hidle, howed⟩ := release_open hopen
  refine ⟨hbefore, fun hnone _ => ?_⟩
  rw [hidle, inFlight, howed, hnone]
  rfl

theorem settles_close_or_release (b : Prop) [Decidable b] : Settles fun c => if b then c.close else c.release := by
  split
  · exact settles_close
  · exact settles_release

theorem settles_expect (id : UInt32) : Settles (·.expect id) := by
  intro c hopen
  refine ⟨hopen, fun hnone hbusy => ?_⟩
  unfold inFlight expect
  dsimp only
  rw [hnone, hbusy]
  rfl

theorem Settles.touch {f : Connection → Connection} (hf : Settles f) (now : Instant) :
    Settles fun c => f (c.touch now) := fun c hopen => hf (c.touch now) hopen

theorem closed_release (c : Connection) : c.release.closed = c.closed := by
  unfold release
  split <;> rfl

theorem closed_answered (c : Connection) (id : UInt32) : (c.answered id).closed = c.closed := by
  unfold answered
  dsimp only
  split
  · exact closed_release _
  · rfl

/-- With the answer to its one request an open connection is idle. -/
theorem answered_last {c : Connection} {id : UInt32} (hopen : c.closed = false) (hone : c.outstanding = [id]) :
    (c.answered id).inFlight = 0 ∧ (c.answered id).busy = false := by
  simp [answered, hone, release, hopen, inFlight]

end Connection

namespace Pool

variable {p q : Pool} {n m held : Nat}

/-! ## Balance -/

/-- An open connection that is checked out has one user, and an idle one has none; `held` users have it in hand. -/
def Balanced (p : Pool) (n held : Nat) : Prop :=
  ∀ c, p.connections.get? n = some c → c.closed = false → held + p.sending n + c.inFlight = c.busy.toNat

/-- A change of one connection that closes it, or is nothing to its users. -/
theorem Balanced.update (h : p.Balanced n held) (m : Nat) {f : Connection → Connection}
    (hf : ∀ c, (f c).closed = false → c.closed = false ∧ (f c).busy = c.busy ∧ (f c).inFlight = c.inFlight) :
    (p.update m f).Balanced n held := by
  intro c hc hopen
  rw [connections_update] at hc
  split at hc
  · obtain ⟨d, hd, rfl⟩ := Option.map_eq_some_iff.mp hc
    obtain ⟨hbefore, hbusy, hflight⟩ := hf d hopen
    rw [hbusy, hflight]
    exact h d hd hbefore
  · exact h c hc hopen

theorem Balanced.close (h : p.Balanced n held) (m : Nat) : (p.update m (·.close)).Balanced n held :=
  h.update m fun _ hopen => nomatch hopen

/-- Sends that stay and connections that stay have the users that they had. -/
theorem Balanced.keep (h : p.Balanced n held) (hc : q.connections = p.connections) (hs : q.sends = p.sends) :
    q.Balanced n held := by
  unfold Balanced sending at *
  rw [hc, hs]
  exact h

/-! ## Sends -/

theorem sending_of_get {k : Nat} {x : Send} (hx : p.sends.get? k = some x) : 0 < p.sending x.connection := by
  have hle := Table.total_erase hx fun y => if y.connection = x.connection then 1 else 0
  unfold sending
  simp only [if_true] at hle
  omega

theorem Manned.next_free (h : p.Manned) : p.sends.get? p.nextSend = none := by
  cases hx : p.sends.get? p.nextSend with
  | none => rfl
  | some x => exact absurd (h.below _ x hx) (Nat.lt_irrefl _)

theorem exists_send (hd : p.sends.keys.Nodup) (hpos : 0 < p.sending n) :
    ∃ k x, p.sends.get? k = some x ∧ x.connection = n := by
  obtain ⟨k, x, hmem, hx⟩ := Table.exists_of_total_pos hpos
  refine ⟨k, x, (Table.mem_entries_iff hd).mp hmem, ?_⟩
  split at hx
  · assumption
  · cases hx

/-- No send is on its way on a connection that is not there. -/
theorem sending_eq_zero (hn : p.Numbered) (hd : p.sends.keys.Nodup) (hnone : p.connections.get? n = none) :
    p.sending n = 0 := by
  apply Nat.eq_zero_of_not_pos
  intro hpos
  obtain ⟨k, x, hx, rfl⟩ := exists_send hd hpos
  apply hn.sends k x.connection x.requestId
  · simp only [view, hx, Option.map_some]
  · simp only [view, hnone, Option.map_none]

/-- What is forgotten with a send is nothing to the flags of its connection and to what that owes. -/
theorem get_forget {k : Nat} {x : Send} {c : Connection} (hc : (p.forget k x).connections.get? n = some c) :
    ∃ d, p.connections.get? n = some d ∧ c.closed = d.closed ∧ c.busy = d.busy ∧ c.inFlight = d.inFlight := by
  have hconn := connections_update p x.connection n fun c =>
    let c := c.stopWriting x.requestId
    if x.phase = .started then { c with writerTaken := false } else c
  replace hc := hconn.symm.trans hc
  split at hc
  · obtain ⟨d, hd, rfl⟩ := Option.map_eq_some_iff.mp hc
    refine ⟨d, hd, ?_⟩
    dsimp only
    split <;> exact ⟨rfl, rfl, rfl⟩
  · exact ⟨c, hc, rfl, rfl, rfl⟩

theorem sending_forget (hd : p.sends.keys.Nodup) {k : Nat} {x : Send} (hx : p.sends.get? k = some x) (n : Nat) :
    (p.forget k x).sending n + (if x.connection = n then 1 else 0) = p.sending n :=
  Table.total_erase_of_nodup hd hx _

/-- **A send ends.** If it was the one user of an open connection, then after it the connection has a user exactly if
it is still checked out. -/
theorem Balanced.ends (h : p.Balanced n held) (hd : p.sends.keys.Nodup) {k : Nat} {x : Send}
    (hx : p.sends.get? k = some x) {f : Connection → Connection} (hf : Connection.Settles f) :
    ((p.update x.connection f).forget k x).Balanced n held := by
  have hsum : ((p.update x.connection f).forget k x).sending n + (if x.connection = n then 1 else 0) = p.sending n :=
    sending_forget (p := p.update x.connection f) hd hx n
  intro c hc hopen
  obtain ⟨d, hget, hclosed, hbusy, hflight⟩ := get_forget hc
  rw [hclosed] at hopen
  rw [hbusy, hflight]
  rw [connections_update] at hget
  split at hget
  · -- The send was on this connection.
    rename_i hconn
    obtain ⟨e, he, rfl⟩ := Option.map_eq_some_iff.mp hget
    obtain ⟨hbefore, hafter⟩ := hf e hopen
    have husers := h e he hbefore
    have hle : e.busy.toNat ≤ 1 := Bool.toNat_le _
    rw [if_pos hconn] at hsum
    have hnone : e.outstanding = [] := List.eq_nil_of_length_eq_zero (by unfold Connection.inFlight at husers; omega)
    have hchecked : e.busy = true := by
      cases hbusy' : e.busy with
      | true => rfl
      | false =>
        rw [hbusy', Bool.toNat_false] at husers
        omega
    rw [hafter hnone hchecked]
    omega
  · rename_i hconn
    rw [if_neg hconn] at hsum
    rw [show ((p.update x.connection f).forget k x).sending n = p.sending n from hsum]
    exact h d hget hopen

theorem Balanced.endSend (h : p.Balanced n held) (hd : p.sends.keys.Nodup) {k : Nat} {x : Send}
    (hx : p.sends.get? k = some x) (result : WriteResult) (now : Instant) :
    (p.endSend k result now).1.Balanced n held := by
  unfold Pool.endSend
  rw [hx]
  cases result with
  | written =>
    dsimp only
    rw [update_update]
    have hends := h.ends hd hx ((Connection.settles_expect x.requestId).touch now)
    exact hends.keep rfl rfl
  | unencodable =>
    dsimp only
    rw [update_update]
    exact h.ends hd hx (Connection.settles_release.touch now)
  | failed =>
    dsimp only
    rw [update_update]
    exact h.ends hd hx (Connection.settles_close.touch now)
  | timedOut after =>
    dsimp only
    rw [update_update]
    exact h.ends hd hx ((Connection.settles_close_or_release _).touch now)

theorem Balanced.abandonSend (h : p.Balanced n held) (hd : p.sends.keys.Nodup) (k : Nat) :
    (p.abandonSend k).Balanced n held := by
  unfold Pool.abandonSend
  split
  · exact h
  · next hx => exact h.ends hd hx (Connection.settles_close_or_release _)

theorem Balanced.beginWrite (h : p.Balanced n held) {k : Nat} {x : Send} (hx : p.sends.get? k = some x) :
    (p.beginWrite k).Balanced n held := by
  have hsum := p.sends.total_set (fun y => if y.connection = n then 1 else 0) k { x with phase := .started }
  have hupdate : (p.update x.connection fun c => { c with writerTaken := true }).Balanced n held :=
    h.update _ fun _ hopen => ⟨hopen, rfl, rfl⟩
  rw [hx, Option.map_some, Option.getD_some] at hsum
  unfold Pool.beginWrite
  rw [hx]
  intro c hc hopen
  rw [← hupdate c hc hopen]
  have hsame : (p.sends.set k { x with phase := .started }).total (fun y => if y.connection = n then 1 else 0) =
      p.sending n := Nat.add_right_cancel hsum
  exact congrArg (held + · + c.inFlight) hsame

/-- Who has a connection in hand begins to send on it. -/
theorem Balanced.startSend (h : p.Balanced n (held + if m = n then 1 else 0)) (hnew : p.sends.get? p.nextSend = none)
    (id : UInt32) : (p.startSend m id).1.Balanced n held := by
  have hsum := p.sends.total_set (fun y => if y.connection = n then 1 else 0) p.nextSend ⟨m, id, .queued⟩
  have hupdate : (p.update m (·.startWriting id)).Balanced n (held + if m = n then 1 else 0) :=
    h.update m fun _ hopen => ⟨hopen, rfl, rfl⟩
  rw [hnew] at hsum
  have hsending : (p.startSend m id).1.sending n = p.sending n + if m = n then 1 else 0 := hsum
  intro c hc hopen
  have husers := hupdate c hc hopen
  change held + _ + p.sending n + _ = _ at husers
  omega

/-! ## Connections -/

theorem isIdle_iff {c : Connection} (hc : p.connections.get? n = some c) :
    p.isIdle n = true ↔ c.closed = false ∧ c.busy = false := by
  unfold isIdle Connection.isIdle
  rw [hc]
  simp

theorem exists_idle (h : p.isIdle n = true) :
    ∃ c, p.connections.get? n = some c ∧ c.closed = false ∧ c.busy = false := by
  cases hc : p.connections.get? n with
  | none =>
    unfold isIdle at h
    rw [hc] at h
    cases h
  | some c => exact ⟨c, rfl, (isIdle_iff hc).mp h⟩

theorem isIdle_of_acquire {a : SocketAddress} (h : (p.acquire a).2 = .idle n) : p.isIdle n = true := by
  unfold Pool.acquire at h
  split at h
  · cases h
  · dsimp only at h
    split at h
    · next hfind =>
      cases h
      exact List.find?_some hfind
    · cases h

/-- Who checks out an idle connection has it in hand. -/
theorem Balanced.acquire (h : p.Balanced n held) (a : SocketAddress) :
    (p.acquire a).1.Balanced n (match (p.acquire a).2 with | .idle m => held + if m = n then 1 else 0 | _ => held) := by
  unfold Pool.acquire
  split
  · exact h
  · dsimp only
    split
    · next m hm =>
      have hidle := List.find?_some hm
      intro c hc hopen
      rw [connections_update] at hc
      dsimp only
      split at hc
      · next hmn =>
        subst hmn
        obtain ⟨d, hd, rfl⟩ := Option.map_eq_some_iff.mp hc
        obtain ⟨hbefore, hbusy⟩ := (isIdle_iff hd).mp hidle
        have husers := h d hd hbefore
        rw [hbusy, Bool.toNat_false] at husers
        rw [if_pos rfl]
        change held + 1 + p.sending m + d.inFlight = 1
        omega
      · next hmn =>
        rw [if_neg hmn]
        exact h c hc hopen
    · exact h.keep rfl rfl

/-- Who has dialed a connection has it in hand, and nobody else is at work on it. -/
theorem Balanced.dialed (hn : p.Numbered) (hd : p.sends.keys.Nodup) (h : p.Balanced n held)
    (hheld : p.connections.get? n = none → held = 0) (hdial : p.dials.contains m = true) (now : Instant) :
    (p.dialed m now).Balanced n (held + if m = n then 1 else 0) := by
  have hnone : p.connections.get? m = none := Option.map_eq_none_iff.mp (hn.dialing m hdial).1
  obtain ⟨a, ha⟩ := Option.isSome_iff_exists.mp hdial
  unfold Pool.dialed
  rw [ha]
  dsimp only
  intro c hc hopen
  rw [Table.get?_set] at hc
  split at hc
  · next hmn =>
    subst hmn
    cases hc
    have hsending := sending_eq_zero hn hd hnone
    rw [if_pos rfl, hheld hnone]
    change 0 + 1 + p.sending m + 0 = 1
    omega
  · next hmn =>
    rw [if_neg hmn]
    exact h c hc hopen

theorem Balanced.receive (h : p.Balanced n held) (m : Nat) (i : Inbound) (now : Instant) :
    (p.receive m i now).Balanced n held := by
  apply h.update
  intro c hopen
  unfold Connection.receive at hopen ⊢
  dsimp only at hopen ⊢
  split at hopen <;> exact ⟨hopen, rfl, rfl⟩

/-- The request that an open connection owes a response to is its one user. -/
theorem Balanced.only_owed (h : p.Balanced n held) {c : Connection} (hc : p.connections.get? n = some c)
    (hopen : c.closed = false) {id : UInt32} (howed : id ∈ c.outstanding) :
    c.outstanding = [id] ∧ held + p.sending n = 0 := by
  have husers := h c hc hopen
  have hle : c.busy.toNat ≤ 1 := Bool.toNat_le _
  have hpos : 0 < c.outstanding.length := List.length_pos_of_mem howed
  unfold Connection.inFlight at husers
  obtain ⟨j, hj⟩ := List.length_eq_one_iff.mp (show c.outstanding.length = 1 by omega)
  rw [hj] at howed ⊢
  exact ⟨by rw [List.mem_singleton.mp howed], by omega⟩

/-- **A response is handed over.** Its request was the one user of the connection, which is idle after it. -/
theorem Balanced.answered (h : p.Balanced n held) {c : Connection} (hc : p.connections.get? m = some c) {id : UInt32}
    (howed : id ∈ c.outstanding) :
    (p.update m fun c => Connection.answered { c with reader := .reading } id).Balanced n held := by
  intro d hd hopen
  rw [connections_update] at hd
  split at hd
  · next hmn =>
    subst hmn
    rw [hc] at hd
    cases hd
    rw [Connection.closed_answered] at hopen
    obtain ⟨hone, hnone⟩ := h.only_owed hc hopen howed
    obtain ⟨hflight, hidle⟩ := Connection.answered_last (c := { c with reader := .reading }) hopen hone
    rw [hflight, hidle]
    exact hnone
  · exact h d hd hopen

theorem Balanced.handOver (h : p.Balanced n held) (m : Nat) : (p.handOver m).Balanced n held := by
  have hread : (p.update m fun c => { c with reader := .reading }).Balanced n held :=
    h.update m fun _ hopen => ⟨hopen, rfl, rfl⟩
  unfold Pool.handOver
  split
  · next c hc =>
    split
    · split
      · next howed =>
        dsimp only
        rw [update_update]
        exact (h.answered hc howed).keep rfl rfl
      · exact hread
    · exact h
  · exact h

theorem Balanced.endReading (h : p.Balanced n held) (m : Nat) : (p.endReading m).Balanced n held := by
  have hend : (p.update m fun c => { c.close with reader := .finished }).Balanced n held :=
    h.update m fun _ hopen => nomatch hopen
  exact hend.keep rfl rfl

theorem Balanced.shutdown (p : Pool) (n held : Nat) : p.shutdown.Balanced n held := by
  intro c hc hopen
  simp only [Pool.shutdown, Table.get?_map] at hc
  obtain ⟨d, -, rfl⟩ := Option.map_eq_some_iff.mp hc
  cases hopen

/-- What a look at a connection can do: nothing, close the connection, or give it back. Only what is checked out and
owes nothing is given back. -/
theorem checkConnection_cases (p : Pool) (reclaimAfter : Nat) (now : Instant) (written : Bool) (m : Nat) :
    ((p.checkConnection reclaimAfter now written m).connections = p.connections ∨
      (p.checkConnection reclaimAfter now written m).connections = (p.update m (·.close)).connections ∨
      (∃ c, p.connections.get? m = some c ∧ c.closed = false ∧ c.busy = true ∧ c.outstanding = [] ∧
        (p.checkConnection reclaimAfter now written m).connections = (p.update m (·.release)).connections)) ∧
      (p.checkConnection reclaimAfter now written m).sends = p.sends := by
  unfold checkConnection
  split
  · exact ⟨.inl rfl, rfl⟩
  · next c hc =>
    split
    · exact ⟨.inl rfl, rfl⟩
    · next hopen =>
      split
      · dsimp only
        split
        · exact ⟨.inl rfl, rfl⟩
        · exact ⟨.inr (.inl rfl), rfl⟩
      · next hbusy =>
        split
        · exact ⟨.inl rfl, rfl⟩
        · split
          · next hnone =>
            refine ⟨.inr (.inr ⟨c, hc, ?_, ?_, List.isEmpty_iff.mp hnone, rfl⟩), rfl⟩
            · exact Bool.eq_false_iff.mpr hopen
            · simpa using hbusy
          · exact ⟨.inr (.inl rfl), rfl⟩

/-- Only what is checked out, open and owes nothing is given back. -/
theorem of_givesBack {reclaimAfter : Nat} {now : Instant} {written : Bool} (hbefore : p.isIdle n = false)
    (hafter : (p.checkConnection reclaimAfter now written n).isIdle n = true) :
    ∃ c, p.connections.get? n = some c ∧ c.closed = false ∧ c.busy = true ∧ c.outstanding = [] := by
  have hidle : ∀ {q r : Pool}, q.connections = r.connections → q.isIdle n = r.isIdle n := by
    intro q r hconn
    unfold isIdle
    rw [hconn]
  obtain ⟨hconn | hconn | ⟨c, hc, hopen, hbusy, hnone, -⟩, -⟩ := p.checkConnection_cases reclaimAfter now written n
  · rw [hidle hconn, hbefore] at hafter
    cases hafter
  · rw [hidle hconn] at hafter
    obtain ⟨c, hc, hopen, -⟩ := exists_idle hafter
    rw [connections_update, if_pos rfl] at hc
    obtain ⟨d, -, rfl⟩ := Option.map_eq_some_iff.mp hc
    cases hopen
  · exact ⟨c, hc, hopen, hbusy, hnone⟩

/-- A look at a connection that gives nothing back is nothing to its users. -/
theorem Balanced.checkConnection (h : p.Balanced n held) (reclaimAfter : Nat) (now : Instant) (written : Bool) (m : Nat)
    (hkeep : ¬ (m = n ∧ p.isIdle n = false ∧ (p.checkConnection reclaimAfter now written m).isIdle n = true)) :
    (p.checkConnection reclaimAfter now written m).Balanced n held := by
  obtain ⟨hconn | hconn | ⟨c, hc, hopen, hbusy, -, hconn⟩, hsends⟩ := p.checkConnection_cases reclaimAfter now written m
  · exact h.keep hconn hsends
  · exact (h.close m).keep hconn hsends
  · by_cases hmn : m = n
    · subst hmn
      refine absurd ⟨rfl, ?_, ?_⟩ hkeep
      · rw [Bool.eq_false_iff]
        intro hidle
        rw [((isIdle_iff hc).mp hidle).2] at hbusy
        cases hbusy
      · have hget : (p.checkConnection reclaimAfter now written m).connections.get? m = some c.release := by
          rw [hconn]
          exact get_update hc _
        rw [isIdle_iff hget]
        simp [Connection.release, hopen]
    · have hrelease : (p.update m (·.release)).Balanced n held := by
        intro d hd hdopen
        rw [connections_update, if_neg hmn] at hd
        exact h d hd hdopen
      exact hrelease.keep hconn hsends

theorem Balanced.silently {b : Bool} {a : PoolAnswer} (h : p.Balanced n held)
    (hs : Pool.silently b p = some (q, a)) : q.Balanced n held := by
  obtain ⟨-, hx⟩ := silently_eq_some hs
  cases hx
  exact h

/-! ## Sends stand once -/

/-- Sends come and go one at a time. -/
theorem sends_endSend (p : Pool) (k : Nat) (result : WriteResult) (now : Instant) :
    (p.endSend k result now).1.sends = p.sends ∨ (p.endSend k result now).1.sends = p.sends.erase k := by
  unfold endSend
  split
  · exact .inl rfl
  · cases result <;> exact .inr rfl

theorem nodup_sends_step (hd : p.sends.keys.Nodup) {s : PoolStep} {a : PoolAnswer} (hs : p.step? s = some (q, a)) :
    q.sends.keys.Nodup := by
  cases s with
  | acquire x =>
    have hq : (p.acquire x).1 = q := congrArg Prod.fst (Option.some.inj hs)
    have hsame : (p.acquire x).1.sends = p.sends := by
      unfold acquire
      split
      · rfl
      · dsimp only
        split <;> rfl
    rw [← hq, hsame]
    exact hd
  | startSend m id =>
    simp only [step?] at hs
    split at hs <;> cases hs
    exact Table.nodup_keys_set hd _ _
  | beginWrite k =>
    simp only [step?] at hs
    split at hs
    · next x hx =>
      obtain ⟨-, hq⟩ := silently_eq_some hs
      cases hq
      unfold beginWrite
      rw [hx]
      exact Table.nodup_keys_set hd _ _
    · cases hs
  | endSend k result now =>
    have hends := p.sends_endSend k result now
    simp only [step?] at hs
    repeat' split at hs
    all_goals cases hs
    next hq =>
      rw [hq] at hends
      rcases hends with hsame | herased
      · exact hsame ▸ hd
      · exact herased ▸ Table.nodup_keys_erase hd k
  | abandonSend k =>
    obtain ⟨-, hq⟩ := silently_eq_some hs
    cases hq
    unfold abandonSend
    split
    · exact hd
    · exact Table.nodup_keys_erase hd k
  | dialed m now =>
    obtain ⟨-, hq⟩ := silently_eq_some hs
    cases hq
    unfold dialed
    split <;> exact hd
  | handOver m =>
    obtain ⟨-, hq⟩ := silently_eq_some hs
    cases hq
    unfold handOver
    repeat' split
    all_goals exact hd
  | checkConnection reclaimAfter now written m =>
    obtain ⟨-, hq⟩ := silently_eq_some hs
    cases hq
    rw [(p.checkConnection_cases reclaimAfter now written m).2]
    exact hd
  | poll k | expire k after =>
    simp only [step?] at hs
    split at hs <;> cases hs
    exact hd
  | dialFailed | receive | endReading | release | close | prune | shutdown | clear | drop =>
    obtain ⟨-, hq⟩ := silently_eq_some hs
    cases hq
    exact hd

end Pool

/-- Ids that are being written are those of sends on their way. -/
def Underway (v : View) : Prop := ∀ n id, id ∈ v.writing n → ∃ k, v.sends k = some (n, id)

theorem Underway.step {v w : View} (hc : Underway v) (hnew : v.sends v.nextSend = none) {s : PoolStep} {a : PoolAnswer}
    (he : Effect v s a w) : Underway w := by
  intro n id hid
  have hends : ∀ {k m j}, v.sends k = some (m, j) →
      id ∈ Function.update v.writing m ((v.writing m).filter (· ≠ j)) n →
      ∃ k', Function.update v.sends k none k' = some (n, id) := by
    intro k m j hx hid
    have hunder : id ∈ v.writing n ∧ (n = m → id ≠ j) := by
      rw [Function.update_apply] at hid
      split at hid
      · next hnm =>
        rw [hnm]
        obtain ⟨hmem, hne⟩ := List.mem_filter.mp hid
        exact ⟨hmem, fun _ => of_decide_eq_true hne⟩
      · next hnm => exact ⟨hid, fun h => absurd h hnm⟩
    obtain ⟨k', hk'⟩ := hc n id hunder.1
    refine ⟨k', ?_⟩
    rw [Function.update_of_ne]
    · exact hk'
    · rintro rfl
      rw [hx] at hk'
      cases hk'
      exact hunder.2 rfl rfl
  cases he with
  | @started m j =>
    dsimp only at hid ⊢
    rw [Function.update_apply] at hid
    have hcases : (n = m ∧ id = j) ∨ id ∈ v.writing n := by
      split at hid
      · next hnm =>
        rw [List.mem_insert_iff] at hid
        rcases hid with hid | hid
        · exact .inl ⟨hnm, hid⟩
        · exact .inr (hnm ▸ hid)
      · exact .inr hid
    rcases hcases with ⟨rfl, rfl⟩ | hold
    · exact ⟨v.nextSend, Function.update_self ..⟩
    · obtain ⟨k, hk⟩ := hc n id hold
      refine ⟨k, ?_⟩
      rw [Function.update_of_ne]
      · exact hk
      · rintro rfl
        rw [hnew] at hk
        cases hk
  | written hx => exact hends hx hid
  | failed _ hx => exact hends hx hid
  | _ => exact hc n id hid

namespace Callers

variable {w v : Callers} {s : PoolStep} {a : PoolAnswer} {n : Nat}

theorem step?_eq_some (h : w.step? s = some (v, a)) :
    w.permits s = true ∧ w.pool.step? s = some (v.pool, a) ∧ v.inHand = w.inHandAfter s a := by
  unfold step? at h
  split at h
  · next hpermits =>
    obtain ⟨⟨p, b⟩, hstep, heq⟩ := Option.map_eq_some_iff.mp h
    cases heq
    exact ⟨hpermits, hstep, rfl⟩
  · cases h

theorem isIdle_of_step {p q : Pool} {x : SocketAddress} (h : p.step? (.acquire x) = some (q, .acquired (.idle n))) :
    p.isIdle n = true :=
  Pool.isIdle_of_acquire (PoolAnswer.acquired.inj (congrArg Prod.snd (Option.some.inj h)))

theorem mem_inHandAfter (h : n ∈ w.inHandAfter s a) :
    n ∈ w.inHand ∨ (∃ now, s = .dialed n now) ∨ ∃ x, s = .acquire x ∧ a = .acquired (.idle n) := by
  unfold inHandAfter at h
  split at h
  · rcases List.mem_cons.mp h with rfl | h
    · exact .inr (.inr ⟨_, rfl, rfl⟩)
    · exact .inl h
  · rcases List.mem_cons.mp h with rfl | h
    · exact .inr (.inl ⟨_, rfl⟩)
    · exact .inl h
  · exact .inl (List.mem_of_mem_erase h)
  · exact .inl h

/-- What stays so on the way. -/
structure Kept (w : Callers) : Prop where
  numbered : w.pool.Numbered
  manned : w.pool.Manned
  nodup : w.pool.sends.keys.Nodup
  underway : Underway w.pool.view
  inHand : ∀ n ∈ w.inHand, w.pool.view.reader n ≠ none

theorem kept_start : start.Kept :=
  ⟨Pool.numbered_empty, Pool.manned_empty, List.nodup_nil, fun _ _ h => (nomatch h), fun _ h => nomatch h⟩

theorem Kept.step (hw : w.Kept) (h : w.step? s = some (v, a)) : v.Kept := by
  obtain ⟨-, hs, hhand⟩ := step?_eq_some h
  have he := Pool.effect_of_step hw.numbered hs
  refine ⟨hw.numbered.step hs, hw.manned.step hs, Pool.nodup_sends_step hw.nodup hs, hw.underway.step ?_ he, ?_⟩
  · simp only [Pool.view, hw.manned.next_free, Option.map_none]
  · intro n hn hnone
    rw [hhand] at hn
    obtain ⟨hbefore, hdialed⟩ := (he.reader_none n).mp hnone
    rcases mem_inHandAfter hn with hn | ⟨now, rfl⟩ | ⟨x, rfl, rfl⟩
    · exact hw.inHand n hn hbefore
    · exact hdialed now rfl
    · obtain ⟨c, hc, -⟩ := Pool.exists_idle (isIdle_of_step hs)
      rw [Pool.view_reader hc] at hbefore
      cases hbefore

/-- **One step.** Whatever is done, an open connection that was in balance is in balance after it, if it is not given
back. -/
theorem balanced_step (hw : w.Kept) (h : w.step? s = some (v, a)) (hb : w.pool.Balanced n (w.inHand.count n))
    (hg : ¬ w.GivesBack s v n) : v.pool.Balanced n (v.inHand.count n) := by
  obtain ⟨q, hands⟩ := v
  obtain ⟨hpermits, hs, hhand⟩ := step?_eq_some h
  dsimp only at hs hhand ⊢
  subst hhand
  cases s with
  | acquire x =>
    have hacquire := hb.acquire x
    have hq : (w.pool.acquire x).1 = q := congrArg Prod.fst (Option.some.inj hs)
    have ha : .acquired (w.pool.acquire x).2 = a := congrArg Prod.snd (Option.some.inj hs)
    rw [← hq, ← ha]
    generalize (w.pool.acquire x).2 = y at hacquire ⊢
    cases y with
    | idle m =>
      simp only [inHandAfter, List.count_cons, beq_iff_eq]
      exact hacquire
    | refused | dialing => exact hacquire
  | dialed m now =>
    obtain ⟨hdial, hq⟩ := Pool.silently_eq_some hs
    cases hq
    have hheld : w.pool.connections.get? n = none → w.inHand.count n = 0 := by
      intro hnone
      apply List.count_eq_zero_of_not_mem
      intro hmem
      exact hw.inHand n hmem (Option.map_eq_none_iff.mpr hnone)
    have hdialed := hb.dialed hw.numbered hw.nodup hheld hdial now
    simp only [inHandAfter, List.count_cons, beq_iff_eq]
    exact hdialed
  | startSend m id =>
    have hmem : m ∈ w.inHand := of_decide_eq_true hpermits
    simp only [Pool.step?] at hs
    split at hs <;> cases hs
    simp only [inHandAfter]
    apply Pool.Balanced.startSend _ hw.manned.next_free
    have hcount : (w.inHand.erase m).count n + (if m = n then 1 else 0) = w.inHand.count n := by
      have hpos : 0 < w.inHand.count m := List.count_pos_iff.mpr hmem
      simp only [List.count_erase, beq_iff_eq]
      split
      · next hmn => exact Nat.sub_add_cancel (hmn ▸ hpos)
      · exact Nat.sub_zero _
    rw [hcount]
    exact hb
  | beginWrite k =>
    simp only [Pool.step?] at hs
    split at hs
    · next x hx =>
      exact (hb.beginWrite hx).silently hs
    · cases hs
  | endSend k result now =>
    simp only [Pool.step?] at hs
    split at hs
    · cases hs
    · next x hx =>
      have hends := hb.endSend hw.nodup hx result now
      repeat' split at hs
      all_goals cases hs
      next hq =>
        rw [hq] at hends
        exact hends
  | abandonSend k => exact (hb.abandonSend hw.nodup k).silently hs
  | receive m i now => exact (hb.receive m i now).silently hs
  | handOver m => exact (hb.handOver m).silently hs
  | endReading m => exact (hb.endReading m).silently hs
  | close m => exact (hb.close m).silently hs
  | shutdown => exact (Pool.Balanced.shutdown w.pool n _).silently hs
  | checkConnection reclaimAfter now written m =>
    obtain ⟨-, hq⟩ := Pool.silently_eq_some hs
    cases hq
    apply hb.checkConnection
    rintro ⟨rfl, hbefore, hafter⟩
    exact hg ⟨⟨reclaimAfter, now, written, rfl⟩, hbefore, hafter⟩
  | release m => cases hpermits
  | poll k | expire k after =>
    simp only [Pool.step?] at hs
    split at hs <;> cases hs
    exact hb.keep rfl rfl
  | dialFailed | prune | clear | drop =>
    -- neither sends nor connections change
    obtain ⟨-, hq⟩ := Pool.silently_eq_some hs
    cases hq
    exact hb.keep rfl rfl

/-! ## Runs -/

variable {run : Run}

theorem Reaches.cons {u : Callers} (hs : w.step? s = some (u, a)) (h : u.Reaches run v) :
    w.Reaches ((s, a) :: run) v := by
  induction h with
  | refl => exact .next .refl hs
  | next _ hs' ih => exact .next ih hs'

theorem kept_of_reaches (h : start.Reaches run w) : w.Kept := by
  induction h with
  | refl => exact kept_start
  | next _ hs ih => exact ih.step hs

theorem GivenBack.mono (h : GivenBack run n) (l : Run) : GivenBack (run ++ l) n := by
  obtain ⟨past, s, a, rest, w, v, rfl, hstep⟩ := h
  exact ⟨past, s, a, rest ++ l, w, v, by simp, hstep⟩

/-- A connection that nobody looked at was not given back. -/
theorem not_givenBack (h : ∀ k now written a, (.checkConnection k now written n, a) ∉ run) : ¬ GivenBack run n := by
  rintro ⟨past, s, a, rest, w, v, rfl, -, -, ⟨k, now, written, rfl⟩, -⟩
  exact h k now written a (List.mem_append_right past List.mem_cons_self)

/-- **Every run.** A connection that was never given back by a look at it is in balance. -/
theorem balanced_of_reaches (h : start.Reaches run w) (n : Nat) :
    GivenBack run n ∨ w.pool.Balanced n (w.inHand.count n) := by
  induction h with
  | refl => exact .inr fun _ hc _ => nomatch hc
  | @next u v s a run hr hs ih =>
    rcases ih with hback | hb
    · exact .inl (hback.mono _)
    · by_cases hg : u.GivesBack s v n
      · exact .inl ⟨run, s, a, [], u, v, rfl, hr, hs, hg⟩
      · exact .inr (balanced_step (kept_of_reaches hr) hs hb hg)

/-- Who is at work on a connection that is there. -/
theorem users_eq {c : Connection} (hc : w.pool.connections.get? n = some c) :
    w.users n = w.inHand.count n + w.pool.sending n + c.inFlight := by
  unfold users Pool.owed
  rw [hc]
  rfl

/-- Nobody is at work on a connection without users. -/
theorem unused (hw : w.Kept) {c : Connection} (hc : w.pool.connections.get? n = some c) (hnone : w.users n = 0) :
    c.writing = [] ∧ c.outstanding = [] ∧ n ∉ w.inHand ∧
      ∀ k x, w.pool.sends.get? k = some x → x.connection ≠ n := by
  rw [users_eq hc] at hnone
  have hsends : ∀ k x, w.pool.sends.get? k = some x → x.connection ≠ n := by
    rintro k x hx rfl
    have hpos := Pool.sending_of_get hx
    omega
  refine ⟨?_, ?_, ?_, hsends⟩
  · apply List.eq_nil_iff_forall_not_mem.mpr
    intro id hid
    obtain ⟨k, hk⟩ := hw.underway n id (by rw [Pool.view_writing hc]; exact hid)
    obtain ⟨x, hx, heq⟩ := Option.map_eq_some_iff.mp hk
    exact hsends k x hx (congrArg Prod.fst heq)
  · apply List.eq_nil_of_length_eq_zero
    unfold Connection.inFlight at hnone
    omega
  · intro hmem
    have hpos : 0 < w.inHand.count n := List.count_pos_iff.mpr hmem
    omega

/-- **Connections in use are not handed out**, unless a look at them gave them back. On every run of callers, as long as
a connection has not been given back by a look at it:

- while it is open it has one user if it is checked out, and none if it is idle: nothing is being written on it and it
  owes nothing;
- who gets it idle is alone on it;
- a look that gives it back takes it from somebody who has it and has not finished writing. -/
theorem in_use_unless_given_back (h : start.Reaches run w) (hn : ¬ GivenBack run n) :
    (∀ c, w.pool.connections.get? n = some c → c.closed = false → w.users n = c.busy.toNat ∧
      (c.busy = false → c.writing = [] ∧ c.outstanding = [] ∧ n ∉ w.inHand ∧
        ∀ k x, w.pool.sends.get? k = some x → x.connection ≠ n)) ∧
    (∀ x v, w.step? (.acquire x) = some (v, .acquired (.idle n)) → w.users n = 0) ∧
    ∀ s v a, w.step? s = some (v, a) → w.GivesBack s v n →
      w.users n = 1 ∧ (n ∈ w.inHand ∨ ∃ k x, w.pool.sends.get? k = some x ∧ x.connection = n) := by
  have hw := kept_of_reaches h
  have hb := (balanced_of_reaches h n).resolve_left hn
  have husers : ∀ c, w.pool.connections.get? n = some c → c.closed = false → w.users n = c.busy.toNat := by
    intro c hc hopen
    rw [users_eq hc]
    exact hb c hc hopen
  refine ⟨?_, ?_, ?_⟩
  · intro c hc hopen
    refine ⟨husers c hc hopen, fun hidle => unused hw hc ?_⟩
    rw [husers c hc hopen, hidle]
    rfl
  · intro x v hs
    obtain ⟨c, hc, hopen, hidle⟩ := Pool.exists_idle (isIdle_of_step (step?_eq_some hs).2.1)
    rw [husers c hc hopen, hidle]
    rfl
  · rintro s v a hs ⟨⟨reclaimAfter, now, written, rfl⟩, hbefore, hafter⟩
    obtain ⟨-, hq⟩ := Pool.silently_eq_some (step?_eq_some hs).2.1
    have hpool : v.pool = w.pool.checkConnection reclaimAfter now written n := congrArg Prod.fst hq
    rw [hpool] at hafter
    obtain ⟨c, hc, hopen, hbusy, hnone⟩ := Pool.of_givesBack hbefore hafter
    have hone : w.users n = 1 := by
      rw [husers c hc hopen, hbusy]
      rfl
    refine ⟨hone, ?_⟩
    rw [users_eq hc, Connection.inFlight, hnone] at hone
    by_cases hmem : n ∈ w.inHand
    · exact .inl hmem
    · have hzero : w.inHand.count n = 0 := List.count_eq_zero_of_not_mem hmem
      rw [hzero, Nat.zero_add, List.length_nil, Nat.add_zero] at hone
      exact .inr (Pool.exists_send hw.nodup (hone ▸ Nat.one_pos))

/-- A request that is answered, and the next one on the same connection, of which some has been written. -/
def secondSend : Run :=
  [(.acquire (.v4 0 80), .acquired (.dialing 0)), (.dialed 0 0, .nothing), (.startSend 0 7, .sending 0),
    (.beginWrite 0, .nothing), (.endSend 0 .written 1, .sent (.ok 0)),
    (.receive 0 (.ok ⟨.response, serializerCbor, compressorOff, 7, .response (.ok 7 .null)⟩) 2, .nothing),
    (.handOver 0, .nothing), (.acquire (.v4 0 80), .acquired (.idle 0)), (.startSend 0 8, .sending 1),
    (.beginWrite 1, .nothing)]

/-- A look at that connection, one minute later. -/
def lateLook : PoolStep := .checkConnection (60 * Duration.second) (60 * Duration.second + 2) true 0

theorem in_use_unless_given_back_second : ∃ w v, start.Reaches secondSend w ∧ ¬ GivenBack secondSend 0 ∧
    w.step? lateLook = some (v, .nothing) ∧ w.GivesBack lateLook v 0 ∧
    w.users 0 = 1 ∧ (0 ∈ w.inHand ∨ ∃ k x, w.pool.sends.get? k = some x ∧ x.connection = 0) := by
  have hreach : ∃ w, start.Reaches secondSend w ∧
      ∃ v, w.step? lateLook = some (v, .nothing) ∧ w.GivesBack lateLook v 0 :=
    ⟨_, .cons rfl (.cons rfl (.cons rfl (.cons rfl (.cons rfl (.cons rfl (.cons rfl (.cons rfl (.cons rfl (.cons rfl
      .refl))))))))), _, rfl, ⟨_, _, _, rfl⟩, rfl, rfl⟩
  obtain ⟨w, hw, v, hs, hg⟩ := hreach
  have hn : ¬ GivenBack secondSend 0 := not_givenBack fun k now written a => by simp [secondSend]
  exact ⟨w, v, hw, hn, hs, hg, (in_use_unless_given_back hw hn).2.2 _ v _ hs hg⟩

/-- It gives back the connection, and the next who asks for one gets it. -/
theorem written_on_and_idle : ∃ w c v, start.Reaches (secondSend ++ [(lateLook, .nothing)]) w ∧
    w.pool.connections.get? 0 = some c ∧ c.closed = false ∧ c.busy = false ∧ c.writing = [8] ∧
    w.step? (.acquire (.v4 0 80)) = some (v, .acquired (.idle 0)) :=
  ⟨_, _, _, .cons rfl (.cons rfl (.cons rfl (.cons rfl (.cons rfl (.cons rfl (.cons rfl (.cons rfl (.cons rfl (.cons rfl
      (.cons rfl .refl)))))))))), rfl, rfl, rfl, rfl, rfl⟩

end Callers

end Rpc
