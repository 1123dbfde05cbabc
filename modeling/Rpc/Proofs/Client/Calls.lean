import Rpc.Client.Client
import Rpc.Proofs.Client.InUse

/-!
# Calls of a client

All that a client does with its pool is what callers do (`Callers`).

- `Callers.connect_reaches`: who gets a connection has it in hand;
- `Callers.send_reaches`: a call begins to send on the connection that it got, and has none in hand after it;
- `Callers.shutdown_reaches`: the end of a client.
-/

namespace Rpc

namespace Pool

variable {p q : Pool} {x : SocketAddress} {n : Nat}

theorem contains_of_dialing (h : p.acquire x = (q, .dialing n)) : q.dials.contains n = true := by
  unfold acquire at h
  split at h
  · cases h
  · dsimp only at h
    split at h
    · cases h
    · cases h
      rw [Table.contains, Table.get?_set, if_pos rfl]
      rfl

/-- An idle connection that is checked out is there. -/
theorem contains_of_idle (h : p.acquire x = (q, .idle n)) : q.connections.contains n = true := by
  obtain ⟨c, hc, -⟩ := exists_idle (isIdle_of_acquire (congrArg Prod.snd h))
  unfold acquire at h
  split at h
  · cases h
  · dsimp only at h
    split at h
    · cases h
      have hget := get_update (p := { p with members := p.members.set x (p.openMembers x) }) hc fun c =>
        { c with busy := true }
      rw [Table.contains, hget]
      rfl
    · cases h

theorem contains_dialed (h : p.dials.contains n = true) (now : Instant) :
    (p.dialed n now).connections.contains n = true := by
  obtain ⟨a, ha⟩ := Option.isSome_iff_exists.mp h
  unfold dialed
  rw [ha, Table.contains, Table.get?_set, if_pos rfl]
  rfl

/-- A connection that is got is there. -/
theorem contains_connect {dial : SocketAddress → DialResult} {now : Instant} (h : (p.connect x dial now).2 = .ok n) :
    (p.connect x dial now).1.connections.contains n = true := by
  unfold connect at h ⊢
  cases hacquire : p.acquire x with
  | mk q y =>
    rw [hacquire] at h
    cases y with
    | refused => cases h
    | idle m =>
      cases h
      exact contains_of_idle hacquire
    | dialing m =>
      dsimp only at h ⊢
      cases hdial : dial x with
      | connected =>
        rw [hdial] at h
        cases h
        exact contains_dialed (contains_of_dialing hacquire) now
      | failed | timedOut =>
        rw [hdial] at h
        cases h

end Pool

namespace Callers

variable {w : Callers} {hands : List Nat}

theorem step?_of_pool {s : PoolStep} {a : PoolAnswer} {q : Pool} (hp : w.permits s = true)
    (hs : w.pool.step? s = some (q, a)) : w.step? s = some (⟨q, w.inHandAfter s a⟩, a) := by
  unfold step?
  rw [if_pos hp, hs]
  rfl

/-- **Who gets a connection has it in hand.** -/
theorem connect_reaches (p : Pool) (hands : List Nat) (x : SocketAddress) (dial : SocketAddress → Pool.DialResult)
    (now : Instant) : ∃ run, (⟨p, hands⟩ : Callers).Reaches run
      ⟨(p.connect x dial now).1,
        match (p.connect x dial now).2 with
        | .ok n => n :: hands
        | .error _ => hands⟩ := by
  have hstep : (⟨p, hands⟩ : Callers).step? (.acquire x) =
      some (⟨(p.acquire x).1, (⟨p, hands⟩ : Callers).inHandAfter (.acquire x) (.acquired (p.acquire x).2)⟩,
        .acquired (p.acquire x).2) := step?_of_pool rfl rfl
  unfold Pool.connect
  cases hacquire : p.acquire x with
  | mk q y =>
    rw [hacquire] at hstep
    cases y with
    | refused | idle => exact ⟨_, .next .refl hstep⟩
    | dialing n =>
      have hdial := Pool.contains_of_dialing hacquire
      dsimp only
      cases dial x with
      | connected =>
        have hdialed : (⟨q, hands⟩ : Callers).step? (.dialed n now) = some (⟨q.dialed n now, n :: hands⟩, .nothing) :=
          step?_of_pool rfl (if_pos hdial)
        exact ⟨_, .next (.next .refl hstep) hdialed⟩
      | failed | timedOut =>
        have hfailed : (⟨q, hands⟩ : Callers).step? (.dialFailed n) = some (⟨q.dialFailed n, hands⟩, .nothing) :=
          step?_of_pool rfl (if_pos hdial)
        exact ⟨_, .next (.next .refl hstep) hfailed⟩

/-- Who has a connection in hand can begin to send on it, and has it no longer in hand then. -/
theorem step?_startSend {q : Pool} {n : Nat} (h : q.connections.contains n = true) (id : UInt32) :
    (⟨q, n :: hands⟩ : Callers).step? (.startSend n id) =
      some (⟨(q.startSend n id).1, hands⟩, .sending (q.startSend n id).2) := by
  have hpermits : (⟨q, n :: hands⟩ : Callers).permits (.startSend n id) = true := decide_eq_true List.mem_cons_self
  have hhand : (⟨q, n :: hands⟩ : Callers).inHandAfter (.startSend n id) (.sending (q.startSend n id).2) = hands :=
    List.erase_cons_head n hands
  have hstep : q.step? (.startSend n id) = some ((q.startSend n id).1, .sending (q.startSend n id).2) := if_pos h
  rw [step?_of_pool hpermits hstep, hhand]

theorem pool_route (c : Client) (service : String) (o : CallOptions) : (c.route service o).1.pool = c.pool := by
  unfold Client.route
  split
  · rfl
  · dsimp only
    split <;> rfl

/-- **A call goes the way of a caller**, up to the point where its request is being sent. It has nothing in hand then
that was not in hand before. -/
theorem send_reaches (c : Client) (hands : List Nat) (r : Request) (o : CallOptions)
    (dial : SocketAddress → Pool.DialResult) (now : Instant) :
    ∃ run, (⟨c.pool, hands⟩ : Callers).Reaches run ⟨(c.send r o dial now).1.pool, hands⟩ := by
  have hroute := pool_route c r.service o
  unfold Client.send
  cases hr : c.route r.service o with
  | mk d y =>
    rw [hr] at hroute
    dsimp only at hroute
    rw [← hroute]
    cases y with
    | error e => exact ⟨[], .refl⟩
    | ok z =>
      obtain ⟨id, x⟩ := z
      obtain ⟨run, hrun⟩ := connect_reaches d.pool hands x dial now
      dsimp only
      cases hconn : d.pool.connect x dial now with
      | mk q res =>
        rw [hconn] at hrun
        cases res with
        | error e => exact ⟨run, hrun⟩
        | ok n =>
          have hget : q.connections.contains n = true := by
            have hthere := Pool.contains_connect (congrArg Prod.snd hconn)
            rw [hconn] at hthere
            exact hthere
          exact ⟨_, .next hrun (step?_startSend hget id)⟩

/-- **The end of a client.** -/
theorem shutdown_reaches (c : Client) (hands : List Nat) :
    (⟨c.pool, hands⟩ : Callers).Reaches [(.shutdown, .nothing), (.clear, .nothing)] ⟨c.shutdown.pool, hands⟩ :=
  .cons rfl (.cons rfl .refl)

end Callers

end Rpc
