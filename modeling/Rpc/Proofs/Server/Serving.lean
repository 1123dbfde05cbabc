import Rpc.Proofs.Server.Turn

/-!
# Connections that stay open

On a connection that is read and written and on which more may come in (`ServerConnection.Live`), the steps of
readers, workers and writers are a few, each with one outcome (`ServerRun.Serves`, `serves_of_step`). They keep
connections open (`Serves.live`).
-/

namespace Rpc

/-- A connection that is read and written, and on which more may come in. -/
structure ServerConnection.Live (c : ServerConnection) : Prop where
  reading : c.reading = true
  writing : c.writing = true
  inflow : c.inflow = .more

theorem ServerConnection.live_opened (peer : SocketAddress) : (opened peer).Live := ⟨rfl, rfl, rfl⟩

theorem ServerConnection.live_takes {c : ServerConnection} (h : c.Live) (a : Admission) : (c.takes a).Live := by
  cases a <;> exact ⟨h.reading, h.writing, h.inflow⟩

namespace ServerRun

variable {σ : Type} {r q : ServerRun σ} {n : Nat} {c : ServerConnection}

/-- What a step does that opens a connection or that is about a live one. -/
inductive Serves (r : ServerRun σ) : ServerStep → ServerRun σ → Prop
  | opened {n : Nat} {peer : SocketAddress} : r.connections.get? n = none →
      Serves r (.opened n peer) (r.put n (.opened peer))
  | arrived {n : Nat} {c : ServerConnection} {i : Inbound} : r.connections.get? n = some c →
      Serves r (.arrived n i) (r.put n { c with inbound := c.inbound ++ [i] })
  | looked {n : Nat} {c : ServerConnection} {now : Instant} {i : Inbound} {rest : List Inbound} :
      r.connections.get? n = some c → c.inbound = i :: rest →
      Serves r (.read n now)
        ({ r with pipeline := (r.pipeline.look c.peer now i).1 }.put n
          (ServerConnection.takes { c with inbound := rest } (r.pipeline.look c.peer now i).2))
  | started {n place : Nat} {c : ServerConnection} {i : Invocation} : r.connections.get? n = some c →
      c.waiting[place]? = some i →
      Serves r (.start n place)
        (r.put n { c with waiting := c.waiting.eraseIdx place, running := c.running ++ [i] })
  | finished {n place : Nat} {c : ServerConnection} {i : Invocation} : r.connections.get? n = some c →
      c.running[place]? = some i →
      Serves r (.finish n place)
        (r.put n
          { c with running := c.running.eraseIdx place, owed := c.owed ++ [(i.run r.pipeline.services).result] })
  | enqueued {n : Nat} {c : ServerConnection} {m : Message} {rest : List Message} :
      r.connections.get? n = some c → c.owed = m :: rest →
      Serves r (.enqueue n) (r.put n { c with owed := rest, queue := c.queue ++ [m] })
  | wrote {n : Nat} {c : ServerConnection} {m : Message} {rest : List Message} {w : Message × Bytes} :
      r.connections.get? n = some c → c.queue = m :: rest → r.codec.encodeReply m = .ok w →
      Serves r (.write n) (r.put n { c with queue := rest, written := c.written ++ [w] })

/-- Steps that open a connection, or that readers, workers and writers take on open ones. -/
def serving : ServerStep → Bool
  | .opened .. | .arrived .. | .read .. | .start .. | .finish .. | .enqueue _ | .write _ => true
  | _ => false

/-- **On live connections each step has one outcome**, if the replies that are written have frames. -/
theorem serves_of_step {t : ServerStep} (ht : serving t = true)
    (hl : ∀ n c, r.connections.get? n = some c → c.Live)
    (he : ∀ n c m rest, t = .write n → r.connections.get? n = some c → c.queue = m :: rest →
      (r.codec.encodeReply m).isOk = true)
    (h : r.step? t = some q) : Serves r t q := by
  cases t with
  | ended | endReading | endWriting | shutdown => cases ht
  | opened n peer =>
    simp only [step?] at h
    split at h
    · cases h
    · rename_i hn
      cases h
      exact .opened (by simpa [Table.contains] using hn)
  | arrived n i =>
    obtain ⟨c, hc, h⟩ := Option.bind_eq_some_iff.mp h
    simp only [stepAt] at h
    split at h
    · cases h
      exact .arrived hc
    · cases h
  | read n now =>
    obtain ⟨c, hc, h⟩ := Option.bind_eq_some_iff.mp h
    simp only [stepAt] at h
    split at h
    · rename_i i rest hi
      split at h
      · rw [readFrame_eq_some h]
        exact .looked (c := c) hc hi
      · cases h
    · cases h
  | start n place =>
    obtain ⟨c, hc, h⟩ := Option.bind_eq_some_iff.mp h
    simp only [stepAt] at h
    split at h
    · rename_i i hi
      split at h
      · cases h
        exact .started hc hi
      · cases h
    · cases h
  | finish n place =>
    obtain ⟨c, hc, h⟩ := Option.bind_eq_some_iff.mp h
    simp only [stepAt] at h
    split at h
    · rename_i i hi
      cases h
      exact .finished hc hi
    · cases h
  | enqueue n =>
    obtain ⟨c, hc, h⟩ := Option.bind_eq_some_iff.mp h
    simp only [stepAt] at h
    split at h
    · rename_i m rest hm
      rw [if_pos (hl n c hc).writing] at h
      obtain ⟨c', hc', rfl⟩ := Option.map_eq_some_iff.mp h
      rw [queued_some hc']
      exact .enqueued (c := c) hc hm
    · cases h
  | write n =>
    obtain ⟨c, hc, h⟩ := Option.bind_eq_some_iff.mp h
    simp only [stepAt] at h
    split at h
    · rename_i m rest hm
      rw [if_pos (hl n c hc).writing] at h
      split at h
      · rename_i w hw
        cases h
        exact .wrote hc hm hw
      · rename_i e hw
        have hok := he n c m rest rfl hc hm
        rw [hw] at hok
        cases hok
    · cases h

theorem get_put (r : ServerRun σ) (k n : Nat) (c : ServerConnection) :
    (r.put k c).connections.get? n = if k = n then some c else r.connections.get? n :=
  Table.get?_set r.connections k n c

/-- A connection that is put in is live if it is so itself. -/
theorem live_put {k : Nat} {c' : ServerConnection} (hl : ∀ n c, r.connections.get? n = some c → c.Live)
    (hc : c'.Live) : ∀ n c, (r.put k c').connections.get? n = some c → c.Live := by
  intro n c h
  rw [get_put] at h
  split at h
  · cases h
    exact hc
  · exact hl n c h

/-- **Connections stay open.** -/
theorem Serves.live {t : ServerStep} (h : Serves r t q) (hl : ∀ n c, r.connections.get? n = some c → c.Live) :
    ∀ n c, q.connections.get? n = some c → c.Live := by
  cases h with
  | opened => exact live_put hl (ServerConnection.live_opened _)
  | @looked n c now i rest hc =>
    have hlive := hl n c hc
    have hrest : ServerConnection.Live { c with inbound := rest } := ⟨hlive.reading, hlive.writing, hlive.inflow⟩
    exact live_put hl (ServerConnection.live_takes hrest _)
  | arrived hc | started hc | finished hc | enqueued hc | wrote hc =>
    have hlive := hl _ _ hc
    exact live_put hl ⟨hlive.reading, hlive.writing, hlive.inflow⟩

/-- The codec, the services and the number of workers stay, and the filters learn from frames that are looked at. -/
theorem Serves.same {t : ServerStep} (h : Serves r t q) :
    q.codec = r.codec ∧ q.workers = r.workers ∧ q.pipeline.services = r.pipeline.services ∧
      ((∀ n now, t ≠ .read n now) → q.pipeline = r.pipeline) := by
  cases h with
  | @looked n c now i =>
    refine ⟨rfl, rfl, Pipeline.look_services _ _ _ _, fun ht => ?_⟩
    exact absurd rfl (ht n now)
  | opened | arrived | started | finished | enqueued | wrote => exact ⟨rfl, rfl, rfl, fun _ => rfl⟩

/-- Connections come about by being opened. -/
theorem Serves.isSome {t : ServerStep} (h : Serves r t q) (n : Nat) :
    (q.connections.get? n).isSome = true ↔
      (r.connections.get? n).isSome = true ∨ ∃ peer, t = .opened n peer := by
  cases h with
  | @opened k peer hk =>
    rw [get_put]
    by_cases hkn : k = n <;> simp [hkn]
  | looked hc | arrived hc | started hc | finished hc | enqueued hc | wrote hc =>
    unfold put
    rw [Table.isSome_get?_set hc]
    simp

/-- Connections stay those to their peers. -/
theorem Serves.peer {t : ServerStep} (h : Serves r t q) {n : Nat} {c : ServerConnection}
    (hc : q.connections.get? n = some c) :
    t = .opened n c.peer ∨ ∃ d, r.connections.get? n = some d ∧ d.peer = c.peer := by
  have hput : ∀ {k : Nat} {c' d : ServerConnection} {r' : ServerRun σ}, r'.connections = r.connections →
      (r'.put k c').connections.get? n = some c → r.connections.get? k = some d → d.peer = c'.peer →
      ∃ d, r.connections.get? n = some d ∧ d.peer = c.peer := by
    intro k c' d r' hr' h hd hpeer
    rw [get_put, hr'] at h
    split at h
    · rename_i hk
      cases h
      exact ⟨d, hk ▸ hd, hpeer⟩
    · exact ⟨c, h, rfl⟩
  cases h with
  | opened hk =>
    rw [get_put] at hc
    split at hc
    · rename_i hk'
      cases hc
      subst hk'
      exact .inl rfl
    · exact .inr ⟨c, hc, rfl⟩
  | @looked k d now i rest hd =>
    refine .inr (hput rfl hc hd ?_)
    cases (r.pipeline.look d.peer now i).2 <;> rfl
  | arrived hd | started hd | finished hd | enqueued hd | wrote hd => exact .inr (hput rfl hc hd rfl)

end ServerRun

end Rpc
