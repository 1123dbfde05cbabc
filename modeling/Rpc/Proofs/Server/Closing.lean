import Rpc.Proofs.Server.Workers

/-!
# Connections come to their end

- `Turn.effort_lt`: every step of a reader, a worker or a writer leaves less to do on its connection;
- `ServerRun.can_work`: where something is left to do on a connection on which nothing more comes in, such a step is
  possible there, or another connection holds a worker and can give it back;
- `ServerRun.can_close`: so the connection can be led to its end.
-/

namespace Rpc

/-- Steps of readers, workers and writers. -/
def ServerStep.isWork : ServerStep → Bool
  | .opened .. | .arrived .. | .ended .. | .shutdown => false
  | _ => true

/-- Work is about a connection. -/
theorem ServerStep.connection_of_isWork {s : ServerStep} (h : s.isWork = true) : ∃ n, s.connection? = some n := by
  cases s <;> first | exact ⟨_, rfl⟩ | cases h

/-- How much is left to do on a connection: how often what is there goes on until it is written. -/
def ServerConnection.effort (c : ServerConnection) : Nat :=
  6 * c.inbound.length + 5 * c.waiting.length + 4 * c.running.length + 2 * c.owed.length + c.queue.length +
    c.reading.toNat + c.writing.toNat

/-- **Work leaves less to do.** -/
theorem Turn.effort_lt {services : ServiceTable} {codec : FrameCodec} {log log' : ConnectionLog}
    {c c' : ServerConnection} {s : ServerStep} (h : Turn services codec c log s c' log') (hs : s.isWork = true) :
    c'.effort < c.effort ∧ c'.inflow = c.inflow := by
  unfold ServerConnection.effort
  cases h with
  | arrived | ended => cases hs
  | @saw _ _ _ rest a hi =>
    rw [hi, List.length_cons]
    cases a <;> simp [ServerConnection.takes] <;> omega
  | endedReading hr => simp [hr]
  | broke hr => simp [hr]
  | @started _ place i hi =>
    obtain ⟨hlt, -⟩ := List.getElem?_eq_some_iff.mp hi
    simp only [List.length_eraseIdx, if_pos hlt, List.length_append, List.length_singleton]
    exact ⟨by omega, trivial⟩
  | @finished _ place i hi =>
    obtain ⟨hlt, -⟩ := List.getElem?_eq_some_iff.mp hi
    simp only [List.length_eraseIdx, if_pos hlt, List.length_append, List.length_singleton]
    exact ⟨by omega, trivial⟩
  | enqueued hm =>
    simp only [hm, List.length_cons, List.length_append, List.length_nil]
    exact ⟨by omega, trivial⟩
  | dropped hm =>
    simp only [hm, List.length_cons]
    exact ⟨by omega, trivial⟩
  | wrote hm =>
    simp only [hm, List.length_cons]
    exact ⟨by omega, trivial⟩
  | failed hm =>
    simp only [hm, List.length_cons, Bool.toNat_false]
    exact ⟨by omega, trivial⟩
  | endedWriting hw => simp [hw]

namespace ServerRun

variable {σ : Type} {q r : ServerRun σ} {n : Nat} {c : ServerConnection}

/-! ## Connections have numbers of their own -/

theorem nodup_step {s : ServerStep} (hr : r.connections.keys.Nodup) (h : r.step? s = some q) :
    q.connections.keys.Nodup := by
  rcases step_cases .empty h with ⟨n, peer, -, -, rfl⟩ | ⟨-, rfl⟩ | ⟨n, c, c', -, -, -, hch, -⟩
  · exact Table.nodup_keys_set hr _ _
  · show ((r.connections.map fun _ c => closedDown c).entries.map (·.1)).Nodup
    simp only [Table.map, List.map_map]
    exact hr
  · rw [hch.connections]
    exact Table.nodup_keys_set hr _ _

theorem nodup_of_reaches {run : List ServerStep} (h : Reaches r run q) (hr : r.connections.keys.Nodup) :
    q.connections.keys.Nodup := by
  induction h with
  | refl => exact hr
  | next hs _ ih => exact ih (nodup_step hr hs)

/-- Where invocations run, some connection has one. -/
theorem exists_running (hr : r.connections.keys.Nodup) (h : 0 < r.running) :
    ∃ k d, r.connections.get? k = some d ∧ 0 < d.running.length := by
  obtain ⟨k, d, hm, hpos⟩ := Table.exists_of_total_pos h
  exact ⟨k, d, (Table.mem_entries_iff hr).mp hm, hpos⟩

/-! ## There is always a step -/

theorem queued_isSome (hq : c.queue = []) (m : Option Message) : (queued c m).isSome = true := by
  cases m <;> simp [queued, ServerConnection.hasRoom, ServerConnection.queueLimit, hq]

/-- With an empty queue the reader can take any decision. -/
theorem readFrame_isSome (hq : c.queue = []) (i : Inbound) (now : Instant) :
    (r.readFrame n c i now).isSome = true := by
  cases i with
  | error e =>
    simp only [readFrame, Option.isSome_map]
    exact queued_isSome hq _
  | ok m =>
    simp only [readFrame]
    cases (r.pipeline.receive c.peer now m).2 with
    | reply m' =>
      simp only [Option.isSome_map]
      exact queued_isSome hq _
    | invoke j => rfl
    | ignore => rfl

/-- Something can be done on a connection that is open and on which nothing more comes in, unless it waits for a
worker. -/
theorem can_work_at (r : ServerRun σ) (n : Nat) (hw : c.writing = true) (hf : c.inflow = .ended) :
    (∃ s, s.isWork = true ∧ s.connection? = some n ∧ (r.stepAt n c s).isSome = true) ∨ r.workers ≤ r.running := by
  cases hq : c.queue with
  | cons m rest =>
    refine .inl ⟨.write n, rfl, rfl, ?_⟩
    simp only [stepAt, hq, hw, if_true]
    cases r.codec.encodeReply m <;> rfl
  | nil =>
    cases ho : c.owed with
    | cons m rest =>
      refine .inl ⟨.enqueue n, rfl, rfl, ?_⟩
      simp only [stepAt, ho]
      rw [if_pos hw, Option.isSome_map]
      exact queued_isSome (c := { c with owed := rest }) hq _
    | nil =>
      cases hr : c.reading with
      | true =>
        left
        cases hi : c.inbound with
        | nil => exact ⟨.endReading n, rfl, rfl, by simp [stepAt, hr, hw, hi, hf]⟩
        | cons i rest =>
          refine ⟨.read n 0, rfl, rfl, ?_⟩
          simp only [stepAt, hi]
          rw [if_pos (by rw [hr, hw]; rfl)]
          exact readFrame_isSome (c := { c with inbound := rest }) hq i 0
      | false =>
        cases hrun : c.running with
        | cons i rest => exact .inl ⟨.finish n 0, rfl, rfl, by simp [stepAt, hrun]⟩
        | nil =>
          cases hwait : c.waiting with
          | cons i rest =>
            by_cases hfree : r.running < r.workers
            · exact .inl ⟨.start n 0, rfl, rfl, by simp [stepAt, hwait, hfree]⟩
            · exact .inr (Nat.le_of_not_lt hfree)
          | nil =>
            have hdone : c.isDone = true := by
              simp [ServerConnection.isDone, hr, hwait, hrun, ho, hq]
            exact .inl ⟨.endWriting n, rfl, rfl, by simp [stepAt, hw, hdone]⟩

/-- **No connection is stuck.** Where something is left to do on a connection, it can be done, or another connection
can give back a worker. -/
theorem can_work (hc : r.connections.get? n = some c) (hnd : r.connections.keys.Nodup) (hn : 0 < r.workers)
    (hw : c.writing = true) (hf : c.inflow = .ended) :
    ∃ s k d, s.isWork = true ∧ s.connection? = some k ∧ r.connections.get? k = some d ∧
      (r.stepAt k d s).isSome = true := by
  rcases can_work_at r n hw hf with ⟨s, hs, hk, hq⟩ | hbusy
  · exact ⟨s, n, c, hs, hk, hc, hq⟩
  · obtain ⟨k, d, hd, hpos⟩ := exists_running hnd (Nat.lt_of_lt_of_le hn hbusy)
    refine ⟨.finish k 0, k, d, rfl, rfl, hd, ?_⟩
    simp [stepAt, List.getElem?_eq_getElem hpos]

/-! ## Work comes to an end -/

/-- How much is left to do on all connections. -/
def effort (r : ServerRun σ) : Nat := r.connections.total (·.effort)

/-- What a step of work does to the connection it is about, and to how much is left to do. -/
theorem effort_stepAt {k : Nat} {d : ServerConnection} {s : ServerStep} (hd : r.connections.get? k = some d)
    (hs : s.isWork = true) (h : r.stepAt k d s = some q) :
    q.effort < r.effort ∧ q.workers = r.workers ∧
      ∃ d', q.connections = r.connections.set k d' ∧ d'.inflow = d.inflow := by
  obtain ⟨d', hch, ht⟩ := turn_of_stepAt .empty h
  obtain ⟨hlt, hin⟩ := ht.effort_lt hs
  refine ⟨?_, hch.workers, d', hch.connections, hin⟩
  have hsum := r.connections.total_set (·.effort) k d'
  rw [hd] at hsum
  unfold effort
  rw [hch.connections]
  simp only [Option.map_some, Option.getD_some] at hsum
  omega

/-- **Work comes to an end**: a run on which only readers, workers and writers do something has so many steps at
most. -/
theorem length_le_effort {run : List ServerStep} (h : Reaches r run q) (hw : ∀ s ∈ run, s.isWork = true) :
    run.length + q.effort ≤ r.effort := by
  induction h with
  | refl => simp
  | @next q r t s run hs _ ih =>
    have hlt : r.effort < q.effort := by
      have hwork := hw s List.mem_cons_self
      obtain ⟨k, hk⟩ := s.connection_of_isWork hwork
      rw [step_about hk] at hs
      obtain ⟨d, hd, hs⟩ := Option.bind_eq_some_iff.mp hs
      exact (effort_stepAt hd hwork hs).1
    have := ih fun s hm => hw s (List.mem_cons_of_mem _ hm)
    rw [List.length_cons]
    omega

/-- **Every connection on which nothing more comes in can be led to its end.** -/
theorem can_close (hc : r.connections.get? n = some c) (hnd : r.connections.keys.Nodup) (hn : 0 < r.workers)
    (hf : c.inflow = .ended) :
    ∃ run q c', Reaches r run q ∧ (∀ s ∈ run, s.isWork = true) ∧ q.connections.get? n = some c' ∧
      c'.writing = false := by
  induction hm : r.effort using Nat.strongRecOn generalizing r c with
  | ind m ih =>
    cases hw : c.writing with
    | false => exact ⟨[], r, c, .refl r, fun _ h => (nomatch h), hc, hw⟩
    | true =>
      obtain ⟨s, k, d, hs, hk, hd, hsome⟩ := can_work hc hnd hn hw hf
      obtain ⟨q, hq⟩ := Option.isSome_iff_exists.mp hsome
      have hstep : r.step? s = some q := by rw [step_about hk, hd]; exact hq
      obtain ⟨hlt, hworkers, d', hconn, hin⟩ := effort_stepAt hd hs hq
      have hc' : ∃ c', q.connections.get? n = some c' ∧ c'.inflow = .ended := by
        rw [hconn, Table.get?_set]
        split
        · rename_i hkn
          subst hkn
          rw [hc] at hd
          cases hd
          exact ⟨d', rfl, hin.trans hf⟩
        · exact ⟨c, hc, hf⟩
      obtain ⟨c', hc', hf'⟩ := hc'
      obtain ⟨run, t, c'', hr, hwork, hget, hclosed⟩ :=
        ih q.effort (hm ▸ hlt) hc' (nodup_step hnd hstep) (hworkers ▸ hn) hf' rfl
      refine ⟨s :: run, t, c'', .next hstep hr, fun x hx => ?_, hget, hclosed⟩
      rcases List.mem_cons.mp hx with rfl | hx
      · exact hs
      · exact hwork x hx

end ServerRun

end Rpc
