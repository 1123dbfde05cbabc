import Rpc.Proofs.Server.Turn

/-!
# Workers

- `ServerRun.run?`: runs as a function (`reaches_iff`);
- `ServerRun.running_le_workers`: no more invocations run at once than there are workers, over all connections and on
  every run.
-/

namespace Rpc

namespace ServerRun

variable {σ : Type} {q r : ServerRun σ}

/-- A server to which nobody has connected. -/
def idle (pipeline : Pipeline σ) (codec : FrameCodec) (workers : Nat) : ServerRun σ :=
  ⟨pipeline, codec, workers, .empty⟩

/-- Steps one after the other, where they are possible. -/
def run? : ServerRun σ → List ServerStep → Option (ServerRun σ)
  | r, [] => some r
  | r, s :: run => (r.step? s).bind fun q => q.run? run

theorem reaches_iff {run : List ServerStep} : Reaches r run q ↔ r.run? run = some q := by
  constructor
  · intro h
    induction h with
    | refl => rfl
    | next hs _ ih => rw [run?, hs]; exact ih
  · intro h
    induction run generalizing r with
    | nil => cases h; exact .refl _
    | cons s run ih =>
      obtain ⟨t, hs, h⟩ := Option.bind_eq_some_iff.mp h
      exact .next hs (ih h)

/-- How many invocations run when a connection has changed. -/
theorem running_of_changes {n : Nat} {c c' : ServerConnection} (h : Changes r q n c')
    (hc : r.connections.get? n = some c) : q.running + c.running.length = r.running + c'.running.length := by
  have hs := r.connections.total_set (·.running.length) n c'
  rw [hc] at hs
  unfold running
  rw [h.connections]
  exact hs

theorem running_shutdown (r : ServerRun σ) :
    ({ r with connections := r.connections.map fun _ c => closedDown c } : ServerRun σ).running = r.running :=
  Table.total_map r.connections fun _ _ => rfl

/-- A turn starts one invocation, ends one, or leaves those that run. -/
theorem running_turn {services : ServiceTable} {codec : FrameCodec} {log log' : ConnectionLog}
    {c c' : ServerConnection} {s : ServerStep} (h : Turn services codec c log s c' log') :
    c'.running.length ≤ c.running.length ∨
      c'.running.length = c.running.length + 1 ∧ ∃ n place, s = .start n place := by
  cases h with
  | started => exact .inr ⟨by simp, _, _, rfl⟩
  | @finished _ place i hi =>
    refine .inl ?_
    simp only [List.length_eraseIdx]
    split <;> omega
  | @saw _ _ _ _ a =>
    left
    cases a <;> exact Nat.le_refl _
  | _ => exact .inl (Nat.le_refl _)

theorem workers_of_step {s : ServerStep} (h : r.step? s = some q) : q.workers = r.workers := by
  rcases step_cases .empty h with ⟨_, _, -, -, rfl⟩ | ⟨-, rfl⟩ | ⟨_, _, _, -, -, -, hch, -⟩
  · rfl
  · rfl
  · exact hch.workers

/-- An invocation starts only where a worker is free. -/
theorem free_of_start {n place : Nat} {c : ServerConnection} (h : r.stepAt n c (.start n place) = some q) :
    r.running < r.workers := by
  simp only [stepAt] at h
  split at h
  · split at h
    · assumption
    · cases h
  · cases h

theorem running_step {s : ServerStep} (hr : r.running ≤ r.workers) (h : r.step? s = some q) :
    q.running ≤ q.workers := by
  rw [workers_of_step h]
  rcases step_cases .empty h with ⟨n, peer, rfl, -, rfl⟩ | ⟨rfl, rfl⟩ | ⟨n, c, c', hs, hc, h, hch, ht⟩
  · have hsum := r.connections.total_set (·.running.length) n (.opened peer)
    have hopened : (ServerConnection.opened peer).running.length = 0 := rfl
    show (r.connections.set n (.opened peer)).total _ ≤ r.workers
    unfold running at hr
    omega
  · rw [running_shutdown]
    exact hr
  · have hsum := running_of_changes hch hc
    rcases running_turn ht with hle | ⟨heq, m, place, rfl⟩
    · omega
    · cases hs
      have hfree := free_of_start h
      omega

theorem workers_of_reaches {run : List ServerStep} (h : Reaches r run q) : q.workers = r.workers := by
  induction h with
  | refl => rfl
  | next hs _ ih => exact ih.trans (workers_of_step hs)

/-- **No more invocations run at once than there are workers.** -/
theorem running_le_workers {run : List ServerStep} (h : Reaches r run q) (hr : r.running ≤ r.workers) :
    q.running ≤ r.workers := by
  induction h with
  | refl => exact hr
  | next hs _ ih =>
    have := ih (running_step hr hs)
    rw [workers_of_step hs] at this
    exact this

end ServerRun

end Rpc
