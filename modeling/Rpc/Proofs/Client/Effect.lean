import Mathlib.Logic.Function.Basic
import Rpc.Client.Steps
import Rpc.Proofs.Client.Pending

/-!
# What a step of a pool does

A pool as far as responses can tell (`View`): the ids on each connection and what its reader does, the sends on their
way, and the waiting requests. `Effect` is what steps do to a view.

- `Pool.Numbered`: no two connections have the same number, and sends have connections;
- `Pool.effect_of_step`: every step of a pool has its effect on the view, and no other;
- `Pool.Numbered.step`: every step keeps the numbers.
-/

namespace Rpc

open Function (update)

/-- A pool without addresses, flags and instants. -/
@[ext]
structure View where
  writing : Nat → List UInt32
  outstanding : Nat → List UInt32
  /-- What the reader of a connection does, if there is one. -/
  reader : Nat → Option ReaderState
  /-- The connection and the id of a send on its way. -/
  sends : Nat → Option (Nat × UInt32)
  nextSend : Nat
  pending : Pending Nat

/-- The view of a pool. -/
def Pool.view (p : Pool) : View where
  writing n := ((p.connections.get? n).map (·.writing)).getD []
  outstanding n := ((p.connections.get? n).map (·.outstanding)).getD []
  reader n := (p.connections.get? n).map (·.reader)
  sends s := (p.sends.get? s).map fun x => (x.connection, x.requestId)
  nextSend := p.nextSend
  pending := p.pending

/-- A frame carries a response to an id: a response frame its own, and a frame that cannot be decoded an error. -/
inductive Conveys : Inbound → UInt32 → Response → Prop
  | response {m : Message} {r : Response} : m.type = .response → m.payload = .response r →
      Conveys (.ok m) m.requestId r
  | undecodable (e : FrameError) :
      Conveys (.error e) e.header.requestId (.err e.header.requestId ⟨.badRequest, e.message, none⟩)

theorem conveys_iff {i : Inbound} {id : UInt32} {r : Response} :
    Conveys i id r ↔ Connection.responseOf i = some (id, r) := by
  constructor
  · rintro (⟨ht, hp⟩ | e)
    · simp [Connection.responseOf, ht, hp]
    · rfl
  · intro h
    unfold Connection.responseOf at h
    split at h
    · rename_i m
      split at h
      · rename_i r' ht hp
        cases h
        exact .response ht hp
      · cases h
    · cases h
      exact .undecodable _

/-- Steps that are nothing to a view. -/
def PoolStep.isQuiet : PoolStep → Bool
  | .acquire _ | .dialFailed _ | .beginWrite _ | .release _ | .close _ | .checkConnection .. | .prune _
  | .shutdown => true
  | .receive _ i _ => (Connection.responseOf i).isNone
  | _ => false

/-- Steps by which a send ends without its request being written. -/
def PoolStep.fails (s : Nat) : PoolStep → Bool
  | .endSend _ .written _ => false
  | .endSend k _ _ => k = s
  | .abandonSend k => k = s
  | _ => false

/-- The handle that a step reads, if it does. -/
def PoolStep.reads? : PoolStep → Option Nat
  | .poll h => some h
  | .expire h _ => some h
  | _ => none

/-- A request has been written: it waits for its response. -/
def View.register (v : View) (s n : Nat) (id : UInt32) : View :=
  { v with
    writing := update v.writing n ((v.writing n).filter (· ≠ id))
    outstanding := update v.outstanding n ((v.outstanding n).insert id)
    sends := update v.sends s none
    pending := (v.pending.insert id n).1 }

/-- A reader has handed on a response to a request of its connection. -/
def View.handOn (v : View) (n : Nat) (id : UInt32) (r : Response) : View :=
  { v with
    outstanding := update v.outstanding n ((v.outstanding n).filter (· ≠ id))
    reader := update v.reader n (some .reading)
    pending := (v.pending.complete id r).1 }

/-- What steps do to a view. -/
inductive Effect (v : View) : PoolStep → PoolAnswer → View → Prop
  | quiet {s : PoolStep} {a : PoolAnswer} : s.isQuiet = true → Effect v s a v
  | dialed {n : Nat} {now : Instant} : v.reader n = none →
      Effect v (.dialed n now) .nothing { v with reader := update v.reader n (some .reading) }
  | started {n : Nat} {id : UInt32} :
      Effect v (.startSend n id) (.sending v.nextSend)
        { v with
          writing := update v.writing n ((v.writing n).insert id)
          sends := update v.sends v.nextSend (some (n, id))
          nextSend := v.nextSend + 1 }
  | written {s n : Nat} {id : UInt32} {now : Instant} : v.sends s = some (n, id) →
      Effect v (.endSend s .written now) (.sent (.ok v.pending.nextHandle)) (v.register s n id)
  | failed {s n : Nat} {id : UInt32} {t : PoolStep} {a : PoolAnswer} : t.fails s = true →
      v.sends s = some (n, id) →
      Effect v t a
        { v with
          writing := update v.writing n ((v.writing n).filter (· ≠ id))
          sends := update v.sends s none }
  | took {n : Nat} {i : Inbound} {now : Instant} {id : UInt32} {r : Response} : v.reader n = some .reading →
      Conveys i id r →
      Effect v (.receive n i now) .nothing { v with reader := update v.reader n (some (.holding id r)) }
  | handed {n : Nat} {id : UInt32} {r : Response} : v.reader n = some (.holding id r) → id ∉ v.writing n →
      id ∈ v.outstanding n → Effect v (.handOver n) .nothing (v.handOn n id r)
  | discarded {n : Nat} {id : UInt32} {r : Response} : v.reader n = some (.holding id r) → id ∉ v.writing n →
      id ∉ v.outstanding n →
      Effect v (.handOver n) .nothing { v with reader := update v.reader n (some .reading) }
  | finished {n : Nat} : v.reader n = some .reading →
      Effect v (.endReading n) .nothing
        { v with
          reader := update v.reader n (some .finished)
          pending := (v.pending.removeOwnedBy (· == n)).1 }
  | read {s : PoolStep} {h : Nat} {o : Outcome} : s.reads? = some h → v.pending.outcome? h = some o →
      Effect v s (.outcome o) { v with pending := v.pending.drop h }
  | expired {h after : Nat} {x : Handle} : v.pending.handles.get? h = some x → v.pending.outcome? h = none →
      Effect v (.expire h after) (.outcome (.error (.timeout after)))
        { v with pending := (v.pending.remove x.requestId).1.drop h }
  | dropped {h : Nat} : Effect v (.drop h) .nothing { v with pending := v.pending.drop h }
  | cleared : Effect v .clear .nothing { v with pending := v.pending.clear }

/-- Connections come about by dialing and stay. -/
theorem Effect.reader_none {v w : View} {s : PoolStep} {a : PoolAnswer} (he : Effect v s a w) (n : Nat) :
    w.reader n = none ↔ v.reader n = none ∧ ∀ now, s ≠ .dialed n now := by
  cases he with
  | quiet hs => exact ⟨fun h => ⟨h, fun now he => by subst he; cases hs⟩, fun h => h.1⟩
  | failed hs => exact ⟨fun h => ⟨h, fun now he => by subst he; cases hs⟩, fun h => h.1⟩
  | read hs => exact ⟨fun h => ⟨h, fun now he => by subst he; cases hs⟩, fun h => h.1⟩
  | started | written | expired | dropped | cleared => exact ⟨fun h => ⟨h, nofun⟩, fun h => h.1⟩
  | @dialed m now =>
    by_cases hm : n = m
    · subst hm
      simp
    · simp only [Function.update_of_ne hm]
      exact ⟨fun h => ⟨h, fun now he => hm (PoolStep.dialed.inj he).1.symm⟩, fun h => h.1⟩
  | @took m _ _ _ _ hr | @handed m _ _ hr | @discarded m _ _ hr | @finished m hr =>
    by_cases hm : n = m
    · subst hm
      simp [View.handOn, hr]
    · simp only [View.handOn, Function.update_of_ne hm]
      exact ⟨fun h => ⟨h, nofun⟩, fun h => h.1⟩

/-- Sends come about by starting. -/
theorem Effect.sends_some {v w : View} {s : PoolStep} {a : PoolAnswer} (he : Effect v s a w) {k : Nat}
    {x : Nat × UInt32} (hx : w.sends k = some x) :
    v.sends k = some x ∨ s = .startSend x.1 x.2 ∧ a = .sending v.nextSend ∧ k = v.nextSend := by
  cases he with
  | started =>
    simp only [Function.update_apply] at hx
    split at hx
    · rename_i hk
      cases hx
      exact .inr ⟨rfl, rfl, hk⟩
    · exact .inl hx
  | written | failed =>
    simp only [View.register, Function.update_apply] at hx
    split at hx
    · cases hx
    · exact .inl hx
  | _ => exact .inl hx

/-- A send that begins is the next one. -/
theorem Effect.of_startSend {v w : View} {n : Nat} {id : UInt32} {a : PoolAnswer} (he : Effect v (.startSend n id) a w) :
    a = .sending v.nextSend ∧ w.nextSend = v.nextSend + 1 := by
  cases he with
  | started => exact ⟨rfl, rfl⟩
  | quiet hq => cases hq
  | failed hf => cases hf
  | read hs => cases hs

/-- A request that has been written waits for its response. -/
theorem Effect.of_written {v w : View} {s : Nat} {now : Instant} {a : PoolAnswer}
    (he : Effect v (.endSend s .written now) a w) :
    ∃ n id, v.sends s = some (n, id) ∧ a = .sent (.ok v.pending.nextHandle) ∧ w = v.register s n id := by
  cases he with
  | written hx => exact ⟨_, _, hx, rfl, rfl⟩
  | quiet hq => cases hq
  | failed hf => cases hf
  | read hs => cases hs

/-- Steps by which a send begins or its request is written. -/
def PoolStep.sends : PoolStep → Bool
  | .startSend .. => true
  | .endSend _ .written _ => true
  | _ => false

theorem PoolStep.sends_of_isQuiet {s : PoolStep} (h : s.isQuiet = true) : s.sends = false := by
  cases s <;> first | rfl | cases h

theorem PoolStep.sends_of_fails {s : PoolStep} {k : Nat} (h : s.fails k = true) : s.sends = false := by
  cases s with
  | endSend j result now => cases result <;> first | rfl | cases h
  | _ => first | rfl | cases h

theorem PoolStep.sends_of_reads? {s : PoolStep} {h : Nat} (hs : s.reads? = some h) : s.sends = false := by
  cases s <;> first | rfl | cases hs

theorem PoolStep.not_quiet_of_reads? {s : PoolStep} {h : Nat} (hs : s.reads? = some h) :
    s.isQuiet = false ∧ ∀ k, s.fails k = false := by
  cases s <;> first | exact ⟨rfl, fun _ => rfl⟩ | cases hs

/-- A step that gives no request to wait for and no response to anybody. -/
structure Plain (v : View) (s : PoolStep) (w : View) : Prop where
  outstanding : w.outstanding = v.outstanding
  loses : Pending.Loses v.pending w.pending
  unwritten : ∀ k now, s ≠ .endSend k .written now

/-- Requests come to wait by being written, and get responses by being handed them. -/
theorem Effect.plain_or {v w : View} {s : PoolStep} {a : PoolAnswer} (he : Effect v s a w) :
    Plain v s w ∨
      (∃ k n id now, s = .endSend k .written now ∧ a = .sent (.ok v.pending.nextHandle) ∧
        v.sends k = some (n, id) ∧ w = v.register k n id) ∨
      ∃ n id r, s = .handOver n ∧ v.reader n = some (.holding id r) ∧ id ∉ v.writing n ∧
        id ∈ v.outstanding n ∧ w = v.handOn n id r := by
  have hne : ∀ {s : PoolStep}, s.sends = false → ∀ k now, s ≠ .endSend k .written now := by
    rintro s hs k now rfl
    cases hs
  cases he with
  | written hx => exact .inr (.inl ⟨_, _, _, _, rfl, rfl, hx, rfl⟩)
  | handed hr hw ho => exact .inr (.inr ⟨_, _, _, rfl, hr, hw, ho, rfl⟩)
  | quiet hs => exact .inl ⟨rfl, .refl _, hne (s.sends_of_isQuiet hs)⟩
  | failed hs => exact .inl ⟨rfl, .refl _, hne (s.sends_of_fails hs)⟩
  | read hs => exact .inl ⟨rfl, Pending.loses_drop _ _, hne (s.sends_of_reads? hs)⟩
  | expired => exact .inl ⟨rfl, (Pending.loses_remove _ _).trans (Pending.loses_drop _ _), nofun⟩
  | dropped => exact .inl ⟨rfl, Pending.loses_drop _ _, nofun⟩
  | cleared => exact .inl ⟨rfl, Pending.loses_removeAll _ _, nofun⟩
  | finished => exact .inl ⟨rfl, Pending.loses_removeAll _ _, nofun⟩
  | dialed | started | took | discarded => exact .inl ⟨rfl, .refl _, nofun⟩

namespace Pool

variable {p q : Pool}

/-- A number that is being dialed has no connection yet, numbers to come are new, and sends have connections. -/
structure Numbered (p : Pool) : Prop where
  dialing : ∀ n, p.dials.contains n = true → p.view.reader n = none ∧ n < p.nextConnection
  below : ∀ n, p.view.reader n ≠ none → n < p.nextConnection
  sends : ∀ s n id, p.view.sends s = some (n, id) → p.view.reader n ≠ none

theorem numbered_empty : empty.Numbered :=
  ⟨fun _ h => (nomatch h), fun _ h => absurd rfl h, fun _ _ _ h => (nomatch h)⟩

theorem get_of_reader {n : Nat} (h : p.view.reader n ≠ none) : ∃ c, p.connections.get? n = some c := by
  cases hc : p.connections.get? n with
  | none => simp [view, hc] at h
  | some c => exact ⟨c, rfl⟩

/-! ## Changing one connection -/

theorem connections_update (p : Pool) (n m : Nat) (f : Connection → Connection) :
    (p.update n f).connections.get? m = if n = m then (p.connections.get? m).map f else p.connections.get? m :=
  Table.get?_modify p.connections n m f

theorem get_update {n : Nat} {c : Connection} (hc : p.connections.get? n = some c) (f : Connection → Connection) :
    (p.update n f).connections.get? n = some (f c) := by
  rw [connections_update, if_pos rfl, hc]
  rfl

theorem update_update (p : Pool) (n : Nat) (f g : Connection → Connection) :
    (p.update n f).update n g = p.update n fun c => g (f c) := by
  unfold update
  rw [Table.modify_modify]

/-- The view with a connection put in. -/
def viewWith (v : View) (n : Nat) (c : Connection) : View :=
  { v with
    writing := Function.update v.writing n c.writing
    outstanding := Function.update v.outstanding n c.outstanding
    reader := Function.update v.reader n (some c.reader) }

theorem view_update {n : Nat} {c : Connection} (hc : p.connections.get? n = some c) (f : Connection → Connection) :
    (p.update n f).view = viewWith p.view n (f c) := by
  have hu : ∀ m, (p.update n f).connections.get? m = if m = n then some (f c) else p.connections.get? m := by
    intro m
    rw [connections_update]
    by_cases hm : n = m
    · simp [← hm, hc]
    · simp [hm, Ne.symm hm]
  apply View.ext <;> try rfl
  all_goals
    funext m
    simp only [view, viewWith, hu, Function.update_apply]
    split <;> rfl

/-- A change of a connection that is nothing to the view. -/
def Idle (f : Connection → Connection) : Prop :=
  ∀ c, (f c).writing = c.writing ∧ (f c).outstanding = c.outstanding ∧ (f c).reader = c.reader

theorem view_update_idle {f : Connection → Connection} (hf : Idle f) (p : Pool) (n : Nat) :
    (p.update n f).view = p.view := by
  have hu : ∀ m {β : Type} (g : Connection → β), (∀ c, g (f c) = g c) →
      ((p.update n f).connections.get? m).map g = (p.connections.get? m).map g := by
    intro m β g hg
    rw [connections_update]
    split
    · cases p.connections.get? m with
      | none => rfl
      | some c => exact congrArg some (hg c)
    · rfl
  apply View.ext <;> try rfl
  · funext m; exact congrArg (·.getD []) (hu m _ fun c => (hf c).1)
  · funext m; exact congrArg (·.getD []) (hu m _ fun c => (hf c).2.1)
  · funext m; exact hu m _ fun c => (hf c).2.2

theorem idle_release : Idle Connection.release := by
  intro c
  unfold Connection.release
  split <;> exact ⟨rfl, rfl, rfl⟩

theorem idle_close : Idle Connection.close := fun _ => ⟨rfl, rfl, rfl⟩

/-- Whether a connection is closed or given back is nothing to the view. -/
theorem idle_close_or_release (b : Prop) [Decidable b] : Idle fun c => if b then c.close else c.release := by
  intro c
  split
  · exact idle_close c
  · exact idle_release c

/-! ## What the view has of a connection -/

section
variable {n : Nat} {c : Connection} (hc : p.connections.get? n = some c)
include hc

theorem view_writing : p.view.writing n = c.writing := by simp [view, hc]

theorem view_outstanding : p.view.outstanding n = c.outstanding := by simp [view, hc]

theorem view_reader : p.view.reader n = some c.reader := by simp [view, hc]

theorem update_writing : Function.update p.view.writing n c.writing = p.view.writing :=
  Function.update_eq_self_iff.mpr (view_writing hc).symm

theorem update_outstanding : Function.update p.view.outstanding n c.outstanding = p.view.outstanding :=
  Function.update_eq_self_iff.mpr (view_outstanding hc).symm

theorem update_reader : Function.update p.view.reader n (some c.reader) = p.view.reader :=
  Function.update_eq_self_iff.mpr (view_reader hc).symm

end

theorem view_sends {s : Nat} {x : Send} (h : p.sends.get? s = some x) :
    p.view.sends s = some (x.connection, x.requestId) := by
  simp [view, h]

theorem sends_set (p : Pool) (s : Nat) (x : Send) :
    (fun k => ((p.sends.set s x).get? k).map fun x => (x.connection, x.requestId)) =
      Function.update p.view.sends s (some (x.connection, x.requestId)) := by
  funext k
  simp only [Table.get?_set, Function.update_apply, view]
  by_cases hk : s = k
  · simp [hk]
  · simp [hk, Ne.symm hk]

theorem sends_erase (p : Pool) (s : Nat) :
    (fun k => ((p.sends.erase s).get? k).map fun x => (x.connection, x.requestId)) =
      Function.update p.view.sends s none := by
  funext k
  simp only [Table.get?_erase, Function.update_apply, view]
  by_cases hk : s = k
  · simp [hk]
  · simp [hk, Ne.symm hk]

/-! ## Sending -/

theorem effect_startSend {n : Nat} (id : UInt32) (h : p.connections.contains n = true) :
    Effect p.view (.startSend n id) (.sending p.nextSend) (p.startSend n id).1.view := by
  obtain ⟨c, hc⟩ := Option.isSome_iff_exists.mp h
  have hv : (p.startSend n id).1.view = { (p.update n (·.startWriting id)).view with
      sends := Function.update p.view.sends p.view.nextSend (some (n, id))
      nextSend := p.view.nextSend + 1 } := by
    rw [← sends_set p p.view.nextSend ⟨n, id, .queued⟩]
    rfl
  rw [hv, view_update hc]
  simp only [viewWith, Connection.startWriting, update_outstanding hc, update_reader hc, ← view_writing hc]
  exact .started

theorem effect_beginWrite {s : Nat} {x : Send} (h : p.sends.get? s = some x) :
    Effect p.view (.beginWrite s) .nothing (p.beginWrite s).view := by
  have hv : (p.beginWrite s).view =
      { (p.update x.connection fun c => { c with writerTaken := true }).view with
        sends := Function.update p.view.sends s (some (x.connection, x.requestId)) } := by
    unfold beginWrite
    rw [h, ← sends_set p s { x with phase := .started }]
    rfl
  have hi : Idle fun c => { c with writerTaken := true } := fun _ => ⟨rfl, rfl, rfl⟩
  rw [hv, view_update_idle hi, Function.update_eq_self_iff.mpr (view_sends h).symm]
  exact .quiet rfl

/-- A send that is taken out: its id is no longer being written. -/
theorem view_forget {s : Nat} {x : Send} {c : Connection} (hc : p.connections.get? x.connection = some c) :
    (p.forget s x).view = { p.view with
      writing := Function.update p.view.writing x.connection (c.writing.filter (· ≠ x.requestId))
      sends := Function.update p.view.sends s none } := by
  have hv : (p.forget s x).view = { (p.update x.connection fun c =>
      if x.phase = .started then { c.stopWriting x.requestId with writerTaken := false }
      else c.stopWriting x.requestId).view with sends := Function.update p.view.sends s none } := by
    rw [← sends_erase p s]
    rfl
  rw [hv, view_update hc]
  split <;> simp only [viewWith, Connection.stopWriting, update_outstanding hc, update_reader hc]

/-- A send that is not written, with its connection closed or given back. -/
theorem effect_unsent {s : Nat} {x : Send} {c : Connection} (h : p.sends.get? s = some x)
    (hc : p.connections.get? x.connection = some c) {f : Connection → Connection} (hf : Idle f) {t : PoolStep}
    (ht : t.fails s = true) (a : PoolAnswer) :
    Effect p.view t a ((p.update x.connection f).forget s x).view := by
  rw [view_forget (get_update hc f), view_update_idle hf, (hf c).1, ← view_writing hc]
  exact .failed ht (view_sends h)

theorem endSend_written {s : Nat} {x : Send} (h : p.sends.get? s = some x) (now : Instant) :
    p.endSend s .written now =
      ({ p.update x.connection (fun c => (c.touch now).expect x.requestId) with
          pending := (p.pending.insert x.requestId x.connection).1 }.forget s x,
        some (.ok p.pending.nextHandle)) := by
  unfold endSend
  rw [h, ← Pending.insert_handle p.pending x.requestId x.connection,
    ← update_update p x.connection (·.touch now) (·.expect x.requestId)]
  rfl

theorem effect_written {s : Nat} {x : Send} {c : Connection} (h : p.sends.get? s = some x)
    (hc : p.connections.get? x.connection = some c) (now : Instant) :
    Effect p.view (.endSend s .written now) (.sent (.ok p.pending.nextHandle)) (p.endSend s .written now).1.view := by
  rw [endSend_written h]
  have hv := view_forget (s := s) (get_update hc fun c => (c.touch now).expect x.requestId)
  rw [view_update hc] at hv
  have hq : ({ p.update x.connection (fun c => (c.touch now).expect x.requestId) with
      pending := (p.pending.insert x.requestId x.connection).1 }.forget s x).view =
    { ((p.update x.connection fun c => (c.touch now).expect x.requestId).forget s x).view with
      pending := (p.pending.insert x.requestId x.connection).1 } := rfl
  rw [hq, hv]
  simp only [viewWith, Function.update_idem, Connection.expect, Connection.touch, update_reader hc,
    ← view_writing hc, ← view_outstanding hc]
  exact .written (view_sends h)

theorem effect_endSend {s : Nat} {x : Send} {c : Connection} (h : p.sends.get? s = some x)
    (hc : p.connections.get? x.connection = some c) (result : WriteResult) (now : Instant) :
    ∃ q o, p.endSend s result now = (q, some o) ∧ Effect p.view (.endSend s result now) (.sent o) q.view := by
  have hs : ∀ r : WriteResult, r ≠ .written → (PoolStep.endSend s r now).fails s = true := by
    rintro (_ | _ | _ | _) hr
    · exact absurd rfl hr
    all_goals exact decide_eq_true rfl
  have hi : ∀ f : Connection → Connection, Idle f → Idle fun c => f (c.touch now) :=
    fun f hf c => hf (c.touch now)
  cases result with
  | written =>
    have he := effect_written h hc now
    rw [endSend_written h] at he
    exact ⟨_, _, endSend_written h now, he⟩
  | unencodable e =>
    refine ⟨_, _, by unfold endSend; rw [h], ?_⟩
    rw [update_update]
    exact effect_unsent h hc (hi _ idle_release) (hs (.unencodable e) nofun) _
  | failed reason =>
    refine ⟨_, _, by unfold endSend; rw [h], ?_⟩
    rw [update_update]
    exact effect_unsent h hc (hi _ idle_close) (hs (.failed reason) nofun) _
  | timedOut after =>
    refine ⟨_, _, by unfold endSend; rw [h], ?_⟩
    rw [update_update]
    exact effect_unsent h hc (hi _ (idle_close_or_release _)) (hs (.timedOut after) nofun) _

theorem effect_abandonSend {s : Nat} {x : Send} {c : Connection} (h : p.sends.get? s = some x)
    (hc : p.connections.get? x.connection = some c) :
    Effect p.view (.abandonSend s) .nothing (p.abandonSend s).view := by
  unfold abandonSend
  rw [h]
  exact effect_unsent h hc (idle_close_or_release _)
    (show (PoolStep.abandonSend s).fails s = true from decide_eq_true rfl) .nothing

/-! ## Reading -/

theorem reading_of_isReading {n : Nat} (h : p.isReading n = true) :
    ∃ c, p.connections.get? n = some c ∧ c.reader = .reading := by
  unfold isReading at h
  split at h
  · cases h
  · rename_i c hc
    split at h
    · rename_i hr
      exact ⟨c, hc, hr⟩
    · cases h

theorem effect_receive {n : Nat} (i : Inbound) (now : Instant) (h : p.isReading n = true) :
    Effect p.view (.receive n i now) .nothing (p.receive n i now).view := by
  obtain ⟨c, hc, hr⟩ := reading_of_isReading h
  cases hi : Connection.responseOf i with
  | none =>
    have hf : Idle (·.receive i now) := fun c => by
      simp only [Connection.receive, hi]
      exact ⟨rfl, rfl, rfl⟩
    unfold receive
    rw [view_update_idle hf]
    exact .quiet (by simp [PoolStep.isQuiet, hi])
  | some x =>
    obtain ⟨id, r⟩ := x
    unfold receive
    rw [view_update hc]
    simp only [viewWith, Connection.receive, hi, Connection.touch, update_writing hc, update_outstanding hc]
    exact .took (by rw [view_reader hc, hr]) (conveys_iff.mpr hi)

theorem holding_of_canHandOver {n : Nat} (h : p.canHandOver n = true) :
    ∃ c id r, p.connections.get? n = some c ∧ c.reader = .holding id r ∧ id ∉ c.writing := by
  unfold canHandOver at h
  split at h
  · cases h
  · rename_i c hc
    split at h
    · rename_i id r hr
      exact ⟨c, id, r, hc, hr, of_decide_eq_true h⟩
    · cases h

/-- What striking a request off is to the view. -/
theorem answered_fields (c : Connection) (id : UInt32) :
    (c.answered id).writing = c.writing ∧ (c.answered id).outstanding = c.outstanding.filter (· ≠ id) ∧
      (c.answered id).reader = c.reader := by
  unfold Connection.answered
  dsimp only
  split
  · exact idle_release { c with outstanding := c.outstanding.filter (· ≠ id) }
  · exact ⟨rfl, rfl, rfl⟩

theorem effect_handOver {n : Nat} (h : p.canHandOver n = true) :
    Effect p.view (.handOver n) .nothing (p.handOver n).view := by
  obtain ⟨c, id, r, hc, hr, hw⟩ := holding_of_canHandOver h
  have hv : p.view.reader n = some (.holding id r) := by rw [view_reader hc, hr]
  rw [← view_writing hc] at hw
  unfold handOver
  rw [hc]
  simp only [hr]
  split
  · rename_i ho
    rw [update_update]
    show Effect p.view (.handOver n) .nothing
      { (p.update n fun c => { c with reader := .reading }.answered id).view with
        pending := (p.pending.complete id r).1 }
    rw [view_update hc]
    obtain ⟨h₁, h₂, h₃⟩ := answered_fields { c with reader := .reading } id
    simp only [viewWith, h₁, h₂, h₃, update_writing hc]
    rw [← view_outstanding hc] at ho ⊢
    exact .handed hv hw ho
  · rename_i ho
    rw [view_update hc]
    simp only [viewWith, update_writing hc, update_outstanding hc]
    rw [← view_outstanding hc] at ho
    exact .discarded hv hw ho

theorem effect_endReading {n : Nat} (h : p.isReading n = true) :
    Effect p.view (.endReading n) .nothing (p.endReading n).view := by
  obtain ⟨c, hc, hr⟩ := reading_of_isReading h
  show Effect p.view (.endReading n) .nothing
    { (p.update n fun c => { c.close with reader := .finished }).view with
      pending := (p.pending.removeOwnedBy (· == n)).1 }
  rw [view_update hc]
  simp only [viewWith, Connection.close, update_writing hc, update_outstanding hc]
  exact .finished (by rw [view_reader hc, hr])

/-! ## Every step has its effect -/

theorem silently_eq_some {b : Bool} {x : Pool × PoolAnswer} (h : silently b q = some x) :
    b = true ∧ x = (q, .nothing) := by
  unfold silently at h
  split at h
  · rename_i hb
    exact ⟨hb, (Option.some.inj h).symm⟩
  · cases h

theorem view_acquire (p : Pool) (a : SocketAddress) : (p.acquire a).1.view = p.view := by
  unfold acquire
  split
  · rfl
  · dsimp only
    split
    · rename_i n _
      have hf : Idle fun c => { c with busy := true } := fun _ => ⟨rfl, rfl, rfl⟩
      exact view_update_idle hf { p with members := p.members.set a (p.openMembers a) } n
    · rfl

theorem view_checkConnection (p : Pool) (k : Nat) (now : Instant) (w : Bool) (n : Nat) :
    (p.checkConnection k now w n).view = p.view := by
  have hc : (p.update n (·.close)).view = p.view := view_update_idle idle_close p n
  unfold checkConnection
  split
  · rfl
  · split
    · rfl
    · split
      · split
        · rfl
        · exact hc
      · split
        · rfl
        · split
          · exact view_update_idle idle_release p n
          · exact hc

theorem view_shutdown (p : Pool) : p.shutdown.view = p.view := by
  apply View.ext <;> try rfl
  all_goals
    funext n
    simp only [view, shutdown, Table.get?_map, Option.map_map]
    rfl

theorem effect_dialed (hp : p.Numbered) {n : Nat} (now : Instant) (h : p.dials.contains n = true) :
    Effect p.view (.dialed n now) .nothing (p.dialed n now).view := by
  obtain ⟨a, ha⟩ := Option.isSome_iff_exists.mp h
  have hr := (hp.dialing n h).1
  have hn : p.connections.get? n = none := Option.map_eq_none_iff.mp hr
  have hv : (p.dialed n now).view =
      { p.view with reader := Function.update p.view.reader n (some .reading) } := by
    unfold dialed
    rw [ha]
    apply View.ext <;> try rfl
    all_goals
      funext m
      simp only [view, Table.get?_set, Function.update_apply]
      by_cases hm : n = m
      · simp [← hm, hn, Connection.opened]
      · simp [hm, Ne.symm hm]
  rw [hv]
  exact .dialed hr

/-- **Every step of a pool has its effect on the view, and no other.** -/
theorem effect_of_step (hp : p.Numbered) {s : PoolStep} {a : PoolAnswer} (h : p.step? s = some (q, a)) :
    Effect p.view s a q.view := by
  cases s with
  | acquire x =>
    have hq : (p.acquire x).1 = q := congrArg Prod.fst (Option.some.inj h)
    rw [← hq, view_acquire]
    exact .quiet rfl
  | dialed n now =>
    obtain ⟨hb, hx⟩ := silently_eq_some h
    cases hx
    exact effect_dialed hp now hb
  | dialFailed n =>
    obtain ⟨-, hx⟩ := silently_eq_some h
    cases hx
    exact .quiet rfl
  | startSend n id =>
    simp only [step?] at h
    split at h
    · rename_i hn
      cases h
      exact effect_startSend id hn
    · cases h
  | beginWrite s =>
    simp only [step?] at h
    split at h
    · rename_i x hs
      obtain ⟨-, hx⟩ := silently_eq_some h
      cases hx
      exact effect_beginWrite hs
    · cases h
  | endSend s result now =>
    simp only [step?] at h
    split at h
    · cases h
    · rename_i x hs
      obtain ⟨c, hc⟩ := get_of_reader (hp.sends s _ _ (view_sends hs))
      split at h
      · obtain ⟨q', o, hq, he⟩ := effect_endSend hs hc result now
        rw [hq] at h
        cases h
        exact he
      · cases h
  | abandonSend s =>
    obtain ⟨hb, hx⟩ := silently_eq_some h
    cases hx
    obtain ⟨x, hs⟩ := Option.isSome_iff_exists.mp hb
    obtain ⟨c, hc⟩ := get_of_reader (hp.sends s _ _ (view_sends hs))
    exact effect_abandonSend hs hc
  | receive n i now =>
    obtain ⟨hb, hx⟩ := silently_eq_some h
    cases hx
    exact effect_receive i now hb
  | handOver n =>
    obtain ⟨hb, hx⟩ := silently_eq_some h
    cases hx
    exact effect_handOver hb
  | endReading n =>
    obtain ⟨hb, hx⟩ := silently_eq_some h
    cases hx
    exact effect_endReading hb
  | release n =>
    obtain ⟨-, hx⟩ := silently_eq_some h
    cases hx
    rw [view_update_idle idle_release]
    exact .quiet rfl
  | close n =>
    obtain ⟨-, hx⟩ := silently_eq_some h
    cases hx
    rw [view_update_idle idle_close]
    exact .quiet rfl
  | checkConnection k now w n =>
    obtain ⟨-, hx⟩ := silently_eq_some h
    cases hx
    rw [view_checkConnection]
    exact .quiet rfl
  | prune a =>
    obtain ⟨-, hx⟩ := silently_eq_some h
    cases hx
    exact .quiet rfl
  | shutdown =>
    obtain ⟨-, hx⟩ := silently_eq_some h
    cases hx
    rw [view_shutdown]
    exact .quiet rfl
  | clear =>
    obtain ⟨-, hx⟩ := silently_eq_some h
    cases hx
    exact .cleared
  | poll k =>
    simp only [step?] at h
    split at h
    · rename_i t o hp
      cases h
      obtain ⟨ho, rfl⟩ := Pending.poll_eq_some hp
      exact .read rfl ho
    · cases h
  | expire k after =>
    simp only [step?] at h
    split at h
    · rename_i t o hp
      cases h
      rcases Pending.expire_eq_some hp with ⟨ho, rfl⟩ | ⟨ho, rfl, x, hx, rfl⟩
      · exact .read rfl ho
      · exact .expired hx ho
    · cases h
  | drop k =>
    obtain ⟨-, hx⟩ := silently_eq_some h
    cases hx
    exact .dropped

/-! ## Connections have numbers of their own -/

theorem dials_endSend (p : Pool) (s : Nat) (result : WriteResult) (now : Instant) :
    (p.endSend s result now).1.dials = p.dials ∧ (p.endSend s result now).1.nextConnection = p.nextConnection := by
  unfold endSend
  split
  · exact ⟨rfl, rfl⟩
  · cases result <;> exact ⟨rfl, rfl⟩

/-- What a step does to the numbers that are being dialed. -/
structure Dials (p q : Pool) (s : PoolStep) : Prop where
  dialing : ∀ n, q.dials.contains n = true → (∀ now, s ≠ .dialed n now) ∧
    (p.dials.contains n = true ∨ p.nextConnection = n ∧ n < q.nextConnection)
  next : p.nextConnection ≤ q.nextConnection

theorem dials_same {s : PoolStep} (hs : ∀ n now, s ≠ .dialed n now) (hd : q.dials = p.dials)
    (hn : q.nextConnection = p.nextConnection) : Dials p q s :=
  ⟨fun n h => ⟨hs n, .inl (hd ▸ h)⟩, Nat.le_of_eq hn.symm⟩

theorem dials_acquire (p : Pool) (a : SocketAddress) : Dials p (p.acquire a).1 (.acquire a) := by
  unfold acquire
  split
  · exact dials_same nofun rfl rfl
  · dsimp only
    split
    · exact dials_same nofun rfl rfl
    · refine ⟨fun n h => ⟨nofun, ?_⟩, Nat.le_succ _⟩
      rw [Table.contains, Table.get?_set] at h
      split at h
      · rename_i hn
        exact .inr ⟨hn, Nat.lt_succ_of_le (Nat.le_of_eq hn.symm)⟩
      · exact .inl h

theorem contains_erase {m n : Nat} (h : (p.dials.erase n).contains m = true) :
    n ≠ m ∧ p.dials.contains m = true := by
  rw [Table.contains, Table.get?_erase] at h
  split at h
  · cases h
  · rename_i hn
    exact ⟨hn, h⟩

theorem dials_of_step {s : PoolStep} {a : PoolAnswer} (h : p.step? s = some (q, a)) : Dials p q s := by
  cases s with
  | acquire x =>
    have hq : (p.acquire x).1 = q := congrArg Prod.fst (Option.some.inj h)
    exact hq ▸ dials_acquire p x
  | dialed n now =>
    obtain ⟨hb, hx⟩ := silently_eq_some h
    cases hx
    obtain ⟨x, hx⟩ := Option.isSome_iff_exists.mp hb
    unfold dialed
    rw [hx]
    refine ⟨fun m hm => ?_, Nat.le_refl _⟩
    obtain ⟨hne, hm⟩ := contains_erase hm
    exact ⟨fun _ he => hne (PoolStep.dialed.inj he).1, .inl hm⟩
  | dialFailed n =>
    obtain ⟨-, hx⟩ := silently_eq_some h
    cases hx
    exact ⟨fun m hm => ⟨(by simp), .inl (contains_erase hm).2⟩, Nat.le_refl _⟩
  | startSend n id =>
    simp only [step?] at h
    split at h <;> cases h
    exact dials_same (by simp) rfl rfl
  | beginWrite s =>
    simp only [step?] at h
    split at h
    · obtain ⟨-, hx⟩ := silently_eq_some h
      cases hx
      unfold beginWrite
      split <;> exact dials_same (by simp) rfl rfl
    · cases h
  | endSend s result now =>
    simp only [step?] at h
    split at h
    · cases h
    · split at h
      · split at h
        · rename_i q' x hq
          cases h
          have hd := dials_endSend p s result now
          rw [hq] at hd
          exact dials_same (by simp) hd.1 hd.2
        · cases h
      · cases h
  | poll k =>
    simp only [step?] at h
    split at h <;> cases h
    exact dials_same (by simp) rfl rfl
  | expire k after =>
    simp only [step?] at h
    split at h <;> cases h
    exact dials_same (by simp) rfl rfl
  | abandonSend s =>
    obtain ⟨-, hx⟩ := silently_eq_some h
    cases hx
    unfold abandonSend
    split <;> exact dials_same (by simp) rfl rfl
  | handOver n =>
    obtain ⟨hb, hx⟩ := silently_eq_some h
    cases hx
    obtain ⟨c, id, r, hc, hr, -⟩ := holding_of_canHandOver hb
    unfold handOver
    rw [hc]
    simp only [hr]
    split <;> exact dials_same (by simp) rfl rfl
  | checkConnection k now w n =>
    obtain ⟨-, hx⟩ := silently_eq_some h
    cases hx
    unfold checkConnection
    repeat' split
    all_goals exact dials_same (by simp) rfl rfl
  | receive | endReading | release | close | prune | shutdown | clear | drop =>
    obtain ⟨-, hx⟩ := silently_eq_some h
    cases hx
    exact dials_same (by simp) rfl rfl

/-- Numbers stay numbers of one connection. -/
theorem Numbered.step (hp : p.Numbered) {s : PoolStep} {a : PoolAnswer} (h : p.step? s = some (q, a)) :
    q.Numbered := by
  have hd := dials_of_step h
  have he := effect_of_step hp h
  refine ⟨fun n hn => ?_, fun n hn => ?_, fun k n id hx hn => ?_⟩
  · obtain ⟨hs, hn | ⟨hn, hlt⟩⟩ := hd.dialing n hn
    · obtain ⟨hr, hlt⟩ := hp.dialing n hn
      exact ⟨(he.reader_none n).mpr ⟨hr, hs⟩, Nat.lt_of_lt_of_le hlt hd.next⟩
    · have hr : p.view.reader n = none := by
        by_contra hr
        exact absurd (hp.below n hr) (by omega)
      exact ⟨(he.reader_none n).mpr ⟨hr, hs⟩, hlt⟩
  · by_cases hr : p.view.reader n = none
    · have hs : ∃ now, s = .dialed n now := by
        by_contra hs
        exact hn ((he.reader_none n).mpr ⟨hr, fun now h => hs ⟨now, h⟩⟩)
      obtain ⟨now, rfl⟩ := hs
      obtain ⟨hb, -⟩ := silently_eq_some h
      exact Nat.lt_of_lt_of_le (hp.dialing n hb).2 hd.next
    · exact Nat.lt_of_lt_of_le (hp.below n hr) hd.next
  · obtain ⟨hr, -⟩ := (he.reader_none n).mp hn
    rcases he.sends_some hx with hx | ⟨rfl, -⟩
    · exact hp.sends k n id hx hr
    · simp only [step?] at h
      split at h
      · rename_i hc
        obtain ⟨c, hc⟩ := Option.isSome_iff_exists.mp hc
        rw [view_reader hc] at hr
        cases hr
      · cases h

end Pool

end Rpc
