import Rpc.Proofs.Client.Stock

/-!
# A pool is no larger than its busiest moment

Connections come by dialing only, and a dial begins only where every open connection to the address is checked out. So
what is open and being dialed is never more than was checked out and being dialed at one time.

- `Pool.Stock.grows`: what one step does to the size of the stock;
- `Pool.grows_of_reaches`: what a run does to it;
- `Pool.Acquires`, `Pool.acquire_spec`: what one gets who asks for a connection;
- `Pool.open_within_peak`: the main statement.
-/

namespace Rpc

namespace Pool

variable {p q w : Pool} {a : SocketAddress} {n : Nat} {run : Run}

/-! ## One step -/

/-- With no idle connection in the list, all that are open are checked out. -/
theorem Stocked.busy (h : p.Stocked) (hidle : ∀ n ∈ p.listed a, p.isIdle n = false) {c : Connection}
    (hc : p.connections.get? n = some c) (haddress : c.address = a) (hopen : c.closed = false) : c.busy = true := by
  have hnot := hidle n (haddress ▸ h.member n c hc hopen)
  by_contra hbusy
  rw [(isIdle_iff hc).mpr ⟨hopen, Bool.eq_false_iff.mpr hbusy⟩] at hnot
  cases hnot

theorem Stocked.opened_le_inUse (h : p.Stocked) (hidle : ∀ n ∈ p.listed a, p.isIdle n = false) :
    p.opened a ≤ p.inUse a := by
  refine Table.total_le_total fun n c hmem => ?_
  by_cases hc : c.address = a ∧ c.closed = false
  · have hbusy := h.busy hidle ((Table.mem_entries_iff h.numbers).mp hmem) hc.1 hc.2
    exact Nat.le_of_eq (by rw [if_pos hc, if_pos ⟨hc.1, hc.2, hbusy⟩])
  · rw [if_neg hc]
    exact Nat.zero_le _

theorem size_dialed (hn : p.Numbered) (hdial : p.dials.get? n = some a) (now : Instant) (b : SocketAddress) :
    (p.dialed n now).opened b + (p.dialed n now).dialing b ≤ p.opened b + p.dialing b := by
  have hnone : p.connections.get? n = none :=
    Option.map_eq_none_iff.mp (hn.dialing n (Option.isSome_iff_exists.mpr ⟨a, hdial⟩)).1
  have hdials := Table.total_erase hdial fun x => if x = b then 1 else 0
  have hconnections := p.connections.total_set (fun c => if c.address = b ∧ c.closed = false then 1 else 0) n
    { Connection.opened a now with closed := p.shutDown }
  rw [hnone, Option.map_none, Option.getD_none, Nat.add_zero] at hconnections
  -- The new connection is open at most where its dial was.
  have hle : (if (Connection.opened a now).address = b ∧ p.shutDown = false then 1 else 0) ≤ if a = b then 1 else 0 := by
    by_cases hab : a = b
    · rw [if_pos hab]
      split <;> decide
    · exact Nat.le_of_eq (by rw [if_neg hab, if_neg fun h => hab h.1])
  rw [dialed_eq hdial]
  unfold opened dialing
  dsimp only at hconnections ⊢
  omega

/-- **One step.** The stock grows only when a dial begins, and then all that is open is checked out. -/
theorem Stock.grows {s : PoolStep} {x : PoolAnswer} (hs : Stock p s x q) (h : p.Stocked) (hn : p.Numbered)
    (a : SocketAddress) : q.opened a + q.dialing a ≤ p.opened a + p.dialing a ∨ q.opened a ≤ q.inUse a := by
  cases hs with
  | keeps hk => exact .inl (Nat.add_le_add (hk.opened a) (hk.dialing a))
  | @dialing b hidle =>
    by_cases hab : b = a
    · subst hab
      exact .inr (h.opened_le_inUse hidle)
    · have hset := p.dials.total_set (fun x => if x = a then 1 else 0) p.nextConnection b
      rw [if_neg hab, Nat.add_zero] at hset
      refine .inl (Nat.add_le_add_left ?_ (p.opened a))
      exact Nat.le_of_add_right_le (Nat.le_of_eq hset)
  | dialed hdial => exact .inl (size_dialed hn hdial _ a)

/-! ## Runs -/

/-- What a pool was at some moment of a run. -/
def Moment (p : Pool) (run : Run) (q w : Pool) : Prop :=
  ∃ past rest, run = past ++ rest ∧ Reaches p past w ∧ Reaches w rest q

/-- **A run.** What is open and being dialed is no more than at the beginning, or no more than was checked out and being
dialed at some moment. -/
theorem grows_of_reaches (h : p.Stocked) (hn : p.Numbered) (hr : Reaches p run q) (a : SocketAddress) :
    q.opened a + q.dialing a ≤ p.opened a + p.dialing a ∨
      ∃ w, Moment p run q w ∧ q.opened a + q.dialing a ≤ w.inUse a + w.dialing a := by
  induction hr with
  | refl => exact .inl (Nat.le_refl _)
  | @next p u q s x run hs hr ih =>
    rcases ih (h.step hn hs) (hn.step hs) with hle | ⟨w, ⟨past, rest, rfl, hpast, hrest⟩, hle⟩
    · rcases (stock_of_step hs).grows h hn a with hstep | hbusy
      · exact .inl (Nat.le_trans hle hstep)
      · -- The step began a dial: the moment is the one after it.
        exact .inr ⟨u, ⟨[(s, x)], run, rfl, .next hs (.refl u), hr⟩,
          Nat.le_trans hle (Nat.add_le_add_right hbusy _)⟩
    · exact .inr ⟨w, ⟨(s, x) :: past, rest, rfl, .next hs hpast, hrest⟩, hle⟩

/-- What comes of asking for a connection to an address. -/
inductive Acquires (p : Pool) (a : SocketAddress) : Prop
  | refused : p.shutDown = true → p.step? (.acquire a) = some (p, .acquired .refused) → Acquires p a
  /-- There is an open and idle one, which is checked out. -/
  | idle {q : Pool} {n : Nat} {c : Connection} : p.step? (.acquire a) = some (q, .acquired (.idle n)) →
      p.connections.get? n = some c → c.address = a → c.closed = false → c.busy = false →
      q.connections.get? n = some { c with busy := true } → Acquires p a
  /-- All that are open are checked out. -/
  | dialing {q : Pool} : p.step? (.acquire a) = some (q, .acquired (.dialing p.nextConnection)) →
      (∀ n c, p.connections.get? n = some c → c.address = a → c.closed = false → c.busy = true) → Acquires p a

/-- **Who asks for a connection** gets an open and idle one to the address if there is one, and only if there is none a
new one is dialed. After a shutdown there is neither. -/
theorem acquire_spec (h : p.Stocked) (a : SocketAddress) : p.Acquires a := by
  by_cases hdown : p.shutDown = true
  · exact .refused hdown (by simp only [step?, acquire, if_pos hdown])
  cases hfind : (p.openMembers a).find? p.isIdle with
  | some n =>
    have hmem : n ∈ p.listed a := (List.mem_filter.mp (List.mem_of_find?_eq_some hfind)).1
    obtain ⟨c, hc, hopen, hbusy⟩ := exists_idle (List.find?_some hfind)
    obtain ⟨d, hd, haddress⟩ := h.address a n hmem
    cases hc.symm.trans hd
    have hstep : p.step? (.acquire a) = some (Pool.update { p with members := p.members.set a (p.openMembers a) } n
        (fun c => { c with busy := true }), .acquired (.idle n)) := by
      simp only [step?, acquire, if_neg hdown]
      -- The list is set before it is looked through, which changes no connection.
      rw [show Pool.isIdle { p with members := p.members.set a (p.openMembers a) } = p.isIdle from rfl, hfind]
    exact .idle hstep hc haddress hopen hbusy (get_update hc _)
  | none =>
    have hidle : ∀ n ∈ p.listed a, p.isIdle n = false := by
      intro n hn
      rw [Bool.eq_false_iff]
      intro htrue
      exact List.find?_eq_none.mp hfind n (List.mem_filter.mpr ⟨hn, isOpen_of_isIdle htrue⟩) htrue
    have hstep : p.step? (.acquire a) = some ({ p with
        members := p.members.set a (p.openMembers a)
        dials := p.dials.set p.nextConnection a
        nextConnection := p.nextConnection + 1 }, .acquired (.dialing p.nextConnection)) := by
      simp only [step?, acquire, if_neg hdown]
      rw [show Pool.isIdle { p with members := p.members.set a (p.openMembers a) } = p.isIdle from rfl, hfind]
    exact .dialing hstep fun n c hc haddress hopen => h.busy hidle hc haddress hopen

/-! ## The main statement -/

/-- **A pool is no larger than its busiest moment.** What is open to an address and being dialed is no more than was
checked out and being dialed at one moment of the run. Who asks gets an open and idle connection, or begins to dial if
all that are open are checked out, or is refused after a shutdown. -/
theorem open_within_peak (hr : Reaches empty run p) (a : SocketAddress) :
    (∃ w, Moment empty run p w ∧ p.opened a + p.dialing a ≤ w.inUse a + w.dialing a) ∧ p.Acquires a := by
  refine ⟨?_, acquire_spec (stocked_of_reaches stocked_empty numbered_empty hr) a⟩
  rcases grows_of_reaches stocked_empty numbered_empty hr a with hle | hpeak
  · -- It has grown to nothing: the first moment will do.
    exact ⟨empty, ⟨[], run, rfl, .refl empty, hr⟩, Nat.le_trans hle (Nat.zero_le _)⟩
  · exact hpeak

/-- Two calls at the same time, and their connections after them. -/
def twoCalls : Run :=
  [(.acquire (.v4 0 80), .acquired (.dialing 0)), (.acquire (.v4 0 80), .acquired (.dialing 1)), (.dialed 0 0, .nothing),
    (.dialed 1 0, .nothing), (.release 0, .nothing), (.release 1, .nothing)]

theorem open_within_peak_two :
    ∃ p, Reaches empty twoCalls p ∧ p.opened (.v4 0 80) = 2 ∧ p.inUse (.v4 0 80) = 0 ∧
      ∃ w, Moment empty twoCalls p w ∧
        p.opened (.v4 0 80) + p.dialing (.v4 0 80) ≤ w.inUse (.v4 0 80) + w.dialing (.v4 0 80) := by
  have hp : ∃ p, Reaches empty twoCalls p ∧ p.opened (.v4 0 80) = 2 ∧ p.inUse (.v4 0 80) = 0 :=
    ⟨_, .next rfl (.next rfl (.next rfl (.next rfl (.next rfl (.next rfl (.refl _)))))), rfl, rfl⟩
  obtain ⟨p, hp, hopen, hbusy⟩ := hp
  exact ⟨p, hp, hopen, hbusy, (open_within_peak hp (.v4 0 80)).1⟩

end Pool

end Rpc
