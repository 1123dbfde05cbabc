import Rpc.Proofs.Client.Stock

/-!
# One health pass

A pass looks once at each connection in the pools. What becomes of the connection depends on nothing else in the pool
but the requests that wait, and those the pass leaves alone.

- `Connection.looked`: what a look makes of a connection; `Connection.Treated`: what that means for it;
- `Pool.Looked`: the pool after looks at some connections, `Pool.Passed`: and after the lists of some addresses;
- `Pool.get?_checkHealth`, `Pool.listed_checkHealth`: connections and lists after a pass;
- `Pool.pass_frees_the_abandoned`: the main statement.
-/

namespace Rpc

namespace Connection

/-- What a look makes of a connection, on which requests may wait. -/
def looked (reclaimAfter : Nat) (now : Instant) (probeWritten waits : Bool) (c : Connection) : Connection :=
  if c.closed then c
  else if !c.busy then if probeWritten then c else c.close
  else if c.quietFor now < reclaimAfter || waits then c
  else if c.outstanding.isEmpty then c.release else c.close

/-- What a look means for a connection. -/
structure Treated (reclaimAfter : Nat) (now : Instant) (probeWritten : Bool) (waits : Prop) (c d : Connection) :
    Prop where
  /-- At most its flags change. -/
  flags : d = { c with busy := d.busy, closed := d.closed }
  closed : c.closed = true → d = c
  /-- One that is in use stays so. -/
  live : c.busy = true → waits ∨ c.quietFor now < reclaimAfter → d = c
  /-- One that nobody gave back is given back, if it owes nothing. -/
  reclaimed : c.closed = false → c.busy = true → ¬ waits → reclaimAfter ≤ c.quietFor now → c.outstanding = [] →
    d.closed = false ∧ d.busy = false
  /-- Else it is closed. -/
  owing : c.closed = false → c.busy = true → ¬ waits → reclaimAfter ≤ c.quietFor now → c.outstanding ≠ [] →
    d.closed = true
  idle : c.closed = false → c.busy = false → (d.closed = true ↔ probeWritten = false)
  probed : c.closed = false → c.busy = false → probeWritten = true → d = c

variable {reclaimAfter : Nat} {now : Instant} {probeWritten waits : Bool} {c : Connection}

theorem looked_of_closed (h : c.closed = true) : c.looked reclaimAfter now probeWritten waits = c := by
  rw [looked, if_pos h]

theorem looked_of_idle (hopen : c.closed = false) (hidle : c.busy = false) :
    c.looked reclaimAfter now probeWritten waits = if probeWritten then c else c.close := by
  simp only [looked, hopen, hidle, Bool.not_false, Bool.false_eq_true, if_true, if_false]

theorem looked_of_live (hbusy : c.busy = true) (h : waits = true ∨ c.quietFor now < reclaimAfter) :
    c.looked reclaimAfter now probeWritten waits = c := by
  have hlive : (decide (c.quietFor now < reclaimAfter) || waits) = true := by
    rw [Bool.or_eq_true, decide_eq_true_eq]
    exact h.symm
  simp only [looked, hbusy, hlive, Bool.not_true, Bool.false_eq_true, if_true, if_false, ite_self]

theorem looked_of_left (hopen : c.closed = false) (hbusy : c.busy = true) (hnone : waits = false)
    (hquiet : reclaimAfter ≤ c.quietFor now) :
    c.looked reclaimAfter now probeWritten waits =
      if c.outstanding = [] then { c with busy := false } else c.close := by
  simp only [looked, release, hopen, hbusy, hnone, Nat.not_lt.mpr hquiet, Bool.not_true, Bool.false_eq_true, if_false,
    decide_false, Bool.or_false, List.isEmpty_iff]

theorem treated_looked (c : Connection) {waits' : Prop} (hwaits : waits = true ↔ waits') :
    Treated reclaimAfter now probeWritten waits' c (c.looked reclaimAfter now probeWritten waits) where
  flags := by
    unfold looked release close
    repeat' split
    all_goals rfl
  closed := looked_of_closed
  live hbusy h := looked_of_live hbusy (h.imp_left hwaits.mpr)
  reclaimed hopen hbusy hnone hquiet howed := by
    rw [looked_of_left hopen hbusy (Bool.eq_false_iff.mpr (mt hwaits.mp hnone)) hquiet, if_pos howed]
    exact ⟨hopen, rfl⟩
  owing hopen hbusy hnone hquiet howed := by
    rw [looked_of_left hopen hbusy (Bool.eq_false_iff.mpr (mt hwaits.mp hnone)) hquiet, if_neg howed]
    rfl
  idle hopen hidle := by
    rw [looked_of_idle hopen hidle]
    cases probeWritten
    · exact ⟨fun _ => rfl, fun _ => rfl⟩
    · rw [if_pos rfl, hopen]
      exact ⟨nofun, nofun⟩
  probed hopen hidle hwritten := by rw [looked_of_idle hopen hidle, if_pos hwritten]

theorem Treated.address {d : Connection} {waits : Prop} (h : Treated reclaimAfter now probeWritten waits c d) :
    d.address = c.address := by
  rw [h.flags]

/-- Who is checked out after a look is in use. -/
theorem Treated.in_use {d : Connection} {waits : Prop} (h : Treated reclaimAfter now probeWritten waits c d)
    (hopen : d.closed = false) (hbusy : d.busy = true) : waits ∨ d.quietFor now < reclaimAfter := by
  by_cases hclosed : c.closed = true
  · rw [h.closed hclosed, hclosed] at hopen
    cases hopen
  rw [Bool.not_eq_true] at hclosed
  by_cases hidle : c.busy = false
  · cases probeWritten with
    | false => exact absurd ((h.idle hclosed hidle).mpr rfl) (Bool.eq_false_iff.mp hopen)
    | true =>
      rw [h.probed hclosed hidle rfl, hidle] at hbusy
      cases hbusy
  rw [Bool.not_eq_false] at hidle
  by_contra hleft
  rw [not_or, Nat.not_lt] at hleft
  rw [h.flags] at hleft
  by_cases howed : c.outstanding = []
  · exact absurd (h.reclaimed hclosed hidle hleft.1 hleft.2 howed).2 (Bool.eq_false_iff.not_left.mpr hbusy)
  · exact absurd (h.owing hclosed hidle hleft.1 hleft.2 howed) (Bool.eq_false_iff.mp hopen)

end Connection

namespace Pool

variable {p q : Pool} {a b : SocketAddress} {n m : Nat} {ns : List Nat} {reclaimAfter : Nat} {now : Instant}
  {probeWritten : Nat → Bool}

/-- A request waits on a connection. -/
def Waits (p : Pool) (n : Nat) : Prop := ∃ e ∈ p.pending.entries.values, e.owner = n

theorem anyOwnedBy_iff : p.pending.anyOwnedBy (· == n) = true ↔ p.Waits n := by
  simp only [Pending.anyOwnedBy, Waits, List.any_eq_true, beq_iff_eq]

/-- What a look at a connection makes of it. -/
def look (p : Pool) (reclaimAfter : Nat) (now : Instant) (probeWritten : Nat → Bool) (n : Nat) :
    Connection → Connection :=
  Connection.looked reclaimAfter now (probeWritten n) (p.pending.anyOwnedBy (· == n))

/-! ## The connections to one address -/

/-- What looks at some connections have done to a pool. -/
structure Looked (reclaimAfter : Nat) (now : Instant) (probeWritten : Nat → Bool) (p : Pool) (ns : List Nat)
    (q : Pool) : Prop where
  pending : q.pending = p.pending
  members : q.members = p.members
  connection : ∀ n, q.connections.get? n =
    if n ∈ ns then (p.connections.get? n).map (p.look reclaimAfter now probeWritten n) else p.connections.get? n

/-- A look does to its connection what the requests that wait make of it, and nothing to others. -/
theorem looked_checkConnection (p : Pool) (reclaimAfter : Nat) (now : Instant) (probeWritten : Nat → Bool) (n : Nat) :
    Looked reclaimAfter now probeWritten p [n] (p.checkConnection reclaimAfter now (probeWritten n) n) := by
  have hothers : ∀ m, m ≠ n →
      (p.checkConnection reclaimAfter now (probeWritten n) n).connections.get? m = p.connections.get? m := by
    intro m hmn
    obtain ⟨hconn | hconn | ⟨-, -, -, -, -, hconn⟩, -⟩ := p.checkConnection_cases reclaimAfter now (probeWritten n) n
    · rw [hconn]
    · rw [hconn, connections_update, if_neg (Ne.symm hmn)]
    · rw [hconn, connections_update, if_neg (Ne.symm hmn)]
  have hself : (p.checkConnection reclaimAfter now (probeWritten n) n).connections.get? n =
      (p.connections.get? n).map (p.look reclaimAfter now probeWritten n) := by
    cases hc : p.connections.get? n with
    | none =>
      simp only [checkConnection, hc]
      rfl
    | some c =>
      simp only [checkConnection, hc, Option.map_some, look, Connection.looked]
      repeat' split
      all_goals first | exact hc | exact get_update hc _
  refine ⟨?_, ?_, fun m => ?_⟩
  · unfold checkConnection
    repeat' split
    all_goals rfl
  · unfold checkConnection
    repeat' split
    all_goals rfl
  · by_cases hmn : m = n
    · subst hmn
      rw [hself, if_pos (List.mem_singleton.mpr rfl)]
    · rw [hothers m hmn, if_neg (mt List.mem_singleton.mp hmn)]

theorem Looked.refl (p : Pool) : Looked reclaimAfter now probeWritten p [] p :=
  ⟨rfl, rfl, fun _ => rfl⟩

/-- Looks at one connection after the other, none of them twice. -/
theorem Looked.trans {r : Pool} {ms : List Nat} (h : Looked reclaimAfter now probeWritten p ns q)
    (h' : Looked reclaimAfter now probeWritten q ms r) (hnew : ∀ n ∈ ns, n ∉ ms) :
    Looked reclaimAfter now probeWritten p (ns ++ ms) r where
  pending := h'.pending.trans h.pending
  members := h'.members.trans h.members
  connection n := by
    have hlook : q.look reclaimAfter now probeWritten n = p.look reclaimAfter now probeWritten n := by
      unfold look
      rw [h.pending]
    rw [h'.connection, h.connection, hlook]
    by_cases hms : n ∈ ms
    · have hns : n ∉ ns := fun hns => hnew n hns hms
      rw [if_pos hms, if_neg hns, if_pos (List.mem_append_right _ hms)]
    · simp only [hms, if_false, List.mem_append, or_false]

theorem looked_foldl (hd : ns.Nodup) (p : Pool) : Looked reclaimAfter now probeWritten p ns
    (ns.foldl (fun p n => p.checkConnection reclaimAfter now (probeWritten n) n) p) := by
  induction ns generalizing p with
  | nil => exact .refl p
  | cons n ns ih =>
    obtain ⟨hnew, hd⟩ := List.nodup_cons.mp hd
    refine (looked_checkConnection p reclaimAfter now probeWritten n).trans (ih hd _) fun m hm => ?_
    rw [List.mem_singleton.mp hm]
    exact hnew

/-! ## One address after the other -/

/-- What a pass has done to a pool once it has been at some addresses. -/
structure Passed (reclaimAfter : Nat) (now : Instant) (probeWritten : Nat → Bool) (p : Pool)
    (done : List SocketAddress) (q : Pool) : Prop where
  pending : q.pending = p.pending
  connection : ∀ n, q.connections.get? n =
    if ∃ a ∈ done, n ∈ p.listed a then (p.connections.get? n).map (p.look reclaimAfter now probeWritten n)
    else p.connections.get? n
  listed : ∀ a, q.listed a = if a ∈ done then (p.listed a).filter q.isOpen else p.listed a

theorem Passed.refl (p : Pool) : Passed reclaimAfter now probeWritten p [] p where
  pending := rfl
  connection _ := (if_neg fun ⟨_, h, _⟩ => nomatch h).symm
  listed _ := (if_neg List.not_mem_nil).symm

theorem listed_prune (p : Pool) (a b : SocketAddress) :
    (p.prune a).listed b = if a = b then (p.listed b).filter p.isOpen else p.listed b := by
  unfold listed prune
  dsimp only
  rw [Table.get?_modify]
  split
  · cases p.members.get? b <;> rfl
  · rfl

/-- **One address.** The pass goes on to an address at which it has not been. -/
theorem Passed.checkAddress (hp : p.Filed) {done : List SocketAddress}
    (h : Passed reclaimAfter now probeWritten p done q) (hnew : a ∉ done) :
    Passed reclaimAfter now probeWritten p (done ++ [a]) (checkAddress reclaimAfter now probeWritten q a) := by
  have hlisted : (q.members.get? a).getD [] = p.listed a := by
    have hsame := h.listed a
    rwa [if_neg hnew] at hsame
  have hlooked : Looked reclaimAfter now probeWritten q (p.listed a) _ := looked_foldl (hp.nodup a) q
  unfold Pool.checkAddress
  rw [hlisted]
  generalize (p.listed a).foldl (fun p n => p.checkConnection reclaimAfter now (probeWritten n) n) q = r at hlooked ⊢
  -- A connection in another list is not looked at.
  have hother : ∀ b, b ≠ a → ∀ n ∈ p.listed b, r.connections.get? n = q.connections.get? n := by
    intro b hba n hb
    rw [hlooked.connection, if_neg fun ha => hba (hp.unique hb ha)]
  refine ⟨hlooked.pending.trans h.pending, fun n => ?_, fun b => ?_⟩
  · change r.connections.get? n = _
    by_cases ha : n ∈ p.listed a
    · have hbefore : ¬ ∃ b ∈ done, n ∈ p.listed b := fun ⟨b, hb, hn⟩ => hnew (hp.unique hn ha ▸ hb)
      have hlook : q.look reclaimAfter now probeWritten n = p.look reclaimAfter now probeWritten n := by
        unfold look
        rw [h.pending]
      rw [hlooked.connection, if_pos ha, h.connection, if_neg hbefore, hlook,
        if_pos ⟨a, List.mem_append_right _ (List.mem_singleton.mpr rfl), ha⟩]
    · have hiff : (∃ b ∈ done ++ [a], n ∈ p.listed b) ↔ ∃ b ∈ done, n ∈ p.listed b := by
        constructor
        · rintro ⟨b, hb, hn⟩
          rcases List.mem_append.mp hb with hb | hb
          · exact ⟨b, hb, hn⟩
          · exact absurd (List.mem_singleton.mp hb ▸ hn) ha
        · rintro ⟨b, hb, hn⟩
          exact ⟨b, List.mem_append_left _ hb, hn⟩
      rw [hlooked.connection, if_neg ha, h.connection]
      simp only [hiff]
  · have hsame : r.listed b = q.listed b := by
      unfold Pool.listed
      rw [hlooked.members]
    rw [listed_prune, hsame, h.listed]
    by_cases hba : b = a
    · subst hba
      rw [if_pos rfl, if_neg hnew, if_pos (List.mem_append_right _ (List.mem_singleton.mpr rfl))]
      rfl
    · rw [if_neg (Ne.symm hba)]
      by_cases hb : b ∈ done
      · rw [if_pos hb, if_pos (List.mem_append_left _ hb)]
        refine List.filter_congr fun n hn => ?_
        change q.isOpen n = r.isOpen n
        unfold Pool.isOpen
        rw [hother b hba n hn]
      · rw [if_neg hb, if_neg fun h => (List.mem_append.mp h).elim hb fun h => hba (List.mem_singleton.mp h)]

/-- **The whole pass** goes from one address to the next. -/
theorem Passed.foldl (hp : p.Filed) {done as : List SocketAddress} (hd : (done ++ as).Nodup)
    (h : Passed reclaimAfter now probeWritten p done q) :
    Passed reclaimAfter now probeWritten p (done ++ as)
      (as.foldl (Pool.checkAddress reclaimAfter now probeWritten) q) := by
  induction as generalizing done q with
  | nil => rwa [List.append_nil]
  | cons a as ih =>
    have hnew : a ∉ done := fun hmem => (List.nodup_append.mp hd).2.2 a hmem a List.mem_cons_self rfl
    rw [List.append_cons] at hd ⊢
    exact ih hd (h.checkAddress hp hnew)

theorem passed_checkHealth (hp : p.Filed) (reclaimAfter : Nat) (now : Instant) (probeWritten : Nat → Bool) :
    Passed reclaimAfter now probeWritten p p.members.keys (p.checkHealth reclaimAfter now probeWritten) :=
  Passed.foldl hp hp.keys (.refl p)

/-- A list is that of an address that was asked for. -/
theorem mem_keys_of_listed (h : n ∈ p.listed a) : a ∈ p.members.keys := by
  unfold listed at h
  cases hm : p.members.get? a with
  | none =>
    rw [hm] at h
    cases h
  | some ns => exact List.mem_map.mpr ⟨_, Table.mem_of_find hm, rfl⟩

/-! ## What is there after a pass -/

/-- Every connection has been looked at, or is closed, which comes to the same. -/
theorem get?_checkHealth (hp : p.Filed) (reclaimAfter : Nat) (now : Instant) (probeWritten : Nat → Bool) (n : Nat) :
    (p.checkHealth reclaimAfter now probeWritten).connections.get? n =
      (p.connections.get? n).map (p.look reclaimAfter now probeWritten n) := by
  rw [(passed_checkHealth hp reclaimAfter now probeWritten).connection]
  split
  · rfl
  · next hnot =>
    cases hc : p.connections.get? n with
    | none => rfl
    | some c =>
      have hclosed : c.closed = true := by
        by_contra hopen
        have hmem := hp.member n c hc (Bool.eq_false_iff.mpr hopen)
        exact hnot ⟨_, mem_keys_of_listed hmem, hmem⟩
      rw [Option.map_some, look, Connection.looked_of_closed hclosed]

theorem listed_checkHealth (hp : p.Filed) (reclaimAfter : Nat) (now : Instant) (probeWritten : Nat → Bool)
    (a : SocketAddress) : (p.checkHealth reclaimAfter now probeWritten).listed a =
      (p.listed a).filter (p.checkHealth reclaimAfter now probeWritten).isOpen := by
  rw [(passed_checkHealth hp reclaimAfter now probeWritten).listed]
  split
  · rfl
  · next hnot =>
    have hnone : p.listed a = [] := List.eq_nil_iff_forall_not_mem.mpr fun _ hn => hnot (mem_keys_of_listed hn)
    rw [hnone, List.filter_nil]

/-- **A health pass frees what was abandoned and nothing else.** It does not touch the requests that wait. A connection
that is in use stays as it is; one that was checked out and nobody uses is given back, or closed if it owes a response;
an idle one is closed exactly if its probe could not be written. The lists hold the connections that are open after
it. -/
theorem pass_frees_the_abandoned (hp : p.Filed) (hq : p.checkHealth reclaimAfter now probeWritten = q) :
    q.pending = p.pending ∧
    (∀ n, (q.connections.get? n).isSome = (p.connections.get? n).isSome) ∧
    (∀ n c d, p.connections.get? n = some c → q.connections.get? n = some d →
      c.Treated reclaimAfter now (probeWritten n) (p.Waits n) d) ∧
    (∀ n d, q.connections.get? n = some d → d.closed = false → d.busy = true →
      q.Waits n ∨ d.quietFor now < reclaimAfter) ∧
    ∀ a n, n ∈ q.listed a ↔ ∃ d, q.connections.get? n = some d ∧ d.address = a ∧ d.closed = false := by
  subst hq
  have hget := get?_checkHealth hp reclaimAfter now probeWritten
  have hpending := (passed_checkHealth hp reclaimAfter now probeWritten).pending
  have hlisted := listed_checkHealth hp reclaimAfter now probeWritten
  generalize p.checkHealth reclaimAfter now probeWritten = q at hget hpending hlisted ⊢
  have htreated : ∀ n d, q.connections.get? n = some d → ∃ c, p.connections.get? n = some c ∧
      c.Treated reclaimAfter now (probeWritten n) (p.Waits n) d := by
    intro n d hd
    rw [hget] at hd
    obtain ⟨c, hc, rfl⟩ := Option.map_eq_some_iff.mp hd
    exact ⟨c, hc, Connection.treated_looked c anyOwnedBy_iff⟩
  refine ⟨hpending, fun n => ?_, fun n c d hc hd => ?_, fun n d hd hopen hbusy => ?_, fun a n => ?_⟩
  · rw [hget, Option.isSome_map]
  · obtain ⟨c', hc', ht⟩ := htreated n d hd
    cases hc.symm.trans hc'
    exact ht
  · obtain ⟨c, -, ht⟩ := htreated n d hd
    unfold Waits
    rw [hpending]
    exact ht.in_use hopen hbusy
  · rw [hlisted, List.mem_filter, isOpen_iff]
    constructor
    · rintro ⟨hmem, d, hd, hopen⟩
      obtain ⟨c, hc, ht⟩ := htreated n d hd
      obtain ⟨c', hc', haddress⟩ := hp.address a n hmem
      cases hc.symm.trans hc'
      exact ⟨d, hd, ht.address.trans haddress, hopen⟩
    · rintro ⟨d, hd, rfl, hopen⟩
      obtain ⟨c, hc, ht⟩ := htreated n d hd
      have hbefore : c.closed = false := by
        by_contra hclosed
        rw [Bool.not_eq_false] at hclosed
        rw [ht.closed hclosed, hclosed] at hopen
        cases hopen
      rw [ht.address]
      exact ⟨hp.member n c hc hbefore, d, hd, hopen⟩

/-- Four connections at a health pass: one that was never used, one that owes a response to nobody, an idle one, and one
on which a request waits. -/
def fourLeft : Run :=
  [(.acquire (.v4 0 80), .acquired (.dialing 0)), (.acquire (.v4 0 80), .acquired (.dialing 1)),
    (.acquire (.v4 0 81), .acquired (.dialing 2)), (.acquire (.v4 0 81), .acquired (.dialing 3)),
    (.dialed 0 0, .nothing), (.dialed 1 0, .nothing), (.dialed 2 0, .nothing), (.dialed 3 0, .nothing),
    (.startSend 1 7, .sending 0), (.beginWrite 0, .nothing), (.endSend 0 .written 0, .sent (.ok 0)), (.drop 0, .nothing),
    (.startSend 3 9, .sending 1), (.beginWrite 1, .nothing), (.endSend 1 .written 0, .sent (.ok 1)),
    (.release 2, .nothing)]

theorem pass_frees_the_abandoned_four :
    ∃ p, Reaches empty fourLeft p ∧ p.Filed ∧ ∃ q, p.checkHealth 10 100 (fun _ => false) = q ∧
      (q.connections.values.map fun d => (d.busy, d.closed)) =
        [(false, false), (false, true), (false, true), (true, false)] ∧
      ∀ a n, n ∈ q.listed a ↔ ∃ d, q.connections.get? n = some d ∧ d.address = a ∧ d.closed = false := by
  have hp : ∃ p, Reaches empty fourLeft p ∧
      ((p.checkHealth 10 100 (fun _ => false)).connections.values.map fun d => (d.busy, d.closed)) =
        [(false, false), (false, true), (false, true), (true, false)] :=
    ⟨_, .next rfl (.next rfl (.next rfl (.next rfl (.next rfl (.next rfl (.next rfl (.next rfl (.next rfl (.next rfl
      (.next rfl (.next rfl (.next rfl (.next rfl (.next rfl (.next rfl (.refl _)))))))))))))))), rfl⟩
  obtain ⟨p, hp, hflags⟩ := hp
  have hfiled := (stocked_of_reaches stocked_empty numbered_empty hp).toFiled
  exact ⟨p, hp, hfiled, _, rfl, hflags, (pass_frees_the_abandoned hfiled rfl).2.2.2.2⟩

end Pool

end Rpc
