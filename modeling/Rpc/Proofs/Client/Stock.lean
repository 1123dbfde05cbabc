import Rpc.Proofs.Client.InUse

/-!
# The stock of a pool

The connections of a pool as far as opening and closing goes: who is open, who is checked out, where each of them is
listed, and what is being dialed.

- `Pool.opened`, `Pool.inUse`, `Pool.dialing`: how many there are for an address;
- `Pool.Stock`: all that a step does to them. Either nothing comes and nothing is opened again (`Pool.Keeps`), or a dial
  begins, for which every listed connection has to be checked out, or a dialed connection comes about;
- `Pool.Filed`: each connection is listed once, under its own address, and all that are open are listed. Every step
  keeps it (`Pool.Stocked.step`).
-/

namespace Rpc

namespace Connection

/-- A change that leaves a connection at its address and does not open it again. -/
def Ages (f : Connection → Connection) : Prop :=
  ∀ c, (f c).address = c.address ∧ ((f c).closed = false → c.closed = false)

theorem ages_release : Ages release := by
  intro c
  unfold release
  split <;> exact ⟨rfl, id⟩

theorem ages_close : Ages close := fun _ => ⟨rfl, nofun⟩

theorem ages_close_or_release (b : Prop) [Decidable b] : Ages fun c => if b then c.close else c.release := by
  split
  · exact ages_close
  · exact ages_release

theorem ages_receive (i : Inbound) (now : Instant) : Ages (·.receive i now) := by
  intro c
  unfold receive
  dsimp only
  split <;> exact ⟨rfl, id⟩

theorem ages_answered (id : UInt32) : Ages (·.answered id) := by
  intro c
  unfold answered
  dsimp only
  split
  · exact ages_release _
  · exact ⟨rfl, fun h => h⟩

end Connection

namespace Pool

variable {p q r : Pool} {a : SocketAddress} {n m : Nat}

/-! ## Counts -/

/-- The numbers that stand in the list of an address. -/
def listed (p : Pool) (a : SocketAddress) : List Nat := (p.members.get? a).getD []

/-- How many connections to an address are open. -/
def opened (p : Pool) (a : SocketAddress) : Nat :=
  p.connections.total fun c => if c.address = a ∧ c.closed = false then 1 else 0

/-- How many of them are checked out. -/
def inUse (p : Pool) (a : SocketAddress) : Nat :=
  p.connections.total fun c => if c.address = a ∧ c.closed = false ∧ c.busy = true then 1 else 0

/-- How many connections to an address are being dialed. -/
def dialing (p : Pool) (a : SocketAddress) : Nat := p.dials.total fun x => if x = a then 1 else 0

theorem isOpen_iff : p.isOpen n = true ↔ ∃ c, p.connections.get? n = some c ∧ c.closed = false := by
  unfold isOpen
  cases p.connections.get? n <;> simp

theorem isOpen_of_isIdle (h : p.isIdle n = true) : p.isOpen n = true := by
  obtain ⟨c, hc, hopen, -⟩ := exists_idle h
  exact isOpen_iff.mpr ⟨c, hc, hopen⟩

theorem isOpen_update (m : Nat) {f : Connection → Connection} (hf : Connection.Ages f)
    (h : (p.update m f).isOpen n = true) : p.isOpen n = true := by
  obtain ⟨c, hc, hopen⟩ := isOpen_iff.mp h
  rw [connections_update] at hc
  split at hc
  · obtain ⟨d, hd, rfl⟩ := Option.map_eq_some_iff.mp hc
    exact isOpen_iff.mpr ⟨d, hd, (hf d).2 hopen⟩
  · exact isOpen_iff.mpr ⟨c, hc, hopen⟩

/-! ## Steps by which nothing comes -/

/-- No connection comes, none is opened again, and only closed ones leave the lists. -/
structure Keeps (p q : Pool) : Prop where
  numbers : q.connections.keys = p.connections.keys
  address : ∀ n, (q.connections.get? n).map (·.address) = (p.connections.get? n).map (·.address)
  isOpen : ∀ n, q.isOpen n = true → p.isOpen n = true
  opened : ∀ a, q.opened a ≤ p.opened a
  listed : ∀ a, (q.listed a).Sublist (p.listed a)
  stays : ∀ a, ∀ n ∈ p.listed a, q.isOpen n = true → n ∈ q.listed a
  keys : p.members.keys.Nodup → q.members.keys.Nodup
  running : q.shutDown = false → p.shutDown = false ∧ ∀ a, p.members.contains a = true → q.members.contains a = true
  dials : ∀ n a, q.dials.get? n = some a → p.dials.get? n = some a
  dialing : ∀ a, q.dialing a ≤ p.dialing a

namespace Keeps

theorem refl (p : Pool) : Keeps p p where
  numbers := rfl
  address _ := rfl
  isOpen _ h := h
  opened _ := Nat.le_refl _
  listed _ := List.Sublist.refl _
  stays _ _ h _ := h
  keys h := h
  running h := ⟨h, fun _ hc => hc⟩
  dials _ _ h := h
  dialing _ := Nat.le_refl _

theorem trans (h : Keeps p q) (h' : Keeps q r) : Keeps p r where
  numbers := h'.numbers.trans h.numbers
  address n := (h'.address n).trans (h.address n)
  isOpen n hn := h.isOpen n (h'.isOpen n hn)
  opened a := Nat.le_trans (h'.opened a) (h.opened a)
  listed a := (h'.listed a).trans (h.listed a)
  stays a n hn hopen := h'.stays a n (h.stays a n hn (h'.isOpen n hopen)) hopen
  keys hp := h'.keys (h.keys hp)
  running hr := have ⟨hq, hc'⟩ := h'.running hr; have ⟨hp, hc⟩ := h.running hq; ⟨hp, fun a ha => hc' a (hc a ha)⟩
  dials n a hn := h.dials n a (h'.dials n a hn)
  dialing a := Nat.le_trans (h'.dialing a) (h.dialing a)

/-- What a pool has besides its stock may change. -/
theorem same (hc : q.connections = p.connections) (hm : q.members = p.members) (hd : q.dials = p.dials)
    (hs : q.shutDown = p.shutDown) : Keeps p q := by
  have h := refl p
  cases p
  cases q
  cases hc
  cases hm
  cases hd
  cases hs
  exact ⟨h.numbers, h.address, h.isOpen, h.opened, h.listed, h.stays, h.keys, h.running, h.dials, h.dialing⟩

theorem update (p : Pool) (m : Nat) {f : Connection → Connection} (hf : Connection.Ages f) : Keeps p (p.update m f) where
  numbers := Table.keys_modify _ _ _
  address n := by
    rw [connections_update]
    split
    · cases p.connections.get? n with
      | none => rfl
      | some c => exact congrArg some (hf c).1
    · rfl
  isOpen _ h := isOpen_update m hf h
  opened a := by
    refine p.connections.total_modify_le m fun c => ?_
    obtain ⟨haddress, hopen⟩ := hf c
    by_cases h : (f c).address = a ∧ (f c).closed = false
    · exact Nat.le_of_eq (by rw [if_pos h, if_pos ⟨haddress ▸ h.1, hopen h.2⟩])
    · rw [if_neg h]
      exact Nat.zero_le _
  listed _ := List.Sublist.refl _
  stays _ _ h _ := h
  keys h := h
  running h := ⟨h, fun _ hc => hc⟩
  dials _ _ h := h
  dialing _ := Nat.le_refl _

/-- A list is set to those of its members that are open. -/
theorem setOpen (p : Pool) (a : SocketAddress) :
    Keeps p { p with members := p.members.set a (p.openMembers a) } := by
  have hlisted : ∀ b, Pool.listed { p with members := p.members.set a (p.openMembers a) } b =
      if a = b then (p.listed b).filter p.isOpen else p.listed b := by
    intro b
    unfold Pool.listed
    dsimp only
    rw [Table.get?_set]
    split
    · next hab =>
      subst hab
      rfl
    · rfl
  refine { refl p with
    listed := fun b => ?_, stays := fun b n hn hopen => ?_, keys := fun h => ?_, running := fun h => ?_ }
  · rw [hlisted]
    split
    · exact List.filter_sublist
    · exact List.Sublist.refl _
  · rw [hlisted]
    split
    · exact List.mem_filter.mpr ⟨hn, hopen⟩
    · exact hn
  · exact Table.nodup_keys_set h _ _
  · refine ⟨h, fun b hb => ?_⟩
    unfold Table.contains at hb ⊢
    dsimp only
    rw [Table.get?_set]
    split
    · rfl
    · exact hb

theorem prune (p : Pool) (a : SocketAddress) : Keeps p (p.prune a) := by
  cases hm : p.members.get? a with
  | none =>
    have hsame : p.prune a = p := by simp only [Pool.prune, Table.modify, hm]
    rw [hsame]
    exact refl p
  | some ns =>
    have hset : p.prune a = { p with members := p.members.set a (p.openMembers a) } := by
      simp only [Pool.prune, Table.modify, openMembers, hm, Option.getD_some]
    rw [hset]
    exact setOpen p a

theorem shutdown (p : Pool) : Keeps p p.shutdown := by
  have hclosed : ∀ n, p.shutdown.isOpen n = false := by
    intro n
    simp only [Pool.shutdown, Pool.isOpen, Table.get?_map, Option.map_map]
    cases p.connections.get? n <;> rfl
  refine { refl p with
    numbers := ?_, address := fun n => ?_, isOpen := fun n h => ?_, opened := fun a => ?_,
    listed := fun a => List.nil_sublist _, stays := fun a n _ h => ?_, keys := fun _ => List.nodup_nil,
    running := fun h => ?_ }
  · simp only [Pool.shutdown, Table.keys, Table.map, List.map_map]
    rfl
  · simp only [Pool.shutdown, Table.get?_map, Option.map_map]
    rfl
  · rw [hclosed] at h
    cases h
  · have hnone : p.shutdown.opened a = 0 := by
      apply Nat.eq_zero_of_not_pos
      intro hpos
      obtain ⟨n, c, hmem, hc⟩ := Table.exists_of_total_pos hpos
      obtain ⟨x, -, hx⟩ := List.mem_map.mp hmem
      cases hx
      simp at hc
    rw [hnone]
    exact Nat.zero_le _
  · rw [hclosed] at h
    cases h
  · cases h

theorem dialFailed (p : Pool) (n : Nat) : Keeps p (p.dialFailed n) := by
  refine { refl p with dials := fun m a hm => ?_, dialing := fun a => ?_ }
  · rw [Pool.dialFailed, Table.get?_erase] at hm
    split at hm
    · cases hm
    · exact hm
  · exact Table.total_filter_le _ _ _

theorem forget (p : Pool) (k : Nat) (x : Send) : Keeps p (p.forget k x) := by
  have hf : Connection.Ages fun c =>
      let c := c.stopWriting x.requestId
      if x.phase = .started then { c with writerTaken := false } else c := by
    intro c
    dsimp only
    split <;> exact ⟨rfl, id⟩
  exact (update p x.connection hf).trans (same rfl rfl rfl rfl)

theorem beginWrite (p : Pool) (k : Nat) : Keeps p (p.beginWrite k) := by
  unfold Pool.beginWrite
  split
  · exact refl p
  · exact (update p _ (f := fun c => { c with writerTaken := true }) fun _ => ⟨rfl, id⟩).trans (same rfl rfl rfl rfl)

theorem endSend (p : Pool) (k : Nat) (result : WriteResult) (now : Instant) : Keeps p (p.endSend k result now).1 := by
  unfold Pool.endSend
  split
  · exact refl p
  · next x _ =>
    have htouch : Keeps p (p.update x.connection (·.touch now)) := update p _ fun _ => ⟨rfl, id⟩
    cases result with
    | written =>
      have hexpect := htouch.trans (update _ x.connection (f := (·.expect x.requestId)) fun _ => ⟨rfl, id⟩)
      dsimp only
      refine Keeps.trans ?_ (forget _ k x)
      exact hexpect.trans (same rfl rfl rfl rfl)
    | unencodable => exact (htouch.trans (update _ _ Connection.ages_release)).trans (forget _ k x)
    | failed => exact (htouch.trans (update _ _ Connection.ages_close)).trans (forget _ k x)
    | timedOut => exact (htouch.trans (update _ _ (Connection.ages_close_or_release _))).trans (forget _ k x)

theorem abandonSend (p : Pool) (k : Nat) : Keeps p (p.abandonSend k) := by
  unfold Pool.abandonSend
  split
  · exact refl p
  · exact (update p _ (Connection.ages_close_or_release _)).trans (forget _ k _)

theorem handOver (p : Pool) (n : Nat) : Keeps p (p.handOver n) := by
  have hread : Keeps p (p.update n fun c => { c with reader := .reading }) := update p n fun _ => ⟨rfl, id⟩
  unfold Pool.handOver
  split
  · split
    · split
      · exact (hread.trans (update _ n (Connection.ages_answered _))).trans (same rfl rfl rfl rfl)
      · exact hread
    · exact refl p
  · exact refl p

theorem checkConnection (p : Pool) (reclaimAfter : Nat) (now : Instant) (written : Bool) (n : Nat) :
    Keeps p (p.checkConnection reclaimAfter now written n) := by
  have hprobe : Keeps p { p with nextProbe := p.nextProbe + 1 } := same rfl rfl rfl rfl
  unfold Pool.checkConnection
  repeat' split
  · exact refl p
  · exact refl p
  · exact hprobe
  · exact hprobe.trans (update _ n Connection.ages_close)
  · exact refl p
  · exact update p n Connection.ages_release
  · exact update p n Connection.ages_close

end Keeps

/-! ## All steps -/

/-- What a step does to the stock of a pool. -/
inductive Stock (p : Pool) : PoolStep → PoolAnswer → Pool → Prop
  | keeps {s : PoolStep} {x : PoolAnswer} {q : Pool} : Keeps p q → Stock p s x q
  /-- A dial begins, since every connection in the list is closed or checked out. -/
  | dialing {a : SocketAddress} : (∀ n ∈ p.listed a, p.isIdle n = false) →
      Stock p (.acquire a) (.acquired (.dialing p.nextConnection))
        { p with
          members := p.members.set a (p.openMembers a)
          dials := p.dials.set p.nextConnection a
          nextConnection := p.nextConnection + 1 }
  | dialed {n : Nat} {a : SocketAddress} {now : Instant} : p.dials.get? n = some a →
      Stock p (.dialed n now) .nothing (p.dialed n now)

theorem Stock.silently {b : Bool} {s : PoolStep} {x : PoolAnswer} {y : Pool} (h : Keeps p y)
    (hs : Pool.silently b y = some (q, x)) : Stock p s x q := by
  obtain ⟨-, hq⟩ := silently_eq_some hs
  cases hq
  exact .keeps h

/-- **Every step** keeps the stock, begins a dial, or ends one well. -/
theorem stock_of_step {s : PoolStep} {x : PoolAnswer} (h : p.step? s = some (q, x)) : Stock p s x q := by
  cases s with
  | acquire a =>
    simp only [step?, acquire] at h
    split at h
    · cases h
      exact .keeps (.refl p)
    · split at h
      · cases h
        exact .keeps ((Keeps.setOpen p a).trans (Keeps.update _ _ fun _ => ⟨rfl, id⟩))
      · next hnone =>
        cases h
        refine .dialing fun n hn => ?_
        by_cases hopen : p.isOpen n = true
        · exact Bool.eq_false_iff.mpr (List.find?_eq_none.mp hnone n (List.mem_filter.mpr ⟨hn, hopen⟩))
        · exact Bool.eq_false_iff.mpr fun hidle => hopen (isOpen_of_isIdle hidle)
  | dialed n now =>
    obtain ⟨hdial, hq⟩ := silently_eq_some h
    cases hq
    obtain ⟨a, ha⟩ := Option.isSome_iff_exists.mp hdial
    exact .dialed ha
  | startSend n id =>
    simp only [step?] at h
    split at h <;> cases h
    exact .keeps ((Keeps.update p n (f := (·.startWriting id)) fun _ => ⟨rfl, fun h => h⟩).trans (.same rfl rfl rfl rfl))
  | beginWrite k =>
    simp only [step?] at h
    split at h
    · obtain ⟨-, hq⟩ := silently_eq_some h
      cases hq
      exact .keeps (.beginWrite p k)
    · cases h
  | endSend k result now =>
    have hend := Keeps.endSend p k result now
    simp only [step?] at h
    repeat' split at h
    all_goals cases h
    next hq =>
      rw [hq] at hend
      exact .keeps hend
  | poll k | expire k after =>
    simp only [step?] at h
    split at h <;> cases h
    exact .keeps (.same rfl rfl rfl rfl)
  | abandonSend k => exact .silently (.abandonSend p k) h
  | dialFailed n => exact .silently (.dialFailed p n) h
  | receive n i now => exact .silently (.update p n (Connection.ages_receive i now)) h
  | handOver n => exact .silently (.handOver p n) h
  | endReading n =>
    have hf : Connection.Ages fun c => { c.close with reader := .finished } := Connection.ages_close
    refine .silently ?_ h
    exact (Keeps.update p n hf).trans (.same rfl rfl rfl rfl)
  | release n => exact .silently (.update p n Connection.ages_release) h
  | close n => exact .silently (.update p n Connection.ages_close) h
  | checkConnection reclaimAfter now written n => exact .silently (.checkConnection p reclaimAfter now written n) h
  | prune a => exact .silently (.prune p a) h
  | shutdown => exact .silently (.shutdown p) h
  | clear | drop =>
    refine .silently ?_ h
    exact .same rfl rfl rfl rfl

/-! ## Where connections are listed -/

/-- Every connection in a list is one to its address and stands there once, and all that are open are listed. -/
structure Filed (p : Pool) : Prop where
  keys : p.members.keys.Nodup
  nodup : ∀ a, (p.listed a).Nodup
  address : ∀ a, ∀ n ∈ p.listed a, ∃ c, p.connections.get? n = some c ∧ c.address = a
  member : ∀ n c, p.connections.get? n = some c → c.closed = false → n ∈ p.listed c.address

/-- A dial has a list for the connection that comes of it besides. -/
structure Stocked (p : Pool) : Prop extends Filed p where
  numbers : p.connections.keys.Nodup
  expected : p.shutDown = false → ∀ n a, p.dials.get? n = some a → p.members.contains a = true

theorem stocked_empty : empty.Stocked where
  keys := List.nodup_nil
  nodup _ := List.nodup_nil
  address _ _ h := nomatch h
  member _ _ h := nomatch h
  numbers := List.nodup_nil
  expected _ _ _ h := nomatch h

/-- A connection stands in one list only. -/
theorem Filed.unique (h : p.Filed) {b : SocketAddress} (ha : n ∈ p.listed a) (hb : n ∈ p.listed b) : a = b := by
  obtain ⟨c, hc, rfl⟩ := h.address a n ha
  obtain ⟨d, hd, rfl⟩ := h.address b n hb
  cases hc.symm.trans hd
  rfl

theorem Stocked.keep (h : p.Stocked) (hk : Keeps p q) : q.Stocked where
  keys := hk.keys h.keys
  nodup a := (hk.listed a).nodup (h.nodup a)
  address a n hn := by
    obtain ⟨c, hc, rfl⟩ := h.address a n ((hk.listed a).subset hn)
    have haddress := hk.address n
    rw [hc] at haddress
    exact Option.map_eq_some_iff.mp haddress
  numbers := hk.numbers ▸ h.numbers
  member n c hc hopen := by
    obtain ⟨d, hd, hdopen⟩ := isOpen_iff.mp (hk.isOpen n (isOpen_iff.mpr ⟨c, hc, hopen⟩))
    have haddress := hk.address n
    rw [hc, hd] at haddress
    rw [show c.address = d.address from Option.some.inj haddress]
    exact hk.stays _ n (h.member n d hd hdopen) (isOpen_iff.mpr ⟨c, hc, hopen⟩)
  expected hrunning n a hn := by
    obtain ⟨hbefore, hcontains⟩ := hk.running hrunning
    exact hcontains a (h.expected hbefore n a (hk.dials n a hn))

theorem dialed_eq (hdial : p.dials.get? n = some a) (now : Instant) :
    p.dialed n now = { p with
      dials := p.dials.erase n
      connections := p.connections.set n { Connection.opened a now with closed := p.shutDown }
      members := p.members.modify a (· ++ [n]) } := by
  unfold Pool.dialed
  rw [hdial]

theorem listed_dialed (hdial : p.dials.get? n = some a) (now : Instant) (b : SocketAddress) :
    (p.dialed n now).listed b =
      if a = b ∧ p.members.contains a = true then p.listed b ++ [n] else p.listed b := by
  rw [dialed_eq hdial]
  unfold listed Table.contains
  dsimp only
  rw [Table.get?_modify]
  by_cases hab : a = b
  · subst hab
    cases p.members.get? a <;> simp
  · simp [hab]

/-- A dialed connection is put into the list of its address. -/
theorem Stocked.dialed (h : p.Stocked) (hn : p.Numbered) (hdial : p.dials.get? n = some a) (now : Instant) :
    (p.dialed n now).Stocked := by
  have hget : ∀ m, (p.dialed n now).connections.get? m =
      if n = m then some { Connection.opened a now with closed := p.shutDown } else p.connections.get? m := by
    intro m
    rw [dialed_eq hdial]
    exact Table.get?_set _ _ _ _
  have hnew : ∀ b, n ∉ p.listed b := by
    intro b hb
    obtain ⟨c, hc, -⟩ := h.address b n hb
    have hnone := (hn.dialing n (Option.isSome_iff_exists.mpr ⟨a, hdial⟩)).1
    rw [view_reader hc] at hnone
    cases hnone
  have hgrows : ∀ b, ∀ m ∈ p.listed b, m ∈ (p.dialed n now).listed b := by
    intro b m hm
    rw [listed_dialed hdial]
    split
    · exact List.mem_append_left _ hm
    · exact hm
  refine ⟨⟨?_, fun b => ?_, fun b m hm => ?_, fun m c hc hopen => ?_⟩, ?_, fun hrunning m b hm => ?_⟩
  · rw [dialed_eq hdial, Table.keys_modify]
    exact h.keys
  · rw [listed_dialed hdial]
    split
    · exact List.nodup_append.mpr ⟨h.nodup b, by simp, fun x hx y hy hxy =>
        hnew b (List.mem_singleton.mp hy ▸ hxy ▸ hx)⟩
    · exact h.nodup b
  · rw [listed_dialed hdial] at hm
    rw [hget]
    by_cases hnm : n = m
    · subst hnm
      split at hm
      · next hab => exact ⟨_, if_pos rfl, hab.1⟩
      · exact absurd hm (hnew b)
    · rw [if_neg hnm]
      split at hm
      · rcases List.mem_append.mp hm with hm | hm
        · exact h.address b m hm
        · exact absurd (List.mem_singleton.mp hm).symm hnm
      · exact h.address b m hm
  · rw [hget] at hc
    split at hc
    · next hnm =>
      subst hnm
      cases hc
      -- It is open, so the pool has not been shut down, and the list of its address is there.
      rw [listed_dialed hdial, if_pos ⟨rfl, h.expected hopen n a hdial⟩]
      exact List.mem_append_right _ (List.mem_singleton.mpr rfl)
    · exact hgrows _ m (h.member m c hc hopen)
  · rw [dialed_eq hdial]
    exact Table.nodup_keys_set h.numbers _ _
  · rw [dialed_eq hdial] at hrunning hm ⊢
    dsimp only at hrunning hm ⊢
    rw [Table.get?_erase] at hm
    split at hm
    · cases hm
    · have hcontains := h.expected hrunning m b hm
      unfold Table.contains at hcontains ⊢
      rw [Table.get?_modify]
      split
      · rw [Option.isSome_map]
        exact hcontains
      · exact hcontains

/-- **Every step keeps the lists right.** -/
theorem Stocked.step (h : p.Stocked) (hn : p.Numbered) {s : PoolStep} {x : PoolAnswer} (hs : p.step? s = some (q, x)) :
    q.Stocked := by
  cases stock_of_step hs with
  | keeps hk => exact h.keep hk
  | @dialing a =>
    have hlists := h.keep (Keeps.setOpen p a)
    refine ⟨⟨hlists.keys, hlists.nodup, hlists.address, hlists.member⟩, hlists.numbers, fun hrunning m b hm => ?_⟩
    dsimp only at hm
    rw [Table.get?_set] at hm
    split at hm
    · cases hm
      unfold Table.contains
      rw [Table.get?_set, if_pos rfl]
      rfl
    · exact hlists.expected hrunning m b hm
  | dialed hdial => exact h.dialed hn hdial _

theorem stocked_of_reaches {run : Run} (h : p.Stocked) (hn : p.Numbered) (hr : Reaches p run q) : q.Stocked := by
  induction hr with
  | refl => exact h
  | next hs _ ih => exact ih (h.step hn hs) (hn.step hs)

end Pool

end Rpc
