import Mathlib
import Rpc.Proofs.Balancer.Ring

/-!
# Rings that are kept

A balancer of rings answers every question as if it built the ring anew (`Balancer.answer_uncached`), as long as
hashes tell apart what the questions are about (`ToldApart`).

The rings kept are rings of candidates that were asked about before (`Kept`); this holds at first and is kept by every
question (`kept_after`). A kept ring is only used for candidates with its fingerprint, which are then the same set.
-/

namespace Rpc

namespace Balancer

/-! ## Questions -/

/-- A question for the address of a key. -/
structure Question where
  service : String
  candidates : List SocketAddress
  key : Bytes

/-- The answer to a question. -/
def answer (b : Balancer) (q : Question) : Except NoAddress SocketAddress :=
  (b.select q.service q.candidates q.key).2

/-- The balancer after a question. -/
def next (b : Balancer) (q : Question) : Balancer := (b.select q.service q.candidates q.key).1

/-- The balancer of rings after some questions. -/
def after (qs : List Question) : Balancer := qs.foldl next (.consistentHash .empty)

/-- No two addresses in the questions have the same point, and no two sets of candidates the same fingerprint. -/
structure ToldApart (qs : List Question) : Prop where
  addresses : Ring.Apart (qs.flatMap (·.candidates))
  sets : ∀ q ∈ qs, ∀ r ∈ qs, fingerprint q.candidates = fingerprint r.candidates →
    ∀ a, a ∈ q.candidates ↔ a ∈ r.candidates

variable {qs : List Question} {q r : Question} {rings : Table String Ring} {service : String}

/-- So the candidates of one question stand apart. -/
theorem ToldApart.apart (h : ToldApart qs) (hq : q ∈ qs) : Ring.Apart q.candidates := fun a ha b hb =>
  h.addresses a (List.mem_flatMap.mpr ⟨q, hq, ha⟩) b (List.mem_flatMap.mpr ⟨q, hq, hb⟩)

/-- No other set of candidates that was asked about has the fingerprint of those of a question. If nothing was asked
before, none has. -/
def Unmistaken (qs : List Question) (q : Question) : Prop :=
  ∀ r ∈ qs, fingerprint r.candidates = fingerprint q.candidates → ∀ a, a ∈ r.candidates ↔ a ∈ q.candidates

theorem ToldApart.unmistaken (h : ToldApart (qs ++ [q])) : Unmistaken qs q := fun r hr =>
  h.sets r (List.mem_append_left _ hr) q (List.mem_append_right _ (List.mem_singleton_self q))

/-! ## The rings kept -/

/-- Every ring kept is that of the candidates of a question. -/
def Kept (qs : List Question) (rings : Table String Ring) : Prop :=
  ∀ service ring, rings.get? service = some ring → ∃ q ∈ qs, ring = Ring.build q.candidates

theorem kept_empty : Kept [] .empty := fun _ _ h => by simp at h

theorem Kept.mono (h : Kept qs rings) (q : Question) : Kept (qs ++ [q]) rings := fun service ring hr =>
  (h service ring hr).imp fun _ ⟨hm, he⟩ => ⟨List.mem_append_left _ hm, he⟩

/-- A new ring is that of the candidates that are asked about now. -/
theorem Kept.set (h : Kept qs rings) (q : Question) (service : String) :
    Kept (qs ++ [q]) (rings.set service (Ring.build q.candidates)) := by
  intro other ring hr
  rw [Table.get?_set] at hr
  split at hr
  · cases hr
    exact ⟨q, by simp, rfl⟩
  · exact h.mono q other ring hr

/-- The ring used for a question is kept, and it is the ring of a question about candidates with the same
fingerprint. -/
theorem Kept.ringFor (h : Kept qs rings) (q : Question) :
    Kept (qs ++ [q]) (ringFor rings q.service q.candidates).1 ∧
      ∃ r ∈ qs ++ [q], fingerprint r.candidates = fingerprint q.candidates ∧
        (Balancer.ringFor rings q.service q.candidates).2 = Ring.build r.candidates := by
  have hnew : ∃ r ∈ qs ++ [q], fingerprint r.candidates = fingerprint q.candidates ∧
      Ring.build q.candidates = Ring.build r.candidates := ⟨q, by simp, rfl, rfl⟩
  unfold Balancer.ringFor
  split
  · next ring hring =>
    split
    · next hfresh =>
      obtain ⟨r, hr, rfl⟩ := h q.service ring hring
      exact ⟨h.mono q, r, List.mem_append_left _ hr, hfresh, rfl⟩
    · exact ⟨h.set q q.service, hnew⟩
  · exact ⟨h.set q q.service, hnew⟩

/-! ## One question -/

/-- More than one candidate: the ring decides. -/
theorem select_of_ring {a b : SocketAddress} {cs : List SocketAddress} (h : q.candidates = a :: b :: cs) :
    (consistentHash rings).select q.service q.candidates q.key =
      (.consistentHash (ringFor rings q.service q.candidates).1,
        match (ringFor rings q.service q.candidates).2.route (xxHash64 0 q.key) with
        | some a => .ok a
        | none => .error ⟨q.service⟩) := by
  simp only [select, pick, h, List.isEmpty_cons, Bool.false_eq_true, if_false]
  split <;> simp_all

/-- A question leaves rings that were asked about. -/
theorem Kept.next (h : Kept qs rings) (q : Question) :
    ∃ rings', (consistentHash rings).next q = .consistentHash rings' ∧ Kept (qs ++ [q]) rings' := by
  unfold Balancer.next
  match hq : q.candidates with
  | [] => exact ⟨rings, rfl, h.mono q⟩
  | [a] => exact ⟨rings, rfl, h.mono q⟩
  | a :: b :: cs =>
    rw [← hq, select_of_ring hq]
    exact ⟨_, rfl, (h.ringFor q).1⟩

/-- After any questions the rings kept are rings that were asked about. -/
theorem kept_after (qs : List Question) : ∃ rings, after qs = .consistentHash rings ∧ Kept qs rings := by
  induction qs using List.reverseRecOn with
  | nil => exact ⟨.empty, rfl, kept_empty⟩
  | append_singleton qs q ih =>
    obtain ⟨rings, hafter, hkept⟩ := ih
    obtain ⟨rings', hnext, hkept'⟩ := hkept.next q
    refine ⟨rings', ?_, hkept'⟩
    rw [after, List.foldl_append, ← after, hafter]
    exact hnext

/-- A question without candidates has no answer. -/
theorem answer_nil (b : Balancer) (h : q.candidates = []) : b.answer q = .error ⟨q.service⟩ := by
  simp only [answer, h, select]

/-- A question with candidates is answered with the next of them. -/
theorem Kept.answer (hk : Kept qs rings) (hcs : Ring.Apart q.candidates) (h : Unmistaken qs q)
    (hne : q.candidates ≠ []) :
    ∃ a, (consistentHash rings).answer q = .ok a ∧ Ring.IsNext q.candidates (xxHash64 0 q.key) a := by
  unfold Balancer.answer
  match hq : q.candidates with
  | [] => exact absurd hq hne
  | [a] => exact ⟨a, rfl, Ring.isNext_singleton _ _⟩
  | a :: b :: cs =>
    obtain ⟨r, hr, hsame, hring⟩ := (hk.ringFor q).2
    have hset : ∀ a, a ∈ r.candidates ↔ a ∈ q.candidates := by
      rcases List.mem_append.mp hr with hr | hr
      · exact h r hr hsame
      · rw [List.mem_singleton.mp hr]
        exact fun _ => Iff.rfl
    have happart : Ring.Apart r.candidates := (Ring.apart_congr hset).mpr hcs
    have hmem : a ∈ r.candidates := (hset a).mpr (by simp [hq])
    obtain ⟨c, hc⟩ := Ring.exists_route happart hmem (xxHash64 0 q.key)
    rw [← hq, select_of_ring hq, hring, hc]
    exact ⟨c, rfl, (Ring.isNext_congr hset).mp (Ring.isNext_of_route happart hc)⟩

/-- The same, whatever was asked before. -/
theorem answer_of_unmistaken (hcs : Ring.Apart q.candidates) (h : Unmistaken qs q) (hne : q.candidates ≠ []) :
    ∃ a, (after qs).answer q = .ok a ∧ Ring.IsNext q.candidates (xxHash64 0 q.key) a := by
  obtain ⟨rings, hafter, hkept⟩ := kept_after qs
  rw [hafter]
  exact hkept.answer hcs h hne

theorem answer_after (h : ToldApart (qs ++ [q])) (hne : q.candidates ≠ []) :
    ∃ a, (after qs).answer q = .ok a ∧ Ring.IsNext q.candidates (xxHash64 0 q.key) a :=
  answer_of_unmistaken (h.apart (by simp)) h.unmistaken hne

/-- **Keeping rings changes nothing.** Whatever was asked before, a question without candidates is answered with an
error, and any other with the candidate clockwise from the hash of the key. So the answer is the same for the same set
of candidates and the same key, whatever the service, the order of the candidates and the questions before. -/
theorem answer_uncached (h : ToldApart (qs ++ [q])) :
    ((after qs).answer q = .error ⟨q.service⟩ ↔ q.candidates = []) ∧
    (q.candidates ≠ [] → ∃ a, (after qs).answer q = .ok a ∧
      ∀ b, Ring.IsNext q.candidates (xxHash64 0 q.key) b ↔ b = a) ∧
    ∀ qs' q', ToldApart (qs' ++ [q']) → q'.key = q.key → (∀ a, a ∈ q'.candidates ↔ a ∈ q.candidates) →
      ((after qs').answer q').toOption = ((after qs).answer q).toOption := by
  refine ⟨⟨fun herr => ?_, answer_nil _⟩, fun hne => ?_, fun qs' q' h' hkey hset => ?_⟩
  · by_contra hne
    obtain ⟨a, ha, -⟩ := answer_after h hne
    rw [ha] at herr
    cases herr
  · obtain ⟨a, ha, hnext⟩ := answer_after h hne
    refine ⟨a, ha, fun b => ⟨fun hb => hb.unique (h.apart (by simp)) hnext, ?_⟩⟩
    rintro rfl
    exact hnext
  · by_cases hne : q.candidates = []
    · have hne' : q'.candidates = [] := List.eq_nil_iff_forall_not_mem.mpr fun a ha => by
        simpa [hne] using (hset a).mp ha
      rw [answer_nil _ hne, answer_nil _ hne']
      rfl
    · obtain ⟨a, ha, hnext⟩ := answer_after h hne
      obtain ⟨b, hb⟩ := List.exists_mem_of_ne_nil _ hne
      obtain ⟨a', ha', hnext'⟩ := answer_after h' (List.ne_nil_of_mem ((hset b).mpr hb))
      rw [hkey, Ring.isNext_congr hset] at hnext'
      rw [ha, ha', hnext'.unique (h.apart (by simp)) hnext]

/-! ### A set of candidates that changes and changes back -/

def near : SocketAddress := .v4 0x0a000001 9000

def far : SocketAddress := .v4 0x0a000001 9001

def other : SocketAddress := .v6 1 9000 7

/-- Two services ask for the same two candidates, then the first of them has a third one. -/
def changing : List Question :=
  [⟨"Echo", [near, far], [1]⟩, ⟨"Users", [far, near, far], [2]⟩, ⟨"Echo", [far, other, near], [1]⟩]

/-- The third candidate is gone again, and the hash of the key lies beyond all points. -/
def changedBack : Question := ⟨"Echo", [far, near, near], [11]⟩

theorem points_changing : near.point = 2573041948934883646 ∧ far.point = 17071374226136434101 ∧
    other.point = 10473139364469036446 := ⟨by cbv, by cbv, by cbv⟩

theorem sets_changing : ∀ q ∈ changing ++ [changedBack],
    (fingerprint q.candidates = 16012937322180018106 ∧ ∀ a, a ∈ q.candidates ↔ a = near ∨ a = far) ∨
      (fingerprint q.candidates = 7762587774632346992 ∧ ∀ a, a ∈ q.candidates ↔ a = near ∨ a = far ∨ a = other) := by
  intro q hq
  simp only [changing, changedBack, List.cons_append, List.nil_append, List.mem_cons, List.not_mem_nil,
    or_false] at hq
  rcases hq with rfl | rfl | rfl | rfl
  · exact .inl ⟨by cbv, by simp⟩
  · exact .inl ⟨by cbv, by simp [or_comm]⟩
  · exact .inr ⟨by cbv, by grind⟩
  · exact .inl ⟨by cbv, by simp [or_comm]⟩

theorem changing_toldApart : ToldApart (changing ++ [changedBack]) where
  addresses a ha b hb h := by
    obtain ⟨hnear, hfar, hother⟩ := points_changing
    have hthree (c : SocketAddress) (hc : c ∈ (changing ++ [changedBack]).flatMap (·.candidates)) :
        c = near ∨ c = far ∨ c = other := by
      obtain ⟨q, hq, hc⟩ := List.mem_flatMap.mp hc
      rcases sets_changing q hq with ⟨-, hset⟩ | ⟨-, hset⟩
      · exact ((hset c).mp hc).imp_right .inl
      · exact (hset c).mp hc
    rcases hthree a ha with rfl | rfl | rfl <;> rcases hthree b hb with rfl | rfl | rfl <;> first
      | rfl
      | simp [hnear, hfar, hother] at h
  sets q hq r hr h := by
    rcases sets_changing q hq with ⟨hf, hset⟩ | ⟨hf, hset⟩ <;>
      rcases sets_changing r hr with ⟨hf', hset'⟩ | ⟨hf', hset'⟩
    · exact fun a => (hset a).trans (hset' a).symm
    · simp [hf, hf'] at h
    · simp [hf, hf'] at h
    · exact fun a => (hset a).trans (hset' a).symm

/-- The ring of the three candidates is not used any more, and the key wraps around to the first point. -/
theorem answer_uncached_changing :
    ToldApart (changing ++ [changedBack]) ∧ (after changing).answer changedBack = .ok near := by
  refine ⟨changing_toldApart, ?_⟩
  obtain ⟨a, ha, hnext⟩ := (answer_uncached changing_toldApart).2.1 (List.cons_ne_nil _ _)
  have hnear : Ring.IsNext changedBack.candidates (xxHash64 0 changedBack.key) near := by
    obtain ⟨hnear, hfar, -⟩ := points_changing
    have hkey : xxHash64 0 [11] = 17695417848494312630 := by cbv
    refine ⟨by simp [changedBack], .inr ⟨?_, ?_⟩⟩ <;> simp [changedBack, hnear, hfar, hkey]
  rw [ha, (hnext near).mp hnear]

end Balancer

end Rpc
