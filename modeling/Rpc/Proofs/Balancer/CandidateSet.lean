import Mathlib
import Rpc.Proofs.Balancer.Uncached
import Rpc.Proofs.Net.Texts

/-!
# Sets of candidates and their fingerprints

- Addresses are ordered (`SocketAddress.le_antisymm`, `SocketAddress.le_trans`, `SocketAddress.le_total`), so that
  candidates in order, each of them once, stand for their set (`candidateSet_eq_iff`);
- texts with a zero byte after each are told apart (`flatMap_text_injective`), so that the input of a fingerprint stands
  for these candidates (`fingerprintInput_inj`);
- both together: the input of the fingerprint identifies the set of candidates (`same_input_iff_same_set`). What can
  still mislead a balancer that keeps its rings is the hash, and nothing else (`Balancer.toldApart_iff`).
-/

namespace Rpc

/-! ## Runs of equal members -/

section Runs

variable {α : Type} [DecidableEq α] {a : α} {as : List α}

theorem eraseRepsBy_loop (a : α) (as done : List α) :
    List.eraseRepsBy.loop (· == ·) a as done = done.reverse ++ (a :: as).eraseReps := by
  induction as generalizing a done with
  | nil => simp [List.eraseReps, List.eraseRepsBy, List.eraseRepsBy.loop]
  | cons b as ih =>
    have hloop : (a :: b :: as).eraseReps = List.eraseRepsBy.loop (· == ·) a (b :: as) [] := rfl
    rw [hloop]
    unfold List.eraseRepsBy.loop
    split <;> simp [ih]

/-- Of two equal members beside each other one is left. -/
theorem eraseReps_cons_cons (a b : α) (as : List α) :
    (a :: b :: as).eraseReps = if a = b then (b :: as).eraseReps else a :: (b :: as).eraseReps := by
  have hloop : (a :: b :: as).eraseReps = List.eraseRepsBy.loop (· == ·) a (b :: as) [] := rfl
  rw [hloop, List.eraseRepsBy.loop]
  split
  · next heq =>
    obtain rfl : a = b := by simpa using heq
    rw [if_pos rfl, eraseRepsBy_loop, List.reverse_nil, List.nil_append]
  · next hne =>
    rw [if_neg (by simpa using hne), eraseRepsBy_loop, List.reverse_singleton, List.singleton_append]

theorem mem_eraseReps : a ∈ as.eraseReps ↔ a ∈ as := by
  induction as with
  | nil => rfl
  | cons b as ih =>
    cases as with
    | nil => rfl
    | cons c as =>
      rw [eraseReps_cons_cons]
      split
      · next heq => simp [ih, heq]
      · rw [List.mem_cons, ih, ← List.mem_cons]

/-- In a list in order equal members stand beside each other, so that one of them is left. -/
theorem pairwise_eraseReps {r : α → α → Prop} (hanti : ∀ a b, r a b → r b a → a = b) (h : as.Pairwise r) :
    as.eraseReps.Pairwise fun a b => r a b ∧ a ≠ b := by
  induction as with
  | nil => exact .nil
  | cons a as ih =>
    cases as with
    | nil => exact List.pairwise_singleton _ _
    | cons b as =>
      obtain ⟨hfirst, hrest⟩ := List.pairwise_cons.mp h
      rw [eraseReps_cons_cons]
      split
      · exact ih hrest
      · next hne =>
        refine List.pairwise_cons.mpr ⟨fun c hc => ?_, ih hrest⟩
        rw [mem_eraseReps] at hc
        refine ⟨hfirst c hc, ?_⟩
        -- The first member once more, behind another one, would be at both sides of it.
        rintro rfl
        rcases List.mem_cons.mp hc with heq | hc
        · exact hne heq
        · exact hne (hanti a b (hfirst b List.mem_cons_self) ((List.pairwise_cons.mp hrest).1 a hc))

end Runs

/-! ## The order of addresses -/

namespace SocketAddress

variable {a b : SocketAddress}

theorem orderKey_injective : Function.Injective orderKey := by
  intro a b h
  cases a <;> cases b <;> simp_all [orderKey, ← UInt32.toNat_inj, ← UInt16.toNat_inj, ← BitVec.toNat_inj]

theorem le_iff : a.le b ↔ a.orderKey ≤ b.orderKey := by
  simp [le]

theorem le_antisymm (a b : SocketAddress) (hab : a.le b) (hba : b.le a) : a = b :=
  orderKey_injective ((le_iff.mp hab).antisymm (le_iff.mp hba))

theorem le_trans (a b c : SocketAddress) (hab : a.le b) (hbc : b.le c) : a.le c :=
  le_iff.mpr ((le_iff.mp hab).trans (le_iff.mp hbc))

theorem le_total (a b : SocketAddress) : a.le b || b.le a := by
  simpa [le_iff] using LinearOrder.le_total a.orderKey b.orderKey

end SocketAddress

/-! ## Candidates in order -/

variable {cs ds : List SocketAddress} {a : SocketAddress}

theorem mem_candidateSet : a ∈ candidateSet cs ↔ a ∈ cs := by
  rw [candidateSet, mem_eraseReps, List.mem_mergeSort]

theorem pairwise_candidateSet (cs : List SocketAddress) : (candidateSet cs).Pairwise fun a b => a.le b ∧ a ≠ b :=
  pairwise_eraseReps SocketAddress.le_antisymm
    (List.pairwise_mergeSort SocketAddress.le_trans SocketAddress.le_total cs)

/-- Candidates in order are the same for the same set, whatever their order and repetitions were. -/
theorem candidateSet_eq_iff : candidateSet cs = candidateSet ds ↔ ∀ a, a ∈ cs ↔ a ∈ ds := by
  refine ⟨fun h a => ?_, fun hset => ?_⟩
  · rw [← mem_candidateSet, h, mem_candidateSet]
  · have hcs := pairwise_candidateSet cs
    have hds := pairwise_candidateSet ds
    have hperm : (candidateSet cs).Perm (candidateSet ds) := by
      rw [List.perm_ext_iff_of_nodup (hcs.imp And.right) (hds.imp And.right)]
      intro a
      rw [mem_candidateSet, mem_candidateSet, hset]
    exact hperm.eq_of_pairwise (fun a b _ _ hab hba => SocketAddress.le_antisymm a b hab.1 hba.1) hcs hds

/-! ## The input of the fingerprint -/

/-- The input of a fingerprint is itself the bytes of a text. -/
theorem flatMap_ofString (as : List SocketAddress) :
    (as.flatMap fun a => Bytes.ofString a.text ++ [0]) =
      Bytes.ofString (String.ofList (as.flatMap fun a => a.text.toList ++ ['\x00'])) := by
  have hzero : Bytes.ofString (String.ofList ['\x00']) = [0] := Bytes.ofString_eq _
  induction as with
  | nil => exact (Bytes.ofString_ascii (List.forall_mem_nil _)).symm
  | cons a as ih =>
    rw [List.flatMap_cons, List.flatMap_cons, ih, String.ofList_append, String.ofList_append, String.ofList_toList,
      Bytes.ofString_append, Bytes.ofString_append, hzero]

/-- A zero character after each text shows where it ends. -/
theorem flatMap_text_injective :
    Function.Injective fun as : List SocketAddress => as.flatMap fun a => a.text.toList ++ ['\x00'] := by
  have hends (rest : List Char) : SocketAddress.Ends 10 ('\x00' :: rest) := SocketAddress.ends_cons.mpr (by decide)
  intro as
  induction as with
  | nil =>
    intro bs h
    cases bs with
    | nil => rfl
    | cons b bs => simp at h
  | cons a as ih =>
    intro bs h
    cases bs with
    | nil => simp at h
    | cons b bs =>
      simp only [List.flatMap_cons, List.append_assoc, List.singleton_append] at h
      obtain ⟨rfl, hrest⟩ := SocketAddress.text_append_inj (hends _) (hends _) h
      rw [ih (List.cons.inj hrest).2]

/-- Texts without anything after them are not told apart: a digit may belong to the text before it or behind it. -/
example : [SocketAddress.v4 1 1, .v4 0x0a000002 3].flatMap (·.text.toList) =
    [SocketAddress.v4 1 11, .v4 2 3].flatMap (·.text.toList) := by cbv

theorem fingerprintInput_inj : fingerprintInput cs = fingerprintInput ds ↔ candidateSet cs = candidateSet ds := by
  rw [fingerprintInput, fingerprintInput, flatMap_ofString, flatMap_ofString, Bytes.ofString_inj, String.ofList_inj,
    flatMap_text_injective.eq_iff]

/-- **The input of the fingerprint identifies the set of candidates.** For two lists of addresses (all those that a
text can express, `SocketAddress.parse?_text`) it is the same if and only if they contain the same addresses, whatever
their order and repetitions. -/
theorem same_input_iff_same_set (cs ds : List SocketAddress) :
    fingerprintInput cs = fingerprintInput ds ↔ ∀ a, a ∈ cs ↔ a ∈ ds :=
  fingerprintInput_inj.trans candidateSet_eq_iff

namespace Balancer

variable {qs : List Question}

/-- The texts of the addresses in some questions. -/
def addressTexts (qs : List Question) : Set Bytes := {bs | ∃ q ∈ qs, ∃ a ∈ q.candidates, Bytes.ofString a.text = bs}

/-- The inputs of the fingerprints of the candidates in some questions. -/
def fingerprintInputs (qs : List Question) : Set Bytes := {bs | ∃ q ∈ qs, fingerprintInput q.candidates = bs}

/-- **Only the hash can mislead a balancer.** Questions are told apart if and only if the hash tells apart what it is
taken of for them, the texts of their addresses and the inputs of their fingerprints. -/
theorem toldApart_iff :
    ToldApart qs ↔ Set.InjOn (xxHash64 0) (addressTexts qs) ∧ Set.InjOn (xxHash64 0) (fingerprintInputs qs) := by
  refine ⟨fun ⟨haddresses, hsets⟩ => ⟨?_, ?_⟩, fun ⟨htexts, hinputs⟩ => ⟨?_, ?_⟩⟩
  · rintro _ ⟨q, hq, a, ha, rfl⟩ _ ⟨r, hr, b, hb, rfl⟩ h
    rw [haddresses a (List.mem_flatMap.mpr ⟨q, hq, ha⟩) b (List.mem_flatMap.mpr ⟨r, hr, hb⟩) h]
  · rintro _ ⟨q, hq, rfl⟩ _ ⟨r, hr, rfl⟩ h
    exact fingerprintInput_inj.mpr (candidateSet_eq_iff.mpr (hsets q hq r hr h))
  · intro a ha b hb h
    obtain ⟨q, hq, ha⟩ := List.mem_flatMap.mp ha
    obtain ⟨r, hr, hb⟩ := List.mem_flatMap.mp hb
    have hbytes := htexts ⟨q, hq, a, ha, rfl⟩ ⟨r, hr, b, hb, rfl⟩ h
    exact SocketAddress.text_injective (Bytes.ofString_inj.mp hbytes)
  · intro q hq r hr h
    have hinput := hinputs ⟨q, hq, rfl⟩ ⟨r, hr, rfl⟩ h
    exact candidateSet_eq_iff.mp (fingerprintInput_inj.mp hinput)

end Balancer

end Rpc
