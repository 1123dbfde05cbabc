import Mathlib
import Rpc.Proofs.Balancer.Uncached

/-!
# Candidates that come and go

A candidate that goes leaves its keys to the one clockwise after it, and a candidate that comes takes the keys on the
arc up to its point; all other keys stay where they are (`Balancer.minimal_disruption`).

- `Ring.Follows`, `Ring.Precedes`: the candidates after and before a point of the circle;
- `Ring.OnArc`: the places after one point, up to another.

All of it follows from `Ring.IsNext`: the next candidate stays next as long as it is there (`Ring.IsNext.of_subset`),
and it is next to a place if and only if the place is on the arc before it (`Ring.isNext_iff_onArc`).
-/

namespace Rpc

namespace Ring

variable {cs ds : List SocketAddress} {a b c d x : SocketAddress} {h p : UInt64}

/-- The candidate clockwise after a point: its own is the least beyond it, or the least of all if there is none beyond
it. -/
def Follows (cs : List SocketAddress) (p : UInt64) (d : SocketAddress) : Prop :=
  d ∈ cs ∧ ((p < d.point ∧ ∀ b ∈ cs, p < b.point → d.point ≤ b.point) ∨
    ((∀ b ∈ cs, b.point ≤ p) ∧ ∀ b ∈ cs, d.point ≤ b.point))

/-- The candidate clockwise before a point: its own is the greatest short of it, or the greatest of all if there is
none short of it. -/
def Precedes (cs : List SocketAddress) (p : UInt64) (x : SocketAddress) : Prop :=
  x ∈ cs ∧ ((x.point < p ∧ ∀ b ∈ cs, b.point < p → b.point ≤ x.point) ∨
    ((∀ b ∈ cs, p ≤ b.point) ∧ ∀ b ∈ cs, b.point ≤ x.point))

/-- The places clockwise after the first point, up to and with the second. The arc goes over zero unless the second
point is the greater one. -/
def OnArc (p q h : UInt64) : Prop := if p < q then p < h ∧ h ≤ q else p < h ∨ h ≤ q

/-- Among fewer candidates the next one is still the next, if it is there. -/
theorem IsNext.of_subset (ha : IsNext cs h a) (hsub : ∀ x ∈ ds, x ∈ cs) (hd : a ∈ ds) : IsNext ds h a := by
  obtain ⟨-, ⟨hle, hleast⟩ | ⟨hnone, hleast⟩⟩ := ha
  · exact ⟨hd, .inl ⟨hle, fun b hb => hleast b (hsub b hb)⟩⟩
  · exact ⟨hd, .inr ⟨fun b hb => hnone b (hsub b hb), fun b hb => hleast b (hsub b hb)⟩⟩

/-- Without the next candidate, the one after it is the next. -/
theorem IsNext.follows (hcs : Apart cs) (ha : IsNext cs h a) (hds : ∀ x, x ∈ ds ↔ x ∈ cs ∧ x ≠ a)
    (hd : IsNext ds h d) : Follows cs a.point d := by
  have hold {b : SocketAddress} (hb : b ∈ cs) (hba : b ≠ a) : b ∈ ds := (hds b).mpr ⟨hb, hba⟩
  obtain ⟨hdc, hda⟩ := (hds d).mp hd.1
  have hapart : a.point ≠ d.point := fun heq => hda (hcs d hdc a ha.1 heq.symm)
  refine ⟨hdc, ?_⟩
  obtain ⟨hac, ⟨hle, hleast⟩ | ⟨hnone, hleast⟩⟩ := ha
  · obtain ⟨-, ⟨hled, hleastd⟩ | ⟨hnoned, hleastd⟩⟩ := hd
    · refine .inl ⟨UInt64.lt_of_le_of_ne (hleast d hdc hled) hapart, fun b hb hlt => ?_⟩
      refine hleastd b (hold hb ?_) (UInt64.le_of_lt (UInt64.lt_of_le_of_lt hle hlt))
      rintro rfl
      exact UInt64.lt_irrefl _ hlt
    · -- The place is before `a`, and all others are before the place.
      have hlast {b : SocketAddress} (hb : b ∈ ds) : b.point < a.point := UInt64.lt_of_lt_of_le (hnoned b hb) hle
      refine .inr ⟨fun b hb => ?_, fun b hb => ?_⟩ <;> by_cases hba : b = a
      · exact hba ▸ UInt64.le_refl _
      · exact UInt64.le_of_lt (hlast (hold hb hba))
      · exact hba ▸ UInt64.le_of_lt (hlast (hold hdc hda))
      · exact hleastd b (hold hb hba)
  · -- The place is beyond all candidates, so the least of all follows the least of all.
    have hleastd : ∀ b ∈ ds, d.point ≤ b.point := by
      obtain ⟨-, ⟨hled, -⟩ | ⟨-, hleastd⟩⟩ := hd
      · exact absurd (hnone d hdc) (UInt64.not_lt.mpr hled)
      · exact hleastd
    refine .inl ⟨UInt64.lt_of_le_of_ne (hleast d hdc) hapart, fun b hb hlt => hleastd b (hold hb ?_)⟩
    rintro rfl
    exact UInt64.lt_irrefl _ hlt

/-- A candidate is the next one on the arc before it and nowhere else. -/
theorem isNext_iff_onArc (hb : b ∈ cs) (hx : Precedes cs b.point x) : IsNext cs h b ↔ OnArc x.point b.point h := by
  obtain ⟨hxc, ⟨hlt, hgreatest⟩ | ⟨hnone, hgreatest⟩⟩ := hx
  · rw [OnArc, if_pos hlt]
    constructor
    · rintro ⟨-, ⟨hle, hleast⟩ | ⟨-, hleast⟩⟩
      · exact ⟨UInt64.not_le.mp fun hhx => UInt64.not_lt.mpr (hleast x hxc hhx) hlt, hle⟩
      · exact absurd hlt (UInt64.not_lt.mpr (hleast x hxc))
    · rintro ⟨hxh, hle⟩
      refine ⟨hb, .inl ⟨hle, fun y hy hhy => UInt64.not_lt.mp fun hyb => ?_⟩⟩
      exact UInt64.not_lt.mpr (hgreatest y hy hyb) (UInt64.lt_of_lt_of_le hxh hhy)
  · rw [OnArc, if_neg (UInt64.not_lt.mpr (hnone x hxc))]
    constructor
    · rintro ⟨-, ⟨hle, -⟩ | ⟨hall, -⟩⟩
      · exact .inr hle
      · exact .inl (hall x hxc)
    · rintro (hxh | hle)
      · exact ⟨hb, .inr ⟨fun y hy => UInt64.lt_of_le_of_lt (hgreatest y hy) hxh, hnone⟩⟩
      · exact ⟨hb, .inl ⟨hle, fun y hy _ => hnone y hy⟩⟩

/-- Some candidate is before any point. -/
theorem exists_precedes (hne : cs ≠ []) (p : UInt64) : ∃ x, Precedes cs p x := by
  have hgreatest {bs : List SocketAddress} (hbs : bs ≠ []) : ∃ x ∈ bs, ∀ b ∈ bs, b.point ≤ x.point := by
    simpa [UInt64.le_iff_toNat_le] using
      Finset.exists_max_image bs.toFinset (·.point.toNat) (List.toFinset_nonempty_iff bs |>.mpr hbs)
  by_cases hshort : cs.filter (·.point < p) = []
  · obtain ⟨x, hx, hall⟩ := hgreatest hne
    have hnone (b : SocketAddress) (hb : b ∈ cs) : p ≤ b.point := by
      simpa using List.filter_eq_nil_iff.mp hshort b hb
    exact ⟨x, hx, .inr ⟨hnone, hall⟩⟩
  · obtain ⟨x, hx, hall⟩ := hgreatest hshort
    obtain ⟨hxc, hxp⟩ := List.mem_filter.mp hx
    exact ⟨x, hxc, .inl ⟨by simpa using hxp, fun b hb hbp => hall b (List.mem_filter.mpr ⟨hb, by simpa using hbp⟩)⟩⟩

/-- Candidates that stand apart and one with a point of its own stand apart. -/
theorem Apart.insert (hcs : Apart cs) (hb : ∀ c ∈ cs, c.point ≠ b.point) (hds : ∀ x, x ∈ ds ↔ x ∈ cs ∨ x = b) :
    Apart ds := by
  intro x hx y hy hxy
  rcases (hds x).mp hx with hx | rfl <;> rcases (hds y).mp hy with hy | rfl
  · exact hcs x hx y hy hxy
  · exact absurd hxy (hb x hx)
  · exact absurd hxy.symm (hb y hy)
  · rfl

end Ring

namespace Balancer

variable {cs : List SocketAddress}

/-- **Minimal disruption.** When one of some candidates goes, a key that went to another one still goes there, and a
key that went to it goes to the one clockwise after it. When one comes, a key goes where it went or to the new one,
and to the new one if and only if its hash is on the arc from the point before the new one up to the point of the new
one. This is so whatever was asked before either question, unless it was about other candidates with the same
fingerprint. -/
theorem minimal_disruption (hcs : Ring.Apart cs) (service : String) (key : Bytes) :
    (∀ a ∈ cs, ∀ ds ≠ [], (∀ x, x ∈ ds ↔ x ∈ cs ∧ x ≠ a) →
      ∀ qs rs, Unmistaken qs ⟨service, cs, key⟩ → Unmistaken rs ⟨service, ds, key⟩ →
        ∃ c d, (after qs).answer ⟨service, cs, key⟩ = .ok c ∧ (after rs).answer ⟨service, ds, key⟩ = .ok d ∧
          (c ≠ a → d = c) ∧ (c = a → Ring.Follows cs a.point d)) ∧
    ∀ b, (∀ c ∈ cs, c.point ≠ b.point) → ∀ es, (∀ x, x ∈ es ↔ x ∈ cs ∨ x = b) →
      ∀ qs rs, Unmistaken qs ⟨service, cs, key⟩ → Unmistaken rs ⟨service, es, key⟩ →
        ∃ e x, (after rs).answer ⟨service, es, key⟩ = .ok e ∧ Ring.Precedes es b.point x ∧
          (e = b ∨ (after qs).answer ⟨service, cs, key⟩ = .ok e) ∧
          (e = b ↔ Ring.OnArc x.point b.point (xxHash64 0 key)) := by
  constructor
  · intro a ha ds hne hds qs rs hq hr
    have hsub (x : SocketAddress) (hx : x ∈ ds) : x ∈ cs := ((hds x).mp hx).1
    have hapart : Ring.Apart ds := fun x hx y hy => hcs x (hsub x hx) y (hsub y hy)
    obtain ⟨c, hc, hnext⟩ := answer_of_unmistaken hcs hq (List.ne_nil_of_mem ha)
    obtain ⟨d, hd, hnextd⟩ := answer_of_unmistaken hapart hr hne
    refine ⟨c, d, hc, hd, fun hca => ?_, ?_⟩
    · exact hnextd.unique hapart (hnext.of_subset hsub ((hds c).mpr ⟨hnext.1, hca⟩))
    · rintro rfl
      exact hnext.follows hcs hds hnextd
  · intro b hb es hes qs rs hq hr
    have hapart : Ring.Apart es := hcs.insert hb hes
    have hbe : b ∈ es := (hes b).mpr (.inr rfl)
    have hne : es ≠ [] := List.ne_nil_of_mem hbe
    obtain ⟨e, he, hnext⟩ := answer_of_unmistaken hapart hr hne
    obtain ⟨x, hx⟩ := Ring.exists_precedes hne b.point
    refine ⟨e, x, he, hx, ?_, ?_⟩
    · -- If it is an old candidate, it was next among them.
      rcases (hes e).mp hnext.1 with hold | rfl
      · obtain ⟨c, hc, hnextc⟩ := answer_of_unmistaken hcs hq (List.ne_nil_of_mem hold)
        have hnexte : Ring.IsNext cs (xxHash64 0 key) e := hnext.of_subset (fun y hy => (hes y).mpr (.inl hy)) hold
        exact .inr (by rw [hc, hnextc.unique hcs hnexte])
      · exact .inl rfl
    · rw [← Ring.isNext_iff_onArc hbe hx]
      constructor
      · rintro rfl
        exact hnext
      · exact hnext.unique hapart

/-! ### One of three candidates goes, and comes again -/

/-- A key beyond all points, asked for with all three candidates. -/
def amongThree : Question := ⟨"Echo", [far, other, near], [11]⟩

/-- The same without the candidate that has the least point. -/
def amongTwo : Question := ⟨"Echo", [other, far], [11]⟩

theorem apart_amongThree : Ring.Apart amongThree.candidates :=
  changing_toldApart.apart (q := changing[2]) (by simp [changing])

theorem fingerprint_amongThree : fingerprint amongThree.candidates = 7762587774632346992 := by cbv

theorem unmistaken_amongThree : Unmistaken changing amongThree := by
  intro r hr hsame a
  rw [fingerprint_amongThree] at hsame
  rcases sets_changing r (List.mem_append_left _ hr) with ⟨hf, -⟩ | ⟨-, hset⟩
  · simp [hf] at hsame
  · rw [hset]
    grind [amongThree]

theorem unmistaken_amongTwo : Unmistaken (changing ++ [amongThree]) amongTwo := by
  have htwo : fingerprint amongTwo.candidates = 2286607030767940678 := by cbv
  intro r hr hsame
  rw [htwo] at hsame
  rcases List.mem_append.mp hr with hr | hr
  · rcases sets_changing r (List.mem_append_left _ hr) with ⟨hf, -⟩ | ⟨hf, -⟩ <;> simp [hf] at hsame
  · rw [List.mem_singleton.mp hr, fingerprint_amongThree] at hsame
    simp at hsame

/-- The arc before `near` goes over zero, and the key is on it. Without `near` the key goes to `other`, the next after
`near`. -/
theorem minimal_disruption_near :
    (Ring.Apart amongThree.candidates ∧ Unmistaken changing amongThree ∧
      Unmistaken (changing ++ [amongThree]) amongTwo ∧
      (∀ x, x ∈ amongTwo.candidates ↔ x ∈ amongThree.candidates ∧ x ≠ near)) ∧
    (after changing).answer amongThree = .ok near ∧
    (after (changing ++ [amongThree])).answer amongTwo = .ok other := by
  obtain ⟨hnear, hfar, hother⟩ := points_changing
  have hkey : xxHash64 0 [11] = 17695417848494312630 := by cbv
  have hfn : far ≠ near := fun h => by simp [h, hnear] at hfar
  have hon : other ≠ near := fun h => by simp [h, hnear] at hother
  have hwithout : ∀ x, x ∈ amongTwo.candidates ↔ x ∈ amongThree.candidates ∧ x ≠ near := by
    grind [amongTwo, amongThree]
  have hwith : ∀ x, x ∈ amongThree.candidates ↔ x ∈ amongTwo.candidates ∨ x = near := by
    grind [amongTwo, amongThree]
  have hpoint : ∀ c ∈ amongTwo.candidates, c.point ≠ near.point := by
    simp [amongTwo, hnear, hfar, hother]
  have htwo : Ring.Apart amongTwo.candidates := fun x hx y hy =>
    apart_amongThree x ((hwithout x).mp hx).1 y ((hwithout y).mp hy).1
  refine ⟨⟨apart_amongThree, unmistaken_amongThree, unmistaken_amongTwo, hwithout⟩, ?_⟩
  -- `near` comes: the arc before it begins at `far` and goes over zero.
  obtain ⟨e, x, he, ⟨hx, hbefore⟩, -, harc⟩ := (minimal_disruption htwo "Echo" [11]).2 near hpoint _ hwith _ _
    unmistaken_amongTwo unmistaken_amongThree
  have hxfar : x = far := by
    simp only [amongThree, List.mem_cons, List.not_mem_nil, or_false] at hx
    rcases hx with rfl | rfl | rfl
    · rfl
    · simp [amongThree, hnear, hfar, hother] at hbefore
    · simp [amongThree, hnear, hfar, hother] at hbefore
  obtain rfl : e = near := harc.mpr (by simp [Ring.OnArc, hxfar, hnear, hfar, hkey])
  -- `near` goes: what is left of the circle after it begins at `other`.
  obtain ⟨c, d, hc, hd, -, hfollows⟩ := (minimal_disruption apart_amongThree "Echo" [11]).1 near (by simp [amongThree])
    _ (List.cons_ne_nil _ _) hwithout _ _ unmistaken_amongThree unmistaken_amongTwo
  obtain rfl : c = near := Except.ok.inj (hc.symm.trans he)
  refine ⟨he, ?_⟩
  obtain ⟨hdc, hafter⟩ := hfollows rfl
  simp only [amongThree, List.mem_cons, List.not_mem_nil, or_false] at hdc
  rcases hdc with rfl | rfl | rfl
  · simp [amongThree, hnear, hfar, hother] at hafter
  · exact hd
  · simp [amongThree, hnear, hfar, hother] at hafter

end Balancer

end Rpc
