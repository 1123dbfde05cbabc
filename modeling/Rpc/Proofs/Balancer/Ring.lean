import Mathlib.Data.List.Induction
import Rpc.Balancer

/-!
# Where a key goes on a ring

- `Ring.IsNext`: the address clockwise from a place, said without a ring;
- `Ring.insertPoint` keeps points in ascending order (`ascending_insertPoint`) and says which address stands at each of
  them (`mem_insertPoint`), so a ring holds its candidates at their points (`mem_points_build`);
- `Ring.route_build`: where the candidates have points of their own, a key goes to the next address.
-/

namespace Rpc

namespace Ring

variable {cs ds : List SocketAddress} {a b : SocketAddress} {p q h : UInt64} {ps : List (UInt64 × SocketAddress)}

/-- The candidates stand at different points. -/
def Apart (cs : List SocketAddress) : Prop := ∀ a ∈ cs, ∀ b ∈ cs, a.point = b.point → a = b

/-- The candidate clockwise from a place: its point is the least at or after the place, or the least of all if there
is none at or after it. -/
def IsNext (cs : List SocketAddress) (h : UInt64) (a : SocketAddress) : Prop :=
  a ∈ cs ∧ ((h ≤ a.point ∧ ∀ b ∈ cs, h ≤ b.point → a.point ≤ b.point) ∨
    ((∀ b ∈ cs, b.point < h) ∧ ∀ b ∈ cs, a.point ≤ b.point))

/-- Only the set of candidates matters. -/
theorem isNext_congr (hset : ∀ a, a ∈ cs ↔ a ∈ ds) : IsNext cs h a ↔ IsNext ds h a := by
  simp only [IsNext, hset]

theorem apart_congr (hset : ∀ a, a ∈ cs ↔ a ∈ ds) : Apart cs ↔ Apart ds := by
  simp only [Apart, hset]

theorem isNext_singleton (a : SocketAddress) (h : UInt64) : IsNext [a] h a := by
  have hleast : ∀ b ∈ [a], a.point ≤ b.point := fun b hb => by
    rw [List.mem_singleton.mp hb]
    exact UInt64.le_refl _
  refine ⟨List.mem_singleton_self a, ?_⟩
  by_cases hle : h ≤ a.point
  · exact .inl ⟨hle, fun b hb _ => hleast b hb⟩
  · refine .inr ⟨fun b hb => ?_, hleast⟩
    rw [List.mem_singleton.mp hb]
    exact UInt64.not_le.mp hle

/-- No candidate that could be the next one comes before it. -/
theorem IsNext.point_le (ha : IsNext cs h a) (hb : IsNext cs h b) : a.point ≤ b.point := by
  obtain ⟨hma, ⟨hafter, hleast⟩ | ⟨hnone, hleast⟩⟩ := ha
  · obtain ⟨hmb, ⟨hafter', -⟩ | ⟨hnone', -⟩⟩ := hb
    · exact hleast b hmb hafter'
    · exact absurd (hnone' a hma) (UInt64.not_lt.mpr hafter)
  · exact hleast b hb.1

/-- There is no more than one next candidate. -/
theorem IsNext.unique (hcs : Apart cs) (ha : IsNext cs h a) (hb : IsNext cs h b) : a = b :=
  hcs a ha.1 b hb.1 (UInt64.le_antisymm (ha.point_le hb) (hb.point_le ha))

/-! ## Points in order -/

/-- Points in ascending order, one address at each of them. -/
def Ascending (ps : List (UInt64 × SocketAddress)) : Prop := ps.Pairwise fun x y => x.1 < y.1

/-- The new address stands at its point, the others stay at theirs. -/
theorem mem_insertPoint (hps : Ascending ps) :
    (q, b) ∈ insertPoint p a ps ↔ q = p ∧ b = a ∨ q ≠ p ∧ (q, b) ∈ ps := by
  induction ps with
  | nil => simp [insertPoint]
  | cons x rest ih =>
    obtain ⟨hx, hrest⟩ := List.pairwise_cons.mp hps
    have hlater (y) (hy : y ∈ rest) : y.1 ≠ x.1 := (UInt64.ne_of_lt (hx y hy)).symm
    simp only [insertPoint]
    split
    · next hlt =>
      -- All points that are there come after the new one.
      have hne : (q, b) ∈ x :: rest → q ≠ p := by
        intro hm hq
        rcases List.mem_cons.mp hm with hm | hm
        · exact absurd hlt (by simp [← hm, hq])
        · exact absurd (UInt64.lt_trans hlt (hx _ hm)) (by simp [hq])
      rw [List.mem_cons, Prod.mk.injEq]
      exact ⟨fun h => h.imp_right fun hm => ⟨hne hm, hm⟩, fun h => h.imp_right And.right⟩
    · split
      · next heq =>
        grind
      · next hne =>
        have := ih hrest
        grind

theorem ascending_insertPoint (p : UInt64) (a : SocketAddress) (hps : Ascending ps) :
    Ascending (insertPoint p a ps) := by
  induction ps with
  | nil => exact List.pairwise_singleton _ _
  | cons x rest ih =>
    obtain ⟨hx, hrest⟩ := List.pairwise_cons.mp hps
    simp only [insertPoint]
    split
    · next hlt =>
      refine List.pairwise_cons.mpr ⟨fun y hy => ?_, hps⟩
      rcases List.mem_cons.mp hy with rfl | hy
      · exact hlt
      · exact UInt64.lt_trans hlt (hx y hy)
    · split
      · next heq => exact List.pairwise_cons.mpr ⟨fun y hy => heq ▸ hx y hy, hrest⟩
      · next hge hne =>
        refine List.pairwise_cons.mpr ⟨fun y hy => ?_, ih hrest⟩
        rcases (mem_insertPoint hrest).mp hy with ⟨hp, -⟩ | ⟨-, hy⟩
        · rw [hp]
          exact UInt64.lt_of_le_of_ne (UInt64.not_lt.mp hge) fun h => hne h.symm
        · exact hx y hy

/-! ## The ring of some candidates -/

/-- The points of a ring are in order. -/
theorem ascending_build (cs : List SocketAddress) : Ascending (build cs).points := by
  unfold build
  induction cs using List.reverseRecOn with
  | nil => exact .nil
  | append_singleton cs a ih =>
    rw [List.foldl_append]
    exact ascending_insertPoint a.point a ih

/-- Candidates that stand apart are all on the ring, each at its point. -/
theorem mem_points_build (hcs : Apart cs) : (p, a) ∈ (build cs).points ↔ a ∈ cs ∧ p = a.point := by
  induction cs using List.reverseRecOn generalizing p a with
  | nil => simp [build]
  | append_singleton cs c ih =>
    have hsub : Apart cs := fun a ha b hb => hcs a (by simp [ha]) b (by simp [hb])
    have hstep : (build (cs ++ [c])).points = insertPoint c.point c (build cs).points := by
      simp [build, List.foldl_append]
    rw [hstep, mem_insertPoint (ascending_build cs), ih hsub, List.mem_append, List.mem_singleton]
    constructor
    · rintro (⟨rfl, rfl⟩ | ⟨-, ha, rfl⟩)
      · exact ⟨.inr rfl, rfl⟩
      · exact ⟨.inl ha, rfl⟩
    · rintro ⟨ha | rfl, rfl⟩
      · -- An old address at the point of the new one is the new one.
        by_cases hp : a.point = c.point
        · exact .inl ⟨hp, hcs a (by simp [ha]) c (by simp) hp⟩
        · exact .inr ⟨hp, ha, rfl⟩
      · exact .inl ⟨rfl, rfl⟩

/-! ## Routes -/

/-- Of points in order, the first at or after a place is the least of these. -/
theorem least_of_find? (hps : Ascending ps) {x : UInt64 × SocketAddress}
    (hx : ps.find? (fun (p, _) => h ≤ p) = some x) :
    x ∈ ps ∧ h ≤ x.1 ∧ ∀ y ∈ ps, h ≤ y.1 → x.1 ≤ y.1 := by
  obtain ⟨hafter, before, rest, rfl, hbefore⟩ := List.find?_eq_some_iff_append.mp hx
  refine ⟨by simp, by simpa using hafter, fun y hy hle => ?_⟩
  obtain ⟨-, htail, -⟩ := List.pairwise_append.mp hps
  rcases List.mem_append.mp hy with hy | hy
  · exact absurd hle (by simpa using hbefore y hy)
  · rcases List.mem_cons.mp hy with rfl | hy
    · exact UInt64.le_refl _
    · exact UInt64.le_of_lt ((List.pairwise_cons.mp htail).1 y hy)

/-- Of points in order, the first is the least of all. -/
theorem least_of_head? (hps : Ascending ps) {x : UInt64 × SocketAddress} (hx : ps.head? = some x) :
    x ∈ ps ∧ ∀ y ∈ ps, x.1 ≤ y.1 := by
  obtain ⟨rest, rfl⟩ := List.head?_eq_some_iff.mp hx
  refine ⟨List.mem_cons_self, fun y hy => ?_⟩
  rcases List.mem_cons.mp hy with rfl | hy
  · exact UInt64.le_refl _
  · exact UInt64.le_of_lt ((List.pairwise_cons.mp hps).1 y hy)

/-- Where candidates stand apart, a key goes nowhere but to the next one. -/
theorem isNext_of_route (hcs : Apart cs) (ha : (build cs).route h = some a) : IsNext cs h a := by
  have hps := ascending_build cs
  have hmem {x : UInt64 × SocketAddress} (hx : x ∈ (build cs).points) : x.2 ∈ cs ∧ x.1 = x.2.point :=
    (mem_points_build hcs).mp hx
  have hpoint {b : SocketAddress} (hb : b ∈ cs) : (b.point, b) ∈ (build cs).points :=
    (mem_points_build hcs).mpr ⟨hb, rfl⟩
  obtain ⟨x, hx, rfl⟩ := Option.map_eq_some_iff.mp ha
  cases hfind : (build cs).points.find? fun (p, _) => h ≤ p with
  | some y =>
    obtain rfl : y = x := by simpa [hfind] using hx
    obtain ⟨hy, hafter, hleast⟩ := least_of_find? hps hfind
    obtain ⟨hcand, hat⟩ := hmem hy
    rw [hat] at hafter hleast
    exact ⟨hcand, .inl ⟨hafter, fun b hb => hleast _ (hpoint hb)⟩⟩
  | none =>
    have hhead : (build cs).points.head? = some x := by simpa [hfind] using hx
    obtain ⟨hy, hleast⟩ := least_of_head? hps hhead
    obtain ⟨hcand, hat⟩ := hmem hy
    rw [hat] at hleast
    have hnone (b : SocketAddress) (hb : b ∈ cs) : b.point < h := by
      simpa using List.find?_eq_none.mp hfind _ (hpoint hb)
    exact ⟨hcand, .inr ⟨hnone, fun b hb => hleast _ (hpoint hb)⟩⟩

/-- A ring with a candidate on it sends every key somewhere. -/
theorem exists_route (hcs : Apart cs) (hb : b ∈ cs) (h : UInt64) : ∃ a, (build cs).route h = some a := by
  have hpoint : (b.point, b) ∈ (build cs).points := (mem_points_build hcs).mpr ⟨hb, rfl⟩
  obtain ⟨x, ps, hps⟩ := List.exists_cons_of_ne_nil (List.ne_nil_of_mem hpoint)
  unfold route
  rw [hps, List.head?_cons]
  cases (x :: ps).find? fun (p, _) => h ≤ p with
  | none => exact ⟨x.2, rfl⟩
  | some y => exact ⟨y.2, rfl⟩

/-- Where candidates stand apart, a key goes to the next one. -/
theorem route_build (hcs : Apart cs) : (build cs).route h = some a ↔ IsNext cs h a := by
  refine ⟨isNext_of_route hcs, fun ha => ?_⟩
  obtain ⟨b, hb⟩ := exists_route hcs ha.1 h
  rw [hb, ha.unique hcs (isNext_of_route hcs hb)]

end Ring

end Rpc
