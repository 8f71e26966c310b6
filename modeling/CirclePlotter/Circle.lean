import CirclePlotter.Midpoint
import CirclePlotter.Raster

/-!
# The pixels of a circle

Both plotting designs draw each position of the midpoint walk as four pairs of
mirrored pixels, one pair in each of the states `WRITE0` to `WRITE3`, with the
coordinates wrapping modulo 512. `circle rx ry r` is all of them.
-/

namespace CirclePlotter

namespace Octant

/-- The pair of pixels drawn in state `WRITEj` around the centre `(rx, ry)`. -/
def corner (rx ry : BitVec 9) (o : Octant) (j : Fin 4) : Pixel × Pixel :=
  let x := BitVec.ofInt 9 o.x
  let y := BitVec.ofInt 9 o.y
  match j with
  | 0 => (⟨rx + x, ry + y⟩, ⟨rx + y, ry + x⟩)
  | 1 => (⟨rx + x, ry - y⟩, ⟨rx + y, ry - x⟩)
  | 2 => (⟨rx - x, ry + y⟩, ⟨rx - y, ry + x⟩)
  | 3 => (⟨rx - x, ry - y⟩, ⟨rx - y, ry - x⟩)

/-- The eight mirror images of one position of the walk. -/
def pixels (rx ry : BitVec 9) (o : Octant) : List Pixel :=
  (List.finRange 4).flatMap fun j => [(o.corner rx ry j).1, (o.corner rx ry j).2]

theorem pixels_eq (rx ry : BitVec 9) (o : Octant) :
    o.pixels rx ry =
      [(o.corner rx ry 0).1, (o.corner rx ry 0).2, (o.corner rx ry 1).1, (o.corner rx ry 1).2,
        (o.corner rx ry 2).1, (o.corner rx ry 2).2, (o.corner rx ry 3).1,
        (o.corner rx ry 3).2] := rfl

theorem mem_pixels {rx ry : BitVec 9} {o : Octant} {p : Pixel} :
    p ∈ o.pixels rx ry ↔ ∃ j, p = (o.corner rx ry j).1 ∨ p = (o.corner rx ry j).2 := by
  simp [pixels]

section Offset

variable {c p : BitVec 9} {z : Int} (nonneg : 0 ≤ z) (small : z ≤ 255)

include nonneg small

theorem eq_add_ofInt_iff : p = c + BitVec.ofInt 9 z ↔ (p - c).toInt = z := by
  have exact : (BitVec.ofInt 9 z).toInt = z :=
    BitVec.toInt_ofInt_eq_self (by decide) (by omega) (by omega)
  rw [BitVec.add_comm, ← BitVec.sub_eq_iff_eq_add, ← BitVec.toInt_inj, exact]

theorem eq_sub_ofInt_iff : p = c - BitVec.ofInt 9 z ↔ (p - c).toInt = -z := by
  have exact : (BitVec.ofInt 9 (-z)).toInt = -z :=
    BitVec.toInt_ofInt_eq_self (by decide) (by omega) (by omega)
  rw [BitVec.sub_eq_add_neg, ← BitVec.ofInt_neg, BitVec.add_comm, ← BitVec.sub_eq_iff_eq_add,
    ← BitVec.toInt_inj, exact]

end Offset

/-- Read as signed distances from the centre, the coordinates of the eight
pixels are those of the position. -/
theorem mem_pixels_iff {rx ry : BitVec 9} {o : Octant} {p : Pixel} (nonnegX : 0 ≤ o.x)
    (smallX : o.x ≤ 255) (nonnegY : 0 ≤ o.y) (smallY : o.y ≤ 255) :
    p ∈ o.pixels rx ry ↔
      (|(p.x - rx).toInt| = o.x ∧ |(p.y - ry).toInt| = o.y) ∨
        (|(p.x - rx).toInt| = o.y ∧ |(p.y - ry).toInt| = o.x) := by
  rw [abs_eq nonnegX, abs_eq nonnegX, abs_eq nonnegY, abs_eq nonnegY]
  simp only [pixels_eq, corner, List.mem_cons, List.not_mem_nil, or_false, Pixel.ext_iff,
    eq_add_ofInt_iff nonnegX smallX, eq_add_ofInt_iff nonnegY smallY,
    eq_sub_ofInt_iff nonnegX smallX, eq_sub_ofInt_iff nonnegY smallY]
  grind

/-- The pixels of the pairs from `k` on. -/
def pairsFrom (rx ry : BitVec 9) (o : Octant) (k : ℕ) : Set Pixel :=
  {p | ∃ j : Fin 4, k ≤ j ∧ (p = (o.corner rx ry j).1 ∨ p = (o.corner rx ry j).2)}

theorem pairsFrom_zero (rx ry : BitVec 9) (o : Octant) :
    o.pairsFrom rx ry 0 = {p | p ∈ o.pixels rx ry} := by
  ext p
  simp [pairsFrom, mem_pixels]

theorem pairsFrom_four (rx ry : BitVec 9) (o : Octant) : o.pairsFrom rx ry 4 = ∅ := by
  ext p
  simp only [pairsFrom, Set.mem_ofPred_eq, Set.mem_empty_iff_false, iff_false]
  intro drawn
  rcases drawn with ⟨j, late, -⟩
  omega

theorem pairsFrom_succ (rx ry : BitVec 9) (o : Octant) (j : Fin 4) :
    o.pairsFrom rx ry j =
      insert (o.corner rx ry j).2 (insert (o.corner rx ry j).1 (o.pairsFrom rx ry (j + 1))) := by
  ext p
  simp only [pairsFrom, Set.mem_insert_iff, Set.mem_ofPred_eq]
  constructor
  · intro left
    rcases left with ⟨j', from_j, drawn⟩
    rcases Nat.eq_or_lt_of_le from_j with same | later
    · obtain rfl := Fin.ext same
      exact drawn.symm.imp_right Or.inl
    · exact Or.inr (Or.inr ⟨j', later, drawn⟩)
  · intro left
    rcases left with rfl | rfl | ⟨j', later, drawn⟩
    · exact ⟨j, Nat.le_refl _, Or.inr rfl⟩
    · exact ⟨j, Nat.le_refl _, Or.inl rfl⟩
    · exact ⟨j', Nat.le_of_succ_le later, drawn⟩

/-- The two pixels of a pair share a byte only on the diagonal, where they are
one pixel; so the two ports of a RAM never write different bytes there. -/
theorem corner_eq_of_addr {rx ry : BitVec 9} {o : Octant} {j : Fin 4}
    (byte : (o.corner rx ry j).1.addr = (o.corner rx ry j).2.addr) :
    (o.corner rx ry j).1 = (o.corner rx ry j).2 := by
  have rows : (o.corner rx ry j).1.y = (o.corner rx ry j).2.y := by
    have byteN := congrArg BitVec.toNat byte
    rw [Pixel.addr_toNat, Pixel.addr_toNat] at byteN
    have h1 := (o.corner rx ry j).1.x.isLt
    have h2 := (o.corner rx ry j).2.x.isLt
    apply BitVec.eq_of_toNat_eq
    omega
  have same : BitVec.ofInt 9 o.y = BitVec.ofInt 9 o.x := by
    unfold corner at rows
    split at rows
    · exact (BitVec.add_right_inj _).mp rows
    · exact (BitVec.sub_right_inj _).mp rows
    · exact (BitVec.add_right_inj _).mp rows
    · exact (BitVec.sub_right_inj _).mp rows
  unfold corner
  rw [same]
  split <;> rfl

end Octant

/-- The pixels of the circle with centre `(rx, ry)` and radius `r`. -/
def circle (rx ry : BitVec 9) (r : BitVec 8) : List Pixel :=
  (Octant.start r.toNat).visits.flatMap (Octant.pixels rx ry)

/-- A circle of radius 0 is its centre. -/
theorem mem_circle_zero {rx ry : BitVec 9} {p : Pixel} : p ∈ circle rx ry 0 ↔ p = ⟨rx, ry⟩ := by
  have visits : (Octant.start ((0 : BitVec 8).toNat : Int)).visits = [Octant.start 0] :=
    Octant.visits_start_zero
  have exact_iff {a c : BitVec 9} : (a - c).toInt = 0 ↔ a = c := by
    rw [← BitVec.toInt_zero (w := 9), BitVec.toInt_inj, BitVec.sub_eq_iff_eq_add, BitVec.zero_add]
  rw [circle, visits, List.flatMap_singleton,
    Octant.mem_pixels_iff (by decide) (by decide) (by decide) (by decide), Pixel.ext_iff]
  simp only [Octant.start, abs_eq_zero, exact_iff, or_self]

end CirclePlotter
