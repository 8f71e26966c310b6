import CirclePlotter.Midpoint

/-!
# The registers of the circle engines

Both designs keep a position of the walk in a 10-bit `x` and `y` and an 11-bit
`xp`, all signed, and load them from one 32-bit word. Within the bounds of the
walk the arithmetic of these registers is exact.
-/

namespace CirclePlotter

/-! ## The word that loads a circle -/

/-- `writedata[8:0]`. -/
def wordRx (w : BitVec 32) : BitVec 9 := w.extractLsb' 0 9

/-- `writedata[17:9]`. -/
def wordRy (w : BitVec 32) : BitVec 9 := w.extractLsb' 9 9

/-- `writedata[25:18]`. -/
def wordRadius (w : BitVec 32) : BitVec 8 := w.extractLsb' 18 8

/-! ## Signed registers -/

theorem toInt_add_of_fits {w : Nat} {a b : BitVec w}
    (lo : -(2 ^ w : Int) ≤ 2 * (a.toInt + b.toInt)) (hi : 2 * (a.toInt + b.toInt) < 2 ^ w) :
    (a + b).toInt = a.toInt + b.toInt := by
  rw [BitVec.toInt_add]
  exact Int.bmod_eq_of_le_mul_two (by push_cast; omega) (by push_cast; omega)

theorem toInt_sub_of_fits {w : Nat} {a b : BitVec w}
    (lo : -(2 ^ w : Int) ≤ 2 * (a.toInt - b.toInt)) (hi : 2 * (a.toInt - b.toInt) < 2 ^ w) :
    (a - b).toInt = a.toInt - b.toInt := by
  rw [BitVec.toInt_sub]
  exact Int.bmod_eq_of_le_mul_two (by push_cast; omega) (by push_cast; omega)

/-- `{z, 1'b0}` doubles a signed value. -/
theorem toInt_append_zero (z : BitVec 10) : (z ++ 0#1 : BitVec 11).toInt = 2 * z.toInt := by
  have below := z.isLt
  have double : (z ++ 0#1 : BitVec 11).toNat = 2 * z.toNat := by
    rw [BitVec.toNat_append]
    simp [Nat.shiftLeft_eq]
    omega
  rw [BitVec.toInt_eq_toNat_cond, BitVec.toInt_eq_toNat_cond, double]
  split <;> split <;> omega

/-- `z[8:0]` keeps a signed value modulo 512. -/
theorem setWidth_eq_ofInt (z : BitVec 10) : z.setWidth 9 = BitVec.ofInt 9 z.toInt := by
  apply BitVec.eq_of_toNat_eq
  rw [BitVec.toNat_setWidth, BitVec.toNat_ofInt, BitVec.toInt_eq_toNat_cond]
  have below := z.isLt
  split <;> omega

/-- `COMPUTE` on the registers: within the bounds of the walk it is the exact
step of the walk. -/
theorem next_registers {x y : BitVec 10} {xp : BitVec 11} {r : Int} (small : r ≤ 255)
    (within : Octant.Within r ⟨x.toInt, y.toInt, xp.toInt⟩) :
    (if xp.slt 0 then ⟨x.toInt, (y + 1).toInt, (xp + ((y + 1) ++ 0#1) + 1).toInt⟩
      else ⟨(x - 1).toInt, (y + 1).toInt,
        (xp + ((y + 1 - (x - 1)) ++ 0#1) + 1).toInt⟩ : Octant) =
      Octant.next ⟨x.toInt, y.toInt, xp.toInt⟩ := by
  obtain ⟨hy, hyx, hx, hge, hle⟩ := within
  simp only at hy hyx hx hge hle
  have one10 : (1 : BitVec 10).toInt = 1 := rfl
  have one11 : (1 : BitVec 11).toInt = 1 := rfl
  have zero11 : (0 : BitVec 11).toInt = 0 := rfl
  have y1 : (y + 1).toInt = y.toInt + 1 := by
    rw [toInt_add_of_fits] <;> rw [one10] <;> omega
  have x1 : (x - 1).toInt = x.toInt - 1 := by
    rw [toInt_sub_of_fits] <;> rw [one10] <;> omega
  by_cases neg : xp.toInt < 0
  · have test : xp.slt 0 = true := by rw [BitVec.slt, zero11, decide_eq_true neg]
    have twice := toInt_append_zero (y + 1)
    have sum : (xp + ((y + 1) ++ 0#1)).toInt = xp.toInt + 2 * (y.toInt + 1) := by
      rw [toInt_add_of_fits] <;> rw [twice, y1] <;> omega
    have xp' : (xp + ((y + 1) ++ 0#1) + 1).toInt = xp.toInt + 2 * (y.toInt + 1) + 1 := by
      rw [toInt_add_of_fits] <;> rw [sum, one11] <;> omega
    have step := Octant.next_of_neg (o := ⟨x.toInt, y.toInt, xp.toInt⟩) neg
    rw [if_pos test, step, xp', y1]
    exact congrArg (Octant.mk _ _) (Int.add_assoc _ _ _)
  · have test : ¬ xp.slt 0 = true := by rw [BitVec.slt, zero11, decide_eq_true_eq]; exact neg
    have gap : (y + 1 - (x - 1)).toInt = y.toInt + 1 - (x.toInt - 1) := by
      rw [toInt_sub_of_fits] <;> rw [y1, x1] <;> omega
    have twice := toInt_append_zero (y + 1 - (x - 1))
    have sum : (xp + ((y + 1 - (x - 1)) ++ 0#1)).toInt =
        xp.toInt + 2 * (y.toInt + 1 - (x.toInt - 1)) := by
      rw [toInt_add_of_fits] <;> rw [twice, gap] <;> omega
    have xp' : (xp + ((y + 1 - (x - 1)) ++ 0#1) + 1).toInt =
        xp.toInt + 2 * (y.toInt + 1 - (x.toInt - 1)) + 1 := by
      rw [toInt_add_of_fits] <;> rw [sum, one11] <;> omega
    have step := Octant.next_of_nonneg (o := ⟨x.toInt, y.toInt, xp.toInt⟩) (Int.not_lt.mp neg)
    rw [if_neg test, step, xp', y1, x1]
    exact congrArg (Octant.mk _ _) (Int.add_assoc _ _ _)

/-- A load puts the registers at the start of the walk. -/
theorem start_registers (r : BitVec 8) :
    (⟨(r.setWidth 10).toInt, (0 : BitVec 10).toInt, (-r.setWidth 11 + 1).toInt⟩ : Octant) =
      Octant.start r.toNat := by
  have below := r.isLt
  have one11 : (1 : BitVec 11).toInt = 1 := rfl
  have zero10 : (0 : BitVec 10).toInt = 0 := rfl
  have r10 : (r.setWidth 10).toInt = r.toNat := by
    rw [BitVec.toInt_eq_toNat_of_lt] <;> rw [BitVec.toNat_setWidth] <;> omega
  have r11 : (r.setWidth 11).toInt = r.toNat := by
    rw [BitVec.toInt_eq_toNat_of_lt] <;> rw [BitVec.toNat_setWidth] <;> omega
  have neg : (-r.setWidth 11).toInt = -(r.toNat : Int) := by
    rw [BitVec.toInt_neg, r11]
    exact Int.bmod_eq_of_le_mul_two (by push_cast; omega) (by push_cast; omega)
  have xp : (-r.setWidth 11 + 1).toInt = 1 - r.toNat := by
    rw [toInt_add_of_fits] <;> rw [neg, one11] <;> omega
  rw [r10, xp, zero10]
  rfl

end CirclePlotter
