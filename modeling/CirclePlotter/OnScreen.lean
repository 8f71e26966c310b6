import CirclePlotter.Software

/-!
# Circles that stay on the screen

For a circle whose bounding box is on the screen, no range check of `setpixel`
rejects a call, the 9-bit coordinates of the hardware do not wrap, and both
name the same pixels.
-/

namespace CirclePlotter

/-- The bounding box of the circle is on the screen. -/
structure OnScreen (cx cy r : BitVec 32) : Prop where
  radius : r.toNat ≤ 255
  left : r.toNat ≤ cx.toNat
  right : cx.toNat + r.toNat ≤ 511
  top : r.toNat ≤ cy.toNat
  bottom : cy.toNat + r.toNat ≤ 511

instance (cx cy r : BitVec 32) : Decidable (OnScreen cx cy r) :=
  decidable_of_iff (r.toNat ≤ 255 ∧ r.toNat ≤ cx.toNat ∧ cx.toNat + r.toNat ≤ 511 ∧
      r.toNat ≤ cy.toNat ∧ cy.toNat + r.toNat ≤ 511)
    ⟨fun ⟨radius, left, right, top, bottom⟩ => ⟨radius, left, right, top, bottom⟩,
      fun on => ⟨on.radius, on.left, on.right, on.top, on.bottom⟩⟩

/-- `z[8:0]` of an `int` converted to `unsigned`. -/
theorem setWidth_ofInt (z : Int) : (BitVec.ofInt 32 z).setWidth 9 = BitVec.ofInt 9 z := by
  apply BitVec.eq_of_toNat_eq
  rw [BitVec.toNat_setWidth, BitVec.toNat_ofInt, BitVec.toNat_ofInt]
  omega

theorem setWidth_add_ofInt (c : BitVec 32) (z : Int) :
    (c + BitVec.ofInt 32 z).setWidth 9 = c.setWidth 9 + BitVec.ofInt 9 z := by
  rw [BitVec.setWidth_add _ _ (by decide), setWidth_ofInt]

theorem setWidth_sub_ofInt (c : BitVec 32) (z : Int) :
    (c - BitVec.ofInt 32 z).setWidth 9 = c.setWidth 9 - BitVec.ofInt 9 z := by
  rw [BitVec.sub_eq_add_neg, BitVec.setWidth_add _ _ (by decide),
    BitVec.setWidth_neg_of_le (by decide), setWidth_ofInt, ← BitVec.sub_eq_add_neg]

/-- An offset up to the radius, added or subtracted, stays on the screen. -/
theorem offset_le {c : BitVec 32} {z : Int} {r : ℕ} (nonneg : 0 ≤ z) (le : z ≤ r)
    (low : r ≤ c.toNat) (high : c.toNat + r ≤ 511) :
    c + BitVec.ofInt 32 z ≤ 511 ∧ c - BitVec.ofInt 32 z ≤ 511 := by
  rw [BitVec.le_def, BitVec.le_def, BitVec.toNat_add, BitVec.toNat_sub, BitVec.toNat_ofInt]
  change _ ≤ 511 ∧ _ ≤ 511
  omega

variable {cx cy r : BitVec 32}

theorem OnScreen.within (on : OnScreen cx cy r) {o : Octant}
    (mem : o ∈ (Octant.start r.toInt).visits) : Octant.Within r.toNat o := by
  have small := on.radius
  have radius : r.toInt = r.toNat := BitVec.toInt_eq_toNat_of_lt (by omega)
  rw [radius] at mem
  exact (Octant.within_start (by omega)).of_mem_visits mem

/-- No call of `plotcircle` is rejected. -/
theorem OnScreen.calls_le (on : OnScreen cx cy r) {c : BitVec 32 × BitVec 32}
    (mem : c ∈ plotcircleCalls cx cy r) : c.1 ≤ 511 ∧ c.2 ≤ 511 := by
  obtain ⟨o, visited, call⟩ := List.mem_flatMap.mp mem
  obtain ⟨hy, hyx, hx, -, -⟩ := on.within visited
  obtain ⟨-, left, right, top, bottom⟩ := on
  have cx_x := offset_le (by omega) hx left right
  have cx_y := offset_le hy (by omega) left right
  have cy_x := offset_le (by omega) hx top bottom
  have cy_y := offset_le hy (by omega) top bottom
  simp only [Octant.calls, List.mem_cons, List.not_mem_nil, or_false] at call
  rcases call with rfl | rfl | rfl | rfl | rfl | rfl | rfl | rfl
  · exact ⟨cx_x.1, cy_y.1⟩
  · exact ⟨cx_x.1, cy_y.2⟩
  · exact ⟨cx_x.2, cy_y.1⟩
  · exact ⟨cx_x.2, cy_y.2⟩
  · exact ⟨cx_y.1, cy_x.1⟩
  · exact ⟨cx_y.1, cy_x.2⟩
  · exact ⟨cx_y.2, cy_x.1⟩
  · exact ⟨cx_y.2, cy_x.2⟩

/-- Taken modulo 512, the calls of one iteration are the mirrored pixels. -/
theorem mem_pixels_iff_calls (cx cy : BitVec 32) (o : Octant) (p : Pixel) :
    p ∈ o.pixels (cx.setWidth 9) (cy.setWidth 9) ↔
      ∃ c ∈ o.calls cx cy, (⟨c.1.setWidth 9, c.2.setWidth 9⟩ : Pixel) = p := by
  simp only [Octant.pixels_eq, Octant.corner, Octant.calls, List.mem_cons, List.not_mem_nil,
    or_false, exists_eq_or_imp, exists_eq_left, setWidth_add_ofInt, setWidth_sub_ofInt, eq_comm (b := p)]
  grind

/-- `plotcircle` draws exactly the pixels of the circle. -/
theorem OnScreen.exec_plotcircle (on : OnScreen cx cy r) (mem : ByteMem) :
    ∃ mem', (plotcircle cx cy r).exec screenMemory mem = some ((), mem') ∧
      lit mem' = lit mem ∪
        {p | p ∈ circle (cx.setWidth 9) (cy.setWidth 9) (r.setWidth 8)} := by
  have small := on.radius
  have radius : r.toInt = (r.setWidth 8).toNat := by
    rw [BitVec.toInt_eq_toNat_of_lt (by omega), BitVec.toNat_setWidth, Nat.mod_eq_of_lt (by omega)]
  refine ⟨_, by rw [plotcircle_eq_calls cx cy (by omega), exec_calls], ?_⟩
  rw [lit_foldl_plot]
  congr 1
  ext p
  simp only [Set.mem_ofPred_eq, List.mem_filterMap, circle, List.mem_flatMap]
  constructor
  · intro called
    rcases called with ⟨c, call, shown⟩
    obtain ⟨o, visited, call'⟩ := List.mem_flatMap.mp call
    rw [clip, if_pos (on.calls_le call)] at shown
    rw [radius] at visited
    exact ⟨o, visited, (mem_pixels_iff_calls cx cy o p).mpr ⟨c, call', Option.some.inj shown⟩⟩
  · intro inCircle
    rcases inCircle with ⟨o, visited, drawn⟩
    obtain ⟨c, call', rfl⟩ := (mem_pixels_iff_calls cx cy o p).mp drawn
    rw [← radius] at visited
    have call := List.mem_flatMap.mpr ⟨o, visited, call'⟩
    exact ⟨c, call, if_pos (on.calls_le call)⟩

/-- The reference case adds the pixels of all circles. -/
theorem exec_plotallcircles_ref {dx dy dr : Fin 50 → BitVec 32}
    (on : ∀ i, OnScreen (dx i) (dy i) (dr i)) (mem : ByteMem) :
    ∃ mem', (plotallcircles_ref dx dy dr).exec screenMemory mem = some ((), mem') ∧
      lit mem' = lit mem ∪
        {p | ∃ i, p ∈ circle ((dx i).setWidth 9) ((dy i).setWidth 9) ((dr i).setWidth 8)} := by
  have each (is : List (Fin 50)) (mem : ByteMem) :
      ∃ mem', (forM is fun i => plotcircle (dx i) (dy i) (dr i) : CProgram PUnit).exec
          screenMemory mem = some ((), mem') ∧
        lit mem' = lit mem ∪ {p | ∃ i ∈ is,
          p ∈ circle ((dx i).setWidth 9) ((dy i).setWidth 9) ((dr i).setWidth 8)} := by
    induction is generalizing mem with
    | nil => exact ⟨mem, rfl, by simp⟩
    | cons i is ih =>
        obtain ⟨mem₁, first, drawn₁⟩ := (on i).exec_plotcircle mem
        obtain ⟨mem₂, rest, drawn₂⟩ := ih mem₁
        refine ⟨mem₂, ?_, ?_⟩
        · rw [List.forM_cons, Program.exec_bind, first, Option.bind_some, rest]
        · rw [drawn₂, drawn₁]
          ext p
          simp only [Set.mem_union, Set.mem_ofPred_eq, List.mem_cons, exists_eq_or_imp, or_assoc]
  obtain ⟨mem', run, drawn⟩ := each (List.finRange 50) mem
  refine ⟨mem', run, ?_⟩
  rw [drawn]
  simp

end CirclePlotter
