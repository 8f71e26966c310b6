import CirclePlotter.Nearest
import CirclePlotter.Software

/-!
# The picture of `plotcircle`

For radii below `2^30` and centres below `2^31` the C loop does not overflow,
and what `getpixel` reads back afterwards is what was on the screen before
together with the lattice points nearest to the circle. The parts of the circle
off the screen are dropped: `cx + x` stays below `2^32`, and `cx - x` wraps to
a value that the range checks of `setpixel` reject.
-/

namespace CirclePlotter

open Octant (Nearest)

/-! ## Reading a pixel back -/

/-- `screen[bytenum] & (1 << bitnum)` is the bit of the pixel. -/
theorem getpixel_word (x y : BitVec 32) (byte : BitVec 8) :
    byte.setWidth 32 &&& 1#32 <<< (x % 8) ≠ 0 ↔
      byte.getLsbD (Pixel.bit ⟨x.setWidth 9, y.setWidth 9⟩).toNat = true := by
  have bit : (x % 8).toNat = (Pixel.bit ⟨x.setWidth 9, y.setWidth 9⟩).toNat := by
    rw [Pixel.bit_toNat, BitVec.toNat_umod, BitVec.toNat_setWidth]
    change x.toNat % 8 = _
    omega
  have below := (Pixel.bit ⟨x.setWidth 9, y.setWidth 9⟩).isLt
  rw [BitVec.shiftLeft_eq', bit]
  generalize (Pixel.bit ⟨x.setWidth 9, y.setWidth 9⟩).toNat = b at below
  have selected (k : ℕ) (inWord : k < 32) :
      (byte.setWidth 32 &&& 1#32 <<< b).getLsbD k = (decide (k = b) && byte.getLsbD k) := by
    rw [BitVec.getLsbD_and, BitVec.getLsbD_setWidth, BitVec.getLsbD_shiftLeft, BitVec.getLsbD_one]
    rw [Bool.eq_iff_iff]
    simp only [Bool.and_eq_true, decide_eq_true_eq, Bool.not_eq_true', decide_eq_false_iff_not]
    constructor
    · intro bits
      exact ⟨by omega, bits.1.2⟩
    · intro bits
      exact ⟨⟨inWord, bits.2⟩, ⟨inWord, by omega⟩, by decide, by omega⟩
  rw [← not_iff_not, not_not, Bool.not_eq_true]
  constructor
  · intro zero
    have at_b := selected b (by omega)
    rw [zero] at at_b
    simpa using at_b.symm
  · intro clear
    apply BitVec.eq_of_getLsbD_eq
    intro k inWord
    rw [selected k inWord]
    by_cases here : k = b
    · simp [here, clear]
    · simp [here]

theorem exec_getpixel {x y : BitVec 32} (hx : x ≤ 511) (hy : y ≤ 511) (mem : ByteMem) :
    (getpixel x y).exec screenMemory mem = some (1, mem) ↔
      (⟨x.setWidth 9, y.setWidth 9⟩ : Pixel) ∈ lit mem := by
  have inRange := bytenum_lt hx hy
  unfold getpixel
  rw [if_neg (by simpa using hx), if_neg (by simpa using hy), mem_lit]
  simp only [Program.read, Program.load_bind, Program.pure_bind', Program.exec, screenMemory,
    inRange, if_true, bytenum_eq_addr hx hy]
  rw [← getpixel_word]
  split
  · next shown => exact iff_of_true rfl shown
  · next dark => exact iff_of_false (by intro same; cases same) dark

/-! ## Calls on and off the screen -/

theorem clip_eq_some {c : BitVec 32 × BitVec 32} {px py : BitVec 32} (hx : px ≤ 511)
    (hy : py ≤ 511) : clip c = some ⟨px.setWidth 9, py.setWidth 9⟩ ↔ c = (px, py) := by
  have narrow {a b : BitVec 32} (ha : a ≤ 511) (hb : b ≤ 511)
      (same : a.setWidth 9 = b.setWidth 9) : a = b := by
    have ha' : a.toNat ≤ 511 := ha
    have hb' : b.toNat ≤ 511 := hb
    have sameN := congrArg BitVec.toNat same
    rw [BitVec.toNat_setWidth, BitVec.toNat_setWidth] at sameN
    exact BitVec.eq_of_toNat_eq (by omega)
  unfold clip
  constructor
  · intro shown
    split at shown
    · next inRange =>
        have same := Pixel.ext_iff.mp (Option.some.inj shown)
        exact Prod.ext (narrow inRange.1 hx same.1) (narrow inRange.2 hy same.2)
    · cases shown
  · intro same
    rw [same, if_pos ⟨hx, hy⟩]

section Offset

variable {c p : BitVec 32} {z : Int} (nonneg : 0 ≤ z) (small : z < 2 ^ 31)
  (centre : c.toNat < 2 ^ 31) (shown : p ≤ 511)

include nonneg small centre shown

/-- `c + z` does not wrap. -/
theorem add_offset_iff : p = c + BitVec.ofInt 32 z ↔ (p.toNat : Int) - c.toNat = z := by
  have shown' : p.toNat ≤ 511 := shown
  rw [← BitVec.toNat_inj, BitVec.toNat_add, BitVec.toNat_ofInt]
  omega

/-- `c - z` wraps, if at all, beyond the range checks. -/
theorem sub_offset_iff : p = c - BitVec.ofInt 32 z ↔ (p.toNat : Int) - c.toNat = -z := by
  have shown' : p.toNat ≤ 511 := shown
  rw [← BitVec.toNat_inj, BitVec.toNat_sub, BitVec.toNat_ofInt]
  omega

end Offset

/-- One iteration sets the points of the screen at distances `x` and `y`. -/
theorem mem_calls_iff {cx cy px py : BitVec 32} {o : Octant} (centreX : cx.toNat < 2 ^ 31)
    (centreY : cy.toNat < 2 ^ 31) (hx : px ≤ 511) (hy : py ≤ 511) (nonneg : 0 ≤ o.y)
    (inside : o.y ≤ o.x) (small : o.x < 2 ^ 31) :
    (px, py) ∈ o.calls cx cy ↔
      (|(px.toNat : Int) - cx.toNat| = o.x ∧ |(py.toNat : Int) - cy.toNat| = o.y) ∨
        (|(px.toNat : Int) - cx.toNat| = o.y ∧ |(py.toNat : Int) - cy.toNat| = o.x) := by
  have wide : 0 ≤ o.x := by omega
  have low : o.y < 2 ^ 31 := by omega
  rw [abs_eq wide, abs_eq wide, abs_eq nonneg, abs_eq nonneg]
  simp only [Octant.calls, List.mem_cons, List.not_mem_nil, or_false, Prod.mk.injEq,
    add_offset_iff wide small centreX hx, sub_offset_iff wide small centreX hx,
    add_offset_iff nonneg low centreX hx, sub_offset_iff nonneg low centreX hx,
    add_offset_iff wide small centreY hy, sub_offset_iff wide small centreY hy,
    add_offset_iff nonneg low centreY hy, sub_offset_iff nonneg low centreY hy]
  grind

/-! ## The picture -/

/-- The points of the circle: for radius 0 the centre, else the points whose
distances from the centre, the larger one first, are nearest. -/
def OnReference (cx cy r px py : BitVec 32) : Prop :=
  if r = 0 then px = cx ∧ py = cy
  else
    let dx := |(px.toNat : Int) - cx.toNat|
    let dy := |(py.toNat : Int) - cy.toNat|
    Nearest r.toNat (max dx dy) (min dx dy)

instance (cx cy r px py : BitVec 32) : Decidable (OnReference cx cy r px py) :=
  inferInstanceAs (Decidable (if r = 0 then _ ∧ _ else Nearest _ _ _))

variable {cx cy r px py : BitVec 32}

/-- The points of the circle are those at the distances of a position of the walk. -/
theorem onReference_iff (cx cy r px py : BitVec 32) :
    OnReference cx cy r px py ↔ ∃ o ∈ (Octant.start r.toNat).visits,
      o.x = max |(px.toNat : Int) - cx.toNat| |(py.toNat : Int) - cy.toNat| ∧
        o.y = min |(px.toNat : Int) - cx.toNat| |(py.toNat : Int) - cy.toNat| := by
  unfold OnReference
  have dx := abs_nonneg ((px.toNat : Int) - cx.toNat)
  have dy := abs_nonneg ((py.toNat : Int) - cy.toNat)
  by_cases zero : r = 0
  · have visits : (Octant.start ((0 : BitVec 32).toNat : Int)).visits = [Octant.start 0] :=
      Octant.visits_start_zero
    rw [if_pos zero, zero, visits, ← BitVec.toNat_inj, ← BitVec.toNat_inj]
    simp only [List.mem_singleton, exists_eq_left, Octant.start]
    have sameX := abs_eq_zero (a := (px.toNat : Int) - cx.toNat)
    have sameY := abs_eq_zero (a := (py.toNat : Int) - cy.toNat)
    omega
  · have positive : r.toNat ≠ 0 := fun same => zero (BitVec.eq_of_toNat_eq same)
    rw [if_neg zero, Octant.mem_visits_iff_nearest (by omega)]
    exact ⟨fun near => ⟨by omega, by omega, near⟩, fun point => point.2.2⟩

/-- The iterations at the positions `os` set the points at their distances. -/
theorem mem_flatMap_calls_iff {os : List Octant} (centreX : cx.toNat < 2 ^ 31)
    (centreY : cy.toNat < 2 ^ 31) (bounds : ∀ o ∈ os, 0 ≤ o.y ∧ o.y ≤ o.x ∧ o.x < 2 ^ 31)
    (hx : px ≤ 511) (hy : py ≤ 511) :
    (px, py) ∈ os.flatMap (Octant.calls cx cy) ↔ ∃ o ∈ os,
      o.x = max |(px.toNat : Int) - cx.toNat| |(py.toNat : Int) - cy.toNat| ∧
        o.y = min |(px.toNat : Int) - cx.toNat| |(py.toNat : Int) - cy.toNat| := by
  rw [List.mem_flatMap]
  apply exists_congr
  intro o
  apply and_congr_right
  intro visited
  obtain ⟨nonneg, inside, small⟩ := bounds o visited
  rw [mem_calls_iff centreX centreY hx hy nonneg inside small]
  omega

variable (radius : r.toNat < 2 ^ 30) (centreX : cx.toNat < 2 ^ 31) (centreY : cy.toNat < 2 ^ 31)

include radius centreX centreY

theorem mem_plotcircleCalls_iff_onReference (hx : px ≤ 511) (hy : py ≤ 511) :
    (px, py) ∈ plotcircleCalls cx cy r ↔ OnReference cx cy r px py := by
  rw [plotcircleCalls, BitVec.toInt_eq_toNat_of_lt (by omega), onReference_iff]
  refine mem_flatMap_calls_iff centreX centreY (fun o visited => ?_) hx hy
  obtain ⟨nonneg, inside, small, -, -⟩ :=
    (Octant.within_start (Int.natCast_nonneg _)).of_mem_visits visited
  omega

/-- `plotcircle` is defined, and afterwards `getpixel` reads 1 where it did
before and on the circle, and nowhere else. -/
theorem plotcircle_draws_nearest (mem : ByteMem) :
    ∃ mem', (plotcircle cx cy r).exec screenMemory mem = some ((), mem') ∧
      ∀ px py : BitVec 32, px.toNat < 512 → py.toNat < 512 →
        ((getpixel px py).exec screenMemory mem' = some (1, mem') ↔
          (getpixel px py).exec screenMemory mem = some (1, mem) ∨
            OnReference cx cy r px py) := by
  refine ⟨_, by rw [plotcircle_eq_calls cx cy radius, exec_calls], ?_⟩
  intro px py belowX belowY
  have hx : px ≤ 511 := Nat.le_of_lt_succ belowX
  have hy : py ≤ 511 := Nat.le_of_lt_succ belowY
  rw [exec_getpixel hx hy, exec_getpixel hx hy, lit_foldl_plot, Set.mem_union,
    ← mem_plotcircleCalls_iff_onReference radius centreX centreY hx hy]
  simp only [Set.mem_ofPred_eq, List.mem_filterMap, clip_eq_some hx hy, exists_eq_right]

omit radius centreX centreY in
/-- A circle around the lower left corner, most of it off the screen. -/
theorem plotcircle_draws_nearest_corner :
    ∃ mem', (plotcircle 3 500 20).exec screenMemory (fun _ => 0) = some ((), mem') ∧
      (getpixel 17 486).exec screenMemory mem' = some (1, mem') ∧
      (getpixel 495 500).exec screenMemory mem' ≠ some (1, mem') := by
  have radius : (20 : BitVec 32).toNat < 2 ^ 30 := by decide
  have centreX : (3 : BitVec 32).toNat < 2 ^ 31 := by decide
  have centreY : (500 : BitVec 32).toNat < 2 ^ 31 := by decide
  obtain ⟨mem', run, reads⟩ := plotcircle_draws_nearest radius centreX centreY fun _ => 0
  refine ⟨mem', run, (reads 17 486 (by decide) (by decide)).mpr (Or.inr (by decide)), ?_⟩
  intro wrapped
  rcases (reads 495 500 (by decide) (by decide)).mp wrapped with before | drawn
  · rw [exec_getpixel (by decide) (by decide)] at before
    exact absurd before (by simp [mem_lit])
  · exact absurd drawn (by decide)

end CirclePlotter
