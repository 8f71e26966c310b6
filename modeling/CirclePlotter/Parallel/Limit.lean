import CirclePlotter.Parallel.Software
import CirclePlotter.ReferenceCircle

/-!
# What the limit of `plotcircle` leaves

Where the walk is longer than `LIMIT`, the function draws its first 202
positions: the pixels of the reference circle that are less than 202 away from
the centre in one of the two directions. In these positions no operation
overflows, however large the radius is.
-/

namespace CirclePlotter.Parallel

/-! ## The calls -/

/-- Early in the walk no operation overflows, because on a large circle `x` does
not shrink before the square of `y` has passed the radius. -/
theorem octantStep_of_early {r : Int} {o : Octant} (within : Octant.Within r o)
    (on : Octant.OnCircle r o) (early : o.y ≤ 201) (small : r < 2 ^ 31) :
    octantStep o = some o.next := by
  rcases Int.lt_or_le (2 ^ 30) r with large | small'
  · rcases within with ⟨nonneg, inside, top, low, -⟩
    have square : (o.y + 1) ^ 2 ≤ 202 ^ 2 := pow_le_pow_left₀ (by omega) (by omega) 2
    have positive : 0 ≤ (o.y + 1) ^ 2 := sq_nonneg _
    have straight : o.x = r := by
      by_contra shrunk
      have product : 0 ≤ (r - 1 - o.x) * (r + o.x) := Int.mul_nonneg (by omega) (by omega)
      rw [Octant.OnCircle] at on
      linarith
    have decision : o.xp = (o.y + 1) ^ 2 - r := by
      rw [on, straight]
      ring
    have neg : o.xp < 0 := by omega
    rw [Octant.next_of_neg neg, octantStep, int32_of_fits (by omega) (by omega)]
    dsimp only [bind, Option.bind]
    rw [if_pos neg, int32_of_fits (by omega) (by omega)]
    dsimp only
    rw [int32_of_fits (by omega) (by omega)]
    dsimp only
    rw [int32_of_fits (by omega) (by omega)]
    rfl
  · exact octantStep_of_within within small' (by omega)

/-- The loop makes the calls of the positions that are left to it. -/
theorem plotcircleLoop_eq_calls (cx cy : BitVec 32) {o : Octant} {i : ℕ} {r : Int}
    (small : r < 2 ^ 31) (within : o.y ≤ o.x → Octant.Within r o) (on : Octant.OnCircle r o)
    (count : o.y = i) (room : i < 202) :
    plotcircleLoop cx cy o i =
      forM ((o.visits.take (202 - i)).flatMap (Octant.calls cx cy)) fun c => setpixel c.1 c.2 := by
  induction o using Octant.visits.induct generalizing i with
  | case1 o inside ih =>
      have bounds := within inside
      have step := octantStep_of_early bounds on (by omega) small
      have left : 202 - i = 202 - (i + 1) + 1 := by omega
      rw [plotcircleLoop_of_step cx cy i inside step, Octant.visits_of_le inside, left,
        List.take_succ_cons, List.flatMap_cons, List.forM_append]
      congr 1
      funext _
      split
      · next last =>
          have none : 202 - (i + 1) = 0 := by omega
          rw [none, List.take_zero]
          rfl
      · have next : o.next.y = ↑(i + 1) := by
          rw [Octant.next_y]
          omega
        exact ih (fun inside' => bounds.next inside') on.next next (by omega)
  | case2 o outside =>
      rw [plotcircleLoop, dif_neg outside, Octant.visits_of_lt (by omega), List.take_nil]
      rfl

variable {cx cy r : BitVec 32}

theorem plotcircle_eq_calls (cx cy : BitVec 32) (radius : r.toNat < 2 ^ 31) :
    plotcircle cx cy r =
      forM (((Octant.start r.toNat).visits.take 202).flatMap (Octant.calls cx cy)) fun c =>
        setpixel c.1 c.2 := by
  have signed : r.toInt = r.toNat := BitVec.toInt_eq_toNat_of_lt (by omega)
  rw [plotcircle, int32_of_fits (by omega) (by omega), signed]
  exact plotcircleLoop_eq_calls cx cy (r := r.toNat) (by omega)
    (fun _ => Octant.within_start (Int.natCast_nonneg _)) (Octant.onCircle_start _) rfl (by omega)

/-- Up to radius 285 the walk has at most 202 positions. -/
theorem take_visits (radius : r.toNat ≤ 285) :
    (Octant.start r.toNat).visits.take 202 = (Octant.start r.toNat).visits := by
  have within : Octant.Within r.toNat (Octant.start r.toNat) :=
    Octant.within_start (Int.natCast_nonneg _)
  have top : ∀ o ∈ (Octant.start r.toNat).visits, o.y ≤ 201 := by
    intro o mem
    have visited := within.of_mem_visits mem
    have bound := visited.two_mul_sq_le ((Octant.onCircle_start r.toNat).of_mem_visits mem)
    have square : (r.toNat : Int) ^ 2 ≤ 285 ^ 2 := pow_le_pow_left₀ (by omega) (by omega) 2
    by_contra high
    have product : 202 * (2 * 202 - 1) ≤ o.y * (2 * o.y - 1) :=
      Int.mul_le_mul (by omega) (by omega) (by decide) (by omega)
    linarith
  have length := Octant.length_visits_le (by simp [Octant.start]) top
  simp only [Octant.start] at length ⊢
  exact List.take_of_length_le (by omega)

/-! ## The picture -/

/-- The limited `plotcircle` is defined for every radius that is an `int`, and
draws the part of the reference circle that is less than 202 away from one of the
axes through its centre. Up to radius 285 that is all of it, and the function
does what the reference function does. -/
theorem plotcircle_draws_part (radius : r.toNat < 2 ^ 31) (centreX : cx.toNat < 2 ^ 31)
    (centreY : cy.toNat < 2 ^ 31) (mem : ByteMem) :
    ∃ mem', (plotcircle cx cy r).exec screenMemory mem = some ((), mem') ∧
      (∀ px py : BitVec 32, px.toNat < 512 → py.toNat < 512 →
        ((getpixel px py).exec screenMemory mem' = some (1, mem') ↔
          (getpixel px py).exec screenMemory mem = some (1, mem) ∨
            (OnReference cx cy r px py ∧
              min |(px.toNat : Int) - cx.toNat| |(py.toNat : Int) - cy.toNat| < 202))) ∧
      (r.toNat ≤ 285 →
        (CirclePlotter.plotcircle cx cy r).exec screenMemory mem = some ((), mem')) := by
  have within : Octant.Within r.toNat (Octant.start r.toNat) :=
    Octant.within_start (Int.natCast_nonneg _)
  refine ⟨_, by rw [plotcircle_eq_calls cx cy radius, exec_calls], ?_, ?_⟩
  · intro px py belowX belowY
    have hx : px ≤ 511 := Nat.le_of_lt_succ belowX
    have hy : py ≤ 511 := Nat.le_of_lt_succ belowY
    have drawn : (px, py) ∈ ((Octant.start r.toNat).visits.take 202).flatMap (Octant.calls cx cy) ↔
        OnReference cx cy r px py ∧
          min |(px.toNat : Int) - cx.toNat| |(py.toNat : Int) - cy.toNat| < 202 := by
      rw [onReference_iff, mem_flatMap_calls_iff centreX centreY (fun o early => ?_) hx hy]
      · simp only [Octant.mem_take_visits_iff, Octant.start]
        constructor
        · intro part
          rcases part with ⟨o, ⟨visited, before⟩, far, near⟩
          exact ⟨⟨o, visited, far, near⟩, by omega⟩
        · intro part
          rcases part with ⟨⟨o, visited, far, near⟩, before⟩
          exact ⟨o, ⟨visited, by omega⟩, far, near⟩
      · have visited := within.of_mem_visits (Octant.mem_take_visits_iff.mp early).1
        have top := visited.x_le
        exact ⟨visited.y_nonneg, visited.y_le_x, by omega⟩
    rw [exec_getpixel hx hy, exec_getpixel hx hy, lit_foldl_plot, Set.mem_union, ← drawn]
    simp only [Set.mem_ofPred_eq, List.mem_filterMap, clip_eq_some hx hy, exists_eq_right]
  · intro whole
    have signed : r.toInt = r.toNat := BitVec.toInt_eq_toNat_of_lt (by omega)
    rw [CirclePlotter.plotcircle_eq_calls cx cy (by omega), exec_calls, take_visits whole,
      plotcircleCalls, signed]

/-- A large circle: the point level with its centre is drawn, the one on its
diagonal is not. -/
theorem plotcircle_draws_part_large :
    ∃ mem', (plotcircle 0 0 500).exec screenMemory (fun _ => 0) = some ((), mem') ∧
      (getpixel 500 0).exec screenMemory mem' = some (1, mem') ∧
      OnReference 0 0 500 353 354 ∧
      (getpixel 353 354).exec screenMemory mem' ≠ some (1, mem') := by
  have radius : (500 : BitVec 32).toNat < 2 ^ 31 := by decide
  have centre : (0 : BitVec 32).toNat < 2 ^ 31 := by decide
  rcases plotcircle_draws_part radius centre centre fun _ => 0 with ⟨mem', run, reads, -⟩
  refine ⟨mem', run, (reads 500 0 (by decide) (by decide)).mpr (Or.inr (by decide)), by decide, ?_⟩
  intro drawn
  rcases (reads 353 354 (by decide) (by decide)).mp drawn with before | part
  · rw [exec_getpixel (by decide) (by decide)] at before
    exact absurd before (by simp [mem_lit])
  · exact absurd part (by decide)

end CirclePlotter.Parallel
