import CirclePlotter.FinalDesign.EngineDrawing
import CirclePlotter.Software
import CirclePlotter.Sync

/-!
# Runs of a circle engine

The one-tick facts of `EngineDrawing` along whole runs without loads, and from
them the correctness of one engine: loaded in any state with any circle and
then left alone, it comes back to `WAIT` with exactly the pixels added that the
loop of `plotcircle` visits (`drawsCircle`).
-/

namespace CirclePlotter.FinalDesign

open Sync

namespace PlotPixel

section Runs

variable {m : PlotPixel} {ins : ℕ → PixelIn}

theorem valid_run (valid : Valid m) (n : ℕ) : Valid (run tick m ins n) :=
  run_always (P := Valid) valid (fun _ _ => Valid.tick) n

variable (quiet : ∀ n, (ins n).load = false)

include quiet

theorem ticksLeft_run (valid : Valid m) (n : ℕ) :
    (run tick m ins n).ticksLeft = m.ticksLeft - n :=
  run_countdown (valid_run valid) (fun n _ valid => ticksLeft_tick valid (quiet n)) n

/-- Left without a load, the engine waits from a definite tick on. -/
theorem state_run_eq_wait_iff (valid : Valid m) (n : ℕ) :
    (run tick m ins n).state = .wait ↔ m.ticksLeft ≤ n := by
  rw [← ticksLeft_eq_zero_iff, ticksLeft_run quiet valid]
  omega

variable (silent : ∀ n, (ins n).store = false)

include silent

theorem goal_run (valid : Valid m) (n : ℕ) : (run tick m ins n).goal = m.goal :=
  run_constant (valid_run valid) (fun n _ valid => goal_tick valid (quiet n) (silent n)) n

omit quiet in
theorem lit_subset_run (valid : Valid m) (n : ℕ) :
    lit m.ram0.ram ⊆ lit (run tick m ins n).ram0.ram := by
  induction n with
  | zero => exact subset_rfl
  | succ n ih => exact ih.trans (lit_subset_tick (valid_run valid n) (silent n))

/-- When the engine waits again, its RAM shows the goal. -/
theorem lit_run_of_wait (valid : Valid m) {n : ℕ} (done : (run tick m ins n).state = .wait) :
    lit (run tick m ins n).ram0.ram = m.goal := by
  rw [← goal_of_wait done, goal_run quiet silent valid]

end Runs

/-! ## The registers follow the C variables -/

/-- The registers hold values the loop variables of `plotcircle` take; as long
as the engine draws, the loop condition holds for them. -/
structure Follows (r : BitVec 32) (m : PlotPixel) : Prop where
  loopState : LoopState r m.octant
  inside : m.state ≠ .wait → m.octant.x ≥ m.octant.y

theorem Follows.tick {m : PlotPixel} {i : PixelIn} {r : BitVec 32} (follows : Follows r m)
    (valid : Valid m) (quiet : i.load = false) : Follows r (m.tick i) := by
  obtain ⟨reached, inside⟩ := follows
  have compute (computing : m.state = .compute) : LoopState r (m.tick i).octant := by
    have drawing : m.state ≠ .wait := by simp [computing]
    have within := valid.within drawing
    have hyx := within.y_le_x
    have hx := within.x_le
    have small := m.radius.isLt
    rw [octant_of_compute valid quiet computing]
    exact .step reached (inside drawing) (octantStep_of_within within (by omega) (by omega))
  rcases valid.tickCase with rest | ⟨j, after, writing, first⟩ | ⟨j, after, writing, second⟩ |
    ⟨computing, stays⟩ | ⟨computing, leaves⟩
  · rw [tick_rest quiet rest]
    exact ⟨reached, inside⟩
  · rw [tick_read quiet writing first]
    exact ⟨reached, inside⟩
  · obtain ⟨-, -, drawing, -⟩ := PixelState.phase_of_corner writing
    rw [tick_write quiet writing second]
    exact ⟨reached, fun _ => inside drawing⟩
  · refine ⟨compute computing, fun _ => ?_⟩
    rw [octant_of_compute valid quiet computing]
    exact stays
  · refine ⟨compute computing, fun drawing => absurd ?_ drawing⟩
    rw [tick_finish valid quiet computing leaves]

/-! ## One circle -/

/-- The engine `m` is loaded by the input `i` and then sees the inputs `ins`:
it is back in `WAIT` from some tick on, and then its RAM shows what it showed
right after the load and the mirror images of exactly the pairs `(x, y)` for
which the body of the loop of `plotcircle` runs. On the way no pixel is cleared
and no other pixel is set, and the registers hold values of the C variables. -/
def DrawsCircle (m : PlotPixel) (i : PixelIn) (ins : ℕ → PixelIn) : Prop :=
  let loaded := m.tick i
  let r := (wordRadius i.writedata).setWidth 32
  let drawn := {p | ∃ o, LoopState r o ∧ o.x ≥ o.y ∧
    p ∈ o.pixels (wordRx i.writedata) (wordRy i.writedata)}
  (∃ N, ∀ n, (run tick loaded ins n).state = .wait ↔ N ≤ n) ∧
  (∀ n, (run tick loaded ins n).state = .wait →
    lit (run tick loaded ins n).ram0.ram = lit loaded.ram0.ram ∪ drawn) ∧
  (∀ n, lit loaded.ram0.ram ⊆ lit (run tick loaded ins n).ram0.ram ∧
    lit (run tick loaded ins n).ram0.ram ⊆ lit loaded.ram0.ram ∪ drawn) ∧
  ∀ n, LoopState r (run tick loaded ins n).octant

/-- The pixels of the circle are those of the pairs the C loop visits. -/
theorem circle_eq_loop (rx ry : BitVec 9) (r : BitVec 8) :
    {p | p ∈ circle rx ry r} =
      {p | ∃ o, LoopState (r.setWidth 32) o ∧ o.x ≥ o.y ∧ p ∈ o.pixels rx ry} := by
  have below := r.isLt
  have radius : (r.setWidth 32).toNat = r.toNat := by
    rw [BitVec.toNat_setWidth, Nat.mod_eq_of_lt (by omega)]
  ext p
  simp only [circle, List.mem_flatMap, Set.mem_ofPred_eq, ← radius,
    mem_visits_iff_loopState (r := r.setWidth 32) (by omega), and_assoc]

/-- One circle engine is right: for every prior state, every RAM contents and
every circle, whatever the bus reads meanwhile. -/
theorem drawsCircle (m : PlotPixel) (i : PixelIn) (ins : ℕ → PixelIn) (load : i.load = true)
    (alone : ∀ n, (ins n).write = false) : DrawsCircle m i ins := by
  have quiet (n : ℕ) : (ins n).load = false := by simp [PixelIn.load, alone n]
  have silent (n : ℕ) : (ins n).store = false := by simp [PixelIn.store, alone n]
  have valid : Valid (m.tick i) := Valid.of_load load
  have goal : (m.tick i).goal = lit (m.tick i).ram0.ram ∪
      {p | ∃ o, LoopState ((wordRadius i.writedata).setWidth 32) o ∧ o.x ≥ o.y ∧
        p ∈ o.pixels (wordRx i.writedata) (wordRy i.writedata)} := by
    rw [goal_of_load load, circle_eq_loop]
  have start : Follows ((wordRadius i.writedata).setWidth 32) (m.tick i) := by
    have below := (wordRadius i.writedata).isLt
    have radius : ((wordRadius i.writedata).setWidth 32).toInt =
        (wordRadius i.writedata).toNat := by
      rw [BitVec.toInt_eq_toNat_of_lt] <;> rw [BitVec.toNat_setWidth] <;> omega
    have init : LoopState ((wordRadius i.writedata).setWidth 32) (m.tick i).octant := by
      rw [octant_of_load load, Octant.start, ← radius]
      exact .init (int32_of_fits (by omega) (by omega))
    refine ⟨init, fun _ => ?_⟩
    rw [octant_of_load load]
    simp [Octant.start]
  have follows (n : ℕ) : Valid (run tick (m.tick i) ins n) ∧
      Follows ((wordRadius i.writedata).setWidth 32) (run tick (m.tick i) ins n) :=
    run_always (P := fun t => Valid t ∧ Follows _ t) ⟨valid, start⟩
      (fun n t h => ⟨h.1.tick, h.2.tick h.1 (quiet n)⟩) n
  refine ⟨⟨_, state_run_eq_wait_iff quiet valid⟩, fun n done => ?_, fun n => ⟨?_, ?_⟩,
    fun n => (follows n).2.loopState⟩
  · rw [lit_run_of_wait quiet silent valid done, goal]
  · exact lit_subset_run silent valid n
  · rw [← goal, ← goal_run quiet silent valid n]
    exact lit_subset_goal _

/-- The circle of radius 3 around (5, 7), drawn by an engine after reset. -/
theorem drawsCircle_blank :
    DrawsCircle blank ⟨false, false, 0, true, 0x040c0e05⟩ fun _ => ⟨false, false, 0, false, 0⟩ :=
  drawsCircle _ _ _ (by decide) fun _ => rfl

end PlotPixel

end CirclePlotter.FinalDesign
