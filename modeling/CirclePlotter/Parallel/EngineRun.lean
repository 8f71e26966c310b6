import CirclePlotter.Parallel.Commands
import CirclePlotter.Parallel.EngineDrawing

/-!
# Runs of a parallel circle engine

Loaded in `WAIT` and then left alone, an engine comes back to `WAIT` with its
circle and the exit of the walk added. The pixels of the exit belong to the
circle, except for the radii 4, 11 and 134, where none of them does: there the
engine sets eight pixels that `plotcircle` does not (`drawsReference_iff`).
-/

namespace CirclePlotter

namespace Octant

/-- The pixels of the exit of a walk that overruns are off the circle, those of
any other exit are on it. -/
theorem exit_pixels_iff {rx ry : BitVec 9} {r : BitVec 8} {p : Pixel} (large : r ≠ 0)
    (out : p ∈ (start r.toNat).exit.pixels rx ry) :
    p ∈ circle rx ry r ↔ ¬ Overruns r.toNat := by
  have below := r.isLt
  have positive : 1 ≤ (r.toNat : Int) := by
    have nonzero : r.toNat ≠ 0 := fun zero => large (BitVec.eq_of_toNat_eq zero)
    omega
  have within {o : Octant} (visited : o ∈ (start r.toNat).visits) : Within r.toNat o :=
    (within_start (by omega)).of_mem_visits visited
  rw [← mirror_visited_iff positive, circle, List.mem_flatMap]
  constructor
  · intro inCircle
    rcases inCircle with ⟨o, visited, drawn⟩
    obtain ⟨nonneg, inside, small, -, -⟩ := within visited
    by_contra noMirror
    obtain ⟨x, atLeast, overrun⟩ : Overruns r.toNat := by
      by_contra fits
      exact noMirror ((mirror_visited_iff positive).mpr fits)
    have exit := exit_of_overrun positive atLeast overrun
    have bound : x ≤ 200 := by
      by_contra high
      have square : (r.toNat : Int) ^ 2 ≤ 255 ^ 2 := pow_le_pow_left₀ (by omega) (by omega) 2
      nlinarith
    rw [mem_pixels_iff (by omega) (by omega) (by omega) (by omega)] at drawn
    rw [exit] at noMirror out
    rw [mem_pixels_iff (by simp only; omega) (by simp only; omega) (by simp only; omega)
      (by simp only; omega)] at out
    simp only at noMirror out
    exact noMirror ⟨o, visited, by omega, by omega⟩
  · intro mirror
    rcases mirror with ⟨o, visited, mirrorX, mirrorY⟩
    obtain ⟨nonneg, inside, small, -, -⟩ := within visited
    refine ⟨o, visited, ?_⟩
    rw [mem_pixels_iff (by omega) (by omega) (by omega) (by omega)] at out ⊢
    omega

end Octant

namespace Parallel

open Sync

namespace PlotPixel

section Runs

variable {id : BitVec 6} {m : PlotPixel} {ins : ℕ → BusIn}

theorem valid_run (valid : Valid m) (n : ℕ) : Valid (run (tick id) m ins n) :=
  run_always (P := Valid) valid (fun _ _ => Valid.tick) n

variable (quiet : ∀ n, (ins n).load id = false)

include quiet

/-- Left without a load, the engine waits from a definite tick on. -/
theorem state_run_eq_wait_iff (valid : Valid m) (n : ℕ) :
    (run (tick id) m ins n).state = .wait ↔ m.ticksLeft ≤ n := by
  have left : (run (tick id) m ins n).ticksLeft = m.ticksLeft - n :=
    run_countdown (valid_run valid) (fun n _ valid => ticksLeft_tick valid (quiet n)) n
  rw [← ticksLeft_eq_zero_iff, left]
  omega

/-- When the engine waits again, its memory shows the outcome. -/
theorem litBits_run_of_wait (kept : ∀ n, (ins n).clear = false) (valid : Valid m) {n : ℕ}
    (done : (run (tick id) m ins n).state = .wait) :
    litBits (run (tick id) m ins n).ram0.ram = m.outcome := by
  rw [← outcome_of_wait done]
  exact run_constant (valid_run valid) (fun n _ valid => outcome_tick valid (quiet n) (kept n)) n

end Runs

/-! ## One circle -/

/-- The engine `m` is loaded by the input `i` and then sees the inputs `ins`:
it is back in `WAIT` from some tick on, and then its memory shows what it showed
before the load and the mirror images of exactly the pairs `(x, y)` for which the
body of the loop of `plotcircle` runs. -/
def DrawsReference (id : BitVec 6) (m : PlotPixel) (i : BusIn) (ins : ℕ → BusIn) : Prop :=
  let loaded := m.tick id i
  let r := (wordRadius i.writedata).setWidth 32
  let drawn := {p | ∃ o j, LoopState r o j ∧ o.x ≥ o.y ∧
    p ∈ o.pixels (wordRx i.writedata) (wordRy i.writedata)}
  (∃ N, ∀ n, (run (tick id) loaded ins n).state = .wait ↔ N ≤ n) ∧
  ∀ n, (run (tick id) loaded ins n).state = .wait →
    litBits (run (tick id) loaded ins n).ram0.ram = litBits m.ram0.ram ∪ drawn

/-- The pixels of the circle are those of the pairs the C loop visits. -/
theorem circle_eq_loop (rx ry : BitVec 9) (r : BitVec 8) :
    {p | p ∈ circle rx ry r} =
      {p | ∃ o j, LoopState (r.setWidth 32) o j ∧ o.x ≥ o.y ∧ p ∈ o.pixels rx ry} := by
  have below := r.isLt
  have radius : (r.setWidth 32).toNat = r.toNat := by
    rw [BitVec.toNat_setWidth, Nat.mod_eq_of_lt (by omega)]
  ext p
  simp only [circle, List.mem_flatMap, Set.mem_ofPred_eq, ← radius,
    mem_visits_iff_loopState (r := r.setWidth 32) (by omega), ← exists_and_right, and_assoc]

theorem clear_of_load {id : BitVec 6} {i : BusIn} (nonzero : id ≠ 0) (load : i.load id = true) :
    i.clear = false := by
  unfold BusIn.load at load
  rw [Bool.and_eq_true, beq_iff_eq] at load
  rw [BusIn.clear, load.2, beq_eq_false_iff_ne.mpr nonzero, Bool.and_false]

/-- Loaded in `WAIT`, the engine is going to show the circle and the exit. -/
theorem outcome_of_load {id : BitVec 6} {m : PlotPixel} {i : BusIn} (rest : m.state = .wait)
    (nonzero : id ≠ 0) (load : i.load id = true) :
    (m.tick id i).outcome = litBits m.ram0.ram ∪ (i.circle ∪ {p | wordRadius i.writedata ≠ 0 ∧
      p ∈ (Octant.start (wordRadius i.writedata).toNat).exit.pixels
        (wordRx i.writedata) (wordRy i.writedata)}) := by
  have nothing := drawn_of_not_drawing (drawing_of_wait rest)
  rw [outcome, litBits_tick (Valid.of_wait rest) (clear_of_load nonzero load), nothing,
    Set.union_empty, pending_of_load load]

section Circle

variable {id : BitVec 6} {m : PlotPixel} {i : BusIn} {ins : ℕ → BusIn} (rest : m.state = .wait)
  (nonzero : id ≠ 0) (load : i.load id = true) (quiet : ∀ n, (ins n).load id = false)
  (kept : ∀ n, (ins n).clear = false)

include rest nonzero load quiet kept

/-- The engine draws what the C loop draws, and nothing else, if and only if the
radius is none of 4, 11 and 134, or the exit was shown before. -/
theorem drawsReference_iff :
    DrawsReference id m i ins ↔
      ∀ o, Octant.spill? (wordRadius i.writedata).toNat = some o →
        ∀ p ∈ o.pixels (wordRx i.writedata) (wordRy i.writedata), p ∈ litBits m.ram0.ram := by
  have valid : Valid (m.tick id i) := (Valid.of_wait rest).tick
  have waits := state_run_eq_wait_iff quiet valid
  have small := Nat.le_of_lt_succ (wordRadius i.writedata).isLt
  have exact_iff : DrawsReference id m i ins ↔
      {p | wordRadius i.writedata ≠ 0 ∧
        p ∈ (Octant.start (wordRadius i.writedata).toNat).exit.pixels
          (wordRx i.writedata) (wordRy i.writedata)} ⊆ litBits m.ram0.ram ∪ i.circle := by
    rw [← Set.union_eq_left, Set.union_assoc, ← outcome_of_load rest nonzero load, BusIn.circle,
      circle_eq_loop]
    constructor
    · intro draws
      have done := (waits _).mpr (Nat.le_refl _)
      rw [← draws.2 _ done, litBits_run_of_wait quiet kept valid done]
    · intro same
      refine ⟨⟨_, waits⟩, fun n done => ?_⟩
      rw [litBits_run_of_wait quiet kept valid done, same]
  rw [exact_iff]
  constructor
  · intro covered o spills p out
    obtain ⟨overruns, rfl⟩ := (Octant.spill?_eq_some_iff small o).mp spills
    have large : wordRadius i.writedata ≠ 0 := by
      intro point
      rw [point] at spills
      cases spills
    rcases covered ⟨large, out⟩ with before | onCircle
    · exact before
    · exact absurd overruns ((Octant.exit_pixels_iff large out).mp onCircle)
  · intro spilled p out
    rcases out with ⟨large, out⟩
    by_cases overruns : Octant.Overruns (wordRadius i.writedata).toNat
    · exact Or.inl (spilled _ ((Octant.spill?_eq_some_iff small _).mpr ⟨overruns, rfl⟩) p out)
    · exact Or.inr ((Octant.exit_pixels_iff large out).mpr overruns)

end Circle

/-- A circle of radius 10 on an empty memory. -/
theorem drawsReference_iff_blank :
    DrawsReference 1 blank (.command 1 100 100 10) (fun _ => .rest) ↔
      ∀ o, Octant.spill? (wordRadius (setRadius 1 100 100 10)).toNat = some o →
        ∀ p ∈ o.pixels (wordRx (setRadius 1 100 100 10)) (wordRy (setRadius 1 100 100 10)),
          p ∈ litBits blank.ram0.ram :=
  drawsReference_iff rfl (by decide) (by decide) (fun _ => (by decide : BusIn.rest.load 1 = false))
    fun _ => (by decide : BusIn.rest.clear = false)

/-- A circle of radius 4 around (100, 100) on an empty memory sets (102, 104) as
well, to which the C loop does not come. -/
theorem not_drawsReference_blank :
    blank.state = .wait ∧ (BusIn.command 1 100 100 4).load 1 = true ∧
      BusIn.rest.load 1 = false ∧ BusIn.rest.clear = false ∧
      ¬ DrawsReference 1 blank (.command 1 100 100 4) fun _ => .rest := by
  refine ⟨rfl, by decide, by decide, by decide, fun draws => ?_⟩
  have shown : (⟨102, 104⟩ : Pixel) ∈ litBits (run (tick 1)
      (blank.tick 1 (.command 1 100 100 4)) (fun _ => .rest) 21).ram0.ram := by
    change _ = _
    decide +kernel
  rw [draws.2 21 (by decide +kernel)] at shown
  rcases shown with before | looped
  · exact absurd before (by simp [litBits, blank])
  · have out : (⟨102, 104⟩ : Pixel) ∈
        (Octant.start ((4 : BitVec 8).toNat : Int)).exit.pixels 100 100 := by
      change _ ∈ (Octant.start 4).exit.pixels 100 100
      rw [Octant.exit_of_overrun (x := 3) (by decide) (by decide) (by decide)]
      decide
    have onCircle : (⟨102, 104⟩ : Pixel) ∈ circle 100 100 4 :=
      (Set.ext_iff.mp (circle_eq_loop 100 100 4) _).mpr looped
    exact (Octant.exit_pixels_iff (by decide) out).mp onCircle ⟨3, by decide, by decide⟩

end PlotPixel

end Parallel

end CirclePlotter
