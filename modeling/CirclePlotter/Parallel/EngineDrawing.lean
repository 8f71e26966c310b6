import CirclePlotter.Nearest
import CirclePlotter.Parallel.Engine

/-!
# What a parallel circle engine really draws

`COMPUTE` tests the position it leaves and draws the one it enters, so the
engine draws the walk and its exit. `pending m` are the pixels it still sets if
it is left alone, `outcome m` adds what its memory already shows, and
`ticksLeft m` is the number of ticks until it is back in `WAIT`. A tick without
load and clear keeps `outcome` and takes exactly one off `ticksLeft`.
-/

namespace CirclePlotter.Parallel

namespace PlotPixel

/-- The positions the engine still enters. -/
def onward (m : PlotPixel) : List Octant := if m.radius = 0 then [] else m.octant.steps

/-- The pixels the engine still sets when no load interrupts it. -/
def pending (m : PlotPixel) : Set Pixel :=
  {p | m.state ≠ .wait ∧ (p ∈ m.octant.pairsFrom m.rx m.ry m.state.phase ∨
    ∃ o ∈ m.onward, p ∈ o.pixels m.rx m.ry)}

/-- What the memory shows when the engine is done. -/
def outcome (m : PlotPixel) : Set Pixel := litBits m.ram0.ram ∪ m.pending

/-- The ticks until the engine is back in `WAIT`: one for each pair that is not
drawn yet, one `COMPUTE` that stops, and four for each position it enters. -/
def ticksLeft (m : PlotPixel) : ℕ :=
  if m.state = .wait then 0 else 4 - m.state.phase + 1 + 4 * m.onward.length

variable {id : BitVec 6} {m : PlotPixel} {i : BusIn}

/-- A `COMPUTE` that goes on enters the first of the positions onward. -/
theorem onward_proceed (valid : Valid m) (quiet : i.load id = false)
    (computing : m.state = .compute) (inside : m.octant.y ≤ m.octant.x) (large : m.radius ≠ 0) :
    m.onward = m.octant.next :: (m.tick id i).onward := by
  have radius : (m.tick id i).radius = m.radius := by
    rw [tick_proceed valid quiet computing inside large]
  rw [onward, onward, radius, if_neg large, if_neg large,
    octant_of_proceed valid quiet computing inside large, Octant.steps_of_le inside]

theorem pending_of_wait (rest : m.state = .wait) : m.pending = ∅ := by
  simp [pending, rest]

theorem outcome_of_wait (rest : m.state = .wait) : m.outcome = litBits m.ram0.ram := by
  rw [outcome, pending_of_wait rest, Set.union_empty]

/-- The first tick after a load has the circle ahead, and the exit of its walk. -/
theorem pending_of_load (load : i.load id = true) :
    (m.tick id i).pending = i.circle ∪ {p | wordRadius i.writedata ≠ 0 ∧
      p ∈ (Octant.start (wordRadius i.writedata).toNat).exit.pixels
        (wordRx i.writedata) (wordRy i.writedata)} := by
  have start := octant_of_load (m := m) load
  have new := tick_of_load (m := m) load
  have radius : (m.tick id i).radius = wordRadius i.writedata := by rw [new]
  ext p
  have ahead : p ∈ (m.tick id i).pending ↔
      ∃ o ∈ Octant.start (wordRadius i.writedata).toNat :: (m.tick id i).onward,
        p ∈ o.pixels (wordRx i.writedata) (wordRy i.writedata) := by
    rw [pending, start, new]
    simp [PixelState.phase, Octant.pairsFrom_zero]
  rw [ahead, onward, start, radius]
  by_cases point : wordRadius i.writedata = 0
  · have visits : (Octant.start (wordRadius i.writedata).toNat).visits =
        [Octant.start (wordRadius i.writedata).toNat] := by
      rw [point]
      exact Octant.visits_start_zero
    rw [if_pos point, ← visits]
    simp [BusIn.circle, circle, point]
  · rw [if_neg point, Octant.cons_steps]
    simp only [BusIn.circle, circle, point, List.mem_append, List.mem_singleton, or_and_right,
      exists_or, exists_eq_left, Set.mem_union, Set.mem_ofPred_eq, List.mem_flatMap, ne_eq,
      not_false_eq_true, true_and]

/-- An engine that draws nothing in this tick is done. -/
theorem pending_of_not_drawing (none : m.drawing? = none) : m.pending = ∅ := by
  rcases m.tickCase with rest | ⟨j, after, writing⟩ | ⟨computing, inside, large⟩ |
    ⟨computing, inside, point⟩ | ⟨computing, outside⟩
  · exact pending_of_wait rest
  · rw [drawing_of_corner writing] at none
    cases none
  · rw [drawing_of_proceed computing inside large] at none
    cases none
  · simp [pending, onward, computing, PixelState.phase, Octant.pairsFrom_four, point]
  · simp [pending, onward, computing, PixelState.phase, Octant.pairsFrom_four,
      Octant.steps_of_lt outside]

/-- Every tick without a load and a clear keeps what the memory is going to show. -/
theorem outcome_tick (valid : Valid m) (quiet : i.load id = false) (kept : i.clear = false) :
    (m.tick id i).outcome = m.outcome := by
  have picture : litBits (m.tick id i).ram0.ram = litBits m.ram0.ram ∪ m.drawn :=
    litBits_tick valid kept
  have stopped (none : m.drawing? = none) (waits : (m.tick id i).state = .wait) :
      (m.tick id i).outcome = m.outcome := by
    rw [outcome_of_wait waits, picture, drawn_of_not_drawing none, outcome,
      pending_of_not_drawing none]
  rcases m.tickCase with rest | ⟨j, after, writing⟩ | ⟨computing, inside, large⟩ |
    ⟨computing, inside, point⟩ | ⟨computing, outside⟩
  · refine stopped (drawing_of_wait rest) ?_
    rw [tick_rest quiet rest]
    exact rest
  · obtain ⟨phase, phase', drawing, drawing'⟩ := PixelState.phase_of_corner writing
    have split := pairsFrom_drawing (drawing_of_corner writing)
    have pending' : (m.tick id i).pending =
        {p | p ∈ m.octant.pairsFrom m.rx m.ry (j + 1) ∨
          ∃ o ∈ m.onward, p ∈ o.pixels m.rx m.ry} := by
      rw [tick_write quiet writing]
      ext p
      simp [pending, onward, octant, drawing', phase']
    rw [outcome, outcome, picture, pending', pending, phase, split]
    ext p
    simp [drawing, or_assoc]
  · have next := octant_of_proceed valid quiet computing inside large
    have new := tick_proceed valid quiet computing inside large
    have split := pairsFrom_drawing (drawing_of_proceed computing inside large)
    have pending' : (m.tick id i).pending =
        {p | p ∈ m.octant.next.pairsFrom m.rx m.ry 1 ∨
          ∃ o ∈ (m.tick id i).onward, p ∈ o.pixels m.rx m.ry} := by
      ext p
      rw [pending, next, new]
      simp [PixelState.phase]
    have first (p : Pixel) : p ∈ m.octant.next.pixels m.rx m.ry ↔
        p ∈ m.drawn ∪ m.octant.next.pairsFrom m.rx m.ry 1 := by
      have all := Octant.pairsFrom_zero m.rx m.ry m.octant.next
      exact Set.ext_iff.mp (all.symm.trans split) p
    have pending : m.pending = m.drawn ∪ (m.tick id i).pending := by
      rw [pending']
      ext p
      simp [pending, computing, PixelState.phase, Octant.pairsFrom_four, first, or_assoc,
        onward_proceed valid quiet computing inside large]
    rw [outcome, outcome, picture, pending, Set.union_assoc]
  · refine stopped (drawing_of_stop computing point) ?_
    rw [tick_stop quiet computing inside point]
  · refine stopped (drawing_of_leave computing outside) ?_
    rw [tick_leave quiet computing outside]

theorem ticksLeft_eq_zero_iff : m.ticksLeft = 0 ↔ m.state = .wait := by
  constructor
  · intro none
    by_contra drawing
    rw [ticksLeft, if_neg drawing] at none
    omega
  · intro rest
    rw [ticksLeft, if_pos rest]

/-- Every tick without a load takes one off, clears and reads notwithstanding. -/
theorem ticksLeft_tick (valid : Valid m) (quiet : i.load id = false) :
    (m.tick id i).ticksLeft = m.ticksLeft - 1 := by
  rcases m.tickCase with rest | ⟨j, after, writing⟩ | ⟨computing, inside, large⟩ |
    ⟨computing, inside, point⟩ | ⟨computing, outside⟩
  · rw [tick_rest quiet rest]
    simp [ticksLeft, rest]
  · obtain ⟨phase, phase', drawing, drawing'⟩ := PixelState.phase_of_corner writing
    rw [tick_write quiet writing]
    simp only [ticksLeft, onward, octant, drawing, phase, drawing', phase', if_false]
    omega
  · have state : (m.tick id i).state = .write1 := by
      rw [tick_proceed valid quiet computing inside large]
    simp only [ticksLeft, computing, state, onward_proceed valid quiet computing inside large,
      PixelState.phase, List.length_cons, reduceCtorEq, if_false]
    omega
  · rw [tick_stop quiet computing inside point]
    simp [ticksLeft, onward, computing, point, PixelState.phase]
  · rw [tick_leave quiet computing outside]
    simp [ticksLeft, onward, Octant.steps_of_lt outside, computing, PixelState.phase]

end PlotPixel

end CirclePlotter.Parallel
