import CirclePlotter.FinalDesign.Engine

/-!
# What a circle engine has drawn and what it will draw

`pending m` are the pixels the engine still sets if it is left alone, `goal m`
adds what its RAM already shows, and `ticksLeft m` is the number of ticks until
it is back in `WAIT`. A tick without load and store keeps `goal`, only adds
pixels to the RAM, and takes exactly one off `ticksLeft`.
-/

namespace CirclePlotter.FinalDesign

namespace PlotPixel

/-- The positions of the walk after the current one. -/
def ahead (m : PlotPixel) : List Octant := m.octant.next.visits

/-- The pixels the engine still sets when no load interrupts it. -/
def pending (m : PlotPixel) : Set Pixel :=
  {p | m.state ≠ .wait ∧ (p ∈ m.octant.pairsFrom m.rx m.ry m.state.phase ∨
    ∃ o ∈ m.ahead, p ∈ o.pixels m.rx m.ry)}

/-- What the RAM shows when the engine is done. -/
def goal (m : PlotPixel) : Set Pixel := lit m.ram0.ram ∪ m.pending

/-- The ticks until the engine is back in `WAIT`: two for each pair that is not
drawn yet, of which the first may be over, one `COMPUTE`, and eight for each
further position, whose first read tick is the `COMPUTE` before it. -/
def ticksLeft (m : PlotPixel) : ℕ :=
  if m.state = .wait then 0
  else 2 * (4 - m.state.phase) - (if m.istate = .reading then 0 else 1) + 1 + 8 * m.ahead.length

variable {m : PlotPixel} {i : PixelIn}

theorem pending_of_wait (rest : m.state = .wait) : m.pending = ∅ := by
  simp [pending, rest]

theorem goal_of_wait (rest : m.state = .wait) : m.goal = lit m.ram0.ram := by
  rw [goal, pending_of_wait rest, Set.union_empty]

/-- The first tick after a load has the whole circle ahead. -/
theorem pending_of_load (load : i.load = true) :
    (m.tick i).pending =
      {p | p ∈ circle (wordRx i.writedata) (wordRy i.writedata) (wordRadius i.writedata)} := by
  have start := octant_of_load (m := m) load
  have new := tick_of_load (m := m) load
  have inside : (Octant.start (wordRadius i.writedata).toNat).y ≤
      (Octant.start (wordRadius i.writedata).toNat).x := by simp [Octant.start]
  ext p
  simp only [pending, ahead, start, circle, Octant.visits_of_le inside]
  rw [new]
  simp [PixelState.phase, Octant.pairsFrom_zero]

/-! ## The picture -/

/-- Writing back both bytes with fresh outputs sets the two pixels of the pair. -/
theorem lit_write {ram0 : DualPortRam 15 8} {a b : Pixel} (freshA : ram0.qA = ram0.ram a.addr)
    (freshB : ram0.qB = ram0.ram b.addr) (shared : a.addr = b.addr → a = b) :
    lit (ram0.tick ⟨a.mask ||| ram0.qA, a.addr, true⟩ ⟨b.mask ||| ram0.qB, b.addr, true⟩).ram =
      insert b (insert a (lit ram0.ram)) := by
  rw [← lit_plot, ← lit_plot]
  congr 1
  simp only [DualPortRam.tick, DualPortRam.write, if_true, freshA, freshB, plot,
    BitVec.or_comm _ (Pixel.mask _)]
  by_cases same : a.addr = b.addr
  · obtain rfl := shared same
    rw [Function.update_self, ← BitVec.or_assoc, BitVec.or_self]
  · rw [Function.update_of_ne (Ne.symm same)]

/-- Without a store only the second tick of a `WRITE` state changes the RAM. -/
theorem ram_tick (valid : Valid m) (silent : i.store = false)
    (notSecond : ∀ j after, m.state.corner? = some (j, after) → m.istate = .reading) :
    (m.tick i).ram0.ram = m.ram0.ram := by
  rw [tick_ram0]
  rcases valid.tickCase with rest | ⟨j, after, writing, first⟩ | ⟨j, after, writing, second⟩ |
    ⟨computing, inside⟩ | ⟨computing, outside⟩
  · rw [control_rest rest]
    exact DualPortRam.tick_ram_of_not_we _ silent silent
  · rw [control_of_corner writing, Control.writePair, if_pos first]
    exact DualPortRam.tick_ram_of_not_we _ silent silent
  · exact absurd (notSecond j after writing) second
  · rw [control_proceed valid computing inside]
    exact DualPortRam.tick_ram_of_not_we _ silent silent
  · rw [control_finish valid computing outside]
    exact DualPortRam.tick_ram_of_not_we _ silent silent

/-- The second tick of a `WRITE` state sets its pair, whatever is on the bus. -/
theorem lit_tick_of_second (valid : Valid m) {j : Fin 4} {after : PixelState}
    (writing : m.state.corner? = some (j, after)) (second : m.istate ≠ .reading) :
    lit (m.tick i).ram0.ram =
      insert (m.target j).2 (insert (m.target j).1 (lit m.ram0.ram)) := by
  obtain ⟨freshA, freshB⟩ := valid.fresh j after writing second
  rw [tick_ram0, control_of_corner writing, Control.writePair, if_neg second]
  exact lit_write freshA freshB Octant.corner_eq_of_addr

/-- A tick without store never clears a pixel. -/
theorem lit_subset_tick (valid : Valid m) (silent : i.store = false) :
    lit m.ram0.ram ⊆ lit (m.tick i).ram0.ram := by
  by_cases second : ∃ j after, m.state.corner? = some (j, after) ∧ m.istate ≠ .reading
  · obtain ⟨j, after, writing, second⟩ := second
    rw [lit_tick_of_second valid writing second]
    exact (Set.subset_insert _ _).trans (Set.subset_insert _ _)
  · rw [ram_tick valid silent fun j after writing => by
      by_contra notReading
      exact second ⟨j, after, writing, notReading⟩]

/-- A tick without load and store keeps what the engine is going to show. -/
theorem goal_tick (valid : Valid m) (quiet : i.load = false) (silent : i.store = false) :
    (m.tick i).goal = m.goal := by
  rcases valid.tickCase with rest | ⟨j, after, writing, first⟩ | ⟨j, after, writing, second⟩ |
    ⟨computing, inside⟩ | ⟨computing, outside⟩
  · have ram := ram_tick valid silent fun _ _ writing =>
      absurd rest (PixelState.ne_of_corner writing).1
    have new := tick_rest quiet rest
    rw [goal_of_wait rest, goal_of_wait (by rw [new]; exact rest), ram]
  · have ram := ram_tick valid silent fun _ _ _ => first
    have new := tick_read quiet writing first
    have same : (m.tick i).pending = m.pending := by
      rw [new]
      rfl
    rw [goal, goal, ram, same]
  · have picture := lit_tick_of_second (i := i) valid writing second
    have new := tick_write quiet writing second
    obtain ⟨phase, phase', drawing, drawing'⟩ := PixelState.phase_of_corner writing
    have split := Octant.pairsFrom_succ m.rx m.ry m.octant j
    have pending' : (m.tick i).pending =
        {p | p ∈ m.octant.pairsFrom m.rx m.ry (j + 1) ∨
          ∃ o ∈ m.ahead, p ∈ o.pixels m.rx m.ry} := by
      rw [new]
      ext p
      simp [pending, ahead, octant, drawing', phase']
    rw [goal, goal, picture, pending']
    ext p
    simp only [pending, phase, split, drawing, ne_eq, not_false_eq_true, true_and, Set.mem_union,
      Set.mem_insert_iff, Set.mem_ofPred_eq]
    grind
  · have next := octant_of_compute valid quiet computing
    have new := tick_proceed valid quiet computing inside
    have ram := ram_tick valid silent fun _ _ writing =>
      absurd computing (PixelState.ne_of_corner writing).2
    have same : (m.tick i).pending = m.pending := by
      ext p
      simp only [pending, ahead, next, Octant.visits_of_le inside]
      rw [new]
      simp [computing, PixelState.phase, Octant.pairsFrom_zero, Octant.pairsFrom_four]
    rw [goal, goal, ram, same]
  · have new := tick_finish valid quiet computing outside
    have ram := ram_tick valid silent fun _ _ writing =>
      absurd computing (PixelState.ne_of_corner writing).2
    have none : m.pending = ∅ := by
      ext p
      simp [pending, ahead, Octant.visits_of_lt outside, computing, PixelState.phase,
        Octant.pairsFrom_four]
    rw [goal_of_wait (by rw [new]), goal, ram, none, Set.union_empty]

/-- Left alone, an engine changes nothing outside what it is going to show. -/
theorem lit_subset_goal (m : PlotPixel) : lit m.ram0.ram ⊆ m.goal :=
  Set.subset_union_left

/-- The tick of a load finishes what it interrupts only as far as the pair of
that tick; the new circle is added to the goal. -/
theorem goal_of_load (load : i.load = true) :
    (m.tick i).goal = lit (m.tick i).ram0.ram ∪
      {p | p ∈ circle (wordRx i.writedata) (wordRy i.writedata) (wordRadius i.writedata)} := by
  rw [goal, pending_of_load load]

/-! ## The time -/

theorem ticksLeft_of_wait (rest : m.state = .wait) : m.ticksLeft = 0 := by
  rw [ticksLeft, if_pos rest]

theorem ticksLeft_eq_zero_iff : m.ticksLeft = 0 ↔ m.state = .wait := by
  refine ⟨fun none => ?_, ticksLeft_of_wait⟩
  by_contra drawing
  rw [ticksLeft, if_neg drawing] at none
  omega

/-- Every tick without a load takes one off, stores and reads notwithstanding. -/
theorem ticksLeft_tick (valid : Valid m) (quiet : i.load = false) :
    (m.tick i).ticksLeft = m.ticksLeft - 1 := by
  rcases valid.tickCase with rest | ⟨j, after, writing, first⟩ | ⟨j, after, writing, second⟩ |
    ⟨computing, inside⟩ | ⟨computing, outside⟩
  · rw [ticksLeft_of_wait rest, ticksLeft_of_wait (by rw [tick_rest quiet rest]; exact rest)]
  · obtain ⟨phase, -, drawing, -⟩ := PixelState.phase_of_corner writing
    have notReading : m.state ≠ .reading := valid.state_ne
    rw [tick_read quiet writing first]
    simp only [ticksLeft, ahead, octant, drawing, first, notReading, phase, if_true, if_false]
    omega
  · obtain ⟨phase, phase', drawing, drawing'⟩ := PixelState.phase_of_corner writing
    rw [tick_write quiet writing second]
    simp only [ticksLeft, ahead, octant, drawing, drawing', second, phase, phase', if_true,
      if_false]
    omega
  · have next := octant_of_compute valid quiet computing
    simp only [ticksLeft, ahead, next, Octant.visits_of_le inside, computing, PixelState.phase]
    rw [tick_proceed valid quiet computing inside]
    simp only [List.length_cons, reduceCtorEq, if_false]
    omega
  · rw [ticksLeft_of_wait (by rw [tick_finish valid quiet computing outside])]
    simp [ticksLeft, ahead, Octant.visits_of_lt outside, computing, PixelState.phase]

/-- The ticks from a load with radius `r` until the engine is back in `WAIT`. -/
def drawTicks (r : BitVec 8) : ℕ := 8 * (Octant.start r.toNat).visits.length + 1

theorem ticksLeft_of_load (load : i.load = true) :
    (m.tick i).ticksLeft = drawTicks (wordRadius i.writedata) := by
  have start := octant_of_load (m := m) load
  have here : (Octant.start (wordRadius i.writedata).toNat).y ≤
      (Octant.start (wordRadius i.writedata).toNat).x := by
    simp [Octant.start]
  rw [ticksLeft, ahead, start, drawTicks, Octant.visits_of_le here, tick_of_load load]
  simp only [reduceCtorEq, PixelState.phase, if_true, if_false, List.length_cons]
  omega

theorem drawTicks_le (r : BitVec 8) : drawTicks r ≤ 1449 := by
  have visits := length_visits_start_le (Nat.le_of_lt_succ r.isLt)
  rw [drawTicks]
  omega

end PlotPixel

end CirclePlotter.FinalDesign
