import CirclePlotter.Circle
import CirclePlotter.FinalDesign.PlotPixel

/-!
# Ticks of a circle engine

A valid engine is on the midpoint walk of the circle it was loaded with, and
in the second tick of a `WRITE` state its RAM outputs are fresh. `TickCase`
lists the five kinds of tick such an engine can make, `tick_rest` to
`tick_finish` say what each does to the registers, and `Valid.tick` is the
invariant: it holds after every tick, loads and stores included.
-/

namespace CirclePlotter.FinalDesign

namespace PlotPixel

/-- The registers `x`, `y`, `xp` read as the signed values they stand for. -/
def octant (m : PlotPixel) : Octant := ⟨m.x.toInt, m.y.toInt, m.xp.toInt⟩

/-- Within the bounds of the walk `COMPUTE` takes the exact step of the walk. -/
theorem computed_octant {m : PlotPixel} (within : Octant.Within m.radius.toNat m.octant) :
    (⟨m.computed.1.toInt, m.computed.2.1.toInt, m.computed.2.2.toInt⟩ : Octant) =
      m.octant.next := by
  have small : (m.radius.toNat : Int) ≤ 255 := Int.ofNat_le.mpr (Nat.le_of_lt_succ m.radius.isLt)
  rw [octant, ← next_registers small within, computed]
  split <;> rfl

/-! ## What a tick can do -/

end PlotPixel

/-- The number of pairs drawn before this state; `COMPUTE` comes after all four. -/
def PixelState.phase : PixelState → ℕ
  | .write0 => 0
  | .write1 => 1
  | .write2 => 2
  | .write3 => 3
  | _ => 4

/-- The state after that of a pair. -/
def PixelState.after : PixelState → PixelState
  | .write0 => .write1
  | .write1 => .write2
  | .write2 => .write3
  | _ => .compute

/-- In the states `WRITE0` to `WRITE3`: the pair of pixels and the next state. -/
def PixelState.corner? (s : PixelState) : Option (Fin 4 × PixelState) :=
  if writing : s.phase < 4 then some (⟨s.phase, writing⟩, s.after) else none

theorem PixelState.phase_of_corner {s after : PixelState} {j : Fin 4}
    (writing : s.corner? = some (j, after)) :
    s.phase = j ∧ after.phase = j + 1 ∧ s ≠ .wait ∧ after ≠ .wait := by
  cases s <;> cases writing <;> exact ⟨rfl, rfl, nofun, nofun⟩

theorem PixelState.ne_of_corner {s after : PixelState} {j : Fin 4}
    (writing : s.corner? = some (j, after)) : s ≠ .wait ∧ s ≠ .compute := by
  cases s <;> cases writing <;> exact ⟨nofun, nofun⟩

namespace PlotPixel

/-- The pixels at the two ports in the state of pair `j`. -/
abbrev target (m : PlotPixel) (j : Fin 4) : Pixel × Pixel := m.octant.corner m.rx m.ry j

theorem control_of_corner {m : PlotPixel} {i : PixelIn} {j : Fin 4} {after : PixelState}
    (writing : m.state.corner? = some (j, after)) :
    m.control i = (m.idle i).writePair m (m.target j).1 (m.target j).2 after := by
  cases state : m.state <;> rw [state] at writing <;> cases writing <;>
    simp only [control, state, target, Octant.corner, octant, xpx, xpy, xmx, xmy,
      setWidth_eq_ofInt] <;>
    rfl

/-- The invariant of an engine: a drawing engine is on the walk of its circle,
and in the second tick of a `WRITE` state both RAM outputs show the bytes the
ports address. -/
structure Valid (m : PlotPixel) : Prop where
  state_ne : m.state ≠ .reading
  within : m.state ≠ .wait → Octant.Within m.radius.toNat m.octant
  fresh : ∀ j after, m.state.corner? = some (j, after) → m.istate ≠ .reading →
    m.ram0.qA = m.ram0.ram (m.target j).1.addr ∧ m.ram0.qB = m.ram0.ram (m.target j).2.addr

/-- The five kinds of tick of a valid engine. -/
inductive TickCase (m : PlotPixel) : Prop
  | rest : m.state = .wait → TickCase m
  | read (j : Fin 4) (after : PixelState) :
    m.state.corner? = some (j, after) → m.istate = .reading → TickCase m
  | write (j : Fin 4) (after : PixelState) :
    m.state.corner? = some (j, after) → m.istate ≠ .reading → TickCase m
  | proceed : m.state = .compute → m.octant.next.y ≤ m.octant.next.x → TickCase m
  | finish : m.state = .compute → m.octant.next.x < m.octant.next.y → TickCase m

theorem Valid.tickCase {m : PlotPixel} (valid : Valid m) : TickCase m := by
  have writing {j : Fin 4} {after : PixelState} (h : m.state.corner? = some (j, after)) :
      TickCase m := by
    by_cases reading : m.istate = .reading
    · exact .read j after h reading
    · exact .write j after h reading
  cases state : m.state with
  | wait => exact .rest state
  | compute =>
      rcases Int.lt_or_le m.octant.next.x m.octant.next.y with outside | inside
      · exact .finish state outside
      · exact .proceed state inside
  | write0 | write1 | write2 | write3 => exact writing (by rw [state]; rfl)
  | reading => exact absurd state valid.state_ne

/-- The test `_x >= _y && radius != 0` of `COMPUTE` is the loop condition of the
walk: on the walk of a circle of radius 0 the first step leaves the octant. -/
theorem compute_test {m : PlotPixel} (within : Octant.Within m.radius.toNat m.octant) :
    (m.computed.2.1.sle m.computed.1 && m.radius != 0) =
      decide (m.octant.next.y ≤ m.octant.next.x) := by
  have step := computed_octant within
  obtain ⟨hy, hyx, hx, -, -⟩ := within
  have shrinks := m.octant.next_x_le
  have grows := m.octant.next_y
  rw [← step] at shrinks grows ⊢
  simp only [BitVec.sle] at shrinks grows ⊢
  by_cases inside : m.computed.2.1.toInt ≤ m.computed.1.toInt
  · have positive : m.radius ≠ 0 := by
      intro zero
      have none : m.radius.toNat = 0 := by rw [zero]; rfl
      omega
    rw [decide_eq_true inside, bne_iff_ne.mpr positive, Bool.and_self]
  · rw [decide_eq_false inside, Bool.false_and]

/-- A `COMPUTE` that stays in the octant prefetches the first pair of the next
position. -/
theorem control_proceed {m : PlotPixel} {i : PixelIn} (valid : Valid m)
    (computing : m.state = .compute) (inside : m.octant.next.y ≤ m.octant.next.x) :
    m.control i =
      { m.idle i with
        x := m.computed.1, y := m.computed.2.1, xp := m.computed.2.2
        state := .write0, istate := .write0
        portA := { (m.idle i).portA with addr := (m.octant.next.corner m.rx m.ry 0).1.addr }
        portB := { (m.idle i).portB with addr := (m.octant.next.corner m.rx m.ry 0).2.addr } } := by
  have within := valid.within (by simp [computing])
  have test := compute_test within
  rw [decide_eq_true inside] at test
  rw [← computed_octant within]
  simp only [control, computing, test, if_true, Octant.corner, setWidth_eq_ofInt]

/-- A `COMPUTE` that leaves the octant stops and leaves the ports to the bus. -/
theorem control_finish {m : PlotPixel} {i : PixelIn} (valid : Valid m)
    (computing : m.state = .compute) (outside : m.octant.next.x < m.octant.next.y) :
    m.control i =
      { m.idle i with
        x := m.computed.1, y := m.computed.2.1, xp := m.computed.2.2, state := .wait } := by
  have test := compute_test (valid.within (by simp [computing]))
  rw [decide_eq_false (by omega)] at test
  simp only [control, computing, test, Bool.false_eq_true, if_false]

theorem control_rest {m : PlotPixel} {i : PixelIn} (rest : m.state = .wait) :
    m.control i = m.idle i := by
  simp only [control, rest]

/-! ### One lemma for each kind of tick -/

@[simp] theorem tick_ram0 (m : PlotPixel) (i : PixelIn) :
    (m.tick i).ram0 = m.ram0.tick (m.control i).portA (m.control i).portB := by
  unfold tick
  split <;> rfl

@[simp] theorem tick_lread (m : PlotPixel) (i : PixelIn) : (m.tick i).lread = i.read := by
  unfold tick
  split <;> rfl

variable {m : PlotPixel} {i : PixelIn}

theorem tick_of_load (load : i.load = true) :
    m.tick i =
      { rx := wordRx i.writedata, ry := wordRy i.writedata
        x := (wordRadius i.writedata).setWidth 10, y := 0
        xp := -(wordRadius i.writedata).setWidth 11 + 1
        radius := wordRadius i.writedata, lread := i.read
        state := .write0, istate := .reading, ram0 := (m.tick i).ram0 } := by
  rw [tick_ram0]
  simp [tick, load]

theorem tick_of_not_load (quiet : i.load = false) :
    m.tick i =
      { m with
        x := (m.control i).x, y := (m.control i).y, xp := (m.control i).xp
        state := (m.control i).state, istate := (m.control i).istate
        lread := i.read, ram0 := (m.tick i).ram0 } := by
  rw [tick_ram0]
  simp [tick, quiet]

theorem tick_rest (quiet : i.load = false) (rest : m.state = .wait) :
    m.tick i = { m with lread := i.read, ram0 := (m.tick i).ram0 } := by
  rw [tick_of_not_load quiet, control_rest rest]
  rfl

theorem tick_read {j : Fin 4} {after : PixelState} (quiet : i.load = false)
    (writing : m.state.corner? = some (j, after)) (first : m.istate = .reading) :
    m.tick i = { m with istate := m.state, lread := i.read, ram0 := (m.tick i).ram0 } := by
  rw [tick_of_not_load quiet, control_of_corner writing, Control.writePair, if_pos first]
  rfl

theorem tick_write {j : Fin 4} {after : PixelState} (quiet : i.load = false)
    (writing : m.state.corner? = some (j, after)) (second : m.istate ≠ .reading) :
    m.tick i =
      { m with
        state := after, istate := .reading, lread := i.read, ram0 := (m.tick i).ram0 } := by
  rw [tick_of_not_load quiet, control_of_corner writing, Control.writePair, if_neg second]
  rfl

theorem tick_proceed (valid : Valid m) (quiet : i.load = false) (computing : m.state = .compute)
    (inside : m.octant.next.y ≤ m.octant.next.x) :
    m.tick i =
      { m with
        x := m.computed.1, y := m.computed.2.1, xp := m.computed.2.2
        state := .write0, istate := .write0, lread := i.read, ram0 := (m.tick i).ram0 } := by
  rw [tick_of_not_load quiet, control_proceed valid computing inside]

theorem tick_finish (valid : Valid m) (quiet : i.load = false) (computing : m.state = .compute)
    (outside : m.octant.next.x < m.octant.next.y) :
    m.tick i =
      { m with
        x := m.computed.1, y := m.computed.2.1, xp := m.computed.2.2
        state := .wait, lread := i.read, ram0 := (m.tick i).ram0 } := by
  rw [tick_of_not_load quiet, control_finish valid computing outside]
  rfl

/-- Every `COMPUTE` takes one step of the walk. -/
theorem octant_of_compute (valid : Valid m) (quiet : i.load = false)
    (computing : m.state = .compute) : (m.tick i).octant = m.octant.next := by
  rw [← computed_octant (valid.within (by simp [computing]))]
  rcases Int.lt_or_le m.octant.next.x m.octant.next.y with outside | inside
  · rw [tick_finish valid quiet computing outside]
    rfl
  · rw [tick_proceed valid quiet computing inside]
    rfl

/-! ## The invariant -/

theorem octant_of_load (load : i.load = true) :
    (m.tick i).octant = Octant.start (wordRadius i.writedata).toNat := by
  rw [tick_of_load load]
  exact start_registers (wordRadius i.writedata)

/-- An engine that waits satisfies the invariant. -/
theorem Valid.of_wait (rest : m.state = .wait) : Valid m where
  state_ne := by simp [rest]
  within drawing := absurd rest drawing
  fresh _ _ writing := absurd rest (PixelState.ne_of_corner writing).1

/-- A load establishes the invariant in every engine. -/
theorem Valid.of_load (load : i.load = true) : Valid (m.tick i) := by
  have start := octant_of_load (m := m) load
  have new := tick_of_load (m := m) load
  refine ⟨by rw [new]; simp, fun _ => ?_, fun j after _ second => ?_⟩
  · rw [start, new]
    exact Octant.within_start (by omega)
  · rw [new] at second
    exact absurd rfl second

/-- Every tick, whatever its inputs, keeps the invariant. -/
theorem Valid.tick (valid : Valid m) : Valid (m.tick i) := by
  by_cases load : i.load = true
  · exact Valid.of_load load
  · have quiet : i.load = false := by simpa using load
    rcases valid.tickCase with rest | ⟨j, after, writing, first⟩ | ⟨j, after, writing, second⟩ |
      ⟨computing, inside⟩ | ⟨computing, outside⟩
    · have new := tick_rest quiet rest
      rw [new]
      exact ⟨valid.state_ne, fun drawing => absurd rest drawing,
        fun _ _ writing => absurd rest (PixelState.ne_of_corner writing).1⟩
    · have ram := tick_ram0 m i
      rw [control_of_corner writing, Control.writePair, if_pos first] at ram
      have fresh := m.ram0.tick_fresh (m.idle i).portA (m.target j).1.addr (m.target j).2.addr
      rw [tick_read quiet writing first]
      refine ⟨valid.state_ne, valid.within, fun j' after' writing' _ => ?_⟩
      obtain ⟨rfl, rfl⟩ : j = j' ∧ after = after' := by simpa [writing] using writing'
      rw [ram]
      exact fresh
    · have new := tick_write quiet writing second
      have drawing := (PixelState.ne_of_corner writing).1
      rw [new]
      refine ⟨?_, fun _ => valid.within drawing, fun _ _ _ second' => absurd rfl second'⟩
      cases state : m.state <;> rw [state] at writing <;> cases writing <;> simp [PixelState.after]
    · have within := valid.within (by simp [computing])
      have step := computed_octant within
      have ram := tick_ram0 m i
      rw [control_proceed valid computing inside] at ram
      have fresh := m.ram0.tick_fresh (m.idle i).portA (m.octant.next.corner m.rx m.ry 0).1.addr
        (m.octant.next.corner m.rx m.ry 0).2.addr
      rw [tick_proceed valid quiet computing inside]
      refine ⟨by simp, fun _ => ?_, fun j after writing _ => ?_⟩
      · simp only [octant, step]
        exact within.next inside
      · cases writing
        simp only [target, octant, step, ram]
        exact fresh
    · rw [tick_finish valid quiet computing outside]
      exact ⟨by simp, fun drawing => absurd rfl drawing, fun j after writing => by cases writing⟩

end PlotPixel

end CirclePlotter.FinalDesign
