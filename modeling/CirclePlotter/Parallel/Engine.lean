import CirclePlotter.Circle
import CirclePlotter.Parallel.PlotPixel

/-!
# Ticks of a parallel circle engine

A valid engine that is still in the octant is on the midpoint walk of the circle
it was loaded with. `TickCase` lists the five kinds of tick of an engine, and
`drawing?` is the pair of pixels it sets in a tick. The pixels of its circle the
engine has still to set are `due`; a tick without a load sets some of them and
keeps the rest. The tick of a load drops them, and `Spares` says when that loses
nothing.
-/

namespace CirclePlotter.Parallel

/-- The number of pairs drawn before this state; `COMPUTE` comes after all four. -/
def PixelState.phase : PixelState → ℕ
  | .write0 => 0
  | .write1 => 1
  | .write2 => 2
  | .write3 => 3
  | .wait | .compute => 4

/-- The state after that of a pair. -/
def PixelState.after : PixelState → PixelState
  | .write0 => .write1
  | .write1 => .write2
  | .write2 => .write3
  | .write3 | .wait | .compute => .compute

/-- In the states `WRITE0` to `WRITE3`: the pair of pixels and the next state. -/
def PixelState.corner? (s : PixelState) : Option (Fin 4 × PixelState) :=
  if writing : s.phase < 4 then some (⟨s.phase, writing⟩, s.after) else none

theorem PixelState.phase_of_corner {s after : PixelState} {j : Fin 4}
    (writing : s.corner? = some (j, after)) :
    s.phase = j ∧ after.phase = j + 1 ∧ s ≠ .wait ∧ after ≠ .wait := by
  cases s <;> cases writing <;> exact ⟨rfl, rfl, nofun, nofun⟩

/-- The pixels of the circle in the word on the bus. -/
def BusIn.circle (i : BusIn) : Set Pixel :=
  {p | p ∈ CirclePlotter.circle (wordRx i.writedata) (wordRy i.writedata) (wordRadius i.writedata)}

namespace PlotPixel

/-- The registers `x`, `y`, `xp` read as the signed values they stand for. -/
def octant (m : PlotPixel) : Octant := ⟨m.x.toInt, m.y.toInt, m.xp.toInt⟩

/-- Within the bounds of the walk `COMPUTE` takes the exact step of the walk. -/
theorem computed_octant {m : PlotPixel} (within : Octant.Within m.radius.toNat m.octant) :
    (⟨m.computed.1.toInt, m.computed.2.1.toInt, m.computed.2.2.toInt⟩ : Octant) =
      m.octant.next := by
  have small : (m.radius.toNat : Int) ≤ 255 := Int.ofNat_le.mpr (Nat.le_of_lt_succ m.radius.isLt)
  rw [octant, ← next_registers small within, computed]
  split <;> rfl

/-- The invariant of an engine: in the octant it is on the walk of its circle. -/
def Valid (m : PlotPixel) : Prop :=
  m.state ≠ .wait → m.octant.y ≤ m.octant.x → Octant.Within m.radius.toNat m.octant

/-- The five kinds of tick of an engine. -/
inductive TickCase (m : PlotPixel) : Prop
  | rest : m.state = .wait → TickCase m
  | write (j : Fin 4) (after : PixelState) : m.state.corner? = some (j, after) → TickCase m
  | proceed : m.state = .compute → m.octant.y ≤ m.octant.x → m.radius ≠ 0 → TickCase m
  | stop : m.state = .compute → m.octant.y ≤ m.octant.x → m.radius = 0 → TickCase m
  | leave : m.state = .compute → m.octant.x < m.octant.y → TickCase m

theorem tickCase (m : PlotPixel) : TickCase m := by
  cases state : m.state with
  | wait => exact .rest state
  | compute =>
      rcases Int.lt_or_le m.octant.x m.octant.y with outside | inside
      · exact .leave state outside
      · by_cases point : m.radius = 0
        · exact .stop state inside point
        · exact .proceed state inside point
  | write0 | write1 | write2 | write3 => exact .write _ _ (by rw [state]; rfl)

/-! ## The control logic in each kind of tick -/

section Control

variable {m : PlotPixel} {i : BusIn}

theorem control_rest (rest : m.state = .wait) : m.control i = m.idle i := by
  simp only [control, rest]

theorem control_write {j : Fin 4} {after : PixelState}
    (writing : m.state.corner? = some (j, after)) :
    m.control i = (m.idle i).writePair (m.octant.corner m.rx m.ry j).1
      (m.octant.corner m.rx m.ry j).2 after := by
  cases state : m.state <;> rw [state] at writing <;> cases writing <;>
    simp only [control, state, Octant.corner, octant, setWidth_eq_ofInt] <;>
    rfl

/-- The loop condition, tested on the position `COMPUTE` leaves. -/
theorem compute_test (m : PlotPixel) : m.y.sle m.x = decide (m.octant.y ≤ m.octant.x) := rfl

/-- A `COMPUTE` in the octant draws the first pair of the next position. -/
theorem control_proceed (valid : Valid m) (computing : m.state = .compute)
    (inside : m.octant.y ≤ m.octant.x) (large : m.radius ≠ 0) :
    m.control i =
      { m.idle i with x := m.computed.1, y := m.computed.2.1, xp := m.computed.2.2 }.writePair
        (m.octant.next.corner m.rx m.ry 0).1 (m.octant.next.corner m.rx m.ry 0).2 .write1 := by
  rw [← computed_octant (valid (by simp [computing]) inside)]
  simp only [control, computing, compute_test, decide_eq_true inside, if_true, Octant.corner,
    setWidth_eq_ofInt, bne_iff_ne.mpr large]

theorem control_stop (computing : m.state = .compute) (inside : m.octant.y ≤ m.octant.x)
    (point : m.radius = 0) :
    m.control i =
      { m.idle i with
        x := m.computed.1, y := m.computed.2.1, xp := m.computed.2.2, state := .wait } := by
  simp only [control, computing, compute_test, decide_eq_true inside, if_true, point,
    bne_self_eq_false, Bool.false_eq_true, if_false]

theorem control_leave (computing : m.state = .compute) (outside : m.octant.x < m.octant.y) :
    m.control i = { m.idle i with state := .wait } := by
  simp only [control, computing, compute_test, decide_eq_false (Int.not_le.mpr outside),
    Bool.false_eq_true, if_false]

end Control

/-! ## One lemma for each kind of tick -/

section Tick

variable {id : BitVec 6} {m : PlotPixel} {i : BusIn}

@[simp] theorem tick_ram0 (id : BitVec 6) (m : PlotPixel) (i : BusIn) :
    (m.tick id i).ram0 = m.ram0.tick (m.control i).portA (m.control i).portB := by
  unfold tick
  split <;> rfl

theorem tick_of_load (load : i.load id = true) :
    m.tick id i =
      { rx := wordRx i.writedata, ry := wordRy i.writedata
        x := (wordRadius i.writedata).setWidth 10, y := 0
        xp := -(wordRadius i.writedata).setWidth 11 + 1
        radius := wordRadius i.writedata, lread := i.read
        state := .write0, ram0 := (m.tick id i).ram0 } := by
  rw [tick_ram0]
  simp [tick, load]

theorem tick_of_not_load (quiet : i.load id = false) :
    m.tick id i =
      { m with
        x := (m.control i).x, y := (m.control i).y, xp := (m.control i).xp
        state := (m.control i).state, lread := i.read, ram0 := (m.tick id i).ram0 } := by
  rw [tick_ram0]
  simp [tick, quiet]

theorem tick_rest (quiet : i.load id = false) (rest : m.state = .wait) :
    m.tick id i = { m with lread := i.read, ram0 := (m.tick id i).ram0 } := by
  rw [tick_of_not_load quiet, control_rest rest]
  rfl

theorem tick_write {j : Fin 4} {after : PixelState} (quiet : i.load id = false)
    (writing : m.state.corner? = some (j, after)) :
    m.tick id i = { m with state := after, lread := i.read, ram0 := (m.tick id i).ram0 } := by
  rw [tick_of_not_load quiet, control_write writing]
  rfl

theorem tick_proceed (valid : Valid m) (quiet : i.load id = false) (computing : m.state = .compute)
    (inside : m.octant.y ≤ m.octant.x) (large : m.radius ≠ 0) :
    m.tick id i =
      { m with
        x := m.computed.1, y := m.computed.2.1, xp := m.computed.2.2
        state := .write1, lread := i.read, ram0 := (m.tick id i).ram0 } := by
  rw [tick_of_not_load quiet, control_proceed valid computing inside large]
  rfl

theorem tick_stop (quiet : i.load id = false) (computing : m.state = .compute)
    (inside : m.octant.y ≤ m.octant.x) (point : m.radius = 0) :
    m.tick id i =
      { m with
        x := m.computed.1, y := m.computed.2.1, xp := m.computed.2.2
        state := .wait, lread := i.read, ram0 := (m.tick id i).ram0 } := by
  rw [tick_of_not_load quiet, control_stop computing inside point]

theorem tick_leave (quiet : i.load id = false) (computing : m.state = .compute)
    (outside : m.octant.x < m.octant.y) :
    m.tick id i = { m with state := .wait, lread := i.read, ram0 := (m.tick id i).ram0 } := by
  rw [tick_of_not_load quiet, control_leave computing outside]
  rfl

/-! ## The invariant -/

theorem octant_of_load (load : i.load id = true) :
    (m.tick id i).octant = Octant.start (wordRadius i.writedata).toNat := by
  rw [tick_of_load load]
  exact start_registers (wordRadius i.writedata)

/-- A `COMPUTE` that goes on takes one step of the walk. -/
theorem octant_of_proceed (valid : Valid m) (quiet : i.load id = false)
    (computing : m.state = .compute) (inside : m.octant.y ≤ m.octant.x) (large : m.radius ≠ 0) :
    (m.tick id i).octant = m.octant.next := by
  rw [← computed_octant (valid (by simp [computing]) inside),
    tick_proceed valid quiet computing inside large]
  rfl

/-- An engine that waits satisfies the invariant. -/
theorem Valid.of_wait (rest : m.state = .wait) : Valid m := fun drawing => absurd rest drawing

/-- Every tick, whatever its inputs, keeps the invariant. -/
theorem Valid.tick (valid : Valid m) : Valid (m.tick id i) := by
  cases load : i.load id with
  | true =>
      have start := octant_of_load (m := m) load
      have new := tick_of_load (m := m) load
      intro _ _
      rw [start, new]
      exact Octant.within_start (by omega)
  | false =>
      rcases m.tickCase with rest | ⟨j, after, writing⟩ | ⟨computing, inside, large⟩ |
        ⟨computing, inside, point⟩ | ⟨computing, outside⟩
      · rw [tick_rest load rest]
        exact fun drawing => absurd rest drawing
      · obtain ⟨-, -, drawing, -⟩ := PixelState.phase_of_corner writing
        rw [tick_write load writing]
        exact fun _ => valid drawing
      · have next := octant_of_proceed valid load computing inside large
        have radius : (m.tick id i).radius = m.radius := by
          rw [tick_proceed valid load computing inside large]
        intro _ inside'
        rw [next] at inside' ⊢
        rw [radius]
        exact (valid (by simp [computing]) inside).next inside'
      · rw [tick_stop load computing inside point]
        exact fun drawing => absurd rfl drawing
      · rw [tick_leave load computing outside]
        exact fun drawing => absurd rfl drawing

end Tick

/-! ## The pair drawn in a tick -/

/-- The position and the number of the pair the engine sets in this tick. -/
def drawing? (m : PlotPixel) : Option (Octant × Fin 4) :=
  match m.state.corner? with
  | some (j, _) => some (m.octant, j)
  | none =>
      if m.state = .compute ∧ m.octant.y ≤ m.octant.x ∧ m.radius ≠ 0 then some (m.octant.next, 0)
      else none

/-- The pixels the engine sets in this tick. -/
def drawn (m : PlotPixel) : Set Pixel :=
  {p | ∃ o j, m.drawing? = some (o, j) ∧
    (p = (o.corner m.rx m.ry j).1 ∨ p = (o.corner m.rx m.ry j).2)}

/-- The pixels of its circle the engine has still to set. -/
def due (m : PlotPixel) : Set Pixel :=
  {p | m.state ≠ .wait ∧ m.octant.y ≤ m.octant.x ∧
    (p ∈ m.octant.pairsFrom m.rx m.ry m.state.phase ∨
      ∃ o ∈ m.octant.next.visits, p ∈ o.pixels m.rx m.ry)}

/-- What the memory shows and what the engine has still to set. -/
def goal (m : PlotPixel) : Set Pixel := litBits m.ram0.ram ∪ m.due

/-- A load of the word on the bus would take no pixel from the circle the engine
is drawing. -/
def Spares (m : PlotPixel) (i : BusIn) : Prop :=
  m.due ⊆ litBits m.ram0.ram ∪ m.drawn ∪ i.circle

section Drawing

variable {id : BitVec 6} {m : PlotPixel} {i : BusIn}

theorem drawing_of_wait (rest : m.state = .wait) : m.drawing? = none := by
  simp [drawing?, rest, PixelState.corner?, PixelState.phase]

theorem drawing_of_corner {j : Fin 4} {after : PixelState}
    (writing : m.state.corner? = some (j, after)) : m.drawing? = some (m.octant, j) := by
  simp [drawing?, writing]

theorem drawing_of_proceed (computing : m.state = .compute) (inside : m.octant.y ≤ m.octant.x)
    (large : m.radius ≠ 0) : m.drawing? = some (m.octant.next, 0) := by
  simpa [drawing?, computing, inside, PixelState.corner?, PixelState.phase] using large

theorem drawing_of_stop (computing : m.state = .compute) (point : m.radius = 0) :
    m.drawing? = none := by
  simp [drawing?, computing, point, PixelState.corner?, PixelState.phase]

theorem drawing_of_leave (computing : m.state = .compute) (outside : m.octant.x < m.octant.y) :
    m.drawing? = none := by
  simp [drawing?, computing, Int.not_le.mpr outside, PixelState.corner?, PixelState.phase]

theorem drawn_of_not_drawing (none : m.drawing? = none) : m.drawn = ∅ := by
  simp [drawn, none]

theorem mem_drawn_iff {o : Octant} {j : Fin 4} (drawing : m.drawing? = some (o, j)) {p : Pixel} :
    p ∈ m.drawn ↔ p = (o.corner m.rx m.ry j).1 ∨ p = (o.corner m.rx m.ry j).2 := by
  simp only [drawn, drawing, Option.some.injEq, Prod.mk.injEq, Set.mem_ofPred_eq, ↓existsAndEq,
    true_and]

/-- A tick that draws takes the pair off the pixels of its position. -/
theorem pairsFrom_drawing {o : Octant} {j : Fin 4} (drawing : m.drawing? = some (o, j)) :
    o.pairsFrom m.rx m.ry j = m.drawn ∪ o.pairsFrom m.rx m.ry (j + 1) := by
  rw [Octant.pairsFrom_succ]
  ext p
  rw [Set.mem_insert_iff, Set.mem_insert_iff, Set.mem_union, mem_drawn_iff drawing, or_assoc,
    or_left_comm]

theorem due_of_wait (rest : m.state = .wait) : m.due = ∅ := by
  simp [due, rest]

theorem goal_of_wait (rest : m.state = .wait) : m.goal = litBits m.ram0.ram := by
  rw [goal, due_of_wait rest, Set.union_empty]

/-- The first tick after a load has the whole circle ahead. -/
theorem due_of_load (load : i.load id = true) :
    (m.tick id i).due = i.circle := by
  have start := octant_of_load (m := m) load
  have new := tick_of_load (m := m) load
  have inside : (Octant.start (wordRadius i.writedata).toNat).y ≤
      (Octant.start (wordRadius i.writedata).toNat).x := by simp [Octant.start]
  ext p
  simp only [due, start, BusIn.circle, CirclePlotter.circle, Octant.visits_of_le inside]
  rw [new]
  simp [PixelState.phase, Octant.pairsFrom_zero, inside]

/-- In a tick that draws, both ports write `isset` to the pixels of the pair. -/
theorem ports_of_drawing (valid : Valid m) {o : Octant} {j : Fin 4}
    (drawing : m.drawing? = some (o, j)) :
    (m.control i).portA =
        { (m.idle i).portA with addr := (o.corner m.rx m.ry j).1.index, we := true } ∧
      (m.control i).portB =
        { (m.idle i).portB with addr := (o.corner m.rx m.ry j).2.index, we := true } := by
  unfold drawing? at drawing
  split at drawing
  · next writing =>
      cases drawing
      rw [control_write writing]
      exact ⟨rfl, rfl⟩
  · split at drawing
    · next going =>
        obtain ⟨computing, inside, large⟩ := going
        cases drawing
        rw [control_proceed valid computing inside large]
        exact ⟨rfl, rfl⟩
    · cases drawing

/-- In every other tick they are left to the bus. -/
theorem ports_of_not_drawing (none : m.drawing? = none) :
    (m.control i).portA = (m.idle i).portA ∧ (m.control i).portB = (m.idle i).portB := by
  rcases m.tickCase with rest | ⟨j, after, writing⟩ | ⟨computing, inside, large⟩ |
    ⟨computing, inside, point⟩ | ⟨computing, outside⟩
  · rw [control_rest rest]
    exact ⟨rfl, rfl⟩
  · rw [drawing_of_corner writing] at none
    cases none
  · rw [drawing_of_proceed computing inside large] at none
    cases none
  · rw [control_stop computing inside point]
    exact ⟨rfl, rfl⟩
  · rw [control_leave computing outside]
    exact ⟨rfl, rfl⟩

/-- A tick without a clear adds the pair drawn in it, load or not. -/
theorem litBits_tick (valid : Valid m) (kept : i.clear = false) :
    litBits (m.tick id i).ram0.ram = litBits m.ram0.ram ∪ m.drawn := by
  have isset : ~~~BitVec.ofBool i.clear = 1 := by rw [kept]; rfl
  cases drawing : m.drawing? with
  | none =>
      obtain ⟨portA, portB⟩ := ports_of_not_drawing (i := i) drawing
      rw [drawn_of_not_drawing drawing, Set.union_empty, tick_ram0, portA, portB,
        DualPortRam.tick_ram_of_not_we _ kept kept]
  | some pair =>
      obtain ⟨o, j⟩ := pair
      obtain ⟨portA, portB⟩ := ports_of_drawing (i := i) valid drawing
      rw [tick_ram0, portA, portB, DualPortRam.tick, DualPortRam.write_of_we _ rfl,
        DualPortRam.write_of_we _ rfl]
      simp only [idle, isset, litBits_update]
      ext p
      rw [Set.mem_insert_iff, Set.mem_insert_iff, Set.mem_union, mem_drawn_iff drawing]
      grind

/-- On the walk of a circle of radius 0 the first step leaves the octant. -/
theorem outside_of_point (within : Octant.Within m.radius.toNat m.octant) (point : m.radius = 0) :
    m.octant.next.x < m.octant.next.y := by
  obtain ⟨hy, hyx, hx, -, -⟩ := within
  have none : m.radius.toNat = 0 := by rw [point]; rfl
  have shrinks := m.octant.next_x_le
  rw [Octant.next_y]
  omega

/-- A tick without a load sets what it takes off what is due. -/
theorem due_subset_tick (valid : Valid m) (quiet : i.load id = false) :
    m.due ⊆ m.drawn ∪ (m.tick id i).due := by
  intro p isDue
  rcases isDue with ⟨drawing, inside, still⟩
  rcases m.tickCase with rest | ⟨j, after, writing⟩ | ⟨computing, -, large⟩ |
    ⟨computing, -, point⟩ | ⟨computing, outside⟩
  · exact absurd rest drawing
  · obtain ⟨phase, phase', -, drawing'⟩ := PixelState.phase_of_corner writing
    rw [tick_write quiet writing]
    rw [phase, pairsFrom_drawing (drawing_of_corner writing), ← phase'] at still
    rcases still with (now | later) | later
    · exact Or.inl now
    · exact Or.inr ⟨drawing', inside, Or.inl later⟩
    · exact Or.inr ⟨drawing', inside, Or.inr later⟩
  · have next := octant_of_proceed valid quiet computing inside large
    have new := tick_proceed valid quiet computing inside large
    have rx : (m.tick id i).rx = m.rx := by rw [new]
    have ry : (m.tick id i).ry = m.ry := by rw [new]
    have state : (m.tick id i).state = .write1 := by rw [new]
    -- after all four pairs of a position, only the positions after it are due
    rw [computing, PixelState.phase, Octant.pairsFrom_four] at still
    obtain ⟨o, visited, there⟩ := still.resolve_left (Set.notMem_empty p)
    have inside' := Octant.inside_of_mem_visits visited
    have due (later : p ∈ m.octant.next.pairsFrom m.rx m.ry 1 ∨
        ∃ o ∈ m.octant.next.next.visits, p ∈ o.pixels m.rx m.ry) : p ∈ (m.tick id i).due := by
      refine ⟨by simp [state], ?_, ?_⟩ <;> rw [next]
      · exact inside'
      · rw [rx, ry, state]
        exact later
    rw [Octant.visits_of_le inside', List.mem_cons] at visited
    rcases visited with rfl | later
    · have first : p ∈ m.octant.next.pairsFrom m.rx m.ry ((0 : Fin 4) : ℕ) := by
        rw [Fin.val_zero, Octant.pairsFrom_zero]
        exact there
      rw [pairsFrom_drawing (drawing_of_proceed computing inside large)] at first
      rcases first with now | later
      · exact Or.inl now
      · exact Or.inr (due (Or.inl later))
    · exact Or.inr (due (Or.inr ⟨o, later, there⟩))
  · have outside := outside_of_point (valid drawing inside) point
    rw [computing, Octant.visits_of_lt outside, PixelState.phase, Octant.pairsFrom_four] at still
    simp at still
  · omega

/-! ## What a load drops -/

theorem goal_of_load (valid : Valid m) (kept : i.clear = false) (load : i.load id = true) :
    (m.tick id i).goal = litBits m.ram0.ram ∪ m.drawn ∪ i.circle := by
  rw [goal, litBits_tick valid kept, due_of_load load]

/-- The loads that lose no pixel: every pixel still due is shown, is set in this
very tick, or belongs to the new circle. -/
theorem goal_subset_of_load_iff (valid : Valid m) (kept : i.clear = false)
    (load : i.load id = true) : m.goal ⊆ (m.tick id i).goal ↔ m.Spares i := by
  rw [goal_of_load valid kept load, goal, Set.union_subset_iff]
  refine and_iff_right ?_
  rw [Set.union_assoc]
  exact Set.subset_union_left

/-- A tick without a clear keeps the goal, if a load in it spares the engine. -/
theorem goal_subset_tick (valid : Valid m) (kept : i.clear = false)
    (spares : i.load id = true → m.Spares i) : m.goal ⊆ (m.tick id i).goal := by
  cases load : i.load id with
  | true => exact (goal_subset_of_load_iff valid kept load).mpr (spares load)
  | false =>
      rw [goal, goal, litBits_tick valid kept, Set.union_assoc]
      exact Set.union_subset_union_right _ (due_subset_tick valid load)

theorem spares_of_wait (rest : m.state = .wait) : m.Spares i := by
  rw [Spares, due_of_wait rest]
  exact Set.empty_subset _

end Drawing

end PlotPixel

end CirclePlotter.Parallel
