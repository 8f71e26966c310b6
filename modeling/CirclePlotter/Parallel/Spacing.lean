import CirclePlotter.Parallel.EngineRun
import CirclePlotter.Parallel.ScreenPort

/-!
# Commands that leave the engines time

Nothing tells the software when an engine is done, so `plotallcircles_hw` relies on
time: its commands go round ten modules, and each is hoped to find its module
waiting. `drawTicks` is how long a circle keeps its engine.

* `ticksLeft_run_le` says by when an engine is done, whatever it is sent before,
  and `outcome_run` what it is going to show when the loads find it waiting.
* `picture_of_spaced` is the picture of all engines.
* `plotallcircles_hw_draws` applies it to fifty commands of which any eleven in a
  row take 730 cycles.
-/

namespace CirclePlotter.Parallel

open Sync

/-- What an engine adds to the picture for a word: the circle, and the exit of
its walk. -/
def figure (word : BitVec 32) : Set Pixel :=
  {p | p ∈ circle (wordRx word) (wordRy word) (wordRadius word)} ∪
    {p | wordRadius word ≠ 0 ∧
      p ∈ (Octant.start (wordRadius word).toNat).exit.pixels (wordRx word) (wordRy word)}

namespace PlotPixel

/-- The ticks from a load with radius `r` until the engine is back in `WAIT`. -/
def drawTicks (r : BitVec 8) : ℕ :=
  if r = 0 then 5 else 5 + 4 * (Octant.start r.toNat).visits.length

theorem drawTicks_le (r : BitVec 8) : drawTicks r ≤ 729 := by
  have visits := length_visits_start_le (Nat.le_of_lt_succ r.isLt)
  unfold drawTicks
  split <;> omega

section Run

variable {id : BitVec 6} {m : PlotPixel} {i : BusIn} {ins : ℕ → BusIn} {n N : ℕ}

theorem ticksLeft_of_load (load : i.load id = true) :
    (m.tick id i).ticksLeft = drawTicks (wordRadius i.writedata) := by
  have start := octant_of_load (m := m) load
  have new := tick_of_load (m := m) load
  have steps := congrArg List.length
    (Octant.cons_steps (Octant.start (wordRadius i.writedata).toNat))
  rw [List.length_cons, List.length_append, List.length_singleton] at steps
  have radius : (m.tick id i).radius = wordRadius i.writedata := by rw [new]
  have state : (m.tick id i).state = .write0 := by rw [new]
  rw [ticksLeft, onward, start, radius, state, drawTicks]
  simp only [reduceCtorEq, PixelState.phase, if_false]
  split
  · rfl
  · omega

/-- An engine is done by `N` when the circles it was sent before cycle `n` are. -/
theorem ticksLeft_run_le (rest : m.state = .wait)
    (drawn : ∀ c < n, (ins c).load id = true →
      c + 1 + drawTicks (wordRadius (ins c).writedata) ≤ N) :
    (run (tick id) m ins n).ticksLeft ≤ N - n := by
  induction n with
  | zero =>
      rw [run_zero, ticksLeft_eq_zero_iff.mpr rest]
      exact Nat.zero_le _
  | succ n ih =>
      rw [run_succ]
      cases load : (ins n).load id with
      | true =>
          have last := drawn n (Nat.lt_succ_self n) load
          rw [ticksLeft_of_load load]
          omega
      | false =>
          have before := ih fun c less => drawn c (Nat.lt_succ_of_lt less)
          rw [ticksLeft_tick (valid_run (.of_wait rest) n) load]
          omega

/-- The loads before cycle `N` leave the engine time for each circle. -/
def Spaced (id : BitVec 6) (ins : ℕ → BusIn) (N : ℕ) : Prop :=
  ∀ c n, c < n → n < N → (ins c).load id = true → (ins n).load id = true →
    c + 1 + drawTicks (wordRadius (ins c).writedata) ≤ n

/-- So every load finds it waiting. -/
theorem wait_of_spaced (rest : m.state = .wait) (spaced : Spaced id ins N) (before : n < N)
    (load : (ins n).load id = true) : (run (tick id) m ins n).state = .wait := by
  have left := ticksLeft_run_le (n := n) (N := n) rest
    fun c less load' => spaced c n less before load' load
  exact ticksLeft_eq_zero_iff.mp (by omega)

/-- What the engine is going to show: what it showed, and the figures it was sent. -/
theorem outcome_run (nonzero : id ≠ 0) (rest : m.state = .wait)
    (kept : ∀ n < N, (ins n).clear = false) (spaced : Spaced id ins N) (before : n ≤ N) :
    (run (tick id) m ins n).outcome =
      litBits m.ram0.ram ∪
        {p | ∃ c < n, (ins c).load id = true ∧ p ∈ figure (ins c).writedata} := by
  induction n with
  | zero => simp [outcome_of_wait rest]
  | succ n ih =>
      have here := ih (Nat.le_of_succ_le before)
      rw [run_succ]
      cases load : (ins n).load id with
      | true =>
          have waits := wait_of_spaced rest spaced before load
          rw [outcome_of_load waits nonzero load, ← outcome_of_wait waits, here]
          ext p
          simp only [Nat.lt_succ_iff_lt_or_eq, or_and_right, exists_or, exists_eq_left, load,
            true_and, Set.mem_union, Set.mem_ofPred_eq, or_assoc, figure, BusIn.circle]
      | false =>
          rw [outcome_tick (valid_run (.of_wait rest) n) load (kept n before), here]
          ext p
          simp only [Nat.lt_succ_iff_lt_or_eq, or_and_right, exists_or, exists_eq_left, load,
            Bool.false_eq_true, false_and, or_false]

end Run

end PlotPixel

namespace PlotCircle

variable {s : PlotCircle} {ins : ℕ → BusIn} {N : ℕ}

/-- Each engine runs on its own. -/
theorem p_run (s : PlotCircle) (ins : ℕ → BusIn) (n : ℕ) (j : Fin 11) :
    (run tick s ins n).p j = run (PlotPixel.tick (moduleId j)) (s.p j) ins n := by
  induction n with
  | zero => rfl
  | succ n ih =>
      rw [run_succ, run_succ, ← ih]
      rfl

/-- When the loads leave all engines time and the last circles are drawn, the
engines are idle, and the figures they were sent are in the picture. -/
theorem picture_of_spaced (idle : s.Idle) (kept : ∀ n < N, (ins n).clear = false)
    (spaced : ∀ j, PlotPixel.Spaced (moduleId j) ins N)
    (drawn : ∀ j, ∀ c < N, (ins c).load (moduleId j) = true →
      c + 1 + PlotPixel.drawTicks (wordRadius (ins c).writedata) ≤ N) :
    (run tick s ins N).Idle ∧ (run tick s ins N).picture = s.picture ∪
      {p | ∃ c < N, ∃ j, (ins c).load (moduleId j) = true ∧ p ∈ figure (ins c).writedata} := by
  have done (j : Fin 11) : ((run tick s ins N).p j).state = .wait := by
    have left := PlotPixel.ticksLeft_run_le (idle j) (drawn j)
    rw [p_run, ← PlotPixel.ticksLeft_eq_zero_iff]
    omega
  have shown (j : Fin 11) : litBits ((run tick s ins N).p j).ram0.ram = litBits (s.p j).ram0.ram ∪
      {p | ∃ c < N, (ins c).load (moduleId j) = true ∧ p ∈ figure (ins c).writedata} := by
    rw [← PlotPixel.outcome_of_wait (done j), p_run]
    exact PlotPixel.outcome_run (moduleId_ne_zero j) (idle j) kept (spaced j) (Nat.le_refl N)
  refine ⟨done, ?_⟩
  ext p
  simp only [picture, shown, Set.mem_union, Set.mem_ofPred_eq, exists_or]
  refine or_congr_right ⟨fun sent => ?_, fun sent => ?_⟩
  · rcases sent with ⟨j, c, before, load, inFigure⟩
    exact ⟨c, before, j, load, inFigure⟩
  · rcases sent with ⟨c, before, j, load, inFigure⟩
    exact ⟨j, c, before, load, inFigure⟩

end PlotCircle

/-! ## `plotallcircles_hw` -/

/-- The word of command `i`: circle `i` for module `i % 10 + 1`. -/
def commandWord (dx dy dr : Fin 50 → BitVec 32) (i : Fin 50) : BitVec 32 :=
  setRadius (BitVec.ofNat 32 (i % 10 + 1)) (dx i) (dy i) (dr i)

/-- `plotallcircles_hw` on the bus: command `i` is stored in cycle `t i`, and
nothing else is stored. -/
structure Sends (dx dy dr : Fin 50 → BitVec 32) (t : Fin 50 → ℕ) (ins : ℕ → BusIn) : Prop where
  order : StrictMono t
  write : ∀ i, (ins (t i)).write = true
  word : ∀ i, (ins (t i)).writedata = commandWord dx dy dr i
  alone : ∀ n, (∀ i, n ≠ t i) → (ins n).write = false

section Sends

variable {dx dy dr : Fin 50 → BitVec 32} {t : Fin 50 → ℕ} {ins : ℕ → BusIn}

theorem dest_commandWord (i : Fin 50) :
    (commandWord dx dy dr i).extractLsb' 26 6 = moduleId ⟨i % 10, by omega⟩ := by
  rw [commandWord, dest_setRadius, moduleId]
  apply BitVec.eq_of_toNat_eq
  simp only [BitVec.toNat_setWidth, BitVec.toNat_ofNat]
  omega

theorem Sends.exists_of_write (sends : Sends dx dy dr t ins) {n : ℕ}
    (write : (ins n).write = true) : ∃ i, n = t i := by
  by_contra none
  rw [sends.alone n fun i same => none ⟨i, same⟩] at write
  cases write

/-- Command `i` loads module `i % 10`. -/
theorem Sends.load_iff (sends : Sends dx dy dr t ins) {n : ℕ} {j : Fin 11} :
    (ins n).load (moduleId j) = true ↔ ∃ i, n = t i ∧ (j : ℕ) = i % 10 := by
  have dest (i : Fin 50) : (ins (t i)).dest = moduleId ⟨i % 10, by omega⟩ := by
    rw [BusIn.dest, sends.word, dest_commandWord]
  have same : ∀ j j' : Fin 11, moduleId j = moduleId j' ↔ j' = j := by decide
  constructor
  · intro load
    rw [BusIn.load, Bool.and_eq_true, beq_iff_eq] at load
    rcases sends.exists_of_write load.1 with ⟨i, rfl⟩
    rw [dest, same] at load
    exact ⟨i, rfl, by rw [load.2]⟩
  · intro sent
    rcases sent with ⟨i, rfl, module⟩
    rw [BusIn.load, sends.write, dest, Bool.true_and, beq_iff_eq, same]
    exact Fin.ext module

theorem Sends.not_clear (sends : Sends dx dy dr t ins) (n : ℕ) : (ins n).clear = false := by
  cases write : (ins n).write with
  | false => rw [BusIn.clear, write, Bool.false_and]
  | true =>
      rcases sends.exists_of_write write with ⟨i, rfl⟩
      rw [BusIn.clear, BusIn.dest, sends.word, dest_commandWord,
        beq_eq_false_iff_ne.mpr (moduleId_ne_zero _), Bool.and_false]

/-- The round over the ten modules gives the engines time. When they are idle at
first and any eleven commands in a row take 730 cycles, they are idle again 730
cycles after the last one, and all figures are in the picture. -/
theorem plotallcircles_hw_draws {s : PlotCircle} (idle : s.Idle) (sends : Sends dx dy dr t ins)
    (round : ∀ i i' : Fin 50, (i : ℕ) + 10 ≤ i' → t i + 730 ≤ t i') {N : ℕ}
    (later : ∀ i, t i + 730 ≤ N) :
    (run PlotCircle.tick s ins N).Idle ∧ (run PlotCircle.tick s ins N).picture =
      s.picture ∪ {p | ∃ i, p ∈ figure (commandWord dx dy dr i)} := by
  have spaced (j : Fin 11) : PlotPixel.Spaced (moduleId j) ins N := by
    intro c n less _ load load'
    rcases sends.load_iff.mp load with ⟨i, rfl, here⟩
    rcases sends.load_iff.mp load' with ⟨i', rfl, here'⟩
    have order : i < i' := sends.order.lt_iff_lt.mp less
    have apart := round i i' (by omega)
    have time := PlotPixel.drawTicks_le (wordRadius (ins (t i)).writedata)
    omega
  have drawn (j : Fin 11) : ∀ c < N, (ins c).load (moduleId j) = true →
      c + 1 + PlotPixel.drawTicks (wordRadius (ins c).writedata) ≤ N := by
    intro c _ load
    rcases sends.load_iff.mp load with ⟨i, rfl, -⟩
    have last := later i
    have time := PlotPixel.drawTicks_le (wordRadius (ins (t i)).writedata)
    omega
  rcases PlotCircle.picture_of_spaced idle (fun n _ => sends.not_clear n) spaced drawn with
    ⟨done, shown⟩
  refine ⟨done, shown.trans ?_⟩
  ext p
  refine or_congr_right ⟨fun sent => ?_, fun sent => ?_⟩
  · rcases sent with ⟨c, -, j, load, inFigure⟩
    rcases sends.load_iff.mp load with ⟨i, rfl, -⟩
    exact ⟨i, sends.word i ▸ inFigure⟩
  · rcases sent with ⟨i, inFigure⟩
    exact ⟨t i, by have := later i; omega, ⟨i % 10, by omega⟩, sends.load_iff.mpr ⟨i, rfl, rfl⟩,
      (sends.word i).symm ▸ inFigure⟩

/-- Fifty points in the corner, a command every 73 cycles. -/
theorem plotallcircles_hw_draws_points :
    let ins (n : ℕ) : BusIn := if n % 73 = 0 ∧ n / 73 < 50 then
      ⟨false, 0, true, setRadius (BitVec.ofNat 32 (n / 73 % 10 + 1)) 0 0 0⟩ else .rest
    (run PlotCircle.tick .blank ins 4400).Idle ∧ (run PlotCircle.tick .blank ins 4400).picture =
      PlotCircle.blank.picture ∪
        {p | ∃ i, p ∈ figure (commandWord (fun _ => 0) (fun _ => 0) (fun _ => 0) i)} := by
  intro ins
  have hit (i : Fin 50) : ins (73 * i) =
      ⟨false, 0, true, commandWord (fun _ => 0) (fun _ => 0) (fun _ => 0) i⟩ := by
    have index : 73 * (i : ℕ) % 73 = 0 ∧ 73 * (i : ℕ) / 73 = i := by omega
    simp [ins, index, commandWord]
  have sends : Sends (fun _ => 0) (fun _ => 0) (fun _ => 0) (fun i => 73 * (i : ℕ)) ins :=
    ⟨fun i i' less => by omega, fun i => by rw [hit], fun i => by rw [hit],
      fun n none => by
        have miss : ¬ (n % 73 = 0 ∧ n / 73 < 50) := fun index =>
          none ⟨n / 73, index.2⟩ (by simp only; omega)
        rw [show ins n = .rest from if_neg miss]
        rfl⟩
  exact plotallcircles_hw_draws (fun _ => rfl) sends (fun i i' apart => by omega)
    fun i => by omega

end Sends

end CirclePlotter.Parallel
