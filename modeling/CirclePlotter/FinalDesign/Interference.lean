import CirclePlotter.FinalDesign.EndToEnd

/-!
# A pixel store during a batch

Two runs that differ in one store to the byte address `A` are compared in
lockstep. `AgreeOff A` relates two engines, and two coprocessors, with the same
registers whose RAMs differ at most at `A`; every period with equal inputs keeps
it. The store itself keeps it when no engine is loaded in its period and every
engine is `Aside`: an engine that redirects its RAM ports while the write
enables belong to the bus takes the stored byte to its own address.
-/

namespace CirclePlotter.FinalDesign

open Sync

/-! ## Engines -/

namespace PlotPixel

/-- The same registers, and the same RAM except at `A`. -/
structure AgreeOff (A : BitVec 15) (m m' : PlotPixel) : Prop where
  registers : m' = { m with lread := m'.lread, ram0 := m'.ram0 }
  ram : ∀ a, a ≠ A → m'.ram0.ram a = m.ram0.ram a

/-- A store to `A` finds the RAM ports free for it, taken by the engine's own
write, or directed to `A`. -/
structure Aside (A : BitVec 15) (m : PlotPixel) : Prop where
  read : ∀ j after, m.state.corner? = some (j, after) → m.istate = .reading →
    (m.target j).1.addr = A ∧ (m.target j).2.addr = A
  prefetch : m.state = .compute → m.octant.next.y ≤ m.octant.next.x →
    (m.octant.next.corner m.rx m.ry 0).1.addr = A ∧
      (m.octant.next.corner m.rx m.ry 0).2.addr = A

variable {A : BitVec 15} {m m' : PlotPixel} {i i' : PixelIn}

theorem AgreeOff.refl (m : PlotPixel) : AgreeOff A m m := ⟨rfl, fun _ _ => rfl⟩

theorem AgreeOff.state (agree : AgreeOff A m m') : m'.state = m.state := by rw [agree.registers]

theorem AgreeOff.istate (agree : AgreeOff A m m') : m'.istate = m.istate := by
  rw [agree.registers]

theorem AgreeOff.target (agree : AgreeOff A m m') (j : Fin 4) : m'.target j = m.target j := by
  rw [agree.registers]
  rfl

theorem AgreeOff.idle (agree : AgreeOff A m m') : m'.idle i = m.idle i := by
  rw [agree.registers]
  rfl

/-- Outside the second tick of a `WRITE` state the control logic does not look at the RAM. -/
theorem AgreeOff.control (agree : AgreeOff A m m')
    (notSecond : ∀ j after, m.state.corner? = some (j, after) → m.istate = .reading) :
    m'.control i = m.control i := by
  cases writing : m.state.corner? with
  | some pair =>
      have first := notSecond pair.1 pair.2 writing
      have writing' : m'.state.corner? = some pair := agree.state ▸ writing
      rw [control_of_corner writing', control_of_corner writing, agree.target, agree.idle,
        Control.writePair, Control.writePair, if_pos first, if_pos (agree.istate.trans first),
        agree.state]
  | none =>
      have rx : m'.rx = m.rx := by rw [agree.registers]
      have ry : m'.ry = m.ry := by rw [agree.registers]
      have radius : m'.radius = m.radius := by rw [agree.registers]
      have computed : m'.computed = m.computed := by rw [agree.registers]; rfl
      cases state : m.state <;> rw [state] at writing <;> cases writing <;>
        simp only [PlotPixel.control, agree.state, state, agree.idle, rx, ry, radius, computed]

/-- In the second tick both RAMs get the same bytes except at `A`, whatever is on the bus. -/
theorem AgreeOff.ram_tick_of_second (agree : AgreeOff A m m') (valid : m.Valid) (valid' : m'.Valid)
    {j : Fin 4} {after : PixelState} (writing : m.state.corner? = some (j, after))
    (second : m.istate ≠ .reading) (a : BitVec 15) (other : a ≠ A) :
    (m'.tick i').ram0.ram a = (m.tick i).ram0.ram a := by
  have writing' : m'.state.corner? = some (j, after) := agree.state ▸ writing
  have second' : m'.istate ≠ .reading := agree.istate ▸ second
  obtain ⟨freshA, freshB⟩ := valid.fresh j after writing second
  obtain ⟨freshA', freshB'⟩ := valid'.fresh j after writing' second'
  rw [agree.target] at freshA' freshB'
  have sameA (other : (m.target j).1.addr ≠ A) : m'.ram0.qA = m.ram0.qA :=
    freshA'.trans ((agree.ram _ other).trans freshA.symm)
  have sameB (other : (m.target j).2.addr ≠ A) : m'.ram0.qB = m.ram0.qB :=
    freshB'.trans ((agree.ram _ other).trans freshB.symm)
  rw [tick_ram0, tick_ram0, control_of_corner writing', control_of_corner writing, agree.target,
    Control.writePair, Control.writePair, if_neg second, if_neg second']
  refine DualPortRam.tick_agree (agree.ram a other) rfl rfl rfl rfl ?_ ?_
  · intro here
    subst here
    exact congrArg ((m.target j).1.mask ||| ·) (sameA other)
  · intro here
    subst here
    exact congrArg ((m.target j).2.mask ||| ·) (sameB other)

/-- Apart from the RAM ports the control logic never looks at the RAM, nor at the
bus when there is no load. -/
theorem AgreeOff.registers_tick (agree : AgreeOff A m m') (valid : m.Valid) (valid' : m'.Valid)
    (quiet : i.load = false) (quiet' : i'.load = false) :
    m'.tick i' = { m.tick i with lread := (m'.tick i').lread, ram0 := (m'.tick i').ram0 } := by
  have octant : m'.octant = m.octant := by
    rw [agree.registers]
    rfl
  have computed : m'.computed = m.computed := by
    rw [agree.registers]
    rfl
  rcases valid.tickCase with rest | ⟨j, after, writing, first⟩ | ⟨j, after, writing, second⟩ |
    ⟨computing, inside⟩ | ⟨computing, outside⟩
  · rw [tick_rest quiet rest, tick_lread]
    refine (tick_rest quiet' (agree.state.trans rest)).trans ?_
    generalize (m'.tick i').ram0 = r
    rw [agree.registers]
  · rw [tick_read quiet writing first, tick_lread]
    refine (tick_read quiet' (agree.state ▸ writing) (agree.istate.trans first)).trans ?_
    generalize (m'.tick i').ram0 = r
    rw [agree.registers]
  · rw [tick_write quiet writing second, tick_lread]
    refine (tick_write quiet' (agree.state ▸ writing) (agree.istate ▸ second)).trans ?_
    generalize (m'.tick i').ram0 = r
    rw [agree.registers]
  · rw [tick_proceed valid quiet computing inside, tick_lread]
    refine (tick_proceed valid' quiet' (agree.state.trans computing) (octant ▸ inside)).trans ?_
    generalize (m'.tick i').ram0 = r
    rw [computed, agree.registers]
  · rw [tick_finish valid quiet computing outside, tick_lread]
    refine (tick_finish valid' quiet' (agree.state.trans computing) (octant ▸ outside)).trans ?_
    generalize (m'.tick i').ram0 = r
    rw [computed, agree.registers]

/-- A tick with one and the same input. -/
theorem AgreeOff.tick (agree : AgreeOff A m m') (valid : m.Valid) (valid' : m'.Valid) :
    AgreeOff A (m.tick i) (m'.tick i) := by
  refine ⟨?_, ?_⟩
  · cases load : i.load with
    | true => simp only [PlotPixel.tick, load, if_true]
    | false => exact agree.registers_tick valid valid' load load
  · by_cases second : ∃ j after, m.state.corner? = some (j, after) ∧ m.istate ≠ .reading
    · obtain ⟨j, after, writing, second⟩ := second
      exact agree.ram_tick_of_second valid valid' writing second
    · have control := agree.control (i := i) fun j after writing => by
        by_contra notReading
        exact second ⟨j, after, writing, notReading⟩
      intro a other
      rw [tick_ram0, tick_ram0, control]
      exact DualPortRam.tick_agree (agree.ram a other) rfl rfl rfl rfl (fun _ => rfl) fun _ => rfl

/-- A tick in which only the second engine sees a store, and one to `A`. -/
theorem AgreeOff.tick_store (agree : AgreeOff A m m') (valid : m.Valid) (valid' : m'.Valid)
    (aside : m.Aside A) (quiet : i.load = false) (quiet' : i'.load = false)
    (silent : i.store = false) (address : i'.address.setWidth 15 = A) :
    AgreeOff A (m.tick i) (m'.tick i') := by
  refine ⟨agree.registers_tick valid valid' quiet quiet', ?_⟩
  have kept (notSecond : ∀ j after, m.state.corner? = some (j, after) → m.istate = .reading)
      (toA : (m.control i').portA.addr = A ∧ (m.control i').portB.addr = A) (a : BitVec 15)
      (other : a ≠ A) : (m'.tick i').ram0.ram a = (m.tick i).ram0.ram a := by
    rw [ram_tick valid silent notSecond, tick_ram0, agree.control notSecond,
      DualPortRam.tick_ram_of_ne _ (toA.1 ▸ other) (toA.2 ▸ other), agree.ram a other]
  rcases valid.tickCase with rest | ⟨j, after, writing, first⟩ | ⟨j, after, writing, second⟩ |
    ⟨computing, inside⟩ | ⟨computing, outside⟩
  · refine kept (fun _ _ writing => absurd rest (PixelState.ne_of_corner writing).1) ?_
    rw [control_rest rest]
    exact ⟨address, address⟩
  · refine kept (fun _ _ _ => first) ?_
    rw [control_of_corner writing, Control.writePair, if_pos first]
    exact aside.read j after writing first
  · exact agree.ram_tick_of_second valid valid' writing second
  · refine kept (fun _ _ writing => absurd computing (PixelState.ne_of_corner writing).2) ?_
    rw [control_proceed valid computing inside]
    exact aside.prefetch computing inside
  · refine kept (fun _ _ writing => absurd computing (PixelState.ne_of_corner writing).2) ?_
    rw [control_finish valid computing outside]
    exact ⟨address, address⟩

end PlotPixel

/-! ## The coprocessor -/

namespace PlotCircle

/-- The same registers, and engines that agree except at `A`. -/
structure AgreeOff (A : BitVec 15) (s s' : PlotCircle) : Prop where
  registers : s' = { s with p := s'.p }
  p : ∀ j, (s.p j).AgreeOff A (s'.p j)

variable {k : ℕ} {mem : BitVec 18 → BitVec 32} {A : BitVec 15} {s s' : PlotCircle} {i i' : BusIn}

theorem AgreeOff.refl (s : PlotCircle) : AgreeOff A s s := ⟨rfl, fun j => .refl (s.p j)⟩

theorem AgreeOff.screen (agree : AgreeOff A s s') {a : BitVec 15} (other : a ≠ A) :
    s'.screen a = s.screen a := by
  simp only [PlotCircle.screen, (agree.p _).ram a other]

theorem AgreeOff.ticks (agree : AgreeOff A s s') : s'.ticks k = s.ticks k := by
  rw [agree.registers]
  rfl

theorem AgreeOff.pixelIn (agree : AgreeOff A s s') (j : Fin 12) :
    s'.pixelIn i j = s.pixelIn i j := by
  rw [agree.registers]
  rfl

/-- The controllers stay in lockstep as long as the engines do. -/
theorem AgreeOff.cycle_of_burst (agree : AgreeOff A s s') (quiet : i'.writestart = i.writestart)
    (base : i.writestart = true → i'.stackaddr = i.stackaddr)
    (bursts : ∀ j n, n ≤ s.ticks k → (s.burst i j n).AgreeOff A (s'.burst i' j n)) :
    AgreeOff A (cycle k mem s i) (cycle k mem s' i') := by
  have ready (j : Fin 12) : (s'.settled k i' j).ready = (s.settled k i j).ready := by
    rw [settled, settled, agree.ticks, PlotPixel.ready, PlotPixel.ready,
      (bursts j _ (Nat.sub_le _ 1)).state]
  have control : s'.control = s.control := by
    rw [agree.registers]
    rfl
  refine ⟨?_, fun j => ?_⟩
  · simp only [cycle, ready, control, quiet]
    rw [agree.registers]
    cases start : i.writestart with
    | true => simp [base start]
    | false => simp
  · change (s.burst i j (s.ticks k)).AgreeOff A (s'.burst i' j (s'.ticks k))
    rw [agree.ticks]
    exact bursts j _ (Nat.le_refl _)

/-- A period with equal inputs. -/
theorem AgreeOff.cycle (agree : AgreeOff A s s') (wf : s.WellFormed) (wf' : s'.WellFormed) :
    AgreeOff A (cycle k mem s i) (cycle k mem s' i) := by
  refine agree.cycle_of_burst rfl (fun _ => rfl) fun j n _ => ?_
  induction n with
  | zero => exact agree.p j
  | succ n ih =>
      rw [burst_succ, burst_succ, agree.pixelIn]
      exact (ih (by omega)).tick (valid_burst (wf.engines j) n) (valid_burst (wf'.engines j) n)

/-- The period of the store, when no engine is loaded in it and all are aside. -/
theorem AgreeOff.cycle_store (agree : AgreeOff A s s') (wf : s.WellFormed) (wf' : s'.WellFormed)
    (quiet : i.writestart = false) (silent : i.stores = false)
    (free : ∀ j, (s.pixelIn i j).load = false)
    (aside : ∀ j n, n < s.ticks k → (s.burst i j n).Aside A)
    (store : i'.stores = true) (address : i'.address.setWidth 15 = A) :
    AgreeOff A (PlotCircle.cycle k mem s i) (PlotCircle.cycle k mem s' i') := by
  have quiet' : i'.writestart = false := by
    cases start : i'.writestart with
    | true => exact absurd store (by rw [stores_of_writestart start]; decide)
    | false => rfl
  refine agree.cycle_of_burst (quiet'.trans quiet.symm) (fun start => ?_) fun j n before => ?_
  · rw [quiet] at start
    cases start
  · have free' : (s'.pixelIn i' j).load = false := by simp [pixelIn_load, store]
    have address' : (s'.pixelIn i' j).address.setWidth 15 = A :=
      (BitVec.setWidth_setWidth_of_le _ (by decide)).trans address
    induction n with
    | zero => exact agree.p j
    | succ n ih =>
        rw [burst_succ, burst_succ]
        exact (ih (by omega)).tick_store (valid_burst (wf.engines j) n)
          (valid_burst (wf'.engines j) n) (aside j n before) (free j) free'
          (by rw [pixelIn_store, silent]) address'

/-! ## Two runs -/

variable {ins : ℕ → BusIn} {c : ℕ}

/-- Period `c` of a run can take a store to `A`: it loads no engine, and in every
tick every engine is aside. -/
structure Harmless (k : ℕ) (mem : BitVec 18 → BitVec 32) (s : PlotCircle) (ins : ℕ → BusIn)
    (c : ℕ) (A : BitVec 15) : Prop where
  free : ∀ j, ((run k mem s ins c).pixelIn (ins c) j).load = false
  aside : ∀ j n, n < (run k mem s ins c).ticks k →
    ((run k mem s ins c).burst (ins c) j n).Aside A

/-- With one store in period `c` the run stays in lockstep with the run without it. -/
theorem agreeOff_run (wf : s.WellFormed) (quiet : (ins c).writestart = false)
    (silent : (ins c).stores = false) (store : i'.stores = true)
    (harmless : Harmless k mem s ins c (i'.address.setWidth 15)) (n : ℕ) :
    AgreeOff (i'.address.setWidth 15) (run k mem s ins n)
      (run k mem s (Function.update ins c i') n) := by
  induction n with
  | zero => exact .refl s
  | succ n ih =>
      have wf₁ := wf.run k mem ins n
      have wf₂ := wf.run k mem (Function.update ins c i') n
      rw [run, run, run_succ, run_succ]
      by_cases here : n = c
      · subst here
        rw [Function.update_self]
        exact ih.cycle_store wf₁ wf₂ quiet silent harmless.free harmless.aside store rfl
      · rw [Function.update_of_ne here]
        exact ih.cycle wf₁ wf₂

/-- The store `i'` in period `c` does not disturb the run: whenever it and the
run without the store are quiescent, the screens agree off the stored byte. -/
def Undisturbed (k : ℕ) (mem : BitVec 18 → BitVec 32) (s : PlotCircle) (ins : ℕ → BusIn) (c : ℕ)
    (i' : BusIn) : Prop :=
  ∀ n, (run k mem s ins n).Quiescent → (run k mem s (Function.update ins c i') n).Quiescent →
    ∀ a, a ≠ i'.address.setWidth 15 →
      (run k mem s (Function.update ins c i') n).screen a = (run k mem s ins n).screen a

/-- A store does not disturb a run, from any reachable state and whatever else is
on the bus, when it arrives in a period that can take it. -/
theorem undisturbed_of_harmless (reachable : Reachable k mem s)
    (quiet : (ins c).writestart = false) (silent : (ins c).stores = false)
    (store : i'.stores = true) (harmless : Harmless k mem s ins c (i'.address.setWidth 15)) :
    Undisturbed k mem s ins c i' :=
  fun n _ _ _ other =>
    (agreeOff_run reachable.wellFormed quiet silent store harmless n).screen other

/-- A store in the first period of the fetch, when all engines wait. -/
theorem undisturbed_of_harmless_first :
    Undisturbed 2 (fun _ => 200) blank (BusIn.startOnly 0) 1 ⟨false, 77, true, 0xff⟩ := by
  have aside : ∀ j n, n < (run 2 (fun _ => 200) blank (BusIn.startOnly 0) 1).ticks 2 →
      ((run 2 (fun _ => 200) blank (BusIn.startOnly 0) 1).burst (BusIn.startOnly 0 1) j n).state =
        .wait := by decide +kernel
  refine undisturbed_of_harmless ⟨blank, BusIn.startOnly 0, 0, reset_blank, rfl⟩ rfl (by decide)
    (by decide) ⟨by decide +kernel, fun j n before => ⟨fun _ _ writing => ?_, fun computing => ?_⟩⟩
  · rw [aside j n before] at writing
    cases writing
  · rw [aside j n before] at computing
    cases computing

/-! ## A lost circle -/

/-- Fifty circles of radius 0: the last one at (100, 0), the others at (0, 0). -/
def dots : BitVec 18 → BitVec 32 := fun a => if a = 196 then 100 else 0

/-- The start write, and a store of 0 to the last byte of the screen in period 5. -/
def startThenStore : ℕ → BusIn := Function.update (BusIn.startOnly 0) 5 ⟨false, 32767, true, 0⟩

/-- In the period after the store the batch goes on with circle 48, and circle
49 is nowhere. -/
theorem inBatch_startThenStore : InBatch dots 0 49 (run 2 dots blank startThenStore 6) := by
  have rest : ∀ j, ((run 2 dots blank startThenStore 6).p j).state = .wait := by decide +kernel
  exact ⟨.radius 48 (by decide) (by decide +kernel) (by decide +kernel) (by decide +kernel)
    (by decide +kernel), by decide +kernel, by decide +kernel, by decide +kernel,
    fun _ j _ => rest j⟩

theorem not_mem_plan_startThenStore :
    (⟨100, 0⟩ : Pixel) ∉ (run 2 dots blank startThenStore 6).plan dots 0 49 := by
  have rest : ∀ j, ((run 2 dots blank startThenStore 6).p j).state = .wait := by decide +kernel
  have dark : ∀ j,
      ((run 2 dots blank startThenStore 6).p j).ram0.ram (Pixel.addr ⟨100, 0⟩) = 0 := by
    decide +kernel
  have other : ∀ n : Fin 49, dxAt dots 0 n = 0 ∧ drAt dots 0 n = 0 := by decide +kernel
  intro planned
  rcases planned with ⟨j, shown⟩ | ⟨n, below, drawn⟩
  · rw [PlotPixel.goal_of_wait (rest j), mem_lit, dark j] at shown
    simp at shown
  · obtain ⟨dx, dr⟩ := other ⟨n, below⟩
    simp only at dx dr
    rw [circleAt, dx, dr] at drawn
    exact absurd (mem_circle_zero.mp drawn) (by simp)

theorem startThenStore_later {n : ℕ} (later : 5 < n) :
    (startThenStore n).writestart = false ∧ (startThenStore n).stores = false := by
  rw [startThenStore, Function.update_of_ne (by omega)]
  exact BusIn.startOnly_later 0 (by omega)

/-- A store in the period that dispatches circle 49 of an on-screen batch: the
circle is never drawn, although the store goes to another byte. -/
theorem store_loses_circle :
    (∀ n : Fin 50, OnScreen (dxAt dots 0 n) (dyAt dots 0 n) (drAt dots 0 n)) ∧
      ¬ Undisturbed 2 dots blank (BusIn.startOnly 0) 5 ⟨false, 32767, true, 0⟩ := by
  refine ⟨?_, fun undisturbed => ?_⟩
  · have corner : ∀ n : Fin 50,
        (dxAt dots 0 n).toNat ≤ 511 ∧ dyAt dots 0 n = 0 ∧ drAt dots 0 n = 0 := by
      decide +kernel
    intro n
    obtain ⟨dx, dy, dr⟩ := corner n
    rw [dy, dr]
    exact ⟨by decide, Nat.zero_le _, dx, by decide, by decide⟩
  · have quiet (n : ℕ) (later : 0 < n) := (BusIn.startOnly_later 0 later).1
    have silent (n : ℕ) (later : 0 < n) := (BusIn.startOnly_later 0 later).2
    have wf := WellFormed.of_quiescent quiescent_blank
    have wf' := wf.run 2 dots startThenStore 6
    obtain ⟨N, -, settled⟩ : ∃ N, 0 < N ∧ ∀ n, N ≤ n →
        (run 2 dots blank (BusIn.startOnly 0) n).Quiescent :=
      wf.settles_after_start (by decide) quiet
    obtain ⟨M, settled'⟩ : ∃ M, ∀ n, M ≤ n → (run 2 dots (run 2 dots blank startThenStore 6)
        (fun n => startThenStore (6 + n)) n).Quiescent :=
      wf'.settles (by decide) fun n => (startThenStore_later (by omega)).1
    have split := run_add (cycle 2 dots) blank startThenStore 6 (N + M)
    have done := settled (6 + (N + M)) (by omega)
    have done' := settled' (N + M) (by omega)
    have both : (run 2 dots blank startThenStore (6 + (N + M))).Quiescent := by
      rw [run, split]
      exact done'
    have same := undisturbed _ done both (Pixel.addr ⟨100, 0⟩) (by decide)
    have shown : (⟨100, 0⟩ : Pixel) ∈
        lit (run 2 dots blank (BusIn.startOnly 0) (6 + (N + M))).screen := by
      rw [lit_screen_of_batch (by decide) quiescent_blank rfl quiet silent (by omega) done]
      exact .inr ⟨49, by decide, mem_circle_zero.mpr rfl⟩
    have lost : (⟨100, 0⟩ : Pixel) ∉
        lit (run 2 dots blank startThenStore (6 + (N + M))).screen := by
      rw [run, split, inBatch_startThenStore.screen_run (by decide) wf'
        (fun n _ => (startThenStore_later (by omega)).1)
        (fun n _ => (startThenStore_later (by omega)).2) done']
      exact not_mem_plan_startThenStore
    rw [mem_lit, ← same] at shown
    exact lost shown

end PlotCircle

end CirclePlotter.FinalDesign
