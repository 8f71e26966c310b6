import CirclePlotter.FinalDesign.EngineRun
import CirclePlotter.FinalDesign.PlotCircle

/-!
# One period of the coprocessor

What the arbiter selects, when a period loads an engine and with which circle,
and what the ticks of one period do to the engines: a loaded engine gets the
circle added to its goal, every other engine keeps its goal and comes closer to
`WAIT`.
-/

namespace CirclePlotter.FinalDesign

open Sync

/-! ## The word that loads a circle -/

theorem getLsbD_circleWord (x y r : BitVec 32) (b : ℕ) :
    (circleWord x y r).getLsbD b =
      if b < 9 then (x.setWidth 9).getLsbD b
      else if b - 9 < 9 then (y.setWidth 9).getLsbD (b - 9)
      else if b - 9 - 9 < 8 then (r.setWidth 8).getLsbD (b - 9 - 9)
      else (1#6).getLsbD (b - 9 - 9 - 8) := by
  unfold circleWord
  change @BitVec.getLsbD (6 + 8 + 9 + 9) _ _ = _
  rw [BitVec.getLsbD_append, BitVec.getLsbD_append, BitVec.getLsbD_append]

@[simp] theorem wordRx_circleWord (x y r : BitVec 32) :
    wordRx (circleWord x y r) = x.setWidth 9 := by
  apply BitVec.eq_of_getLsbD_eq
  intro b below
  rw [wordRx, BitVec.getLsbD_extractLsb', getLsbD_circleWord, if_pos (by omega)]
  simp [below]

@[simp] theorem wordRy_circleWord (x y r : BitVec 32) :
    wordRy (circleWord x y r) = y.setWidth 9 := by
  apply BitVec.eq_of_getLsbD_eq
  intro b below
  rw [wordRy, BitVec.getLsbD_extractLsb', getLsbD_circleWord, if_neg (by omega),
    if_pos (by omega)]
  simp [below]

@[simp] theorem wordRadius_circleWord (x y r : BitVec 32) :
    wordRadius (circleWord x y r) = r.setWidth 8 := by
  apply BitVec.eq_of_getLsbD_eq
  intro b below
  have shift : 18 + b - 9 - 9 = b := by omega
  rw [wordRadius, BitVec.getLsbD_extractLsb', getLsbD_circleWord, if_neg (by omega),
    if_neg (by omega), if_pos (by omega), shift]
  simp [below]

namespace PlotCircle

variable {k : ℕ} {mem : BitVec 18 → BitVec 32} {s : PlotCircle} {i : BusIn} {j : Fin 12}

/-! ## Arbiter -/

theorem oneHot_inj {j j' : Fin 12} : 1#12 <<< j.val = 1#12 <<< j'.val ↔ j = j' := by
  revert j j'
  decide

theorem oneHot_ne_zero (j : Fin 12) : 1#12 <<< j.val ≠ 0 := by
  revert j
  decide

/-- The arbiter selects nothing, or one engine whose synchronized ready is set. -/
theorem cselect_cases (s : PlotCircle) :
    s.cselect = 0 ∧ (∀ j, s.readySync j = false) ∨
      ∃ j, s.cselect = 1#12 <<< j.val ∧ s.readySync j = true := by
  have scan (js : List (Fin 12)) (c : BitVec 12) :
      let out := js.foldl (fun c j => if s.readySync j then 1#12 <<< j.val else c) c
      out = c ∧ (∀ j ∈ js, s.readySync j = false) ∨
        ∃ j, out = 1#12 <<< j.val ∧ s.readySync j = true := by
    induction js generalizing c with
    | nil => exact Or.inl ⟨rfl, nofun⟩
    | cons j js ih =>
        rw [List.foldl_cons]
        cases ready : s.readySync j with
        | false =>
            rcases ih c with ⟨same, none⟩ | some
            · exact Or.inl ⟨same, List.forall_mem_cons.mpr ⟨ready, none⟩⟩
            · exact Or.inr some
        | true =>
            rcases ih (1#12 <<< j.val) with ⟨same, -⟩ | some
            · exact Or.inr ⟨j, same, ready⟩
            · exact Or.inr some
  rcases scan (List.finRange 12) 0 with ⟨zero, none⟩ | some
  · exact Or.inl ⟨zero, fun j => none j (List.mem_finRange j)⟩
  · exact Or.inr some

theorem cselect_eq_zero_iff : s.cselect = 0 ↔ ∀ j, s.readySync j = false := by
  rcases s.cselect_cases with ⟨zero, none⟩ | ⟨j, hot, ready⟩
  · exact ⟨fun _ => none, fun _ => zero⟩
  · refine ⟨fun zero => absurd (hot.symm.trans zero) (oneHot_ne_zero j), fun none => ?_⟩
    rw [none j] at ready
    cases ready

/-! ## Dispatch -/

/-- The left part of `writeready`: the period hands the fetched circle to the
selected engine. -/
def dispatching (s : PlotCircle) : Bool :=
  (s.state == .wait || s.state == .readY) && s.offset != 196

@[simp] theorem pixelIn_store : (s.pixelIn i j).store = i.stores := by
  cases stores : i.stores <;> simp [PixelIn.store, pixelIn, writec, writeready, stores]

/-- Engine `j` is loaded exactly when the controller dispatches, the arbiter
selects it, and no store is on the bus. -/
theorem pixelIn_load :
    (s.pixelIn i j).load = (s.dispatching && s.cselect == 1#12 <<< j.val && !i.stores) := by
  cases stores : i.stores <;> cases hot : (s.cselect == 1#12 <<< j.val) <;>
    simp [PixelIn.load, pixelIn, writec, writeready, dispatching, stores, hot]

theorem load_iff :
    (s.pixelIn i j).load = true ↔
      s.dispatching = true ∧ s.cselect = 1#12 <<< j.val ∧ i.stores = false := by
  rw [pixelIn_load]
  simp [and_assoc]

theorem writedata_of_load (load : (s.pixelIn i j).load = true) :
    (s.pixelIn i j).writedata = circleWord s.newdx s.newdy s.newdr := by
  obtain ⟨-, hot, stores⟩ := load_iff.mp load
  simp [pixelIn, writedatac, writecircle, hot, stores]

/-! ## Engines in one period -/

theorem burst_succ (n : ℕ) : s.burst i j (n + 1) = (s.burst i j n).tick (s.pixelIn i j) := rfl

theorem ticks_pos (positive : 0 < k) : 0 < s.ticks k := by
  unfold ticks
  split <;> omega

/-- The edge that closes the period is one tick of the settled engine. -/
theorem cycle_p (positive : 0 < k) :
    (cycle k mem s i).p j = (s.settled k i j).tick (s.pixelIn i j) := by
  change s.burst i j (s.ticks k) = _
  rw [← Nat.sub_add_cancel (ticks_pos positive), burst_succ]
  rfl

/-- In `WAIT` the closing edge is the only tick. -/
theorem settled_of_wait (rest : s.state = .wait) : s.settled k i j = s.p j := by
  rw [settled, ticks, if_pos rest]
  rfl

/-- Away from `WAIT` there is a tick before it. -/
theorem settled_of_working (two : 2 ≤ k) (working : s.state ≠ .wait) :
    s.settled k i j = s.burst i j (k - 2 + 1) := by
  rw [settled, ticks, if_neg working]
  congr 1
  omega

theorem valid_burst (valid : (s.p j).Valid) (n : ℕ) : (s.burst i j n).Valid :=
  PlotPixel.valid_run valid n

/-- An engine that waits and is not loaded keeps waiting. -/
theorem burst_rest (quiet : (s.pixelIn i j).load = false) (rest : (s.p j).state = .wait) (n : ℕ) :
    (s.burst i j n).state = .wait :=
  run_always (P := fun m : PlotPixel => m.state = .wait) rest
    (fun _ m rest => by rw [PlotPixel.tick_rest quiet rest]; exact rest) n

/-- From the first tick of its load on, an engine draws for the rest of the period. -/
theorem burst_load (load : (s.pixelIn i j).load = true) (n : ℕ) :
    (s.burst i j (n + 1)).state = .write0 ∧ (s.burst i j (n + 1)).istate = .reading := by
  rw [burst_succ, PlotPixel.tick_of_load load]
  exact ⟨rfl, rfl⟩

/-- At every tick of the period it latches the circle of `newdx`, `newdy`, `newdr`. -/
theorem registers_burst_load (load : (s.pixelIn i j).load = true) (n : ℕ) :
    (s.burst i j (n + 1)).rx = s.newdx.setWidth 9 ∧
      (s.burst i j (n + 1)).ry = s.newdy.setWidth 9 ∧
      (s.burst i j (n + 1)).radius = s.newdr.setWidth 8 := by
  rw [burst_succ, PlotPixel.tick_of_load load, writedata_of_load load]
  simp

/-- Loading a waiting engine adds the circle to its goal, however often the word
is latched again in the period. -/
theorem goal_burst_of_load (load : (s.pixelIn i j).load = true) (rest : (s.p j).state = .wait)
    (n : ℕ) :
    (s.burst i j (n + 1)).goal = lit (s.p j).ram0.ram ∪
      {p | p ∈ circle (s.newdx.setWidth 9) (s.newdy.setWidth 9) (s.newdr.setWidth 8)} := by
  have silent : (s.pixelIn i j).store = false := by
    rw [pixelIn_store]
    exact (load_iff.mp load).2.2
  have ram : (s.burst i j (n + 1)).ram0.ram = (s.p j).ram0.ram := by
    induction n with
    | zero =>
        exact PlotPixel.ram_tick (m := s.p j) (.of_wait rest) silent fun _ _ writing =>
          absurd rest (PixelState.ne_of_corner writing).1
    | succ n ih =>
        have valid : (s.burst i j (n + 1)).Valid := PlotPixel.Valid.of_load load
        exact (PlotPixel.ram_tick valid silent fun _ _ _ => (burst_load load n).2).trans ih
  rw [burst_succ, PlotPixel.goal_of_load load, ← burst_succ, ram, writedata_of_load load]
  simp

/-- Without load and store an engine keeps its goal. -/
theorem goal_burst (valid : (s.p j).Valid) (quiet : (s.pixelIn i j).load = false)
    (silent : i.stores = false) (n : ℕ) : (s.burst i j n).goal = (s.p j).goal :=
  PlotPixel.goal_run (fun _ => quiet) (fun _ => by rw [pixelIn_store, silent]) valid n

theorem ticksLeft_burst (valid : (s.p j).Valid) (quiet : (s.pixelIn i j).load = false) (n : ℕ) :
    (s.burst i j n).ticksLeft = (s.p j).ticksLeft - n :=
  PlotPixel.ticksLeft_run (fun _ => quiet) valid n

/-- An engine that waits and is not loaded is reported in the next period and
still waits there. -/
theorem wait_cycle (quiet : (s.pixelIn i j).load = false)
    (rest : (s.p j).state = .wait) :
    (cycle k mem s i).readySync j = true ∧ ((cycle k mem s i).p j).state = .wait := by
  refine ⟨?_, burst_rest quiet rest _⟩
  change (s.burst i j (s.ticks k - 1)).ready = true
  rw [PlotPixel.ready, burst_rest quiet rest]
  rfl

theorem rdvfinal_of_settled {v : Bool} (same : ∀ j, (s.settled k i j).lread = v) :
    s.rdvfinal k i = v := by
  simp only [rdvfinal, PlotPixel.readdatavalid, same]
  cases v <;> decide

/-! ## The controller in one period -/

/-- Without a start write the controller does what its state machine computes. -/
theorem state_cycle (k : ℕ) (mem : BitVec 18 → BitVec 32) (s : PlotCircle)
    (quiet : i.writestart = false) :
    (cycle k mem s i).state = s.control.state ∧ (cycle k mem s i).offset = s.control.offset := by
  simp [cycle, quiet]

/-- Only a start write wakes the controller. -/
theorem Idle.cycle (idle : s.Idle) (quiet : i.writestart = false) : (cycle k mem s i).Idle := by
  rcases state_cycle k mem s quiet with ⟨next, nextOffset⟩
  constructor
  · rw [next]
    simp only [control, idle.state]
  · rw [nextOffset]
    simp only [control, idle.state]

/-- In `READR` and `BLOCK` the controller goes on as soon as `cselect` is set. -/
theorem control_grant (state : s.state = .readR ∨ s.state = .block) (some : s.cselect ≠ 0) :
    s.control.state = .readX ∧ s.control.offset = s.offset - 4 := by
  have set : (s.cselect != 0) = true := bne_iff_ne.mpr some
  rcases state with state | state <;> simp only [control, state, set, if_true, and_self]

theorem control_block (state : s.state = .readR ∨ s.state = .block) (none : s.cselect = 0) :
    s.control.state = .block ∧ s.control.offset = s.offset := by
  rcases state with state | state <;> simp [control, state, none]

theorem dispatching_of_grant (state : s.state = .readR ∨ s.state = .block) :
    s.dispatching = false := by
  rcases state with state | state <;> simp [dispatching, state]

/-- A run seen from its second period. -/
theorem run_succ_eq {ins : ℕ → BusIn} (c : ℕ) :
    run k mem s ins (c + 1) = run k mem (cycle k mem s (ins 0)) (fun n => ins (n + 1)) c := by
  rw [Nat.add_comm, run, run_add]
  simp [run_succ, Nat.add_comm]

end PlotCircle

end CirclePlotter.FinalDesign
