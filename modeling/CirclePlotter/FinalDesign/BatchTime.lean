import CirclePlotter.FinalDesign.Batcher
import CirclePlotter.FinalDesign.Completion
import Mathlib.Order.Lattice.Nat

/-!
# The time of a batch

The controller hands fifty circles to twelve engines in order, each to an engine
that waits, so a batch is list scheduling and its time is bounded the same way:
a period either takes the controller one step further, or it is blocked and all
twelve engines draw.

* The arbiter selects from registered ready signals. A blocked period says that
  all engines were drawing to the end of the period before it, and `debt` keeps
  account of that.
* `debt_cycle` is what one period does to the debt, `Serving.stepsLeft_of_held` and
  `Serving.stepsLeft_of_dispatches` what it does to the steps.
* `Within.step` puts them together: every period of a batch takes `12 * k` off the
  budget, and `quiescent_after_start` is the bound for the whole batch.
-/

namespace CirclePlotter.FinalDesign

open Sync

/-- The ticks circle `n` of the arrays at `base` takes. -/
def ticksAt (mem : BitVec 18 → BitVec 32) (base : BitVec 18) (n : ℕ) : ℕ :=
  PlotPixel.drawTicks ((drAt mem base n).setWidth 8)

namespace PlotCircle

variable {k : ℕ} {mem : BitVec 18 → BitVec 32} {s : PlotCircle} {i : BusIn} {j : Fin 12}
  {base : BitVec 18} {left : ℕ}

/-! ## The engines -/

/-- The ticks that are to be drawn, and one period of all engines when the
arbiter saw none of them waiting: they did draw in the period before. -/
def debt (k : ℕ) (s : PlotCircle) : ℕ := s.work + if s.cselect = 0 then 12 * k else 0

theorem ticksLeft_cycle (wf : s.WellFormed) (quiet : (s.pixelIn i j).load = false) :
    ((cycle k mem s i).p j).ticksLeft = (s.p j).ticksLeft - s.ticks k :=
  ticksLeft_burst (wf.engines j) quiet _

theorem ticksLeft_cycle_of_load (positive : 0 < k) (load : (s.pixelIn i j).load = true) :
    ((cycle k mem s i).p j).ticksLeft = PlotPixel.drawTicks (s.newdr.setWidth 8) := by
  rw [cycle_p positive, PlotPixel.ticksLeft_of_load load, writedata_of_load load,
    wordRadius_circleWord]

/-- A period loads one engine at most. -/
theorem sum_load_le (s : PlotCircle) (i : BusIn) (c : ℕ) :
    (∑ j, if (s.pixelIn i j).load = true then c else 0) ≤
      if s.dispatching = true then c else 0 := by
  cases held : s.dispatching with
  | false => simp [pixelIn_load, held]
  | true =>
      rcases s.cselect_cases with ⟨none, -⟩ | ⟨e, hot, -⟩
      · have idle (j : Fin 12) : ¬ (s.pixelIn i j).load = true := fun load =>
          oneHot_ne_zero j ((load_iff.mp load).2.1.symm.trans none)
        simp [idle]
      · have only (j : Fin 12) (load : (s.pixelIn i j).load = true) : j = e :=
          oneHot_inj.mp ((load_iff.mp load).2.1.symm.trans hot)
        calc (∑ j, if (s.pixelIn i j).load = true then c else 0)
            ≤ ∑ j, if j = e then c else 0 := Finset.sum_le_sum fun j _ => by
              split
              · next load => rw [if_pos (only j load)]
              · exact Nat.zero_le _
          _ = if true = true then c else 0 := by simp

/-- A period at the fast clock turns a debt of the arbiter into ticks that are
drawn. It adds what it loads, and `k` ticks for the load itself. -/
theorem debt_cycle (two : 2 ≤ k) (wf : s.WellFormed) (working : s.state ≠ .wait) :
    (cycle k mem s i).debt k ≤
      s.work + if s.dispatching = true then
        PlotPixel.drawTicks (s.newdr.setWidth 8) + k else 0 := by
  have ticks : s.ticks k = k := if_neg working
  have each (j : Fin 12) :
      ((cycle k mem s i).p j).ticksLeft + (if (cycle k mem s i).cselect = 0 then k else 0) ≤
        (s.p j).ticksLeft + if (s.pixelIn i j).load = true then
          PlotPixel.drawTicks (s.newdr.setWidth 8) + k else 0 := by
    cases load : (s.pixelIn i j).load with
    | true =>
        rw [ticksLeft_cycle_of_load (by omega) load, if_pos rfl]
        split <;> omega
    | false =>
        rw [ticksLeft_cycle wf load, ticks]
        split
        · next none =>
            have drawing : (s.settled k i j).state ≠ .wait := by
              simpa [cycle, PlotPixel.ready] using cselect_eq_zero_iff.mp none j
            rcases (settled_ne_wait_iff two wf j).mp drawing with ⟨-, loaded⟩ | enough
            · rw [load] at loaded
              cases loaded
            · rw [ticks] at enough
              omega
        · omega
  have split : (cycle k mem s i).debt k = ∑ j, (((cycle k mem s i).p j).ticksLeft +
      if (cycle k mem s i).cselect = 0 then k else 0) := by
    rw [Finset.sum_add_distrib, debt, work]
    simp
  calc (cycle k mem s i).debt k
      ≤ ∑ j, ((s.p j).ticksLeft + if (s.pixelIn i j).load = true then
          PlotPixel.drawTicks (s.newdr.setWidth 8) + k else 0) := by
        rw [split]
        exact Finset.sum_le_sum fun j _ => each j
    _ ≤ _ := by
        rw [Finset.sum_add_distrib]
        exact Nat.add_le_add_left (sum_load_le s i _) _

/-! ## The controller -/

/-- The periods the controller takes to the end of the batch, blocked ones not
counted. The first circle is fetched before anything is dispatched; from then on
a circle takes three periods. -/
def stepsLeft (left : ℕ) (s : PlotCircle) : ℕ :=
  match s.state with
  | .readX => if s.offset = 196 then 3 * left + 2 else 3 * left - 1
  | .readY => if s.offset = 196 then 3 * left + 1 else 3 * left - 2
  | .readR | .block => 3 * left
  | .wait => 3 * left - 2

theorem offsetAt_sub_ne {n : ℕ} (below : n < 50) : offsetAt n - 4 ≠ 196 := by
  revert n
  decide

theorem Serving.left_le (serving : Serving mem base s left) : left ≤ 50 := by
  cases serving with
  | idle => decide
  | first => exact Nat.le_refl _
  | batch batch => cases batch.stage <;> omega

/-- A period that dispatches nothing is one step, or it is blocked. -/
theorem Serving.stepsLeft_of_held (serving : Serving mem base s left) (more : 0 < left)
    (quiet : i.writestart = false) (held : s.dispatching = false) :
    s.state ≠ .wait ∧
      ((cycle k mem s i).stepsLeft left + 1 = s.stepsLeft left ∨
        s.cselect = 0 ∧ (cycle k mem s i).stepsLeft left = s.stepsLeft left) := by
  rcases state_cycle k mem s quiet with ⟨next, nextOffset⟩
  have first (state : s.state = .readX) (offset : s.offset = offsetAt 49) :
      (cycle k mem s i).stepsLeft left + 1 = s.stepsLeft left := by
    simp [stepsLeft, next, nextOffset, control, state, offset, offsetAt, BitVec.slt]
  have fetched (state : s.state = .readR ∨ s.state = .block)
      (same : s.cselect ≠ 0 → s.offset - 4 ≠ 196) :
      s.state ≠ .wait ∧
        ((cycle k mem s i).stepsLeft left + 1 = s.stepsLeft left ∨
          s.cselect = 0 ∧ (cycle k mem s i).stepsLeft left = s.stepsLeft left) := by
    have steps : s.stepsLeft left = 3 * left := by
      rcases state with state | state <;> simp [stepsLeft, state]
    refine ⟨by rcases state with state | state <;> simp [state], ?_⟩
    by_cases none : s.cselect = 0
    · exact .inr ⟨none, by rw [steps, stepsLeft, next, (control_block state none).1]⟩
    · rcases control_grant state none with ⟨granted, minus⟩
      refine .inl ?_
      rw [steps, stepsLeft, next, nextOffset, granted, minus]
      simp only [same none, if_false]
      omega
  cases serving with
  | idle => omega
  | first state offset => exact ⟨by simp [state], .inl (first state offset)⟩
  | batch batch =>
      cases batch.stage with
      | firstX state offset => exact ⟨by simp [state], .inl (first state offset)⟩
      | firstY state offset =>
          exact ⟨by simp [state],
            .inl (by simp [stepsLeft, next, control, state, offset, offsetAt])⟩
      | radius n below state offset =>
          exact fetched (.inl state) fun _ => offset ▸ offsetAt_sub_ne below
      | block n below state offset =>
          exact fetched (.inr state) fun _ => offset ▸ offsetAt_sub_ne below
      | nextX n below state offset =>
          have other : s.offset ≠ 196 := offset ▸ offsetAt_sub_ne below
          refine ⟨by simp [state], .inl ?_⟩
          rw [stepsLeft, stepsLeft, next, nextOffset]
          cases sign : s.offset.slt 0 <;>
            simp only [control, state, sign, other, Bool.false_eq_true, if_true, if_false] <;> omega
      | nextY n below state offset =>
          simp only [dispatching, state, offset] at held
          exact absurd (by simpa using held) (offsetAt_ne below)
      | last state offset => simp [dispatching, state, offset, offsetAt] at held
      | done idle => omega

/-- A dispatch is one step, to the next circle or to the end of the batch. -/
theorem Serving.stepsLeft_of_dispatching (serving : Serving mem base s left)
    (quiet : i.writestart = false) (dispatching : s.dispatching = true) :
    0 < s.stepsLeft left ∧
      (left = 1 ∨ s.state ≠ .wait ∧
        (cycle k mem s i).stepsLeft (left - 1) + 1 = s.stepsLeft left) := by
  rcases state_cycle k mem s quiet with ⟨next, -⟩
  cases serving with
  | idle idle => simp [idle.not_dispatching] at dispatching
  | first state => simp [PlotCircle.dispatching, state] at dispatching
  | batch batch =>
      cases batch.stage with
      | nextY n below state offset =>
          have other : s.offset ≠ 196 := offset ▸ offsetAt_ne below
          have steps : s.stepsLeft (n + 2) = 3 * (n + 2) - 2 := by
            simp only [stepsLeft, state, other, if_false]
          refine ⟨by omega, .inr ⟨by simp [state], ?_⟩⟩
          rw [steps, stepsLeft, next]
          simp only [control, state]
          omega
      | last state => exact ⟨by simp [stepsLeft, state], .inl rfl⟩
      | radius n below state => simp [dispatching_of_grant (.inl state)] at dispatching
      | block n below state => simp [dispatching_of_grant (.inr state)] at dispatching
      | firstY state offset =>
          simp [PlotCircle.dispatching, state, offset, offsetAt] at dispatching
      | done idle => simp [idle.not_dispatching] at dispatching
      | _ => simp_all [PlotCircle.dispatching]

/-! ## The budget -/

/-- What the batch may still cost, in ticks of twelve engines. -/
def budget (k : ℕ) (mem : BitVec 18 → BitVec 32) (base : BitVec 18) (left : ℕ) (s : PlotCircle) :
    ℕ :=
  12 * k * s.stepsLeft left + s.debt k + ∑ n ∈ Finset.range left, (ticksAt mem base n + k)

/-- Every period of a batch takes `12 * k` off the budget: a step is paid from
the steps, a blocked period from the debt of the arbiter. -/
theorem Serving.budget_cycle (two : 2 ≤ k) (wf : s.WellFormed) (serving : Serving mem base s left)
    (more : 0 < left) (quiet : i.writestart = false) :
    12 * k ≤ s.budget k mem base left ∧ ∃ left', Serving mem base (cycle k mem s i) left' ∧
      (0 < left' → (cycle k mem s i).budget k mem base left' + 12 * k ≤
        s.budget k mem base left) := by
  have owes : s.work ≤ s.debt k := Nat.le_add_right _ _
  rcases serving.step two quiet with ⟨held, serving'⟩ | ⟨n, rfl, dispatches, serving'⟩
  · rcases serving.stepsLeft_of_held (k := k) more quiet held with ⟨working, step⟩
    have debt : (cycle k mem s i).debt k ≤ s.work := by
      simpa [held] using debt_cycle (i := i) two wf working
    have paid : (cycle k mem s i).budget k mem base left + 12 * k ≤ s.budget k mem base left := by
      unfold budget
      rcases step with step | ⟨none, same⟩
      · rw [← step, Nat.mul_succ]
        omega
      · have owed : s.debt k = s.work + 12 * k := by rw [PlotCircle.debt, if_pos none]
        rw [same]
        omega
    exact ⟨by omega, left, serving', fun _ => paid⟩
  · rcases serving.stepsLeft_of_dispatching (k := k) quiet dispatches.dispatching with
      ⟨steps, step⟩
    have enough : 12 * k ≤ s.budget k mem base (n + 1) := by
      have once := Nat.mul_le_mul_left (12 * k) steps
      unfold budget
      omega
    refine ⟨enough, n, serving', fun more' => ?_⟩
    rcases step with last | ⟨working, step⟩
    · omega
    · have debt : (cycle k mem s i).debt k ≤ s.work + (ticksAt mem base n + k) := by
        simpa [dispatches.dispatching, dispatches.fetched.newdr, ticksAt] using
          debt_cycle (i := i) two wf working
      rw [Nat.add_sub_cancel] at step
      unfold budget
      rw [Finset.sum_range_succ, ← step, Nat.mul_succ]
      omega

/-- The budget `b` is enough for the batch. -/
def Within (k : ℕ) (mem : BitVec 18 → BitVec 32) (base : BitVec 18) (b : ℕ) (s : PlotCircle) :
    Prop :=
  s.WellFormed ∧ ∃ left, Serving mem base s left ∧ (0 < left → s.budget k mem base left ≤ b)

theorem Within.step {b : ℕ} (two : 2 ≤ k) (within : Within k mem base b s)
    (quiet : i.writestart = false) (busy : ¬ s.Idle) :
    ∃ b', b' + 12 * k ≤ b ∧ Within k mem base b' (cycle k mem s i) := by
  rcases within with ⟨wf, left, serving, enough⟩
  have more : 0 < left := Nat.pos_of_ne_zero fun none => busy (serving.idle_iff.mpr none)
  have enough := enough more
  rcases serving.budget_cycle two wf more quiet with ⟨once, left', serving', paid⟩
  refine ⟨b - 12 * k, by omega, wf.cycle, left', serving', fun more' => ?_⟩
  have paid := paid more'
  omega

/-! ## The whole batch -/

section Batch

variable {ins : ℕ → BusIn} {M N : ℕ}

/-- No engine ever needs more ticks than the longest circle. -/
theorem Serving.ticksLeft_le (two : 2 ≤ k) (wf : s.WellFormed) (serving : Serving mem base s left)
    (coming : ∀ n, n < 50 → ticksAt mem base n ≤ M) (present : ∀ j, (s.p j).ticksLeft ≤ M)
    (j : Fin 12) : ((cycle k mem s i).p j).ticksLeft ≤ M := by
  cases load : (s.pixelIn i j).load with
  | false =>
      rw [ticksLeft_cycle wf load]
      exact (Nat.sub_le _ _).trans (present j)
  | true =>
      rw [ticksLeft_cycle_of_load (by omega) load]
      rcases serving.dispatches two with held | ⟨n, rfl, dispatches⟩
      · rw [(load_iff.mp load).1] at held
        cases held
      · rw [dispatches.fetched.newdr]
        exact coming n serving.left_le

theorem Serving.ticksLeft_le_run (two : 2 ≤ k) (wf : s.WellFormed)
    (serving : Serving mem base s left) (quiet : ∀ n, (ins n).writestart = false)
    (coming : ∀ n, n < 50 → ticksAt mem base n ≤ M) (present : ∀ j, (s.p j).ticksLeft ≤ M) (n : ℕ) :
    ∀ j, ((run k mem s ins n).p j).ticksLeft ≤ M := by
  obtain ⟨-, -, bound⟩ : (run k mem s ins n).WellFormed ∧
      (∃ left, Serving mem base (run k mem s ins n) left) ∧
        ∀ j, ((run k mem s ins n).p j).ticksLeft ≤ M :=
    run_always (P := fun t : PlotCircle => t.WellFormed ∧ (∃ left, Serving mem base t left) ∧
        ∀ j, (t.p j).ticksLeft ≤ M)
      ⟨wf, ⟨left, serving⟩, present⟩ (fun n t h => by
        rcases h with ⟨wf, ⟨left, serving⟩, present⟩
        exact ⟨wf.cycle, serving.exists_step two (quiet n),
          serving.ticksLeft_le two wf coming present⟩) n
  exact bound

/-- With an idle controller the engines finish at the slow clock. -/
theorem quiescent_of_idle (wf : s.WellFormed) (idle : s.Idle)
    (quiet : ∀ n, (ins n).writestart = false) (present : ∀ j, (s.p j).ticksLeft ≤ M) :
    (run k mem s ins M).Quiescent := by
  have valid (n : ℕ) : (run k mem s ins n).WellFormed ∧ (run k mem s ins n).Idle :=
    run_always (P := fun t : PlotCircle => t.WellFormed ∧ t.Idle) ⟨wf, idle⟩
      (fun n t h => ⟨h.1.cycle, h.2.cycle (quiet n)⟩) n
  refine ⟨(valid M).2, fun j => PlotPixel.ticksLeft_eq_zero_iff.mp ?_⟩
  let left (t : PlotCircle) : ℕ := (t.p j).ticksLeft
  have drops (n : ℕ) (t : PlotCircle) (h : t.WellFormed ∧ t.Idle) :
      left (cycle k mem t (ins n)) = left t - 1 := by
    have one : t.ticks k = 1 := if_pos h.2.state
    simp only [left]
    rw [ticksLeft_cycle h.1 (by rw [pixelIn_load, h.2.not_dispatching]; rfl), one]
  have down : left (run k mem s ins M) = left s - M := run_countdown valid drops M
  exact down.trans (Nat.sub_eq_zero_of_le (present j))

/-- The periods in which the controller hands out a batch: 152 steps, one that
the arbiter may owe from before, and the blocked ones. -/
def dispatchTime (k : ℕ) (mem : BitVec 18 → BitVec 32) (base : BitVec 18) (s : PlotCircle) : ℕ :=
  153 + (s.work + ∑ n ∈ Finset.range 50, (ticksAt mem base n + k)) / (12 * k)

/-- The dispatch of a batch at its beginning ends in time. -/
theorem exists_idle (two : 2 ≤ k) (wf : s.WellFormed) (serving : Serving mem base s 50)
    (steps : s.stepsLeft 50 = 152) (quiet : ∀ n, (ins n).writestart = false) :
    ∃ n, n ≤ s.dispatchTime k mem base ∧ (run k mem s ins n).Idle := by
  have start : Within k mem base (12 * k * 153 + (s.work +
      ∑ n ∈ Finset.range 50, (ticksAt mem base n + k))) s := by
    refine ⟨wf, 50, serving, fun _ => ?_⟩
    have debt : s.debt k ≤ s.work + 12 * k := by
      unfold PlotCircle.debt
      split <;> omega
    unfold budget
    rw [steps, Nat.mul_succ (12 * k) 152]
    omega
  obtain ⟨n, paid, idle⟩ : ∃ n, 12 * k * n ≤ _ ∧ (run k mem s ins n).Idle :=
    exists_le_of_budget start (fun n b within busy => within.step two (quiet n) busy) (by omega)
  refine ⟨n, ?_, idle⟩
  rw [dispatchTime, ← Nat.mul_add_div (by omega)]
  exact (Nat.le_div_iff_mul_le (by omega)).mpr (by rwa [Nat.mul_comm n])

/-- After a start write in any well-formed state the coprocessor is quiescent when
the dispatch and the longest drawing are over. -/
theorem quiescent_of_start (two : 2 ≤ k) (wf : s.WellFormed)
    (start : (ins 0).writestart = true) (quiet : ∀ n, 0 < n → n < N → (ins n).writestart = false)
    (present : ∀ j, ((cycle k mem s (ins 0)).p j).ticksLeft ≤ M)
    (coming : ∀ n, n < 50 → ticksAt mem (ins 0).stackaddr n ≤ M)
    (later : 1 + (cycle k mem s (ins 0)).dispatchTime k mem (ins 0).stackaddr + M ≤ N) :
    (run k mem s ins N).Quiescent := by
  have wf : (cycle k mem s (ins 0)).WellFormed := wf.cycle
  have serving : Serving mem (ins 0).stackaddr (cycle k mem s (ins 0)) 50 := .of_start start
  have steps : (cycle k mem s (ins 0)).stepsLeft 50 = 152 := by
    simp [stepsLeft, cycle, start]
  -- the inputs from period `N` on do not matter
  let ins' (n : ℕ) : BusIn := if n + 1 < N then ins (n + 1) else .rest
  have quiet' (n : ℕ) : (ins' n).writestart = false := by
    simp only [ins']
    split
    · next before => exact quiet (n + 1) (by omega) before
    · rfl
  obtain ⟨N, rfl⟩ := Nat.exists_eq_succ_of_ne_zero (by omega : N ≠ 0)
  have same : run k mem s ins (N + 1) = run k mem (cycle k mem s (ins 0)) ins' N := by
    rw [run_succ_eq]
    exact run_congr fun n before => (if_pos (by omega)).symm
  rcases exists_idle two wf serving steps quiet' with ⟨n, before, idle⟩
  have bound : ∀ j, ((run k mem (cycle k mem s (ins 0)) ins' n).p j).ticksLeft ≤ M :=
    serving.ticksLeft_le_run two wf quiet' coming present n
  have done : (run k mem (run k mem (cycle k mem s (ins 0)) ins' n) (fun m => ins' (n + m))
      M).Quiescent :=
    quiescent_of_idle (wf.run k mem ins' n) idle (fun m => quiet' (n + m)) bound
  have settled : (run k mem (cycle k mem s (ins 0)) ins' (n + M)).Quiescent := by
    rwa [run, run_add]
  rw [Nat.succ_eq_add_one, same, show N = n + M + (N - (n + M)) by omega, run, run_add]
  exact run_always (P := Quiescent) settled (fun m t done => done.cycle (quiet' (n + M + m))) _

theorem Reachable.cycle (reachable : Reachable k mem s) (i : BusIn) :
    Reachable k mem (cycle k mem s i) := by
  rcases reachable with ⟨s₀, ins, n, reset, rfl⟩
  refine ⟨s₀, fun m => if m < n then ins m else i, n + 1, reset, ?_⟩
  rw [PlotCircle.run, PlotCircle.run, run_succ, if_neg (Nat.lt_irrefl n)]
  congr 1
  exact run_congr fun m before => (if_pos before).symm

/-- In a reachable state no engine needs more ticks than a circle of radius 255. -/
theorem Reachable.ticksLeft_le (positive : 0 < k) (reachable : Reachable k mem s) (j : Fin 12) :
    (s.p j).ticksLeft ≤ 1449 := by
  rcases reachable with ⟨s₀, ins, n, reset, rfl⟩
  have small : (run k mem s₀ ins n).WellFormed ∧
      ∀ j, ((run k mem s₀ ins n).p j).ticksLeft ≤ 1449 := by
    refine run_always (P := fun t : PlotCircle => t.WellFormed ∧ ∀ j, (t.p j).ticksLeft ≤ 1449)
      ⟨.of_reset reset, fun j => ?_⟩ (fun n t h => ⟨h.1.cycle, fun j => ?_⟩) n
    · rw [PlotPixel.ticksLeft_of_wait (reset.p j).state]
      exact Nat.zero_le _
    · cases load : (t.pixelIn (ins n) j).load with
      | true =>
          rw [ticksLeft_cycle_of_load positive load]
          exact PlotPixel.drawTicks_le _
      | false =>
          rw [ticksLeft_cycle h.1 load]
          exact (Nat.sub_le _ _).trans (h.2 j)
  exact small.2 j

theorem sum_ticksAt_le (k : ℕ) (mem : BitVec 18 → BitVec 32) (base : BitVec 18) :
    ∑ n ∈ Finset.range 50, (ticksAt mem base n + k) ≤ 50 * (1449 + k) := by
  have most := Finset.sum_le_card_nsmul (Finset.range 50) (fun n => ticksAt mem base n + k)
    (1449 + k) fun n _ => Nat.add_le_add_right (PlotPixel.drawTicks_le _) k
  simpa using most

/-- The longest drawing, under way or to come. -/
def longest (mem : BitVec 18 → BitVec 32) (base : BitVec 18) (s : PlotCircle) : ℕ :=
  max (Finset.univ.sup fun j => (s.p j).ticksLeft) ((Finset.range 50).sup (ticksAt mem base))

/-- The time of a batch. A start write reaches the coprocessor in any reachable
state, and the bus may read and store as it likes. When no other start write
comes in between, the coprocessor is quiescent after the time of the dispatch
and of the longest drawing, which no memory makes longer than the bound. -/
theorem quiescent_after_start (two : 2 ≤ k) (reachable : Reachable k mem s)
    (start : (ins 0).writestart = true) (quiet : ∀ n, 0 < n → n < N → (ins n).writestart = false)
    (later : 1 + (cycle k mem s (ins 0)).dispatchTime k mem (ins 0).stackaddr +
      (cycle k mem s (ins 0)).longest mem (ins 0).stackaddr ≤ N) :
    (run k mem s ins N).Quiescent ∧
      1 + (cycle k mem s (ins 0)).dispatchTime k mem (ins 0).stackaddr +
        (cycle k mem s (ins 0)).longest mem (ins 0).stackaddr ≤
          1603 + (62 * 1449 + 50 * k) / (12 * k) := by
  have next : Reachable k mem (cycle k mem s (ins 0)) := reachable.cycle (ins 0)
  have small (j : Fin 12) : ((cycle k mem s (ins 0)).p j).ticksLeft ≤ 1449 :=
    next.ticksLeft_le (by omega) j
  constructor
  · refine quiescent_of_start two reachable.wellFormed start quiet (fun j => ?_) (fun n below => ?_)
      later
    · exact le_max_of_le_left
        (Finset.le_sup (f := fun j => ((cycle k mem s (ins 0)).p j).ticksLeft) (Finset.mem_univ j))
    · exact le_max_of_le_right (Finset.le_sup (Finset.mem_range.mpr below))
  · have work : (cycle k mem s (ins 0)).work ≤ 12 * 1449 := by
      simpa [work] using Finset.sum_le_card_nsmul Finset.univ _ 1449 fun j _ => small j
    have quotient : ((cycle k mem s (ins 0)).work +
        ∑ n ∈ Finset.range 50, (ticksAt mem (ins 0).stackaddr n + k)) / (12 * k) ≤
          (62 * 1449 + 50 * k) / (12 * k) := by
      refine Nat.div_le_div_right ?_
      have coming := sum_ticksAt_le k mem (ins 0).stackaddr
      omega
    have drawing : (cycle k mem s (ins 0)).longest mem (ins 0).stackaddr ≤ 1449 :=
      max_le (Finset.sup_le fun j _ => small j)
        (Finset.sup_le fun _ _ => PlotPixel.drawTicks_le _)
    rw [dispatchTime]
    omega

/-- A blank coprocessor at twice the clock and a memory that holds 200 everywhere. -/
theorem quiescent_after_start_blank :
    ∃ N, (run 2 (fun _ => 200) blank (BusIn.startOnly 0) N).Quiescent ∧ N ≤ 5350 := by
  have reachable : Reachable 2 (fun _ => 200) blank :=
    ⟨blank, BusIn.startOnly 0, 0, reset_blank, rfl⟩
  exact ⟨_, quiescent_after_start (by decide) reachable rfl
    (fun _ after _ => (BusIn.startOnly_later 0 after).1) (Nat.le_refl _)⟩

end Batch

end PlotCircle

end CirclePlotter.FinalDesign
