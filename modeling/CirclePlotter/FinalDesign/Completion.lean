import CirclePlotter.FinalDesign.Termination

/-!
# The completion flag

`while(PIX_BUSY)` polls a status word that is computed from the engines alone.
Work that is still with the controller does not show in it, so the word is 0
whenever every engine happens to rest, and always right after a start write to
a quiescent coprocessor. `flagRight_iff` says exactly in which periods the word
can be trusted.
-/

namespace CirclePlotter.FinalDesign

open Sync

namespace PlotCircle

variable {k : ℕ} {mem : BitVec 18 → BitVec 32} {s : PlotCircle} {i : BusIn} {ins : ℕ → BusIn}

/-- A status word 0 in this period means that the batch is finished. -/
def FlagRight (k : ℕ) (s : PlotCircle) (i : BusIn) : Prop := s.status k i = 0 → s.Quiescent

/-- Some engine draws up to the end of the period: it is loaded at the fast
clock, or its drawing takes at least the ticks of the period. The idle
controller needs none. -/
structure Covered (k : ℕ) (s : PlotCircle) (i : BusIn) : Prop where
  busy : ¬ s.Idle → ∃ j, (s.state ≠ .wait ∧ (s.pixelIn i j).load = true) ∨
    s.ticks k ≤ (s.p j).ticksLeft

theorem status_eq_zero_iff : s.status k i = 0 ↔ ∀ j, (s.settled k i j).state = .wait := by
  unfold status
  split
  · next ready => simpa [PlotPixel.ready] using ready
  · next notReady => simpa [PlotPixel.ready] using notReady

/-- What an engine shows at the edge that closes the period. -/
theorem settled_ne_wait_iff (two : 2 ≤ k) (wf : s.WellFormed) (j : Fin 12) :
    (s.settled k i j).state ≠ .wait ↔
      (s.state ≠ .wait ∧ (s.pixelIn i j).load = true) ∨ s.ticks k ≤ (s.p j).ticksLeft := by
  cases load : (s.pixelIn i j).load with
  | false =>
      have positive : 0 < s.ticks k := ticks_pos (by omega)
      rw [settled, ne_eq, ← PlotPixel.ticksLeft_eq_zero_iff, ticksLeft_burst (wf.engines j) load]
      simp only [Bool.false_eq_true, and_false, false_or]
      omega
  | true =>
      by_cases rest : s.state = .wait
      · have one : s.ticks k = 1 := if_pos rest
        rw [settled_of_wait rest, one, ne_eq, ← PlotPixel.ticksLeft_eq_zero_iff]
        simp only [rest, ne_eq, not_true_eq_false, false_and, false_or]
        omega
      · rw [settled_of_working two rest, (burst_load load _).1]
        simp [rest]

/-- The periods of a well-formed coprocessor in which the flag is right. -/
theorem flagRight_iff (two : 2 ≤ k) (wf : s.WellFormed) : FlagRight k s i ↔ Covered k s i := by
  by_cases idle : s.Idle
  · refine ⟨fun _ => ⟨fun busy => absurd idle busy⟩, fun _ zero => ⟨idle, fun j => ?_⟩⟩
    have rest := status_eq_zero_iff.mp zero j
    rwa [settled_of_wait idle.state] at rest
  · constructor
    · refine fun right => ⟨fun _ => ?_⟩
      by_contra none
      refine idle (right (status_eq_zero_iff.mpr fun j => ?_)).toIdle
      by_contra drawing
      exact none ⟨j, (settled_ne_wait_iff two wf j).mp drawing⟩
    · intro covered zero
      obtain ⟨j, drawing⟩ := covered.busy idle
      exact absurd (status_eq_zero_iff.mp zero j) ((settled_ne_wait_iff two wf j).mpr drawing)

/-! ## Runs -/

/-- Before its first start write a coprocessor stays quiescent. -/
theorem quiescent_run_of_reset (reset : s.Reset) {m : ℕ}
    (quiet : ∀ n, n < m → (ins n).writestart = false) : (run k mem s ins m).Quiescent :=
  run_invariant (P := Quiescent) (N := m)
    ⟨⟨reset.state, reset.offset⟩, fun j => (reset.p j).state⟩
    (fun n _ before idle => idle.cycle (quiet n before)) m (Nat.le_refl m)

/-- The period after a start write to a quiescent coprocessor reports completion
although nothing is fetched yet. -/
theorem flag_wrong_after_start (idle : s.Quiescent) (start : i.writestart = true) (i' : BusIn) :
    ¬ FlagRight k (cycle k mem s i) i' := by
  intro right
  have held : s.dispatching = false := by simp [dispatching, idle.offset]
  have fetching : (cycle k mem s i).state = .readX := by simp [cycle, start]
  have held' : (cycle k mem s i).dispatching = false := by simp [dispatching, fetching]
  have rest (j : Fin 12) : ((cycle k mem s i).settled k i' j).state = .wait :=
    burst_rest (by rw [pixelIn_load, held']; rfl)
      (wait_cycle (by rw [pixelIn_load, held]; rfl) (idle.engines j)).2 _
  have done := right (status_eq_zero_iff.mpr rest)
  rw [done.state] at fetching
  cases fetching

/-- The completion flag of every run from reset. In any one period it is right
exactly when the period is covered; over a whole run it is right in all periods
after a start write exactly when there is no start write. -/
theorem completion_flag_iff (two : 2 ≤ k) (reset : s.Reset) (ins : ℕ → BusIn) :
    (∀ n, FlagRight k (run k mem s ins n) (ins n) ↔ Covered k (run k mem s ins n) (ins n)) ∧
    ((∀ m n, m < n → (ins m).writestart = true → FlagRight k (run k mem s ins n) (ins n)) ↔
      ∀ m, (ins m).writestart = false) := by
  refine ⟨fun n => flagRight_iff two ((WellFormed.of_reset reset).run k mem ins n),
    fun right m => ?_, fun never m n _ start => ?_⟩
  · induction m using Nat.strong_induction_on with
    | _ m quiet =>
        by_contra start
        have start : (ins m).writestart = true := by simpa using start
        exact flag_wrong_after_start (quiescent_run_of_reset reset quiet) start _
          (right m (m + 1) (Nat.lt_succ_self m) start)
  · rw [never m] at start
    cases start

/-- A start write after reset and no further access. -/
theorem completion_flag_iff_startOnly :
    (∀ n, FlagRight 2 (run 2 (fun _ => 200) blank (BusIn.startOnly 0) n) (BusIn.startOnly 0 n) ↔
      Covered 2 (run 2 (fun _ => 200) blank (BusIn.startOnly 0) n) (BusIn.startOnly 0 n)) ∧
    ((∀ m n, m < n → (BusIn.startOnly 0 m).writestart = true →
        FlagRight 2 (run 2 (fun _ => 200) blank (BusIn.startOnly 0) n) (BusIn.startOnly 0 n)) ↔
      ∀ m, (BusIn.startOnly 0 m).writestart = false) :=
  completion_flag_iff (by decide) reset_blank _

/-- One period after the start write of a batch the status word is 0, and the
controller has not fetched the first circle. -/
theorem completion_flag_wrong :
    (BusIn.startOnly 0 0).writestart = true ∧
      (run 2 (fun _ => 200) blank (BusIn.startOnly 0) 1).status 2 (BusIn.startOnly 0 1) = 0 ∧
      ¬ (run 2 (fun _ => 200) blank (BusIn.startOnly 0) 1).Quiescent := by
  refine ⟨rfl, by decide, fun done => ?_⟩
  exact absurd done.state (by decide)

end PlotCircle

end CirclePlotter.FinalDesign
