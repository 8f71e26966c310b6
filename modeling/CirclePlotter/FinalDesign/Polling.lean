import CirclePlotter.FinalDesign.BatchTime

/-!
# What `PIX_BUSY` says

The status word is computed from the engines alone. When it is 0, the screen shows
everything the controller has handed out, so in a batch it shows the circles from
some entry of the arrays on (`screen_of_ready`). Whether that is the whole batch
depends on the controller: in the states of `Draining` it is idle, and a poll can be
trusted.
-/

namespace CirclePlotter.FinalDesign

open Sync

/-- The circles of the arrays at `base` from entry `left` on. -/
def circlesFrom (mem : BitVec 18 → BitVec 32) (base : BitVec 18) (left : ℕ) : Set Pixel :=
  {p | ∃ e, left ≤ e ∧ e < 50 ∧ p ∈ circleAt mem base e}

/-- What is drawn comes from the end of the arrays. -/
theorem Batcher.Step.picture {mem : BitVec 18 → BitVec 32} {i : BusIn} {b b' : Batcher}
    {S : Set Pixel} (step : Batcher.Step mem i b b') (quiet : i.writestart = false)
    (within : b.left ≤ 50) (drawn : b.picture = S ∪ circlesFrom mem b.base b.left) :
    b'.base = b.base ∧ b'.left ≤ 50 ∧ b'.picture = S ∪ circlesFrom mem b'.base b'.left := by
  rcases step with ⟨c, rfl | ⟨more, rfl⟩, rfl⟩
  · rw [quiet]
    exact ⟨rfl, within, drawn⟩
  · rw [quiet]
    refine ⟨rfl, (Nat.sub_le _ _).trans within, ?_⟩
    have first (e : ℕ) : b.left - 1 ≤ e ∧ e < 50 ↔ b.left ≤ e ∧ e < 50 ∨ e = b.left - 1 := by
      omega
    ext p
    simp only [Batcher.draw, drawn, circlesFrom, Bool.false_eq_true, if_false, Set.mem_union,
      Set.mem_ofPred_eq, ← and_assoc, first, or_and_right, exists_or, exists_eq_left, or_assoc]

namespace PlotCircle

variable {k : ℕ} {mem : BitVec 18 → BitVec 32} {s : PlotCircle} {i : BusIn} {j : Fin 12}
  {ins : ℕ → BusIn} {n : ℕ} {S : Set Pixel}

/-! ## The status word -/

/-- An engine that waits at the end of a period has drawn what it had been given. -/
theorem lit_ram_of_settled (mem : BitVec 18 → BitVec 32) (two : 2 ≤ k) (wf : s.WellFormed)
    (silent : i.stores = false) (rest : (s.settled k i j).state = .wait) :
    lit ((cycle k mem s i).p j).ram0.ram = (s.p j).goal := by
  have goal : (s.settled k i j).goal = (s.p j).goal := by
    by_cases waiting : s.state = .wait
    · rw [settled_of_wait waiting]
    · cases load : (s.pixelIn i j).load with
      | false => exact goal_burst (wf.engines j) load silent _
      | true =>
          rw [settled_of_working two waiting, (burst_load load _).1] at rest
          cases rest
  have same : ((cycle k mem s i).p j).ram0.ram = (s.settled k i j).ram0.ram := by
    rw [cycle_p (by omega)]
    exact PlotPixel.ram_tick (.of_wait rest) (by rw [pixelIn_store, silent]) fun _ _ writing =>
      absurd rest (PixelState.ne_of_corner writing).1
  rw [same, ← PlotPixel.goal_of_wait rest, goal]

/-- When the status word is 0 the screen shows everything that has been handed out. -/
theorem lit_screen_of_ready (mem : BitVec 18 → BitVec 32) (two : 2 ≤ k) (wf : s.WellFormed)
    (silent : i.stores = false) (ready : s.status k i = 0) :
    lit (cycle k mem s i).screen = s.goals := by
  have shown (j : Fin 12) : lit ((cycle k mem s i).p j).ram0.ram = (s.p j).goal :=
    lit_ram_of_settled mem two wf silent (status_eq_zero_iff.mp ready j)
  ext p
  rw [mem_lit_screen]
  simp only [shown, goals, Set.mem_ofPred_eq]

/-- Up to the next start write a coprocessor stands for batchers that have drawn the
circles from some entry on. -/
theorem StandsFor.drawn_run {base : BitVec 18} (two : 2 ≤ k)
    (stands : StandsFor mem s ⟨S, base, 50⟩) (quiet : ∀ m, m < n → (ins m).writestart = false)
    (silent : ∀ m, m < n → (ins m).stores = false) :
    ∃ b, StandsFor mem (run k mem s ins n) b ∧ b.base = base ∧ b.left ≤ 50 ∧
      b.picture = S ∪ circlesFrom mem b.base b.left := by
  have start : S = S ∪ circlesFrom mem base 50 := by
    have none : circlesFrom mem base 50 = ∅ := by
      ext p
      simp only [circlesFrom, Set.mem_ofPred_eq, Set.mem_empty_iff_false, iff_false]
      rintro ⟨e, after, before, -⟩
      omega
    rw [none, Set.union_empty]
  refine run_invariant (P := fun t => ∃ b, StandsFor mem t b ∧ b.base = base ∧ b.left ≤ 50 ∧
      b.picture = S ∪ circlesFrom mem b.base b.left) ⟨_, stands, rfl, Nat.le_refl 50, start⟩
    (fun m t before h => ?_) n (Nat.le_refl n)
  rcases h with ⟨b, stands, same, within, drawn⟩
  rcases stands.step (i := ins m) two (silent m before) with ⟨b', step, stands'⟩
  rcases step.picture (quiet m before) within drawn with ⟨same', within', drawn'⟩
  exact ⟨b', stands', same'.trans same, within', drawn'⟩

/-- `PIX_BUSY` in a batch. Whenever it reads 0 after a start write to a coprocessor
in any reachable state, without another start write or a store up to then, the
screen shows what the engines had been given before and the circles from some entry
of the arrays on, and all of them exactly when the coprocessor is quiescent. -/
theorem screen_of_ready (two : 2 ≤ k) (reachable : Reachable k mem s)
    (start : (ins 0).writestart = true)
    (quiet : ∀ m, 0 < m → m ≤ n → (ins m).writestart = false)
    (silent : ∀ m, 0 < m → m ≤ n → (ins m).stores = false) (later : 0 < n)
    (ready : (run k mem s ins n).status k (ins n) = 0) :
    ∃ left, left ≤ 50 ∧ lit (run k mem s ins (n + 1)).screen =
        s.goals ∪ {p | s.dispatching = true ∧ p ∈ s.fetchedCircle} ∪
          circlesFrom mem (ins 0).stackaddr left ∧
      ((run k mem s ins n).Quiescent ↔ left = 0) := by
  obtain ⟨n, rfl⟩ := Nat.exists_eq_succ_of_ne_zero (Nat.ne_of_gt later)
  rcases reachable.serving two with ⟨base, left, serving⟩
  have first := StandsFor.of_start two reachable.wellFormed serving start
  rcases first.drawn_run (n := n) two (fun m before => quiet (m + 1) (by omega) (by omega))
    (fun m before => silent (m + 1) (by omega) (by omega)) with ⟨b, stands, same, within, drawn⟩
  rw [same] at drawn
  rw [Nat.succ_eq_add_one, run_succ_eq] at ready
  refine ⟨b.left, within, ?_, ?_⟩
  · rw [Nat.succ_eq_add_one, run_succ_eq, ← drawn, ← stands.goals]
    exact lit_screen_of_ready mem two stands.wf (silent (n + 1) (by omega) (by omega)) ready
  · rw [Nat.succ_eq_add_one, run_succ_eq]
    refine ⟨fun done => (stands.shows done).1, fun finished => ?_⟩
    have idle := stands.serving.idle_iff.mpr finished
    refine ⟨idle, fun j => ?_⟩
    have rest := status_eq_zero_iff.mp ready j
    rwa [settled_of_wait idle.state] at rest

/-- Fifty points on a diagonal. -/
def points (a : BitVec 18) : BitVec 32 := if a < 400 then a.setWidth 32 else 0

/-- At 16 times the clock an engine draws a point in the period of its dispatch. In
period 7 of a batch the status is 0, and one of the fifty points is on the screen. -/
theorem screen_of_ready_points :
    ∃ left, left ≤ 50 ∧ lit (run 16 points blank (BusIn.startOnly 0) 8).screen =
        blank.goals ∪ {p | blank.dispatching = true ∧ p ∈ blank.fetchedCircle} ∪
          circlesFrom points (BusIn.startOnly 0 0).stackaddr left ∧
      ((run 16 points blank (BusIn.startOnly 0) 7).Quiescent ↔ left = 0) ∧ left = 49 := by
  have ready : (run 16 points blank (BusIn.startOnly 0) 7).status 16 (BusIn.startOnly 0 7) = 0 := by
    decide +kernel
  have first : (⟨196, 396⟩ : Pixel) ∈ lit (run 16 points blank (BusIn.startOnly 0) 8).screen := by
    rw [mem_lit]
    decide +kernel
  have second : (⟨192, 392⟩ : Pixel) ∉ lit (run 16 points blank (BusIn.startOnly 0) 8).screen := by
    rw [mem_lit]
    decide +kernel
  have reachable : Reachable 16 points blank := ⟨blank, BusIn.startOnly 0, 0, reset_blank, rfl⟩
  rcases screen_of_ready (by decide) reachable rfl
    (fun _ after _ => (BusIn.startOnly_later 0 after).1)
    (fun _ after _ => (BusIn.startOnly_later 0 after).2) (by decide) ready with
    ⟨left, within, shown, done⟩
  refine ⟨left, within, shown, done, ?_⟩
  rw [shown, goals_of_waiting fun _ => rfl] at first second
  have missing : 48 < left := by
    refine Nat.lt_of_not_le fun drawn => second (.inr ⟨48, drawn, by decide, ?_⟩)
    exact mem_circle_zero.mpr rfl
  have drawn : left < 50 := by
    rcases first with (before | ⟨dispatching, -⟩) | ⟨e, after, before, -⟩
    · rw [mem_lit] at before
      exact absurd before (by decide +kernel)
    · exact absurd dispatching (by decide)
    · exact Nat.lt_of_le_of_lt after before
  omega

/-! ## When a poll can be trusted -/

/-- Nothing is left to be handed out, and the engines are going to show `S`. -/
structure Draining (s : PlotCircle) (S : Set Pixel) : Prop where
  wf : s.WellFormed
  idle : s.Idle
  goals : s.goals = S

theorem Draining.cycle (draining : s.Draining S) (two : 2 ≤ k) (quiet : i.writestart = false)
    (silent : i.stores = false) : (cycle k mem s i).Draining S := by
  have serving : Serving mem 0 s 0 := .idle draining.idle
  refine ⟨draining.wf.cycle, draining.idle.cycle quiet, ?_⟩
  rw [goals_cycle two serving draining.wf silent, draining.goals]
  simp [draining.idle.not_dispatching]

/-- A status word 0 is right. -/
theorem Draining.shows (draining : s.Draining S) (mem : BitVec 18 → BitVec 32) (two : 2 ≤ k)
    (quiet : i.writestart = false) (silent : i.stores = false) (ready : s.status k i = 0) :
    (PlotCircle.cycle k mem s i).Quiescent ∧ lit (PlotCircle.cycle k mem s i).screen = S := by
  have done : s.Quiescent := by
    refine ⟨draining.idle, fun j => ?_⟩
    have rest := status_eq_zero_iff.mp ready j
    rwa [settled_of_wait draining.idle.state] at rest
  exact ⟨done.cycle quiet,
    (lit_screen_of_ready mem two draining.wf silent ready).trans draining.goals⟩

/-- The periods the dispatch of a batch takes at most when the coprocessor was
quiescent, with the one of the start write. -/
def dispatchBound (k : ℕ) : ℕ := 154 + 50 * (1449 + k) / (12 * k)

/-- So long after a start write the circles are handed out. -/
theorem draining_of_start (two : 2 ≤ k) (idle : s.Quiescent) (start : i.writestart = true)
    (quiet : ∀ m, (ins m).writestart = false) (silent : ∀ m, (ins m).stores = false)
    (enough : dispatchBound k ≤ n + 1) :
    (run k mem (cycle k mem s i) ins n).Draining
      (lit s.screen ∪ {p | ∃ e, e < 50 ∧ p ∈ circleAt mem i.stackaddr e}) := by
  have held : s.dispatching = false := idle.toIdle.not_dispatching
  have stands : StandsFor mem (cycle k mem s i) ⟨lit s.screen, i.stackaddr, 50⟩ := by
    have serving : Serving mem 0 s 0 := .idle idle.toIdle
    simpa [held, goals_of_waiting idle.engines] using
      StandsFor.of_start two (.of_quiescent idle) serving start
  have steps : (cycle k mem s i).stepsLeft 50 = 152 := by simp [stepsLeft, cycle, start]
  have none : (cycle k mem s i).work = 0 := work_eq_zero_iff.mpr fun j =>
    (wait_cycle (by rw [pixelIn_load, held]; rfl) (idle.engines j)).2
  rcases exists_idle two stands.wf (.of_start start) steps quiet with ⟨m, within, met⟩
  have quotient : (∑ e ∈ Finset.range 50, (ticksAt mem i.stackaddr e + k)) / (12 * k) ≤
      50 * (1449 + k) / (12 * k) :=
    Nat.div_le_div_right (sum_ticksAt_le k mem i.stackaddr)
  rw [dispatchTime, none, Nat.zero_add] at within
  rw [dispatchBound] at enough
  have later : m ≤ n := by omega
  have ended : (run k mem (cycle k mem s i) ins n).Idle :=
    Nat.le_induction met (fun l _ idle => idle.cycle (quiet l)) n later
  rcases stands.outcome_run (N := n) two (fun m _ => quiet m) (fun m _ => silent m) with
    ⟨b, stands', same⟩
  refine ⟨stands.wf.run k mem ins n, ended, ?_⟩
  rw [stands'.goals, ← Batcher.outcome_of_finished (stands'.serving.idle_iff.mp ended), same,
    Batcher.outcome]

end PlotCircle

end CirclePlotter.FinalDesign
