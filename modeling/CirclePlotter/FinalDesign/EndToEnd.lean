import CirclePlotter.FinalDesign.Dispatch
import CirclePlotter.FinalDesign.Termination
import CirclePlotter.OnScreen

/-!
# The coprocessor draws what the software draws

`plan` is what the screen is going to show: the goals of the twelve engines and
the circles that are not dispatched. No period of a batch changes it, and in a
quiescent state it is what the RAMs show. So the outcome does not depend on the
engine a circle goes to or on the period in which it does.
-/

namespace CirclePlotter.FinalDesign

open Sync

/-- The pixels of circle `n` of the arrays at `base`. -/
def circleAt (mem : BitVec 18 → BitVec 32) (base : BitVec 18) (n : ℕ) : Set Pixel :=
  {p | p ∈ circle ((dxAt mem base n).setWidth 9) ((dyAt mem base n).setWidth 9)
    ((drAt mem base n).setWidth 8)}

namespace PlotCircle

variable {k : ℕ} {mem : BitVec 18 → BitVec 32} {s : PlotCircle} {i : BusIn} {j : Fin 12}

/-! ## The screen -/

/-- A pixel is on the screen when some engine has it. -/
theorem mem_lit_screen {p : Pixel} : p ∈ lit s.screen ↔ ∃ j, p ∈ lit (s.p j).ram0.ram := by
  have scan (js : List (Fin 12)) (acc : BitVec 8) :
      (js.foldl (fun acc j => (s.p j).ram0.ram p.addr ||| acc) acc).getLsbD p.bit.toNat = true ↔
        acc.getLsbD p.bit.toNat = true ∨ ∃ j ∈ js, p ∈ lit (s.p j).ram0.ram := by
    induction js generalizing acc with
    | nil => simp
    | cons j js ih =>
        rw [List.foldl_cons, ih, BitVec.getLsbD_or, Bool.or_eq_true]
        simp only [List.mem_cons, exists_eq_or_imp, mem_lit]
        tauto
  rw [mem_lit, screen, scan]
  simp

/-! ## The plan -/

/-- What the screen is going to show when `left` circles are not dispatched. -/
def plan (mem : BitVec 18 → BitVec 32) (base : BitVec 18) (left : ℕ) (s : PlotCircle) :
    Set Pixel :=
  {p | (∃ j, p ∈ (s.p j).goal) ∨ ∃ n, n < left ∧ p ∈ circleAt mem base n}

theorem goal_cycle (valid : (s.p j).Valid) (quiet : (s.pixelIn i j).load = false)
    (silent : i.stores = false) : ((cycle k mem s i).p j).goal = (s.p j).goal :=
  goal_burst valid quiet silent _

/-- The engine that takes circle `n` adds it to its goal. -/
theorem goal_cycle_of_dispatch {base : BitVec 18} {n : ℕ} (positive : 0 < k)
    (fetched : s.Fetched mem base n) (load : (s.pixelIn i j).load = true)
    (rest : (s.p j).state = .wait) :
    ((cycle k mem s i).p j).goal = (s.p j).goal ∪ circleAt mem base n := by
  change (s.burst i j (s.ticks k)).goal = _
  rw [← Nat.sub_add_cancel (ticks_pos positive), goal_burst_of_load load rest,
    PlotPixel.goal_of_wait rest, fetched.newdx, fetched.newdy, fetched.newdr, circleAt]

variable {base : BitVec 18} {left : ℕ}

/-- A period of a batch keeps the plan. -/
theorem plan_cycle (two : 2 ≤ k) (batch : InBatch mem base left s) (wf : s.WellFormed)
    (quiet : i.writestart = false) (silent : i.stores = false) :
    ∃ left', InBatch mem base left' (cycle k mem s i) ∧
      (cycle k mem s i).plan mem base left' = s.plan mem base left := by
  rcases batch.step two quiet with ⟨held, batch'⟩ | ⟨n, rfl, dispatches, batch'⟩
  · refine ⟨left, batch', ?_⟩
    have same (j : Fin 12) : ((cycle k mem s i).p j).goal = (s.p j).goal :=
      goal_cycle (wf.engines j) (by rw [pixelIn_load, held]; rfl) silent
    simp only [plan, same]
  · refine ⟨n, batch', ?_⟩
    obtain ⟨e, rest, load⟩ := dispatches.load_iff silent
    have taken := goal_cycle_of_dispatch (k := k) (by omega) dispatches.fetched
      ((load e).mpr rfl) rest
    have same {j : Fin 12} (other : j ≠ e) : ((cycle k mem s i).p j).goal = (s.p j).goal :=
      goal_cycle (wf.engines j) (Bool.eq_false_iff.mpr fun hit => other ((load j).mp hit)) silent
    ext p
    constructor
    · intro planned
      rcases planned with ⟨j, shown⟩ | ⟨m, below, drawn⟩
      · by_cases here : j = e
        · rw [here, taken] at shown
          rcases shown with shown | drawn
          · exact .inl ⟨e, shown⟩
          · exact .inr ⟨n, Nat.lt_succ_self n, drawn⟩
        · exact .inl ⟨j, same here ▸ shown⟩
      · exact .inr ⟨m, Nat.lt_succ_of_lt below, drawn⟩
    · intro planned
      rcases planned with ⟨j, shown⟩ | ⟨m, below, drawn⟩
      · by_cases here : j = e
        · exact .inl ⟨e, taken ▸ .inl (here ▸ shown)⟩
        · exact .inl ⟨j, (same here).symm ▸ shown⟩
      · rcases Nat.lt_succ_iff_lt_or_eq.mp below with below | rfl
        · exact .inr ⟨m, below, drawn⟩
        · exact .inl ⟨e, taken ▸ .inr drawn⟩

/-- A finished batch shows the plan. -/
theorem plan_of_quiescent (done : s.Quiescent) : s.plan mem base 0 = lit s.screen := by
  ext p
  simp [plan, mem_lit_screen, PlotPixel.goal_of_wait (done.engines _)]

/-- From any stage on, the screen of the quiescent coprocessor is the plan. -/
theorem InBatch.screen_run (two : 2 ≤ k) (batch : InBatch mem base left s) (wf : s.WellFormed)
    {ins : ℕ → BusIn} {N : ℕ} (quiet : ∀ n, n < N → (ins n).writestart = false)
    (silent : ∀ n, n < N → (ins n).stores = false) (done : (run k mem s ins N).Quiescent) :
    lit (run k mem s ins N).screen = s.plan mem base left := by
  obtain ⟨-, left', batch', same⟩ : (run k mem s ins N).WellFormed ∧ ∃ left',
      InBatch mem base left' (run k mem s ins N) ∧
        (run k mem s ins N).plan mem base left' = s.plan mem base left :=
    run_invariant (N := N) (P := fun t : PlotCircle => t.WellFormed ∧
      ∃ left', InBatch mem base left' t ∧ t.plan mem base left' = s.plan mem base left)
    ⟨wf, left, batch, rfl⟩ (fun n t before ⟨wf, left', batch', same⟩ => by
      obtain ⟨left'', batch'', same'⟩ := plan_cycle two batch' wf (quiet n before) (silent n before)
      exact ⟨wf.cycle, left'', batch'', same'.trans same⟩) N (Nat.le_refl N)
  obtain rfl := batch'.left_eq_zero done.toIdle
  rw [← same, ← plan_of_quiescent done]

/-! ## End to end -/

theorem stores_of_writestart (start : i.writestart = true) : i.stores = false := by
  have address : i.address = 0x40004 := by
    unfold BusIn.writestart at start
    simp only [Bool.and_eq_true, beq_iff_eq] at start
    exact start.1
  simp [BusIn.stores, BusIn.broadcast, address]

/-- The start write itself changes no picture. -/
theorem plan_of_start (idle : s.Quiescent) (start : i.writestart = true) :
    (cycle k mem s i).plan mem base 50 =
      lit s.screen ∪ {p | ∃ n, n < 50 ∧ p ∈ circleAt mem base n} := by
  have held : s.dispatching = false := by simp [dispatching, idle.offset]
  have same (j : Fin 12) : ((cycle k mem s i).p j).goal = lit (s.p j).ram0.ram := by
    rw [goal_cycle (.of_wait (idle.engines j)) (by rw [pixelIn_load, held]; rfl)
      (stores_of_writestart start), PlotPixel.goal_of_wait (idle.engines j)]
  ext p
  simp only [plan, same, Set.mem_union, mem_lit_screen, Set.mem_ofPred_eq]

/-- A batch adds its fifty circles to the screen. -/
theorem lit_screen_of_batch (two : 2 ≤ k) (idle : s.Quiescent) {ins : ℕ → BusIn}
    (start : (ins 0).writestart = true) (quiet : ∀ n, 0 < n → (ins n).writestart = false)
    (silent : ∀ n, 0 < n → (ins n).stores = false) {N : ℕ} (later : 0 < N)
    (done : (run k mem s ins N).Quiescent) :
    lit (run k mem s ins N).screen =
      lit s.screen ∪ {p | ∃ n, n < 50 ∧ p ∈ circleAt mem (ins 0).stackaddr n} := by
  obtain ⟨N, rfl⟩ := Nat.exists_eq_succ_of_ne_zero (Nat.ne_of_gt later)
  rw [Nat.succ_eq_add_one, run_succ_eq] at done ⊢
  rw [(InBatch.of_start two idle.toIdle start).screen_run two (WellFormed.of_quiescent idle).cycle
    (fun n _ => quiet (n + 1) (by omega)) (fun n _ => silent (n + 1) (by omega)) done,
    plan_of_start idle start]

/-- The final design is right end to end. The arrays at `base` hold 50 circles
on the screen, and a start write hands `base` to the quiescent coprocessor. No
matter what is on the screen and when the bus reads, once the coprocessor is
quiescent again its screen is what `plotallcircles_ref` leaves of the old one. -/
theorem screen_eq_plotallcircles_ref (two : 2 ≤ k) (idle : s.Quiescent) {ins : ℕ → BusIn}
    (start : (ins 0).writestart = true)
    (on : ∀ n : Fin 50, OnScreen (dxAt mem (ins 0).stackaddr n) (dyAt mem (ins 0).stackaddr n)
      (drAt mem (ins 0).stackaddr n))
    (quiet : ∀ n, 0 < n → (ins n).writestart = false)
    (silent : ∀ n, 0 < n → (ins n).stores = false) {N : ℕ} (later : 0 < N)
    (done : (run k mem s ins N).Quiescent) :
    (plotallcircles_ref (fun n => dxAt mem (ins 0).stackaddr n)
        (fun n => dyAt mem (ins 0).stackaddr n) (fun n => drAt mem (ins 0).stackaddr n)).exec
      screenMemory s.screen = some ((), (run k mem s ins N).screen) := by
  obtain ⟨mem', defined, drawn⟩ := exec_plotallcircles_ref on s.screen
  have shown := lit_screen_of_batch two idle start quiet silent later done
  rw [defined]
  congr 2
  apply eq_of_lit_eq
  rw [drawn, shown]
  ext p
  simp [circleAt, Fin.exists_iff]

/-- Fifty times the circle of radius 200 around (200, 200), on a dark screen. -/
theorem screen_eq_plotallcircles_ref_const :
    ∃ N, 0 < N ∧
      (plotallcircles_ref (fun n => dxAt (fun _ => 200) 0 n) (fun n => dyAt (fun _ => 200) 0 n)
          (fun n => drAt (fun _ => 200) 0 n)).exec screenMemory blank.screen =
        some ((), (run 2 (fun _ => 200) blank (BusIn.startOnly 0) N).screen) := by
  have on (n : Fin 50) : OnScreen (dxAt (fun _ => 200) (BusIn.startOnly 0 0).stackaddr n)
      (dyAt (fun _ => 200) (BusIn.startOnly 0 0).stackaddr n)
      (drAt (fun _ => 200) (BusIn.startOnly 0 0).stackaddr n) := by
    change OnScreen 200 200 200
    exact ⟨by decide, by decide, by decide, by decide, by decide⟩
  obtain ⟨N, later, settled⟩ : ∃ N, 0 < N ∧ ∀ n, N ≤ n →
      (run 2 (fun _ => 200) blank (BusIn.startOnly 0) n).Quiescent :=
    (WellFormed.of_quiescent quiescent_blank).settles_after_start (by decide)
      fun n later => (BusIn.startOnly_later 0 later).1
  exact ⟨N, later, screen_eq_plotallcircles_ref (by decide) quiescent_blank rfl on
    (fun n after => (BusIn.startOnly_later 0 after).1)
    (fun n after => (BusIn.startOnly_later 0 after).2) later (settled N (Nat.le_refl N))⟩

end PlotCircle

end CirclePlotter.FinalDesign
