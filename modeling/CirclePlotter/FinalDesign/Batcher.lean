import CirclePlotter.FinalDesign.EndToEnd

/-!
# Batches over whole runs

`Batcher` is what the coprocessor is for, without fetches, arbiter and engines: a
picture, and a batch whose circles below `left` are still to be added. A start
write at any time drops these and begins the next batch.

* `Serving` is the invariant of the controller in all reachable states, whatever
  is on the bus, and `Serving.step` its step lemma.
* `goals_cycle` is the step of the picture. A start write changes nothing that an
  engine has been given.
* `run_refines_batcher` is the refinement of whole runs, `screen_grows` says what the
  screen can show in between, and `screen_after_start` what it shows after a batch
  that was started in any state.
-/

namespace CirclePlotter.FinalDesign

open Sync

/-- The coprocessor as its software sees it. -/
structure Batcher where
  picture : Set Pixel
  base : BitVec 18
  left : ℕ

namespace Batcher

variable {mem : BitVec 18 → BitVec 32} {i : BusIn} {b b' : Batcher}

/-- Add the next circle of the batch. -/
def draw (mem : BitVec 18 → BitVec 32) (b : Batcher) : Batcher :=
  ⟨b.picture ∪ circleAt mem b.base (b.left - 1), b.base, b.left - 1⟩

/-- Begin a batch, whatever is left of the last one. -/
def start (base : BitVec 18) (b : Batcher) : Batcher := ⟨b.picture, base, 50⟩

/-- One period: the next circle may be added, and then a start write takes effect. -/
def Step (mem : BitVec 18 → BitVec 32) (i : BusIn) (b b' : Batcher) : Prop :=
  ∃ c, (c = b ∨ 0 < b.left ∧ c = b.draw mem) ∧
    b' = if i.writestart then c.start i.stackaddr else c

/-- The picture when the batch is finished. -/
def outcome (mem : BitVec 18 → BitVec 32) (b : Batcher) : Set Pixel :=
  b.picture ∪ {p | ∃ n, n < b.left ∧ p ∈ circleAt mem b.base n}

theorem outcome_draw (more : 0 < b.left) : (b.draw mem).outcome mem = b.outcome mem := by
  have last (n : ℕ) : n < b.left ↔ n = b.left - 1 ∨ n < b.left - 1 := by omega
  ext p
  simp only [outcome, draw, Set.mem_union, Set.mem_ofPred_eq, last, or_and_right, exists_or,
    exists_eq_left, or_assoc]

/-- Only a start write changes the outcome. -/
theorem Step.outcome (step : Step mem i b b') (quiet : i.writestart = false) :
    b'.outcome mem = b.outcome mem := by
  rcases step with ⟨c, rfl | ⟨more, rfl⟩, rfl⟩
  · rw [quiet]
    rfl
  · rw [quiet]
    exact outcome_draw more

/-- A start write adds the circles of its batch at most. -/
theorem Step.outcome_subset (step : Step mem i b b') :
    b'.outcome mem ⊆ b.outcome mem ∪
      {p | i.writestart = true ∧ ∃ n, n < 50 ∧ p ∈ circleAt mem i.stackaddr n} := by
  cases start : i.writestart with
  | false =>
      rw [step.outcome start]
      exact Set.subset_union_left
  | true =>
      rcases step with ⟨c, drawn, rfl⟩
      rw [start, if_pos rfl]
      have same : c.outcome mem = b.outcome mem := by
        rcases drawn with rfl | ⟨more, rfl⟩
        · rfl
        · exact outcome_draw more
      intro p planned
      rcases planned with shown | ⟨n, left, here⟩
      · exact .inl (same ▸ .inl shown)
      · exact .inr ⟨rfl, n, left, here⟩

theorem outcome_of_finished (finished : b.left = 0) : b.outcome mem = b.picture := by
  simp [Batcher.outcome, finished]

end Batcher

namespace PlotCircle

variable {k : ℕ} {mem : BitVec 18 → BitVec 32} {s : PlotCircle} {i : BusIn} {base : BitVec 18}
  {left : ℕ}

/-! ## The controller -/

theorem Idle.not_dispatching (idle : s.Idle) : s.dispatching = false := by
  simp [dispatching, idle.offset]

/-- All but `left` circles of the batch at `base` are dispatched. In the period
after a start write `ready_sync` may report an engine that was loaded just before. -/
inductive Serving (mem : BitVec 18 → BitVec 32) (base : BitVec 18) (s : PlotCircle) : ℕ → Prop
  | idle : s.Idle → Serving mem base s 0
  | first : s.state = .readX → s.offset = offsetAt 49 → s.basex = base → s.basey = base + 200 →
    s.baser = base + 400 → Serving mem base s 50
  | batch {left : ℕ} : InBatch mem base left s → Serving mem base s left

/-- A start write in any state begins a batch. -/
theorem Serving.of_start (start : i.writestart = true) :
    Serving mem i.stackaddr (cycle k mem s i) 50 :=
  .first (by simp [cycle, start]) (by simp [cycle, start, offsetAt]) (by simp [cycle, start])
    (by simp [cycle, start]) (by simp [cycle, start])

/-- One period on, `ready_sync` is right. -/
theorem InBatch.of_first (two : 2 ≤ k) (state : s.state = .readX) (offset : s.offset = offsetAt 49)
    (basex : s.basex = base) (basey : s.basey = base + 200) (baser : s.baser = base + 400)
    (quiet : i.writestart = false) : InBatch mem base 50 (cycle k mem s i) := by
  have below := offsetAt_not_neg (n := 49) (by decide)
  have held : s.dispatching = false := by simp [dispatching, state]
  rcases state_cycle k mem s quiet with ⟨next, nextOffset⟩
  refine ⟨.firstY ?_ ?_ ?_, ?_, ?_, ?_, fun _ _ => sound_cycle two (.inr held)⟩
  · rw [next]
    simp only [control, state, offset, below, Bool.false_eq_true, if_false]
  · rw [nextOffset, ← offset]
    simp only [control, state]
  · simp [nextdx, cycle, control, state, offset, dxAt, basex, setWidth_offsetAt]
  · simp [cycle, quiet, basex]
  · simp [cycle, quiet, basey]
  · simp [cycle, quiet, baser]

/-- A period without a start write dispatches nothing or the next circle. -/
theorem Serving.step (two : 2 ≤ k) (serving : Serving mem base s left)
    (quiet : i.writestart = false) :
    s.dispatching = false ∧ Serving mem base (cycle k mem s i) left ∨
      ∃ n, left = n + 1 ∧ s.Dispatches mem base n ∧ Serving mem base (cycle k mem s i) n := by
  cases serving with
  | idle idle => exact .inl ⟨idle.not_dispatching, .idle (idle.cycle quiet)⟩
  | first state offset basex basey baser =>
      exact .inl ⟨by simp [dispatching, state],
        .batch (.of_first two state offset basex basey baser quiet)⟩
  | batch batch =>
      rcases batch.step two quiet with ⟨held, batch'⟩ | ⟨n, rfl, dispatches, batch'⟩
      · exact .inl ⟨held, .batch batch'⟩
      · exact .inr ⟨n, rfl, dispatches, .batch batch'⟩

theorem Serving.exists_step (two : 2 ≤ k) (serving : Serving mem base s left)
    (quiet : i.writestart = false) : ∃ left', Serving mem base (cycle k mem s i) left' := by
  rcases serving.step two quiet with ⟨-, serving'⟩ | ⟨n, -, -, serving'⟩
  · exact ⟨_, serving'⟩
  · exact ⟨_, serving'⟩

/-- What a period dispatches does not depend on the bus. -/
theorem Serving.dispatches (two : 2 ≤ k) (serving : Serving mem base s left) :
    s.dispatching = false ∨ ∃ n, left = n + 1 ∧ s.Dispatches mem base n := by
  have quiet : BusIn.rest.writestart = false := rfl
  rcases serving.step two quiet with ⟨held, -⟩ | ⟨n, more, dispatches, -⟩
  · exact .inl held
  · exact .inr ⟨n, more, dispatches⟩

theorem Serving.idle_iff (serving : Serving mem base s left) : s.Idle ↔ left = 0 := by
  cases serving with
  | idle idle => simp [idle]
  | first state =>
      refine ⟨fun idle => ?_, fun none => by cases none⟩
      rw [idle.state] at state
      cases state
  | batch batch =>
      refine ⟨batch.left_eq_zero, fun none => ?_⟩
      subst none
      cases batch.stage with
      | done idle => exact idle

/-- In every reachable state the controller serves some batch. -/
theorem Reachable.serving (two : 2 ≤ k) (reachable : Reachable k mem s) :
    ∃ base left, Serving mem base s left := by
  rcases reachable with ⟨s₀, ins, n, reset, rfl⟩
  refine run_always (P := fun t : PlotCircle => ∃ base left, Serving mem base t left)
    ⟨0, 0, .idle ⟨reset.state, reset.offset⟩⟩ (fun n t serving => ?_) n
  rcases serving with ⟨base, left, serving⟩
  cases start : (ins n).writestart with
  | true => exact ⟨_, _, .of_start start⟩
  | false => exact ⟨base, serving.exists_step two start⟩

/-! ## The picture -/

/-- What the engines show and are going to show. -/
def goals (s : PlotCircle) : Set Pixel := {p | ∃ j, p ∈ (s.p j).goal}

/-- The circle in the registers. -/
def fetchedCircle (s : PlotCircle) : Set Pixel :=
  {p | p ∈ circle (s.newdx.setWidth 9) (s.newdy.setWidth 9) (s.newdr.setWidth 8)}

theorem lit_screen_subset_goals (s : PlotCircle) : lit s.screen ⊆ s.goals := by
  intro p shown
  rcases mem_lit_screen.mp shown with ⟨j, shown⟩
  exact ⟨j, PlotPixel.lit_subset_goal _ shown⟩

theorem goals_of_waiting (rest : ∀ j, (s.p j).state = .wait) : s.goals = lit s.screen := by
  ext p
  simp [goals, mem_lit_screen, PlotPixel.goal_of_wait (rest _)]

/-- A period without a store adds the circle it dispatches. -/
theorem goals_cycle (two : 2 ≤ k) (serving : Serving mem base s left) (wf : s.WellFormed)
    (silent : i.stores = false) :
    (cycle k mem s i).goals = s.goals ∪ {p | s.dispatching = true ∧ p ∈ s.fetchedCircle} := by
  rcases serving.dispatches two with held | ⟨n, -, dispatches⟩
  · have same (j : Fin 12) : ((cycle k mem s i).p j).goal = (s.p j).goal :=
      goal_cycle (wf.engines j) (by rw [pixelIn_load, held]; rfl) silent
    simp [goals, same, held]
  · obtain ⟨e, rest, load⟩ := dispatches.load_iff silent
    have taken : ((cycle k mem s i).p e).goal = (s.p e).goal ∪ s.fetchedCircle := by
      have positive : 0 < s.ticks k := ticks_pos (by omega)
      change (s.burst i e (s.ticks k)).goal = _
      rw [← Nat.sub_add_cancel positive, goal_burst_of_load ((load e).mpr rfl) rest,
        PlotPixel.goal_of_wait rest]
      rfl
    have same {j : Fin 12} (other : j ≠ e) : ((cycle k mem s i).p j).goal = (s.p j).goal :=
      goal_cycle (wf.engines j) (Bool.eq_false_iff.mpr fun hit => other ((load j).mp hit)) silent
    ext p
    simp only [goals, dispatches.dispatching, true_and, Set.mem_union, Set.mem_ofPred_eq]
    constructor
    · intro shown
      rcases shown with ⟨j, shown⟩
      by_cases here : j = e
      · rw [here, taken] at shown
        exact shown.imp_left fun old => ⟨e, old⟩
      · exact .inl ⟨j, same here ▸ shown⟩
    · intro shown
      rcases shown with ⟨j, old⟩ | new
      · by_cases here : j = e
        · exact ⟨e, taken ▸ .inl (here ▸ old)⟩
        · exact ⟨j, (same here).symm ▸ old⟩
      · exact ⟨e, taken ▸ .inr new⟩

theorem fetchedCircle_of_dispatches {n : ℕ} (dispatches : s.Dispatches mem base n) :
    s.fetchedCircle = circleAt mem base n := by
  rw [fetchedCircle, dispatches.fetched.newdx, dispatches.fetched.newdy, dispatches.fetched.newdr,
    circleAt]

/-! ## The refinement -/

/-- The coprocessor stands for the batcher. -/
structure StandsFor (mem : BitVec 18 → BitVec 32) (s : PlotCircle) (b : Batcher) : Prop where
  wf : s.WellFormed
  serving : Serving mem b.base s b.left
  goals : s.goals = b.picture

/-- Every period without a store is a step of the batcher. -/
theorem StandsFor.step {b : Batcher} (two : 2 ≤ k) (stands : StandsFor mem s b)
    (silent : i.stores = false) :
    ∃ b', Batcher.Step mem i b b' ∧ StandsFor mem (cycle k mem s i) b' := by
  have shown := goals_cycle two stands.serving stands.wf silent
  have wf : (cycle k mem s i).WellFormed := stands.wf.cycle
  rw [stands.goals] at shown
  cases start : i.writestart with
  | true =>
      rcases stands.serving.dispatches two with held | ⟨n, more, dispatches⟩
      · refine ⟨b.start i.stackaddr, ⟨b, .inl rfl, by rw [start]; rfl⟩, wf, .of_start start, ?_⟩
        rw [shown]
        simp [held, Batcher.start]
      · refine ⟨(b.draw mem).start i.stackaddr,
          ⟨b.draw mem, .inr ⟨by omega, rfl⟩, by rw [start]; rfl⟩, wf, .of_start start, ?_⟩
        rw [shown]
        simp [dispatches.dispatching, fetchedCircle_of_dispatches dispatches, Batcher.start,
          Batcher.draw, more]
  | false =>
      rcases stands.serving.step two start with ⟨held, serving⟩ | ⟨n, more, dispatches, serving⟩
      · refine ⟨b, ⟨b, .inl rfl, by rw [start]; rfl⟩, wf, serving, ?_⟩
        rw [shown]
        simp [held]
      · refine ⟨b.draw mem, ⟨b.draw mem, .inr ⟨by omega, rfl⟩, by rw [start]; rfl⟩, wf, ?_, ?_⟩
        · simpa [Batcher.draw, more] using serving
        · rw [shown]
          simp [dispatches.dispatching, fetchedCircle_of_dispatches dispatches, Batcher.draw, more]

theorem StandsFor.of_waiting {b : Batcher} (wf : s.WellFormed)
    (serving : Serving mem b.base s b.left) (rest : ∀ j, (s.p j).state = .wait)
    (picture : b.picture = lit s.screen) : StandsFor mem s b :=
  ⟨wf, serving, picture ▸ goals_of_waiting rest⟩

theorem StandsFor.of_reset (reset : s.Reset) : StandsFor mem s ⟨lit s.screen, 0, 0⟩ :=
  .of_waiting (.of_reset reset) (.idle ⟨reset.state, reset.offset⟩) (fun j => (reset.p j).state) rfl

/-- After a start write in any state that serves some batch. -/
theorem StandsFor.of_start (two : 2 ≤ k) (wf : s.WellFormed) (serving : Serving mem base s left)
    (start : i.writestart = true) : StandsFor mem (cycle k mem s i)
      ⟨s.goals ∪ {p | s.dispatching = true ∧ p ∈ s.fetchedCircle}, i.stackaddr, 50⟩ :=
  ⟨wf.cycle, .of_start start, goals_cycle two serving wf (stores_of_writestart start)⟩

/-- When the coprocessor is quiescent the batch is finished and its picture is shown. -/
theorem StandsFor.shows {b : Batcher} (stands : StandsFor mem s b) (done : s.Quiescent) :
    b.left = 0 ∧ lit s.screen = b.picture :=
  ⟨stands.serving.idle_iff.mp done.toIdle,
    goals_of_waiting done.engines ▸ stands.goals⟩

/-! ## Whole runs -/

section Runs

variable {ins : ℕ → BusIn} {N : ℕ}

/-- The coprocessor refines the batcher. In every run from reset without stores,
for any start writes and reads, the screen shows nothing the batcher has not
drawn, the controller is idle exactly when the batch is finished, and a
quiescent coprocessor shows the picture. -/
theorem run_refines_batcher (two : 2 ≤ k) (reset : s.Reset)
    (silent : ∀ n, (ins n).stores = false) :
    ∃ b : ℕ → Batcher, b 0 = ⟨lit s.screen, 0, 0⟩ ∧
      (∀ n, Batcher.Step mem (ins n) (b n) (b (n + 1))) ∧
      ∀ n, ((run k mem s ins n).Idle ↔ (b n).left = 0) ∧
        lit (run k mem s ins n).screen ⊆ (b n).picture ∧
        ((run k mem s ins n).Quiescent → lit (run k mem s ins n).screen = (b n).picture) := by
  obtain ⟨b, zero, steps, stands⟩ : ∃ b : ℕ → Batcher, b 0 = ⟨lit s.screen, 0, 0⟩ ∧
      (∀ n, Batcher.Step mem (ins n) (b n) (b (n + 1))) ∧
      ∀ n, StandsFor mem (run k mem s ins n) (b n) :=
    run_simulated (.of_reset reset) fun n _ _ stands => stands.step two (silent n)
  refine ⟨b, zero, steps, fun n => ⟨(stands n).serving.idle_iff, ?_, fun done => ?_⟩⟩
  · rw [← (stands n).goals]
    exact lit_screen_subset_goals _
  · exact ((stands n).shows done).2

/-- Until the next start write the coprocessor stands for batchers with one outcome. -/
theorem StandsFor.outcome_run {b : Batcher} (two : 2 ≤ k) (stands : StandsFor mem s b)
    (quiet : ∀ n, n < N → (ins n).writestart = false)
    (silent : ∀ n, n < N → (ins n).stores = false) :
    ∃ b', StandsFor mem (run k mem s ins N) b' ∧ b'.outcome mem = b.outcome mem :=
  run_invariant (P := fun t => ∃ b', StandsFor mem t b' ∧ b'.outcome mem = b.outcome mem)
    ⟨b, stands, rfl⟩
    (fun n t before h => by
      rcases h with ⟨c, stands, same⟩
      rcases stands.step (i := ins n) two (silent n before) with ⟨c', step, stands'⟩
      exact ⟨c', stands', (step.outcome (quiet n before)).trans same⟩)
    N (Nat.le_refl N)

theorem startOnly_stores (dx : BitVec 32) (n : ℕ) : (BusIn.startOnly dx n).stores = false := by
  cases n with
  | zero => exact stores_of_writestart rfl
  | succ n => exact (BusIn.startOnly_later dx (Nat.succ_pos n)).2

/-- A blank coprocessor with a start write in its first period. -/
theorem run_refines_batcher_startOnly :
    ∃ b : ℕ → Batcher, b 0 = ⟨lit blank.screen, 0, 0⟩ ∧
      (∀ n, Batcher.Step (fun _ => 200) (BusIn.startOnly 0 n) (b n) (b (n + 1))) ∧
      ∀ n, ((run 2 (fun _ => 200) blank (BusIn.startOnly 0) n).Idle ↔ (b n).left = 0) ∧
        lit (run 2 (fun _ => 200) blank (BusIn.startOnly 0) n).screen ⊆ (b n).picture ∧
        ((run 2 (fun _ => 200) blank (BusIn.startOnly 0) n).Quiescent →
          lit (run 2 (fun _ => 200) blank (BusIn.startOnly 0) n).screen = (b n).picture) :=
  run_refines_batcher (by decide) reset_blank (startOnly_stores 0)

/-- A period without a store erases nothing. -/
theorem lit_screen_subset_cycle (wf : s.WellFormed) (silent : i.stores = false) :
    lit s.screen ⊆ lit (cycle k mem s i).screen := by
  intro p shown
  rcases mem_lit_screen.mp shown with ⟨j, shown⟩
  exact mem_lit_screen.mpr ⟨j, PlotPixel.lit_subset_run
    (fun _ => by rw [pixelIn_store, silent]) (wf.engines j) (s.ticks k) shown⟩

/-- The screen in every cycle of every run from reset without stores, for any start
writes and reads: what it shows it goes on to show, and it shows nothing but what
was there and circles of batches that have been started. -/
theorem screen_grows (two : 2 ≤ k) (reset : s.Reset) (silent : ∀ n, (ins n).stores = false)
    {m n : ℕ} (order : m ≤ n) :
    lit (run k mem s ins m).screen ⊆ lit (run k mem s ins n).screen ∧
      lit (run k mem s ins n).screen ⊆ lit s.screen ∪
        {p | ∃ c, c < n ∧ (ins c).writestart = true ∧
          ∃ e, e < 50 ∧ p ∈ circleAt mem (ins c).stackaddr e} := by
  have wf (n : ℕ) : (run k mem s ins n).WellFormed :=
    run_always (.of_reset reset) (fun _ _ wf => wf.cycle) n
  have bound (n : ℕ) : ∃ b, StandsFor mem (run k mem s ins n) b ∧
      b.outcome mem ⊆ lit s.screen ∪ {p | ∃ c, c < n ∧ (ins c).writestart = true ∧
        ∃ e, e < 50 ∧ p ∈ circleAt mem (ins c).stackaddr e} := by
    induction n with
    | zero =>
        refine ⟨_, .of_reset reset, ?_⟩
        rw [Batcher.outcome_of_finished rfl]
        exact Set.subset_union_left
    | succ n ih =>
        rcases ih with ⟨b, stands, within⟩
        rcases stands.step (i := ins n) two (silent n) with ⟨b', step, stands'⟩
        refine ⟨b', stands', fun p planned => ?_⟩
        rcases step.outcome_subset planned with before | ⟨start, new⟩
        · rcases within before with old | ⟨c, earlier, older⟩
          · exact .inl old
          · exact .inr ⟨c, Nat.lt_succ_of_lt earlier, older⟩
        · exact .inr ⟨n, Nat.lt_succ_self n, start, new⟩
  constructor
  · induction n, order using Nat.le_induction with
    | base => exact subset_rfl
    | succ n _ ih => exact ih.trans (lit_screen_subset_cycle (wf n) (silent n))
  · rcases bound n with ⟨b, stands, within⟩
    intro p shown
    have goal := lit_screen_subset_goals _ shown
    rw [stands.goals] at goal
    exact within (.inl goal)

/-- From the fourth to the ninetieth period of a batch. -/
theorem screen_grows_startOnly :
    lit (run 2 (fun _ => 200) blank (BusIn.startOnly 0) 4).screen ⊆
        lit (run 2 (fun _ => 200) blank (BusIn.startOnly 0) 90).screen ∧
      lit (run 2 (fun _ => 200) blank (BusIn.startOnly 0) 90).screen ⊆ lit blank.screen ∪
        {p | ∃ c, c < 90 ∧ (BusIn.startOnly 0 c).writestart = true ∧
          ∃ e, e < 50 ∧ p ∈ circleAt (fun _ => 200) (BusIn.startOnly 0 c).stackaddr e} :=
  screen_grows (by decide) reset_blank (startOnly_stores 0) (by decide)

/-- A batch may be started while another is under way. When the coprocessor is
quiescent again the screen shows what the engines had been given, the circle
that the period of the start write dispatches, and the new batch; the circles of
the old batch that were not dispatched are lost. -/
theorem screen_after_start (two : 2 ≤ k) (reachable : Reachable k mem s)
    (start : (ins 0).writestart = true) (quiet : ∀ n, 0 < n → n < N → (ins n).writestart = false)
    (silent : ∀ n, 0 < n → n < N → (ins n).stores = false) (later : 0 < N)
    (done : (run k mem s ins N).Quiescent) :
    lit (run k mem s ins N).screen =
      s.goals ∪ {p | s.dispatching = true ∧ p ∈ s.fetchedCircle} ∪
        {p | ∃ n, n < 50 ∧ p ∈ circleAt mem (ins 0).stackaddr n} := by
  obtain ⟨N, rfl⟩ := Nat.exists_eq_succ_of_ne_zero (Nat.ne_of_gt later)
  rw [Nat.succ_eq_add_one, run_succ_eq] at done ⊢
  rcases reachable.serving two with ⟨base, left, serving⟩
  have first := StandsFor.of_start two reachable.wellFormed serving start
  rcases first.outcome_run (N := N) two (fun n before => quiet (n + 1) (by omega) (by omega))
    (fun n before => silent (n + 1) (by omega) (by omega)) with ⟨b, stands, same⟩
  rcases stands.shows done with ⟨finished, shown⟩
  rw [shown, ← Batcher.outcome_of_finished finished, same, Batcher.outcome]

/-- A second start write to a coprocessor that has been running for five periods. -/
theorem screen_after_start_second :
    ∃ N, 0 < N ∧
      lit (run 2 (fun _ => 200) (run 2 (fun _ => 200) blank (BusIn.startOnly 0) 5)
          (BusIn.startOnly 4) N).screen =
        (run 2 (fun _ => 200) blank (BusIn.startOnly 0) 5).goals ∪
          {p | (run 2 (fun _ => 200) blank (BusIn.startOnly 0) 5).dispatching = true ∧
            p ∈ (run 2 (fun _ => 200) blank (BusIn.startOnly 0) 5).fetchedCircle} ∪
          {p | ∃ n, n < 50 ∧ p ∈ circleAt (fun _ => 200) 4 n} := by
  have reachable : Reachable 2 (fun _ => 200) (run 2 (fun _ => 200) blank (BusIn.startOnly 0) 5) :=
    ⟨blank, BusIn.startOnly 0, 5, reset_blank, rfl⟩
  obtain ⟨N, later, settled⟩ : ∃ N, 0 < N ∧ ∀ n, N ≤ n → (run 2 (fun _ => 200)
      (run 2 (fun _ => 200) blank (BusIn.startOnly 0) 5) (BusIn.startOnly 4) n).Quiescent :=
    reachable.wellFormed.settles_after_start (by decide)
      fun n later => (BusIn.startOnly_later 4 later).1
  exact ⟨N, later, screen_after_start (by decide) reachable rfl
    (fun n after _ => (BusIn.startOnly_later 4 after).1)
    (fun n after _ => (BusIn.startOnly_later 4 after).2) later (settled N (Nat.le_refl N))⟩

end Runs

end PlotCircle

end CirclePlotter.FinalDesign
