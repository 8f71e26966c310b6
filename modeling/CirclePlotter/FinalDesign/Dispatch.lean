import CirclePlotter.FinalDesign.Termination

/-!
# Dispatch of a batch

A start write makes the controller fetch circles 49 to 0 and hand each to an
engine. While the words of circle `n` are fetched, circle `n + 1` is still in
`newdx`, `newdy`, `newdr` and is dispatched in between, so what an invariant has
to track is where the three words of a circle are.

* `Stage` is the invariant of the controller: its state, the offset and the
  words on the way, indexed by the number of circles that are not dispatched.
* `sound_cycle` is the invariant of the registered `ready_sync`: outside one
  period after the last dispatch, an engine it reports does wait.
* `InBatch.step` is the step lemma, `InBatch.schedule` the run lemma.
-/

namespace CirclePlotter.FinalDesign

open Sync

/-! ## The arrays in memory -/

section Arrays

variable (mem : BitVec 18 → BitVec 32) (base : BitVec 18) (n : ℕ)

/-- `dx[n]`, the array starting at byte address `base`. -/
def dxAt : BitVec 32 := mem (base + BitVec.ofNat 18 (4 * n))

/-- `dy[n]`; the arrays are contiguous, and `200 = 4 * 50`. -/
def dyAt : BitVec 32 := mem (base + 200 + BitVec.ofNat 18 (4 * n))

/-- `dr[n]`. -/
def drAt : BitVec 32 := mem (base + 400 + BitVec.ofNat 18 (4 * n))

end Arrays

/-- The offset at which the words of circle `n` are addressed. -/
def offsetAt (n : ℕ) : BitVec 10 := BitVec.ofNat 10 (4 * n)

theorem offsetAt_succ_sub (n : ℕ) : offsetAt (n + 1) - 4 = offsetAt n := by
  rw [offsetAt, Nat.mul_succ, BitVec.ofNat_add]
  exact BitVec.add_sub_cancel _ _

theorem setWidth_offsetAt {n : ℕ} (below : n < 50) :
    (offsetAt n).setWidth 18 = BitVec.ofNat 18 (4 * n) := by
  rw [offsetAt, BitVec.setWidth_ofNat_of_le_of_lt (by decide) (by omega)]

theorem offsetAt_not_neg {n : ℕ} (below : n < 50) : (offsetAt n).slt 0 = false := by
  revert n
  decide

theorem offsetAt_ne {n : ℕ} (below : n < 49) : offsetAt n ≠ 196 := by
  revert n
  decide

namespace PlotCircle

variable {k : ℕ} {mem : BitVec 18 → BitVec 32} {s : PlotCircle} {i : BusIn} {j : Fin 12}

/-! ## Soundness of `ready_sync` -/

/-- An engine reported in the next period waits there, unless it was loaded by
the single tick of a period in `WAIT`. -/
theorem sound_cycle (two : 2 ≤ k) (settles : s.state ≠ .wait ∨ s.dispatching = false)
    (ready : (cycle k mem s i).readySync j = true) :
    ((cycle k mem s i).p j).state = .wait := by
  have rest : (s.settled k i j).state = .wait := by
    simpa [cycle, PlotPixel.ready] using ready
  cases load : (s.pixelIn i j).load with
  | true =>
      have working : s.state ≠ .wait := by
        rcases settles with working | held
        · exact working
        · rw [(load_iff.mp load).1] at held
          cases held
      rw [settled_of_working two working, (burst_load load _).1] at rest
      cases rest
  | false =>
      rw [cycle_p (by omega), PlotPixel.tick_rest load rest]
      exact rest

/-! ## Stages of a batch -/

/-- What `newdx`, `newdy` and `newdr` hold after the edge. -/
def nextdx (s : PlotCircle) : BitVec 32 := if s.lstate = .readX then s.mreaddata else s.newdx
def nextdy (s : PlotCircle) : BitVec 32 := if s.lstate = .readY then s.mreaddata else s.newdy
def nextdr (s : PlotCircle) : BitVec 32 := if s.lstate = .readR then s.mreaddata else s.newdr

/-- The registers hold circle `n`. -/
structure Fetched (mem : BitVec 18 → BitVec 32) (base : BitVec 18) (s : PlotCircle) (n : ℕ) :
    Prop where
  newdx : s.newdx = dxAt mem base n
  newdy : s.newdy = dyAt mem base n
  newdr : s.newdr = drAt mem base n

/-- The registers hold circle `n` after the edge. -/
structure Arriving (mem : BitVec 18 → BitVec 32) (base : BitVec 18) (s : PlotCircle) (n : ℕ) :
    Prop where
  nextdx : s.nextdx = dxAt mem base n
  nextdy : s.nextdy = dyAt mem base n
  nextdr : s.nextdr = drAt mem base n

/-- Where the controller is while `left` circles are not dispatched. From
`radius` on, circle `left - 1` is in the registers or on the way to them. -/
inductive Stage (mem : BitVec 18 → BitVec 32) (base : BitVec 18) (s : PlotCircle) : ℕ → Prop
  | firstX : s.state = .readX → s.offset = offsetAt 49 → Stage mem base s 50
  | firstY : s.state = .readY → s.offset = offsetAt 49 → s.nextdx = dxAt mem base 49 →
    Stage mem base s 50
  | radius (n : ℕ) : n < 50 → s.state = .readR → s.offset = offsetAt n →
    s.nextdx = dxAt mem base n → s.nextdy = dyAt mem base n → Stage mem base s (n + 1)
  | block (n : ℕ) : n < 50 → s.state = .block → s.offset = offsetAt n →
    s.Arriving mem base n → Stage mem base s (n + 1)
  | nextX (n : ℕ) : n < 50 → s.state = .readX → s.offset = offsetAt n - 4 →
    s.Arriving mem base n → (∃ j, (s.p j).state = .wait) → Stage mem base s (n + 1)
  | nextY (n : ℕ) : n < 49 → s.state = .readY → s.offset = offsetAt n →
    s.Fetched mem base (n + 1) → s.nextdx = dxAt mem base n → (∃ j, s.readySync j = true) →
    Stage mem base s (n + 2)
  | last : s.state = .wait → s.offset = offsetAt 0 - 4 → s.Fetched mem base 0 →
    (∃ j, s.readySync j = true) → Stage mem base s 1
  | done : s.Idle → Stage mem base s 0

/-- A batch whose arrays start at `base`, with `left` circles not dispatched. -/
structure InBatch (mem : BitVec 18 → BitVec 32) (base : BitVec 18) (left : ℕ) (s : PlotCircle) :
    Prop where
  stage : s.Stage mem base left
  basex : s.basex = base
  basey : s.basey = base + 200
  baser : s.baser = base + 400
  sound : left ≠ 0 → ∀ j, s.readySync j = true → (s.p j).state = .wait

/-- The start write of an idle coprocessor begins a batch. -/
theorem InBatch.of_start (two : 2 ≤ k) (idle : s.Idle) (start : i.writestart = true) :
    InBatch mem i.stackaddr 50 (cycle k mem s i) where
  stage := .firstX (by simp [cycle, start]) (by simp [cycle, start, offsetAt])
  basex := by simp [cycle, start]
  basey := by simp [cycle, start]
  baser := by simp [cycle, start]
  sound _ _ := sound_cycle two (.inr (by simp [dispatching, idle.offset]))

/-! ## One period of a batch -/

section Period

variable {base : BitVec 18} {left n : ℕ}

/-- The word addressed in `READX` is on the master port in the next period. -/
theorem nextdx_of_readX (batch : InBatch mem base left s) (below : n < 50)
    (state : s.state = .readX) (offset : s.offset = offsetAt n) :
    (cycle k mem s i).nextdx = dxAt mem base n := by
  simp [nextdx, cycle, control, state, offset, dxAt, batch.basex, setWidth_offsetAt below]

theorem nextdy_of_readY (batch : InBatch mem base left s) (below : n < 50)
    (state : s.state = .readY) (offset : s.offset = offsetAt n) :
    (cycle k mem s i).nextdy = dyAt mem base n := by
  simp [nextdy, cycle, control, state, offset, dyAt, batch.basey, setWidth_offsetAt below]

theorem nextdr_of_readR (batch : InBatch mem base left s) (below : n < 50)
    (state : s.state = .readR) (offset : s.offset = offsetAt n) :
    (cycle k mem s i).nextdr = drAt mem base n := by
  have reads : s.control.mread = true ∧
      s.control.maddress = base + 400 + BitVec.ofNat 18 (4 * n) := by
    simp only [control, state, offset, batch.baser, setWidth_offsetAt below]
    split <;> exact ⟨rfl, rfl⟩
  simp [nextdr, cycle, state, reads, drAt]

theorem fetched_cycle (arriving : s.Arriving mem base n) :
    (cycle k mem s i).Fetched mem base n :=
  ⟨arriving.nextdx, arriving.nextdy, arriving.nextdr⟩

theorem nextdx_cycle (state : s.state ≠ .readX) : (cycle k mem s i).nextdx = s.nextdx :=
  if_neg state

theorem nextdy_cycle (state : s.state ≠ .readY) : (cycle k mem s i).nextdy = s.nextdy :=
  if_neg state

theorem nextdr_cycle (state : s.state ≠ .readR) : (cycle k mem s i).nextdr = s.nextdr :=
  if_neg state

theorem InBatch.grant (below : n < 50) (batch : InBatch mem base (n + 1) s)
    (state : s.state = .readR ∨ s.state = .block) (offset : s.offset = offsetAt n)
    (arriving : (cycle k mem s i).Arriving mem base n)
    (quiet : i.writestart = false) : (cycle k mem s i).Stage mem base (n + 1) := by
  obtain ⟨next, nextOffset⟩ := state_cycle k mem s quiet
  rcases s.cselect_cases with ⟨none, -⟩ | ⟨j, hot, ready⟩
  · obtain ⟨blocked, same⟩ := control_block state none
    exact .block n below (next.trans blocked) (by rw [nextOffset, same, offset]) arriving
  · obtain ⟨granted, minus⟩ := control_grant state (hot ▸ oneHot_ne_zero j)
    have free : ((cycle k mem s i).p j).state = .wait :=
      (wait_cycle (by rw [pixelIn_load, dispatching_of_grant state]; rfl)
        (batch.sound (by omega) j ready)).2
    exact .nextX n below (next.trans granted) (by rw [nextOffset, minus, offset]) arriving
      ⟨j, free⟩

/-- The three words of circle `n` are in their registers and an engine takes it. -/
structure Dispatches (mem : BitVec 18 → BitVec 32) (base : BitVec 18) (s : PlotCircle) (n : ℕ) :
    Prop where
  dispatching : s.dispatching = true
  fetched : s.Fetched mem base n
  engine : ∃ j, s.cselect = 1#12 <<< j.val ∧ (s.p j).state = .wait

/-- One period of a batch without start writes either dispatches no circle or
the next one. -/
theorem Stage.step (batch : InBatch mem base left s) (quiet : i.writestart = false) :
    s.dispatching = false ∧ (cycle k mem s i).Stage mem base left ∨
      ∃ n, left = n + 1 ∧ s.Dispatches mem base n ∧ (cycle k mem s i).Stage mem base n := by
  obtain ⟨next, nextOffset⟩ := state_cycle k mem s quiet
  have selects (some : ∃ j, s.readySync j = true) (left_ne : left ≠ 0) :
      ∃ j, s.cselect = 1#12 <<< j.val ∧ (s.p j).state = .wait := by
    obtain ⟨j, ready⟩ := some
    rcases s.cselect_cases with ⟨-, none⟩ | ⟨j', hot, ready'⟩
    · rw [none j] at ready
      cases ready
    · exact ⟨j', hot, batch.sound left_ne j' ready'⟩
  cases batch.stage with
  | firstX state offset =>
      have below := offsetAt_not_neg (n := 49) (by decide)
      refine .inl ⟨by simp [dispatching, state], .firstY ?_ ?_ ?_⟩
      · rw [next]
        simp only [control, state, offset, below, Bool.false_eq_true, if_false]
      · rw [nextOffset, ← offset]
        simp only [control, state]
      · exact nextdx_of_readX batch (by decide) state offset
  | firstY state offset nextdx =>
      refine .inl ⟨by simp [dispatching, state, offset, offsetAt],
        .radius 49 (by decide) ?_ ?_ ?_ ?_⟩
      · rw [next]
        simp only [control, state]
      · rw [nextOffset, ← offset]
        simp only [control, state]
      · rw [nextdx_cycle (by simp [state]), nextdx]
      · exact nextdy_of_readY batch (by decide) state offset
  | radius n below state offset nextdx nextdy =>
      refine .inl ⟨dispatching_of_grant (.inl state),
        batch.grant below (.inl state) offset ⟨?_, ?_, ?_⟩ quiet⟩
      · rw [nextdx_cycle (by simp [state]), nextdx]
      · rw [nextdy_cycle (by simp [state]), nextdy]
      · exact nextdr_of_readR batch below state offset
  | block n below state offset arriving =>
      refine .inl ⟨dispatching_of_grant (.inr state),
        batch.grant below (.inr state) offset ⟨?_, ?_, ?_⟩ quiet⟩
      · rw [nextdx_cycle (by simp [state]), arriving.nextdx]
      · rw [nextdy_cycle (by simp [state]), arriving.nextdy]
      · rw [nextdr_cycle (by simp [state]), arriving.nextdr]
  | nextX n below state offset arriving some =>
      obtain ⟨j, rest⟩ := some
      have held : s.dispatching = false := by simp [dispatching, state]
      have free : ∃ j, (cycle k mem s i).readySync j = true :=
        ⟨j, (wait_cycle (by rw [pixelIn_load, held]; rfl) rest).1⟩
      refine .inl ⟨held, ?_⟩
      cases n with
      | zero =>
          refine .last ?_ ?_ (fetched_cycle arriving) free
          · rw [next]
            simp [control, state, offset, offsetAt]
          · rw [nextOffset, ← offset]
            simp only [control, state]
      | succ n =>
          rw [offsetAt_succ_sub] at offset
          refine .nextY n (by omega) ?_ ?_ (fetched_cycle arriving) ?_ free
          · rw [next]
            simp only [control, state, offset, offsetAt_not_neg (by omega : n < 50),
              Bool.false_eq_true, if_false]
          · rw [nextOffset, ← offset]
            simp only [control, state]
          · exact nextdx_of_readX batch (by omega) state offset
  | nextY n below state offset fetched nextdx some =>
      refine .inr ⟨n + 1, rfl, ⟨?_, fetched, selects some (by omega)⟩,
        .radius n (by omega) ?_ ?_ ?_ ?_⟩
      · simpa [dispatching, state, offset] using offsetAt_ne below
      · rw [next]
        simp only [control, state]
      · rw [nextOffset, ← offset]
        simp only [control, state]
      · rw [nextdx_cycle (by simp [state]), nextdx]
      · exact nextdy_of_readY batch (by omega) state offset
  | last state offset fetched some =>
      refine .inr ⟨0, rfl, ⟨?_, fetched, selects some (by omega)⟩, .done ⟨?_, ?_⟩⟩
      · simp [dispatching, state, offset, offsetAt]
      · rw [next]
        simp only [control, state]
      · rw [nextOffset]
        simp only [control, state]
  | done idle =>
      refine .inl ⟨by simp [dispatching, idle.offset], .done ⟨?_, ?_⟩⟩
      · rw [next]
        simp only [control, idle.state]
      · rw [nextOffset]
        simp only [control, idle.state]

/-- The controller is in `WAIT` only for the last dispatch and after it. -/
theorem Stage.state_ne_wait (stage : Stage mem base s left) (several : 2 ≤ left) :
    s.state ≠ .wait := by
  cases stage <;> simp_all

/-- The invariant of a batch, one period further. -/
theorem InBatch.step (two : 2 ≤ k) (batch : InBatch mem base left s)
    (quiet : i.writestart = false) :
    s.dispatching = false ∧ InBatch mem base left (cycle k mem s i) ∨
      ∃ n, left = n + 1 ∧ s.Dispatches mem base n ∧ InBatch mem base n (cycle k mem s i) := by
  have basex : (cycle k mem s i).basex = base := by simp [cycle, quiet, batch.basex]
  have basey : (cycle k mem s i).basey = base + 200 := by simp [cycle, quiet, batch.basey]
  have baser : (cycle k mem s i).baser = base + 400 := by simp [cycle, quiet, batch.baser]
  rcases Stage.step (k := k) batch quiet with ⟨held, stage⟩ | ⟨n, rfl, dispatches, stage⟩
  · exact .inl ⟨held, stage, basex, basey, baser, fun _ _ => sound_cycle two (.inr held)⟩
  · refine .inr ⟨n, rfl, dispatches, stage, basex, basey, baser, fun more _ => ?_⟩
    exact sound_cycle two (.inl (batch.stage.state_ne_wait (by omega)))

end Period

/-! ## A whole batch -/

section Batch

variable {base : BitVec 18} {left n N : ℕ} {ins : ℕ → BusIn}

/-- An idle controller has nothing left to dispatch. -/
theorem InBatch.left_eq_zero (batch : InBatch mem base left s) (idle : s.Idle) : left = 0 := by
  cases batch.stage with
  | last state offset => simp [idle.offset, offsetAt] at offset
  | done => rfl
  | _ => simp_all [idle.state]

/-- The engine the arbiter selected, for a period that dispatches. -/
theorem Dispatches.load_iff (dispatches : s.Dispatches mem base n) (silent : i.stores = false) :
    ∃ e, (s.p e).state = .wait ∧ ∀ j, (s.pixelIn i j).load = true ↔ j = e := by
  obtain ⟨e, hot, rest⟩ := dispatches.engine
  refine ⟨e, rest, fun j => ?_⟩
  rw [PlotCircle.load_iff, dispatches.dispatching, silent, hot, oneHot_inj]
  simp [eq_comm]

/-- In the periods before `N` exactly the circles below `left` are dispatched,
downwards and one by one: circle `n` in period `t n` to the waiting engine `e n`. -/
structure Schedule (k : ℕ) (mem : BitVec 18 → BitVec 32) (base : BitVec 18) (s : PlotCircle)
    (ins : ℕ → BusIn) (N left : ℕ) (t : ℕ → ℕ) (e : ℕ → Fin 12) : Prop where
  order : ∀ n n', n < n' → n' < left → t n' < t n
  before : ∀ n, n < left → t n < N
  fetched : ∀ n, n < left → (run k mem s ins (t n)).Fetched mem base n
  rest : ∀ n, n < left → ((run k mem s ins (t n)).p (e n)).state = .wait
  load_iff : ∀ c j, c < N → (((run k mem s ins c).pixelIn (ins c) j).load = true ↔
    ∃ n, n < left ∧ c = t n ∧ j = e n)

variable {t : ℕ → ℕ} {e : ℕ → Fin 12}

/-- A period that dispatches nothing goes in front of a schedule. -/
theorem Schedule.after_held (held : s.dispatching = false)
    (schedule : Schedule k mem base (cycle k mem s (ins 0)) (fun n => ins (n + 1)) N left t e) :
    Schedule k mem base s ins (N + 1) left (fun n => t n + 1) e where
  order n n' less within := Nat.succ_lt_succ (schedule.order n n' less within)
  before n within := Nat.succ_lt_succ (schedule.before n within)
  fetched n within := by
    rw [run_succ_eq]
    exact schedule.fetched n within
  rest n within := by
    rw [run_succ_eq]
    exact schedule.rest n within
  load_iff c j before := by
    cases c with
    | zero => simp [pixelIn_load, held]
    | succ c => simpa [run_succ_eq] using schedule.load_iff c j (by omega)

/-- A period that dispatches circle `n` goes in front of a schedule of the circles below. -/
theorem Schedule.after_dispatch (dispatches : s.Dispatches mem base n)
    (silent : (ins 0).stores = false)
    (schedule : Schedule k mem base (cycle k mem s (ins 0)) (fun n => ins (n + 1)) N n t e) :
    ∃ first, Schedule k mem base s ins (N + 1) (n + 1)
      (fun m => if m = n then 0 else t m + 1) (fun m => if m = n then first else e m) := by
  obtain ⟨first, rest, load⟩ := dispatches.load_iff silent
  have later {m : ℕ} (within : m < n + 1) (other : m ≠ n) : m < n := by omega
  refine ⟨first, ?_, ?_, ?_, ?_, ?_⟩
  · intro m m' less within
    rw [if_neg (by omega : m ≠ n)]
    split
    · omega
    · next other => exact Nat.succ_lt_succ (schedule.order m m' less (later within other))
  · intro m within
    split
    · omega
    · next other => exact Nat.succ_lt_succ (schedule.before m (later within other))
  · intro m within
    split
    · next same => exact same ▸ dispatches.fetched
    · next other =>
        rw [run_succ_eq]
        exact schedule.fetched m (later within other)
  · intro m within
    by_cases same : m = n
    · subst same
      simp only [if_true]
      exact rest
    · simp only [same, if_false, run_succ_eq]
      exact schedule.rest m (later within same)
  · intro c j before
    cases c with
    | zero =>
        refine (load j).trans ⟨fun hit => ⟨n, by omega, by simp, by simpa using hit⟩, ?_⟩
        intro scheduled
        rcases scheduled with ⟨m, -, time, hit⟩
        split at time
        · next same => simpa [same] using hit
        · omega
    | succ c =>
        rw [run_succ_eq, schedule.load_iff c j (by omega)]
        refine ⟨?_, ?_⟩
        · intro scheduled
          rcases scheduled with ⟨m, within, rfl, rfl⟩
          exact ⟨m, by omega, by rw [if_neg (by omega)], by rw [if_neg (by omega)]⟩
        · intro scheduled
          rcases scheduled with ⟨m, within, time, hit⟩
          have other : m ≠ n := by
            intro same
            simp [same] at time
          rw [if_neg other] at time hit
          exact ⟨m, later within other, by omega, hit⟩

/-- From any stage on, the circles that are left are dispatched. -/
theorem InBatch.schedule (two : 2 ≤ k) (batch : InBatch mem base left s)
    (quiet : ∀ n, n < N → (ins n).writestart = false)
    (silent : ∀ n, n < N → (ins n).stores = false) (idle : (run k mem s ins N).Idle) :
    ∃ t e, Schedule k mem base s ins N left t e := by
  induction N generalizing s ins left with
  | zero =>
      obtain rfl := batch.left_eq_zero idle
      exact ⟨fun _ => 0, fun _ => 0, by omega, by omega, by omega, by omega, by omega⟩
  | succ N ih =>
      rw [run_succ_eq] at idle
      have rest (left : ℕ) (batch' : InBatch mem base left (cycle k mem s (ins 0))) :=
        ih batch' (fun n before => quiet (n + 1) (by omega))
          (fun n before => silent (n + 1) (by omega)) idle
      rcases batch.step two (quiet 0 (by omega)) with ⟨held, batch'⟩ | ⟨n, rfl, dispatches, batch'⟩
      · obtain ⟨t, e, schedule⟩ := rest left batch'
        exact ⟨_, _, schedule.after_held held⟩
      · obtain ⟨t, e, schedule⟩ := rest n batch'
        obtain ⟨first, schedule'⟩ := schedule.after_dispatch dispatches (silent 0 (by omega))
        exact ⟨_, _, schedule'⟩

/-- Dispatch is exactly-once and never interrupts a drawing: from the start write
in an idle controller to its return, circle `n` is dispatched in period `t n`
only, to engine `e n` only, which waits when the period begins and latches the
three words of circle `n` at every edge of the period; nothing else is loaded. -/
theorem dispatches_exactly_once (two : 2 ≤ k) (idle : s.Idle)
    (start : (ins 0).writestart = true) (quiet : ∀ n, 0 < n → n < N → (ins n).writestart = false)
    (silent : ∀ n, 0 < n → n < N → (ins n).stores = false) (later : 0 < N)
    (back : (run k mem s ins N).Idle) :
    ∃ t e, Schedule k mem (ins 0).stackaddr s ins N 50 t e ∧
      ∀ n, n < 50 → ∀ m, m < (run k mem s ins (t n)).ticks k →
        let latched := (run k mem s ins (t n)).burst (ins (t n)) (e n) (m + 1)
        latched.rx = (dxAt mem (ins 0).stackaddr n).setWidth 9 ∧
        latched.ry = (dyAt mem (ins 0).stackaddr n).setWidth 9 ∧
        latched.radius = (drAt mem (ins 0).stackaddr n).setWidth 8 := by
  obtain ⟨N, rfl⟩ := Nat.exists_eq_succ_of_ne_zero (Nat.ne_of_gt later)
  have held : s.dispatching = false := by simp [dispatching, idle.offset]
  rw [Nat.succ_eq_add_one, run_succ_eq] at back
  have batch : InBatch mem (ins 0).stackaddr 50 (cycle k mem s (ins 0)) := .of_start two idle start
  obtain ⟨t, e, schedule⟩ := batch.schedule two
    (fun n before => quiet (n + 1) (by omega) (by omega))
    (fun n before => silent (n + 1) (by omega) (by omega)) back
  have whole := schedule.after_held held
  refine ⟨_, e, whole, fun n within m _ => ?_⟩
  have load := (whole.load_iff _ (e n) (whole.before n within)).mpr ⟨n, within, rfl, rfl⟩
  have words := whole.fetched n within
  have latched := registers_burst_load load m
  rw [words.newdx, words.newdy, words.newdr] at latched
  exact latched

/-- Fifty circles with the words 200, dispatched to a blank coprocessor. -/
theorem dispatches_exactly_once_const :
    ∃ N t e, Schedule 2 (fun _ => 200) 0 blank (BusIn.startOnly 0) N 50 t e ∧
      ∀ n, n < 50 → ∀ m,
        m < (run 2 (fun _ => 200) blank (BusIn.startOnly 0) (t n)).ticks 2 →
        let latched := (run 2 (fun _ => 200) blank (BusIn.startOnly 0) (t n)).burst
          (BusIn.startOnly 0 (t n)) (e n) (m + 1)
        latched.rx = 200 ∧ latched.ry = 200 ∧ latched.radius = 200 := by
  obtain ⟨N, later, settled⟩ : ∃ N, 0 < N ∧ ∀ n, N ≤ n →
      (run 2 (fun _ => 200) blank (BusIn.startOnly 0) n).Quiescent :=
    (WellFormed.of_quiescent quiescent_blank).settles_after_start (by decide)
      fun n later => (BusIn.startOnly_later 0 later).1
  obtain ⟨t, e, schedule⟩ := dispatches_exactly_once (by decide) quiescent_blank.toIdle rfl
    (fun n after _ => (BusIn.startOnly_later 0 after).1)
    (fun n after _ => (BusIn.startOnly_later 0 after).2) later (settled N (Nat.le_refl N)).toIdle
  exact ⟨N, t, e, schedule⟩

end Batch

end PlotCircle

end CirclePlotter.FinalDesign
