import CirclePlotter.FinalDesign.Cycle
import Mathlib.Algebra.Order.BigOperators.Group.Finset
import Mathlib.Data.Fintype.BigOperators

/-!
# Every batch ends

Without further start writes the coprocessor becomes quiescent, from every
reachable state and for every memory. The measure is lexicographic: the offset
that counts down, then the fetch state, then the ticks the engines still draw
together with whether the arbiter has nothing to select. Reads and stores change
none of the three.
-/

namespace CirclePlotter.FinalDesign

open Sync

namespace PlotCircle

variable {k : ℕ} {mem : BitVec 18 → BitVec 32} {s : PlotCircle} {i : BusIn} {j : Fin 12}

/-! ## An invariant of all reachable states -/

/-- The engines are valid, and past `READX` the offset is not negative. -/
structure WellFormed (s : PlotCircle) : Prop where
  engines : ∀ j, (s.p j).Valid
  offset : s.state ≠ .wait → s.state ≠ .readX → s.offset.slt 0 = false

theorem WellFormed.of_reset (reset : s.Reset) : s.WellFormed where
  engines j := .of_wait (reset.p j).state
  offset working := absurd reset.state working

theorem WellFormed.of_quiescent (idle : s.Quiescent) : s.WellFormed where
  engines j := .of_wait (idle.engines j)
  offset working := absurd idle.state working

theorem WellFormed.cycle (wf : s.WellFormed) : (cycle k mem s i).WellFormed where
  engines j := valid_burst (wf.engines j) _
  offset := by
    cases start : i.writestart with
    | true => simp [PlotCircle.cycle, start]
    | false =>
        obtain ⟨next, nextOffset⟩ := state_cycle k mem s start
        rw [next, nextOffset]
        have kept := wf.offset
        intro working beyond
        cases state : s.state with
        | wait => simp [control, state] at working
        | readX =>
            simp only [control, state] at working ⊢
            split at working
            · exact absurd rfl working
            · next nonneg => simpa using nonneg
        | readY =>
            simp only [control, state]
            exact kept (by simp [state]) (by simp [state])
        | readR | block =>
            have waiting : s.state = .readR ∨ s.state = .block := by simp [state]
            by_cases none : s.cselect = 0
            · rw [(control_block waiting none).2]
              exact kept (by simp [state]) (by simp [state])
            · exact absurd (control_grant waiting none).1 beyond

theorem WellFormed.run (wf : s.WellFormed) (k : ℕ) (mem : BitVec 18 → BitVec 32) (ins : ℕ → BusIn)
    (n : ℕ) :
    (run k mem s ins n).WellFormed :=
  run_always (P := WellFormed) wf (fun _ _ => WellFormed.cycle) n

theorem Reachable.wellFormed (reachable : Reachable k mem s) : s.WellFormed := by
  obtain ⟨s₀, ins, n, reset, rfl⟩ := reachable
  exact (WellFormed.of_reset reset).run k mem ins n

/-! ## The engines' share of the measure -/

/-- The ticks all engines still need. -/
def work (s : PlotCircle) : ℕ := ∑ j, (s.p j).ticksLeft

theorem work_eq_zero_iff : s.work = 0 ↔ ∀ j, (s.p j).state = .wait := by
  simp [work, PlotPixel.ticksLeft_eq_zero_iff]

/-- In a period without loads every drawing engine comes closer to `WAIT`. -/
theorem work_cycle_lt (positive : 0 < k) (wf : s.WellFormed) (held : s.dispatching = false)
    (busy : s.work ≠ 0) : (cycle k mem s i).work < s.work := by
  have ticks : 0 < s.ticks k := ticks_pos positive
  have left (j : Fin 12) : ((cycle k mem s i).p j).ticksLeft = (s.p j).ticksLeft - s.ticks k :=
    ticksLeft_burst (wf.engines j) (by rw [pixelIn_load, held]; rfl) _
  obtain ⟨j, -, drawing⟩ := Finset.exists_ne_zero_of_sum_ne_zero busy
  refine Finset.sum_lt_sum (fun j _ => ?_) ⟨j, Finset.mem_univ j, ?_⟩
  · rw [left]
    exact Nat.sub_le _ _
  · rw [left]
    omega

/-- What drops while the controller stays where it is: the ticks left, and last
the period in which the arbiter does not know yet that an engine waits. -/
def patience (s : PlotCircle) : ℕ := 2 * s.work + if s.cselect = 0 then 1 else 0

theorem patience_cycle_lt (positive : 0 < k) (wf : s.WellFormed) (held : s.dispatching = false)
    (waiting : s.work ≠ 0 ∨ s.cselect = 0) : (cycle k mem s i).patience < s.patience := by
  have quiet (j : Fin 12) : (s.pixelIn i j).load = false := by
    rw [pixelIn_load, held]
    rfl
  by_cases busy : s.work = 0
  · have none : s.cselect = 0 := by simpa [busy] using waiting
    have rest := work_eq_zero_iff.mp busy
    have done : (cycle k mem s i).work = 0 :=
      work_eq_zero_iff.mpr fun j => (wait_cycle (quiet j) (rest j)).2
    have some : (cycle k mem s i).cselect ≠ 0 := fun zero => by
      have unseen := cselect_eq_zero_iff.mp zero 0
      rw [(wait_cycle (quiet 0) (rest 0)).1] at unseen
      cases unseen
    rw [patience, patience, done, busy, if_pos none, if_neg some]
    decide
  · have less : (cycle k mem s i).work < s.work := work_cycle_lt positive wf held busy
    unfold patience
    split <;> split <;> omega

/-! ## The measure -/

/-- The controller's way to `WAIT` with offset 196: every trip through the fetch
states takes 4 off the signed offset, and a negative one leaves them. -/
def countdown (s : PlotCircle) : ℕ :=
  match s.state with
  | .wait => if s.offset = 196 then 0 else 1
  | _ => (s.offset.toInt + 514).toNat

/-- The periods of one trip that are still to come, blocked ones not counted. -/
def FetchState.toGo : FetchState → ℕ
  | .readX => 3
  | .readY => 2
  | .readR => 1
  | .block | .wait => 0

def rank (s : PlotCircle) : ℕ × ℕ × ℕ := (s.countdown, FetchState.toGo s.state, s.patience)

/-- The order of the measure. -/
abbrev RankLt : ℕ × ℕ × ℕ → ℕ × ℕ × ℕ → Prop :=
  Prod.Lex (· < ·) (Prod.Lex (· < ·) (· < ·))

theorem rankLt_wf : WellFounded RankLt :=
  WellFounded.prod_lex wellFounded_lt (WellFounded.prod_lex wellFounded_lt wellFounded_lt)

theorem countdown_of_working (working : s.state ≠ .wait) :
    s.countdown = (s.offset.toInt + 514).toNat := by
  cases state : s.state <;> simp_all [countdown]

theorem two_le_countdown (working : s.state ≠ .wait) : 2 ≤ s.countdown := by
  have low := BitVec.le_toInt s.offset
  rw [countdown_of_working working]
  omega

/-- The subtraction of a grant does not wrap. -/
theorem toInt_sub_four {z : BitVec 10} (nonneg : z.slt 0 = false) :
    (z - 4).toInt = z.toInt - 4 := by
  have above : 0 ≤ z.toInt := by simpa [BitVec.slt] using nonneg
  have high := BitVec.toInt_lt (x := z)
  have four : (4 : BitVec 10).toInt = 4 := rfl
  rw [toInt_sub_of_fits] <;> rw [four] <;> omega

/-- In every period that is not quiescent the measure drops. -/
theorem rank_cycle_lt (positive : 0 < k) (wf : s.WellFormed) (quiet : i.writestart = false)
    (busy : ¬ s.Quiescent) : RankLt (cycle k mem s i).rank s.rank := by
  obtain ⟨next, nextOffset⟩ := state_cycle k mem s quiet
  have waits (held : s.dispatching = false) (waiting : s.work ≠ 0 ∨ s.cselect = 0)
      (same : (cycle k mem s i).countdown = s.countdown)
      (sameState : (cycle k mem s i).state = s.state) :
      RankLt (cycle k mem s i).rank s.rank := by
    rw [rank, rank, same, sameState]
    exact .right _ (.right _ (patience_cycle_lt positive wf held waiting))
  have later (working : (cycle k mem s i).state ≠ .wait)
      (same : (cycle k mem s i).offset = s.offset)
      (less : FetchState.toGo (cycle k mem s i).state < FetchState.toGo s.state) :
      RankLt (cycle k mem s i).rank s.rank := by
    have before : s.state ≠ .wait := by
      intro rest
      rw [rest] at less
      exact Nat.not_lt_zero _ less
    rw [rank, rank, countdown_of_working working, countdown_of_working before, same]
    exact .right _ (.left _ _ less)
  have grants (waiting : s.state = .readR ∨ s.state = .block) (some : s.cselect ≠ 0) :
      RankLt (cycle k mem s i).rank s.rank := by
    have working : s.state ≠ .wait := by rcases waiting with state | state <;> simp [state]
    have beyond : s.state ≠ .readX := by rcases waiting with state | state <;> simp [state]
    obtain ⟨granted, minus⟩ := control_grant waiting some
    have low := BitVec.le_toInt s.offset
    refine .left _ _ ?_
    rw [countdown_of_working (by simp [next, granted]), countdown_of_working working,
      nextOffset, minus, toInt_sub_four (wf.offset working beyond)]
    omega
  cases state : s.state with
  | wait =>
      have next' : (cycle k mem s i).state = .wait ∧ (cycle k mem s i).offset = 196 := by
        rw [next, nextOffset]
        simp only [control, state, and_self]
      have zero : (cycle k mem s i).countdown = 0 := by simp only [countdown, next', if_true]
      by_cases idle : s.offset = 196
      · have drawing : s.work ≠ 0 := fun none =>
          busy ⟨⟨state, idle⟩, work_eq_zero_iff.mp none⟩
        refine waits (by simp [dispatching, idle]) (.inl drawing) ?_ (next'.1.trans state.symm)
        rw [zero]
        simp only [countdown, state, idle, if_true]
      · refine .left _ _ ?_
        rw [zero]
        simp only [countdown, state, idle, if_false]
        decide
  | readX =>
      cases sign : s.offset.slt 0 with
      | true =>
          have two := two_le_countdown (s := s) (by simp [state])
          refine .left _ _ (Nat.lt_of_lt_of_le ?_ two)
          have left : (cycle k mem s i).state = .wait := by
            rw [next]
            simp only [control, state, sign, if_true]
          simp only [countdown, left]
          split <;> decide
      | false =>
          have fetch : (cycle k mem s i).state = .readY ∧ (cycle k mem s i).offset = s.offset := by
            rw [next, nextOffset]
            simp only [control, state, sign, Bool.false_eq_true, if_false, and_self]
          exact later (by simp [fetch]) fetch.2 (by simp [fetch, state, FetchState.toGo])
  | readY =>
      have fetch : (cycle k mem s i).state = .readR ∧ (cycle k mem s i).offset = s.offset := by
        rw [next, nextOffset]
        simp only [control, state, and_self]
      exact later (by simp [fetch]) fetch.2 (by simp [fetch, state, FetchState.toGo])
  | readR =>
      by_cases none : s.cselect = 0
      · obtain ⟨blocked, same⟩ := control_block (.inl state) none
        rw [← next] at blocked
        exact later (by simp [blocked]) (nextOffset.trans same)
          (by simp [blocked, state, FetchState.toGo])
      · exact grants (.inl state) none
  | block =>
      by_cases none : s.cselect = 0
      · obtain ⟨blocked, same⟩ := control_block (.inr state) none
        rw [← next] at blocked
        refine waits (dispatching_of_grant (.inr state)) (.inr none) ?_ (blocked.trans state.symm)
        rw [countdown_of_working (by simp [blocked]), countdown_of_working (by simp [state]),
          nextOffset, same]
      · exact grants (.inr state) none

/-- A quiescent coprocessor stays quiescent. -/
theorem Quiescent.cycle (done : s.Quiescent) (quiet : i.writestart = false) :
    (cycle k mem s i).Quiescent := by
  obtain ⟨next, nextOffset⟩ := state_cycle k mem s quiet
  have held : s.dispatching = false := by simp [dispatching, done.offset]
  refine ⟨⟨?_, ?_⟩, fun j => (wait_cycle (by rw [pixelIn_load, held]; rfl) (done.engines j)).2⟩
  · rw [next]
    simp only [control, done.state]
  · rw [nextOffset]
    simp only [control, done.state]

/-- Without start writes a well-formed coprocessor becomes quiescent for good. -/
theorem WellFormed.settles (positive : 0 < k) (wf : s.WellFormed) {ins : ℕ → BusIn}
    (quiet : ∀ n, (ins n).writestart = false) :
    ∃ N, ∀ n, N ≤ n → (PlotCircle.run k mem s ins n).Quiescent :=
  eventually_of_rank rankLt_wf rank
    (fun n busy => rank_cycle_lt positive (wf.run k mem ins n) (quiet n) busy)
    (fun n done => done.cycle (quiet n))

/-- The same when the first period still carries a start write. -/
theorem WellFormed.settles_after_start (positive : 0 < k) (wf : s.WellFormed) {ins : ℕ → BusIn}
    (quiet : ∀ n, 0 < n → (ins n).writestart = false) :
    ∃ N, 0 < N ∧ ∀ n, N ≤ n → (PlotCircle.run k mem s ins n).Quiescent := by
  obtain ⟨N, settled⟩ := WellFormed.settles positive (wf.cycle (i := ins 0))
    (fun n => quiet (n + 1) (by omega))
  refine ⟨N + 1, by omega, fun n later => ?_⟩
  obtain ⟨n, rfl⟩ := Nat.exists_eq_succ_of_ne_zero (by omega : n ≠ 0)
  rw [Nat.succ_eq_add_one, run_succ_eq]
  exact settled n (by omega)

/-- Every batch ends: for every memory and every reachable state, when no start
write arrives any more, the controller comes back to `WAIT` with offset 196, all
engines come back to `WAIT`, and they stay there. -/
theorem batch_ends (positive : 0 < k) (reachable : Reachable k mem s) (ins : ℕ → BusIn)
    (quiet : ∀ n, (ins n).writestart = false) :
    ∃ N, ∀ n, N ≤ n → (PlotCircle.run k mem s ins n).Quiescent :=
  reachable.wellFormed.settles positive quiet

/-- The batch of a memory that holds 200 everywhere, from its second period on. -/
theorem batch_ends_const :
    ∃ N, ∀ n, N ≤ n →
      (PlotCircle.run 2 (fun _ => 200) (PlotCircle.cycle 2 (fun _ => 200) blank (.startWrite 0))
        (fun _ => .rest) n).Quiescent :=
  batch_ends (by decide) ⟨blank, fun _ => .startWrite 0, 1, reset_blank, rfl⟩ _ fun _ => rfl

end PlotCircle

end CirclePlotter.FinalDesign
