import Mathlib.Order.WellFounded
import Mathlib.Tactic.Common

/-!
# Synchronous machines

A synchronous machine is a step function from a state and the inputs of one
clock cycle to the next state. `run step s ins n` is its state before cycle
`n` when `ins` is the stream of inputs, so a burst of ticks under one held
input is a run over a constant stream.

* `run_invariant` lifts what one step preserves to a whole run, under an
  assumption on the inputs up to a horizon.
* `run_constant` and `run_countdown` do so for a value the steps keep, and for a
  counter they run down.
* `run_related` does the same for a relation between two runs, `run_abstract` for a
  function to the states of an abstract machine, and `run_simulated` for a relation
  to the states of one that may have a choice.
* `exists_of_rank` and `eventually_of_rank` turn a well-founded rank that drops
  until a goal is met into the existence of a time at which it is met.
* `exists_le_of_budget` gives that bound as a number: a budget that pays the same
  amount for every step lasts at most its quotient.
-/

namespace CirclePlotter.Sync

variable {σ τ ι κ α : Type*}

/-- The state before cycle `n` of the run from `s` over the inputs `ins`. -/
def run (step : σ → ι → σ) (s : σ) (ins : ℕ → ι) : ℕ → σ
  | 0 => s
  | n + 1 => step (run step s ins n) (ins n)

@[simp] theorem run_zero (step : σ → ι → σ) (s : σ) (ins : ℕ → ι) :
    run step s ins 0 = s := rfl

theorem run_succ (step : σ → ι → σ) (s : σ) (ins : ℕ → ι) (n : ℕ) :
    run step s ins (n + 1) = step (run step s ins n) (ins n) := rfl

/-- The first `N` cycles see the first `N` inputs only. -/
theorem run_congr {step : σ → ι → σ} {s : σ} {ins ins' : ℕ → ι} {N : ℕ}
    (same : ∀ n, n < N → ins n = ins' n) : run step s ins N = run step s ins' N := by
  induction N with
  | zero => rfl
  | succ N ih =>
      rw [run_succ, run_succ, ih fun n before => same n (Nat.lt_succ_of_lt before),
        same N (Nat.lt_succ_self N)]

/-- A run splits at any cycle; the second part sees the shifted inputs. -/
theorem run_add (step : σ → ι → σ) (s : σ) (ins : ℕ → ι) (m n : ℕ) :
    run step s ins (m + n) = run step (run step s ins m) (fun i => ins (m + i)) n := by
  induction n with
  | zero => rfl
  | succ n ih => rw [← Nat.add_assoc, run_succ, run_succ, ih]

/-- A property that every step before the horizon `N` preserves holds up to `N`. -/
theorem run_invariant {step : σ → ι → σ} {s : σ} {ins : ℕ → ι} {P : σ → Prop} {N : ℕ}
    (start : P s) (next : ∀ n t, n < N → P t → P (step t (ins n))) :
    ∀ n, n ≤ N → P (run step s ins n) := by
  intro n
  induction n with
  | zero => exact fun _ => start
  | succ n ih => exact fun within => next n _ within (ih (Nat.le_of_succ_le within))

/-- A property that every step preserves holds all along the run. -/
theorem run_always {step : σ → ι → σ} {s : σ} {ins : ℕ → ι} {P : σ → Prop}
    (start : P s) (next : ∀ n t, P t → P (step t (ins n))) (n : ℕ) :
    P (run step s ins n) :=
  run_invariant start (fun m t _ => next m t) n (Nat.le_refl n)

/-- A value that every step keeps, as long as `P` holds, is the same all along the run. -/
theorem run_constant {step : σ → ι → σ} {s : σ} {ins : ℕ → ι} {P : σ → Prop} {value : σ → α}
    (valid : ∀ n, P (run step s ins n))
    (keeps : ∀ n t, P t → value (step t (ins n)) = value t) (n : ℕ) :
    value (run step s ins n) = value s := by
  induction n with
  | zero => rfl
  | succ n ih => rw [run_succ, keeps n _ (valid n), ih]

/-- A counter that every step takes one off, as long as `P` holds, runs down. -/
theorem run_countdown {step : σ → ι → σ} {s : σ} {ins : ℕ → ι} {P : σ → Prop} {left : σ → ℕ}
    (valid : ∀ n, P (run step s ins n))
    (drops : ∀ n t, P t → left (step t (ins n)) = left t - 1) (n : ℕ) :
    left (run step s ins n) = left s - n := by
  induction n with
  | zero => rfl
  | succ n ih => rw [run_succ, drops n _ (valid n), ih, Nat.sub_sub]

/-- A function of the state that turns every step into a step of another machine,
as long as `P` holds, turns the run into the run of that machine. -/
theorem run_abstract {step : σ → ι → σ} {step' : τ → ι → τ} {s : σ} {ins : ℕ → ι} {P : σ → Prop}
    (abstract : σ → τ) (valid : ∀ n, P (run step s ins n))
    (commutes : ∀ n t, P t → abstract (step t (ins n)) = step' (abstract t) (ins n)) (n : ℕ) :
    abstract (run step s ins n) = run step' (abstract s) ins n := by
  induction n with
  | zero => rfl
  | succ n ih => rw [run_succ, run_succ, commutes n _ (valid n), ih]

/-- Two runs whose steps keep a relation stay related. -/
theorem run_related {step : σ → ι → σ} {step' : τ → κ → τ} {s : σ} {t : τ}
    {ins : ℕ → ι} {ins' : ℕ → κ} {R : σ → τ → Prop} (start : R s t)
    (next : ∀ n a b, R a b → R (step a (ins n)) (step' b (ins' n))) (n : ℕ) :
    R (run step s ins n) (run step' t ins' n) := by
  induction n with
  | zero => exact start
  | succ n ih => exact next n _ _ ih

/-- When an abstract machine can match every step, some sequence of its states
accompanies the run. -/
theorem run_simulated {step : σ → ι → σ} {Step : ι → τ → τ → Prop} {s : σ} {t : τ}
    {ins : ℕ → ι} {R : σ → τ → Prop} (start : R s t)
    (next : ∀ n a b, R a b → ∃ b', Step (ins n) b b' ∧ R (step a (ins n)) b') :
    ∃ ts : ℕ → τ, ts 0 = t ∧ (∀ n, Step (ins n) (ts n) (ts (n + 1))) ∧
      ∀ n, R (run step s ins n) (ts n) := by
  choose follow steps related using next
  let ts : ∀ n, {b : τ // R (run step s ins n) b} := fun n =>
    Nat.rec ⟨t, start⟩ (fun n b => ⟨follow n _ b.1 b.2, related n _ b.1 b.2⟩) n
  exact ⟨fun n => (ts n).1, rfl, fun n => steps n _ (ts n).1 (ts n).2, fun n => (ts n).2⟩

/-- A well-founded rank that drops in every cycle in which the goal is not met
reaches the goal. -/
theorem exists_of_rank {r : α → α → Prop} (wf : WellFounded r) {seq : ℕ → σ}
    {Goal : σ → Prop} (rank : σ → α)
    (drops : ∀ n, ¬ Goal (seq n) → r (rank (seq (n + 1))) (rank (seq n))) (n : ℕ) :
    ∃ m, n ≤ m ∧ Goal (seq m) := by
  generalize bound : rank (seq n) = a
  induction a using wf.induction generalizing n with
  | _ a ih =>
      by_cases met : Goal (seq n)
      · exact ⟨n, Nat.le_refl n, met⟩
      · obtain ⟨m, later, met'⟩ := ih _ (bound ▸ drops n met) (n + 1) rfl
        exact ⟨m, Nat.le_of_succ_le later, met'⟩

/-- When moreover the goal is kept once met, it holds from some cycle on. -/
theorem eventually_of_rank {r : α → α → Prop} (wf : WellFounded r) {seq : ℕ → σ}
    {Goal : σ → Prop} (rank : σ → α)
    (drops : ∀ n, ¬ Goal (seq n) → r (rank (seq (n + 1))) (rank (seq n)))
    (kept : ∀ n, Goal (seq n) → Goal (seq (n + 1))) :
    ∃ N, ∀ n, N ≤ n → Goal (seq n) := by
  obtain ⟨N, -, met⟩ := exists_of_rank wf rank drops 0
  exact ⟨N, fun n later => Nat.le_induction met (fun m _ => kept m) n later⟩

/-- Each step before the goal takes `c` from a budget `b`, so there are at most
`b / c` of them. `Within b s` says that the budget `b` is enough in state `s`. -/
theorem exists_le_of_budget {seq : ℕ → σ} {Within : ℕ → σ → Prop} {Goal : σ → Prop} {b c : ℕ}
    (start : Within b (seq 0))
    (spend : ∀ n b, Within b (seq n) → ¬ Goal (seq n) →
      ∃ b', b' + c ≤ b ∧ Within b' (seq (n + 1))) (positive : 0 < c) :
    ∃ n, c * n ≤ b ∧ Goal (seq n) := by
  have from_m (m b : ℕ) (within : Within b (seq m)) : ∃ n, c * n ≤ b ∧ Goal (seq (m + n)) := by
    induction b using Nat.strong_induction_on generalizing m with
    | _ b ih =>
        by_cases met : Goal (seq m)
        · exact ⟨0, Nat.zero_le b, met⟩
        · obtain ⟨b', paid, within'⟩ := spend m b within met
          obtain ⟨n, later, met'⟩ := ih b' (by omega) (m + 1) within'
          refine ⟨n + 1, ?_, ?_⟩
          · rw [Nat.mul_succ]
            omega
          · rwa [Nat.add_assoc, Nat.add_comm 1 n] at met'
  obtain ⟨n, bound, met⟩ := from_m 0 b start
  rw [Nat.zero_add] at met
  exact ⟨n, bound, met⟩

end CirclePlotter.Sync
