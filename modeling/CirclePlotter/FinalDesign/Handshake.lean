import CirclePlotter.FinalDesign.Cycle
import Mathlib.Data.Nat.Count

/-!
# The read handshake

Exactly when `readdatavalid` follows the reads of a bus master. The status word
is announced whenever its address is on the bus, read or not, and the engines
answer a read one edge of their own clock after it: in the next period while
the controller is in `WAIT`, in the period of the read otherwise.
-/

namespace CirclePlotter.FinalDesign

open Sync

/-! ## The bus master -/

/-- The read of a screen byte in the period before is not answered yet. -/
def outstanding (ins : ℕ → BusIn) : ℕ → Bool
  | 0 => false
  | n + 1 => (ins n).readcircle

/-- What a master obeys: it does not read and write at once, and issues no read
in the period that brings the answer to the one before. -/
structure Protocol (ins : ℕ → BusIn) (n : ℕ) : Prop where
  exclusive : ¬ ((ins n).read = true ∧ (ins n).write = true)
  answered : outstanding ins n = true → (ins n).read = false

/-- The periods in which an answer is due: that of a status read, and the one
after the read of a screen byte. -/
def due (ins : ℕ → BusIn) (n : ℕ) : Bool :=
  ((ins n).read && (ins n).readstate) || outstanding ins n

namespace PlotCircle

variable {k : ℕ} {mem : BitVec 18 → BitVec 32} {s : PlotCircle} {ins : ℕ → BusIn} {j : Fin 12}

/-! ## What the coprocessor announces -/

/-- A period leaves its read strobe in every engine. -/
theorem lread_cycle (positive : 0 < k) (i : BusIn) (j : Fin 12) :
    ((cycle k mem s i).p j).lread = i.readcircle := by
  rw [cycle_p positive, PlotPixel.tick_lread]
  rfl

theorem lread_run (positive : 0 < k) (reset : s.Reset) (n : ℕ) (j : Fin 12) :
    ((run k mem s ins n).p j).lread = outstanding ins n := by
  cases n with
  | zero => exact (reset.p j).lread
  | succ n => exact lread_cycle positive (ins n) j

/-- `readdatavalid` in every period of every run, protocol or not. -/
theorem readdatavalid_run (two : 2 ≤ k) (reset : s.Reset) (n : ℕ) :
    (run k mem s ins n).readdatavalid k (ins n) =
      ((if (run k mem s ins n).state = .wait then outstanding ins n else (ins n).readcircle) ||
        (ins n).readstate) := by
  rw [readdatavalid, rdvfinal_of_settled fun j => ?_]
  split
  · next rest =>
      rw [settled_of_wait rest]
      exact lread_run (by omega) reset n j
  · next working =>
      rw [settled_of_working two working, burst_succ, PlotPixel.tick_lread]
      rfl

/-! ## When the announcement is right -/

/-- The condition on one period: the status address is on the bus only with a
read or an answer, and away from `WAIT` no read of a screen byte is issued, nor
answered, except that the status address answers for it. -/
structure Answerable (s : PlotCircle) (ins : ℕ → BusIn) (n : ℕ) : Prop where
  status : (ins n).readstate = true → (ins n).read = true ∨ outstanding ins n = true
  engines : (ins n).readstate = false → s.state ≠ .wait →
    (ins n).readcircle = false ∧ outstanding ins n = false

theorem readdatavalid_eq_due_iff (two : 2 ≤ k) (reset : s.Reset) {n : ℕ}
    (protocol : Protocol ins n) :
    (run k mem s ins n).readdatavalid k (ins n) = due ins n ↔
      (run k mem s ins n).Answerable ins n := by
  have answered := protocol.answered
  rw [readdatavalid_run two reset, due]
  cases status : (ins n).readstate with
  | true =>
      refine ⟨fun right => ⟨fun _ => ?_, fun no => ?_⟩, fun right => ?_⟩
      · simpa using right
      · rw [status] at no
        cases no
      · simpa using right.status status
  | false =>
      by_cases rest : (run k mem s ins n).state = .wait
      · refine ⟨fun _ => ⟨fun no => ?_, fun _ working => absurd rest working⟩, fun _ => ?_⟩
        · rw [status] at no
          cases no
        · simp [rest]
      · refine ⟨fun right => ⟨fun no => ?_, fun _ _ => ?_⟩, fun right => ?_⟩
        · rw [status] at no
          cases no
        · -- a read and an answer in one period exclude each other
          cases held : outstanding ins n with
          | true => simp [rest, held, answered held, BusIn.readcircle] at right
          | false => simpa [rest, held] using right
        · obtain ⟨noRead, noAnswer⟩ := right.engines status rest
          simp [rest, noRead, noAnswer]

/-! ## Counting -/

/-- One period of the protocol: an answer is due for each read, now or next. -/
theorem due_step {n : ℕ} (protocol : Protocol ins n) :
    (due ins n).toNat + (outstanding ins (n + 1)).toNat =
      (ins n).read.toNat + (outstanding ins n).toNat := by
  have answered := protocol.answered
  rw [due, outstanding, BusIn.readcircle]
  cases held : outstanding ins n with
  | true => simp [answered held]
  | false => cases (ins n).read <;> cases (ins n).readstate <;> rfl

/-- From period `m` on, as many answers are due as reads were issued, up to the
read that is outstanding. -/
theorem count_due {m : ℕ} (protocol : ∀ n, m ≤ n → Protocol ins n) (N : ℕ) :
    Nat.count (fun n => due ins (m + n)) N + (outstanding ins (m + N)).toNat =
      Nat.count (fun n => (ins (m + n)).read) N + (outstanding ins m).toNat := by
  induction N with
  | zero => simp
  | succ N ih =>
      have step := due_step (protocol (m + N) (Nat.le_add_right m N))
      have unit (b : Bool) : (if b = true then 1 else 0) = b.toNat := by cases b <;> rfl
      rw [Nat.count_succ, Nat.count_succ, unit, unit, ← Nat.add_assoc m N 1]
      omega

/-- The handshake from period `m` on: `readdatavalid` is high exactly when an
answer is due, so the answers counted are the reads, up to the outstanding one. -/
structure HandshakeRight (k : ℕ) (mem : BitVec 18 → BitVec 32) (s : PlotCircle)
    (ins : ℕ → BusIn) (m : ℕ) : Prop where
  each : ∀ n, m ≤ n → (run k mem s ins n).readdatavalid k (ins n) = due ins n
  count : ∀ N, Nat.count (fun n => (run k mem s ins (m + n)).readdatavalid k (ins (m + n))) N +
      (outstanding ins (m + N)).toNat =
    Nat.count (fun n => (ins (m + n)).read) N + (outstanding ins m).toNat

/-- The handshake is right for a master that obeys the protocol from period `m`
of a run on, whatever happened before, exactly when every period from `m` on
meets the condition. -/
theorem handshake_right_iff (two : 2 ≤ k) (reset : s.Reset) {m : ℕ}
    (protocol : ∀ n, m ≤ n → Protocol ins n) :
    HandshakeRight k mem s ins m ↔ ∀ n, m ≤ n → (run k mem s ins n).Answerable ins n := by
  constructor
  · intro right n later
    exact (readdatavalid_eq_due_iff two reset (protocol n later)).mp (right.each n later)
  · intro answerable
    have each (n : ℕ) (later : m ≤ n) :=
      (readdatavalid_eq_due_iff two reset (protocol n later)).mpr (answerable n later)
    refine ⟨each, fun N => ?_⟩
    simp only [each _ (Nat.le_add_right m _)]
    exact count_due protocol N

/-- A read of byte 77, and two periods later a poll of the status. -/
def readThenPoll : ℕ → BusIn
  | 0 => ⟨true, 77, false, 0⟩
  | 2 => ⟨true, 0x40000, false, 0⟩
  | _ => .rest

theorem protocol_readThenPoll (n : ℕ) : Protocol readThenPoll n := by
  rcases n with _ | _ | _ | n
  · exact ⟨by decide, nofun⟩
  · exact ⟨by decide, fun _ => rfl⟩
  · exact ⟨by decide, nofun⟩
  · exact ⟨by simp [readThenPoll, BusIn.rest], fun _ => rfl⟩

/-- The byte is announced in the period after its read, the status in its own, and
nothing else is. -/
theorem handshake_right_iff_readThenPoll :
    (HandshakeRight 2 (fun _ => 0) blank readThenPoll 0 ↔
      ∀ n, 0 ≤ n → (run 2 (fun _ => 0) blank readThenPoll n).Answerable readThenPoll n) ∧
    HandshakeRight 2 (fun _ => 0) blank readThenPoll 0 := by
  have exact_iff : HandshakeRight 2 (fun _ => 0) blank readThenPoll 0 ↔
      ∀ n, 0 ≤ n → (run 2 (fun _ => 0) blank readThenPoll n).Answerable readThenPoll n :=
    handshake_right_iff (by decide) reset_blank fun n _ => protocol_readThenPoll n
  have quiet (n : ℕ) : (readThenPoll n).writestart = false := by
    rcases n with _ | _ | _ | n <;> rfl
  have idle (n : ℕ) : (run 2 (fun _ => 0) blank readThenPoll n).Idle :=
    run_always quiescent_blank.toIdle (fun n _ idle => idle.cycle (quiet n)) n
  refine ⟨exact_iff, exact_iff.mpr fun n _ => ⟨fun polls => ?_, fun _ working => ?_⟩⟩
  · rcases n with _ | _ | _ | n
    · cases polls
    · cases polls
    · exact .inl rfl
    · cases polls
  · exact absurd (idle n).state working

/-- The handshake fails for masters that obey the protocol: with the status
address left on the bus there is an answer to no read, and a read of byte 0 in
the period after a start write is answered in its own period. -/
theorem handshake_fails :
    ((∀ n, Protocol (fun _ => ⟨false, 0x40000, false, 0⟩) n) ∧
      ¬ HandshakeRight 2 (fun _ => 0) blank (fun _ => ⟨false, 0x40000, false, 0⟩) 0) ∧
    ((∀ n, Protocol (fun n => if n = 1 then ⟨true, 0, false, 0⟩ else .startOnly 0 n) n) ∧
      ¬ HandshakeRight 2 (fun _ => 0) blank
        (fun n => if n = 1 then ⟨true, 0, false, 0⟩ else .startOnly 0 n) 0) := by
  refine ⟨⟨fun n => ⟨by decide, fun held => ?_⟩, fun right => ?_⟩,
    ⟨fun n => ⟨?_, fun held => ?_⟩, fun right => ?_⟩⟩
  · rfl
  · exact absurd (right.each 0 (by decide)) (by decide)
  · rcases n with _ | _ | n <;> simp [BusIn.startOnly, BusIn.startWrite, BusIn.rest]
  · rcases n with _ | _ | n
    · rfl
    · exact absurd held (by decide)
    · rfl
  · exact absurd (right.each 1 (by decide)) (by decide)

end PlotCircle

end CirclePlotter.FinalDesign
