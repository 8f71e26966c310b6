import CirclePlotter.Parallel.Checksum
import CirclePlotter.Parallel.PlotCircle

/-!
# Reads from the engines in parallel

A read registers one bit in each engine, and the next cycle shows the OR of
these bits, shifted by the address that is on the bus *then*. An engine that
draws registers the bit it is setting instead of the one at the address.
`Undisturbed` says when a read is answered with the stored bit all the same;
idle engines do so while the address stays on the bus.
-/

namespace CirclePlotter.Parallel

open Sync

namespace PlotPixel

/-- What an engine registers in a cycle: `isset` while it draws or is written,
and the stored bit otherwise. -/
theorem readdata_tick_eq_one_iff {id : BitVec 6} {m : PlotPixel} {i : BusIn} (valid : Valid m) :
    (m.tick id i).readdata = 1 ↔
      i.clear = false ∧ (m.drawing? ≠ none ∨ m.ram0.ram i.address = 1) := by
  rw [readdata, tick_ram0]
  cases drawing : m.drawing? with
  | some pair =>
      rcases pair with ⟨o, j⟩
      obtain ⟨portA, -⟩ := ports_of_drawing (i := i) valid drawing
      rw [portA]
      cases clear : i.clear <;> simp [DualPortRam.tick, idle, clear]
  | none =>
      obtain ⟨portA, -⟩ := ports_of_not_drawing (i := i) drawing
      rw [portA]
      cases clear : i.clear <;> simp [DualPortRam.tick, idle, clear]

end PlotPixel

/-! ## The OR of the engines -/

theorem foldl_or_eq_one_iff {α : Type} (bit : α → BitVec 1) (ks : List α) (v : BitVec 1) :
    ks.foldl (fun v k => bit k ||| v) v = 1 ↔ v = 1 ∨ ∃ k ∈ ks, bit k = 1 := by
  have or_iff : ∀ a b : BitVec 1, a ||| b = 1 ↔ b = 1 ∨ a = 1 := by decide
  induction ks generalizing v with
  | nil => simp
  | cons k ks ih =>
      rw [List.foldl_cons]
      refine (ih _).trans ?_
      rw [or_iff, or_assoc]
      simp

theorem foldl_or_eq_true_iff {α : Type} (flag : α → Bool) (ks : List α) (v : Bool) :
    ks.foldl (fun v k => flag k || v) v = true ↔ v = true ∨ ∃ k ∈ ks, flag k = true := by
  induction ks generalizing v with
  | nil => simp
  | cons k ks ih =>
      rw [List.foldl_cons, ih, Bool.or_eq_true, or_comm (a := flag k = true), or_assoc]
      simp

namespace PlotCircle

variable {s : PlotCircle} {ins : ℕ → BusIn}

/-- The OR over the engines of the bit stored at an address. -/
def stored (s : PlotCircle) (a : BitVec 18) : BitVec 1 :=
  (List.finRange 11).foldl (fun v j => (s.p j).ram0.ram a ||| v) 0

theorem stored_eq_one_iff (a : BitVec 18) :
    s.stored a = 1 ↔ ∃ j, (s.p j).ram0.ram a = 1 := by
  rw [stored, foldl_or_eq_one_iff]
  simp

/-- The two wires that are not driven add nothing. -/
theorem rdfinal_eq_one_iff : s.rdfinal = 1 ↔ ∃ j, (s.p j).readdata = 1 := by
  rw [rdfinal, foldl_or_eq_one_iff]
  constructor
  · intro wire
    rcases wire with zero | ⟨k, -, high⟩
    · cases zero
    · unfold rd at high
      split at high
      · next driven => exact ⟨_, high⟩
      · cases high
  · intro engine
    rcases engine with ⟨j, high⟩
    refine Or.inr ⟨⟨j, by omega⟩, List.mem_finRange _, ?_⟩
    rw [rd, dif_pos (Fin.lt_def.mpr j.isLt)]
    exact high

/-- Every engine registers `read`. -/
theorem readdatavalid_tick (s : PlotCircle) (i : BusIn) : (s.tick i).readdatavalid = i.read := by
  have lread (j : Fin 11) : ((s.tick i).p j).lread = i.read := by
    change ((s.p j).tick (moduleId j) i).lread = i.read
    unfold PlotPixel.tick
    split <;> rfl
  rw [readdatavalid, rdvfinal, Bool.eq_iff_iff, foldl_or_eq_true_iff]
  constructor
  · intro wire
    rcases wire with zero | ⟨k, -, high⟩
    · cases zero
    · unfold rdv at high
      split at high
      · exact (lread _).symm.trans high
      · cases high
  · intro read
    exact Or.inr ⟨0, List.mem_finRange _, (lread 0).trans read⟩

/-- What the engines answer in the next cycle. -/
theorem rdfinal_tick_eq_one_iff {i : BusIn} (valid : ∀ j, (s.p j).Valid) :
    (s.tick i).rdfinal = 1 ↔
      i.clear = false ∧ ((∃ j, (s.p j).drawing? ≠ none) ∨ s.stored i.address = 1) := by
  rw [rdfinal_eq_one_iff, stored_eq_one_iff, ← exists_or, ← exists_and_left]
  exact exists_congr fun j => PlotPixel.readdata_tick_eq_one_iff (valid j)

/-! ## The answer to one read -/

/-- When the bit read is set, no clear comes with the read and the next cycle
has the same shift on the bus; when it is not set, no engine is drawing, or a
clear comes with the read. -/
def Undisturbed (s : PlotCircle) (i next : BusIn) : Prop :=
  if s.stored i.address = 1 then
    i.clear = false ∧ next.address.toNat % 8 = i.address.toNat % 8
  else (∀ j, (s.p j).drawing? = none) ∨ i.clear = true

/-- A shifted bit shows the bit, and a set bit shows the shift. -/
theorem shift_eq_iff : ∀ (b b' : BitVec 1) (k k' : Fin 8),
    b.setWidth 32 <<< (k : ℕ) = b'.setWidth 32 <<< (k' : ℕ) ↔
      (b = 1 ↔ b' = 1) ∧ (b' = 1 → k = k') := by
  decide

theorem readdata_eq (s : PlotCircle) (i : BusIn) :
    s.readdata i = s.rdfinal.setWidth 32 <<< (i.address.toNat % 8) := by
  rw [readdata, BitVec.shiftLeft_eq', BitVec.extractLsb'_toNat, Nat.shiftRight_zero]

/-- The next cycle shows the stored bit exactly when nothing disturbs the read. -/
theorem readdata_tick_iff {i next : BusIn} (valid : ∀ j, (s.p j).Valid) :
    (s.tick i).readdata next = (s.stored i.address).setWidth 32 <<< (i.address.toNat % 8) ↔
      s.Undisturbed i next := by
  have small (a : BitVec 18) : a.toNat % 8 < 8 := Nat.mod_lt _ (by decide)
  have shifts := shift_eq_iff (s.tick i).rdfinal (s.stored i.address) ⟨_, small next.address⟩
    ⟨_, small i.address⟩
  simp only [Fin.mk.injEq] at shifts
  rw [readdata_eq, shifts, rdfinal_tick_eq_one_iff valid, Undisturbed]
  split
  · next set => simp only [set, or_true, and_true, iff_true, true_imp_iff]
  · next unset =>
      simp only [unset, or_false, iff_false, false_imp_iff, and_true, not_and, not_exists, not_not]
      cases i.clear <;> simp

/-! ## Idle engines -/

/-- The bits the engines store together are the picture. -/
theorem litBits_stored (s : PlotCircle) : litBits s.stored = s.picture := by
  ext p
  exact stored_eq_one_iff p.index

theorem clear_of_not_write {i : BusIn} (alone : i.write = false) : i.clear = false := by
  rw [BusIn.clear, alone, Bool.false_and]

/-- Idle engines answer a read whose address stays on the bus. -/
theorem undisturbed_of_idle {i next : BusIn} (idle : s.Idle) (alone : i.write = false)
    (held : next.address = i.address) : s.Undisturbed i next := by
  have kept := clear_of_not_write alone
  have none (j : Fin 11) : (s.p j).drawing? = none := PlotPixel.drawing_of_wait (idle j)
  unfold Undisturbed
  split
  · exact ⟨kept, by rw [held]⟩
  · exact Or.inl none

/-- So the software reads the picture: what it loads is what `screenMM` holds. -/
theorem screenMM_read_of_idle {i next : BusIn} (idle : s.Idle) (alone : i.write = false)
    (held : next.address = i.address) :
    screenMM.read s.stored (i.address.setWidth 32) = some ((s.tick i).readdata next) := by
  have below := i.address.isLt
  have wide : (i.address.setWidth 32).toNat = i.address.toNat := by
    rw [BitVec.toNat_setWidth, Nat.mod_eq_of_lt (by omega)]
  have inRange : i.address.setWidth 32 < 262144 := by
    rw [BitVec.lt_def, wide]
    exact below
  have shift : (i.address.setWidth 32 % 8).toNat = i.address.toNat % 8 := by
    rw [BitVec.toNat_umod, wide]
    rfl
  have address : (i.address.setWidth 32).setWidth 18 = i.address := by
    rw [BitVec.setWidth_setWidth_of_le _ (by decide), BitVec.setWidth_eq]
  rw [(readdata_tick_iff fun j => .of_wait (idle j)).mpr (undisturbed_of_idle idle alone held)]
  simp only [screenMM, inRange, if_true, address, BitVec.shiftLeft_eq', shift]

/-! ## Reads in a run -/

/-- The read accepted in cycle `n` is answered in cycle `n + 1` with the bit
stored at its address in cycle `n`, shifted by this address. -/
def Answered (s : PlotCircle) (ins : ℕ → BusIn) (n : ℕ) : Prop :=
  let a := (ins n).address
  (run tick s ins (n + 1)).readdatavalid = true ∧
    (run tick s ins (n + 1)).readdata (ins (n + 1)) =
      ((run tick s ins n).stored a).setWidth 32 <<< (a.toNat % 8)

/-- Every read of the run is answered with the picture. -/
def ReadsPicture (s : PlotCircle) (ins : ℕ → BusIn) : Prop :=
  ∀ n, (ins n).read = true → Answered s ins n

theorem answered_iff (valid : ∀ n j, ((run tick s ins n).p j).Valid) {n : ℕ}
    (read : (ins n).read = true) :
    Answered s ins n ↔ (run tick s ins n).Undisturbed (ins n) (ins (n + 1)) := by
  rw [Answered, run_succ, readdatavalid_tick, and_iff_right read, readdata_tick_iff (valid n)]

/-- In every run from reset, whatever the engines do, the reads are answered
with the picture if and only if each of them is undisturbed. -/
theorem readsPicture_iff (reset : ∀ j, (s.p j).Reset) :
    s.ReadsPicture ins ↔ ∀ n, (ins n).read = true →
      (run tick s ins n).Undisturbed (ins n) (ins (n + 1)) := by
  have idle : s.Idle := fun j => (reset j).state
  exact forall_congr' fun n => forall_congr' fun read => answered_iff (valid_run idle) read

/-- A circle of radius 0 at (1, 0) for the first engine, and from cycle 10 on
reads of the pixels (1, 0) and (0, 0) in consecutive cycles. -/
def consecutiveReads (n : ℕ) : BusIn :=
  if n = 0 then ⟨false, 0, true, 0x04000001⟩
  else if n = 10 then ⟨true, 1, false, 0⟩
  else if n = 11 then ⟨true, 0, false, 0⟩
  else .rest

theorem readsPicture_iff_blank :
    blank.ReadsPicture consecutiveReads ↔ ∀ n, (consecutiveReads n).read = true →
      (run tick blank consecutiveReads n).Undisturbed (consecutiveReads n)
        (consecutiveReads (n + 1)) :=
  readsPicture_iff fun _ => ⟨rfl, rfl, rfl, rfl, rfl, rfl⟩

/-- The first of the two reads is answered with 1 instead of 2, since the second
address is on the bus by then. -/
theorem not_readsPicture_consecutiveReads :
    (∀ j, (blank.p j).Reset) ∧ ¬ blank.ReadsPicture consecutiveReads := by
  refine ⟨fun _ => ⟨rfl, rfl, rfl, rfl, rfl, rfl⟩, fun reads => ?_⟩
  have shown : (run tick blank consecutiveReads 11).readdata (consecutiveReads 11) ≠
      ((run tick blank consecutiveReads 10).stored 1).setWidth 32 <<< (1 : ℕ) := by
    decide +kernel
  exact shown (reads 10 rfl).2

end PlotCircle

end CirclePlotter.Parallel
