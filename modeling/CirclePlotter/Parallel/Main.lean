import CirclePlotter.Parallel.Spacing
import CirclePlotter.TestData
import Mathlib.Algebra.Order.BigOperators.Group.Finset

/-!
# `main` of the parallel design

One iteration of `main`: the reference case on the software screen, the accelerated
case on the engines, and the comparison of the two checksums.

* `patientDevice` is the port as a processor uses it that leaves the engines time: it
  sends a circle to an engine that waits, and reads and clears when all engines
  wait. `plotMemory` is what the port then is: a memory of what the engines are
  going to show, whether they have drawn it yet or not.
* `checksum_eq_iff` says that a checksum tells a picture from every larger one.
* `main_verdict_iff` is the verdict. The engines draw the exit of each walk as well,
  so it depends on the radii.
-/

namespace CirclePlotter.Parallel

open Sync

/-! ## Pictures and bits -/

/-- Every bit belongs to a pixel. -/
theorem exists_index (a : BitVec 18) : ∃ p : Pixel, p.index = a := by
  have below := a.isLt
  refine ⟨⟨BitVec.ofNat 9 (a.toNat % 512), BitVec.ofNat 9 (a.toNat / 512)⟩, ?_⟩
  apply BitVec.eq_of_toNat_eq
  rw [Pixel.index_toNat]
  simp only [BitVec.toNat_ofNat]
  omega

/-- A memory of bits is determined by its picture. -/
theorem eq_of_litBits_eq {bits bits' : BitMem} (same : litBits bits = litBits bits') :
    bits = bits' := by
  have bit_ext : ∀ b b' : BitVec 1, (b = 1 ↔ b' = 1) → b = b' := by decide
  funext a
  rcases exists_index a with ⟨p, rfl⟩
  exact bit_ext _ _ (Set.ext_iff.mp same p)

/-- The memory of bits with this picture. -/
noncomputable def bitsOf (S : Set Pixel) : BitMem := (exists_litBits_eq S).choose

@[simp] theorem litBits_bitsOf (S : Set Pixel) : litBits (bitsOf S) = S :=
  (exists_litBits_eq S).choose_spec

@[simp] theorem bitsOf_litBits (bits : BitMem) : bitsOf (litBits bits) = bits :=
  eq_of_litBits_eq (litBits_bitsOf _)

/-! ## A patient processor -/

/-- The engines as one memory: a word for all engines clears a pixel, a word for
one of them adds its figure, and a word for none does nothing. -/
noncomputable def plotMemory : Program.Memory (BitVec 32) (BitVec 32) BitMem where
  read := screenMM.read
  write bits index word :=
    if word.extractLsb' 26 6 = 0 then screenMM.write bits index word
    else if index < 262144 then
      some (bitsOf (litBits bits ∪
        {p | (∃ j, word.extractLsb' 26 6 = moduleId j) ∧ p ∈ figure word}))
    else none

namespace PlotCircle

variable {s s' : PlotCircle} {i : BusIn}

/-- The engines this cycle writes to wait. -/
def Awaits (s : PlotCircle) (i : BusIn) : Prop :=
  (i.dest = 0 → s.Idle) ∧ ∀ j, i.load (moduleId j) = true → (s.p j).state = .wait

/-- The port as a patient processor uses it for `screen_mm[index]`. -/
def patientDevice : Program.Device (BitVec 32) (BitVec 32) PlotCircle where
  load s index word s' := ∃ s₁, Rests s s₁ ∧ s₁.Idle ∧ screenDevice.load s₁ index word s'
  store s index word s' := ∃ s₁ i, Rests s s₁ ∧ s₁.Awaits i ∧
    (i.read = false ∧ i.write = true ∧ i.address = index.setWidth 18 ∧ i.writedata = word) ∧
    s' = s₁.tick i

/-- What the engines are going to show. -/
def outcome (s : PlotCircle) : Set Pixel := {p | ∃ j, p ∈ (s.p j).outcome}

theorem outcome_of_idle (idle : s.Idle) : s.outcome = litBits s.stored := by
  rw [litBits_stored]
  ext p
  simp only [outcome, picture, Set.mem_ofPred_eq, PlotPixel.outcome_of_wait (idle _)]

/-- Idle engines show what they store. -/
theorem bitsOf_outcome (idle : s.Idle) : bitsOf s.outcome = s.stored := by
  rw [outcome_of_idle idle, bitsOf_litBits]

theorem outcome_tick_of_quiet (valid : s.Valid) (quiet : Quiet i) (kept : i.clear = false) :
    (s.tick i).outcome = s.outcome := by
  have same (j : Fin 11) : ((s.tick i).p j).outcome = (s.p j).outcome :=
    PlotPixel.outcome_tick (valid j) (quiet j) kept
  simp only [outcome, same]

/-- A circle for a waiting engine adds its figure. -/
theorem outcome_tick_of_command (valid : s.Valid) (awaits : s.Awaits i) (write : i.write = true)
    (some : i.dest ≠ 0) :
    (s.tick i).outcome =
      s.outcome ∪ {p | (∃ j, i.dest = moduleId j) ∧ p ∈ figure i.writedata} := by
  have kept : i.clear = false := by rw [BusIn.clear, beq_eq_false_iff_ne.mpr some, Bool.and_false]
  have load_iff (j : Fin 11) : i.load (moduleId j) = true ↔ i.dest = moduleId j := by
    simp [BusIn.load, write]
  have each (j : Fin 11) : ((s.tick i).p j).outcome =
      (s.p j).outcome ∪ {p | i.dest = moduleId j ∧ p ∈ figure i.writedata} := by
    change ((s.p j).tick (moduleId j) i).outcome = _
    cases load : i.load (moduleId j) with
    | true =>
        have waits := awaits.2 j load
        rw [PlotPixel.outcome_of_load waits (moduleId_ne_zero j) load,
          PlotPixel.outcome_of_wait waits]
        simp only [(load_iff j).mp load, true_and, figure, BusIn.circle, Set.ofPred_mem_eq]
    | false =>
        have other : i.dest ≠ moduleId j := fun here => by
          rw [(load_iff j).mpr here] at load
          cases load
        rw [PlotPixel.outcome_tick (valid j) load kept]
        simp [other]
  ext p
  simp only [outcome, each, Set.mem_union, Set.mem_ofPred_eq, exists_or, exists_and_right]

/-- Cycles without an access change nothing that is going to be shown. -/
theorem settles_rests : Program.Settles Rests Valid fun s => bitsOf s.outcome where
  refl _ := .refl
  kept := by
    intro s s' valid rests
    induction rests with
    | refl => exact ⟨valid, rfl⟩
    | tail _ step ih =>
        rcases step with ⟨i, -, alone, rfl⟩
        rcases ih with ⟨valid', same⟩
        refine ⟨valid'.tick i, ?_⟩
        rw [outcome_tick_of_quiet valid' (quiet_of_not_write alone) (clear_of_not_write alone),
          same]

/-- The engines come to rest by themselves. -/
theorem exists_idle (valid : s.Valid) : ∃ s', Rests s s' ∧ s'.Idle := by
  have rests (n : ℕ) : Rests s (run tick s (fun _ => .rest) n) := by
    induction n with
    | zero => exact .refl
    | succ n ih => exact .tail ih ⟨.rest, rfl, rfl, rfl⟩
  refine ⟨_, rests (Finset.univ.sup fun j => (s.p j).ticksLeft), fun j => ?_⟩
  rw [p_run, PlotPixel.state_run_eq_wait_iff (fun _ => quiet_of_not_write rfl j) (valid j)]
  exact Finset.le_sup (f := fun j => (s.p j).ticksLeft) (Finset.mem_univ j)

/-- For a patient processor the port is the memory of what the engines are going
to show. -/
theorem patientDevice_refines :
    Program.Refines patientDevice plotMemory Valid fun s => bitsOf s.outcome where
  load := by
    intro s index word s' word' valid access defined
    rcases access with ⟨s₁, rests, idle, access⟩
    rcases settles_rests.kept valid rests with ⟨-, same⟩
    rw [← same, bitsOf_outcome idle] at defined
    rcases screenDevice_refines.load idle access defined with ⟨value, idle', kept⟩
    refine ⟨value, valid_of_idle idle', ?_⟩
    rw [bitsOf_outcome idle', kept, ← bitsOf_outcome idle, same]
  store := by
    intro s index word s' bits valid access defined
    rcases access with ⟨s₁, i, rests, awaits, ⟨notRead, write, address, rfl⟩, rfl⟩
    rcases settles_rests.kept valid rests with ⟨valid₁, same⟩
    rw [← same] at defined
    refine ⟨valid₁.tick i, ?_⟩
    simp only [plotMemory] at defined
    split at defined
    · next all =>
        have idle := awaits.1 all
        rw [bitsOf_outcome idle] at defined
        rcases screenDevice_refines.store idle
          ⟨s₁, i, .refl, ⟨notRead, write, address, rfl⟩, rfl⟩ defined with ⟨idle', stored⟩
        rw [bitsOf_outcome idle', stored]
    · next some =>
        split at defined
        · rw [outcome_tick_of_command valid₁ awaits write some, ← Option.some.inj defined,
            litBits_bitsOf]
          rfl
        · cases defined
  serves_load := by
    intro s index word valid defined
    rcases exists_idle valid with ⟨s₁, rests, idle⟩
    rcases settles_rests.kept valid rests with ⟨-, same⟩
    rw [← same, bitsOf_outcome idle] at defined
    rcases screenDevice_refines.serves_load idle defined with ⟨word', s', access⟩
    exact ⟨word', s', s₁, rests, idle, access⟩
  serves_store := by
    intro s index word bits valid _
    rcases exists_idle valid with ⟨s₁, rests, idle⟩
    exact ⟨_, s₁, ⟨false, index.setWidth 18, true, word⟩, rests,
      ⟨fun _ => idle, fun j _ => idle j⟩, ⟨rfl, rfl, rfl, rfl⟩, rfl⟩

end PlotCircle

/-! ## Checksums tell pictures apart -/

/-- The sum of the bytes does not wrap. -/
theorem checksum_toNat (mem : ByteMem) :
    (checksum mem).toNat = ∑ i ∈ Finset.range 32768, (mem (BitVec.ofNat 15 i)).toNat := by
  have partial_sum (n : ℕ) (within : n ≤ 32768) :
      ((List.range n).foldl (fun v i => v + (mem (BitVec.ofNat 15 i)).setWidth 32) 0 :
        BitVec 32).toNat = ∑ i ∈ Finset.range n, (mem (BitVec.ofNat 15 i)).toNat ∧
      ∑ i ∈ Finset.range n, (mem (BitVec.ofNat 15 i)).toNat ≤ 255 * n := by
    induction n with
    | zero => exact ⟨rfl, Nat.le_refl 0⟩
    | succ n ih =>
        rcases ih (Nat.le_of_succ_le within) with ⟨sum, bound⟩
        have byte := (mem (BitVec.ofNat 15 n)).isLt
        rw [List.range_succ, List.foldl_append, List.foldl_cons, List.foldl_nil,
          Finset.sum_range_succ, BitVec.toNat_add, sum, BitVec.toNat_setWidth]
        omega
  exact (partial_sum 32768 (Nat.le_refl _)).1

/-- A byte with more bits is larger. -/
theorem toNat_le_of_lit_subset {mem mem' : ByteMem} (subset : lit mem ⊆ lit mem') (a : BitVec 15) :
    (mem a).toNat ≤ (mem' a).toNat := by
  have both : mem a ||| mem' a = mem' a := by
    apply BitVec.eq_of_getLsbD_eq
    intro b below
    rcases Pixel.exists_addr_bit a (BitVec.ofNat 3 b) with ⟨p, rfl, bit⟩
    have bitN : p.bit.toNat = b := by
      rw [bit, BitVec.toNat_ofNat]
      omega
    have shown := @subset p
    rw [mem_lit, mem_lit, bitN] at shown
    rw [BitVec.getLsbD_or]
    cases here : (mem p.addr).getLsbD b with
    | true => rw [shown here, Bool.or_true]
    | false => rw [Bool.false_or]
  rw [← both, BitVec.toNat_or]
  exact Nat.left_le_or

/-- A checksum tells a picture from every larger one. -/
theorem checksum_eq_iff {mem mem' : ByteMem} (subset : lit mem ⊆ lit mem') :
    checksum mem = checksum mem' ↔ lit mem = lit mem' := by
  constructor
  · intro same
    rw [← BitVec.toNat_inj, checksum_toNat, checksum_toNat,
      Finset.sum_eq_sum_iff_of_le fun i _ => toNat_le_of_lit_subset subset _] at same
    congr 1
    funext a
    have here := same a.toNat (Finset.mem_range.mpr a.isLt)
    rw [BitVec.ofNat_toNat, BitVec.setWidth_eq] at here
    exact BitVec.eq_of_toNat_eq here
  · intro same
    rw [eq_of_lit_eq same]

/-! ## The test data -/

/-- `driverdata(k)` throws `k` numbers away; the state counts the calls of `rand()`. -/
def driverdata (rand : ℕ → BitVec 32) (k : ℕ) (state : CircleArrays × ℕ) :
    Option (CircleArrays × ℕ) :=
  (List.finRange 50).foldlM (driverdataStep rand) (state.1, state.2 + k)

/-- The arrays in the one iteration of `main` that is tested: `driverdata(0)` and
`driverdata(1)` run before the loop. -/
def testData (rand : ℕ → BitVec 32) (before : CircleArrays) : Option CircleArrays := do
  let state ← driverdata rand 0 (before, 0)
  let state ← driverdata rand 1 state
  let state ← driverdata rand 2 state
  return state.1

/-- Numbers thrown away are as if the generator had started later. -/
theorem driverdata_eq (rand : ℕ → BitVec 32) (k : ℕ) (state : CircleArrays × ℕ) :
    (driverdata rand k state).map Prod.fst =
      CirclePlotter.driverdata (fun n => rand (n + (state.2 + k))) state.1 := by
  have step (m n : ℕ) (arrays : CircleArrays) (i : Fin 50) :
      driverdataStep rand (arrays, n + m) i =
        (driverdataStep (fun n => rand (n + m)) (arrays, n) i).map fun s => (s.1, s.2 + m) := by
    simp only [driverdataStep, Nat.add_right_comm n m]
    cases umod (rand (n + 1 + m)) (512 - 2 * (rand (n + m)).srem 256) with
    | none => rfl
    | some x =>
        cases umod (rand (n + 2 + m)) (512 - 2 * (rand (n + m)).srem 256) with
        | none => rfl
        | some y => rfl
  have loop (m : ℕ) (is : List (Fin 50)) (arrays : CircleArrays) (n : ℕ) :
      is.foldlM (driverdataStep rand) (arrays, n + m) =
        (is.foldlM (driverdataStep fun n => rand (n + m)) (arrays, n)).map
          fun s => (s.1, s.2 + m) := by
    induction is generalizing arrays n with
    | nil => rfl
    | cons i is ih =>
        rw [List.foldlM_cons, List.foldlM_cons, step]
        cases driverdataStep (fun n => rand (n + m)) (arrays, n) i with
        | none => rfl
        | some s => exact ih s.1 s.2
  have whole := loop (state.2 + k) (List.finRange 50) state.1 0
  rw [Nat.zero_add] at whole
  rw [driverdata, whole, CirclePlotter.driverdata, Option.map_map]
  rfl

theorem driverdata_onScreen {rand : ℕ → BitVec 32} (nonneg : ∀ n, 0 ≤ (rand n).toInt) (k : ℕ)
    (state : CircleArrays × ℕ) :
    ∃ state', driverdata rand k state = some state' ∧ state'.1.OnScreen := by
  rcases CirclePlotter.driverdata_onScreen (fun n => nonneg (n + (state.2 + k))) state.1 with
    ⟨arrays, made, on⟩
  rw [← driverdata_eq, Option.map_eq_some_iff] at made
  rcases made with ⟨state', made, rfl⟩
  exact ⟨state', made, on⟩

theorem testData_eq_some {rand : ℕ → BitVec 32} {before : CircleArrays}
    {s₁ s₂ s₃ : CircleArrays × ℕ} (made₁ : driverdata rand 0 (before, 0) = some s₁)
    (made₂ : driverdata rand 1 s₁ = some s₂) (made₃ : driverdata rand 2 s₂ = some s₃) :
    testData rand before = some s₃.1 := by
  simp [testData, made₁, made₂, made₃]

theorem testData_onScreen {rand : ℕ → BitVec 32} (nonneg : ∀ n, 0 ≤ (rand n).toInt)
    (before : CircleArrays) : ∃ arrays, testData rand before = some arrays ∧ arrays.OnScreen := by
  rcases driverdata_onScreen nonneg 0 (before, 0) with ⟨state₁, made₁, -⟩
  rcases driverdata_onScreen nonneg 1 state₁ with ⟨state₂, made₂, -⟩
  rcases driverdata_onScreen nonneg 2 state₂ with ⟨state₃, made₃, on⟩
  exact ⟨state₃.1, testData_eq_some made₁ made₂ made₃, on⟩

/-! ## The iteration -/

/-- `SET_RADIUS`, a store to `screen_mm[0]`. -/
def plotcircle_hw (c cx cy r : BitVec 32) : CProgram Unit := Program.write 0 (setRadius c cx cy r)

/-- The accelerated case. -/
def plotallcircles_hw (dx dy dr : Fin 50 → BitVec 32) : CProgram Unit :=
  forM (List.finRange 50) fun i : Fin 50 =>
    plotcircle_hw (BitVec.ofNat 32 (i % 10 + 1)) (dx i) (dy i) (dr i)

/-- One iteration of `main` after `driverdata`, with `screen` on the left and
`screen_mm` on the right; its results are the two checksums it compares. -/
def mainIteration (arrays : CircleArrays) :
    Program (BitVec 32 ⊕ BitVec 32) (BitVec 32) (BitVec 32 × BitVec 32) := do
  let ref ← (refchksum arrays.dx arrays.dy arrays.dr).mapIndex .inl
  clearscreen_hw.mapIndex .inr
  (plotallcircles_hw arrays.dx arrays.dy arrays.dr).mapIndex .inr
  let hw ← checkscreen_hw.mapIndex .inr
  return (ref, hw)

/-- The on-chip memory and the engines on the bus of a patient processor. -/
def mainDevice : Program.Device (BitVec 32 ⊕ BitVec 32) (BitVec 32) (ByteMem × PlotCircle) :=
  screenMemory.device.sum Eq PlotCircle.patientDevice PlotCircle.Rests

theorem mainDevice_refines : Program.Refines mainDevice (screenMemory.sum plotMemory)
    (fun s => True ∧ s.2.Valid) (Prod.map id fun s => bitsOf s.outcome) :=
  screenMemory.device_refines.sum (.eq _ _) PlotCircle.patientDevice_refines
    PlotCircle.settles_rests

/-- A program that is defined on `screenMM` commands no engine. -/
theorem exec_plotMemory {α : Type} {p : CProgram α} {bits : BitMem} {r : α × BitMem}
    (defined : p.exec screenMM bits = some r) : p.exec plotMemory bits = some r := by
  refine Program.exec_mono (fun found => ?_) (fun stored => ?_) defined
  · exact found
  · have all := stored
    simp only [screenMM] at all
    split at all
    · next storable => exact (if_pos storable.2).trans stored
    · cases all

/-- A command adds its figure. -/
theorem exec_plotcircle_hw (dx dy dr : Fin 50 → BitVec 32) (i : Fin 50) (bits : BitMem) :
    (plotcircle_hw (BitVec.ofNat 32 (i % 10 + 1)) (dx i) (dy i) (dr i)).exec plotMemory bits =
      some ((), bitsOf (litBits bits ∪ {p | p ∈ figure (commandWord dx dy dr i)})) := by
  have dest : (commandWord dx dy dr i).extractLsb' 26 6 = moduleId ⟨i % 10, by omega⟩ :=
    dest_commandWord i
  have own : ∃ j, (commandWord dx dy dr i).extractLsb' 26 6 = moduleId j := ⟨_, dest⟩
  have one : (commandWord dx dy dr i).extractLsb' 26 6 ≠ 0 := by
    rw [dest]
    exact moduleId_ne_zero _
  have inRange : (0 : BitVec 32) < 262144 := by decide
  have stored : plotMemory.write bits 0 (commandWord dx dy dr i) =
      some (bitsOf (litBits bits ∪ {p | p ∈ figure (commandWord dx dy dr i)})) := by
    simp only [plotMemory, if_neg one, if_pos inRange, own, true_and]
  simp only [plotcircle_hw, Program.write, Program.exec]
  rw [← commandWord, stored]

theorem exec_plotallcircles_hw (dx dy dr : Fin 50 → BitVec 32) (bits : BitMem) :
    (plotallcircles_hw dx dy dr).exec plotMemory bits =
      some ((), bitsOf (litBits bits ∪ {p | ∃ i, p ∈ figure (commandWord dx dy dr i)})) := by
  have each (is : List (Fin 50)) (bits : BitMem) :
      (forM is fun i : Fin 50 => plotcircle_hw (BitVec.ofNat 32 (i % 10 + 1)) (dx i) (dy i) (dr i) :
          CProgram PUnit).exec plotMemory bits =
        some ((), bitsOf (litBits bits ∪
          {p | ∃ i ∈ is, p ∈ figure (commandWord dx dy dr i)})) := by
    induction is generalizing bits with
    | nil => simp [Program.exec, pure]
    | cons i is ih =>
        rw [List.forM_cons, Program.exec_bind_of (exec_plotcircle_hw dx dy dr i bits), ih,
          litBits_bitsOf, Set.union_assoc]
        congr 4
        ext p
        simp
  have all := each (List.finRange 50) bits
  simpa [plotallcircles_hw] using all

/-! ## The verdict -/

section Verdict

variable (arrays : CircleArrays)

/-- The pixels of the circle in entry `i`. -/
def circleOf (i : Fin 50) : Set Pixel :=
  {p | p ∈ circle ((arrays.dx i).setWidth 9) ((arrays.dy i).setWidth 9)
    ((arrays.dr i).setWidth 8)}

/-- What the reference case draws. -/
def reference : Set Pixel := {p | ∃ i, p ∈ circleOf arrays i}

/-- What the engines draw. -/
def accelerated : Set Pixel :=
  {p | ∃ i, p ∈ figure (commandWord arrays.dx arrays.dy arrays.dr i)}

/-- Wherever a walk overruns, the pixels of its exit belong to some circle. -/
def SpillsCovered : Prop :=
  ∀ i o, Octant.spill? ((arrays.dr i).setWidth 8).toNat = some o →
    ∀ p ∈ o.pixels ((arrays.dx i).setWidth 9) ((arrays.dy i).setWidth 9), p ∈ reference arrays

/-- The figure of a command is its circle, and the exit of its walk. -/
theorem mem_figure_iff (i : Fin 50) (p : Pixel) :
    p ∈ figure (commandWord arrays.dx arrays.dy arrays.dr i) ↔
      p ∈ circleOf arrays i ∨ (arrays.dr i).setWidth 8 ≠ 0 ∧
        p ∈ (Octant.start ((arrays.dr i).setWidth 8).toNat).exit.pixels
          ((arrays.dx i).setWidth 9) ((arrays.dy i).setWidth 9) := by
  simp only [figure, commandWord, wordRx_setRadius, wordRy_setRadius, wordRadius_setRadius,
    circleOf, Set.mem_union, Set.mem_ofPred_eq]

theorem reference_subset_accelerated : reference arrays ⊆ accelerated arrays := by
  intro p drawn
  rcases drawn with ⟨i, drawn⟩
  exact ⟨i, (mem_figure_iff arrays i p).mpr (.inl drawn)⟩

/-- The engines draw the reference picture when all spills are covered, and only then. -/
theorem reference_eq_accelerated_iff :
    reference arrays = accelerated arrays ↔ SpillsCovered arrays := by
  have small (i : Fin 50) : ((arrays.dr i).setWidth 8).toNat ≤ 255 :=
    Nat.le_of_lt_succ ((arrays.dr i).setWidth 8).isLt
  constructor
  · intro same i o spills p out
    rcases (Octant.spill?_eq_some_iff (small i) o).mp spills with ⟨-, rfl⟩
    have large : (arrays.dr i).setWidth 8 ≠ 0 := by
      intro point
      rw [point] at spills
      cases spills
    rw [same]
    exact ⟨i, (mem_figure_iff arrays i p).mpr (.inr ⟨large, out⟩)⟩
  · intro covered
    refine (reference_subset_accelerated arrays).antisymm fun p drawn => ?_
    rcases drawn with ⟨i, drawn⟩
    rcases (mem_figure_iff arrays i p).mp drawn with onCircle | ⟨large, out⟩
    · exact ⟨i, onCircle⟩
    · by_cases overruns : Octant.Overruns ((arrays.dr i).setWidth 8).toNat
      · exact covered i _ ((Octant.spill?_eq_some_iff (small i) _).mpr ⟨overruns, rfl⟩) p out
      · exact ⟨i, (Octant.exit_pixels_iff large out).mpr overruns⟩

variable {arrays}

theorem exec_refchksum (on : arrays.OnScreen) (before : ByteMem) :
    ∃ mem, lit mem = reference arrays ∧
      (refchksum arrays.dx arrays.dy arrays.dr).exec screenMemory before =
        some (checksum mem, mem) := by
  have same : plotallcircles_ref arrays.dx arrays.dy arrays.dr =
      CirclePlotter.plotallcircles_ref arrays.dx arrays.dy arrays.dr := by
    unfold plotallcircles_ref CirclePlotter.plotallcircles_ref
    congr 1
    funext i
    exact plotcircle_eq _ _ (on i).radius
  have dark : lit (fun _ => 0) = ∅ := by
    ext p
    simp [lit]
  rcases exec_plotallcircles_ref on (fun _ => 0) with ⟨mem, drawn, shown⟩
  rw [dark, Set.empty_union] at shown
  refine ⟨mem, shown, ?_⟩
  rw [refchksum, Program.exec_bind_of (exec_clearscreen before), same,
    Program.exec_bind_of drawn, exec_checkscreen]

/-- Both cases on the memories of the two screens. -/
theorem exec_mainIteration (on : arrays.OnScreen) (before : ByteMem) (bits : BitMem) :
    ∃ mem mem', lit mem = reference arrays ∧ lit mem' = accelerated arrays ∧
      (refchksum arrays.dx arrays.dy arrays.dr).exec screenMemory before =
        some (checksum mem, mem) ∧
      (mainIteration arrays).exec (screenMemory.sum plotMemory) (before, bits) =
        some ((checksum mem, checksum mem'), mem, bitsOf (accelerated arrays)) := by
  rcases exec_refchksum on before with ⟨mem, shown, software⟩
  rcases exists_lit_eq (accelerated arrays) with ⟨mem', shown'⟩
  have cleared := exec_plotMemory (exec_clearscreen_hw bits)
  have dark : litBits (fun _ => 0) = ∅ := by
    ext p
    simp [litBits]
  have drawn : (plotallcircles_hw arrays.dx arrays.dy arrays.dr).exec plotMemory (fun _ => 0) =
      some ((), bitsOf (accelerated arrays)) := by
    rw [exec_plotallcircles_hw, dark, Set.empty_union]
    rfl
  have summed : checkscreen_hw.exec plotMemory (bitsOf (accelerated arrays)) =
      some (checksum mem', bitsOf (accelerated arrays)) :=
    exec_plotMemory (exec_checkscreen_hw_of_same (shown'.trans (litBits_bitsOf _).symm))
  refine ⟨mem, mem', shown, shown', software, ?_⟩
  rw [mainIteration, Program.exec_bind_of (Program.exec_inl_of software plotMemory bits),
    Program.exec_bind_of (Program.exec_inr_of cleared screenMemory mem),
    Program.exec_bind_of (Program.exec_inr_of drawn screenMemory mem),
    Program.exec_bind_of (Program.exec_inr_of summed screenMemory mem), Program.exec_pure]

/-- The verdict of `main` for a patient processor. With the data of `driverdata`
the test runs, from any contents of both screens, and however its accesses fall in
time it compares the same two numbers: the checksum of the reference case, and
another one. They agree, and `main` prints `Correct!`, exactly when the exits of the
walks with the radii 4, 11 and 134 are covered by circles. -/
theorem main_verdict_iff {rand : ℕ → BitVec 32} (nonneg : ∀ n, 0 ≤ (rand n).toInt)
    {arrays₀ : CircleArrays} (made : testData rand arrays₀ = some arrays) {before : ByteMem}
    {s : PlotCircle} (valid : s.Valid) :
    ∃ ref hw mem, (refchksum arrays.dx arrays.dy arrays.dr).exec screenMemory before =
        some (ref, mem) ∧
      (∃ s', Program.Runs mainDevice (mainIteration arrays) (before, s) (ref, hw) s') ∧
      (∀ r s', Program.Runs mainDevice (mainIteration arrays) (before, s) r s' → r = (ref, hw)) ∧
      (ref = hw ↔ SpillsCovered arrays) := by
  rcases testData_onScreen nonneg arrays₀ with ⟨arrays', made', on⟩
  rw [made] at made'
  cases made'
  rcases exec_mainIteration on before (bitsOf s.outcome) with
    ⟨mem, mem', shown, shown', software, outcome⟩
  refine ⟨checksum mem, checksum mem', mem, software,
    Program.runs_of_exec mainDevice_refines ⟨trivial, valid⟩ outcome, fun r s' runs => ?_, ?_⟩
  · exact (Program.exec_of_runs mainDevice_refines runs ⟨trivial, valid⟩ outcome).1
  · have subset : lit mem ⊆ lit mem' := by
      rw [shown, shown']
      exact reference_subset_accelerated arrays
    rw [checksum_eq_iff subset, shown, shown', reference_eq_accelerated_iff]

omit arrays in
/-- The walk of a circle of radius 4 ends at a pixel that is not on it. -/
theorem not_spillsCovered_four : ¬ SpillsCovered ⟨fun _ => 8, fun _ => 8, fun _ => 4⟩ := by
  intro covered
  have out : (⟨10, 12⟩ : Pixel) ∈ (Octant.start ((4 : BitVec 8).toNat : Int)).exit.pixels 8 8 := by
    change _ ∈ (Octant.start 4).exit.pixels 8 8
    rw [Octant.exit_of_overrun (x := 3) (by decide) (by decide) (by decide)]
    decide
  have spill : Octant.spill? ((4 : BitVec 32).setWidth 8).toNat = some ⟨2, 4, 11⟩ := rfl
  rcases covered 0 _ spill ⟨10, 12⟩ (by decide) with ⟨i, onCircle⟩
  exact (Octant.exit_pixels_iff (by decide) out).mp onCircle ⟨3, by decide, by decide⟩

omit arrays in
/-- Fifty times a circle of radius 4: the checksums differ. -/
theorem main_verdict_iff_four :
    let arrays : CircleArrays := ⟨fun _ => 8, fun _ => 8, fun _ => 4⟩
    ∃ ref hw mem, (refchksum arrays.dx arrays.dy arrays.dr).exec screenMemory (fun _ => 255) =
        some (ref, mem) ∧
      (∃ s', Program.Runs mainDevice (mainIteration arrays) (fun _ => 255, .blank) (ref, hw) s') ∧
      (∀ r s', Program.Runs mainDevice (mainIteration arrays) (fun _ => 255, .blank) r s' →
        r = (ref, hw)) ∧
      (ref = hw ↔ SpillsCovered arrays) ∧ ref ≠ hw := by
  intro arrays
  have filled (k n : ℕ) (before : CircleArrays) :
      ∃ n', driverdata (fun _ => 4) k (before, n) = some (arrays, n') :=
    foldlM_finRange_const umod_four before (n + k)
  rcases filled 0 0 ⟨fun _ => 0, fun _ => 0, fun _ => 0⟩ with ⟨n₁, made₁⟩
  rcases filled 1 n₁ arrays with ⟨n₂, made₂⟩
  rcases filled 2 n₂ arrays with ⟨n₃, made₃⟩
  have nonneg : 0 ≤ (4 : BitVec 32).toInt := by decide
  rcases @main_verdict_iff _ _ (fun _ => nonneg) _ (testData_eq_some made₁ made₂ made₃)
    (fun _ => 255) .blank (PlotCircle.valid_of_idle fun _ => rfl) with
    ⟨ref, hw, mem, reference, runs, always, verdict⟩
  exact ⟨ref, hw, mem, reference, runs, always, verdict,
    fun same => not_spillsCovered_four (verdict.mp same)⟩

end Verdict

end CirclePlotter.Parallel
