import CirclePlotter.FinalDesign.Polling
import CirclePlotter.FinalDesign.SlavePort
import CirclePlotter.TestData

/-!
# `main` of the final design

The whole program, its accelerated case included, on the coprocessor.

* `plotterDevice` is the slave port with the two registers of the coprocessor. A
  store to `PIX_WSTART` is a start write and the instructions that
  `plotallcircles_hw` stages behind it, in which the bus is idle.
* `startWrite_triple` and `pollBusy_triple` are the registers: the staged
  instructions outlast the dispatch, and from then on `PIX_BUSY` can be trusted.
* `main_triple` puts the two cases of `main` together.

The status word alone would not do: it is 0 until the first engine is loaded.
-/

namespace CirclePlotter.FinalDesign

open Sync

/-! ## The program -/

/-- The indices of the two registers, counted in words from `screen`. -/
def PIX_BUSY : BitVec 32 := 0x40000
def PIX_WSTART : BitVec 32 := 0x40004

/-- The `nop` instructions of the macro `NOP`. -/
def NOP : ℕ := 23

/-- The `nop` instructions between the start write and the first poll. -/
def stagedNops : ℕ := 38 * NOP + 2

/-- `while(PIX_BUSY);`, undefined when none of the first `polls` polls reads 0. -/
def pollBusy : ℕ → CProgram Unit
  | 0 => .undefined
  | polls + 1 => do
      let busy ← Program.read PIX_BUSY
      if busy ≠ 0 then pollBusy polls else pure ()

/-- The accelerated case. -/
def plotallcircles_hw (dx : BitVec 32) (polls : ℕ) : CProgram Unit := do
  Program.write PIX_WSTART dx
  pollBusy polls

/-- The reference case of `main`, with its checksum. -/
def referenceCase (arrays : CircleArrays) : CProgram (BitVec 32) := do
  clearscreen
  plotallcircles_ref arrays.dx arrays.dy arrays.dr
  checkscreen

/-- `main` after `driverdata`, with `dx` the address of the arrays; its results
are the two checksums it prints. -/
def main (arrays : CircleArrays) (dx : BitVec 32) (polls : ℕ) :
    CProgram (BitVec 32 × BitVec 32) := do
  let reference ← referenceCase arrays
  clearscreen
  plotallcircles_hw dx polls
  let accelerated ← checkscreen
  return (reference, accelerated)

/-- The memory holds the arrays from `base` on. -/
structure Holds (mem : BitVec 18 → BitVec 32) (base : BitVec 18) (arrays : CircleArrays) :
    Prop where
  dx : ∀ n : Fin 50, dxAt mem base n = arrays.dx n
  dy : ∀ n : Fin 50, dyAt mem base n = arrays.dy n
  dr : ∀ n : Fin 50, drAt mem base n = arrays.dr n

namespace PlotCircle

variable {k delay : ℕ} {mem : BitVec 18 → BitVec 32} {s s' : PlotCircle} {i : BusIn}

/-! ## The registers of the coprocessor -/

/-- The slave port with `PIX_BUSY` and `PIX_WSTART`. The bus is idle for at least
`delay` periods after a start write. -/
def plotterDevice (k : ℕ) (mem : BitVec 18 → BitVec 32) (delay : ℕ) :
    Program.Device (BitVec 32) (BitVec 32) PlotCircle where
  load s index word s' :=
    if index = PIX_BUSY then ∃ s₁ i, Rests k mem s s₁ ∧
      (i.read = true ∧ i.write = false ∧ i.address = index.setWidth 19) ∧
      s₁.readdatavalid k i = true ∧ word = s₁.readdata k i ∧ s' = cycle k mem s₁ i
    else (slaveDevice k mem).load s index word s'
  store s index word s' :=
    if index = PIX_WSTART then ∃ s₁ i ins n, Rests k mem s s₁ ∧
      (i.read = false ∧ i.write = true ∧ i.address = index.setWidth 19 ∧ i.writedata = word) ∧
      delay ≤ n ∧ (∀ m, PortCycle (ins m) .idle) ∧ s' = run k mem (cycle k mem s₁ i) ins n
    else (slaveDevice k mem).store s index word s'

theorem silent_of_idle (port : PortCycle i .idle) : i.stores = false := by
  cases port with
  | idle _ notWrite _ => simp [BusIn.stores, notWrite]

/-- The registers are no part of the screen. -/
theorem plotterDevice_refines :
    Program.Refines (plotterDevice k mem delay) storableMemory Quiescent screen where
  load := by
    intro s index word s' word' idle access defined
    have other : index ≠ PIX_BUSY := fun busy =>
      absurd (read_eq_some defined).1 (by rw [busy]; decide)
    simp only [plotterDevice, if_neg other] at access
    exact slaveDevice_refines.load idle access defined
  store := by
    intro s index word s' μ idle access defined
    have other : index ≠ PIX_WSTART := fun begins =>
      absurd (write_eq_some defined).2.1 (by rw [begins]; decide)
    simp only [plotterDevice, if_neg other] at access
    exact slaveDevice_refines.store idle access defined
  serves_load := by
    intro s index word idle defined
    have other : index ≠ PIX_BUSY := fun busy =>
      absurd (read_eq_some defined).1 (by rw [busy]; decide)
    simp only [plotterDevice, if_neg other]
    exact slaveDevice_refines.serves_load idle defined
  serves_store := by
    intro s index word μ idle defined
    have other : index ≠ PIX_WSTART := fun begins =>
      absurd (write_eq_some defined).2.1 (by rw [begins]; decide)
    simp only [plotterDevice, if_neg other]
    exact slaveDevice_refines.serves_store idle defined

/-- The coprocessor is quiescent and shows `μ`. -/
def Shows (μ : ByteMem) (s : PlotCircle) : Prop := s.Quiescent ∧ s.screen = μ

/-- A function that only accesses the screen. -/
theorem screen_triple {α : Type} {p : CProgram α} {μ μ' : ByteMem} {a : α}
    (storable : (p.exec storableMemory μ).isSome) (outcome : p.exec screenMemory μ = some (a, μ')) :
    Program.Triple (plotterDevice k mem delay) (Shows μ) p fun r s => r = a ∧ s.Shows μ' := by
  obtain ⟨r, defined⟩ := Option.isSome_iff_exists.mp storable
  have plain : p.exec screenMemory μ = some r := by
    refine Program.exec_mono (fun found => ?_) (fun stored => ?_) defined
    · exact found
    · obtain ⟨-, inRange, rfl⟩ := write_eq_some stored
      exact if_pos inRange
  rw [outcome] at plain
  cases plain
  exact plotterDevice_refines.triple defined

/-! ## The accelerated case -/

/-- The start write, and as many idle periods as the dispatch takes. -/
theorem startWrite_triple (two : 2 ≤ k) (enough : dispatchBound k ≤ delay + 1) (dx : BitVec 32)
    (μ : ByteMem) :
    Program.Triple (plotterDevice k mem delay) (Shows μ) (Program.write PIX_WSTART dx)
      fun r s => r = () ∧
        s.Draining (lit μ ∪ {p | ∃ e, e < 50 ∧ p ∈ circleAt mem (dx.setWidth 18) e}) := by
  intro s pre
  rcases pre with ⟨idle, rfl⟩
  constructor
  · have quiet : PortCycle .rest .idle := .idle rfl rfl (by decide)
    have access : (plotterDevice k mem delay).store s PIX_WSTART dx
        (run k mem (cycle k mem s (.startWrite dx)) (fun _ => .rest) delay) := by
      simp only [plotterDevice, if_true]
      exact ⟨s, .startWrite dx, fun _ => .rest, delay, .refl, ⟨rfl, rfl, rfl, rfl⟩,
        Nat.le_refl _, fun _ => quiet, rfl⟩
    exact ⟨(), _, .store access .pure⟩
  · intro r s' runs
    cases runs with
    | store access rest =>
        cases rest
        simp only [plotterDevice, if_true] at access
        rcases access with ⟨s₁, i, ins, n, rests, ⟨notRead, writes, address, rfl⟩, later, port, rfl⟩
        rcases quiescent_of_rests idle rests with ⟨idle₁, same⟩
        have start : i.writestart = true := by
          rw [BusIn.writestart, address, writes]
          rfl
        rw [← same]
        exact ⟨rfl, draining_of_start two idle₁ start (fun m => (port m).not_writestart)
          (fun m => silent_of_idle (port m)) (by omega)⟩

variable {S : Set Pixel}

theorem Draining.of_rests (draining : s.Draining S) (two : 2 ≤ k) (rests : Rests k mem s s') :
    s'.Draining S := by
  induction rests with
  | refl => exact draining
  | tail _ step ih =>
      rcases step with ⟨i, port, rfl⟩
      exact ih.cycle two port.not_writestart (silent_of_idle port)

/-- The engines come to rest by themselves. -/
theorem Draining.exists_rests (draining : s.Draining S) (mem : BitVec 18 → BitVec 32)
    (positive : 0 < k) : ∃ s', Rests k mem s s' ∧ s'.Quiescent := by
  have quiet : PortCycle .rest .idle := .idle rfl rfl (by decide)
  have rests (n : ℕ) : Rests k mem s (run k mem s (fun _ => .rest) n) := by
    induction n with
    | zero => exact .refl
    | succ n ih => exact .tail ih ⟨.rest, quiet, rfl⟩
  have settles : ∃ N, ∀ n, N ≤ n → (run k mem s (fun _ => .rest) n).Quiescent :=
    draining.wf.settles positive fun _ => quiet.not_writestart
  rcases settles with ⟨N, settled⟩
  exact ⟨_, rests N, settled N (Nat.le_refl N)⟩

/-- A loop that has ended has read the word 0, and the picture is drawn. -/
theorem drawn_of_pollBusy (two : 2 ≤ k) {polls : ℕ} {u : Unit} (draining : s.Draining S)
    (runs : Program.Runs (plotterDevice k mem delay) (pollBusy polls) s u s') :
    s'.Quiescent ∧ lit s'.screen = S := by
  induction polls generalizing s with
  | zero => cases runs
  | succ polls ih =>
      cases runs with
      | load access rest =>
          simp only [plotterDevice, if_true] at access
          rcases access with ⟨s₁, i, rests, ⟨reads, notWrite, address⟩, -, rfl, rfl⟩
          have draining₁ := draining.of_rests two rests
          have polled : i.readstate = true := by
            rw [BusIn.readstate, address]
            rfl
          have quiet : i.writestart = false := by simp [BusIn.writestart, notWrite]
          have silent : i.stores = false := by simp [BusIn.stores, notWrite]
          have word : s₁.readdata k i = s₁.status k i := if_pos polled
          have loop : Program.Runs (plotterDevice k mem delay)
              (if s₁.status k i ≠ 0 then pollBusy polls else pure ()) (cycle k mem s₁ i) u s' := by
            rw [← word]
            exact rest
          by_cases ready : s₁.status k i = 0
          · rw [if_neg (not_not.mpr ready)] at loop
            cases loop
            exact draining₁.shows mem two quiet silent ready
          · rw [if_pos ready] at loop
            exact ih (draining₁.cycle two quiet silent) loop

/-- A quiescent coprocessor reports that it is ready. -/
theorem status_of_quiescent (idle : s.Quiescent) : s.status k i = 0 :=
  status_eq_zero_iff.mpr fun j => by rw [settled_of_wait idle.state]; exact idle.engines j

/-- `while(PIX_BUSY);` from the end of the dispatch on. -/
theorem pollBusy_triple (two : 2 ≤ k) (polls : ℕ) (μ : ByteMem) :
    Program.Triple (plotterDevice k mem delay) (fun s => s.Draining (lit μ)) (pollBusy (polls + 1))
      fun r s => r = () ∧ s.Shows μ := by
  intro s draining
  constructor
  · rcases draining.exists_rests mem (by omega : 0 < k) with ⟨s₁, rests, idle⟩
    have access : (plotterDevice k mem delay).load s PIX_BUSY 0
        (cycle k mem s₁ ⟨true, PIX_BUSY.setWidth 19, false, 0⟩) := by
      have polled : BusIn.readstate ⟨true, PIX_BUSY.setWidth 19, false, 0⟩ = true := rfl
      simp only [plotterDevice, if_true]
      refine ⟨s₁, _, rests, ⟨rfl, rfl, rfl⟩, ?_, ?_, rfl⟩
      · rw [readdatavalid, polled, Bool.or_true]
      · rw [readdata, polled, if_pos rfl, status_of_quiescent idle]
    exact ⟨(), _, .load access .pure⟩
  · intro r s' runs
    rcases drawn_of_pollBusy two draining runs with ⟨idle, shown⟩
    exact ⟨rfl, idle, eq_of_lit_eq shown⟩

/-! ## The outcome of `main` -/

theorem plotallcircles_ref_isSome {arrays : CircleArrays} (on : arrays.OnScreen) (μ : ByteMem) :
    ((plotallcircles_ref arrays.dx arrays.dy arrays.dr).exec storableMemory μ).isSome := by
  rw [plotallcircles_ref_eq_calls on]
  exact Program.exec_forM_isSome _ _ (fun c _ μ => setpixel_isSome c.1 c.2 μ) μ

/-- The circles in memory are those of the arrays. -/
theorem circles_of_holds {arrays : CircleArrays} {base : BitVec 18}
    (holds : Holds mem base arrays) :
    {p | ∃ e, e < 50 ∧ p ∈ circleAt mem base e} =
      {p | ∃ n : Fin 50, p ∈ circle ((arrays.dx n).setWidth 9) ((arrays.dy n).setWidth 9)
        ((arrays.dr n).setWidth 8)} := by
  ext p
  simp only [circleAt, Set.mem_ofPred_eq, Fin.exists_iff, ← holds.dx, ← holds.dy, ← holds.dr,
    exists_prop]

/-- Both cases of `main` draw the reference picture on a dark screen. -/
theorem main_triple (two : 2 ≤ k) {arrays : CircleArrays} {dx : BitVec 32}
    (holds : Holds mem (dx.setWidth 18) arrays) (on : arrays.OnScreen)
    (enough : dispatchBound k ≤ delay + 1) (polls : ℕ) (μ : ByteMem) :
    ∃ v μ', (referenceCase arrays).exec screenMemory μ = some (v, μ') ∧
      Program.Triple (plotterDevice k mem delay) (Shows μ) (main arrays dx (polls + 1))
        fun r s => r = (v, v) ∧ s.Shows μ' := by
  rcases exec_plotallcircles_ref on (fun _ => 0) with ⟨μ', outcome, picture⟩
  rcases exists_checkscreen μ' with ⟨v, sum⟩
  have cleared (μ : ByteMem) : Program.Triple (plotterDevice k mem delay) (Shows μ) clearscreen
      fun r s => r = () ∧ s.Shows fun _ => 0 :=
    screen_triple (clearscreen_isSome μ) (exec_clearscreen μ)
  have drawn : Program.Triple (plotterDevice k mem delay) (Shows fun _ => 0)
      (plotallcircles_ref arrays.dx arrays.dy arrays.dr) fun r s => r = () ∧ s.Shows μ' :=
    screen_triple (plotallcircles_ref_isSome on _) outcome
  have summed : Program.Triple (plotterDevice k mem delay) (Shows μ') checkscreen
      fun r s => r = v ∧ s.Shows μ' :=
    screen_triple (checkscreen_isSome μ') sum
  have started : Program.Triple (plotterDevice k mem delay) (Shows fun _ => 0)
      (Program.write PIX_WSTART dx) fun r s => r = () ∧ s.Draining (lit μ') := by
    rw [picture, ← circles_of_holds holds]
    exact startWrite_triple two enough dx _
  have accelerated : Program.Triple (plotterDevice k mem delay) (Shows fun _ => 0)
      (plotallcircles_hw dx (polls + 1)) fun r s => r = () ∧ s.Shows μ' :=
    started.bind_of (pollBusy_triple two polls μ')
  have reference : Program.Triple (plotterDevice k mem delay) (Shows μ) (referenceCase arrays)
      fun r s => r = v ∧ s.Shows μ' :=
    (cleared μ).bind_of (drawn.bind_of summed)
  refine ⟨v, μ', ?_, ?_⟩
  · rw [referenceCase, Program.exec_bind_of (exec_clearscreen μ), Program.exec_bind_of outcome, sum]
  · exact reference.bind_of ((cleared μ').bind_of (accelerated.bind_of
      (summed.bind_of (.pure fun _ shows => ⟨rfl, shows⟩))))

/-- `main` of the final design. The circles come from `driverdata`, and an
instruction takes at least so many clock periods that the staged ones outlast the
dispatch of a batch. Then from any quiescent state `main` runs on the coprocessor,
and however the accesses fall in time, and however often `PIX_BUSY` is polled, it
prints the checksum of the reference case twice and leaves the picture of the
reference case on the screen. -/
theorem main_checksums_agree (two : 2 ≤ k) {rand : ℕ → BitVec 32}
    (nonneg : ∀ n, 0 ≤ (rand n).toInt) {before arrays : CircleArrays}
    (made : driverdata rand before = some arrays) {dx : BitVec 32}
    (holds : Holds mem (dx.setWidth 18) arrays) (idle : s.Quiescent) {c : ℕ}
    (enough : dispatchBound k ≤ stagedNops * c) (polls : ℕ) :
    ∃ v μ, (referenceCase arrays).exec screenMemory s.screen = some (v, μ) ∧
      (∃ s', Program.Runs (plotterDevice k mem (stagedNops * c)) (main arrays dx (polls + 1)) s
        (v, v) s') ∧
      ∀ r s', Program.Runs (plotterDevice k mem (stagedNops * c)) (main arrays dx (polls + 1)) s
        r s' → r = (v, v) ∧ s'.Quiescent ∧ s'.screen = μ := by
  rcases main_triple two holds (onScreen_of_driverdata nonneg made)
    (by omega : dispatchBound k ≤ stagedNops * c + 1) polls s.screen with ⟨v, μ, reference, triple⟩
  rcases triple s ⟨idle, rfl⟩ with ⟨⟨r, s', runs⟩, post⟩
  refine ⟨v, μ, reference, ⟨s', ?_⟩, post⟩
  rw [← (post r s' runs).1]
  exact runs

/-- Twice the clock, four periods for an instruction, and a `rand()` that always
returns 4: fifty times a circle of radius 4. -/
theorem main_checksums_agree_four :
    let arrays : CircleArrays := ⟨fun _ => 8, fun _ => 8, fun _ => 4⟩
    let memory (a : BitVec 18) : BitVec 32 := if a < 0x2800 + 400 then 8 else 4
    ∃ v μ, (referenceCase arrays).exec screenMemory blank.screen = some (v, μ) ∧
      (∃ s', Program.Runs (plotterDevice 2 memory (stagedNops * 4)) (main arrays 0x2800 1) blank
        (v, v) s') ∧
      ∀ r s', Program.Runs (plotterDevice 2 memory (stagedNops * 4)) (main arrays 0x2800 1) blank
        r s' → r = (v, v) ∧ s'.Quiescent ∧ s'.screen = μ := by
  intro arrays memory
  have made := driverdata_four ⟨fun _ => 0, fun _ => 0, fun _ => 0⟩
  have holds : Holds memory 0x2800 arrays := ⟨by decide, by decide, by decide⟩
  exact main_checksums_agree (by decide) (fun _ => by decide) made holds quiescent_blank
    (by decide) 0

end PlotCircle

end CirclePlotter.FinalDesign
