import CirclePlotter.SetPixel.Operations
import CirclePlotter.TestData
import Mathlib.Logic.Relation

/-!
# `main` of the setpixel coprocessor

The program of this design never issues the custom instruction, so `start` is low in
all of its cycles, and the coprocessor loses every store. For the program it is
`deafMemory`: loads return the bits that were there at first, stores do nothing. Both
cases of `main` leave the pixel memory as they find it, and both checksums are 0.
-/

namespace CirclePlotter.SetPixel

/-! ## The program -/

/-- The code of `plotcircle` once more: no custom instruction. -/
def plotcircle_hw (cx cy r : BitVec 32) : CProgram Unit := plotcircle cx cy r

/-- The accelerated case. -/
def plotallcircles_hw (dx dy dr : Fin 50 → BitVec 32) : CProgram Unit :=
  forM (List.finRange 50) fun i => plotcircle_hw (dx i) (dy i) (dr i)

/-- `main` after `driverdata`; its results are the two checksums it prints. -/
def main (arrays : CircleArrays) : CProgram (BitVec 32 × BitVec 32) := do
  clearscreen
  plotallcircles_ref arrays.dx arrays.dy arrays.dr
  let reference ← checkscreen
  clearscreen
  plotallcircles_hw arrays.dx arrays.dy arrays.dr
  let accelerated ← checkscreen
  return (reference, accelerated)

/-! ## The slave port without the custom instruction -/

/-- `address[8:0]` and `address[17:9]` of the word `screen[index]`. -/
def pixelAt (index : BitVec 32) : Pixel :=
  ⟨(index.setWidth 18).extractLsb' 0 9, (index.setWidth 18).extractLsb' 9 9⟩

/-- A memory of pixels that ignores stores. -/
def deafMemory : Program.Memory (BitVec 32) (BitVec 32) (Pixel → BitVec 1) where
  read mem index := if index < 262144 then some ((mem (pixelAt index)).setWidth 32) else none
  write mem index _ := if index < 262144 then some mem else none

namespace PlotCircle

variable {s s' : PlotCircle}

/-- `s'` is reached from `s` by cycles without an access and without `start`. -/
def Rests : PlotCircle → PlotCircle → Prop :=
  Relation.ReflTransGen fun s s' =>
    ∃ i : Inputs, i.read = false ∧ i.write = false ∧ i.start = false ∧ s' = s.tick i

/-- The slave port as a processor uses it that never issues the custom instruction. -/
def slaveDevice : Program.Device (BitVec 32) (BitVec 32) PlotCircle where
  load s index word s' := ∃ s₁ i, Rests s s₁ ∧
    (i.read = true ∧ i.write = false ∧ i.start = false ∧ i.address = index.setWidth 18) ∧
    s₁.readdatavalid i = true ∧ word = s₁.readdata i ∧ s' = s₁.tick i
  store s index word s' := ∃ s₁ i, Rests s s₁ ∧
    (i.read = false ∧ i.write = true ∧ i.start = false ∧ i.address = index.setWidth 18 ∧
      i.writedata = word) ∧ s' = s₁.tick i

/-- Without `start` a cycle changes no pixel, not even that of a store. -/
theorem pixmem_tick (s : PlotCircle) {i : Inputs} (off : i.start = false) :
    (s.tick i).pixmem = s.pixmem := by
  simp [tick, nextPixmem, off]

theorem pixmem_of_rests (rests : Rests s s') : s'.pixmem = s.pixmem := by
  induction rests with
  | refl => rfl
  | tail _ step ih =>
      rcases step with ⟨i, -, -, off, rfl⟩
      exact (pixmem_tick _ off).trans ih

/-- The coprocessor is deaf to this processor. -/
theorem slaveDevice_refines :
    Program.Refines slaveDevice deafMemory (fun _ => True) pixmem where
  load := by
    intro s index word s' word' _ access defined
    rcases access with ⟨s₁, i, rests, ⟨read, -, off, address⟩, -, rfl, rfl⟩
    have same := pixmem_of_rests rests
    refine ⟨?_, trivial, (pixmem_tick _ off).trans same⟩
    simp only [deafMemory] at defined
    split at defined
    · rw [readdata_of_read s₁ read, same, ← Option.some.inj defined, Inputs.pixel, Inputs.addrx,
        Inputs.addry, address, pixelAt]
    · cases defined
  store := by
    intro s index word s' mem _ access defined
    rcases access with ⟨s₁, i, rests, ⟨-, -, off, -, -⟩, rfl⟩
    simp only [deafMemory] at defined
    split at defined
    · exact ⟨trivial, ((pixmem_tick _ off).trans (pixmem_of_rests rests)).trans
        (Option.some.inj defined)⟩
    · cases defined
  serves_load := by
    intro s index word _ _
    exact ⟨_, _, s, ⟨false, 0, 0, true, index.setWidth 18, false, 0⟩, .refl,
      ⟨rfl, rfl, rfl, rfl⟩, rfl, rfl, rfl⟩
  serves_store := by
    intro s index word mem _ _
    exact ⟨_, s, ⟨false, 0, 0, false, index.setWidth 18, true, word⟩, .refl,
      ⟨rfl, rfl, rfl, rfl, rfl⟩, rfl⟩

end PlotCircle

/-! ## The program on a deaf memory -/

/-- The sum `checkscreen` computes over the pixels it can address. -/
def checksum (mem : Pixel → BitVec 1) : BitVec 32 :=
  (List.range 32768).foldl (fun v i => v + (mem (pixelAt (BitVec.ofNat 32 i))).setWidth 32) 0

variable (mem : Pixel → BitVec 1)

/-- The indices the program uses are addresses of the slave. -/
theorem inRange_of_lt {index : BitVec 32} (below : index < 32768) : index < 262144 := by
  have below' : index.toNat < 32768 := below
  change index.toNat < 262144
  omega

theorem exec_clearscreen : clearscreen.exec deafMemory mem = some ((), mem) := by
  refine Program.exec_forM_kept fun i mem_range => ?_
  have inRange := inRange_of_lt (index_of_lt (List.mem_range.mp mem_range)).1
  simp only [Program.write, Program.exec, deafMemory, inRange, if_true]

theorem exec_checkscreen : checkscreen.exec deafMemory mem = some (checksum mem, mem) := by
  refine Program.exec_foldlM_read (fun i mem_range => ?_) _ _
  have inRange := inRange_of_lt (index_of_lt (List.mem_range.mp mem_range)).1
  simp only [deafMemory, inRange, if_true]

theorem exec_setpixel (x y : BitVec 32) : (setpixel x y).exec deafMemory mem = some ((), mem) := by
  unfold setpixel
  by_cases hx : x ≤ 511
  · by_cases hy : y ≤ 511
    · have inRange := inRange_of_lt (bytenum_lt hx hy)
      rw [if_neg (by simpa using hx), if_neg (by simpa using hy)]
      simp only [Program.read, Program.write, Program.load_bind, Program.pure_bind', Program.exec,
        deafMemory, inRange, if_true]
    · rw [if_neg (by simpa using hx), if_pos (by simpa using hy)]
      rfl
  · rw [if_pos (by simpa using hx)]
    rfl

theorem exec_plotallcircles_ref {arrays : CircleArrays} (on : arrays.OnScreen) :
    (plotallcircles_ref arrays.dx arrays.dy arrays.dr).exec deafMemory mem = some ((), mem) := by
  rw [plotallcircles_ref_eq_calls on]
  exact Program.exec_forM_kept fun c _ => exec_setpixel mem c.1 c.2

/-- Both cases find the pixels they started with. -/
theorem exec_main {arrays : CircleArrays} (on : arrays.OnScreen) :
    (main arrays).exec deafMemory mem = some ((checksum mem, checksum mem), mem) := by
  have reference := exec_plotallcircles_ref mem on
  have accelerated : (plotallcircles_hw arrays.dx arrays.dy arrays.dr).exec deafMemory mem =
      some ((), mem) := reference
  have cleared := exec_clearscreen mem
  have summed := exec_checkscreen mem
  rw [main, Program.exec_bind_of cleared, Program.exec_bind_of reference,
    Program.exec_bind_of summed, Program.exec_bind_of cleared, Program.exec_bind_of accelerated,
    Program.exec_bind_of summed, Program.exec_pure]

theorem checksum_reset : checksum PlotCircle.reset.pixmem = 0 := by
  have zeros (is : List ℕ) : is.foldl (fun v i => v +
      (PlotCircle.reset.pixmem (pixelAt (BitVec.ofNat 32 i))).setWidth 32) (0 : BitVec 32) = 0 := by
    induction is with
    | nil => rfl
    | cons i is ih => exact ih
  exact zeros (List.range 32768)

namespace PlotCircle

/-- `main` on the coprocessor, with the data of `driverdata`. However its accesses
fall in time it runs, leaves all pixels as they are, and prints the same checksum
for both cases: that of the pixels it found, after reset 0. The comparison does not
tell whether anything is drawn. -/
theorem main_checksums_vacuous {rand : ℕ → BitVec 32} (nonneg : ∀ n, 0 ≤ (rand n).toInt)
    {before arrays : CircleArrays} (made : driverdata rand before = some arrays) (s : PlotCircle) :
    (∃ s', Program.Runs slaveDevice (main arrays) s (checksum s.pixmem, checksum s.pixmem) s') ∧
      (∀ r s', Program.Runs slaveDevice (main arrays) s r s' →
        r = (checksum s.pixmem, checksum s.pixmem) ∧ s'.pixmem = s.pixmem) ∧
      (s = reset → checksum s.pixmem = 0) := by
  have outcome := exec_main s.pixmem (onScreen_of_driverdata nonneg made)
  refine ⟨Program.runs_of_exec slaveDevice_refines trivial outcome, fun r s' runs => ?_, ?_⟩
  · rcases Program.exec_of_runs slaveDevice_refines runs trivial outcome with ⟨value, -, same⟩
    exact ⟨value, same⟩
  · rintro rfl
    exact checksum_reset

/-- Fifty times a circle of radius 4, after reset. -/
theorem main_checksums_vacuous_four :
    let arrays : CircleArrays := ⟨fun _ => 8, fun _ => 8, fun _ => 4⟩
    (∃ s', Program.Runs slaveDevice (main arrays) reset
        (checksum reset.pixmem, checksum reset.pixmem) s') ∧
      (∀ r s', Program.Runs slaveDevice (main arrays) reset r s' →
        r = (checksum reset.pixmem, checksum reset.pixmem) ∧ s'.pixmem = reset.pixmem) ∧
      (reset = reset → checksum reset.pixmem = 0) := by
  intro arrays
  have made := driverdata_four ⟨fun _ => 0, fun _ => 0, fun _ => 0⟩
  exact main_checksums_vacuous (fun _ => by decide) made reset

end PlotCircle

end CirclePlotter.SetPixel
