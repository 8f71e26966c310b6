import CirclePlotter.Display
import CirclePlotter.Parallel.Main

/-!
# The two screens of the parallel design as text

`printscreen` prints the software screen, and `printscreen_hw` both screens over each
other: a green star where both are lit, a red one where only one is. For a patient
processor it compares the software screen with what the engines are going to show.
-/

namespace CirclePlotter.Parallel

/-- `getpixel_hw` returns the word of the pixel, which is its bit shifted. -/
def getpixel_hw (x y : BitVec 32) : CProgram (BitVec 32) :=
  let bytenum := y * 512 + x
  if x > 511 then pure 0
  else if y > 511 then pure 0
  else Program.read bytenum

/-- `printscreen` of this design prints the left half of the screen. -/
def printscreen : CProgram (List Char) := printPixels 256

def ANSI_COLOR_RED : List Char := "\x1b[31m".toList
def ANSI_COLOR_GREEN : List Char := "\x1b[32m".toList
def ANSI_COLOR_RESET : List Char := "\x1b[0m".toList

/-- What `printscreen_hw` prints for a pixel. -/
def comparison (p1 p2 : Prop) [Decidable p1] [Decidable p2] : List Char :=
  if p1 ∧ p2 then ANSI_COLOR_GREEN ++ ['*'] ++ ANSI_COLOR_RESET
  else if p1 ∨ p2 then ANSI_COLOR_RED ++ ['*'] ++ ANSI_COLOR_RESET
  else ['.']

/-- `screen` is on the left and `screen_mm` on the right. -/
def printscreen_hw : Program (BitVec 32 ⊕ BitVec 32) (BitVec 32) (List Char) :=
  printRows 256 fun x y => do
    let p1 ← (getpixel x y).mapIndex .inl
    let p2 ← (getpixel_hw x y).mapIndex .inr
    return comparison (p1 ≠ 0) (p2 ≠ 0)

theorem exec_printscreen (mem : ByteMem) :
    printscreen.exec screenMemory mem = some (screenText 256 mem, mem) := by
  rw [printscreen, exec_printPixels rfl (by decide)]

/-- A bit stays in the word when it is shifted by less than eight. -/
theorem shifted_bit_ne_zero_iff (b : BitVec 1) (index : BitVec 32) :
    b.setWidth 32 <<< (index % 8) ≠ 0 ↔ b = 1 := by
  have all : ∀ (b : BitVec 1) (shift : Fin 8), b.setWidth 32 <<< (shift : ℕ) ≠ 0 ↔ b = 1 := by
    decide
  have below : (index % 8).toNat < 8 := by
    rw [BitVec.toNat_umod]
    exact Nat.mod_lt _ (by decide)
  exact all b ⟨(index % 8).toNat, below⟩

theorem exec_getpixel_hw (bits : BitMem) {x y : ℕ} (row : x < 512) (column : y < 512) :
    ∃ word, (getpixel_hw (BitVec.ofNat 32 x) (BitVec.ofNat 32 y)).exec plotMemory bits =
        some (word, bits) ∧ (word ≠ 0 ↔ printedPixel x y ∈ litBits bits) := by
  have hx := ofNat_le row
  have hy := ofNat_le column
  have sum : (BitVec.ofNat 32 y * 512 + BitVec.ofNat 32 x).toNat = 512 * y + x := by
    have scale : (512 : BitVec 32).toNat = 512 := rfl
    simp only [BitVec.toNat_add, BitVec.toNat_mul, BitVec.toNat_ofNat, scale]
    omega
  have inRange : BitVec.ofNat 32 y * 512 + BitVec.ofNat 32 x < 262144 := by
    rw [BitVec.lt_def, sum]
    change _ < 262144
    omega
  have address : (BitVec.ofNat 32 y * 512 + BitVec.ofNat 32 x).setWidth 18 =
      (printedPixel x y).index := by
    apply BitVec.eq_of_toNat_eq
    rw [BitVec.toNat_setWidth, sum, Pixel.index_toNat]
    simp only [printedPixel, BitVec.toNat_ofNat]
    omega
  refine ⟨_, ?_, shifted_bit_ne_zero_iff (bits (printedPixel x y).index)
    (BitVec.ofNat 32 y * 512 + BitVec.ofNat 32 x)⟩
  unfold getpixel_hw
  rw [if_neg (by simpa using hx), if_neg (by simpa using hy)]
  simp only [Program.read, Program.exec, plotMemory, screenMM, inRange, if_true, address]

theorem comparison_congr {p1 p2 q1 q2 : Prop} [Decidable p1] [Decidable p2] [Decidable q1]
    [Decidable q2] (left : p1 ↔ q1) (right : p2 ↔ q2) : comparison p1 p2 = comparison q1 q2 := by
  simp only [comparison, left, right]

/-- The colours and the dot can be split off the front of a text. -/
theorem comparison_split {p1 p2 q1 q2 : Prop} [Decidable p1] [Decidable p2] [Decidable q1]
    [Decidable q2] {s t : List Char} (same : comparison p1 p2 ++ s = comparison q1 q2 ++ t) :
    ((p1 ∧ p2 ↔ q1 ∧ q2) ∧ (p1 ∨ p2 ↔ q1 ∨ q2)) ∧ s = t := by
  have red : ANSI_COLOR_RED = ['\x1b', '[', '3', '1', 'm'] := rfl
  have green : ANSI_COLOR_GREEN = ['\x1b', '[', '3', '2', 'm'] := rfl
  revert same
  by_cases h1 : p1 <;> by_cases h2 : p2 <;> by_cases h3 : q1 <;> by_cases h4 : q2 <;>
    simp [comparison, h1, h2, h3, h4, red, green]

instance (p : Pixel) (mem : ByteMem) : Decidable (p ∈ lit mem) := decidable_of_iff _ mem_lit.symm

instance (p : Pixel) (bits : BitMem) : Decidable (p ∈ litBits bits) :=
  inferInstanceAs (Decidable (bits p.index = 1))

/-- The text of two screens. -/
def comparisonText (mem : ByteMem) (bits : BitMem) : List Char :=
  rowsText 256 fun x y => comparison (printedPixel x y ∈ lit mem) (printedPixel x y ∈ litBits bits)

theorem exec_printscreen_hw (mem : ByteMem) (bits : BitMem) :
    printscreen_hw.exec (screenMemory.sum plotMemory) (mem, bits) =
      some (comparisonText mem bits, (mem, bits)) := by
  refine exec_printRows fun x row y column => ?_
  have reads : screenMemory.read mem = screenMemory.read mem := rfl
  have left := exec_getpixel_eq reads (x := x) (by omega) column
  rcases exec_getpixel_hw bits (x := x) (by omega) column with ⟨word, right, shown⟩
  rw [Program.exec_bind_of (Program.exec_inl_of left plotMemory bits),
    Program.exec_bind_of (Program.exec_inr_of right screenMemory mem), Program.exec_pure]
  have software : ((if (mem (printedPixel x y).addr).getLsbD (printedPixel x y).bit.toNat then 1
      else 0 : BitVec 32) ≠ 0) ↔ printedPixel x y ∈ lit mem := by
    rw [mem_lit]
    cases (mem (printedPixel x y).addr).getLsbD (printedPixel x y).bit.toNat <;> simp
  exact congrArg (fun text => some (text, mem, bits)) (comparison_congr software shown)

/-- The text tells, for each pixel it shows, on how many of the screens it is lit. -/
theorem comparisonText_split {mem mem' : ByteMem} {bits bits' : BitMem}
    (same : comparisonText mem bits = comparisonText mem' bits') {p : Pixel}
    (shown : p.x.toNat < 256) :
    ((p ∈ lit mem ∧ p ∈ litBits bits) ↔ p ∈ lit mem' ∧ p ∈ litBits bits') ∧
      ((p ∈ lit mem ∨ p ∈ litBits bits) ↔ p ∈ lit mem' ∨ p ∈ litBits bits') := by
  have cell := rowsText_split _ (fun x y s t => comparison_split) same shown p.y.isLt
  have pixel : printedPixel p.x.toNat p.y.toNat = p := by
    simp [printedPixel]
  rw [pixel] at cell
  exact cell

/-! ## The comparison on the coprocessor -/

variable {mem : ByteMem} {s : PlotCircle}

/-- `printscreen_hw` runs for a patient processor, and however its accesses fall in
time it prints one text and changes neither screen. Another two screens for which it
prints this text have the same green stars and the same stars of both colours: of
each pixel of the left half it tells whether both screens show it, and whether one
of them does. With the text of `printscreen` it tells which. -/
theorem printscreen_hw_compares (valid : s.Valid) :
    ∃ text left, printscreen.exec screenMemory mem = some (left, mem) ∧
      (∃ s', Program.Runs mainDevice printscreen_hw (mem, s) text s') ∧
      (∀ text' s', Program.Runs mainDevice printscreen_hw (mem, s) text' s' →
        text' = text ∧ s'.1 = mem ∧ s'.2.outcome = s.outcome) ∧
      ∀ mem' t t', t.Valid → Program.Runs mainDevice printscreen_hw (mem', t) text t' →
        ∀ p : Pixel, p.x.toNat < 256 →
          ((p ∈ lit mem ∧ p ∈ s.outcome) ↔ p ∈ lit mem' ∧ p ∈ t.outcome) ∧
            ((p ∈ lit mem ∨ p ∈ s.outcome) ↔ p ∈ lit mem' ∨ p ∈ t.outcome) ∧
            (printscreen.exec screenMemory mem' = some (left, mem') →
              (p ∈ lit mem ↔ p ∈ lit mem') ∧ (p ∈ s.outcome ↔ p ∈ t.outcome)) := by
  have outcome (mem : ByteMem) (s : PlotCircle) :
      printscreen_hw.exec (screenMemory.sum plotMemory) (mem, bitsOf s.outcome) =
        some (comparisonText mem (bitsOf s.outcome), (mem, bitsOf s.outcome)) :=
    exec_printscreen_hw mem (bitsOf s.outcome)
  refine ⟨_, _, exec_printscreen mem,
    Program.runs_of_exec mainDevice_refines ⟨trivial, valid⟩ (outcome mem s),
    fun text' s' runs => ?_, fun mem' t t' valid' runs p shown => ?_⟩
  · rcases Program.exec_of_runs mainDevice_refines runs ⟨trivial, valid⟩ (outcome mem s) with
      ⟨value, -, same⟩
    rcases Prod.mk.inj same with ⟨left, right⟩
    have kept := congrArg litBits right
    rw [litBits_bitsOf, litBits_bitsOf] at kept
    exact ⟨value, left, kept⟩
  · rcases Program.exec_of_runs mainDevice_refines runs ⟨trivial, valid'⟩ (outcome mem' t) with
      ⟨same, -, -⟩
    rcases comparisonText_split same shown with ⟨both, either⟩
    rw [litBits_bitsOf, litBits_bitsOf] at both either
    refine ⟨both, either, fun printed => ?_⟩
    rw [exec_printscreen, Option.some.injEq, Prod.mk.injEq] at printed
    have software : p ∈ lit mem ↔ p ∈ lit mem' := (screenText_split printed.1 shown).symm
    refine ⟨software, ?_⟩
    -- lit on the software screen, the green stars tell, and otherwise all stars
    by_cases here : p ∈ lit mem'
    · simpa only [software, here, true_and] using both
    · simpa only [software, here, false_or] using either

/-- A white software screen, and an engine that has just been sent a circle. -/
theorem printscreen_hw_compares_command :
    let plotting := PlotCircle.blank.tick (.command 1 100 100 10)
    ∃ text left, printscreen.exec screenMemory (fun _ => 255) = some (left, fun _ => 255) ∧
      (∃ s', Program.Runs mainDevice printscreen_hw (fun _ => 255, plotting) text s') ∧
      (∀ text' s', Program.Runs mainDevice printscreen_hw (fun _ => 255, plotting) text' s' →
        text' = text ∧ s'.1 = (fun _ => 255) ∧ s'.2.outcome = plotting.outcome) ∧
      ∀ mem' t t', t.Valid → Program.Runs mainDevice printscreen_hw (mem', t) text t' →
        ∀ p : Pixel, p.x.toNat < 256 →
          ((p ∈ lit (fun _ => 255) ∧ p ∈ plotting.outcome) ↔ p ∈ lit mem' ∧ p ∈ t.outcome) ∧
            ((p ∈ lit (fun _ => 255) ∨ p ∈ plotting.outcome) ↔ p ∈ lit mem' ∨ p ∈ t.outcome) ∧
            (printscreen.exec screenMemory mem' = some (left, mem') →
              (p ∈ lit (fun _ => 255) ↔ p ∈ lit mem') ∧
                (p ∈ plotting.outcome ↔ p ∈ t.outcome)) := by
  have idle : PlotCircle.blank.Idle := fun _ => rfl
  exact printscreen_hw_compares ((PlotCircle.valid_of_idle idle).tick _)

end CirclePlotter.Parallel
