import CirclePlotter.ReferenceCircle

/-!
# Pictures as text

The `printscreen` functions print a few characters for each pixel and a newline
after each row. `printEach` and `printRows` are their loops, and `rowsText` is the
text they print. The layout is fixed, so the text can be read back: when the
characters of a pixel can be split off the front of a text, two pictures with the
same text agree in every pixel that is printed.
-/

namespace CirclePlotter

/-! ## Text with a fixed layout -/

section Layout

variable {β γ : Type}

/-- When each part can be split off the front of a text, a sequence of parts can. -/
theorem flatMap_split {parts parts' : γ → List β} {Same : γ → Prop} {js : List γ}
    (each : ∀ j ∈ js, ∀ s t, parts j ++ s = parts' j ++ t → Same j ∧ s = t) {s t : List β}
    (same : js.flatMap parts ++ s = js.flatMap parts' ++ t) : (∀ j ∈ js, Same j) ∧ s = t := by
  induction js with
  | nil => exact ⟨fun j mem => absurd mem List.not_mem_nil, same⟩
  | cons j js ih =>
      rw [List.flatMap_cons, List.flatMap_cons, List.append_assoc, List.append_assoc] at same
      rcases each j List.mem_cons_self _ _ same with ⟨here, rest⟩
      rcases ih (fun j' later => each j' (List.mem_cons_of_mem j later)) rest with ⟨others, tail⟩
      refine ⟨fun j' mem => ?_, tail⟩
      rcases List.mem_cons.mp mem with rfl | later
      · exact here
      · exact others j' later

end Layout

/-- The text of `rows` rows of 512 pixels. -/
def rowsText (rows : ℕ) (glyph : ℕ → ℕ → List Char) : List Char :=
  (List.range rows).flatMap fun x => (List.range 512).flatMap (glyph x) ++ ['\n']

/-- The text tells what has been printed for each pixel. -/
theorem rowsText_split {rows : ℕ} {glyph glyph' : ℕ → ℕ → List Char} (Same : ℕ → ℕ → Prop)
    (each : ∀ x y s t, glyph x y ++ s = glyph' x y ++ t → Same x y ∧ s = t)
    (same : rowsText rows glyph = rowsText rows glyph') {x y : ℕ} (row : x < rows)
    (column : y < 512) : Same x y := by
  have line (x : ℕ) (s t : List Char) (same : (List.range 512).flatMap (glyph x) ++ ['\n'] ++ s =
      (List.range 512).flatMap (glyph' x) ++ ['\n'] ++ t) :
      (∀ y ∈ List.range 512, Same x y) ∧ s = t := by
    rw [List.append_assoc, List.append_assoc] at same
    rcases flatMap_split (fun y _ => each x y) same with ⟨cells, rest⟩
    exact ⟨cells, List.append_cancel_left rest⟩
  rw [← List.append_nil (rowsText rows glyph), ← List.append_nil (rowsText rows glyph')] at same
  rcases flatMap_split (fun x _ => line x) same with ⟨lines, -⟩
  exact lines x (List.mem_range.mpr row) y (List.mem_range.mpr column)

/-! ## The loops -/

section Loops

variable {I W μ γ : Type}

/-- A loop that prints a part for each `j`. -/
def printEach (js : List γ) (part : γ → Program I W (List Char)) : Program I W (List Char) :=
  js.foldlM (fun text j => do
    let more ← part j
    return text ++ more) []

/-- `for (x=0; x<rows; x++)` and `for (y=0; y<SCREENSIZE; y++)`, with what is printed
for a pixel. -/
def printRows (rows : ℕ) (cell : BitVec 32 → BitVec 32 → Program I W (List Char)) :
    Program I W (List Char) :=
  printEach (List.range rows) fun x => do
    let line ← printEach (List.range 512) fun y => cell (BitVec.ofNat 32 x) (BitVec.ofNat 32 y)
    return line ++ ['\n']

variable {M : Program.Memory I W μ} {m : μ}

theorem exec_printEach {js : List γ} {part : γ → Program I W (List Char)} {text : γ → List Char}
    (each : ∀ j ∈ js, (part j).exec M m = some (text j, m)) :
    (printEach js part).exec M m = some (js.flatMap text, m) := by
  have loop (before : List Char) :
      (js.foldlM (fun text j => do
        let more ← part j
        return text ++ more : List Char → γ → Program I W (List Char)) before).exec M m =
        some (before ++ js.flatMap text, m) := by
    induction js generalizing before with
    | nil => rw [List.flatMap_nil, List.append_nil]; rfl
    | cons j js ih =>
        have printed : (do
            let more ← part j
            return before ++ more : Program I W (List Char)).exec M m =
              some (before ++ text j, m) := by
          rw [Program.exec_bind_of (each j List.mem_cons_self), Program.exec_pure]
        rw [List.foldlM_cons, Program.exec_bind_of printed,
          ih fun j' later => each j' (List.mem_cons_of_mem j later), List.flatMap_cons,
          List.append_assoc]
  exact loop []

theorem exec_printRows {rows : ℕ} {cell : BitVec 32 → BitVec 32 → Program I W (List Char)}
    {glyph : ℕ → ℕ → List Char}
    (each : ∀ x < rows, ∀ y < 512,
      (cell (BitVec.ofNat 32 x) (BitVec.ofNat 32 y)).exec M m = some (glyph x y, m)) :
    (printRows rows cell).exec M m = some (rowsText rows glyph, m) := by
  refine exec_printEach fun x row => ?_
  have line := exec_printEach fun y column =>
    each x (List.mem_range.mp row) y (List.mem_range.mp column)
  rw [Program.exec_bind_of line, Program.exec_pure]

end Loops

/-! ## `printscreen` -/

/-- The pixel printed in row `x` and column `y`. -/
def printedPixel (x y : ℕ) : Pixel := ⟨BitVec.ofNat 9 x, BitVec.ofNat 9 y⟩

/-- `if (getpixel(x,y)) printf("*"); else printf(".");` for each pixel. -/
def printPixels (rows : ℕ) : CProgram (List Char) :=
  printRows rows fun x y => do
    let pixel ← getpixel x y
    return if pixel ≠ 0 then ['*'] else ['.']

/-- `printscreen` of `main.c`, with the text it prints as its result. -/
def printscreen : CProgram (List Char) := printPixels 512

/-- The text of a screen. -/
def screenText (rows : ℕ) (mem : ByteMem) : List Char :=
  rowsText rows fun x y =>
    if (mem (printedPixel x y).addr).getLsbD (printedPixel x y).bit.toNat then ['*'] else ['.']

theorem ofNat_le {n : ℕ} (below : n < 512) : BitVec.ofNat 32 n ≤ 511 := by
  change (BitVec.ofNat 32 n).toNat ≤ 511
  rw [BitVec.toNat_ofNat]
  omega

theorem setWidth_ofNat (n : ℕ) : (BitVec.ofNat 32 n).setWidth 9 = BitVec.ofNat 9 n := by
  apply BitVec.eq_of_toNat_eq
  rw [BitVec.toNat_setWidth, BitVec.toNat_ofNat, BitVec.toNat_ofNat]
  omega

/-- A loop that only reads runs on every memory that reads like the byte array. -/
theorem exec_getpixel_eq {M : Program.Memory (BitVec 32) (BitVec 32) ByteMem} {mem : ByteMem}
    (reads : M.read mem = screenMemory.read mem) {x y : ℕ} (row : x < 512) (column : y < 512) :
    (getpixel (BitVec.ofNat 32 x) (BitVec.ofNat 32 y)).exec M mem =
      some (if (mem (printedPixel x y).addr).getLsbD (printedPixel x y).bit.toNat then 1 else 0,
        mem) := by
  have hx := ofNat_le row
  have hy := ofNat_le column
  have inRange := bytenum_lt hx hy
  have word := getpixel_word (BitVec.ofNat 32 x) (BitVec.ofNat 32 y) (mem (printedPixel x y).addr)
  have pixel : (⟨(BitVec.ofNat 32 x).setWidth 9, (BitVec.ofNat 32 y).setWidth 9⟩ : Pixel) =
      printedPixel x y := by
    rw [setWidth_ofNat, setWidth_ofNat, printedPixel]
  rw [pixel] at word
  unfold getpixel
  rw [if_neg (by simpa using hx), if_neg (by simpa using hy)]
  simp only [Program.read, Program.load_bind, Program.pure_bind', Program.exec, reads,
    screenMemory, inRange, if_true, bytenum_eq_addr hx hy, pixel]
  simp only [word]
  split <;> rfl

theorem exec_printPixels {M : Program.Memory (BitVec 32) (BitVec 32) ByteMem} {mem : ByteMem}
    (reads : M.read mem = screenMemory.read mem) {rows : ℕ} (fits : rows ≤ 512) :
    (printPixels rows).exec M mem = some (screenText rows mem, mem) := by
  refine exec_printRows fun x row y column => ?_
  rw [Program.exec_bind_of (exec_getpixel_eq reads (by omega) column), Program.exec_pure]
  cases (mem (printedPixel x y).addr).getLsbD (printedPixel x y).bit.toNat <;> rfl

/-- The text tells which of its pixels are lit. -/
theorem screenText_split {rows : ℕ} {mem mem' : ByteMem}
    (same : screenText rows mem = screenText rows mem') {p : Pixel} (shown : p.x.toNat < rows) :
    p ∈ lit mem ↔ p ∈ lit mem' := by
  have cell := rowsText_split
    (fun x y => (mem (printedPixel x y).addr).getLsbD (printedPixel x y).bit.toNat =
      (mem' (printedPixel x y).addr).getLsbD (printedPixel x y).bit.toNat)
    (fun x y s t same => by
      revert same
      cases (mem (printedPixel x y).addr).getLsbD (printedPixel x y).bit.toNat <;>
        cases (mem' (printedPixel x y).addr).getLsbD (printedPixel x y).bit.toNat <;> simp)
    same shown p.y.isLt
  have pixel : printedPixel p.x.toNat p.y.toNat = p := by
    simp [printedPixel]
  rw [pixel] at cell
  rw [mem_lit, mem_lit, cell]

/-- The text of all rows determines the screen. -/
theorem screenText_inj {mem mem' : ByteMem} (same : screenText 512 mem = screenText 512 mem') :
    mem = mem' := by
  apply eq_of_lit_eq
  ext p
  exact screenText_split same p.x.isLt

end CirclePlotter
