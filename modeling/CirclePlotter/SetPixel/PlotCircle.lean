import CirclePlotter.Raster

/-!
# `plot_circle`, the setpixel coprocessor

`setpixel-coprocessor/verilog/plot_circle.v` keeps one bit for each pixel and has
two ways to change it: a store on the memory-mapped slave writes the addressed
pixel, and the custom instruction sets the eight mirror images of a position. Both
go through the same eight coordinates and one `if (start)`. The output `result` is
not driven; `done` is always 1 and `waitrequest` always 0.
-/

namespace CirclePlotter.SetPixel

/-- The inputs of `plot_circle` other than its clock and reset. -/
structure Inputs where
  start : Bool
  A : BitVec 32
  B : BitVec 32
  read : Bool
  address : BitVec 18
  write : Bool
  writedata : BitVec 32

/-- `pixmem[x][y]` is the bit of the pixel `(x, y)`. -/
structure PlotCircle where
  pixmem : Pixel → BitVec 1

/-- The values the combinational block assigns before the write. -/
structure Selection where
  sumCxX : BitVec 9
  sumCyY : BitVec 9
  diffCyY : BitVec 9
  diffCxX : BitVec 9
  sumCxY : BitVec 9
  sumCyX : BitVec 9
  diffCyX : BitVec 9
  diffCxY : BitVec 9
  writebit : BitVec 1

namespace Inputs

/-- `address[8:0]`. -/
def addrx (i : Inputs) : BitVec 9 := i.address.extractLsb' 0 9

/-- `address[17:9]`. -/
def addry (i : Inputs) : BitVec 9 := i.address.extractLsb' 9 9

/-- `A[9:0]`. -/
def y (i : Inputs) : BitVec 10 := i.A.extractLsb' 0 10

/-- `A[19:10]`. -/
def x (i : Inputs) : BitVec 10 := i.A.extractLsb' 10 10

/-- `A[29:20]`. -/
def cy (i : Inputs) : BitVec 10 := i.A.extractLsb' 20 10

/-- `{B[7:0], A[31:30]}`. -/
def cx (i : Inputs) : BitVec 10 := i.B.extractLsb' 0 8 ++ i.A.extractLsb' 30 2

/-- The pixel a load or a store addresses. -/
def pixel (i : Inputs) : Pixel := ⟨i.addrx, i.addry⟩

/-- `if (write)` the coordinates of the store, `else` those of the instruction. -/
def select (i : Inputs) : Selection :=
  if i.write then
    { sumCxX := i.addrx, sumCxY := i.addrx, diffCxX := i.addrx, diffCxY := i.addrx
      sumCyY := i.addry, sumCyX := i.addry, diffCyY := i.addry, diffCyX := i.addry
      writebit := i.writedata.extractLsb' 0 1 }
  else
    { sumCxX := i.cx.setWidth 9 + i.x.setWidth 9
      sumCyY := i.cy.setWidth 9 + i.y.setWidth 9
      diffCyY := i.cy.setWidth 9 - i.y.setWidth 9
      diffCxX := i.cx.setWidth 9 - i.x.setWidth 9
      sumCxY := i.cx.setWidth 9 + i.y.setWidth 9
      sumCyX := i.cy.setWidth 9 + i.x.setWidth 9
      diffCyX := i.cy.setWidth 9 - i.x.setWidth 9
      diffCxY := i.cx.setWidth 9 - i.y.setWidth 9
      writebit := 1 }

end Inputs

namespace Selection

/-- The eight pixels that are written, in order. -/
def pixels (c : Selection) : List Pixel :=
  [⟨c.sumCxX, c.sumCyY⟩, ⟨c.sumCxX, c.diffCyY⟩, ⟨c.diffCxX, c.sumCyY⟩, ⟨c.diffCxX, c.diffCyY⟩,
    ⟨c.sumCxY, c.sumCyX⟩, ⟨c.sumCxY, c.diffCyX⟩, ⟨c.diffCxY, c.sumCyX⟩, ⟨c.diffCxY, c.diffCyX⟩]

end Selection

namespace PlotCircle

/-- State after reset. -/
def reset : PlotCircle := ⟨fun _ => 0⟩

/-- `_pixmem`: the eight writes are made `if (start)`. -/
def nextPixmem (s : PlotCircle) (i : Inputs) : Pixel → BitVec 1 :=
  if i.start then
    i.select.pixels.foldl (fun mem p => Function.update mem p i.select.writebit) s.pixmem
  else s.pixmem

/-- One rising edge of `clk`. -/
def tick (s : PlotCircle) (i : Inputs) : PlotCircle := ⟨s.nextPixmem i⟩

/-- `read ? {31'h0, pixmem[addrx][addry]} : 0`. -/
def readdata (s : PlotCircle) (i : Inputs) : BitVec 32 :=
  if i.read then 0#31 ++ s.pixmem ⟨i.addrx, i.addry⟩ else 0

/-- A load is answered in its own cycle. -/
def readdatavalid (_ : PlotCircle) (i : Inputs) : Bool := if i.read then true else false

end PlotCircle

end CirclePlotter.SetPixel
