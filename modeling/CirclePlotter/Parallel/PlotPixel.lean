import CirclePlotter.DualPortRam
import CirclePlotter.Raster
import CirclePlotter.Registers

/-!
# `plot_pixel`, the circle engine of the parallel design

One circle engine of `circle-modules-in-parallel/verilog/plot_circle.v`. Every
engine sees the whole bus; the top six bits of a written word name the engine
that takes it as a circle, and 0 in them clears the addressed pixel in all
engines. The engine has no output that tells whether it is drawing.
-/

namespace CirclePlotter.Parallel

/-- The `localparam`s of `plot_pixel` that `state` takes; `WRITE4` to `WRITE7`
are never assigned to it. -/
inductive PixelState where
  | wait | compute | write0 | write1 | write2 | write3
  deriving DecidableEq, Repr

/-- The registers of `plot_pixel` and its `ram0`. -/
structure PlotPixel where
  rx : BitVec 9
  ry : BitVec 9
  x : BitVec 10
  y : BitVec 10
  xp : BitVec 11
  radius : BitVec 8
  lread : Bool
  state : PixelState
  ram0 : DualPortRam 18 1

/-- The slave port in one clock cycle. -/
structure BusIn where
  read : Bool
  address : BitVec 18
  write : Bool
  writedata : BitVec 32

/-- What the control logic computes: `_x`, `_y`, `_xp`, `_state` and the two
RAM ports (`isset`, `addr_a`, `we_a` and `isset`, `addr_b`, `we_b`). -/
structure Control where
  x : BitVec 10
  y : BitVec 10
  xp : BitVec 11
  state : PixelState
  portA : RamPort 18 1
  portB : RamPort 18 1

namespace BusIn

/-- No access. -/
def rest : BusIn := ⟨false, 0, false, 0⟩

/-- `writedata[31:26]`. -/
def dest (i : BusIn) : BitVec 6 := i.writedata.extractLsb' 26 6

/-- `write & tome` in the engine with this `ID`. -/
def load (i : BusIn) (id : BitVec 6) : Bool := i.write && i.dest == id

/-- `write & toall`. -/
def clear (i : BusIn) : Bool := i.write && i.dest == 0

end BusIn

namespace PlotPixel

/-- State after reset; `radius`, `xp` and the RAM are not reset. -/
structure Reset (m : PlotPixel) : Prop where
  rx : m.rx = 0
  ry : m.ry = 0
  y : m.y = 0
  x : m.x = 0
  state : m.state = .wait
  lread : m.lread = false

/-- A state after reset, with an empty RAM. -/
def blank : PlotPixel where
  rx := 0
  ry := 0
  x := 0
  y := 0
  xp := 0
  radius := 0
  lread := false
  state := .wait
  ram0 := ⟨fun _ => 0, 0, 0⟩

/-- `assign readdata = q_a`. -/
def readdata (m : PlotPixel) : BitVec 1 := m.ram0.qA

/-- `assign readdatavalid = lread`. -/
def readdatavalid (m : PlotPixel) : Bool := m.lread

end PlotPixel

/-- The body the branches that draw share: write `isset` to the pixels `a` and
`b` and go to the state `after`. -/
def Control.writePair (c : Control) (a b : Pixel) (after : PixelState) : Control :=
  { c with
    portA := { c.portA with addr := a.index, we := true }
    portB := { c.portB with addr := b.index, we := true }
    state := after }

namespace PlotPixel

/-- `_x`, `_y` and `_xp` as the `COMPUTE` branch assigns them. -/
def computed (m : PlotPixel) : BitVec 10 × BitVec 10 × BitVec 11 :=
  let y' := m.y + 1
  if m.xp.slt 0 then (m.x, y', m.xp + (y' ++ 0#1) + 1)
  else
    let x' := m.x - 1
    (x', y', m.xp + ((y' - x') ++ 0#1) + 1)

/-- The values the control block assigns before its `case`. -/
def idle (m : PlotPixel) (i : BusIn) : Control :=
  let isset := ~~~BitVec.ofBool i.clear
  let port : RamPort 18 1 := ⟨isset, i.address, i.clear⟩
  ⟨m.x, m.y, m.xp, m.state, port, port⟩

/-- The control logic and FSM. `COMPUTE` tests the position it leaves, and
draws the first pair of the next one. -/
def control (m : PlotPixel) (i : BusIn) : Control :=
  let c := m.idle i
  let x := m.x.setWidth 9
  let y := m.y.setWidth 9
  match m.state with
  | .wait => c
  | .compute =>
      if m.y.sle m.x then
        let (x', y', xp') := m.computed
        let c := { c with x := x', y := y', xp := xp' }
        if m.radius != 0 then
          c.writePair ⟨m.rx + x'.setWidth 9, m.ry + y'.setWidth 9⟩
            ⟨m.rx + y'.setWidth 9, m.ry + x'.setWidth 9⟩ .write1
        else { c with state := .wait }
      else { c with state := .wait }
  | .write0 => c.writePair ⟨m.rx + x, m.ry + y⟩ ⟨m.rx + y, m.ry + x⟩ .write1
  | .write1 => c.writePair ⟨m.rx + x, m.ry - y⟩ ⟨m.rx + y, m.ry - x⟩ .write2
  | .write2 => c.writePair ⟨m.rx - x, m.ry + y⟩ ⟨m.rx - y, m.ry + x⟩ .write3
  | .write3 => c.writePair ⟨m.rx - x, m.ry - y⟩ ⟨m.rx - y, m.ry - x⟩ .compute

/-- One rising edge of `clk` in the engine with this `ID`. -/
def tick (id : BitVec 6) (m : PlotPixel) (i : BusIn) : PlotPixel :=
  let c := m.control i
  let ram0 := m.ram0.tick c.portA c.portB
  if i.load id then
    { rx := wordRx i.writedata
      ry := wordRy i.writedata
      radius := wordRadius i.writedata
      x := (wordRadius i.writedata).setWidth 10
      xp := -(wordRadius i.writedata).setWidth 11 + 1
      y := 0
      state := .write0
      lread := i.read
      ram0 }
  else
    { m with
      state := c.state
      x := c.x
      y := c.y
      xp := c.xp
      lread := i.read
      ram0 }

end PlotPixel

end CirclePlotter.Parallel
