import CirclePlotter.DualPortRam
import CirclePlotter.Raster
import CirclePlotter.Registers

/-!
# `plot_pixel`, the circle engine of the final design

One circle engine of `verilog/plot_circle.v`: the registers, the address
wires, the control logic of the FSM and the clock edge. Wires and registers
keep their source names; `_x` and the like are the fields of `Control`.
Registers the reset does not touch (`radius`, `xp`, the RAM) are arbitrary
in `PlotPixel.Reset`.
-/

namespace CirclePlotter.FinalDesign

/-- The `localparam`s of `plot_pixel`, the values of `state` and `istate`. -/
inductive PixelState where
  | wait | compute | write0 | write1 | write2 | write3 | reading
  deriving DecidableEq, Repr

/-- The registers of `plot_pixel` and its `ram0`. -/
structure PlotPixel where
  rx : BitVec 9
  ry : BitVec 9
  x : BitVec 10
  y : BitVec 10
  xp : BitVec 11
  radius : BitVec 8
  lread : Bool
  state : PixelState
  istate : PixelState
  ram0 : DualPortRam 15 8

/-- The inputs of `plot_pixel` other than its clock and reset. -/
structure PixelIn where
  broadcast : Bool
  read : Bool
  address : BitVec 18
  write : Bool
  writedata : BitVec 32

/-- What the control logic computes: `_x`, `_y`, `_xp`, `_state`, `_istate` and
the two RAM ports (`ramvala`, `addr_a`, `we_a` and `ramvalb`, `addr_b`, `we_b`). -/
structure Control where
  x : BitVec 10
  y : BitVec 10
  xp : BitVec 11
  state : PixelState
  istate : PixelState
  portA : RamPort 15 8
  portB : RamPort 15 8

namespace PixelIn

/-- `write & tome`: the word on the bus is a circle for this module. -/
def load (i : PixelIn) : Bool := i.write && !i.broadcast

/-- `write & toall`: the word on the bus is a byte to store. -/
def store (i : PixelIn) : Bool := i.write && i.broadcast

end PixelIn

namespace PlotPixel

/-- State after reset. -/
structure Reset (m : PlotPixel) : Prop where
  rx : m.rx = 0
  ry : m.ry = 0
  y : m.y = 0
  x : m.x = 0
  state : m.state = .wait
  istate : m.istate = .wait
  lread : m.lread = false

/-- A state after reset, with an empty RAM. -/
def blank : PlotPixel where
  rx := 0
  ry := 0
  x := 0
  y := 0
  xp := 0
  radius := 0
  lread := false
  state := .wait
  istate := .wait
  ram0 := ⟨fun _ => 0, 0, 0⟩

/-- `assign ready = (state == WAIT)`. -/
def ready (m : PlotPixel) : Bool := m.state == .wait

/-- `assign readdata = q_a`. -/
def readdata (m : PlotPixel) : BitVec 8 := m.ram0.qA

/-- `assign readdatavalid = lread`. -/
def readdatavalid (m : PlotPixel) : Bool := m.lread

/-! ## Address wires -/

def xpx (m : PlotPixel) : BitVec 9 := m.rx + m.x.setWidth 9
def xpy (m : PlotPixel) : BitVec 9 := m.rx + m.y.setWidth 9
def xmx (m : PlotPixel) : BitVec 9 := m.rx - m.x.setWidth 9
def xmy (m : PlotPixel) : BitVec 9 := m.rx - m.y.setWidth 9

end PlotPixel

/-- The body the branches `WRITE0` to `WRITE3` share: present the bytes of the
pixels `a` and `b`; in the first tick only read them, in the second write them
back with the pixels' bits set and go to the state `after`. -/
def Control.writePair (c : Control) (m : PlotPixel) (a b : Pixel) (after : PixelState) : Control :=
  if m.istate = .reading then
    { c with
      portA := { c.portA with addr := a.addr }
      portB := { c.portB with addr := b.addr }
      istate := m.state }
  else
    { c with
      portA := ⟨a.mask ||| m.ram0.qA, a.addr, true⟩
      portB := ⟨b.mask ||| m.ram0.qB, b.addr, true⟩
      state := after
      istate := .reading }

namespace PlotPixel

/-- `_x`, `_y` and `_xp` as the `COMPUTE` branch assigns them. -/
def computed (m : PlotPixel) : BitVec 10 × BitVec 10 × BitVec 11 :=
  let y' := m.y + 1
  if m.xp.slt 0 then (m.x, y', m.xp + (y' ++ 0#1) + 1)
  else
    let x' := m.x - 1
    (x', y', m.xp + ((y' - x') ++ 0#1) + 1)

/-- The values the control block assigns before its `case`. -/
def idle (m : PlotPixel) (i : PixelIn) : Control :=
  let ramval := if i.store then i.writedata.setWidth 8 else 0
  let port : RamPort 15 8 := ⟨ramval, i.address.setWidth 15, i.store⟩
  ⟨m.x, m.y, m.xp, m.state, m.istate, port, port⟩

/-- The control logic and FSM. -/
def control (m : PlotPixel) (i : PixelIn) : Control :=
  let c := m.idle i
  match m.state with
  | .wait => c
  | .compute =>
      let (x', y', xp') := m.computed
      let c := { c with x := x', y := y', xp := xp' }
      if y'.sle x' && m.radius != 0 then
        { c with
          portA := { c.portA with
            addr := Pixel.addr ⟨m.rx + x'.setWidth 9, m.ry + y'.setWidth 9⟩ }
          portB := { c.portB with
            addr := Pixel.addr ⟨m.rx + y'.setWidth 9, m.ry + x'.setWidth 9⟩ }
          state := .write0
          istate := .write0 }
      else { c with state := .wait }
  | .write0 =>
      c.writePair m ⟨m.xpx, m.ry + m.y.setWidth 9⟩ ⟨m.xpy, m.ry + m.x.setWidth 9⟩ .write1
  | .write1 =>
      c.writePair m ⟨m.xpx, m.ry - m.y.setWidth 9⟩ ⟨m.xpy, m.ry - m.x.setWidth 9⟩ .write2
  | .write2 =>
      c.writePair m ⟨m.xmx, m.ry + m.y.setWidth 9⟩ ⟨m.xmy, m.ry + m.x.setWidth 9⟩ .write3
  | .write3 =>
      c.writePair m ⟨m.xmx, m.ry - m.y.setWidth 9⟩ ⟨m.xmy, m.ry - m.x.setWidth 9⟩ .compute
  | .reading => c

/-- One rising edge of the module's clock. -/
def tick (m : PlotPixel) (i : PixelIn) : PlotPixel :=
  let c := m.control i
  let ram0 := m.ram0.tick c.portA c.portB
  if i.load then
    { rx := wordRx i.writedata
      ry := wordRy i.writedata
      radius := wordRadius i.writedata
      x := (wordRadius i.writedata).setWidth 10
      xp := -(wordRadius i.writedata).setWidth 11 + 1
      y := 0
      state := .write0
      istate := .reading
      lread := i.read
      ram0 }
  else
    { m with
      istate := c.istate
      state := c.state
      x := c.x
      y := c.y
      xp := c.xp
      lread := i.read
      ram0 }

end PlotPixel

end CirclePlotter.FinalDesign
