import CirclePlotter.FinalDesign.PlotPixel
import CirclePlotter.Sync

/-!
# `plot_circle`, the coprocessor of the final design

The top level of `verilog/plot_circle.v`: the slave port, the state machine that
fetches fifty circles over the master port, the arbiter and the twelve engines
`p0` to `p11`.

One step of the model is one period of `clk`, closed by its rising edge. The
engines are clocked by `clksel`, which is `clk` in `WAIT` and `clkfast`
otherwise; `clkfast` runs `k` times as fast with aligned edges, so an engine
makes `ticks k` ticks in the period and the last one is simultaneous with the
controller's edge. Everything that edge samples, and everything a bus master
reads in the period, is what the wires show just before it.

The master port is answered by a memory `mem` that never waits: the word
addressed in one period is `mreaddata` in the next.
-/

namespace CirclePlotter.FinalDesign

/-- The `localparam`s of `plot_circle`, the values of `state` and `lstate`. -/
inductive FetchState where
  | wait | readX | readY | readR | block
  deriving DecidableEq, Repr

/-- The slave port in one period of `clk`. -/
structure BusIn where
  read : Bool
  address : BitVec 19
  write : Bool
  writedata : BitVec 32

namespace BusIn

def readstate (i : BusIn) : Bool := i.address == 0x40000

def writestart (i : BusIn) : Bool := i.address == 0x40004 && i.write

def readcircle (i : BusIn) : Bool := i.read && !i.readstate

def broadcast (i : BusIn) : Bool := i.writedata.extractLsb' 26 6 == 0 && !i.address.getLsbD 18

/-- `broadcast & write`: a store to the screen. -/
def stores (i : BusIn) : Bool := i.broadcast && i.write

/-- The wire `stackaddr`. -/
def stackaddr (i : BusIn) : BitVec 18 := i.writedata.setWidth 18

/-- No access. -/
def rest : BusIn := ⟨false, 0, false, 0⟩

/-- `PIX_WSTART = (unsigned)dx`. -/
def startWrite (dx : BitVec 32) : BusIn := ⟨false, 0x40004, true, dx⟩

/-- `plotallcircles_hw` without its polls: the start write, and then no access. -/
def startOnly (dx : BitVec 32) : ℕ → BusIn
  | 0 => startWrite dx
  | _ + 1 => rest

theorem startOnly_later (dx : BitVec 32) {n : ℕ} (later : 0 < n) :
    (startOnly dx n).writestart = false ∧ (startOnly dx n).stores = false := by
  have silent : rest.stores = false := by decide
  obtain ⟨n, rfl⟩ := Nat.exists_eq_succ_of_ne_zero (Nat.ne_of_gt later)
  exact ⟨rfl, silent⟩

end BusIn

/-- The registers of `plot_circle`, the engines, and the word on the master port. -/
structure PlotCircle where
  state : FetchState
  lstate : FetchState
  readySync : Fin 12 → Bool
  newdx : BitVec 32
  newdy : BitVec 32
  newdr : BitVec 32
  basex : BitVec 18
  basey : BitVec 18
  baser : BitVec 18
  offset : BitVec 10
  p : Fin 12 → PlotPixel
  mreaddata : BitVec 32

/-- What the fetch state machine computes: `_state`, `_offset`, `_mread`, `_maddress`. -/
structure FetchControl where
  state : FetchState
  offset : BitVec 10
  mread : Bool
  maddress : BitVec 18

/-- `{6'h1, r[7:0], y[8:0], x[8:0]}`, the word that loads a circle. -/
def circleWord (x y r : BitVec 32) : BitVec 32 :=
  1#6 ++ r.setWidth 8 ++ y.setWidth 9 ++ x.setWidth 9

namespace PlotCircle

/-- State after reset; the RAMs and some registers are not reset. -/
structure Reset (s : PlotCircle) : Prop where
  state : s.state = .wait
  newdx : s.newdx = 0
  newdr : s.newdr = 0
  newdy : s.newdy = 0
  basex : s.basex = 0
  basey : s.basey = 0
  baser : s.baser = 0
  offset : s.offset = 196
  lstate : s.lstate = .wait
  readySync : ∀ j, s.readySync j = false
  p : ∀ j, (s.p j).Reset

/-- A state after reset, with a dark screen. -/
def blank : PlotCircle where
  state := .wait
  lstate := .wait
  readySync _ := false
  newdx := 0
  newdy := 0
  newdr := 0
  basex := 0
  basey := 0
  baser := 0
  offset := 196
  p _ := PlotPixel.blank
  mreaddata := 0

theorem reset_blank : Reset blank :=
  ⟨rfl, rfl, rfl, rfl, rfl, rfl, rfl, rfl, rfl, fun _ => rfl,
    fun _ => ⟨rfl, rfl, rfl, rfl, rfl, rfl, rfl⟩⟩

/-! ## Arbiter and dispatch -/

/-- One bit for the last engine that was ready, or 0. -/
def cselect (s : PlotCircle) : BitVec 12 :=
  (List.finRange 12).foldl (fun c j => if s.readySync j then 1#12 <<< j.val else c) 0

def writeready (s : PlotCircle) (i : BusIn) : Bool :=
  ((s.state == .wait || s.state == .readY) && s.offset != 196) || i.stores

def writecircle (s : PlotCircle) (i : BusIn) : BitVec 32 :=
  if i.stores then i.writedata else circleWord s.newdx s.newdy s.newdr

def writec (s : PlotCircle) (i : BusIn) (j : Fin 12) : Bool :=
  if s.cselect == 1#12 <<< j.val || i.stores then s.writeready i else false

/-- Without a write the source leaves the word undriven; nothing reads it then. -/
def writedatac (s : PlotCircle) (i : BusIn) (j : Fin 12) : BitVec 32 :=
  if s.cselect == 1#12 <<< j.val || i.stores then s.writecircle i else 0

/-- The inputs of engine `j`, held for the whole period. -/
def pixelIn (s : PlotCircle) (i : BusIn) (j : Fin 12) : PixelIn where
  broadcast := i.stores
  read := i.readcircle
  address := i.address.setWidth 18
  write := s.writec i j
  writedata := s.writedatac i j

/-! ## Fetch state machine -/

/-- `offset` is signed in the comparison only; as a summand of an address it is
zero-extended. -/
def control (s : PlotCircle) : FetchControl :=
  let offset18 := s.offset.setWidth 18
  match s.state with
  | .wait => ⟨.wait, 196, false, 0⟩
  | .readX =>
      ⟨if s.offset.slt 0 then .wait else .readY, s.offset, true, s.basex + offset18⟩
  | .readY => ⟨.readR, s.offset, true, s.basey + offset18⟩
  | .readR =>
      if s.cselect != 0 then ⟨.readX, s.offset - 4, true, s.baser + offset18⟩
      else ⟨.block, s.offset, true, s.baser + offset18⟩
  | .block =>
      if s.cselect != 0 then ⟨.readX, s.offset - 4, false, 0⟩
      else ⟨.block, s.offset, false, 0⟩

/-! ## One period of `clk` -/

/-- The number of edges of `clksel` in this period. -/
def ticks (k : ℕ) (s : PlotCircle) : ℕ := if s.state = .wait then 1 else k

/-- Engine `j` after `n` ticks of this period. -/
def burst (s : PlotCircle) (i : BusIn) (j : Fin 12) (n : ℕ) : PlotPixel :=
  Sync.run PlotPixel.tick (s.p j) (fun _ => s.pixelIn i j) n

/-- Engine `j` just before the edge that closes the period. -/
def settled (k : ℕ) (s : PlotCircle) (i : BusIn) (j : Fin 12) : PlotPixel :=
  s.burst i j (s.ticks k - 1)

def cycle (k : ℕ) (mem : BitVec 18 → BitVec 32) (s : PlotCircle) (i : BusIn) : PlotCircle :=
  let c := s.control
  { state := if i.writestart then .readX else c.state
    lstate := s.state
    offset := if i.writestart then 196 else c.offset
    readySync := fun j => (s.settled k i j).ready
    basex := if i.writestart then i.stackaddr else s.basex
    basey := if i.writestart then i.stackaddr + 200 else s.basey
    baser := if i.writestart then i.stackaddr + 400 else s.baser
    newdx := if s.lstate = .readX then s.mreaddata else s.newdx
    newdy := if s.lstate = .readY then s.mreaddata else s.newdy
    newdr := if s.lstate = .readR then s.mreaddata else s.newdr
    p := fun j => s.burst i j (s.ticks k)
    mreaddata := if c.mread then mem c.maddress else s.mreaddata }

/-- The state before period `n` of the run from `s` over the bus inputs `ins`. -/
abbrev run (k : ℕ) (mem : BitVec 18 → BitVec 32) (s : PlotCircle) (ins : ℕ → BusIn) (n : ℕ) :
    PlotCircle :=
  Sync.run (cycle k mem) s ins n

/-- The states of all runs from reset. -/
def Reachable (k : ℕ) (mem : BitVec 18 → BitVec 32) (s : PlotCircle) : Prop :=
  ∃ s₀ ins n, Reset s₀ ∧ s = run k mem s₀ ins n

/-! ## What a read returns -/

/-- The OR gate over the engines' `readdata`. -/
def rdfinal (k : ℕ) (s : PlotCircle) (i : BusIn) : BitVec 8 :=
  (List.finRange 12).foldl (fun acc j => (s.settled k i j).readdata ||| acc) 0

/-- The OR gate over the engines' `readdatavalid`. -/
def rdvfinal (k : ℕ) (s : PlotCircle) (i : BusIn) : Bool :=
  (List.finRange 12).foldl (fun acc j => (s.settled k i j).readdatavalid || acc) false

/-- The status word: 0 when every engine is ready. -/
def status (k : ℕ) (s : PlotCircle) (i : BusIn) : BitVec 32 :=
  if (List.finRange 12).all fun j => (s.settled k i j).ready then 0 else 1

def readdata (k : ℕ) (s : PlotCircle) (i : BusIn) : BitVec 32 :=
  if i.readstate then s.status k i else (s.rdfinal k i).setWidth 32

def readdatavalid (k : ℕ) (s : PlotCircle) (i : BusIn) : Bool := s.rdvfinal k i || i.readstate

/-! ## What the software sees -/

/-- The screen: the OR of the twelve RAMs. -/
def screen (s : PlotCircle) : ByteMem := fun a =>
  (List.finRange 12).foldl (fun acc j => (s.p j).ram0.ram a ||| acc) 0

/-- The controller is back in `WAIT` and no dispatch is pending. -/
structure Idle (s : PlotCircle) : Prop where
  state : s.state = .wait
  offset : s.offset = 196

/-- The controller is idle and no engine is drawing. -/
structure Quiescent (s : PlotCircle) : Prop extends Idle s where
  engines : ∀ j, (s.p j).state = .wait

theorem quiescent_blank : Quiescent blank := ⟨⟨rfl, rfl⟩, fun _ => rfl⟩

end PlotCircle

end CirclePlotter.FinalDesign
