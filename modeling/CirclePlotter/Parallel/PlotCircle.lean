import CirclePlotter.Parallel.Engine
import CirclePlotter.Sync

/-!
# `plot_circle`, the coprocessor with engines in parallel

The top level: eleven engines `p0` to `p10` with the ids 1 to 11 on one bus, and
the OR of their outputs. The vectors `rd` and `rdv` have `CIRCLES = 13` wires,
of which the last two are not driven; they are taken as 0. The slave never
waits.
-/

namespace CirclePlotter.Parallel

/-- The engines `p0` to `p10`. -/
structure PlotCircle where
  p : Fin 11 → PlotPixel

/-- The `ID` of engine `j`. -/
def moduleId (j : Fin 11) : BitVec 6 := BitVec.ofNat 6 (j + 1)

namespace PlotCircle

/-- All engines blank. -/
def blank : PlotCircle := ⟨fun _ => .blank⟩

/-- `rd[k]`. -/
def rd (s : PlotCircle) (k : Fin 13) : BitVec 1 :=
  if driven : k < 11 then (s.p ⟨k, driven⟩).readdata else 0

/-- `rdv[k]`. -/
def rdv (s : PlotCircle) (k : Fin 13) : Bool :=
  if driven : k < 11 then (s.p ⟨k, driven⟩).readdatavalid else false

def rdfinal (s : PlotCircle) : BitVec 1 :=
  (List.finRange 13).foldl (fun v k => s.rd k ||| v) 0

def rdvfinal (s : PlotCircle) : Bool :=
  (List.finRange 13).foldl (fun v k => s.rdv k || v) false

/-- `rdfinal << address[2:0]`, in the 32 bits of the output. -/
def readdata (s : PlotCircle) (i : BusIn) : BitVec 32 :=
  s.rdfinal.setWidth 32 <<< i.address.extractLsb' 0 3

def readdatavalid (s : PlotCircle) : Bool := s.rdvfinal

/-- One rising edge of `clk`. -/
def tick (s : PlotCircle) (i : BusIn) : PlotCircle :=
  ⟨fun j => (s.p j).tick (moduleId j) i⟩

/-- All engines wait. -/
def Idle (s : PlotCircle) : Prop := ∀ j, (s.p j).state = .wait

/-- The OR of the memories of all engines, as a picture. -/
def picture (s : PlotCircle) : Set Pixel := {p | ∃ j, p ∈ litBits (s.p j).ram0.ram}

/-- All engines satisfy their invariant. -/
def Valid (s : PlotCircle) : Prop := ∀ j, (s.p j).Valid

theorem Valid.tick {s : PlotCircle} (valid : s.Valid) (i : BusIn) : (s.tick i).Valid :=
  fun j => (valid j).tick

theorem valid_of_idle {s : PlotCircle} (idle : s.Idle) : s.Valid := fun j => .of_wait (idle j)

/-- The engines satisfy their invariant all along a run from idle engines. -/
theorem valid_run {s : PlotCircle} {ins : ℕ → BusIn} (idle : s.Idle) (n : ℕ) (j : Fin 11) :
    ((Sync.run tick s ins n).p j).Valid :=
  Sync.run_always (P := fun t : PlotCircle => ∀ j, (t.p j).Valid) (fun j => .of_wait (idle j))
    (fun _ _ valid j => (valid j).tick) n j

end PlotCircle

end CirclePlotter.Parallel
