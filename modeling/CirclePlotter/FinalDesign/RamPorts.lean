import CirclePlotter.FinalDesign.EngineRun

/-!
# The two RAM ports of a circle engine

The RAM template says nothing definite about a tick in which one port writes
what the other reads, or in which both write different bytes to one address. No
such tick occurs: both ports always have the same write enable, and bytes that
go to one address are the same. The bytes that are written back come from outputs
that show what the RAM holds (`PortsSafe`).
-/

namespace CirclePlotter

/-- Two ports that write the same bytes wherever they overlap may write in either
order. -/
theorem DualPortRam.write_comm {a w : ℕ} (ram : BitVec a → BitVec w) {p q : RamPort a w}
    (agree : p.we = true → q.we = true → p.addr = q.addr → p.data = q.data) :
    write (write ram p) q = write (write ram q) p := by
  unfold write
  by_cases onP : p.we = true <;> by_cases onQ : q.we = true
  · by_cases same : p.addr = q.addr
    · simp [onP, onQ, same, agree onP onQ same]
    · simp only [onP, onQ, if_true]
      exact Function.update_comm same _ _ _
  all_goals simp [onP, onQ]

namespace FinalDesign

open Sync

/-- The states in which the engine updates a pair of pixels. -/
def PixelState.isWrite (s : PixelState) : Prop :=
  s = .write0 ∨ s = .write1 ∨ s = .write2 ∨ s = .write3

theorem PixelState.isWrite_iff (s : PixelState) :
    s.isWrite ↔ ∃ j after, s.corner? = some (j, after) := by
  cases s <;> simp [isWrite, corner?, phase]

namespace PlotPixel

/-- What the ports may rely on in the tick with input `i`. -/
structure PortsSafe (m : PlotPixel) (i : PixelIn) : Prop where
  sameByte : (m.control i).portA.we = true → (m.control i).portB.we = true →
    (m.control i).portA.addr = (m.control i).portB.addr →
    (m.control i).portA.data = (m.control i).portB.data
  readA : (m.control i).portA.we = false → (m.control i).portB.we = true →
    (m.control i).portA.addr ≠ (m.control i).portB.addr
  readB : (m.control i).portB.we = false → (m.control i).portA.we = true →
    (m.control i).portA.addr ≠ (m.control i).portB.addr
  fresh : m.state.isWrite → m.istate ≠ .reading →
    m.ram0.qA = m.ram0.ram (m.control i).portA.addr ∧
      m.ram0.qB = m.ram0.ram (m.control i).portB.addr

variable {m : PlotPixel} {i : PixelIn}

/-- The ports write together or not at all. -/
theorem we_eq (valid : Valid m) : (m.control i).portA.we = (m.control i).portB.we := by
  rcases valid.tickCase with rest | ⟨j, after, writing, first⟩ | ⟨j, after, writing, second⟩ |
    ⟨computing, inside⟩ | ⟨computing, outside⟩
  · rw [control_rest rest]
    rfl
  · rw [control_of_corner writing, Control.writePair, if_pos first]
    rfl
  · rw [control_of_corner writing, Control.writePair, if_neg second]
  · rw [control_proceed valid computing inside]
    rfl
  · rw [control_finish valid computing outside]
    rfl

/-- On the diagonal both ports update one pixel, with one byte. -/
theorem data_eq_of_addr (valid : Valid m)
    (same : (m.control i).portA.addr = (m.control i).portB.addr) :
    (m.control i).portA.data = (m.control i).portB.data := by
  rcases valid.tickCase with rest | ⟨j, after, writing, first⟩ | ⟨j, after, writing, second⟩ |
    ⟨computing, inside⟩ | ⟨computing, outside⟩
  · rw [control_rest rest]
    rfl
  · rw [control_of_corner writing, Control.writePair, if_pos first]
    rfl
  · obtain ⟨freshA, freshB⟩ := valid.fresh j after writing second
    rw [control_of_corner writing, Control.writePair, if_neg second] at same ⊢
    have pixel : (m.target j).1 = (m.target j).2 := Octant.corner_eq_of_addr same
    simp only [freshA, freshB, pixel]
  · rw [control_proceed valid computing inside]
    rfl
  · rw [control_finish valid computing outside]
    rfl

theorem Valid.portsSafe (valid : Valid m) : PortsSafe m i := by
  have together := we_eq (i := i) valid
  refine ⟨fun _ _ => data_eq_of_addr valid, ?_, ?_, ?_⟩
  · intro off on
    rw [together, on] at off
    cases off
  · intro off on
    rw [← together, on] at off
    cases off
  · intro state second
    obtain ⟨j, after, writing⟩ := (PixelState.isWrite_iff m.state).mp state
    rw [control_of_corner writing, Control.writePair, if_neg second]
    exact valid.fresh j after writing second

/-- The order of the two `always` blocks of the RAM does not matter. -/
theorem ram_tick_swapped (valid : Valid m) :
    (m.tick i).ram0.ram =
      DualPortRam.write (DualPortRam.write m.ram0.ram (m.control i).portB) (m.control i).portA := by
  rw [tick_ram0]
  exact DualPortRam.write_comm _ fun _ _ => data_eq_of_addr valid

/-- From reset on, whatever the inputs are, no tick brings the ports into conflict
and no write half of an update uses a stale output. -/
theorem portsSafe_run (reset : m.Reset) (ins : ℕ → PixelIn) (n : ℕ) :
    PortsSafe (run tick m ins n) (ins n) :=
  (valid_run (Valid.of_wait reset.state) n).portsSafe

/-- An engine after reset that is loaded twice, with a store in between. -/
theorem portsSafe_run_blank :
    PortsSafe (run tick blank (fun n =>
      if n = 0 ∨ n = 7 then ⟨false, false, 0, true, 0x040c0e05⟩
      else ⟨n == 4, true, 5, n == 4, 0xff⟩) 9) ⟨false, true, 5, false, 0xff⟩ :=
  portsSafe_run ⟨rfl, rfl, rfl, rfl, rfl, rfl, rfl⟩
    (fun n =>
      if n = 0 ∨ n = 7 then ⟨false, false, 0, true, 0x040c0e05⟩
      else ⟨n == 4, true, 5, n == 4, 0xff⟩) 9

end PlotPixel

end FinalDesign

end CirclePlotter
