import Mathlib.Logic.Function.Basic

/-!
# `true_dual_port_ram_single_clock`

The Quartus template both plotting designs instantiate: two ports, one clock,
registered outputs, and a port that writes shows its own new data. The two
`always` blocks write in the order A, B; the order matters only when both
ports write different data to one address.
-/

namespace CirclePlotter

/-- What is presented at one port in one clock cycle. -/
structure RamPort (a w : Nat) where
  data : BitVec w
  addr : BitVec a
  we : Bool

/-- The array and the two output registers. -/
structure DualPortRam (a w : Nat) where
  ram : BitVec a → BitVec w
  qA : BitVec w
  qB : BitVec w

namespace DualPortRam

variable {a w : Nat}

/-- The array after one port's `always` block. -/
def write (ram : BitVec a → BitVec w) (p : RamPort a w) : BitVec a → BitVec w :=
  if p.we then Function.update ram p.addr p.data else ram

/-- One clock edge. Both outputs are taken from the array before the edge. -/
def tick (m : DualPortRam a w) (portA portB : RamPort a w) : DualPortRam a w where
  ram := write (write m.ram portA) portB
  qA := if portA.we then portA.data else m.ram portA.addr
  qB := if portB.we then portB.data else m.ram portB.addr

theorem write_of_not_we (ram : BitVec a → BitVec w) {p : RamPort a w} (off : p.we = false) :
    write ram p = ram := by
  simp [write, off]

theorem write_of_we (ram : BitVec a → BitVec w) {p : RamPort a w} (on : p.we = true) :
    write ram p = Function.update ram p.addr p.data := by
  simp [write, on]

/-- A port changes at most the entry it addresses. -/
theorem write_of_ne (ram : BitVec a → BitVec w) {p : RamPort a w} {k : BitVec a}
    (other : k ≠ p.addr) : write ram p k = ram k := by
  unfold write
  split
  · exact Function.update_of_ne other _ _
  · rfl

theorem tick_ram_of_ne (m : DualPortRam a w) {portA portB : RamPort a w} {k : BitVec a}
    (otherA : k ≠ portA.addr) (otherB : k ≠ portB.addr) : (m.tick portA portB).ram k = m.ram k :=
  (write_of_ne _ otherB).trans (write_of_ne _ otherA)

/-- Two arrays that hold the same at `k` still do, when the ports write the same there. -/
theorem write_agree {ram ram' : BitVec a → BitVec w} {p p' : RamPort a w} {k : BitVec a}
    (agree : ram' k = ram k) (addr : p'.addr = p.addr) (we : p'.we = p.we)
    (data : k = p.addr → p'.data = p.data) : write ram' p' k = write ram p k := by
  unfold write
  rw [we, addr]
  split
  · by_cases here : k = p.addr
    · rw [here, Function.update_self, Function.update_self, data here]
    · rw [Function.update_of_ne here, Function.update_of_ne here, agree]
  · exact agree

theorem tick_agree {m m' : DualPortRam a w} {portA portA' portB portB' : RamPort a w} {k : BitVec a}
    (agree : m'.ram k = m.ram k) (addrA : portA'.addr = portA.addr) (weA : portA'.we = portA.we)
    (addrB : portB'.addr = portB.addr) (weB : portB'.we = portB.we)
    (dataA : k = portA.addr → portA'.data = portA.data)
    (dataB : k = portB.addr → portB'.data = portB.data) :
    (m'.tick portA' portB').ram k = (m.tick portA portB).ram k :=
  write_agree (write_agree agree addrA weA dataA) addrB weB dataB

/-- When both ports present one write enable and one datum, both outputs show
what the array holds after the edge. -/
theorem tick_fresh (m : DualPortRam a w) (p : RamPort a w) (addrA addrB : BitVec a) :
    let m' := m.tick { p with addr := addrA } { p with addr := addrB }
    m'.qA = m'.ram addrA ∧ m'.qB = m'.ram addrB := by
  unfold tick write
  by_cases on : p.we = true
  · simp only [on, if_true]
    rw [Function.update_self]
    refine ⟨?_, rfl⟩
    by_cases same : addrA = addrB
    · rw [same, Function.update_self]
    · rw [Function.update_of_ne same, Function.update_self]
  · simp only [on, Bool.false_eq_true, if_false, and_self]

/-- Without write enables the array stays. -/
theorem tick_ram_of_not_we (m : DualPortRam a w) {portA portB : RamPort a w}
    (offA : portA.we = false) (offB : portB.we = false) : (m.tick portA portB).ram = m.ram := by
  rw [tick, write_of_not_we _ offA, write_of_not_we _ offB]

end DualPortRam

end CirclePlotter
