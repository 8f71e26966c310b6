import CirclePlotter.Parallel.ReadPort
import Mathlib.Logic.Relation

/-!
# The port of idle engines for programs

While all engines are idle, the port is the memory `screenMM`: a load is a read
cycle and the cycle that carries the answer, in which the processor holds the
address, and a store of a word for all engines is a write cycle.
-/

namespace CirclePlotter.Parallel

open Sync

theorem moduleId_ne_zero : ∀ j, moduleId j ≠ 0 := by decide

namespace PlotCircle

variable {s s' : PlotCircle} {i : BusIn}

/-- A cycle that loads no engine. -/
def Quiet (i : BusIn) : Prop := ∀ j, i.load (moduleId j) = false

theorem quiet_of_not_write (alone : i.write = false) : Quiet i := by
  intro j
  rw [BusIn.load, alone, Bool.false_and]

theorem quiet_of_dest (all : i.dest = 0) : Quiet i := by
  intro j
  rw [BusIn.load, all, beq_eq_false_iff_ne.mpr (moduleId_ne_zero j).symm, Bool.and_false]

theorem idle_tick (idle : s.Idle) (quiet : Quiet i) : (s.tick i).Idle := by
  intro j
  change ((s.p j).tick (moduleId j) i).state = _
  rw [PlotPixel.tick_rest (quiet j) (idle j)]
  exact idle j

/-- Idle engines leave the RAM to the bus. -/
theorem ram_tick (idle : s.Idle) (j : Fin 11) :
    ((s.tick i).p j).ram0.ram =
      if i.clear then Function.update (s.p j).ram0.ram i.address 0 else (s.p j).ram0.ram := by
  change ((s.p j).tick (moduleId j) i).ram0.ram = _
  rw [PlotPixel.tick_ram0, PlotPixel.control_rest (idle j)]
  cases clear : i.clear with
  | true => simp [PlotPixel.idle, DualPortRam.tick, DualPortRam.write, clear]
  | false => simp [PlotPixel.idle, DualPortRam.tick, DualPortRam.write, clear]

theorem stored_tick (idle : s.Idle) :
    (s.tick i).stored = if i.clear then Function.update s.stored i.address 0 else s.stored := by
  funext a
  simp only [stored, ram_tick idle]
  cases i.clear with
  | true =>
      by_cases here : a = i.address
      · subst here
        simp only [if_true, Function.update_self]
        rfl
      · simp only [if_true, Function.update_of_ne here, stored]
  | false => rfl

/-- A cycle without a write keeps idle engines and what they store. -/
theorem kept_of_not_write (idle : s.Idle) (alone : i.write = false) :
    (s.tick i).Idle ∧ (s.tick i).stored = s.stored := by
  refine ⟨idle_tick idle (quiet_of_not_write alone), ?_⟩
  rw [stored_tick idle, clear_of_not_write alone]
  rfl

/-! ## The port as a device -/

/-- `s'` is reached from `s` by cycles without an access. -/
def Rests : PlotCircle → PlotCircle → Prop :=
  Relation.ReflTransGen fun s s' => ∃ i : BusIn, i.read = false ∧ i.write = false ∧ s' = s.tick i

/-- The port as the processor uses it for `screen_mm[index]`, after any number of
cycles without an access. -/
def screenDevice : Program.Device (BitVec 32) (BitVec 32) PlotCircle where
  load s index word s' := ∃ s₁ i next, Rests s s₁ ∧
    (i.read = true ∧ i.write = false ∧ i.address = index.setWidth 18) ∧
    (next.read = false ∧ next.write = false ∧ next.address = i.address) ∧
    (s₁.tick i).readdatavalid = true ∧ word = (s₁.tick i).readdata next ∧
    s' = (s₁.tick i).tick next
  store s index word s' := ∃ s₁ i, Rests s s₁ ∧
    (i.read = false ∧ i.write = true ∧ i.address = index.setWidth 18 ∧ i.writedata = word) ∧
    s' = s₁.tick i

theorem kept_of_rests (idle : s.Idle) (rests : Rests s s') :
    s'.Idle ∧ s'.stored = s.stored := by
  induction rests with
  | refl => exact ⟨idle, rfl⟩
  | tail _ step ih =>
      rcases step with ⟨i, -, alone, rfl⟩
      have kept := kept_of_not_write ih.1 alone
      exact ⟨kept.1, kept.2.trans ih.2⟩

/-- An index in range is the address of a pixel. -/
theorem setWidth_index {index : BitVec 32} (inRange : index < 262144) :
    (index.setWidth 18).setWidth 32 = index := by
  have below : index.toNat < 262144 := inRange
  apply BitVec.eq_of_toNat_eq
  simp only [BitVec.toNat_setWidth]
  omega

theorem inRange_of_read {bits : BitMem} {index word : BitVec 32}
    (defined : screenMM.read bits index = some word) : index < 262144 := by
  simp only [screenMM] at defined
  split at defined
  · next inRange => exact inRange
  · cases defined

/-- Idle engines serve the accesses of `screenMM`, and as one memory. -/
theorem screenDevice_refines : Program.Refines screenDevice screenMM Idle stored where
  load := by
    intro s index word s' word' idle access defined
    rcases access with ⟨s₁, i, next, rests, ⟨-, alone, address⟩, ⟨-, alone', held⟩, -, rfl, rfl⟩
    rcases kept_of_rests idle rests with ⟨idle₁, same⟩
    rcases kept_of_not_write idle₁ alone with ⟨idle₂, same₁⟩
    rcases kept_of_not_write idle₂ alone' with ⟨idle₃, same₂⟩
    have answer := screenMM_read_of_idle idle₁ alone held
    rw [address, setWidth_index (inRange_of_read defined), same, defined] at answer
    exact ⟨(Option.some.inj answer).symm, idle₃, same₂.trans (same₁.trans same)⟩
  store := by
    intro s index word s' bits idle access defined
    rcases access with ⟨s₁, i, rests, ⟨-, write, address, rfl⟩, rfl⟩
    rcases kept_of_rests idle rests with ⟨idle₁, same⟩
    simp only [screenMM] at defined
    split at defined
    · next storable =>
        have clear : i.clear = true := by
          rw [BusIn.clear, write, BusIn.dest, storable.2]
          rfl
        refine ⟨idle_tick idle₁ (quiet_of_dest storable.2), ?_⟩
        rw [stored_tick idle₁, clear, if_pos rfl, address, same]
        exact Option.some.inj defined
    · cases defined
  serves_load := by
    intro s index word idle defined
    let i : BusIn := ⟨true, index.setWidth 18, false, 0⟩
    let next : BusIn := ⟨false, index.setWidth 18, false, 0⟩
    have valid : (s.tick i).readdatavalid = true := readdatavalid_tick s i
    exact ⟨_, _, s, i, next, .refl, ⟨rfl, rfl, rfl⟩, ⟨rfl, rfl, rfl⟩, valid, rfl, rfl⟩
  serves_store := by
    intro s index word bits _ _
    exact ⟨_, s, ⟨false, index.setWidth 18, true, word⟩, .refl, ⟨rfl, rfl, rfl, rfl⟩, rfl⟩

end PlotCircle

end CirclePlotter.Parallel
