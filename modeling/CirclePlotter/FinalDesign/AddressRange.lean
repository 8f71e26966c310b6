import CirclePlotter.FinalDesign.Cycle
import CirclePlotter.TestData

/-!
# The test data in the hardware

With the circles of `driverdata` the dispatch word loses no bit, and no 9-bit
sum or difference that forms a pixel address in an engine wraps: not in a
`WRITE` state, and not in the prefetch of a `COMPUTE` that stays in the octant.
-/

namespace CirclePlotter.FinalDesign

open Sync

/-- None of the eight sums and differences of the centre `(rx, ry)` with `x[8:0]`
and `y[8:0]` wraps modulo 512. -/
structure NoWrap (rx ry : BitVec 9) (x y : BitVec 10) : Prop where
  xpx : rx.toNat + (x.setWidth 9).toNat < 512
  xpy : rx.toNat + (y.setWidth 9).toNat < 512
  xmx : (x.setWidth 9).toNat ≤ rx.toNat
  xmy : (y.setWidth 9).toNat ≤ rx.toNat
  ypx : ry.toNat + (x.setWidth 9).toNat < 512
  ypy : ry.toNat + (y.setWidth 9).toNat < 512
  ymx : (x.setWidth 9).toNat ≤ ry.toNat
  ymy : (y.setWidth 9).toNat ≤ ry.toNat

namespace PlotPixel

/-- The bounding box of the circle in the registers is on the screen. -/
structure Boxed (m : PlotPixel) : Prop where
  left : m.radius.toNat ≤ m.rx.toNat
  right : m.rx.toNat + m.radius.toNat < 512
  top : m.radius.toNat ≤ m.ry.toNat
  bottom : m.ry.toNat + m.radius.toNat < 512

/-- The addresses the engine forms are those of the pixels it means. -/
structure AddressesFit (m : PlotPixel) : Prop where
  write : m.state = .write0 ∨ m.state = .write1 ∨ m.state = .write2 ∨ m.state = .write3 →
    NoWrap m.rx m.ry m.x m.y
  prefetch : m.state = .compute → (m.computed.2.1.sle m.computed.1 && m.radius != 0) = true →
    NoWrap m.rx m.ry m.computed.1 m.computed.2.1

variable {m : PlotPixel} {i : PixelIn}

/-- A register between 0 and the radius keeps its value in nine bits. -/
theorem setWidth_le {z : BitVec 10} {r : BitVec 8} (nonneg : 0 ≤ z.toInt) (le : z.toInt ≤ r.toNat) :
    (z.setWidth 9).toNat ≤ r.toNat := by
  have nat := BitVec.toInt_eq_toNat_cond z
  have small := r.isLt
  have below := z.isLt
  rw [BitVec.toNat_setWidth]
  split at nat <;> omega

theorem Boxed.noWrap (boxed : m.Boxed) {x y : BitVec 10} {xp : Int}
    (within : Octant.Within m.radius.toNat ⟨x.toInt, y.toInt, xp⟩) : NoWrap m.rx m.ry x y := by
  obtain ⟨hy, hyx, hx, -, -⟩ := within
  simp only at hy hyx hx
  have fitX := setWidth_le (z := x) (r := m.radius) (by omega) hx
  have fitY := setWidth_le (z := y) (r := m.radius) hy (by omega)
  obtain ⟨left, right, top, bottom⟩ := boxed
  constructor <;> omega

/-- On the walk of a boxed circle all addresses fit. -/
theorem Valid.addressesFit (valid : Valid m) (boxed : m.state ≠ .wait → m.Boxed) :
    m.AddressesFit where
  write writing := by
    have drawing : m.state ≠ .wait := by rcases writing with h | h | h | h <;> simp [h]
    exact (boxed drawing).noWrap (valid.within drawing)
  prefetch computing stays := by
    have drawing : m.state ≠ .wait := by simp [computing]
    have within := valid.within drawing
    rw [compute_test within, decide_eq_true_eq] at stays
    have next := within.next stays
    rw [← computed_octant within] at next
    exact (boxed drawing).noWrap next

/-- A drawing engine keeps its circle. -/
theorem registers_of_not_load (quiet : i.load = false) :
    (m.tick i).rx = m.rx ∧ (m.tick i).ry = m.ry ∧ (m.tick i).radius = m.radius := by
  rw [tick_of_not_load quiet]
  exact ⟨rfl, rfl, rfl⟩

theorem boxed_tick (boxed : m.state ≠ .wait → m.Boxed) (quiet : i.load = false) :
    (m.tick i).state ≠ .wait → (m.tick i).Boxed := by
  intro drawing'
  obtain ⟨rx, ry, radius⟩ := registers_of_not_load (m := m) quiet
  have drawing : m.state ≠ .wait := fun rest => drawing' (by rw [tick_rest quiet rest]; exact rest)
  obtain ⟨left, right, top, bottom⟩ := boxed drawing
  constructor <;> rw [radius] <;> first | rwa [rx] | rwa [ry]

end PlotPixel

/-! ## The dispatch word -/

/-- The word that loads a circle on the screen loses no bit of it. -/
theorem setWidth_of_onScreen {x y r : BitVec 32} (on : OnScreen x y r) :
    (x.setWidth 9).toNat = x.toNat ∧ (y.setWidth 9).toNat = y.toNat ∧
      (r.setWidth 8).toNat = r.toNat := by
  obtain ⟨radius, left, right, top, bottom⟩ := on
  simp only [BitVec.toNat_setWidth]
  omega

namespace PlotPixel

variable {m : PlotPixel} {i : PixelIn}

theorem boxed_of_load {x y r : BitVec 32} (on : OnScreen x y r) (load : i.load = true)
    (word : i.writedata = circleWord x y r) : (m.tick i).Boxed := by
  obtain ⟨fitX, fitY, fitR⟩ := setWidth_of_onScreen on
  obtain ⟨-, left, right, top, bottom⟩ := on
  rw [tick_of_load load, word]
  constructor <;>
    simp only [wordRx_circleWord, wordRy_circleWord, wordRadius_circleWord, fitX, fitY, fitR] <;>
    omega

/-- In an engine that is loaded with nothing but circles on the screen, at any
time and in any state, no pixel address wraps. -/
theorem addressesFit_run (reset : m.Reset) {ins : ℕ → PixelIn}
    (loads : ∀ n, (ins n).load = true →
      ∃ x y r, OnScreen x y r ∧ (ins n).writedata = circleWord x y r) (n : ℕ) :
    (run tick m ins n).AddressesFit := by
  have inv : Valid (run tick m ins n) ∧ ((run tick m ins n).state ≠ .wait →
      (run tick m ins n).Boxed) := by
    refine run_always (P := fun t => Valid t ∧ (t.state ≠ .wait → t.Boxed))
      ⟨.of_wait reset.state, fun drawing => absurd reset.state drawing⟩
      (fun n t ⟨valid, boxed⟩ => ?_) n
    cases load : (ins n).load with
    | true =>
        obtain ⟨x, y, r, on, word⟩ := loads n load
        exact ⟨.of_load load, fun _ => boxed_of_load on load word⟩
    | false => exact ⟨valid.tick, boxed_tick boxed load⟩
  exact inv.1.addressesFit inv.2

end PlotPixel

/-! ## The test data -/

/-- For every sequence of non-negative results of `rand()`, `driverdata` is
defined and makes circles on which software and hardware cannot differ: no call
of `setpixel` is rejected, no pixel address of an engine loaded with them wraps,
and the dispatch word loses nothing. -/
theorem driverdata_safe {rand : ℕ → BitVec 32} (nonneg : ∀ n, 0 ≤ (rand n).toInt)
    (before : CircleArrays) :
    ∃ arrays, driverdata rand before = some arrays ∧ arrays.OnScreen ∧
      (plotallcircles_ref arrays.dx arrays.dy arrays.dr =
          forM arrays.calls (fun c => setpixel c.1 c.2) ∧
        ∀ c ∈ arrays.calls, c.1 ≤ 511 ∧ c.2 ≤ 511) ∧
      (∀ (m : PlotPixel) (ins : ℕ → PixelIn), m.Reset →
        (∀ n, (ins n).load = true → ∃ i : Fin 50,
          (ins n).writedata = circleWord (arrays.dx i) (arrays.dy i) (arrays.dr i)) →
        ∀ n, (run PlotPixel.tick m ins n).AddressesFit) ∧
      ∀ i, ((arrays.dx i).setWidth 9).toNat = (arrays.dx i).toNat ∧
        ((arrays.dy i).setWidth 9).toNat = (arrays.dy i).toNat ∧
        ((arrays.dr i).setWidth 8).toNat = (arrays.dr i).toNat := by
  obtain ⟨arrays, defined, on⟩ := driverdata_onScreen nonneg before
  refine ⟨arrays, defined, on, ⟨plotallcircles_ref_eq_calls on, fun c mem => on.calls_le mem⟩,
    fun m ins reset loads n => ?_, fun i => setWidth_of_onScreen (on i)⟩
  refine PlotPixel.addressesFit_run reset (fun n load => ?_) n
  obtain ⟨i, word⟩ := loads n load
  exact ⟨_, _, _, on i, word⟩

/-- A `rand()` that always returns 12345, and an engine that is loaded with the first
circle in its first tick. -/
theorem driverdata_safe_const :
    let arrays : CircleArrays := ⟨fun _ => 64, fun _ => 64, fun _ => 57⟩
    let ins (n : ℕ) : PixelIn := ⟨false, false, 0, n = 0, circleWord 64 64 57⟩
    driverdata (fun _ => 12345) ⟨fun _ => 0, fun _ => 0, fun _ => 0⟩ = some arrays ∧
      arrays.OnScreen ∧
      (plotallcircles_ref arrays.dx arrays.dy arrays.dr =
          forM arrays.calls (fun c => setpixel c.1 c.2) ∧
        ∀ c ∈ arrays.calls, c.1 ≤ 511 ∧ c.2 ≤ 511) ∧
      (∀ n, (run PlotPixel.tick .blank ins n).AddressesFit) ∧
      ∀ i, ((arrays.dx i).setWidth 9).toNat = (arrays.dx i).toNat ∧
        ((arrays.dy i).setWidth 9).toNat = (arrays.dy i).toNat ∧
        ((arrays.dr i).setWidth 8).toNat = (arrays.dr i).toNat := by
  intro arrays ins
  have positive : 0 ≤ (12345 : BitVec 32).toInt := by decide
  have radius : (12345 : BitVec 32).srem 256 = 57 := by decide
  have centre : umod 12345 (512 - 2 * (12345 : BitVec 32).srem 256) = some 7 := by decide
  have made : driverdata (fun _ => 12345) ⟨fun _ => 0, fun _ => 0, fun _ => 0⟩ = some arrays := by
    rw [driverdata_const centre, radius]
    rfl
  rcases driverdata_safe (fun _ => positive) ⟨fun _ => 0, fun _ => 0, fun _ => 0⟩ with
    ⟨arrays', made', on, reference, fits, word⟩
  rw [made] at made'
  cases made'
  have reset : PlotPixel.blank.Reset := ⟨rfl, rfl, rfl, rfl, rfl, rfl, rfl⟩
  exact ⟨made, on, reference, fits .blank ins reset fun n _ => ⟨0, rfl⟩, word⟩

end CirclePlotter.FinalDesign
