import CirclePlotter.SetPixel.PlotCircle
import CirclePlotter.Sync

/-!
# The operations of the setpixel coprocessor

`Operation` is what the cycles are meant to do to the memory of pixels. The
coprocessor does it in every cycle, except that it loses a store that comes
without `start`; so along a run its memory is the fold of the operations as long
as no store that would change a pixel is lost.
-/

namespace CirclePlotter.SetPixel

open Sync

/-- What a cycle is meant to do to the memory of pixels. -/
inductive Operation where
  | idle
  | store (p : Pixel) (bit : BitVec 1)
  | plot (cx cy x y : BitVec 9)

namespace Operation

/-- The eight pixels `(cx ± x, cy ± y)` and `(cx ± y, cy ± x)`. -/
def mirrored (cx cy x y : BitVec 9) : List Pixel :=
  [⟨cx + x, cy + y⟩, ⟨cx + x, cy - y⟩, ⟨cx - x, cy + y⟩, ⟨cx - x, cy - y⟩,
    ⟨cx + y, cy + x⟩, ⟨cx + y, cy - x⟩, ⟨cx - y, cy + x⟩, ⟨cx - y, cy - x⟩]

def apply (mem : Pixel → BitVec 1) : Operation → Pixel → BitVec 1
  | .idle => mem
  | .store p bit => Function.update mem p bit
  | .plot cx cy x y => fun p => if p ∈ mirrored cx cy x y then 1 else mem p

end Operation

/-- The operation of a cycle: a store, or else the custom instruction. -/
def Inputs.operation (i : Inputs) : Operation :=
  if i.write then .store i.pixel (i.writedata.extractLsb' 0 1)
  else if i.start then
    .plot (i.cx.setWidth 9) (i.cy.setWidth 9) (i.x.setWidth 9) (i.y.setWidth 9)
  else .idle

/-! ## One cycle -/

theorem foldl_update (ps : List Pixel) (mem : Pixel → BitVec 1) (bit : BitVec 1) (p : Pixel) :
    ps.foldl (fun mem p => Function.update mem p bit) mem p = if p ∈ ps then bit else mem p := by
  induction ps generalizing mem with
  | nil => simp
  | cons q ps ih =>
      rw [List.foldl_cons, ih]
      by_cases later : p ∈ ps
      · simp [later]
      · by_cases here : p = q
        · simp [here]
        · simp [later, here]

/-- A store without `start` to a pixel whose bit it would change. -/
def PlotCircle.Loses (s : PlotCircle) (i : Inputs) : Prop :=
  i.write = true ∧ i.start = false ∧ s.pixmem i.pixel ≠ i.writedata.extractLsb' 0 1

/-- A cycle does what it is meant to do exactly when it loses no store. -/
theorem nextPixmem_eq_iff (s : PlotCircle) (i : Inputs) :
    s.nextPixmem i = i.operation.apply s.pixmem ↔ ¬ s.Loses i := by
  unfold PlotCircle.nextPixmem PlotCircle.Loses Inputs.operation
  cases write : i.write with
  | true =>
      cases start : i.start with
      | true =>
          -- all eight coordinates are those of the addressed pixel
          have same : i.select.pixels = List.replicate 8 i.pixel := by
            simp [Inputs.select, write, Selection.pixels, Inputs.pixel, List.replicate]
          have bit : i.select.writebit = i.writedata.extractLsb' 0 1 := by
            simp [Inputs.select, write]
          refine iff_of_true ?_ (by simp)
          funext p
          rw [if_pos rfl, if_pos rfl, foldl_update, same, bit, Operation.apply,
            Function.update_apply]
          simp
      | false =>
          rw [if_neg (by simp), if_pos rfl, Operation.apply, eq_comm, Function.update_eq_self_iff]
          simp [eq_comm]
  | false =>
      refine iff_of_true ?_ (by simp)
      cases start : i.start with
      | true =>
          funext p
          rw [if_pos rfl, foldl_update]
          simp [Inputs.select, write, Selection.pixels, Operation.apply, Operation.mirrored]
      | false => simp [Operation.apply]

/-- A load returns the current bit of the pixel, whatever else happens in its cycle. -/
theorem readdata_of_read (s : PlotCircle) {i : Inputs} (read : i.read = true) :
    s.readdata i = (s.pixmem i.pixel).setWidth 32 := by
  have small := (s.pixmem i.pixel).isLt
  rw [PlotCircle.readdata, if_pos read]
  apply BitVec.eq_of_toNat_eq
  rw [BitVec.toNat_append, BitVec.toNat_setWidth, Nat.mod_eq_of_lt (by omega)]
  simp [Inputs.pixel]

/-! ## Runs -/

/-- The memory the operations of the first `n` cycles lead to. -/
def intended (ins : ℕ → Inputs) (n : ℕ) : Pixel → BitVec 1 :=
  (List.range n).foldl (fun mem k => (ins k).operation.apply mem) fun _ => 0

theorem intended_succ (ins : ℕ → Inputs) (n : ℕ) :
    intended ins (n + 1) = (ins n).operation.apply (intended ins n) := by
  rw [intended, List.range_succ, List.foldl_append]
  rfl

namespace PlotCircle

/-- In every cycle of the run from reset the memory is the fold of the operations,
and a load returns its bit. -/
def FollowsOperations (ins : ℕ → Inputs) : Prop :=
  ∀ n, (run tick reset ins n).pixmem = intended ins n ∧
    ((ins n).read = true →
      (run tick reset ins n).readdatavalid (ins n) = true ∧
        (run tick reset ins n).readdata (ins n) = (intended ins n (ins n).pixel).setWidth 32)

/-- The coprocessor follows its operations exactly in the runs that lose no store. -/
theorem followsOperations_iff (ins : ℕ → Inputs) :
    FollowsOperations ins ↔ ∀ n, ¬ (run tick reset ins n).Loses (ins n) := by
  constructor
  · intro follows n
    rw [← nextPixmem_eq_iff, (follows n).1, ← intended_succ, ← (follows (n + 1)).1]
    rfl
  · intro kept n
    have memory : (run tick reset ins n).pixmem = intended ins n := by
      induction n with
      | zero => rfl
      | succ n ih =>
          rw [intended_succ, ← ih]
          exact (nextPixmem_eq_iff _ _).mpr (kept n)
    refine ⟨memory, fun read => ⟨if_pos read, ?_⟩⟩
    rw [readdata_of_read _ read, memory]

/-- A store of 1 to the pixel (0, 0) without `start`, in the first cycle. -/
def firstStore (n : ℕ) : Inputs :=
  if n = 0 then ⟨false, 0, 0, false, 0, true, 1⟩ else ⟨false, 0, 0, false, 0, false, 0⟩

/-- The store is lost. -/
theorem not_followsOperations_firstStore : ¬ FollowsOperations firstStore := by
  intro follows
  have dark : (run tick reset firstStore 1).pixmem ⟨0, 0⟩ = 0 := by decide
  have bright : intended firstStore 1 ⟨0, 0⟩ = 1 := by decide
  rw [(follows 1).1, bright] at dark
  cases dark

end PlotCircle

end CirclePlotter.SetPixel
