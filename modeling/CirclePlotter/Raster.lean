import Mathlib.Data.Set.Finite.Basic
import Mathlib.Data.Set.Lattice
import Mathlib.Logic.Function.Basic
import Mathlib.Tactic.Common

/-!
# The screen layout

A screen is 512 by 512 pixels, packed eight to a byte: pixel `(x, y)` is bit
`x % 8` of byte `64 * y + x / 8` (`setpixel` in `main.c`, and the address
concatenations of `plot_pixel`). `lit mem` is the picture a byte memory shows,
as a set of pixels; a memory is determined by its picture. `litBits mem` is the
picture of a memory with one bit for each pixel.
-/

namespace CirclePlotter

/-- A point of the screen. -/
@[ext]
structure Pixel where
  x : BitVec 9
  y : BitVec 9
  deriving DecidableEq, Repr

/-- One byte for each eight pixels of a row. -/
abbrev ByteMem := BitVec 15 → BitVec 8

namespace Pixel

/-- `{y, x[8:3]}`, the byte that holds the pixel. -/
def addr (p : Pixel) : BitVec 15 := p.y ++ p.x.extractLsb' 3 6

/-- `x[2:0]`, the bit of that byte. -/
def bit (p : Pixel) : BitVec 3 := p.x.extractLsb' 0 3

/-- `1'b1 << x[2:0]` in the width of a byte. -/
def mask (p : Pixel) : BitVec 8 := 1#8 <<< p.bit

theorem addr_toNat (p : Pixel) : p.addr.toNat = 64 * p.y.toNat + p.x.toNat / 8 := by
  have hx := p.x.isLt
  simp only [addr, BitVec.toNat_append, BitVec.extractLsb'_toNat, Nat.shiftRight_eq_div_pow]
  rw [Nat.mod_eq_of_lt (by omega), ← Nat.shiftLeft_add_eq_or_of_lt (by omega),
    Nat.shiftLeft_eq]
  omega

theorem bit_toNat (p : Pixel) : p.bit.toNat = p.x.toNat % 8 := by
  simp [bit, BitVec.extractLsb'_toNat]

/-- Byte and bit together determine the pixel. -/
theorem eq_of_addr_bit {p q : Pixel} (byte : p.addr = q.addr) (bit : p.bit = q.bit) : p = q := by
  have byteN := congrArg BitVec.toNat byte
  have bitN := congrArg BitVec.toNat bit
  rw [addr_toNat, addr_toNat] at byteN
  rw [bit_toNat, bit_toNat] at bitN
  have hp := p.x.isLt
  have hq := q.x.isLt
  apply Pixel.ext <;> apply BitVec.eq_of_toNat_eq <;> omega

/-- Every bit of every byte belongs to a pixel. -/
theorem exists_addr_bit (a : BitVec 15) (b : BitVec 3) : ∃ p : Pixel, p.addr = a ∧ p.bit = b := by
  have ha := a.isLt
  have hb := b.isLt
  refine ⟨⟨BitVec.ofNat 9 (8 * (a.toNat % 64) + b.toNat), BitVec.ofNat 9 (a.toNat / 64)⟩, ?_, ?_⟩
  · apply BitVec.eq_of_toNat_eq
    rw [addr_toNat]
    simp only [BitVec.toNat_ofNat]
    omega
  · apply BitVec.eq_of_toNat_eq
    rw [bit_toNat]
    simp only [BitVec.toNat_ofNat]
    omega

theorem getLsbD_mask (p : Pixel) (b : BitVec 3) :
    p.mask.getLsbD b.toNat = decide (b = p.bit) := by
  have hb := b.isLt
  have hp := p.bit.isLt
  simp only [mask, BitVec.shiftLeft_eq', BitVec.getLsbD_shiftLeft, BitVec.getLsbD_one]
  rw [Bool.eq_iff_iff]
  simp only [Bool.and_eq_true, decide_eq_true_eq, Bool.not_eq_true', decide_eq_false_iff_not,
    BitVec.toNat_eq]
  omega

end Pixel

/-- The picture a memory shows. -/
def lit (mem : ByteMem) : Set Pixel := {p | (mem p.addr).getLsbD p.bit.toNat = true}

theorem mem_lit {mem : ByteMem} {p : Pixel} :
    p ∈ lit mem ↔ (mem p.addr).getLsbD p.bit.toNat = true := Iff.rfl

/-- A memory is determined by its picture. -/
theorem eq_of_lit_eq {mem mem' : ByteMem} (same : lit mem = lit mem') : mem = mem' := by
  funext a
  apply BitVec.eq_of_getLsbD_eq
  intro b below
  obtain ⟨p, rfl, bit⟩ := Pixel.exists_addr_bit a (BitVec.ofNat 3 b)
  have bitN : p.bit.toNat = b := by
    rw [bit, BitVec.toNat_ofNat]
    omega
  have at_p : p ∈ lit mem ↔ p ∈ lit mem' := by rw [same]
  rw [mem_lit, mem_lit, bitN] at at_p
  exact Bool.eq_iff_iff.mpr at_p

/-- `setpixel` on a memory: OR the mask into the byte of the pixel. -/
def plot (mem : ByteMem) (p : Pixel) : ByteMem :=
  Function.update mem p.addr (mem p.addr ||| p.mask)

theorem lit_plot (mem : ByteMem) (p : Pixel) : lit (plot mem p) = insert p (lit mem) := by
  ext q
  rw [Set.mem_insert_iff, mem_lit, mem_lit, plot]
  by_cases byte : q.addr = p.addr
  · rw [byte, Function.update_self, BitVec.getLsbD_or, Pixel.getLsbD_mask, Bool.or_eq_true,
      decide_eq_true_eq, or_comm, ← byte]
    refine or_congr_left ⟨fun bit => Pixel.eq_of_addr_bit byte bit, fun same => by rw [same]⟩
  · rw [Function.update_of_ne byte]
    exact ⟨Or.inr, fun h => h.resolve_left fun same => byte (by rw [same])⟩

/-- Plotting a list of pixels adds exactly these pixels. -/
theorem lit_foldl_plot (ps : List Pixel) (mem : ByteMem) :
    lit (ps.foldl plot mem) = lit mem ∪ {p | p ∈ ps} := by
  induction ps generalizing mem with
  | nil => simp
  | cons p ps ih =>
      rw [List.foldl_cons, ih, lit_plot]
      ext q
      simp only [Set.mem_union, Set.mem_insert_iff, Set.mem_ofPred_eq, List.mem_cons]
      tauto

/-! ## One bit for each pixel -/

/-- One bit for each pixel, as the engines working in parallel store it. -/
abbrev BitMem := BitVec 18 → BitVec 1

namespace Pixel

/-- `{y, x}`, the bit of the pixel. -/
def index (p : Pixel) : BitVec 18 := p.y ++ p.x

theorem index_toNat (p : Pixel) : p.index.toNat = 512 * p.y.toNat + p.x.toNat := by
  have hx := p.x.isLt
  rw [index, BitVec.toNat_append, ← Nat.shiftLeft_add_eq_or_of_lt hx, Nat.shiftLeft_eq]
  omega

theorem index_inj {p q : Pixel} : p.index = q.index ↔ p = q := by
  refine ⟨fun same => ?_, congrArg index⟩
  have sameN := congrArg BitVec.toNat same
  rw [index_toNat, index_toNat] at sameN
  have hp := p.x.isLt
  have hq := q.x.isLt
  apply Pixel.ext <;> apply BitVec.eq_of_toNat_eq <;> omega

/-- The bits of a byte follow each other. -/
theorem index_eq_append (p : Pixel) : p.index = p.addr ++ p.bit := by
  have small := p.bit.isLt
  apply BitVec.eq_of_toNat_eq
  rw [index_toNat, BitVec.toNat_append, ← Nat.shiftLeft_add_eq_or_of_lt small, Nat.shiftLeft_eq,
    addr_toNat, bit_toNat]
  omega

end Pixel

/-- The picture a memory of bits shows. -/
def litBits (mem : BitMem) : Set Pixel := {p | mem p.index = 1}

theorem litBits_update (mem : BitMem) (p : Pixel) :
    litBits (Function.update mem p.index 1) = insert p (litBits mem) := by
  ext q
  rw [Set.mem_insert_iff, litBits, Set.mem_ofPred_eq]
  by_cases here : q = p
  · simp [here]
  · rw [Function.update_of_ne fun same => here (Pixel.index_inj.mp same)]
    exact ⟨Or.inr, fun shown => shown.resolve_left here⟩

/-! ## Every picture can be shown -/

theorem finite_pixel : Finite Pixel :=
  Finite.of_injective (fun p : Pixel => p.index.toFin) fun _ _ same =>
    Pixel.index_inj.mp (BitVec.toFin_inj.mp same)

/-- Plot all pixels of the picture on an empty screen. -/
theorem exists_lit_eq (S : Set Pixel) : ∃ mem, lit mem = S := by
  have finite := finite_pixel
  refine ⟨S.toFinite.toFinset.toList.foldl plot fun _ => 0, ?_⟩
  rw [lit_foldl_plot]
  ext p
  simp [lit]

theorem exists_litBits_eq (S : Set Pixel) : ∃ mem, litBits mem = S := by
  classical
  refine ⟨fun a => if ∃ p ∈ S, p.index = a then 1 else 0, ?_⟩
  ext p
  simp [litBits, Pixel.index_inj]

end CirclePlotter
