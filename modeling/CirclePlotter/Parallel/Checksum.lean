import CirclePlotter.Parallel.Software

/-!
# The two checksums

`checkscreen` adds the 32768 bytes of the software screen, `checkscreen_hw` the
262144 words the coprocessor shows, each a single bit shifted by its address.
The eight words of a byte add up to the byte, so on one picture the two sums
are the same.
-/

namespace CirclePlotter.Parallel

/-- The screen of the coprocessor as the software sees it: a load gives the bit
of the pixel shifted by the address, a store of a word for all engines clears it. -/
def screenMM : Program.Memory (BitVec 32) (BitVec 32) BitMem where
  read mem index :=
    if index < 262144 then some ((mem (index.setWidth 18)).setWidth 32 <<< (index % 8)) else none
  write mem index word :=
    if index < 262144 ∧ word.extractLsb' 26 6 = 0 then
      some (Function.update mem (index.setWidth 18) 0)
    else none

/-- `for (i=0; i<SCREENBYTES*8; i++) screen_mm[i] = 0;` -/
def clearscreen_hw : CProgram Unit :=
  forM (List.range 262144) fun i => Program.write (BitVec.ofNat 32 i) 0

/-- `for (i=0; i<SCREENBYTES*8; i++) v += screen_mm[i];` -/
def checkscreen_hw : CProgram (BitVec 32) :=
  (List.range 262144).foldlM (fun v i => do
    let word ← Program.read (BitVec.ofNat 32 i)
    return v + word) 0

/-- The reference case: `NUMCIRCLES` circles. -/
def plotallcircles_ref (dx dy dr : Fin 50 → BitVec 32) : CProgram Unit :=
  forM (List.finRange 50) fun i => plotcircle (dx i) (dy i) (dr i)

/-- The reference case of `main`, with its checksum. -/
def refchksum (dx dy dr : Fin 50 → BitVec 32) : CProgram (BitVec 32) := do
  clearscreen
  plotallcircles_ref dx dy dr
  checkscreen

/-! ## The sums -/

/-- The sum of the bytes. -/
def checksum (mem : ByteMem) : BitVec 32 :=
  (List.range 32768).foldl (fun v i => v + (mem (BitVec.ofNat 15 i)).setWidth 32) 0

theorem exec_checkscreen (mem : ByteMem) :
    checkscreen.exec screenMemory mem = some (checksum mem, mem) := by
  refine Program.exec_foldlM_read (fun i below => ?_) _ _
  rw [List.mem_range] at below
  have inRange : BitVec.ofNat 32 i < 32768 := by
    rw [BitVec.lt_def, BitVec.toNat_ofNat]
    change _ < 32768
    omega
  simp only [screenMemory, inRange, if_true]
  congr 3
  apply BitVec.eq_of_toNat_eq
  simp only [BitVec.toNat_setWidth, BitVec.toNat_ofNat]
  omega

/-- The indices of the loops over `screen_mm` are addresses of pixels. -/
theorem address_of_lt {i : ℕ} (below : i < 262144) :
    BitVec.ofNat 32 i < 262144 ∧ (BitVec.ofNat 32 i).setWidth 18 = BitVec.ofNat 18 i := by
  constructor
  · rw [BitVec.lt_def, BitVec.toNat_ofNat]
    change _ < 262144
    omega
  · apply BitVec.eq_of_toNat_eq
    simp only [BitVec.toNat_setWidth, BitVec.toNat_ofNat]
    omega

theorem exec_checkscreen_hw (bits : BitMem) :
    checkscreen_hw.exec screenMM bits =
      some ((List.range 262144).foldl (fun v i =>
        v + (bits (BitVec.ofNat 18 i)).setWidth 32 <<< (i % 8)) 0, bits) := by
  refine Program.exec_foldlM_read (fun i below => ?_) _ _
  rw [List.mem_range] at below
  have address := address_of_lt below
  have shift : (BitVec.ofNat 32 i % 8).toNat = i % 8 := by
    rw [BitVec.toNat_umod, BitVec.toNat_ofNat]
    change i % 2 ^ 32 % 8 = _
    omega
  simp only [screenMM, address, if_true, BitVec.shiftLeft_eq', shift]

/-- Storing 0 at the addresses `is` clears these bits. -/
theorem exec_clears (is : List ℕ) (inRange : ∀ i ∈ is, i < 262144) (bits : BitMem) :
    (forM is fun i => Program.write (BitVec.ofNat 32 i) 0 : CProgram PUnit).exec screenMM bits =
      some ((), fun a => if a.toNat ∈ is then 0 else bits a) := by
  induction is generalizing bits with
  | nil => rfl
  | cons i is ih =>
      have below := inRange i List.mem_cons_self
      have address := address_of_lt below
      have first : (Program.write (BitVec.ofNat 32 i) 0 : CProgram PUnit).exec screenMM bits =
          some ((), Function.update bits (BitVec.ofNat 18 i) 0) := by
        have all : (0 : BitVec 32).extractLsb' 26 6 = 0 := by decide
        simp only [Program.write, Program.exec, screenMM, address, all, and_self, if_true]
      rw [List.forM_cons, Program.exec_bind, first, Option.bind_some,
        ih fun i' later => inRange i' (List.mem_cons_of_mem i later)]
      refine congrArg (fun bits => some ((), bits)) (funext fun a => ?_)
      have here : a = BitVec.ofNat 18 i ↔ a.toNat = i := by
        rw [← BitVec.toNat_inj, BitVec.toNat_ofNat, Nat.mod_eq_of_lt below]
      simp only [Function.update_apply, here, List.mem_cons]
      by_cases later : a.toNat ∈ is
      · simp [later]
      · simp [later]

theorem exec_clearscreen_hw (bits : BitMem) :
    clearscreen_hw.exec screenMM bits = some ((), fun _ => 0) := by
  have all (a : BitVec 18) : a.toNat ∈ List.range 262144 := List.mem_range.mpr a.isLt
  rw [clearscreen_hw, exec_clears _ fun _ => List.mem_range.mp]
  simp only [all, if_true]

/-- A sum over `k * n` numbers, taken in `n` blocks. -/
theorem foldl_range_mul {α : Type} (k n : ℕ) (f : α → ℕ → α) (a : α) :
    (List.range (k * n)).foldl f a =
      (List.range n).foldl (fun a i => (List.range k).foldl (fun a j => f a (k * i + j)) a) a := by
  induction n with
  | zero => rfl
  | succ n ih =>
      rw [Nat.mul_succ, List.range_add, List.foldl_append, List.foldl_map, ih, List.range_succ,
        List.foldl_append, List.foldl_cons, List.foldl_nil]

theorem foldl_add_eq {α : Type} (term : α → BitVec 32) (ks : List α) (v : BitVec 32) :
    ks.foldl (fun v k => v + term k) v = v + ks.foldl (fun v k => v + term k) 0 := by
  induction ks generalizing v with
  | nil => simp
  | cons k ks ih =>
      have first : 0 + term k = term k := BitVec.zero_add _
      rw [List.foldl_cons, List.foldl_cons, ih, first, ih (term k), BitVec.add_assoc]

/-! ## One byte -/

/-- The bits of a byte, each shifted to its place, add up to the byte. -/
theorem sum_bits : ∀ byte : BitVec 8,
    (List.range 8).foldl (fun v b =>
      v + (BitVec.ofBool (byte.getLsbD b)).setWidth 32 <<< b) 0 = byte.setWidth 32 := by
  decide +kernel

/-- On one picture both memories hold the same bits. -/
theorem bits_eq {mem : ByteMem} {bits : BitMem} (same : lit mem = litBits bits) (a : BitVec 15)
    (b : BitVec 3) : bits (a ++ b) = BitVec.ofBool ((mem a).getLsbD b.toNat) := by
  rcases Pixel.exists_addr_bit a b with ⟨p, rfl, rfl⟩
  have shown : (mem p.addr).getLsbD p.bit.toNat = true ↔ bits p.index = 1 :=
    Set.ext_iff.mp same p
  have decided : ∀ v : BitVec 1, v = BitVec.ofBool (decide (v = 1)) := by decide
  rw [← Pixel.index_eq_append, decided (bits p.index)]
  congr 1
  rw [Bool.eq_iff_iff, shown, decide_eq_true_iff]

/-- The eight words of a byte. -/
theorem sum_byte {mem : ByteMem} {bits : BitMem} (same : lit mem = litBits bits)
    (v : BitVec 32) (i : ℕ) :
    (List.range 8).foldl (fun v j =>
        v + (bits (BitVec.ofNat 18 (8 * i + j))).setWidth 32 <<< ((8 * i + j) % 8)) v =
      v + (mem (BitVec.ofNat 15 i)).setWidth 32 := by
  rw [← sum_bits, ← foldl_add_eq]
  apply List.foldl_ext
  intro v j inByte
  rw [List.mem_range] at inByte
  have address : BitVec.ofNat 18 (8 * i + j) = BitVec.ofNat 15 i ++ BitVec.ofNat 3 j := by
    have small := (BitVec.ofNat 3 j).isLt
    apply BitVec.eq_of_toNat_eq
    rw [BitVec.toNat_append, ← Nat.shiftLeft_add_eq_or_of_lt small, Nat.shiftLeft_eq]
    simp only [BitVec.toNat_ofNat]
    omega
  have bit : (BitVec.ofNat 3 j).toNat = j := by
    rw [BitVec.toNat_ofNat]
    omega
  have shift : (8 * i + j) % 8 = j := by omega
  rw [address, bits_eq same, bit, shift]

/-- On one picture both programs compute the same value. -/
theorem exec_checkscreen_hw_of_same {mem : ByteMem} {bits : BitMem}
    (same : lit mem = litBits bits) :
    checkscreen_hw.exec screenMM bits = some (checksum mem, bits) := by
  rw [exec_checkscreen_hw, foldl_range_mul 8 32768]
  simp only [sum_byte same, checksum]

/-! ## The comparison -/

/-- Every set of pixels can be on both screens, and then the checksums agree; so
they do when the engines have drawn the picture of the reference case. -/
theorem checksums_agree (S : Set Pixel) :
    (∃ mem bits, lit mem = S ∧ litBits bits = S) ∧
      ∀ mem bits, lit mem = S → litBits bits = S →
        ∃ v, checkscreen.exec screenMemory mem = some (v, mem) ∧
          checkscreen_hw.exec screenMM bits = some (v, bits) ∧
          ∀ dx dy dr before ref, (refchksum dx dy dr).exec screenMemory before = some (ref, mem) →
            ref = v := by
  rcases exists_lit_eq S with ⟨mem, soft⟩
  rcases exists_litBits_eq S with ⟨bits, hard⟩
  refine ⟨⟨mem, bits, soft, hard⟩, ?_⟩
  clear soft hard mem bits
  intro mem bits soft hard
  have same : lit mem = litBits bits := soft.trans hard.symm
  refine ⟨checksum mem, exec_checkscreen mem, exec_checkscreen_hw_of_same same, ?_⟩
  intro dx dy dr before ref run
  unfold refchksum at run
  rw [Program.exec_bind, Option.bind_eq_some_iff] at run
  rcases run with ⟨⟨⟨⟩, cleared⟩, -, run⟩
  rw [Program.exec_bind, Option.bind_eq_some_iff] at run
  rcases run with ⟨⟨⟨⟩, drawn⟩, -, run⟩
  rw [exec_checkscreen] at run
  rcases Prod.mk.inj (Option.some.inj run) with ⟨value, rfl⟩
  exact value.symm

/-- The screens with the pixel (3, 5). -/
theorem checksums_agree_point :
    ∃ v, checkscreen.exec screenMemory (plot (fun _ => 0) ⟨3, 5⟩) =
        some (v, plot (fun _ => 0) ⟨3, 5⟩) ∧
      checkscreen_hw.exec screenMM (Function.update (fun _ => 0) (Pixel.index ⟨3, 5⟩) 1) =
        some (v, Function.update (fun _ => 0) (Pixel.index ⟨3, 5⟩) 1) := by
  have soft : lit (plot (fun _ => 0) ⟨3, 5⟩) = {⟨3, 5⟩} := by
    rw [lit_plot]
    ext p
    simp [lit]
  have hard : litBits (Function.update (fun _ => 0) (Pixel.index ⟨3, 5⟩) 1) = {⟨3, 5⟩} := by
    rw [litBits_update]
    ext p
    simp [litBits]
  obtain ⟨v, sum, sum_hw, -⟩ := (checksums_agree {⟨3, 5⟩}).2 _ _ soft hard
  exact ⟨v, sum, sum_hw⟩

end CirclePlotter.Parallel
