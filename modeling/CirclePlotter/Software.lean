import CirclePlotter.Circle
import CirclePlotter.MemoryProgram

/-!
# The plotting code of `main.c`

The C functions both designs are compared with. `int` values are integers with
a check for signed overflow, which C leaves undefined; `unsigned` values are
`BitVec 32`. A function that touches the screen is a `Program` over words at
32-bit indices.
-/

namespace CirclePlotter

/-- A C function working on the screen. -/
abbrev CProgram := Program (BitVec 32) (BitVec 32)

/-- The result of a signed operation, undefined outside the range of `int`. -/
def int32 (v : Int) : Option Int := if -2 ^ 31 ≤ v ∧ v < 2 ^ 31 then some v else none

theorem int32_of_fits {v : Int} (lo : -2 ^ 31 ≤ v) (hi : v < 2 ^ 31) : int32 v = some v :=
  if_pos ⟨lo, hi⟩

theorem eq_of_int32 {v v' : Int} (fits : int32 v = some v') : v' = v := by
  unfold int32 at fits
  split at fits
  · exact (Option.some.inj fits).symm
  · cases fits

/-! ## `screen` as a plain byte array -/

/-- The 32768 bytes of the screen: a load gives the byte zero-extended, a store
keeps the low byte. -/
def screenMemory : Program.Memory (BitVec 32) (BitVec 32) ByteMem where
  read mem index :=
    if index < 32768 then some ((mem (index.setWidth 15)).setWidth 32) else none
  write mem index word :=
    if index < 32768 then some (Function.update mem (index.setWidth 15) (word.setWidth 8))
    else none

/-- `for (i=0; i<SCREENBYTES; i++) screen[i] = 0;` -/
def clearscreen : CProgram Unit :=
  forM (List.range 32768) fun i => Program.write (BitVec.ofNat 32 i) 0

/-- `for (i=0; i<SCREENBYTES; i++) v += screen[i];` -/
def checkscreen : CProgram (BitVec 32) :=
  (List.range 32768).foldlM (fun v i => do
    let word ← Program.read (BitVec.ofNat 32 i)
    return v + word) 0

def setpixel (x y : BitVec 32) : CProgram Unit :=
  let bytenum := (y * 512 + x) / 8
  let bitnum := x % 8
  if x > 511 then pure ()
  else if y > 511 then pure ()
  else do
    let byte ← Program.read bytenum
    Program.write bytenum (byte ||| 1#32 <<< bitnum)

def getpixel (x y : BitVec 32) : CProgram (BitVec 32) :=
  let bytenum := (y * 512 + x) / 8
  let bitnum := x % 8
  if x > 511 then pure 0
  else if y > 511 then pure 0
  else do
    let byte ← Program.read bytenum
    if byte &&& 1#32 <<< bitnum ≠ 0 then return 1 else return 0

/-! ## `plotcircle` -/

/-- `y = y + 1; if (xp < 0) xp += (2*y + 1); else { x = x - 1; xp += 2*(y-x) + 1; }` -/
def octantStep (o : Octant) : Option Octant := do
  let y ← int32 (o.y + 1)
  if o.xp < 0 then
    let twice ← int32 (2 * y)
    let delta ← int32 (twice + 1)
    let xp ← int32 (o.xp + delta)
    return ⟨o.x, y, xp⟩
  else
    let x ← int32 (o.x - 1)
    let gap ← int32 (y - x)
    let twice ← int32 (2 * gap)
    let delta ← int32 (twice + 1)
    let xp ← int32 (o.xp + delta)
    return ⟨x, y, xp⟩

/-- When no operation overflows, the C code takes the step of the walk. -/
theorem next_of_octantStep {o o' : Octant} (defined : octantStep o = some o') : o' = o.next := by
  unfold octantStep at defined
  simp only [bind, Option.bind_eq_some_iff] at defined
  obtain ⟨y, fitsY, defined⟩ := defined
  obtain rfl := eq_of_int32 fitsY
  split at defined
  · next neg =>
      simp only [Option.bind_eq_some_iff] at defined
      obtain ⟨twice, fits1, delta, fits2, xp, fits3, defined⟩ := defined
      obtain rfl := eq_of_int32 fits1
      obtain rfl := eq_of_int32 fits2
      obtain rfl := eq_of_int32 fits3
      cases defined
      exact (Octant.next_of_neg neg).symm
  · next nonneg =>
      simp only [Option.bind_eq_some_iff] at defined
      obtain ⟨x, fits1, gap, fits2, twice, fits3, delta, fits4, xp, fits5, defined⟩ := defined
      obtain rfl := eq_of_int32 fits1
      obtain rfl := eq_of_int32 fits2
      obtain rfl := eq_of_int32 fits3
      obtain rfl := eq_of_int32 fits4
      obtain rfl := eq_of_int32 fits5
      cases defined
      exact (Octant.next_of_nonneg (by omega)).symm

/-- Within the bounds of the walk no operation of the loop overflows. -/
theorem octantStep_of_within {o : Octant} {r : Int} (within : Octant.Within r o)
    (small : r ≤ 2 ^ 30) (room : o.y + 4 ≤ 2 ^ 30) : octantStep o = some o.next := by
  obtain ⟨hy, hyx, hx, hge, hle⟩ := within
  rw [octantStep, int32_of_fits (by omega) (by omega)]
  dsimp only [bind, Option.bind]
  rcases Int.lt_or_le o.xp 0 with neg | nonneg
  · rw [if_pos neg, int32_of_fits (by omega) (by omega)]
    dsimp only
    rw [int32_of_fits (by omega) (by omega)]
    dsimp only
    rw [int32_of_fits (by omega) (by omega)]
    exact congrArg some (Octant.next_of_neg neg).symm
  · rw [if_neg (by omega), int32_of_fits (by omega) (by omega)]
    dsimp only
    rw [int32_of_fits (by omega) (by omega)]
    dsimp only
    rw [int32_of_fits (by omega) (by omega)]
    dsimp only
    rw [int32_of_fits (by omega) (by omega)]
    dsimp only
    rw [int32_of_fits (by omega) (by omega)]
    exact congrArg some (Octant.next_of_nonneg nonneg).symm

/-- The loop of `plotcircle` from the values `o` of its variables. -/
def plotcircleLoop (cx cy : BitVec 32) (o : Octant) : CProgram Unit :=
  if _inside : o.x ≥ o.y then do
    let x := BitVec.ofInt 32 o.x
    let y := BitVec.ofInt 32 o.y
    setpixel (cx + x) (cy + y)
    setpixel (cx + x) (cy - y)
    setpixel (cx - x) (cy + y)
    setpixel (cx - x) (cy - y)
    setpixel (cx + y) (cy + x)
    setpixel (cx + y) (cy - x)
    setpixel (cx - y) (cy + x)
    setpixel (cx - y) (cy - x)
    match _step : octantStep o with
    | some o' => plotcircleLoop cx cy o'
    | none => .undefined
  else pure ()
termination_by (o.x - o.y + 1).toNat
decreasing_by
  rw [next_of_octantStep _step]
  exact Octant.gap_next _inside

def plotcircle (cx cy r : BitVec 32) : CProgram Unit :=
  match int32 (1 - r.toInt) with
  | some xp => plotcircleLoop cx cy ⟨r.toInt, 0, xp⟩
  | none => .undefined

/-- The reference case: `NUMCIRCLES` circles. -/
def plotallcircles_ref (dx dy dr : Fin 50 → BitVec 32) : CProgram Unit :=
  forM (List.finRange 50) fun i => plotcircle (dx i) (dy i) (dr i)

/-- The values `x`, `y`, `xp` take in `plotcircle` each time the loop condition
`x >= y` is tested. -/
inductive LoopState (r : BitVec 32) : Octant → Prop
  | init {xp : Int} : int32 (1 - r.toInt) = some xp → LoopState r ⟨r.toInt, 0, xp⟩
  | step {o o' : Octant} :
    LoopState r o → o.x ≥ o.y → octantStep o = some o' → LoopState r o'

/-- Up to the exit the loop variables follow the walk. -/
theorem loopState_of_mem_visits {r : BitVec 32} {o o' : Octant} {bound : Int}
    (small : bound + 4 ≤ 2 ^ 30) (within : Octant.Within bound o) (reached : LoopState r o)
    (mem : o' ∈ o.visits) : LoopState r o' := by
  induction o using Octant.visits.induct with
  | case1 o inside ih =>
      rw [Octant.visits_of_le inside, List.mem_cons] at mem
      rcases mem with rfl | later
      · exact reached
      · have inside' := Octant.inside_of_mem_visits later
        have hyx := within.y_le_x
        have hx := within.x_le
        have step := octantStep_of_within within (by omega) (by omega)
        exact ih (within.next inside') (.step reached inside step) later
  | case2 o outside => exact absurd (Octant.inside_of_mem_visits mem) outside

/-- The body of the loop runs exactly at the positions of the walk. -/
theorem mem_visits_iff_loopState {r : BitVec 32} (small : r.toNat + 4 ≤ 2 ^ 30) (o : Octant) :
    o ∈ (Octant.start r.toNat).visits ↔ LoopState r o ∧ o.x ≥ o.y := by
  have radius : r.toInt = r.toNat := BitVec.toInt_eq_toNat_of_lt (by omega)
  have start : LoopState r (Octant.start r.toNat) := by
    rw [← radius]
    exact .init (int32_of_fits (by omega) (by omega))
  have within : Octant.Within r.toNat (Octant.start r.toNat) := Octant.within_start (by omega)
  constructor
  · intro mem
    exact ⟨loopState_of_mem_visits (by omega) within start mem, (within.of_mem_visits mem).y_le_x⟩
  · intro looping
    rcases looping with ⟨reached, inside⟩
    induction reached with
    | init fits =>
        obtain rfl := eq_of_int32 fits
        rw [radius] at inside ⊢
        rw [Octant.start, Octant.visits_of_le inside]
        exact List.mem_cons_self
    | @step o o' _ inside' step ih =>
        obtain rfl := next_of_octantStep step
        exact Octant.next_mem_visits (ih inside') inside

/-! ## The calls of `setpixel` -/

/-- The arguments of the eight calls in one iteration, in order. -/
def Octant.calls (cx cy : BitVec 32) (o : Octant) : List (BitVec 32 × BitVec 32) :=
  let x := BitVec.ofInt 32 o.x
  let y := BitVec.ofInt 32 o.y
  [(cx + x, cy + y), (cx + x, cy - y), (cx - x, cy + y), (cx - x, cy - y),
    (cx + y, cy + x), (cx + y, cy - x), (cx - y, cy + x), (cx - y, cy - x)]

/-- The arguments of all calls `plotcircle` makes. -/
def plotcircleCalls (cx cy r : BitVec 32) : List (BitVec 32 × BitVec 32) :=
  (Octant.start r.toInt).visits.flatMap (Octant.calls cx cy)

/-- One iteration whose step is defined. -/
theorem plotcircleLoop_of_step (cx cy : BitVec 32) {o o' : Octant} (inside : o.y ≤ o.x)
    (step : octantStep o = some o') :
    plotcircleLoop cx cy o =
      (forM (o.calls cx cy) fun c => setpixel c.1 c.2) >>= fun _ => plotcircleLoop cx cy o' := by
  have tail : (match _step : octantStep o with
      | some o' => plotcircleLoop cx cy o'
      | none => .undefined) = plotcircleLoop cx cy o' := by
    split
    · next o'' step' =>
        rw [step] at step'
        cases step'
        rfl
    · next step' =>
        rw [step] at step'
        cases step'
  rw [plotcircleLoop, dif_pos inside, tail]
  simp only [Octant.calls, List.forM_cons, List.forM_nil, bind_assoc, pure_bind]

theorem plotcircleLoop_eq_calls (cx cy : BitVec 32) {o : Octant} {r : Int}
    (small : r ≤ 2 ^ 30) (within : o.y ≤ o.x → Octant.Within r o)
    (room : ∀ o' ∈ o.visits, o'.y + 4 ≤ 2 ^ 30) :
    plotcircleLoop cx cy o =
      forM (o.visits.flatMap (Octant.calls cx cy)) fun c => setpixel c.1 c.2 := by
  induction o using Octant.visits.induct with
  | case1 o inside ih =>
      have bounds := within inside
      rw [Octant.visits_of_le inside] at room ⊢
      have step := octantStep_of_within bounds small (room o List.mem_cons_self)
      rw [plotcircleLoop_of_step cx cy inside step, List.flatMap_cons, List.forM_append,
        ih (fun inside' => bounds.next inside') fun o' later =>
          room o' (List.mem_cons_of_mem o later)]
  | case2 o outside =>
      rw [plotcircleLoop, dif_neg outside, Octant.visits_of_lt (by omega)]
      rfl

/-- `y` stays below `r / √2`, far enough from the end of the range of `int`. -/
theorem room_of_mem_visits {r : Int} {o : Octant} (nonneg : 0 ≤ r) (small : r < 2 ^ 30)
    (mem : o ∈ (Octant.start r).visits) : o.y + 4 ≤ 2 ^ 30 := by
  have within := (Octant.within_start nonneg).of_mem_visits mem
  have on := (Octant.onCircle_start r).of_mem_visits mem
  have bound := within.two_mul_sq_le on
  by_contra tight
  have large : 2 ^ 30 - 3 ≤ o.y := by omega
  have square : r ^ 2 ≤ (2 ^ 30) ^ 2 := pow_le_pow_left₀ nonneg (Int.le_of_lt small) 2
  have product : (2 ^ 30 - 3) * (2 * (2 ^ 30 - 3) - 1) ≤ o.y * (2 * o.y - 1) :=
    Int.mul_le_mul large (by omega) (by decide) (by omega)
  linarith

theorem plotcircle_eq_calls (cx cy : BitVec 32) {r : BitVec 32} (small : r.toNat < 2 ^ 30) :
    plotcircle cx cy r = forM (plotcircleCalls cx cy r) fun c => setpixel c.1 c.2 := by
  have radius : r.toInt = r.toNat := BitVec.toInt_eq_toNat_of_lt (by omega)
  rw [plotcircle, int32_of_fits (by omega) (by omega)]
  exact plotcircleLoop_eq_calls cx cy (r := r.toInt) (by omega)
    (fun _ => Octant.within_start (by omega)) fun _ => room_of_mem_visits (by omega) (by omega)

/-! ## What the calls draw -/

/-- The pixel a call of `setpixel` sets, unless its range checks reject it. -/
def clip (c : BitVec 32 × BitVec 32) : Option Pixel :=
  if c.1 ≤ 511 ∧ c.2 ≤ 511 then some ⟨c.1.setWidth 9, c.2.setWidth 9⟩ else none

section Setpixel

variable {x y : BitVec 32} (hx : x ≤ 511) (hy : y ≤ 511)

include hx hy

theorem bytenum_toNat : ((y * 512 + x) / 8).toNat = 64 * y.toNat + x.toNat / 8 := by
  have hx' : x.toNat ≤ 511 := hx
  have hy' : y.toNat ≤ 511 := hy
  have product : (y * 512 : BitVec 32).toNat = y.toNat * 512 := by
    rw [BitVec.toNat_mul]
    exact Nat.mod_eq_of_lt (by simp; omega)
  have sum : (y * 512 + x).toNat = y.toNat * 512 + x.toNat := by
    rw [BitVec.toNat_add, product]
    exact Nat.mod_eq_of_lt (by omega)
  rw [BitVec.toNat_udiv, sum]
  change (y.toNat * 512 + x.toNat) / 8 = _
  omega

theorem bytenum_lt : (y * 512 + x) / 8 < 32768 := by
  have hx' : x.toNat ≤ 511 := hx
  have hy' : y.toNat ≤ 511 := hy
  rw [BitVec.lt_def, bytenum_toNat hx hy]
  change _ < 32768
  omega

theorem bytenum_eq_addr :
    ((y * 512 + x) / 8).setWidth 15 = Pixel.addr ⟨x.setWidth 9, y.setWidth 9⟩ := by
  have hx' : x.toNat ≤ 511 := hx
  have hy' : y.toNat ≤ 511 := hy
  apply BitVec.eq_of_toNat_eq
  rw [BitVec.toNat_setWidth, bytenum_toNat hx hy, Pixel.addr_toNat]
  simp only [BitVec.toNat_setWidth]
  omega

omit hx hy in
/-- The low byte of the word `setpixel` stores. -/
theorem setpixel_byte (byte : BitVec 8) :
    (byte.setWidth 32 ||| 1#32 <<< (x % 8)).setWidth 8 =
      byte ||| Pixel.mask ⟨x.setWidth 9, y.setWidth 9⟩ := by
  have bit : (x % 8).toNat = (Pixel.bit ⟨x.setWidth 9, y.setWidth 9⟩).toNat := by
    rw [Pixel.bit_toNat, BitVec.toNat_umod]
    simp only [BitVec.toNat_setWidth]
    change x.toNat % 8 = _
    omega
  rw [BitVec.setWidth_or, BitVec.setWidth_setWidth_of_le _ (by decide), BitVec.setWidth_eq]
  congr 1
  rw [Pixel.mask, BitVec.shiftLeft_eq', BitVec.shiftLeft_eq', bit]
  apply BitVec.eq_of_getLsbD_eq
  intro k below
  simp [below]

end Setpixel

theorem exec_setpixel (x y : BitVec 32) (mem : ByteMem) :
    (setpixel x y).exec screenMemory mem = some ((), (clip (x, y)).elim mem (plot mem)) := by
  unfold setpixel clip
  by_cases hx : x ≤ 511
  · by_cases hy : y ≤ 511
    · have inRange := bytenum_lt hx hy
      rw [if_neg (by simpa using hx), if_neg (by simpa using hy), if_pos ⟨hx, hy⟩]
      simp only [Program.read, Program.write, Program.load_bind, Program.pure_bind', Program.exec,
        screenMemory, inRange, if_true, bytenum_eq_addr hx hy, setpixel_byte (y := y)]
      rfl
    · rw [if_neg (by simpa using hx), if_pos (by simpa using hy), if_neg fun h => hy h.2]
      rfl
  · rw [if_pos (by simpa using hx), if_neg fun h => hx h.1]
    rfl

/-- A sequence of calls draws the pixels its range checks let through. -/
theorem exec_calls (cs : List (BitVec 32 × BitVec 32)) (mem : ByteMem) :
    (forM cs fun c => setpixel c.1 c.2 : CProgram PUnit).exec screenMemory mem =
      some ((), (cs.filterMap clip).foldl plot mem) := by
  induction cs generalizing mem with
  | nil => rfl
  | cons c cs ih =>
      rw [List.forM_cons, Program.exec_bind, exec_setpixel, Option.bind_some, ih,
        List.filterMap_cons]
      cases clip c <;> rfl

/-! ## Clearing and summing -/

theorem index_of_lt {i : ℕ} (below : i < 32768) :
    BitVec.ofNat 32 i < 32768 ∧ (BitVec.ofNat 32 i).setWidth 15 = BitVec.ofNat 15 i := by
  constructor
  · rw [BitVec.lt_def, BitVec.toNat_ofNat]
    change _ < 32768
    omega
  · apply BitVec.eq_of_toNat_eq
    simp only [BitVec.toNat_setWidth, BitVec.toNat_ofNat]
    omega

theorem exec_clearscreen (mem : ByteMem) :
    clearscreen.exec screenMemory mem = some ((), fun _ => 0) := by
  have all (a : BitVec 15) : a ∈ (List.range 32768).map (BitVec.ofNat 15) :=
    List.mem_map.mpr ⟨a.toNat, List.mem_range.mpr a.isLt, by simp⟩
  rw [clearscreen, Program.exec_forM_write (BitVec.ofNat 15) 0]
  · simp only [all, if_true]
  · intro i mem_range mem
    have index := index_of_lt (List.mem_range.mp mem_range)
    simp only [screenMemory, index, if_true]
    rfl

/-- The sum does not change the screen. -/
theorem exists_checkscreen (mem : ByteMem) :
    ∃ v, checkscreen.exec screenMemory mem = some (v, mem) := by
  have inRange : ∀ i ∈ List.range 32768, screenMemory.read mem (BitVec.ofNat 32 i) =
      some ((mem (BitVec.ofNat 15 i)).setWidth 32) := by
    intro i mem_range
    have index := index_of_lt (List.mem_range.mp mem_range)
    simp only [screenMemory, index, if_true]
  exact ⟨_, Program.exec_foldlM_read inRange _ _⟩

end CirclePlotter
