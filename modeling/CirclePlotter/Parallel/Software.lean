import CirclePlotter.OnScreen
import CirclePlotter.Registers

/-!
# The software of the parallel design

Its `plotcircle` gives up after `LIMIT` iterations. For radii up to 255 the
limit is never reached with an iteration left, so the function is the reference
`plotcircle`. `setpixel`, `clearscreen` and `checkscreen` are the same.
-/

namespace CirclePlotter.Parallel

/-- The loop of `plotcircle` from the values `o` and `i` of its variables;
`LIMIT` is 202. -/
def plotcircleLoop (cx cy : BitVec 32) (o : Octant) (i : ℕ) : CProgram Unit :=
  if _inside : o.x ≥ o.y then do
    let x := BitVec.ofInt 32 o.x
    let y := BitVec.ofInt 32 o.y
    setpixel (cx + x) (cy + y)
    setpixel (cx + x) (cy - y)
    setpixel (cx - x) (cy + y)
    setpixel (cx - x) (cy - y)
    setpixel (cx + y) (cy + x)
    setpixel (cx + y) (cy - x)
    setpixel (cx - y) (cy + x)
    setpixel (cx - y) (cy - x)
    match _step : octantStep o with
    | some o' => if i + 1 ≥ 202 then pure () else plotcircleLoop cx cy o' (i + 1)
    | none => .undefined
  else pure ()
termination_by (o.x - o.y + 1).toNat
decreasing_by
  rw [next_of_octantStep _step]
  exact Octant.gap_next _inside

def plotcircle (cx cy r : BitVec 32) : CProgram Unit :=
  match int32 (1 - r.toInt) with
  | some xp => plotcircleLoop cx cy ⟨r.toInt, 0, xp⟩ 0
  | none => .undefined

/-- `SET_RADIUS`, the word that sends a circle to module `c`. -/
def setRadius (c x y r : BitVec 32) : BitVec 32 :=
  (c &&& 0x3f) <<< 26 ||| (r &&& 0xff) <<< 18 ||| (y &&& 0x1ff) <<< 9 ||| (x &&& 0x1ff)

/-! ## The limit is out of reach -/

/-- One iteration whose step is defined. -/
theorem plotcircleLoop_of_step (cx cy : BitVec 32) {o o' : Octant} (i : ℕ) (inside : o.y ≤ o.x)
    (step : octantStep o = some o') :
    plotcircleLoop cx cy o i =
      (forM (o.calls cx cy) fun c => setpixel c.1 c.2) >>= fun _ =>
        if i + 1 ≥ 202 then pure () else plotcircleLoop cx cy o' (i + 1) := by
  have tail : (match _step : octantStep o with
      | some o' => if i + 1 ≥ 202 then pure () else plotcircleLoop cx cy o' (i + 1)
      | none => .undefined : CProgram Unit) =
      if i + 1 ≥ 202 then pure () else plotcircleLoop cx cy o' (i + 1) := by
    split
    · next o'' step' =>
        rw [step] at step'
        cases step'
        rfl
    · next step' =>
        rw [step] at step'
        cases step'
  rw [plotcircleLoop, dif_pos inside, tail]
  simp only [Octant.calls, List.forM_cons, List.forM_nil, bind_assoc, pure_bind]

/-- When the walk ends within the limit, so does the loop, and the limit is not
noticed. -/
theorem plotcircleLoop_eq (cx cy : BitVec 32) {o : Octant} {i : ℕ} {r : Int} (small : r ≤ 255)
    (within : o.y ≤ o.x → Octant.Within r o) (room : i + o.visits.length ≤ 202) :
    plotcircleLoop cx cy o i = CirclePlotter.plotcircleLoop cx cy o := by
  induction o using Octant.visits.induct generalizing i with
  | case1 o inside ih =>
      have bounds := within inside
      have step := octantStep_of_within bounds (by omega) (by have := bounds.x_le; omega)
      rw [Octant.visits_of_le inside, List.length_cons] at room
      rw [plotcircleLoop_of_step cx cy i inside step,
        CirclePlotter.plotcircleLoop_of_step cx cy inside step]
      congr 1
      funext _
      split
      · next last =>
          have outside : ¬ o.next.y ≤ o.next.x := by
            intro inside'
            rw [Octant.visits_of_le inside', List.length_cons] at room
            omega
          rw [CirclePlotter.plotcircleLoop, dif_neg outside]
      · exact ih (fun inside' => bounds.next inside') (by omega)
  | case2 o outside =>
      rw [plotcircleLoop, CirclePlotter.plotcircleLoop, dif_neg outside, dif_neg outside]

/-- The values `x`, `y`, `xp` and `i` take in `plotcircle` each time the loop
condition `x >= y` is tested. -/
inductive LoopState (r : BitVec 32) : Octant → ℕ → Prop
  | init {xp : Int} : int32 (1 - r.toInt) = some xp → LoopState r ⟨r.toInt, 0, xp⟩ 0
  | step {o o' : Octant} {i : ℕ} :
    LoopState r o i → o.x ≥ o.y → octantStep o = some o' → i + 1 < 202 → LoopState r o' (i + 1)

/-- Up to the exit the loop variables follow the walk. -/
theorem loopState_of_mem_visits {r : BitVec 32} {o o' : Octant} {i : ℕ} {bound : Int}
    (small : bound ≤ 255) (within : Octant.Within bound o) (room : i + o.visits.length ≤ 202)
    (reached : LoopState r o i) (mem : o' ∈ o.visits) : ∃ i', LoopState r o' i' := by
  induction o using Octant.visits.induct generalizing i with
  | case1 o inside ih =>
      rw [Octant.visits_of_le inside, List.length_cons] at room
      rw [Octant.visits_of_le inside, List.mem_cons] at mem
      rcases mem with rfl | later
      · exact ⟨i, reached⟩
      · have inside' := Octant.inside_of_mem_visits later
        have hyx := within.y_le_x
        have hx := within.x_le
        have step := octantStep_of_within within (by omega) (by omega)
        have another := List.length_pos_of_mem later
        exact ih (within.next inside') (by omega) (.step reached inside step (by omega)) later
  | case2 o outside => exact absurd (Octant.inside_of_mem_visits mem) outside

/-- The body of the loop runs exactly at the positions of the walk. -/
theorem mem_visits_iff_loopState {r : BitVec 32} (small : r.toNat ≤ 255) (o : Octant) :
    o ∈ (Octant.start r.toNat).visits ↔ ∃ i, LoopState r o i ∧ o.x ≥ o.y := by
  have radius : r.toInt = r.toNat := BitVec.toInt_eq_toNat_of_lt (by omega)
  have within : Octant.Within r.toNat (Octant.start r.toNat) := Octant.within_start (by omega)
  constructor
  · intro mem
    have start : LoopState r (Octant.start r.toNat) 0 := by
      rw [← radius]
      exact .init (int32_of_fits (by omega) (by omega))
    have length := length_visits_start_le small
    obtain ⟨i, reached⟩ :=
      loopState_of_mem_visits (Int.ofNat_le.mpr small) within (by omega) start mem
    exact ⟨i, reached, (within.of_mem_visits mem).y_le_x⟩
  · intro looping
    rcases looping with ⟨i, reached, inside⟩
    have unlimited : CirclePlotter.LoopState r o := by
      clear inside
      induction reached with
      | init fits => exact .init fits
      | step _ inside step _ ih => exact .step ih inside step
    exact (CirclePlotter.mem_visits_iff_loopState (by omega) o).mpr ⟨unlimited, inside⟩

/-- For the radii of the test data the function is the reference case. -/
theorem plotcircle_eq (cx cy : BitVec 32) {r : BitVec 32} (small : r.toNat ≤ 255) :
    plotcircle cx cy r = CirclePlotter.plotcircle cx cy r := by
  have radius : r.toInt = r.toNat := BitVec.toInt_eq_toNat_of_lt (by omega)
  have length := length_visits_start_le small
  rw [plotcircle, CirclePlotter.plotcircle, int32_of_fits (by omega) (by omega), radius]
  refine plotcircleLoop_eq cx cy (Int.ofNat_le.mpr small)
    (fun _ => Octant.within_start (Int.natCast_nonneg _)) ?_
  rw [Octant.start] at length
  omega

/-- `plotcircle` draws exactly the pixels of the circle. -/
theorem exec_plotcircle {cx cy r : BitVec 32} (on : OnScreen cx cy r) (mem : ByteMem) :
    ∃ mem', (plotcircle cx cy r).exec screenMemory mem = some ((), mem') ∧
      lit mem' = lit mem ∪
        {p | p ∈ circle (cx.setWidth 9) (cy.setWidth 9) (r.setWidth 8)} := by
  rw [plotcircle_eq cx cy on.radius]
  exact on.exec_plotcircle mem

/-! ## The word that sends a circle -/

section SetRadius

/-- A mask of `w` ones keeps the low `w` bits. -/
theorem getLsbD_and_mask (v : BitVec 32) {mask : BitVec 32} {w : ℕ} (ones : mask.toNat = 2 ^ w - 1)
    (b : ℕ) : (v &&& mask).getLsbD b = (decide (b < w) && v.getLsbD b) := by
  rw [BitVec.getLsbD_and, Bool.and_comm]
  congr 1
  rw [BitVec.getLsbD, ones, Nat.testBit_two_pow_sub_one]

variable (c x y r : BitVec 32)

theorem getLsbD_setRadius {b : ℕ} (below : b < 32) :
    (setRadius c x y r).getLsbD b =
      ((decide (26 ≤ b) && c.getLsbD (b - 26)) ||
        (decide (18 ≤ b ∧ b < 26) && r.getLsbD (b - 18)) ||
        (decide (9 ≤ b ∧ b < 18) && y.getLsbD (b - 9)) || (decide (b < 9) && x.getLsbD b)) := by
  simp only [setRadius, BitVec.getLsbD_or, BitVec.getLsbD_shiftLeft]
  rw [getLsbD_and_mask c (w := 6) rfl, getLsbD_and_mask r (w := 8) rfl,
    getLsbD_and_mask y (w := 9) rfl, getLsbD_and_mask x (w := 9) rfl]
  grind

@[simp] theorem wordRx_setRadius : wordRx (setRadius c x y r) = x.setWidth 9 := by
  apply BitVec.eq_of_getLsbD_eq
  intro b below
  rw [wordRx, BitVec.getLsbD_extractLsb', getLsbD_setRadius c x y r (by omega)]
  grind

@[simp] theorem wordRy_setRadius : wordRy (setRadius c x y r) = y.setWidth 9 := by
  apply BitVec.eq_of_getLsbD_eq
  intro b below
  rw [wordRy, BitVec.getLsbD_extractLsb', getLsbD_setRadius c x y r (by omega)]
  grind

@[simp] theorem wordRadius_setRadius : wordRadius (setRadius c x y r) = r.setWidth 8 := by
  apply BitVec.eq_of_getLsbD_eq
  intro b below
  rw [wordRadius, BitVec.getLsbD_extractLsb', getLsbD_setRadius c x y r (by omega)]
  grind

theorem dest_setRadius : (setRadius c x y r).extractLsb' 26 6 = c.setWidth 6 := by
  apply BitVec.eq_of_getLsbD_eq
  intro b below
  rw [BitVec.getLsbD_extractLsb', getLsbD_setRadius c x y r (by omega)]
  grind

end SetRadius

end CirclePlotter.Parallel
