import CirclePlotter.OnScreen

/-!
# The test data

`driverdata` fills the three arrays from the results of `rand()`. Its unsigned
modulo is never by zero, and every circle it makes is on the screen, so the
reference case never calls `setpixel` with coordinates it rejects.
-/

namespace CirclePlotter

/-- The global arrays `dx`, `dy`, `dr`. -/
structure CircleArrays where
  dx : Fin 50 → BitVec 32
  dy : Fin 50 → BitVec 32
  dr : Fin 50 → BitVec 32

/-- Unsigned `%`, undefined for the divisor 0. -/
def umod (a b : BitVec 32) : Option (BitVec 32) := if b = 0 then none else some (a % b)

/-- The body of the loop of `driverdata`. `rand n` is the result of call `n` of
`rand()`, and the state counts the calls. In the first line both operands of `%`
are `int`, in the other two the right one is `unsigned`. -/
def driverdataStep (rand : ℕ → BitVec 32) (state : CircleArrays × ℕ) (i : Fin 50) :
    Option (CircleArrays × ℕ) := do
  let (arrays, n) := state
  let r := (rand n).srem 256
  let x ← umod (rand (n + 1)) (512 - 2 * r)
  let y ← umod (rand (n + 2)) (512 - 2 * r)
  return (⟨Function.update arrays.dx i (r + x), Function.update arrays.dy i (r + y),
    Function.update arrays.dr i r⟩, n + 3)

/-- `driverdata`, from any contents of the arrays; `none` for a modulo by zero. -/
def driverdata (rand : ℕ → BitVec 32) (arrays : CircleArrays) : Option CircleArrays :=
  ((List.finRange 50).foldlM (driverdataStep rand) (arrays, 0)).map Prod.fst

namespace CircleArrays

/-- Every circle in the arrays is on the screen. -/
def OnScreen (arrays : CircleArrays) : Prop :=
  ∀ i, CirclePlotter.OnScreen (arrays.dx i) (arrays.dy i) (arrays.dr i)

/-- The calls of `setpixel` in `plotallcircles_ref`. -/
def calls (arrays : CircleArrays) : List (BitVec 32 × BitVec 32) :=
  (List.finRange 50).flatMap fun i => plotcircleCalls (arrays.dx i) (arrays.dy i) (arrays.dr i)

end CircleArrays

/-! ## One circle -/

/-- `rand() % 256` of a non-negative `int`. -/
theorem srem_256_le {a : BitVec 32} (nonneg : 0 ≤ a.toInt) : (a.srem 256).toNat ≤ 255 := by
  have small : (256 : BitVec 32).toInt = 256 := by decide
  have rem : (a.srem 256).toInt = a.toInt % 256 := by
    rw [BitVec.toInt_srem, small, Int.tmod_eq_emod_of_nonneg nonneg]
  have low := Int.emod_nonneg a.toInt (by decide : (256 : Int) ≠ 0)
  have high := Int.emod_lt_of_pos a.toInt (by decide : (0 : Int) < 256)
  have nat := BitVec.toInt_eq_toNat_cond (a.srem 256)
  have below := (a.srem 256).isLt
  split at nat <;> omega

/-- `512 - 2*r` does not wrap and is not zero. -/
theorem width_toNat {r : BitVec 32} (small : r.toNat ≤ 255) :
    (512 - 2 * r).toNat = 512 - 2 * r.toNat := by
  have twice : (2 * r).toNat = 2 * r.toNat := by
    rw [BitVec.toNat_mul]
    change 2 * r.toNat % 2 ^ 32 = _
    omega
  rw [BitVec.toNat_sub, twice]
  change (2 ^ 32 - 2 * r.toNat + 512) % 2 ^ 32 = _
  omega

/-- A coordinate `r + a % (512 - 2*r)` keeps a circle of radius `r` on the screen. -/
theorem umod_width {r : BitVec 32} (small : r.toNat ≤ 255) (a : BitVec 32) :
    ∃ x, umod a (512 - 2 * r) = some x ∧ r.toNat ≤ (r + x).toNat ∧
      (r + x).toNat + r.toNat ≤ 511 := by
  have width := width_toNat small
  have nonzero : ¬ 512 - 2 * r = 0 := by
    intro zero
    rw [zero] at width
    change 0 = _ at width
    omega
  refine ⟨a % (512 - 2 * r), if_neg nonzero, ?_⟩
  have below : (a % (512 - 2 * r)).toNat < 512 - 2 * r.toNat := by
    rw [BitVec.toNat_umod, width]
    exact Nat.mod_lt _ (by omega)
  have sum : (r + a % (512 - 2 * r)).toNat = r.toNat + (a % (512 - 2 * r)).toNat := by
    rw [BitVec.toNat_add]
    exact Nat.mod_eq_of_lt (by omega)
  omega

/-! ## All circles -/

variable {rand : ℕ → BitVec 32}

/-- One turn of the loop is defined, puts a circle on the screen into entry `i`
and leaves the other entries. -/
theorem driverdataStep_spec (nonneg : ∀ n, 0 ≤ (rand n).toInt) (state : CircleArrays × ℕ)
    (i : Fin 50) :
    ∃ state', driverdataStep rand state i = some state' ∧
      OnScreen (state'.1.dx i) (state'.1.dy i) (state'.1.dr i) ∧
      ∀ i', i' ≠ i → state'.1.dx i' = state.1.dx i' ∧ state'.1.dy i' = state.1.dy i' ∧
        state'.1.dr i' = state.1.dr i' := by
  have small := srem_256_le (nonneg state.2)
  obtain ⟨x, definedX, left, right⟩ := umod_width small (rand (state.2 + 1))
  obtain ⟨y, definedY, top, bottom⟩ := umod_width small (rand (state.2 + 2))
  refine ⟨(⟨Function.update state.1.dx i ((rand state.2).srem 256 + x),
    Function.update state.1.dy i ((rand state.2).srem 256 + y),
    Function.update state.1.dr i ((rand state.2).srem 256)⟩, state.2 + 3), ?_, ?_, ?_⟩
  · simp only [driverdataStep, definedX, definedY, bind, Option.bind_some]
    rfl
  · simp only [Function.update_self]
    exact ⟨small, left, right, top, bottom⟩
  · intro i' other
    simp only [Function.update_of_ne other, and_self]

/-- `driverdata` performs no modulo by zero and makes 50 circles on the screen. -/
theorem driverdata_onScreen (nonneg : ∀ n, 0 ≤ (rand n).toInt) (arrays : CircleArrays) :
    ∃ arrays', driverdata rand arrays = some arrays' ∧ arrays'.OnScreen := by
  have loop (is : List (Fin 50)) (state : CircleArrays × ℕ) :
      ∃ state', is.foldlM (driverdataStep rand) state = some state' ∧
        ∀ i, i ∈ is ∨ OnScreen (state.1.dx i) (state.1.dy i) (state.1.dr i) →
          OnScreen (state'.1.dx i) (state'.1.dy i) (state'.1.dr i) := by
    induction is generalizing state with
    | nil => exact ⟨state, rfl, fun i on => on.resolve_left (List.not_mem_nil)⟩
    | cons i is ih =>
        obtain ⟨state₁, first, on₁, same⟩ := driverdataStep_spec nonneg state i
        obtain ⟨state₂, rest, on₂⟩ := ih state₁
        refine ⟨state₂, by rw [List.foldlM_cons, first]; exact rest, fun i' on => on₂ i' ?_⟩
        by_cases here : i' = i
        · exact .inr (here ▸ on₁)
        · obtain ⟨dx, dy, dr⟩ := same i' here
          rw [dx, dy, dr]
          exact on.imp_left fun mem => (List.mem_cons.mp mem).resolve_left here
  obtain ⟨state', defined, on⟩ := loop (List.finRange 50) (arrays, 0)
  exact ⟨state'.1, by rw [driverdata, defined]; rfl, fun i => on i (.inl (List.mem_finRange i))⟩

theorem onScreen_of_driverdata (nonneg : ∀ n, 0 ≤ (rand n).toInt) {arrays arrays' : CircleArrays}
    (made : driverdata rand arrays = some arrays') : arrays'.OnScreen := by
  obtain ⟨arrays₁, made₁, on⟩ := driverdata_onScreen nonneg arrays
  rw [made] at made₁
  cases made₁
  exact on

/-- When `rand()` always returns `c`, the loop puts one circle into its entries. -/
theorem foldlM_driverdataStep_const {c x : BitVec 32}
    (defined : umod c (512 - 2 * c.srem 256) = some x) (is : List (Fin 50))
    (arrays : CircleArrays) (n : ℕ) : ∃ n', is.foldlM (driverdataStep fun _ => c) (arrays, n) =
      some (⟨fun i => if i ∈ is then c.srem 256 + x else arrays.dx i,
        fun i => if i ∈ is then c.srem 256 + x else arrays.dy i,
        fun i => if i ∈ is then c.srem 256 else arrays.dr i⟩, n') := by
  induction is generalizing arrays n with
  | nil => exact ⟨n, by simp only [List.foldlM_nil, List.not_mem_nil, if_false]; rfl⟩
  | cons i is ih =>
      have step : driverdataStep (fun _ => c) (arrays, n) i =
          some (⟨Function.update arrays.dx i (c.srem 256 + x),
            Function.update arrays.dy i (c.srem 256 + x),
            Function.update arrays.dr i (c.srem 256)⟩, n + 3) := by
        simp only [driverdataStep, defined, bind, Option.bind_some]
        rfl
      have entry (f : Fin 50 → BitVec 32) (v : BitVec 32) :
          (fun i' => if i' ∈ is then v else Function.update f i v i') =
            fun i' => if i' ∈ i :: is then v else f i' := by
        funext i'
        by_cases here : i' = i
        · subst here
          simp only [Function.update_self, ite_self, List.mem_cons_self, if_true]
        · simp only [Function.update_of_ne here, List.mem_cons, here, false_or]
      rcases ih ⟨Function.update arrays.dx i (c.srem 256 + x),
        Function.update arrays.dy i (c.srem 256 + x),
        Function.update arrays.dr i (c.srem 256)⟩ (n + 3) with ⟨n', rest⟩
      simp only [entry] at rest
      exact ⟨n', by rw [List.foldlM_cons, step]; exact rest⟩

theorem foldlM_finRange_const {c x : BitVec 32}
    (defined : umod c (512 - 2 * c.srem 256) = some x) (arrays : CircleArrays) (n : ℕ) :
    ∃ n', (List.finRange 50).foldlM (driverdataStep fun _ => c) (arrays, n) =
      some (⟨fun _ => c.srem 256 + x, fun _ => c.srem 256 + x, fun _ => c.srem 256⟩, n') := by
  simpa only [List.mem_finRange, if_true] using
    foldlM_driverdataStep_const defined (List.finRange 50) arrays n

/-- A `rand()` that always returns `c` gives fifty times the same circle. -/
theorem driverdata_const {c x : BitVec 32} (defined : umod c (512 - 2 * c.srem 256) = some x)
    (arrays : CircleArrays) : driverdata (fun _ => c) arrays =
      some ⟨fun _ => c.srem 256 + x, fun _ => c.srem 256 + x, fun _ => c.srem 256⟩ := by
  rcases foldlM_finRange_const defined arrays 0 with ⟨n, looped⟩
  rw [driverdata, looped]
  rfl

theorem umod_four : umod 4 (512 - 2 * (4 : BitVec 32).srem 256) = some 4 := by decide

theorem driverdata_four (arrays : CircleArrays) :
    driverdata (fun _ => 4) arrays = some ⟨fun _ => 8, fun _ => 8, fun _ => 4⟩ :=
  driverdata_const umod_four arrays

/-! ## The reference case -/

variable {arrays : CircleArrays}

/-- The reference case is a sequence of calls of `setpixel`. -/
theorem plotallcircles_ref_eq_calls (on : arrays.OnScreen) :
    plotallcircles_ref arrays.dx arrays.dy arrays.dr =
      forM arrays.calls fun c => setpixel c.1 c.2 := by
  have each (is : List (Fin 50)) :
      (forM is fun i => plotcircle (arrays.dx i) (arrays.dy i) (arrays.dr i) : CProgram PUnit) =
        forM (is.flatMap fun i => plotcircleCalls (arrays.dx i) (arrays.dy i) (arrays.dr i))
          fun c => setpixel c.1 c.2 := by
    induction is with
    | nil => rfl
    | cons i is ih =>
        have small := (on i).radius
        rw [List.forM_cons, List.flatMap_cons, List.forM_append, ih,
          plotcircle_eq_calls _ _ (by omega)]
  exact each (List.finRange 50)

/-- None of them is rejected by the range checks. -/
theorem CircleArrays.OnScreen.calls_le (on : arrays.OnScreen) {c : BitVec 32 × BitVec 32}
    (mem : c ∈ arrays.calls) : c.1 ≤ 511 ∧ c.2 ≤ 511 := by
  obtain ⟨i, -, call⟩ := List.mem_flatMap.mp mem
  exact (on i).calls_le call

end CirclePlotter
