import CirclePlotter.Midpoint

/-!
# The walk visits the nearest lattice points

A point `(x, y)` is nearest to a circle of radius `r` when `x` is the integer
nearest to `√(r² - y²)`. The midpoint walk visits exactly the nearest points of
its octant. `exit` is the first position outside the octant; its mirror image
is a point of the walk as well, unless `r² = 2x² - x + 1` for some `x`.
-/

namespace CirclePlotter

namespace Octant

/-- `x` is the integer nearest to `√(r² - y²)`. -/
def Nearest (r x y : Int) : Prop := x ^ 2 - x + y ^ 2 < r ^ 2 ∧ r ^ 2 ≤ x ^ 2 + x + y ^ 2

instance (r x y : Int) : Decidable (Nearest r x y) := instDecidableAnd

/-- `x² - x` grows from 0 on. -/
theorem sq_sub_le {a b : Int} (nonneg : 0 ≤ a) (le : a ≤ b) : a ^ 2 - a ≤ b ^ 2 - b := by
  rcases Int.lt_or_eq_of_le le with below | same
  · have product : 0 ≤ (b - a) * (b + a - 1) := Int.mul_nonneg (by omega) (by omega)
    linarith
  · rw [same]

/-- At each height there is at most one nearest point. -/
theorem Nearest.unique {r x x' y : Int} (near : Nearest r x y) (near' : Nearest r x' y)
    (nonneg : 0 ≤ x) (nonneg' : 0 ≤ x') : x = x' := by
  have order {a b : Int} (nearA : Nearest r a y) (nearB : Nearest r b y) (nonnegA : 0 ≤ a) :
      ¬ a < b := by
    intro less
    have grows := sq_sub_le (by omega) (Int.add_one_le_of_lt less)
    have above := nearA.2
    have below := nearB.1
    linarith
  have notLess := order near near' nonneg
  have notGreater := order near' near nonneg'
  omega

/-! ## Every visited point is nearest -/

/-- Where the walk of a circle of radius `r` can be while it is in the octant. -/
structure Tracks (r : Int) (o : Octant) : Prop where
  within : Within r o
  on : OnCircle r o
  near : Nearest r o.x o.y

theorem tracks_start {r : Int} (positive : 1 ≤ r) : Tracks r (start r) where
  within := within_start (by omega)
  on := onCircle_start r
  near := by
    simp only [Nearest, start]
    constructor <;> linarith

/-- The upper bound of a nearest point, read as a bound of the decision value. -/
theorem OnCircle.xp_eq {r : Int} {o : Octant} (on : OnCircle r o) :
    o.xp = (o.y + 1) ^ 2 + (o.x ^ 2 - o.x) - r ^ 2 := by
  rw [on]
  ring

theorem Tracks.next {r : Int} {o : Octant} (tracks : Tracks r o)
    (inside : o.next.y ≤ o.next.x) : Tracks r o.next where
  within := tracks.within.next inside
  on := tracks.on.next
  near := by
    rcases tracks with ⟨within, on, low, high⟩
    have nonneg := within.y_nonneg
    have decision := on.xp_eq
    have square : (o.y + 1) ^ 2 = o.y ^ 2 + 2 * o.y + 1 := by ring
    rcases Int.lt_or_le o.xp 0 with neg | nonneg'
    · rw [next_of_neg neg]
      constructor <;> simp only <;> linarith
    · rw [next_of_nonneg nonneg'] at inside ⊢
      simp only at inside
      have back : (o.x - 1) ^ 2 = o.x ^ 2 - 2 * o.x + 1 := by ring
      constructor <;> simp only <;> linarith

theorem Tracks.of_mem_visits {r : Int} {o o' : Octant} (tracks : Tracks r o)
    (mem : o' ∈ o.visits) : Tracks r o' := by
  induction o using visits.induct with
  | case1 o inside ih =>
      rw [visits_of_le inside, List.mem_cons] at mem
      rcases mem with rfl | later
      · exact tracks
      · exact ih (tracks.next (inside_of_mem_visits later)) later
  | case2 o outside => exact absurd (inside_of_mem_visits mem) outside

/-! ## Every nearest point is visited -/

/-- As long as there is a nearest point further up, the walk goes on. -/
theorem Tracks.next_inside {r x y : Int} {o : Octant} (tracks : Tracks r o)
    (near : Nearest r x y) (above : o.y + 1 ≤ y) (inOctant : y ≤ x) :
    o.next.y ≤ o.next.x := by
  rcases tracks with ⟨within, on, low, high⟩
  have nonneg := within.y_nonneg
  have inside := within.y_le_x
  have decision := on.xp_eq
  by_contra outside
  rcases Int.lt_or_le o.xp 0 with neg | nonneg'
  · -- on the diagonal the decision value is positive
    rw [next_of_neg neg] at outside
    simp only at outside
    have diagonal : o.y = o.x := by omega
    rw [diagonal] at decision high
    have square : (o.x + 1) ^ 2 = o.x ^ 2 + 2 * o.x + 1 := by ring
    linarith
  · rw [next_of_nonneg nonneg'] at outside
    simp only at outside
    have wide := sq_sub_le (a := o.x) (b := o.y + 1) (by omega) (by omega)
    have climb := sq_sub_le (a := o.y + 1) (b := x) (by omega) (by omega)
    have rise : (o.y + 1) ^ 2 ≤ y ^ 2 := pow_le_pow_left₀ (by omega) above 2
    have below := near.1
    linarith

theorem Tracks.mem_of_nearest {r x y : Int} {o : Octant} (tracks : Tracks r o)
    (near : Nearest r x y) (above : o.y ≤ y) (inOctant : y ≤ x) :
    ∃ o' ∈ o.visits, o'.x = x ∧ o'.y = y := by
  induction o using visits.induct with
  | case1 o inside ih =>
      rw [visits_of_le inside]
      have nonneg := tracks.within.y_nonneg
      rcases Int.lt_or_eq_of_le above with below | here
      · have inside' := tracks.next_inside near (Int.add_one_le_of_lt below) inOctant
        obtain ⟨o', later, same⟩ := ih (tracks.next inside') (by rw [next_y]; omega)
        exact ⟨o', List.mem_cons_of_mem o later, same⟩
      · refine ⟨o, List.mem_cons_self, ?_, here⟩
        rw [← here] at near
        exact tracks.near.unique near (by omega) (by omega)
  | case2 o outside => exact absurd tracks.within.y_le_x outside

/-- The walk visits exactly the nearest points of its octant. -/
theorem mem_visits_iff_nearest {r : Int} (positive : 1 ≤ r) (x y : Int) :
    (∃ o ∈ (start r).visits, o.x = x ∧ o.y = y) ↔ 0 ≤ y ∧ y ≤ x ∧ Nearest r x y := by
  constructor
  · intro visited
    rcases visited with ⟨o, mem, rfl, rfl⟩
    have tracks := (tracks_start positive).of_mem_visits mem
    exact ⟨tracks.within.y_nonneg, tracks.within.y_le_x, tracks.near⟩
  · intro point
    rcases point with ⟨nonneg, inOctant, near⟩
    exact (tracks_start positive).mem_of_nearest near nonneg inOctant

/-! ## The exit of the walk -/

/-- The first position outside the octant. -/
def exit (o : Octant) : Octant := if _inside : o.y ≤ o.x then o.next.exit else o
termination_by (o.x - o.y + 1).toNat
decreasing_by exact gap_next _inside

theorem exit_of_le {o : Octant} (inside : o.y ≤ o.x) : o.exit = o.next.exit := by
  rw [exit, dif_pos inside]

theorem exit_of_lt {o : Octant} (outside : o.x < o.y) : o.exit = o := by
  rw [exit, dif_neg (Int.not_le.mpr outside)]

/-- The positions after the first one, up to and including the exit. -/
def steps (o : Octant) : List Octant := if _inside : o.y ≤ o.x then o.next :: o.next.steps else []
termination_by (o.x - o.y + 1).toNat
decreasing_by exact gap_next _inside

theorem steps_of_le {o : Octant} (inside : o.y ≤ o.x) : o.steps = o.next :: o.next.steps := by
  rw [steps, dif_pos inside]

theorem steps_of_lt {o : Octant} (outside : o.x < o.y) : o.steps = [] := by
  rw [steps, dif_neg (Int.not_le.mpr outside)]

/-- The steps are the visits, less the first one, and the exit. -/
theorem cons_steps (o : Octant) : o :: o.steps = o.visits ++ [o.exit] := by
  induction o using visits.induct with
  | case1 o inside ih =>
      rw [steps_of_le inside, ih, visits_of_le inside, exit_of_le inside, List.cons_append]
  | case2 o outside =>
      rw [Int.not_le] at outside
      rw [steps_of_lt outside, visits_of_lt outside, exit_of_lt outside, List.nil_append]

/-- The position from which the next step leaves the octant is the last one. -/
theorem exit_eq_next {o o' : Octant} (mem : o' ∈ o.visits) (outside : o'.next.x < o'.next.y) :
    o.exit = o'.next := by
  induction o using visits.induct with
  | case1 o inside ih =>
      rw [exit_of_le inside]
      rw [visits_of_le inside, List.mem_cons] at mem
      rcases mem with rfl | later
      · exact exit_of_lt outside
      · exact ih later
  | case2 o out => exact absurd (inside_of_mem_visits mem) out

theorem exists_last {o : Octant} (inside : o.y ≤ o.x) :
    ∃ o' ∈ o.visits, o'.next.x < o'.next.y := by
  induction o using visits.induct with
  | case1 o here ih =>
      rw [visits_of_le here]
      rcases Int.lt_or_le o.next.x o.next.y with outside | inside'
      · exact ⟨o, List.mem_cons_self, outside⟩
      · obtain ⟨o', later, outside⟩ := ih inside'
        exact ⟨o', List.mem_cons_of_mem o later, outside⟩
  | case2 o outside => exact absurd inside outside

/-- The walk ends in a point `(x, x)` of the diagonal from which it steps out to
`(x - 1, x + 1)`, and `(x + 1, x - 1)` is just too far outside to be nearest. -/
def Overruns (r : Int) : Prop := ∃ x, 1 ≤ x ∧ r ^ 2 = 2 * x ^ 2 - x + 1

/-- On an overrun the exit is `(x - 1, x + 1)`. -/
theorem exit_of_overrun {r x : Int} (positive : 1 ≤ r) (atLeast : 1 ≤ x)
    (overrun : r ^ 2 = 2 * x ^ 2 - x + 1) : (start r).exit = ⟨x - 1, x + 1, 2 * x + 5⟩ := by
  have near : Nearest r x x := by
    constructor <;> linarith
  obtain ⟨o, mem, rfl, diagonal⟩ :=
    (mem_visits_iff_nearest positive x x).mpr ⟨by omega, Int.le_refl x, near⟩
  have tracks := (tracks_start positive).of_mem_visits mem
  have decision : o.xp = 2 * o.x := by
    rw [tracks.on, diagonal, overrun]
    ring
  have step := next_of_nonneg (o := o) (by omega)
  have last := exit_eq_next mem (by rw [step]; simp only; omega)
  rw [last, step, diagonal, decision]
  congr 1
  ring

/-- The mirror image of the exit is a point of the walk, unless it overruns. -/
theorem mirror_visited_iff {r : Int} (positive : 1 ≤ r) :
    (∃ o ∈ (start r).visits, o.x = (start r).exit.y ∧ o.y = (start r).exit.x) ↔
      ¬ Overruns r := by
  rw [mem_visits_iff_nearest positive]
  constructor
  · intro mirror overruns
    rcases mirror with ⟨-, -, low, -⟩
    rcases overruns with ⟨x, atLeast, overrun⟩
    rw [exit_of_overrun positive atLeast overrun, overrun] at low
    simp only at low
    linarith
  · intro fits
    obtain ⟨o, mem, outside⟩ := exists_last (o := start r) (by simp only [start]; omega)
    obtain ⟨within, on, near⟩ := (tracks_start positive).of_mem_visits mem
    have nonneg := within.y_nonneg
    have inside := within.y_le_x
    have decision := on.xp_eq
    rw [exit_eq_next mem outside]
    rcases Int.lt_or_le o.xp 0 with neg | nonneg'
    · -- on the diagonal the decision value is positive
      rw [next_of_neg neg] at outside
      simp only at outside
      have diagonal : o.y = o.x := by omega
      rw [diagonal] at decision near
      have high := near.2
      linarith
    · rw [next_of_nonneg nonneg'] at outside ⊢
      simp only at outside ⊢
      by_cases diagonal : o.y = o.x
      · rw [diagonal] at near ⊢
        rcases near with ⟨low, high⟩
        have atLeast : 1 ≤ o.x := by
          by_contra small
          have zero : o.x = 0 := by omega
          rw [zero] at high
          have square : 1 ≤ r ^ 2 := one_le_pow₀ positive
          linarith
        have other : r ^ 2 ≠ 2 * o.x ^ 2 - o.x + 1 := fun same => fits ⟨o.x, atLeast, same⟩
        have strict : 2 * o.x ^ 2 - o.x + 1 < r ^ 2 := by omega
        refine ⟨by omega, by omega, ?_, ?_⟩ <;> linarith
      · have beside : o.x = o.y + 1 := by omega
        rw [beside] at near ⊢
        refine ⟨by omega, by omega, ?_⟩
        rw [Int.add_sub_cancel]
        exact near

/-- The squares `2x² - x + 1` with `x` below 182. -/
theorem overrun_table : ∀ x < 182, 1 ≤ x →
    (2 * (x * x) + 1 - x).sqrt * (2 * (x * x) + 1 - x).sqrt = 2 * (x * x) + 1 - x →
    (2 * (x * x) + 1 - x).sqrt = 4 ∨ (2 * (x * x) + 1 - x).sqrt = 11 ∨
      (2 * (x * x) + 1 - x).sqrt = 134 := by
  decide +kernel

/-- Up to 255 the walks of three radii overrun. -/
theorem overruns_iff {r : ℕ} (small : r ≤ 255) : Overruns r ↔ r = 4 ∨ r = 11 ∨ r = 134 := by
  constructor
  · intro overruns
    rcases overruns with ⟨x, atLeast, overrun⟩
    obtain ⟨x, rfl⟩ := Int.eq_ofNat_of_zero_le (a := x) (by omega)
    have equation : r * r + x = 2 * (x * x) + 1 := by
      zify
      linarith
    have square : r * r = 2 * (x * x) + 1 - x := by omega
    have below : x < 182 := by
      by_contra large
      have bound := Nat.mul_le_mul small small
      have wide := Nat.mul_le_mul_right x (Nat.not_lt.mp large)
      omega
    have table := overrun_table x below (by omega)
    rw [← square, Nat.sqrt_eq] at table
    exact table rfl
  · intro radius
    rcases radius with rfl | rfl | rfl
    · exact ⟨3, by decide, by decide⟩
    · exact ⟨8, by decide, by decide⟩
    · exact ⟨95, by decide, by decide⟩

/-- The exit, where its mirror image is not a point of the walk. -/
def spill? (r : ℕ) : Option Octant :=
  match r with
  | 4 => some ⟨2, 4, 11⟩
  | 11 => some ⟨7, 9, 21⟩
  | 134 => some ⟨94, 96, 195⟩
  | _ => none

theorem spill?_eq_some_iff {r : ℕ} (small : r ≤ 255) (o : Octant) :
    spill? r = some o ↔ Overruns r ∧ o = (start r).exit := by
  rw [overruns_iff small]
  unfold spill?
  split
  · rw [exit_of_overrun (x := 3) (by decide) (by decide) (by decide)]
    simp [eq_comm]
  · rw [exit_of_overrun (x := 8) (by decide) (by decide) (by decide)]
    simp [eq_comm]
  · rw [exit_of_overrun (x := 95) (by decide) (by decide) (by decide)]
    simp [eq_comm]
  · next not4 not11 not134 =>
      refine ⟨nofun, fun spills => ?_⟩
      rcases spills.1 with radius | radius | radius
      · exact absurd radius not4
      · exact absurd radius not11
      · exact absurd radius not134

end Octant

end CirclePlotter
