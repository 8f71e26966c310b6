import Mathlib.Tactic.Linarith
import Mathlib.Tactic.Ring

/-!
# The midpoint circle walk

The integer walk along one octant of a circle: `y` grows by one in every step,
`x` shrinks when the decision value `xp` is not negative, and the walk stops
when `y` passes `x`. `Octant.visits` lists the positions at which the loop
body runs. The bounds of `Octant.Within` are what a fixed-width implementation
needs in order not to wrap.
-/

namespace CirclePlotter

/-- A position of the walk with its decision value. -/
@[ext]
structure Octant where
  x : Int
  y : Int
  xp : Int
  deriving DecidableEq, Repr

namespace Octant

/-- The first position on a circle of radius `r`. -/
def start (r : Int) : Octant := ⟨r, 0, 1 - r⟩

/-- The position after one step. -/
def next (o : Octant) : Octant :=
  if o.xp < 0 then ⟨o.x, o.y + 1, o.xp + (2 * (o.y + 1) + 1)⟩
  else ⟨o.x - 1, o.y + 1, o.xp + (2 * (o.y + 1 - (o.x - 1)) + 1)⟩

theorem next_of_neg {o : Octant} (neg : o.xp < 0) :
    o.next = ⟨o.x, o.y + 1, o.xp + (2 * (o.y + 1) + 1)⟩ := if_pos neg

theorem next_of_nonneg {o : Octant} (nonneg : 0 ≤ o.xp) :
    o.next = ⟨o.x - 1, o.y + 1, o.xp + (2 * (o.y + 1 - (o.x - 1)) + 1)⟩ :=
  if_neg (by omega)

@[simp] theorem next_y (o : Octant) : o.next.y = o.y + 1 := by
  unfold next
  split <;> rfl

theorem next_x_le (o : Octant) : o.next.x ≤ o.x := by
  unfold next
  split <;> simp

theorem gap_next {o : Octant} (inside : o.y ≤ o.x) :
    (o.next.x - o.next.y + 1).toNat < (o.x - o.y + 1).toNat := by
  have shrinks := o.next_x_le
  rw [next_y]
  omega

/-- The positions at which the body of the loop runs, in order. -/
def visits (o : Octant) : List Octant :=
  if _inside : o.y ≤ o.x then o :: o.next.visits else []
termination_by (o.x - o.y + 1).toNat
decreasing_by exact gap_next _inside

theorem visits_of_le {o : Octant} (inside : o.y ≤ o.x) : o.visits = o :: o.next.visits := by
  rw [visits, dif_pos inside]

theorem visits_of_lt {o : Octant} (outside : o.x < o.y) : o.visits = [] := by
  rw [visits, dif_neg (by omega)]

/-- With radius 0 the body runs once. -/
theorem visits_start_zero : (start 0).visits = [start 0] := by
  rw [visits_of_le (by decide), visits_of_lt (by decide)]

theorem inside_of_mem_visits {o o' : Octant} (mem : o' ∈ o.visits) : o.y ≤ o.x := by
  by_contra outside
  rw [visits_of_lt (Int.not_le.mp outside)] at mem
  cases mem

/-- The walk goes on from each of its positions while it is in the octant. -/
theorem next_mem_visits {o o' : Octant} (mem : o' ∈ o.visits) (inside : o'.next.y ≤ o'.next.x) :
    o'.next ∈ o.visits := by
  induction o using visits.induct with
  | case1 o here ih =>
      rw [visits_of_le here, List.mem_cons] at mem ⊢
      rcases mem with rfl | later
      · rw [visits_of_le inside]
        exact Or.inr List.mem_cons_self
      · exact Or.inr (ih later)
  | case2 o outside => exact absurd (inside_of_mem_visits mem) outside

/-- Bounds kept by the walk on a circle of radius `r` while it is in the octant. -/
structure Within (r : Int) (o : Octant) : Prop where
  y_nonneg : 0 ≤ o.y
  y_le_x : o.y ≤ o.x
  x_le : o.x ≤ r
  xp_ge : 1 - 2 * o.x ≤ o.xp
  xp_le : o.xp ≤ 2 * o.y + 1

theorem within_start {r : Int} (nonneg : 0 ≤ r) : Within r (start r) := by
  constructor <;> simp only [start] <;> omega

/-- A step that stays in the octant keeps the bounds. -/
theorem Within.next {r : Int} {o : Octant} (within : Within r o)
    (inside : o.next.y ≤ o.next.x) : Within r o.next := by
  obtain ⟨hy, hyx, hx, hge, hle⟩ := within
  rcases Int.lt_or_le o.xp 0 with neg | nonneg
  · rw [next_of_neg neg] at inside ⊢
    constructor <;> dsimp only at * <;> omega
  · rw [next_of_nonneg nonneg] at inside ⊢
    constructor <;> dsimp only at * <;> omega

/-- Every position of the walk is within the bounds of its circle. -/
theorem Within.of_mem_visits {r : Int} {o o' : Octant} (within : Within r o)
    (mem : o' ∈ o.visits) : Within r o' := by
  induction o using visits.induct with
  | case1 o inside ih =>
      rw [visits_of_le inside, List.mem_cons] at mem
      rcases mem with rfl | later
      · exact within
      · exact ih (within.next (inside_of_mem_visits later)) later
  | case2 o outside => exact absurd (inside_of_mem_visits mem) outside

/-! ## The decision value -/

/-- The decision value belongs to the circle of radius `r` around the origin. -/
def OnCircle (r : Int) (o : Octant) : Prop := o.xp = (o.y + 1) ^ 2 + o.x ^ 2 - o.x - r ^ 2

theorem onCircle_start (r : Int) : OnCircle r (start r) := by
  unfold OnCircle start
  ring

/-- Both kinds of step keep the relation, inside the octant and outside. -/
theorem OnCircle.next {r : Int} {o : Octant} (on : OnCircle r o) : OnCircle r o.next := by
  unfold OnCircle at on
  rcases Int.lt_or_le o.xp 0 with neg | nonneg
  · rw [next_of_neg neg, OnCircle, on]
    ring
  · rw [next_of_nonneg nonneg, OnCircle, on]
    ring

theorem OnCircle.of_mem_visits {r : Int} {o o' : Octant} (on : OnCircle r o)
    (mem : o' ∈ o.visits) : OnCircle r o' := by
  induction o using visits.induct with
  | case1 o inside ih =>
      rw [visits_of_le inside, List.mem_cons] at mem
      rcases mem with rfl | later
      · exact on
      · exact ih on.next later
  | case2 o outside => exact absurd (inside_of_mem_visits mem) outside

/-- In the octant `y` stays below `r / √2`, up to rounding. -/
theorem Within.two_mul_sq_le {r : Int} {o : Octant} (within : Within r o) (on : OnCircle r o) :
    2 * o.y ^ 2 - o.y ≤ r ^ 2 := by
  obtain ⟨hy, hyx, -, -, hle⟩ := within
  have inner : o.y ^ 2 + o.x ^ 2 - o.x ≤ r ^ 2 := by
    rw [on] at hle
    linarith
  have grows : o.y ^ 2 - o.y ≤ o.x ^ 2 - o.x := by
    rcases Int.lt_or_eq_of_le hyx with below | diagonal
    · have product : 0 ≤ (o.x - o.y) * (o.x + o.y - 1) :=
        Int.mul_nonneg (by omega) (by omega)
      linarith
    · rw [diagonal]
  linarith

/-- The walk makes one visit for each value of `y`. -/
theorem length_visits_le {o : Octant} {top : Int} (start : o.y ≤ top + 1)
    (below : ∀ o' ∈ o.visits, o'.y ≤ top) : o.visits.length + o.y ≤ top + 1 := by
  induction o using visits.induct with
  | case1 o inside ih =>
      rw [visits_of_le inside] at below ⊢
      have here := below o List.mem_cons_self
      have rest := ih (by rw [next_y]; omega) fun o' later =>
        below o' (List.mem_cons_of_mem o later)
      rw [next_y] at rest
      rw [List.length_cons]
      omega
  | case2 o outside =>
      rw [visits_of_lt (by omega)]
      simpa using start

theorem y_le_of_mem_visits {o o' : Octant} (mem : o' ∈ o.visits) : o.y ≤ o'.y := by
  induction o using visits.induct with
  | case1 o inside ih =>
      rw [visits_of_le inside, List.mem_cons] at mem
      rcases mem with rfl | later
      · exact Int.le_refl _
      · have rest := ih later
        rw [next_y] at rest
        omega
  | case2 o outside => exact absurd (inside_of_mem_visits mem) outside

/-- The first `n` visits are those of the first `n` values of `y`. -/
theorem mem_take_visits_iff {o o' : Octant} {n : ℕ} :
    o' ∈ o.visits.take n ↔ o' ∈ o.visits ∧ o'.y < o.y + n := by
  induction o using visits.induct generalizing n with
  | case1 o inside ih =>
      rw [visits_of_le inside]
      cases n with
      | zero =>
          refine iff_of_false (List.not_mem_nil) fun early => ?_
          have late := y_le_of_mem_visits (o := o) (by rw [visits_of_le inside]; exact early.1)
          have before := early.2
          omega
      | succ n =>
          rw [List.take_succ_cons, List.mem_cons, List.mem_cons, ih, next_y]
          constructor
          · intro early
            rcases early with rfl | ⟨later, before⟩
            · exact ⟨Or.inl rfl, by omega⟩
            · exact ⟨Or.inr later, by omega⟩
          · intro early
            rcases early with ⟨rfl | later, before⟩
            · exact Or.inl rfl
            · exact Or.inr ⟨later, by omega⟩
  | case2 o outside =>
      rw [visits_of_lt (by omega)]
      simp

end Octant

/-- A circle of radius up to 255 takes at most 181 visits. -/
theorem length_visits_start_le {r : ℕ} (small : r ≤ 255) :
    (Octant.start r).visits.length ≤ 181 := by
  have within : Octant.Within r (Octant.start r) := Octant.within_start (by omega)
  have top : ∀ o ∈ (Octant.start r).visits, o.y ≤ 180 := by
    intro o mem
    have visited := within.of_mem_visits mem
    have bound := visited.two_mul_sq_le ((Octant.onCircle_start r).of_mem_visits mem)
    have nonneg := visited.y_nonneg
    by_contra high
    nlinarith
  have length := Octant.length_visits_le (by simp [Octant.start]) top
  simp only [Octant.start] at length ⊢
  omega

end CirclePlotter
