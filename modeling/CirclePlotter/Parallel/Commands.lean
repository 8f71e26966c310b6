import CirclePlotter.Parallel.PlotCircle
import CirclePlotter.Parallel.Software

/-!
# Commands to the engines in parallel

`SET_RADIUS` stores a circle for one engine, which takes it at once, whether it
is drawing or not, and nothing tells the software. The pixels the engine had
still to set are then lost, unless they are shown already or belong to the new
circle. In a run in which no command loses pixels so, all circles are complete
when the engines are idle.
-/

namespace CirclePlotter.Parallel

open Sync

/-- `SET_RADIUS(c, x, y, r)` on the bus: a store to `screen_mm[0]`. -/
def BusIn.command (c x y r : BitVec 32) : BusIn := ⟨false, 0, true, setRadius c x y r⟩

theorem load_of_setRadius {i : BusIn} {c x y r : BitVec 32} (low : 1 ≤ c.toNat)
    (high : c.toNat ≤ 11) (write : i.write = true) (word : i.writedata = setRadius c x y r) :
    ∃ j, i.load (moduleId j) = true := by
  refine ⟨⟨c.toNat - 1, by omega⟩, ?_⟩
  have dest : i.dest = moduleId ⟨c.toNat - 1, by omega⟩ := by
    rw [BusIn.dest, word, dest_setRadius]
    apply BitVec.eq_of_toNat_eq
    rw [BitVec.toNat_setWidth, moduleId, BitVec.toNat_ofNat, Nat.sub_add_cancel low]
  rw [BusIn.load, write, dest, beq_self_eq_true, Bool.and_self]

/-- The circle the engine takes is the one `plotcircle` draws. -/
theorem circle_of_setRadius {i : BusIn} {c x y r : BitVec 32}
    (word : i.writedata = setRadius c x y r) :
    i.circle = {p | p ∈ circle (x.setWidth 9) (y.setWidth 9) (r.setWidth 8)} := by
  rw [BusIn.circle, word, wordRx_setRadius, wordRy_setRadius, wordRadius_setRadius]

namespace PlotCircle

/-- Every circle on the screen that was commanded before cycle `N` is in the
picture, as far as `plotcircle` draws it. -/
def ShowsCommands (s : PlotCircle) (ins : ℕ → BusIn) (N : ℕ) : Prop :=
  ∀ n < N, ∀ c cx cy r : BitVec 32, 1 ≤ c.toNat → c.toNat ≤ 11 → (ins n).write = true →
    (ins n).writedata = setRadius c cx cy r → OnScreen cx cy r →
    ∃ mem, (plotcircle cx cy r).exec screenMemory (fun _ => 0) = some ((), mem) ∧
      lit mem ⊆ (run tick s ins N).picture

/-- No command up to cycle `N` takes a pixel from a circle that is being drawn. -/
def Unhurried (s : PlotCircle) (ins : ℕ → BusIn) (N : ℕ) : Prop :=
  ∀ n < N, ∀ j, (ins n).load (moduleId j) = true → ((run tick s ins n).p j).Spares (ins n)

variable {s : PlotCircle} {ins : ℕ → BusIn} {N : ℕ}

/-- What an engine is going to show it goes on to show. -/
theorem goal_mono (idle : s.Idle) (noClear : ∀ n < N, (ins n).clear = false)
    (unhurried : s.Unhurried ins N) (j : Fin 11) {m n : ℕ} (order : m ≤ n) (before : n ≤ N) :
    ((run tick s ins m).p j).goal ⊆ ((run tick s ins n).p j).goal := by
  induction n, order using Nat.le_induction with
  | base => exact subset_rfl
  | succ n order ih =>
      have step := PlotPixel.goal_subset_tick (valid_run idle n j) (noClear n before)
        (unhurried n before j)
      exact (ih (Nat.le_of_succ_le before)).trans step

/-- No circle is lost: in a run from idle engines without a clear, in which no
command takes pixels from a circle that is being drawn, the picture is complete
whenever all engines are idle. -/
theorem shows_of_unhurried (idle : s.Idle) (noClear : ∀ n < N, (ins n).clear = false)
    (unhurried : s.Unhurried ins N) (done : (run tick s ins N).Idle) :
    s.ShowsCommands ins N := by
  intro n before c cx cy r low high write word on
  obtain ⟨j, load⟩ := load_of_setRadius low high write word
  obtain ⟨mem, drawn, shown⟩ := exec_plotcircle on fun _ => 0
  refine ⟨mem, drawn, fun p reference => ?_⟩
  have dark : lit (fun _ => 0) = ∅ := by
    ext q
    simp [lit]
  rw [shown, dark, Set.empty_union, ← circle_of_setRadius word] at reference
  have taken : p ∈ ((run tick s ins (n + 1)).p j).goal := by
    rw [run_succ]
    refine Or.inr ?_
    exact (PlotPixel.due_of_load load).symm ▸ reference
  have kept := goal_mono idle noClear unhurried j before (Nat.le_refl N) taken
  rw [PlotPixel.goal_of_wait (done j)] at kept
  exact ⟨j, kept⟩

/-! ## Two commands to one engine -/

/-- `SET_RADIUS(1, 100, 100, 1)`, and `SET_RADIUS(1, 300, 300, 0)` in cycle `gap`. -/
def twoCommands (gap : ℕ) (n : ℕ) : BusIn :=
  if n = 0 then .command 1 100 100 1 else if n = gap then .command 1 300 300 0 else .rest

theorem twoCommands_clear (gap n : ℕ) : (twoCommands gap n).clear = false := by
  unfold twoCommands
  split
  · decide
  · split <;> decide

/-- With the commands twelve cycles apart both circles are complete. -/
theorem shows_of_unhurried_twoCommands : ShowsCommands blank (twoCommands 12) 20 := by
  have restAt0 (j : Fin 11) : ((run tick blank (twoCommands 12) 0).p j).state = .wait := rfl
  have restAt12 : ∀ j, ((run tick blank (twoCommands 12) 12).p j).state = .wait := by
    decide +kernel
  refine shows_of_unhurried (fun _ => rfl) (fun n _ => twoCommands_clear 12 n) ?_ ?_
  · intro n _ j load
    rcases Nat.eq_zero_or_pos n with rfl | later
    · exact PlotPixel.spares_of_wait (restAt0 j)
    · by_cases second : n = 12
      · rw [second]
        exact PlotPixel.spares_of_wait (restAt12 j)
      · rw [twoCommands, if_neg (Nat.ne_of_gt later), if_neg second] at load
        cases load
  · unfold Idle
    decide +kernel

/-- Sent in consecutive cycles, the second command takes away the pixel
(100, 99) of the first circle. -/
theorem command_loses_circle :
    blank.Idle ∧ (∀ n, (twoCommands 1 n).clear = false) ∧
      (run tick blank (twoCommands 1) 7).Idle ∧ ¬ ShowsCommands blank (twoCommands 1) 7 := by
  have missing : ∀ j, ((run tick blank (twoCommands 1) 7).p j).ram0.ram
      (Pixel.index ⟨100, 99⟩) = 0 := by
    decide +kernel
  have visits : (Octant.start ((1 : BitVec 8).toNat : Int)).visits = [⟨1, 0, 0⟩] := by
    rw [Octant.visits_of_le (by decide), Octant.visits_of_lt (by decide)]
    rfl
  have reference : (⟨100, 99⟩ : Pixel) ∈ circle 100 100 1 := by
    rw [circle, visits]
    decide
  have on : OnScreen 100 100 1 := ⟨by decide, by decide, by decide, by decide, by decide⟩
  refine ⟨fun _ => rfl, twoCommands_clear 1, by unfold Idle; decide +kernel, fun shows => ?_⟩
  obtain ⟨mem, drawn, complete⟩ :=
    shows 0 (by decide) 1 100 100 1 (by decide) (by decide) rfl rfl on
  obtain ⟨mem', drawn', shown⟩ := exec_plotcircle on fun _ => 0
  cases Option.some.inj (drawn.symm.trans drawn')
  have inPicture : (⟨100, 99⟩ : Pixel) ∈ (run tick blank (twoCommands 1) 7).picture := by
    apply complete
    rw [shown]
    exact Or.inr reference
  obtain ⟨j, bit⟩ := inPicture
  rw [litBits, Set.mem_ofPred_eq, missing j] at bit
  cases bit

end PlotCircle

end CirclePlotter.Parallel
