import CirclePlotter.Parallel.Spacing

/-!
# Strokes

`Plotter` is what an engine is, without its registers and states: a memory, and the
pairs of pixels it has still to set. It sets one pair in each cycle, and a command
replaces what is left. `strokes` is the order in which a command has its figure
set.

* `plotter_tick` says that every tick of an engine is a step of its plotter, for any
  inputs, and `run_refines_plotter` says so for the coprocessor and whole runs.
* `picture_run` is the picture in each cycle of a run without clears, whatever
  commands interrupt each other.

A plotter that is at work does not clear the pixel that a clear addresses. It erases
the pair that it would have set.
-/

namespace CirclePlotter.Parallel

open Sync

/-- The four pairs of a position. -/
def pairs (rx ry : BitVec 9) (o : Octant) : List (Pixel × Pixel) :=
  (List.finRange 4).map (o.corner rx ry)

/-- The pairs an engine sets for a word, in order. -/
def strokes (word : BitVec 32) : List (Pixel × Pixel) :=
  let first := Octant.start (wordRadius word).toNat
  (first :: if wordRadius word = 0 then [] else first.steps).flatMap
    (pairs (wordRx word) (wordRy word))

/-- An engine as a plotter. -/
@[ext]
structure Plotter where
  todo : List (Pixel × Pixel)
  bits : BitMem

/-- One cycle of the plotter in the module with this `ID`. -/
def Plotter.step (id : BitVec 6) (s : Plotter) (i : BusIn) : Plotter where
  todo := if i.load id then strokes i.writedata else s.todo.tail
  bits :=
    match s.todo with
    | (a, b) :: _ =>
        let isset := if i.clear then 0 else 1
        Function.update (Function.update s.bits a.index isset) b.index isset
    | [] => if i.clear then Function.update s.bits i.address 0 else s.bits

/-- The strokes of a word are its figure. -/
theorem mem_figure_iff_strokes (word : BitVec 32) (p : Pixel) :
    p ∈ figure word ↔ ∃ pair ∈ strokes word, p = pair.1 ∨ p = pair.2 := by
  have position (o : Octant) : (∃ pair ∈ pairs (wordRx word) (wordRy word) o,
      p = pair.1 ∨ p = pair.2) ↔ p ∈ o.pixels (wordRx word) (wordRy word) := by
    simp [pairs, Octant.mem_pixels]
  have walk : (∃ pair ∈ strokes word, p = pair.1 ∨ p = pair.2) ↔
      ∃ o ∈ Octant.start (wordRadius word).toNat ::
          (if wordRadius word = 0 then [] else (Octant.start (wordRadius word).toNat).steps),
        p ∈ o.pixels (wordRx word) (wordRy word) := by
    simp only [strokes, List.mem_flatMap, ← position]
    grind
  rw [walk]
  by_cases point : wordRadius word = 0
  · have visits : (Octant.start (wordRadius word).toNat).visits =
        [Octant.start (wordRadius word).toNat] := by
      rw [point]
      exact Octant.visits_start_zero
    rw [if_pos point, ← visits]
    simp [figure, circle, point]
  · rw [if_neg point, Octant.cons_steps]
    simp only [figure, circle, point, List.mem_append, List.mem_singleton, or_and_right, exists_or,
      exists_eq_left, Set.mem_union, Set.mem_ofPred_eq, List.mem_flatMap, ne_eq, not_false_eq_true,
      true_and]

/-! ## One engine -/

namespace PlotPixel

/-- The pairs the engine still sets when no command interrupts it. -/
def todo (m : PlotPixel) : List (Pixel × Pixel) :=
  if m.state = .wait then []
  else ((List.finRange 4).drop m.state.phase).map (m.octant.corner m.rx m.ry) ++
    m.onward.flatMap (pairs m.rx m.ry)

/-- The plotter the engine is. -/
def plotter (m : PlotPixel) : Plotter := ⟨m.todo, m.ram0.ram⟩

variable {id : BitVec 6} {m : PlotPixel} {i : BusIn}

theorem todo_of_wait (rest : m.state = .wait) : m.todo = [] := if_pos rest

theorem todo_of_load (load : i.load id = true) : (m.tick id i).todo = strokes i.writedata := by
  have start := octant_of_load (m := m) load
  rw [todo, onward, start, tick_of_load load]
  simp only [reduceCtorEq, if_false, PixelState.phase, List.drop_zero, strokes, List.flatMap_cons,
    pairs]

/-- The pairs from number `j` on begin with it. -/
theorem drop_finRange : ∀ j : Fin 4,
    (List.finRange 4).drop j = j :: (List.finRange 4).drop (j + 1) := by
  decide

theorem todo_of_not_drawing (none : m.drawing? = none) : m.todo = [] := by
  rcases m.tickCase with rest | ⟨j, after, writing⟩ | ⟨computing, inside, large⟩ |
    ⟨computing, inside, point⟩ | ⟨computing, outside⟩
  · exact todo_of_wait rest
  · rw [drawing_of_corner writing] at none
    cases none
  · rw [drawing_of_proceed computing inside large] at none
    cases none
  · simp [todo, onward, computing, point, PixelState.phase, List.drop_eq_nil_of_le]
  · simp [todo, onward, computing, Octant.steps_of_lt outside, PixelState.phase,
      List.drop_eq_nil_of_le]

/-- After a tick without a command in which it draws nothing, an engine waits. -/
theorem wait_of_not_drawing (quiet : i.load id = false) (none : m.drawing? = none) :
    (m.tick id i).state = .wait := by
  rcases m.tickCase with rest | ⟨j, after, writing⟩ | ⟨computing, inside, large⟩ |
    ⟨computing, inside, point⟩ | ⟨computing, outside⟩
  · rw [tick_rest quiet rest]
    exact rest
  · rw [drawing_of_corner writing] at none
    cases none
  · rw [drawing_of_proceed computing inside large] at none
    cases none
  · rw [tick_stop quiet computing inside point]
  · rw [tick_leave quiet computing outside]

/-- A tick that draws takes its pair off the list. -/
theorem todo_of_drawing (valid : Valid m) (quiet : i.load id = false) {o : Octant} {j : Fin 4}
    (drawing : m.drawing? = some (o, j)) :
    m.todo = o.corner m.rx m.ry j :: (m.tick id i).todo := by
  rcases m.tickCase with rest | ⟨j', after, writing⟩ | ⟨computing, inside, large⟩ |
    ⟨computing, inside, point⟩ | ⟨computing, outside⟩
  · rw [drawing_of_wait rest] at drawing
    cases drawing
  · rw [drawing_of_corner writing] at drawing
    cases drawing
    obtain ⟨phase, phase', notWait, notWait'⟩ := PixelState.phase_of_corner writing
    rw [tick_write quiet writing]
    simp only [todo, onward, octant, notWait, notWait', phase, phase', drop_finRange, if_false,
      List.map_cons, List.cons_append]
  · rw [drawing_of_proceed computing inside large] at drawing
    cases drawing
    have next := octant_of_proceed valid quiet computing inside large
    have ahead := onward_proceed valid quiet computing inside large
    have new := tick_proceed valid quiet computing inside large
    have rx : (m.tick id i).rx = m.rx := by rw [new]
    have ry : (m.tick id i).ry = m.ry := by rw [new]
    have state : (m.tick id i).state = .write1 := by rw [new]
    rw [todo, todo, ahead, next, rx, ry, state, computing]
    simp [PixelState.phase, List.drop_eq_nil_of_le, pairs, List.finRange_succ]
  · rw [drawing_of_stop computing point] at drawing
    cases drawing
  · rw [drawing_of_leave computing outside] at drawing
    cases drawing

theorem exists_todo_of_drawing (valid : Valid m) {o : Octant} {j : Fin 4}
    (drawing : m.drawing? = some (o, j)) : ∃ rest, m.todo = o.corner m.rx m.ry j :: rest := by
  have quiet : BusIn.rest.load 0 = false := rfl
  exact ⟨_, todo_of_drawing valid quiet drawing⟩

/-- Every tick of an engine is a step of its plotter. -/
theorem plotter_tick (valid : Valid m) : (m.tick id i).plotter = m.plotter.step id i := by
  have isset : ~~~BitVec.ofBool i.clear = if i.clear then 0 else 1 := by
    cases i.clear <;> rfl
  cases drawing : m.drawing? with
  | none =>
      have done := todo_of_not_drawing drawing
      obtain ⟨portA, portB⟩ := ports_of_not_drawing (i := i) drawing
      apply Plotter.ext
      · simp only [plotter, Plotter.step, done, List.tail_nil]
        split
        · next load => exact todo_of_load load
        · next quiet =>
            exact todo_of_wait (wait_of_not_drawing (Bool.eq_false_iff.mpr quiet) drawing)
      · simp only [plotter, Plotter.step, done, tick_ram0, portA, portB]
        cases clear : i.clear with
        | true => simp [idle, DualPortRam.tick, DualPortRam.write, clear]
        | false => simp [idle, DualPortRam.tick, DualPortRam.write, clear]
  | some pair =>
      obtain ⟨o, j⟩ := pair
      obtain ⟨rest, head⟩ := exists_todo_of_drawing valid drawing
      obtain ⟨portA, portB⟩ := ports_of_drawing (i := i) valid drawing
      apply Plotter.ext
      · simp only [plotter, Plotter.step]
        split
        · next load => exact todo_of_load load
        · next quiet =>
            rw [todo_of_drawing valid (Bool.eq_false_iff.mpr quiet) drawing, List.tail_cons]
      · simp only [plotter, Plotter.step, head, tick_ram0, portA, portB, DualPortRam.tick,
          DualPortRam.write, if_true, idle, isset]

end PlotPixel

/-! ## Runs of a plotter -/

namespace Plotter

variable {id : BitVec 6} {bits : BitMem} {ins : ℕ → BusIn} {N : ℕ}

/-- The strokes still to do are the rest of the strokes of the last command. -/
theorem getElem?_todo_run (n k : ℕ) (pair : Pixel × Pixel) :
    (run (step id) ⟨[], bits⟩ ins n).todo[k]? = some pair ↔
      ∃ c < n, (ins c).load id = true ∧ (∀ m, c < m → m < n → (ins m).load id = false) ∧
        (strokes (ins c).writedata)[k + (n - c - 1)]? = some pair := by
  induction n generalizing k with
  | zero => simp
  | succ n ih =>
      rw [run_succ, step]
      cases load : (ins n).load id with
      | true =>
          rw [if_pos rfl]
          constructor
          · intro found
            refine ⟨n, Nat.lt_succ_self n, load, fun m after before => by omega, ?_⟩
            simpa using found
          · intro last
            rcases last with ⟨c, before, -, alone, found⟩
            have here : c = n := by
              by_contra other
              rw [alone n (by omega) (Nat.lt_succ_self n)] at load
              cases load
            subst here
            simpa using found
      | false =>
          rw [if_neg Bool.false_ne_true, List.getElem?_tail, ih]
          constructor
          · intro last
            rcases last with ⟨c, before, load', alone, found⟩
            have index : k + 1 + (n - c - 1) = k + (n + 1 - c - 1) := by omega
            refine ⟨c, Nat.lt_succ_of_lt before, load', fun m after within => ?_, index ▸ found⟩
            rcases Nat.lt_succ_iff_lt_or_eq.mp within with earlier | rfl
            · exact alone m after earlier
            · exact load
          · intro last
            rcases last with ⟨c, within, load', alone, found⟩
            have before : c < n := by
              rcases Nat.lt_succ_iff_lt_or_eq.mp within with earlier | rfl
              · exact earlier
              · rw [load] at load'
                cases load'
            have index : k + (n + 1 - c - 1) = k + 1 + (n - c - 1) := by omega
            exact ⟨c, before, load',
              fun m after earlier => alone m after (Nat.lt_succ_of_lt earlier), index ▸ found⟩

/-- The pixels the plotter sets in cycle `n` after the last command, the one in
cycle `c`. -/
def struck (id : BitVec 6) (ins : ℕ → BusIn) (c n : ℕ) : Set Pixel :=
  {p | (ins c).load id = true ∧ (∀ m, c < m → m < n → (ins m).load id = false) ∧
    ∃ pair, (strokes (ins c).writedata)[n - c - 1]? = some pair ∧ (p = pair.1 ∨ p = pair.2)}

/-- A command that is left alone for as many cycles as it has strokes has its figure
set, and nothing else. -/
theorem struck_of_alone {c : ℕ} (load : (ins c).load id = true)
    (alone : ∀ n, c < n → n < c + (strokes (ins c).writedata).length → (ins n).load id = false) :
    {p | ∃ n, c < n ∧ p ∈ struck id ins c n} = figure (ins c).writedata := by
  ext p
  rw [mem_figure_iff_strokes]
  constructor
  · intro drawn
    rcases drawn with ⟨n, -, -, -, pair, found, here⟩
    exact ⟨pair, List.mem_of_getElem? found, here⟩
  · intro stroke
    rcases stroke with ⟨pair, listed, here⟩
    rcases List.getElem?_of_mem listed with ⟨k, found⟩
    have within := (List.getElem?_eq_some_iff.mp found).1
    have index : c + 1 + k - c - 1 = k := by omega
    exact ⟨c + 1 + k, by omega, load, fun m after before => alone m after (by omega), pair,
      by rw [index, found], here⟩

/-- Without a clear a cycle adds its stroke. -/
theorem litBits_step {s : Plotter} {i : BusIn} (kept : i.clear = false) :
    litBits (s.step id i).bits =
      litBits s.bits ∪ {p | ∃ pair, s.todo[0]? = some pair ∧ (p = pair.1 ∨ p = pair.2)} := by
  rcases s with ⟨todo, bits⟩
  cases todo with
  | nil => simp [step, kept]
  | cons pair todo =>
      rcases pair with ⟨a, b⟩
      simp only [step, kept, Bool.false_eq_true, if_false, litBits_update]
      ext p
      simp only [List.getElem?_cons_zero, Option.some.injEq, exists_eq_left', Set.mem_insert_iff,
        Set.mem_union, Set.mem_ofPred_eq]
      rw [← or_assoc, or_comm, or_comm (a := p = b)]

/-- The stroke of cycle `n` belongs to the last command before it. -/
theorem mem_stroke_run_iff (n : ℕ) (p : Pixel) :
    (∃ pair, (run (step id) ⟨[], bits⟩ ins n).todo[0]? = some pair ∧ (p = pair.1 ∨ p = pair.2)) ↔
      ∃ c < n, p ∈ struck id ins c n := by
  simp only [getElem?_todo_run, Nat.zero_add, struck, Set.mem_ofPred_eq]
  constructor
  · intro stroke
    rcases stroke with ⟨pair, ⟨c, before, load, alone, found⟩, here⟩
    exact ⟨c, before, load, alone, pair, found, here⟩
  · intro stroke
    rcases stroke with ⟨c, before, load, alone, pair, found, here⟩
    exact ⟨pair, ⟨c, before, load, alone, found⟩, here⟩

theorem litBits_run (kept : ∀ n < N, (ins n).clear = false) {n : ℕ} (before : n ≤ N) :
    litBits (run (step id) ⟨[], bits⟩ ins n).bits =
      litBits bits ∪ {p | ∃ c m, c < m ∧ m < n ∧ p ∈ struck id ins c m} := by
  induction n with
  | zero => simp
  | succ n ih =>
      rw [run_succ, litBits_step (kept n before), ih (Nat.le_of_succ_le before), Set.union_assoc]
      congr 1
      ext p
      rw [Set.mem_union, Set.mem_ofPred_eq, Set.mem_ofPred_eq, mem_stroke_run_iff,
        Set.mem_ofPred_eq]
      constructor
      · intro drawn
        rcases drawn with ⟨c, m, after, earlier, here⟩ | ⟨c, after, here⟩
        · exact ⟨c, m, after, Nat.lt_succ_of_lt earlier, here⟩
        · exact ⟨c, n, after, Nat.lt_succ_self n, here⟩
      · intro drawn
        rcases drawn with ⟨c, m, after, within, here⟩
        rcases Nat.lt_succ_iff_lt_or_eq.mp within with earlier | rfl
        · exact .inl ⟨c, m, after, earlier, here⟩
        · exact .inr ⟨c, after, here⟩

end Plotter

/-! ## The coprocessor -/

namespace PlotCircle

variable {s : PlotCircle} {ins : ℕ → BusIn}

/-- Every engine is its plotter all along the run. -/
theorem plotter_run (valid : s.Valid) (ins : ℕ → BusIn) (n : ℕ) (j : Fin 11) :
    ((run tick s ins n).p j).plotter = run (Plotter.step (moduleId j)) (s.p j).plotter ins n := by
  have engines := run_always valid fun n _ valid => Valid.tick valid (ins n)
  exact run_abstract (fun t => (t.p j).plotter) engines
    (fun _ _ valid => PlotPixel.plotter_tick (valid j)) n

theorem plotter_of_idle (idle : s.Idle) (j : Fin 11) :
    (s.p j).plotter = ⟨[], (s.p j).ram0.ram⟩ := by
  rw [PlotPixel.plotter, PlotPixel.todo_of_wait (idle j)]

/-- The coprocessor refines eleven plotters. In every run from idle engines, for any
stores and reads in any cycles, each engine holds what its plotter holds, and it
waits only when its plotter has nothing to do; when its plotter has had nothing to
do in a cycle without a command, it waits in the next one. -/
theorem run_refines_plotters (idle : s.Idle) (ins : ℕ → BusIn) (n : ℕ) (j : Fin 11) :
    let plotter := run (Plotter.step (moduleId j)) ⟨[], (s.p j).ram0.ram⟩ ins
    ((run tick s ins n).p j).ram0.ram = (plotter n).bits ∧
      (((run tick s ins n).p j).state = .wait → (plotter n).todo = []) ∧
      ((plotter n).todo = [] → (ins n).load (moduleId j) = false →
        ((run tick s ins (n + 1)).p j).state = .wait) := by
  intro plotter
  have valid := valid_of_idle idle
  have whole (n : ℕ) : ((run tick s ins n).p j).plotter = plotter n := by
    rw [plotter_run valid, plotter_of_idle idle]
  refine ⟨congrArg Plotter.bits (whole n), fun rest => ?_, fun done quiet => ?_⟩
  · rw [← whole n]
    exact PlotPixel.todo_of_wait rest
  · rw [← whole n] at done
    refine PlotPixel.wait_of_not_drawing quiet ?_
    cases drawing : ((run tick s ins n).p j).drawing? with
    | none => rfl
    | some pair =>
        rcases PlotPixel.exists_todo_of_drawing (valid_run idle n j) drawing with ⟨rest, head⟩
        rw [PlotPixel.plotter, head] at done
        cases done

/-- Two commands to one engine in consecutive cycles, five cycles later. -/
theorem run_refines_plotters_twoCommands :
    let plotter := run (Plotter.step (moduleId 0)) ⟨[], fun _ => 0⟩ (twoCommands 1)
    ((run tick blank (twoCommands 1) 7).p 0).ram0.ram = (plotter 7).bits ∧
      (((run tick blank (twoCommands 1) 7).p 0).state = .wait → (plotter 7).todo = []) ∧
      ((plotter 7).todo = [] → (twoCommands 1 7).load (moduleId 0) = false →
        ((run tick blank (twoCommands 1) 8).p 0).state = .wait) :=
  run_refines_plotters (s := blank) (fun _ => rfl) (twoCommands 1) 7 0

/-- The picture in any cycle of a run without clears, for any commands in any
cycles: each command has set the pixels of one stroke in each cycle since, up to the
cycle of the next command to its engine. The strokes of a command that no other cuts
off are its figure. -/
theorem picture_run (idle : s.Idle) {N : ℕ} (kept : ∀ n < N, (ins n).clear = false) :
    (run tick s ins N).picture = s.picture ∪
        {p | ∃ j c n, c < n ∧ n < N ∧ p ∈ Plotter.struck (moduleId j) ins c n} ∧
      ∀ j c, (ins c).load (moduleId j) = true →
        (∀ n, c < n → n < c + (strokes (ins c).writedata).length →
          (ins n).load (moduleId j) = false) →
        {p | ∃ n, c < n ∧ p ∈ Plotter.struck (moduleId j) ins c n} = figure (ins c).writedata := by
  have engine (j : Fin 11) : litBits ((run tick s ins N).p j).ram0.ram =
      litBits (s.p j).ram0.ram ∪
        {p | ∃ c n, c < n ∧ n < N ∧ p ∈ Plotter.struck (moduleId j) ins c n} := by
    have whole := congrArg Plotter.bits (plotter_run (valid_of_idle idle) ins N j)
    rw [plotter_of_idle idle] at whole
    rw [← Plotter.litBits_run kept (Nat.le_refl N), ← whole]
    rfl
  refine ⟨?_, fun j c => Plotter.struck_of_alone⟩
  ext p
  simp only [picture, engine, Set.mem_union, Set.mem_ofPred_eq, exists_or]

/-- The second command cuts the first one off after one stroke. -/
theorem picture_run_twoCommands :
    (run tick blank (twoCommands 1) 7).picture = blank.picture ∪
        {p | ∃ j c n, c < n ∧ n < 7 ∧ p ∈ Plotter.struck (moduleId j) (twoCommands 1) c n} ∧
      ∀ j c, (twoCommands 1 c).load (moduleId j) = true →
        (∀ n, c < n → n < c + (strokes (twoCommands 1 c).writedata).length →
          (twoCommands 1 n).load (moduleId j) = false) →
        {p | ∃ n, c < n ∧ p ∈ Plotter.struck (moduleId j) (twoCommands 1) c n} =
          figure (twoCommands 1 c).writedata :=
  picture_run (fun _ => rfl) fun n _ => twoCommands_clear 1 n

end PlotCircle

end CirclePlotter.Parallel
