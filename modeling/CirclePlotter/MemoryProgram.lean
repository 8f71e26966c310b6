import Mathlib.Tactic.Common

/-!
# Programs over a memory

`Program I W α` is a sequential program that loads and stores words `W` at
indices `I` and returns an `α`; `undefined` marks behaviour the language does
not define. The same program is run in two ways:

* `exec` runs it on a memory given by two partial functions (`Memory`), where an
  access out of range is undefined as well;
* `Runs` runs it on a device given by two transition relations (`Device`), which
  may take several steps for one access.

`exec_of_runs` and `runs_of_exec` are the refinement rules: if the device serves
every access of the memory it stands for, and serves it as the memory does, then
every program that is defined on the memory runs on the device, and only with
the outcome it has on the memory. Where a device does not stand for a memory all
the time, `Triple` says what a program does on it, and `Refines.triple` carries the
outcome of a program over. `Refines.sum` combines two devices on one bus.
-/

namespace CirclePlotter

inductive Program (I W : Type) (α : Type) where
  | pure (a : α)
  | load (index : I) (rest : W → Program I W α)
  | store (index : I) (word : W) (rest : Program I W α)
  | undefined

namespace Program

variable {I W α β γ μ σ : Type}

/-- Run `p`, then `f` on its result. -/
def bind : Program I W α → (α → Program I W β) → Program I W β
  | .pure a, f => f a
  | .load index rest, f => .load index fun word => (rest word).bind f
  | .store index word rest, f => .store index word (rest.bind f)
  | .undefined, _ => .undefined

instance : Monad (Program I W) where
  pure := .pure
  bind := bind

@[simp] theorem pure_bind' (a : α) (f : α → Program I W β) :
    ((Program.pure a : Program I W α) >>= f) = f a := rfl

@[simp] theorem load_bind (index : I) (rest : W → Program I W α) (f : α → Program I W β) :
    (load index rest >>= f) = load index fun word => rest word >>= f := rfl

@[simp] theorem store_bind (index : I) (word : W) (rest : Program I W α)
    (f : α → Program I W β) :
    (store index word rest >>= f) = store index word (rest >>= f) := rfl

theorem bind_assoc' (p : Program I W α) (f : α → Program I W β) (g : β → Program I W γ) :
    p >>= f >>= g = p >>= fun a => f a >>= g := by
  induction p with
  | pure a => rfl
  | load index rest ih => simp [ih]
  | store index word rest ih => simp [ih]
  | undefined => rfl

instance : LawfulMonad (Program I W) :=
  LawfulMonad.mk' _
    (fun p => by
      induction p with
      | pure a => rfl
      | load index rest ih => exact congrArg (load index) (funext ih)
      | store index word rest ih => exact congrArg (store index word) ih
      | undefined => rfl)
    (fun _ _ => rfl)
    bind_assoc'

/-- The word at an index. -/
def read (index : I) : Program I W W := load index .pure

/-- Replace the word at an index. -/
def write (index : I) (word : W) : Program I W Unit := store index word (.pure ())

/-! ## Running on a memory -/

/-- A memory with states `μ`; `none` is an access out of range. -/
structure Memory (I W μ : Type) where
  read : μ → I → Option W
  write : μ → I → W → Option μ

def exec (M : Memory I W μ) : Program I W α → μ → Option (α × μ)
  | .pure a, m => some (a, m)
  | .load index rest, m =>
      match M.read m index with
      | some word => (rest word).exec M m
      | none => none
  | .store index word rest, m =>
      match M.write m index word with
      | some m' => rest.exec M m'
      | none => none
  | .undefined, _ => none

theorem exec_pure (M : Memory I W μ) (a : α) (m : μ) :
    (Pure.pure a : Program I W α).exec M m = some (a, m) := rfl

theorem exec_bind (M : Memory I W μ) (p : Program I W α) (f : α → Program I W β) (m : μ) :
    (p >>= f).exec M m = (p.exec M m).bind fun r => (f r.1).exec M r.2 := by
  induction p generalizing m with
  | pure a => rfl
  | load index rest ih =>
      simp only [load_bind, exec]
      cases M.read m index with
      | none => rfl
      | some word => exact ih word m
  | store index word rest ih =>
      simp only [store_bind, exec]
      cases M.write m index word with
      | none => rfl
      | some m' => exact ih m'
  | undefined => rfl

/-- What runs first hands its result and its memory on. -/
theorem exec_bind_of {M : Memory I W μ} {p : Program I W α} {m m' : μ} {a : α}
    (first : p.exec M m = some (a, m')) (f : α → Program I W β) :
    (p >>= f).exec M m = (f a).exec M m' := by
  rw [exec_bind, first, Option.bind_some]

/-- A program that is defined on one memory is defined, with the same outcome, on
every memory that allows at least the same accesses. -/
theorem exec_mono {M M' : Memory I W μ}
    (read : ∀ {m index word}, M.read m index = some word → M'.read m index = some word)
    (write : ∀ {m index word m'}, M.write m index word = some m' → M'.write m index word = some m')
    {p : Program I W α} {m : μ} {r : α × μ} (defined : p.exec M m = some r) :
    p.exec M' m = some r := by
  induction p generalizing m with
  | pure => exact defined
  | load index rest ih =>
      simp only [exec] at defined ⊢
      cases inRange : M.read m index with
      | none => simp [inRange] at defined
      | some word =>
          rw [inRange] at defined
          rw [read inRange]
          exact ih word defined
  | store index word rest ih =>
      simp only [exec] at defined ⊢
      cases inRange : M.write m index word with
      | none => simp [inRange] at defined
      | some m' =>
          rw [inRange] at defined
          rw [write inRange]
          exact ih defined
  | undefined => cases defined

/-- A loop that loads one word in each iteration folds the words. -/
theorem exec_foldlM_read {M : Memory I W μ} {m : μ} {index : γ → I} {word : γ → W} {js : List γ}
    (inRange : ∀ j ∈ js, M.read m (index j) = some (word j)) (combine : β → W → β) (b : β) :
    (js.foldlM (fun b j => do
      let w ← Program.read (index j)
      return combine b w : β → γ → Program I W β) b).exec M m =
      some (js.foldl (fun b j => combine b (word j)) b, m) := by
  induction js generalizing b with
  | nil => rfl
  | cons j js ih =>
      have here := inRange j List.mem_cons_self
      rw [List.foldlM_cons, List.foldl_cons, exec_bind]
      simp only [Program.read, load_bind, pure_bind', exec, here]
      exact ih (fun j' later => inRange j' (List.mem_cons_of_mem j later)) _

/-- A loop whose body is always defined is defined. -/
theorem exec_foldlM_isSome (M : Memory I W μ) (body : β → γ → Program I W β) {js : List γ}
    (each : ∀ j ∈ js, ∀ b m, ((body b j).exec M m).isSome) (b : β) (m : μ) :
    ((js.foldlM body b).exec M m).isSome := by
  induction js generalizing b m with
  | nil => rfl
  | cons j js ih =>
      obtain ⟨⟨b', m'⟩, first⟩ := Option.isSome_iff_exists.mp (each j List.mem_cons_self b m)
      rw [List.foldlM_cons, exec_bind, first]
      exact ih (fun j' later => each j' (List.mem_cons_of_mem j later)) b' m'

theorem exec_forM_isSome (M : Memory I W μ) (body : γ → Program I W PUnit) {js : List γ}
    (each : ∀ j ∈ js, ∀ m, ((body j).exec M m).isSome) (m : μ) :
    ((forM js body).exec M m).isSome := by
  induction js generalizing m with
  | nil => rfl
  | cons j js ih =>
      obtain ⟨⟨_, m'⟩, first⟩ := Option.isSome_iff_exists.mp (each j List.mem_cons_self m)
      rw [List.forM_cons, exec_bind, first]
      exact ih (fun j' later => each j' (List.mem_cons_of_mem j later)) m'

/-- A loop whose turns leave the memory as it is leaves it so. -/
theorem exec_forM_kept {M : Memory I W μ} {m : μ} {body : γ → Program I W PUnit} {js : List γ}
    (kept : ∀ j ∈ js, (body j).exec M m = some ((), m)) :
    (forM js body).exec M m = some ((), m) := by
  induction js with
  | nil => rfl
  | cons j js ih =>
      rw [List.forM_cons, exec_bind_of (kept j List.mem_cons_self)]
      exact ih fun j' later => kept j' (List.mem_cons_of_mem j later)

/-- A loop that stores one word at the addresses `address j` fills them. -/
theorem exec_forM_write {A V : Type} [DecidableEq A] {M : Memory I W (A → V)} {index : γ → I}
    {word : W} {js : List γ} (address : γ → A) (v : V)
    (inRange : ∀ j ∈ js, ∀ m, M.write m (index j) word = some (Function.update m (address j) v))
    (m : A → V) :
    (forM js fun j => Program.write (index j) word : Program I W PUnit).exec M m =
      some ((), fun a => if a ∈ js.map address then v else m a) := by
  induction js generalizing m with
  | nil => rfl
  | cons j js ih =>
      rw [List.forM_cons, exec_bind]
      simp only [write, exec, inRange j List.mem_cons_self, Option.bind_some]
      refine (ih (fun j' later => inRange j' (List.mem_cons_of_mem j later)) _).trans ?_
      refine congrArg (fun m => some ((), m)) (funext fun a => ?_)
      simp only [Function.update_apply, List.map_cons, List.mem_cons]
      by_cases later : a ∈ js.map address <;> simp [later]

/-! ## Running on a device -/

/-- A device with states `σ`: `load s i w s'` when loading `i` in `s` may return
`w` and leave `s'`, and likewise `store`. -/
structure Device (I W σ : Type) where
  load : σ → I → W → σ → Prop
  store : σ → I → W → σ → Prop

inductive Runs (D : Device I W σ) : Program I W α → σ → α → σ → Prop
  | pure {a : α} {s : σ} : Runs D (.pure a) s a s
  | load {index : I} {rest : W → Program I W α} {s s' s'' : σ} {word : W} {a : α} :
    D.load s index word s' → Runs D (rest word) s' a s'' → Runs D (.load index rest) s a s''
  | store {index : I} {word : W} {rest : Program I W α} {s s' s'' : σ} {a : α} :
    D.store s index word s' → Runs D rest s' a s'' → Runs D (.store index word rest) s a s''

/-- A device refines a memory: it serves the accesses in range, and then it keeps
its invariant and answers as the memory that `view` shows. -/
structure Refines (D : Device I W σ) (M : Memory I W μ) (Inv : σ → Prop) (view : σ → μ) :
    Prop where
  load : ∀ {s index word s' word'}, Inv s → D.load s index word s' →
    M.read (view s) index = some word' → word = word' ∧ Inv s' ∧ view s' = view s
  store : ∀ {s index word s' m}, Inv s → D.store s index word s' →
    M.write (view s) index word = some m → Inv s' ∧ view s' = m
  serves_load : ∀ {s index word}, Inv s → M.read (view s) index = some word →
    ∃ word' s', D.load s index word' s'
  serves_store : ∀ {s index word m}, Inv s → M.write (view s) index word = some m →
    ∃ s', D.store s index word s'

/-- A program that is defined on the memory has the same outcome on the device. -/
theorem exec_of_runs {D : Device I W σ} {M : Memory I W μ} {Inv : σ → Prop} {view : σ → μ}
    (refines : Refines D M Inv view) {p : Program I W α} {s s' : σ} {a a' : α} {m : μ}
    (runs : Runs D p s a s') (inv : Inv s) (defined : p.exec M (view s) = some (a', m)) :
    a = a' ∧ Inv s' ∧ view s' = m := by
  induction runs with
  | pure =>
      cases defined
      exact ⟨rfl, inv, rfl⟩
  | @load index rest s s₁ s₂ word a access _ ih =>
      simp only [exec] at defined
      cases inRange : M.read (view s) index with
      | none => simp [inRange] at defined
      | some word' =>
          obtain ⟨rfl, inv', same⟩ := refines.load inv access inRange
          rw [inRange] at defined
          exact ih inv' (same ▸ defined)
  | @store index word rest s s₁ s₂ a access _ ih =>
      simp only [exec] at defined
      cases inRange : M.write (view s) index word with
      | none => simp [inRange] at defined
      | some m' =>
          obtain ⟨inv', same⟩ := refines.store inv access inRange
          rw [inRange] at defined
          exact ih inv' (same ▸ defined)

/-- A program that is defined on the memory runs on the device. -/
theorem runs_of_exec {D : Device I W σ} {M : Memory I W μ} {Inv : σ → Prop} {view : σ → μ}
    (refines : Refines D M Inv view) {p : Program I W α} {s : σ} {a : α} {m : μ} (inv : Inv s)
    (defined : p.exec M (view s) = some (a, m)) : ∃ s', Runs D p s a s' := by
  induction p generalizing s with
  | pure =>
      cases defined
      exact ⟨s, .pure⟩
  | load index rest ih =>
      simp only [exec] at defined
      cases inRange : M.read (view s) index with
      | none => simp [inRange] at defined
      | some word =>
          obtain ⟨word', s₁, access⟩ := refines.serves_load inv inRange
          obtain ⟨rfl, inv₁, same⟩ := refines.load inv access inRange
          rw [inRange] at defined
          obtain ⟨s', runs⟩ := ih word' inv₁ (same ▸ defined)
          exact ⟨s', .load access runs⟩
  | store index word rest ih =>
      simp only [exec] at defined
      cases inRange : M.write (view s) index word with
      | none => simp [inRange] at defined
      | some m₁ =>
          obtain ⟨s₁, access⟩ := refines.serves_store inv inRange
          obtain ⟨inv₁, same⟩ := refines.store inv access inRange
          rw [inRange] at defined
          obtain ⟨s', runs⟩ := ih inv₁ (same ▸ defined)
          exact ⟨s', .store access runs⟩
  | undefined => cases defined

/-! ## Pre- and postconditions -/

section Triple

variable {D : Device I W σ} {P : σ → Prop} {p : Program I W α} {Q : α → σ → Prop}

/-- From every state in `P` the program can run, and all its runs end in `Q`. -/
def Triple (D : Device I W σ) (P : σ → Prop) (p : Program I W α) (Q : α → σ → Prop) : Prop :=
  ∀ s, P s → (∃ a s', Runs D p s a s') ∧ ∀ a s', Runs D p s a s' → Q a s'

/-- A run of two programs is a run of the first one and a run of the second one. -/
theorem runs_bind_iff {f : α → Program I W β} {s s' : σ} {b : β} :
    Runs D (p >>= f) s b s' ↔ ∃ a s₁, Runs D p s a s₁ ∧ Runs D (f a) s₁ b s' := by
  constructor
  · intro runs
    induction p generalizing s with
    | pure a => exact ⟨a, s, .pure, runs⟩
    | load index rest ih =>
        cases runs with
        | @load _ _ _ _ _ word _ access runs =>
            rcases ih word runs with ⟨a, s₁, first, second⟩
            exact ⟨a, s₁, .load access first, second⟩
    | store index word rest ih =>
        cases runs with
        | store access runs =>
            rcases ih runs with ⟨a, s₁, first, second⟩
            exact ⟨a, s₁, .store access first, second⟩
    | undefined => cases runs
  · intro both
    rcases both with ⟨a, s₁, first, second⟩
    induction first with
    | pure => exact second
    | load access _ ih => exact .load access (ih second)
    | store access _ ih => exact .store access (ih second)

theorem Triple.pure {a : α} (post : ∀ s, P s → Q a s) : Triple D P (Pure.pure a) Q := by
  intro s pre
  refine ⟨⟨a, s, .pure⟩, fun a' s' runs => ?_⟩
  cases runs
  exact post s pre

theorem Triple.bind {f : α → Program I W β} {R : β → σ → Prop} (first : Triple D P p Q)
    (second : ∀ a, Triple D (Q a) (f a) R) : Triple D P (p >>= f) R := by
  intro s pre
  rcases first s pre with ⟨⟨a, s₁, runs⟩, post⟩
  constructor
  · rcases (second a s₁ (post a s₁ runs)).1 with ⟨b, s', runs'⟩
    exact ⟨b, s', runs_bind_iff.mpr ⟨a, s₁, runs, runs'⟩⟩
  · intro b s' both
    rcases runs_bind_iff.mp both with ⟨a', s₂, runs₁, runs₂⟩
    exact (second a' s₂ (post a' s₂ runs₁)).2 b s' runs₂

/-- The same when the result of the first program is known. -/
theorem Triple.bind_of {f : α → Program I W β} {P' : σ → Prop} {R : β → σ → Prop} {a : α}
    (first : Triple D P p fun r s => r = a ∧ P' s) (second : Triple D P' (f a) R) :
    Triple D P (p >>= f) R :=
  first.bind fun _ s pre => by
    rcases pre with ⟨rfl, pre⟩
    exact second s pre

/-- A program that is defined on the memory, on a device that refines it. -/
theorem Refines.triple {M : Memory I W μ} {Inv : σ → Prop} {view : σ → μ}
    (refines : Refines D M Inv view) {m m' : μ} {a : α} (defined : p.exec M m = some (a, m')) :
    Triple D (fun s => Inv s ∧ view s = m) p fun r s => r = a ∧ Inv s ∧ view s = m' := by
  intro s pre
  rcases pre with ⟨inv, rfl⟩
  rcases runs_of_exec refines inv defined with ⟨s', runs⟩
  exact ⟨⟨a, s', runs⟩, fun r s₁ runs' => exec_of_runs refines runs' inv defined⟩

end Triple

/-! ## Two memories side by side -/

section Sum

variable {J ν τ : Type}

/-- The same program on other indices. -/
def mapIndex (f : I → J) : Program I W α → Program J W α
  | .pure a => .pure a
  | .load index rest => .load (f index) fun word => (rest word).mapIndex f
  | .store index word rest => .store (f index) word (rest.mapIndex f)
  | .undefined => .undefined

/-- Two memories, each with its own indices. -/
def Memory.sum (M : Memory I W μ) (M' : Memory J W ν) : Memory (I ⊕ J) W (μ × ν) where
  read m
    | .inl index => M.read m.1 index
    | .inr index => M'.read m.2 index
  write m
    | .inl index, word => (M.write m.1 index word).map fun m₁ => (m₁, m.2)
    | .inr index, word => (M'.write m.2 index word).map fun m₂ => (m.1, m₂)

/-- A program on the first memory leaves the second one. -/
theorem exec_mapIndex_inl (M : Memory I W μ) (M' : Memory J W ν) (p : Program I W α) (m : μ)
    (m' : ν) :
    (p.mapIndex Sum.inl).exec (M.sum M') (m, m') = (p.exec M m).map fun r => (r.1, r.2, m') := by
  induction p generalizing m with
  | pure a => rfl
  | load index rest ih =>
      simp only [mapIndex, exec, Memory.sum]
      cases M.read m index with
      | none => rfl
      | some word => exact ih word m
  | store index word rest ih =>
      simp only [mapIndex, exec, Memory.sum]
      cases M.write m index word with
      | none => rfl
      | some m₁ => exact ih m₁
  | undefined => rfl

theorem exec_mapIndex_inr (M : Memory I W μ) (M' : Memory J W ν) (p : Program J W α) (m : μ)
    (m' : ν) :
    (p.mapIndex Sum.inr).exec (M.sum M') (m, m') = (p.exec M' m').map fun r => (r.1, m, r.2) := by
  induction p generalizing m' with
  | pure a => rfl
  | load index rest ih =>
      simp only [mapIndex, exec, Memory.sum]
      cases M'.read m' index with
      | none => rfl
      | some word => exact ih word m'
  | store index word rest ih =>
      simp only [mapIndex, exec, Memory.sum]
      cases M'.write m' index word with
      | none => rfl
      | some m₂ => exact ih m₂
  | undefined => rfl

theorem exec_inl_of {M : Memory I W μ} {p : Program I W α} {m m₁ : μ} {a : α}
    (runs : p.exec M m = some (a, m₁)) (M' : Memory J W ν) (m' : ν) :
    (p.mapIndex Sum.inl).exec (M.sum M') (m, m') = some (a, m₁, m') := by
  rw [exec_mapIndex_inl, runs, Option.map_some]

theorem exec_inr_of {M' : Memory J W ν} {p : Program J W α} {m' m₁ : ν} {a : α}
    (runs : p.exec M' m' = some (a, m₁)) (M : Memory I W μ) (m : μ) :
    (p.mapIndex Sum.inr).exec (M.sum M') (m, m') = some (a, m, m₁) := by
  rw [exec_mapIndex_inr, runs, Option.map_some]

/-- Two devices on one bus. While one of them is accessed the other one rests,
which may change its state as well. -/
def Device.sum (D : Device I W σ) (rest : σ → σ → Prop) (D' : Device J W τ)
    (rest' : τ → τ → Prop) : Device (I ⊕ J) W (σ × τ) where
  load s index word s' :=
    match index with
    | .inl index => D.load s.1 index word s'.1 ∧ rest' s.2 s'.2
    | .inr index => rest s.1 s'.1 ∧ D'.load s.2 index word s'.2
  store s index word s' :=
    match index with
    | .inl index => D.store s.1 index word s'.1 ∧ rest' s.2 s'.2
    | .inr index => rest s.1 s'.1 ∧ D'.store s.2 index word s'.2

/-- Resting can take no time, and keeps the invariant and what the device shows. -/
structure Settles (rest : σ → σ → Prop) (Inv : σ → Prop) (view : σ → μ) : Prop where
  refl : ∀ s, rest s s
  kept : ∀ {s s'}, Inv s → rest s s' → Inv s' ∧ view s' = view s

theorem Settles.eq (Inv : σ → Prop) (view : σ → μ) : Settles Eq Inv view where
  refl _ := rfl
  kept := by
    intro s s' inv same
    cases same
    exact ⟨inv, rfl⟩

/-- The refinement rule for two devices. -/
theorem Refines.sum {D : Device I W σ} {M : Memory I W μ} {Inv : σ → Prop} {view : σ → μ}
    {D' : Device J W τ} {M' : Memory J W ν} {Inv' : τ → Prop} {view' : τ → ν}
    {rest : σ → σ → Prop} {rest' : τ → τ → Prop} (refines : Refines D M Inv view)
    (settles : Settles rest Inv view) (refines' : Refines D' M' Inv' view')
    (settles' : Settles rest' Inv' view') :
    Refines (D.sum rest D' rest') (M.sum M') (fun s => Inv s.1 ∧ Inv' s.2)
      (Prod.map view view') where
  load := by
    intro s index word s' word' inv access defined
    rcases index with index | index
    · rcases refines.load inv.1 access.1 defined with ⟨value, inv₁, same⟩
      rcases settles'.kept inv.2 access.2 with ⟨inv₂, same'⟩
      exact ⟨value, ⟨inv₁, inv₂⟩, Prod.ext same same'⟩
    · rcases settles.kept inv.1 access.1 with ⟨inv₁, same⟩
      rcases refines'.load inv.2 access.2 defined with ⟨value, inv₂, same'⟩
      exact ⟨value, ⟨inv₁, inv₂⟩, Prod.ext same same'⟩
  store := by
    intro s index word s' m inv access defined
    rcases index with index | index
    · rcases Option.map_eq_some_iff.mp defined with ⟨m₁, stored, rfl⟩
      rcases refines.store inv.1 access.1 stored with ⟨inv₁, same⟩
      rcases settles'.kept inv.2 access.2 with ⟨inv₂, same'⟩
      exact ⟨⟨inv₁, inv₂⟩, Prod.ext same same'⟩
    · rcases Option.map_eq_some_iff.mp defined with ⟨m₂, stored, rfl⟩
      rcases settles.kept inv.1 access.1 with ⟨inv₁, same⟩
      rcases refines'.store inv.2 access.2 stored with ⟨inv₂, same'⟩
      exact ⟨⟨inv₁, inv₂⟩, Prod.ext same same'⟩
  serves_load := by
    intro s index word inv defined
    rcases index with index | index
    · rcases refines.serves_load inv.1 defined with ⟨word', s', access⟩
      exact ⟨word', (s', s.2), access, settles'.refl s.2⟩
    · rcases refines'.serves_load inv.2 defined with ⟨word', s', access⟩
      exact ⟨word', (s.1, s'), settles.refl s.1, access⟩
  serves_store := by
    intro s index word m inv defined
    rcases index with index | index
    · rcases Option.map_eq_some_iff.mp defined with ⟨m₁, stored, -⟩
      rcases refines.serves_store inv.1 stored with ⟨s', access⟩
      exact ⟨(s', s.2), access, settles'.refl s.2⟩
    · rcases Option.map_eq_some_iff.mp defined with ⟨m₂, stored, -⟩
      rcases refines'.serves_store inv.2 stored with ⟨s', access⟩
      exact ⟨(s.1, s'), settles.refl s.1, access⟩

/-- A memory is a device. -/
def Memory.device (M : Memory I W μ) : Device I W μ where
  load m index word m' := M.read m index = some word ∧ m' = m
  store m index word m' := M.write m index word = some m'

theorem Memory.device_refines (M : Memory I W μ) : Refines M.device M (fun _ => True) id where
  load := by
    intro m index word m' word' _ access defined
    rcases access with ⟨found, rfl⟩
    exact ⟨Option.some.inj (found.symm.trans defined), trivial, rfl⟩
  store := by
    intro m index word m' m₁ _ stored defined
    exact ⟨trivial, Option.some.inj (stored.symm.trans defined)⟩
  serves_load := by
    intro m index word _ defined
    exact ⟨word, m, defined, rfl⟩
  serves_store := by
    intro m index word m' _ defined
    exact ⟨m', defined⟩

end Sum

end Program

end CirclePlotter
