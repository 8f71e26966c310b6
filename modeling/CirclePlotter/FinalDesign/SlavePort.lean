import CirclePlotter.FinalDesign.Cycle
import CirclePlotter.Software

/-!
# The idle slave port is a byte memory

While the coprocessor is quiescent, the twelve RAMs behind the slave port act as
one byte memory, the OR of the twelve, even when drawings left different bytes
in them: a store goes to all of them, and a read ORs them.

* `PortCycle` are the cycles allowed on the port and `PortOp` what they mean.
* `portCycle_refines` is the step: each cycle does to the screen what its
  operation does, and the next cycle carries the answer.
* `slaveDevice_refines` turns the port into a device for programs, so the C
  functions of the software act as on a plain byte array.
-/

namespace CirclePlotter.FinalDesign

open Sync

/-! ## Operations of a byte memory -/

inductive PortOp where
  | idle
  | read (a : BitVec 15)
  | store (a : BitVec 15) (b : BitVec 8)

namespace PortOp

def apply (mem : ByteMem) : PortOp → ByteMem
  | .store a b => Function.update mem a b
  | _ => mem

/-- The answer to a read. -/
def answer (mem : ByteMem) : PortOp → Option (BitVec 8)
  | .read a => some (mem a)
  | _ => none

end PortOp

/-- A cycle on the slave port with `read` and `write` not both high. Stores and
reads address the screen; `w[31:26] = 0` makes a word a store. -/
inductive PortCycle (i : BusIn) : PortOp → Prop
  | idle : i.read = false → i.write = false → i.address < 0x40000 → PortCycle i .idle
  | read (a : BitVec 15) : i.read = true → i.write = false → i.address = a.setWidth 19 →
    PortCycle i (.read a)
  | store (a : BitVec 15) : i.read = false → i.write = true → i.address = a.setWidth 19 →
    i.writedata.extractLsb' 26 6 = 0 → PortCycle i (.store a (i.writedata.setWidth 8))

namespace PortCycle

variable {i : BusIn} {op : PortOp}

theorem address_lt (cycle : PortCycle i op) : i.address < 0x40000 := by
  have small (a : BitVec 15) : a.setWidth 19 < (0x40000 : BitVec 19) := by
    rw [BitVec.lt_def, BitVec.toNat_setWidth]
    have := a.isLt
    change _ < 262144
    omega
  cases cycle with
  | idle _ _ below => exact below
  | read a _ _ address => exact address ▸ small a
  | store a _ _ address _ => exact address ▸ small a

theorem not_readstate (cycle : PortCycle i op) : i.readstate = false := by
  have below := cycle.address_lt
  rw [BusIn.readstate, beq_eq_false_iff_ne]
  intro status
  rw [status] at below
  exact absurd below (by decide)

theorem not_writestart (cycle : PortCycle i op) : i.writestart = false := by
  have below := cycle.address_lt
  rw [BusIn.writestart, Bool.and_eq_false_iff, beq_eq_false_iff_ne]
  refine .inl ?_
  intro start
  rw [start] at below
  exact absurd below (by decide)

theorem broadcast_eq (cycle : PortCycle i op) :
    i.broadcast = (i.writedata.extractLsb' 26 6 == 0) := by
  have below := cycle.address_lt
  have low : i.address.getLsbD 18 = false := by
    exact Nat.testBit_lt_two_pow below
  rw [BusIn.broadcast, low]
  simp

end PortCycle

/-! ## The twelve RAMs in one cycle -/

/-- What the bus presents at both ports of a RAM its engine does not use. -/
def BusIn.port (i : BusIn) : RamPort 15 8 :=
  ⟨if i.stores then i.writedata.setWidth 8 else 0, i.address.setWidth 15, i.stores⟩

theorem BusIn.port_addr {i : BusIn} {a : BitVec 15} (address : i.address = a.setWidth 19) :
    i.port.addr = a := by
  simp only [BusIn.port, address]
  rw [BitVec.setWidth_setWidth_of_le _ (by decide), BitVec.setWidth_eq]

namespace PlotCircle

variable {k : ℕ} {mem : BitVec 18 → BitVec 32} {s : PlotCircle} {i : BusIn} {j : Fin 12}

theorem idle_port (m : PlotPixel) : (m.idle (s.pixelIn i j)).portA = i.port := by
  have address : ((s.pixelIn i j).address).setWidth 15 = i.address.setWidth 15 :=
    BitVec.setWidth_setWidth_of_le _ (by decide)
  cases stores : i.stores with
  | true =>
      have word : (s.pixelIn i j).writedata = i.writedata := by
        simp [pixelIn, writedatac, writecircle, stores]
      simp only [PlotPixel.idle, BusIn.port, pixelIn_store, stores, address, word, if_true]
  | false => simp [PlotPixel.idle, BusIn.port, stores, address]

/-- In a quiescent coprocessor an engine makes one tick, with the bus at both ports. -/
theorem engine_of_quiescent (idle : s.Quiescent) :
    (cycle k mem s i).p j =
      { s.p j with lread := i.readcircle, ram0 := (s.p j).ram0.tick i.port i.port } := by
  have held : s.dispatching = false := by simp [dispatching, idle.offset]
  have quiet : (s.pixelIn i j).load = false := by rw [pixelIn_load, held]; rfl
  change s.burst i j (s.ticks k) = _
  rw [ticks, if_pos idle.state]
  change (s.p j).tick _ = _
  rw [PlotPixel.tick_rest quiet (idle.engines j), PlotPixel.tick_ram0,
    PlotPixel.control_rest (idle.engines j), ← idle_port (s := s) (j := j) (s.p j)]
  rfl

theorem rdfinal_of_quiescent (idle : s.Quiescent) {a : BitVec 15}
    (same : ∀ j, (s.p j).ram0.qA = (s.p j).ram0.ram a) : s.rdfinal k i = s.screen a := by
  simp only [rdfinal, settled_of_wait idle.state, PlotPixel.readdata, same, screen]

/-- The OR of twelve equal bytes. -/
theorem screen_of_const {a : BitVec 15} {b : BitVec 8} (same : ∀ j, (s.p j).ram0.ram a = b) :
    s.screen a = b := by
  have scan (js : List (Fin 12)) (acc : BitVec 8) :
      js.foldl (fun acc _ => b ||| acc) acc = if js = [] then acc else b ||| acc := by
    induction js generalizing acc with
    | nil => rfl
    | cons j js ih =>
        rw [List.foldl_cons, ih, if_neg (List.cons_ne_nil j js)]
        split
        · rfl
        · rw [← BitVec.or_assoc, BitVec.or_self]
  simp only [screen, same, scan]
  rw [if_neg (by decide)]
  exact BitVec.or_zero

/-! ## One cycle on the port -/

/-- The next cycle `i'` carries the answer, and only the answer. -/
structure Answers (k : ℕ) (s : PlotCircle) (i' : BusIn) (answer : Option (BitVec 8)) : Prop where
  readdatavalid : s.readdatavalid k i' = answer.isSome
  readdata : ∀ b ∈ answer, s.readdata k i' = b.setWidth 32

theorem quiescent_of_portCycle (idle : s.Quiescent) {op : PortOp} (port : PortCycle i op) :
    (cycle k mem s i).Quiescent := by
  refine ⟨idle.toIdle.cycle port.not_writestart, fun j => ?_⟩
  rw [engine_of_quiescent idle]
  exact idle.engines j

/-- A cycle on the port of a quiescent coprocessor does to the screen what its
operation does to a byte memory, and the next cycle carries the answer. -/
theorem portCycle_refines (k : ℕ) (mem : BitVec 18 → BitVec 32) (idle : s.Quiescent) {op : PortOp}
    (port : PortCycle i op) :
    (cycle k mem s i).screen = op.apply s.screen ∧
      ∀ i', i'.readstate = false → (cycle k mem s i).Answers k i' (op.answer s.screen) := by
  have next : (cycle k mem s i).Quiescent := quiescent_of_portCycle idle port
  have ram (silent : i.stores = false) (j : Fin 12) :
      ((cycle k mem s i).p j).ram0.ram = (s.p j).ram0.ram := by
    rw [engine_of_quiescent idle]
    exact DualPortRam.tick_ram_of_not_we _ silent silent
  have same (silent : i.stores = false) : (cycle k mem s i).screen = s.screen := by
    funext a
    simp only [screen, ram silent]
  have lread (j : Fin 12) : ((cycle k mem s i).p j).lread = i.readcircle := by
    rw [engine_of_quiescent idle]
  have valid (i' : BusIn) : (cycle k mem s i).rdvfinal k i' = i.readcircle :=
    rdvfinal_of_settled fun j => by rw [settled_of_wait next.state, lread]
  have silence (notRead : i.readcircle = false) (i' : BusIn) (data : i'.readstate = false) :
      (cycle k mem s i).Answers k i' none :=
    ⟨by rw [readdatavalid, valid, data, notRead]; rfl, nofun⟩
  have notStatus := port.not_readstate
  have broadcast := port.broadcast_eq
  cases port with
  | idle notRead notWrite below =>
      have silent : i.stores = false := by simp [BusIn.stores, notWrite]
      exact ⟨same silent, silence (by simp [BusIn.readcircle, notRead])⟩
  | read a reads notWrite address =>
      have silent : i.stores = false := by simp [BusIn.stores, notWrite]
      have here := BusIn.port_addr address
      have shown (j : Fin 12) : ((cycle k mem s i).p j).ram0.qA =
          ((cycle k mem s i).p j).ram0.ram a := by
        rw [ram silent, engine_of_quiescent idle, ← here]
        exact if_neg (by simp [BusIn.port, silent])
      refine ⟨same silent, fun i' data => ⟨?_, fun b found => ?_⟩⟩
      · simp [readdatavalid, valid, BusIn.readcircle, reads, notStatus, PortOp.answer]
      · cases found
        rw [readdata, data, rdfinal_of_quiescent next shown, same silent]
        rfl
  | store a notRead writes address word =>
      have stores : i.stores = true := by simp [BusIn.stores, broadcast, word, writes]
      have here := BusIn.port_addr address
      have stored (j : Fin 12) : ((cycle k mem s i).p j).ram0.ram =
          Function.update (s.p j).ram0.ram a (i.writedata.setWidth 8) := by
        have on : i.port.we = true := stores
        have data : i.port.data = i.writedata.setWidth 8 := by simp [BusIn.port, stores]
        rw [engine_of_quiescent idle]
        simp only [DualPortRam.tick, DualPortRam.write_of_we _ on, here, data,
          Function.update_idem]
      refine ⟨?_, silence (by simp [BusIn.readcircle, notRead])⟩
      funext a'
      by_cases hit : a' = a
      · subst hit
        rw [screen_of_const fun j => by rw [stored, Function.update_self]]
        exact (Function.update_self a' _ s.screen).symm
      · simp only [screen, stored, PortOp.apply, Function.update_of_ne hit]

/-- Along a whole run on the port: the coprocessor stays quiescent, its screen is
the byte memory the operations describe, and each cycle is answered in the next
with what the memory held. -/
theorem port_refines_memory (k : ℕ) (mem : BitVec 18 → BitVec 32) (idle : s.Quiescent)
    {ins : ℕ → BusIn} {ops : ℕ → PortOp} (port : ∀ n, PortCycle (ins n) (ops n)) (n : ℕ) :
    (run k mem s ins n).Quiescent ∧
      (run k mem s ins n).screen = Sync.run PortOp.apply s.screen ops n ∧
      (run k mem s ins (n + 1)).Answers k (ins (n + 1))
        ((ops n).answer (Sync.run PortOp.apply s.screen ops n)) := by
  obtain ⟨rest, same⟩ : (run k mem s ins n).Quiescent ∧
      (run k mem s ins n).screen = Sync.run PortOp.apply s.screen ops n :=
    run_related (R := fun (t : PlotCircle) (m : ByteMem) => t.Quiescent ∧ t.screen = m) ⟨idle, rfl⟩
    (fun n t m ⟨rest, same⟩ => by
      refine ⟨quiescent_of_portCycle rest (port n), ?_⟩
      rw [(portCycle_refines k mem rest (port n)).1, same]) n
  refine ⟨rest, same, ?_⟩
  rw [← same]
  exact (portCycle_refines k mem rest (port n)).2 _ (port (n + 1)).not_readstate

/-! ## Programs on the port -/

/-- `s'` is reached from `s` by idle cycles. -/
def Rests (k : ℕ) (mem : BitVec 18 → BitVec 32) : PlotCircle → PlotCircle → Prop :=
  Relation.ReflTransGen fun s s' => ∃ i, PortCycle i .idle ∧ s' = cycle k mem s i

/-- The slave port as the processor uses it for `screen[index]`: after any number
of idle cycles, a load is a read cycle and the cycle that carries the answer, a
store is a write cycle. -/
def slaveDevice (k : ℕ) (mem : BitVec 18 → BitVec 32) :
    Program.Device (BitVec 32) (BitVec 32) PlotCircle where
  load s index word s' := ∃ s₁ i i', Rests k mem s s₁ ∧
    (i.read = true ∧ i.write = false ∧ i.address = index.setWidth 19) ∧ PortCycle i' .idle ∧
    (cycle k mem s₁ i).readdatavalid k i' = true ∧ word = (cycle k mem s₁ i).readdata k i' ∧
    s' = cycle k mem (cycle k mem s₁ i) i'
  store s index word s' := ∃ s₁ i, Rests k mem s s₁ ∧
    (i.read = false ∧ i.write = true ∧ i.address = index.setWidth 19 ∧ i.writedata = word) ∧
    s' = cycle k mem s₁ i

/-- The screen, and only words with `w[31:26] = 0` may be stored. -/
def storableMemory : Program.Memory (BitVec 32) (BitVec 32) ByteMem where
  read := screenMemory.read
  write mem index word :=
    if word.extractLsb' 26 6 = 0 then screenMemory.write mem index word else none

theorem quiescent_of_rests {s' : PlotCircle} (idle : s.Quiescent) (rests : Rests k mem s s') :
    s'.Quiescent ∧ s'.screen = s.screen := by
  induction rests with
  | refl => exact ⟨idle, rfl⟩
  | tail _ step ih =>
      obtain ⟨i, port, rfl⟩ := step
      refine ⟨quiescent_of_portCycle ih.1 port, ?_⟩
      rw [(portCycle_refines k mem ih.1 port).1]
      exact ih.2

theorem setWidth_index {index : BitVec 32} (inRange : index < 32768) :
    (index.setWidth 15).setWidth 19 = index.setWidth 19 := by
  have below : index.toNat < 32768 := inRange
  apply BitVec.eq_of_toNat_eq
  simp only [BitVec.toNat_setWidth]
  omega

/-- The word at an index in range, and only there. -/
theorem read_eq_some {μ : ByteMem} {index word : BitVec 32}
    (defined : storableMemory.read μ index = some word) :
    index < 32768 ∧ word = (μ (index.setWidth 15)).setWidth 32 := by
  simp only [storableMemory, screenMemory] at defined
  split at defined
  · next inRange => exact ⟨inRange, (Option.some.inj defined).symm⟩
  · cases defined

theorem write_eq_some {μ μ' : ByteMem} {index word : BitVec 32}
    (defined : storableMemory.write μ index word = some μ') :
    word.extractLsb' 26 6 = 0 ∧ index < 32768 ∧
      μ' = Function.update μ (index.setWidth 15) (word.setWidth 8) := by
  simp only [storableMemory, screenMemory] at defined
  split at defined
  · next storable =>
      split at defined
      · next inRange => exact ⟨storable, inRange, (Option.some.inj defined).symm⟩
      · cases defined
  · cases defined

/-- The slave port serves the accesses of a byte memory, and as one. -/
theorem slaveDevice_refines :
    Program.Refines (slaveDevice k mem) storableMemory Quiescent screen where
  load := by
    intro s index _ _ word' idle access defined
    rcases access with ⟨s₁, i, i', rests, ⟨reads, notWrite, address⟩, after, -, rfl, rfl⟩
    obtain ⟨inRange, rfl⟩ := read_eq_some defined
    obtain ⟨idle₁, same⟩ := quiescent_of_rests idle rests
    have port : PortCycle i (.read (index.setWidth 15)) :=
      .read _ reads notWrite (address.trans (setWidth_index inRange).symm)
    obtain ⟨same₁, answers⟩ := portCycle_refines k mem idle₁ port
    have idle₂ : (cycle k mem s₁ i).Quiescent := quiescent_of_portCycle idle₁ port
    refine ⟨?_, quiescent_of_portCycle idle₂ after, ?_⟩
    · rw [(answers i' after.not_readstate).readdata _ rfl, same]
    · rw [(portCycle_refines k mem idle₂ after).1, same₁, ← same]
      rfl
  store := by
    intro s index word _ μ idle access defined
    rcases access with ⟨s₁, i, rests, ⟨notRead, writes, address, rfl⟩, rfl⟩
    obtain ⟨storable, inRange, rfl⟩ := write_eq_some defined
    obtain ⟨idle₁, same⟩ := quiescent_of_rests idle rests
    have port : PortCycle i (.store (index.setWidth 15) (i.writedata.setWidth 8)) :=
      .store _ notRead writes (address.trans (setWidth_index inRange).symm) storable
    refine ⟨quiescent_of_portCycle idle₁ port, ?_⟩
    rw [(portCycle_refines k mem idle₁ port).1, same]
    rfl
  serves_load := by
    intro s index word idle defined
    obtain ⟨inRange, rfl⟩ := read_eq_some defined
    have port : PortCycle ⟨true, index.setWidth 19, false, 0⟩ (.read (index.setWidth 15)) :=
      .read _ rfl rfl (setWidth_index inRange).symm
    have after : PortCycle ⟨false, 0, false, 0⟩ .idle := .idle rfl rfl (by decide)
    have answers := (portCycle_refines k mem idle port).2 _ after.not_readstate
    exact ⟨_, _, s, _, _, .refl, ⟨rfl, rfl, rfl⟩, after, answers.readdatavalid, rfl, rfl⟩
  serves_store := by
    intro s index word μ _ _
    exact ⟨_, s, ⟨false, index.setWidth 19, true, word⟩, .refl, ⟨rfl, rfl, rfl, rfl⟩, rfl⟩

/-! ## The functions of the software -/

theorem read_of_lt (μ : ByteMem) {index : BitVec 32} (inRange : index < 32768) :
    storableMemory.read μ index = some ((μ (index.setWidth 15)).setWidth 32) :=
  if_pos inRange

theorem write_of_lt (μ : ByteMem) {index word : BitVec 32} (inRange : index < 32768)
    (storable : word.extractLsb' 26 6 = 0) :
    storableMemory.write μ index word =
      some (Function.update μ (index.setWidth 15) (word.setWidth 8)) := by
  simp only [storableMemory, screenMemory, if_pos storable, if_pos inRange]

/-- The word `setpixel` writes back is a pixel store. -/
theorem setpixel_storable (byte : BitVec 8) (x : BitVec 32) :
    (byte.setWidth 32 ||| 1#32 <<< (x % 8)).extractLsb' 26 6 = 0 := by
  have bit : (x % 8).toNat < 8 := Nat.mod_lt _ (by decide)
  apply BitVec.eq_of_getLsbD_eq
  intro b below
  have byte_low : byte.getLsbD (26 + b) = false := BitVec.getLsbD_of_ge byte _ (by omega)
  have bit_low : ¬ 26 + b - (x % 8).toNat = 0 := by omega
  rw [BitVec.getLsbD_extractLsb', BitVec.getLsbD_or, BitVec.shiftLeft_eq', BitVec.getLsbD_shiftLeft,
    BitVec.getLsbD_setWidth, byte_low, BitVec.getLsbD_one, decide_eq_false bit_low]
  simp

theorem setpixel_isSome (x y : BitVec 32) (μ : ByteMem) :
    ((setpixel x y).exec storableMemory μ).isSome := by
  unfold setpixel
  split
  · rfl
  · split
    · rfl
    · next hx hy =>
        have inRange := bytenum_lt (by simpa using hx) (by simpa using hy)
        simp only [Program.read, Program.write, Program.load_bind, Program.pure_bind',
          Program.exec, read_of_lt _ inRange, write_of_lt _ inRange (setpixel_storable _ x),
          Option.isSome_some]

theorem ofNat_inRange {n : ℕ} (mem : n ∈ List.range 32768) : BitVec.ofNat 32 n < 32768 := by
  have below := List.mem_range.mp mem
  rw [BitVec.lt_def, BitVec.toNat_ofNat]
  change _ < 32768
  omega

theorem clearscreen_isSome (μ : ByteMem) : (clearscreen.exec storableMemory μ).isSome := by
  have zero : (0 : BitVec 32).extractLsb' 26 6 = 0 := by decide
  refine Program.exec_forM_isSome _ _ (fun n mem μ => ?_) μ
  simp only [Program.write, Program.exec, write_of_lt μ (ofNat_inRange mem) zero,
    Option.isSome_some]

theorem checkscreen_isSome (μ : ByteMem) : (checkscreen.exec storableMemory μ).isSome := by
  refine Program.exec_foldlM_isSome _ _ (fun n mem v μ => ?_) 0 μ
  rw [Program.exec_bind]
  simp only [Program.read, Program.exec, read_of_lt μ (ofNat_inRange mem)]
  rfl

/-- On the slave port of `s` the program `p` acts as on a plain byte array that
holds the screen: it is defined there, it runs on the port, and however it runs
it has that outcome. -/
def ActsAsOnBytes (k : ℕ) (mem : BitVec 18 → BitVec 32) (s : PlotCircle) {α : Type}
    (p : CProgram α) : Prop :=
  ∃ a μ, p.exec screenMemory s.screen = some (a, μ) ∧
    (∃ s', Program.Runs (slaveDevice k mem) p s a s') ∧
    ∀ a' s', Program.Runs (slaveDevice k mem) p s a' s' → a' = a ∧ s'.Quiescent ∧ s'.screen = μ

theorem actsAsOnBytes {α : Type} {p : CProgram α} (idle : s.Quiescent)
    (defined : (p.exec storableMemory s.screen).isSome) : ActsAsOnBytes k mem s p := by
  obtain ⟨⟨a, μ⟩, outcome⟩ := Option.isSome_iff_exists.mp defined
  have plain : p.exec screenMemory s.screen = some (a, μ) := by
    refine Program.exec_mono (fun found => ?_) (fun stored => ?_) outcome
    · exact found
    · obtain ⟨-, inRange, rfl⟩ := write_eq_some stored
      exact if_pos inRange
  exact ⟨a, μ, plain, Program.runs_of_exec slaveDevice_refines idle outcome,
    fun a' s' runs => Program.exec_of_runs slaveDevice_refines runs idle outcome⟩

/-- The idle slave port is the byte memory the software believes in: cycle by
cycle for every run on the port, and so for `setpixel`, `clearscreen` and
`checkscreen`. -/
theorem slave_port_is_byte_memory (idle : s.Quiescent) {ins : ℕ → BusIn} {ops : ℕ → PortOp}
    (port : ∀ n, PortCycle (ins n) (ops n)) :
    (∀ n, (run k mem s ins n).Quiescent ∧
      (run k mem s ins n).screen = Sync.run PortOp.apply s.screen ops n ∧
      (run k mem s ins (n + 1)).Answers k (ins (n + 1))
        ((ops n).answer (Sync.run PortOp.apply s.screen ops n))) ∧
    ∀ n, (∀ x y, ActsAsOnBytes k mem (run k mem s ins n) (setpixel x y)) ∧
      ActsAsOnBytes k mem (run k mem s ins n) clearscreen ∧
      ActsAsOnBytes k mem (run k mem s ins n) checkscreen := by
  have refines := port_refines_memory k mem idle port
  exact ⟨refines, fun n => ⟨fun x y => actsAsOnBytes (refines n).1 (setpixel_isSome x y _),
    actsAsOnBytes (refines n).1 (clearscreen_isSome _),
    actsAsOnBytes (refines n).1 (checkscreen_isSome _)⟩⟩

/-- RAM `j` holds the low byte of `a + j` at each address `a`. -/
def mottled : PlotCircle :=
  { blank with
    p := fun j =>
      { PlotPixel.blank with ram0 := ⟨fun a => a.setWidth 8 + BitVec.ofNat 8 j, 0, 0⟩ } }

theorem quiescent_mottled : Quiescent mottled := ⟨⟨rfl, rfl⟩, fun _ => rfl⟩

/-- A store to byte 77, and a read of it. -/
def storeThenRead : ℕ → BusIn
  | 0 => ⟨false, 77, true, 0x50⟩
  | 1 => ⟨true, 77, false, 0⟩
  | _ => .rest

def storeThenReadOps : ℕ → PortOp
  | 0 => .store 77 0x50
  | 1 => .read 77
  | _ => .idle

theorem portCycle_storeThenRead (n : ℕ) : PortCycle (storeThenRead n) (storeThenReadOps n) := by
  rcases n with _ | _ | n
  · exact .store 77 rfl rfl rfl (by decide)
  · exact .read 77 rfl rfl rfl
  · exact .idle rfl rfl (by decide : BusIn.rest.address < 0x40000)

/-- Twelve RAMs with different bytes answer the read with the byte stored. -/
theorem slave_port_is_byte_memory_storeThenRead :
    (∀ n, (run 2 (fun _ => 0) mottled storeThenRead n).Quiescent ∧
      (run 2 (fun _ => 0) mottled storeThenRead n).screen =
        Sync.run PortOp.apply mottled.screen storeThenReadOps n ∧
      (run 2 (fun _ => 0) mottled storeThenRead (n + 1)).Answers 2 (storeThenRead (n + 1))
        ((storeThenReadOps n).answer (Sync.run PortOp.apply mottled.screen storeThenReadOps n))) ∧
    (∀ n, (∀ x y, ActsAsOnBytes 2 (fun _ => 0) (run 2 (fun _ => 0) mottled storeThenRead n)
        (setpixel x y)) ∧
      ActsAsOnBytes 2 (fun _ => 0) (run 2 (fun _ => 0) mottled storeThenRead n) clearscreen ∧
      ActsAsOnBytes 2 (fun _ => 0) (run 2 (fun _ => 0) mottled storeThenRead n) checkscreen) ∧
    (run 2 (fun _ => 0) mottled storeThenRead 2).Answers 2 .rest (some 0x50) := by
  rcases @slave_port_is_byte_memory 2 (fun _ => 0) _ quiescent_mottled _ _
    portCycle_storeThenRead with ⟨refines, functions⟩
  exact ⟨refines, functions, (refines 1).2.2⟩

end PlotCircle

end CirclePlotter.FinalDesign
