import CirclePlotter.Display
import CirclePlotter.FinalDesign.SlavePort

/-!
# The screen of the final design as text

`printscreen` reads the screen through the slave port, a byte for each pixel. What it
prints determines the screen.
-/

namespace CirclePlotter.FinalDesign

namespace PlotCircle

variable {k : ℕ} {mem : BitVec 18 → BitVec 32} {s t : PlotCircle}

theorem exec_printscreen (s : PlotCircle) :
    printscreen.exec storableMemory s.screen = some (screenText 512 s.screen, s.screen) := by
  have reads : storableMemory.read s.screen = screenMemory.read s.screen := rfl
  rw [printscreen, exec_printPixels reads (Nat.le_refl 512)]

/-- In a quiescent state `printscreen` runs on the slave port. However its reads fall
in time it prints one text and leaves the screen, and every quiescent coprocessor
for which it prints this text shows the same screen. -/
theorem printscreen_shows_screen (idle : s.Quiescent) :
    ∃ text, (∃ s', Program.Runs (slaveDevice k mem) printscreen s text s') ∧
      (∀ text' s', Program.Runs (slaveDevice k mem) printscreen s text' s' →
        text' = text ∧ s'.Quiescent ∧ s'.screen = s.screen) ∧
      ∀ t t' : PlotCircle, t.Quiescent → Program.Runs (slaveDevice k mem) printscreen t text t' →
        t.screen = s.screen := by
  refine ⟨screenText 512 s.screen,
    Program.runs_of_exec slaveDevice_refines idle (exec_printscreen s),
    fun text' s' runs => Program.exec_of_runs slaveDevice_refines runs idle (exec_printscreen s),
    fun t t' idle' runs => ?_⟩
  rcases Program.exec_of_runs slaveDevice_refines runs idle' (exec_printscreen t) with ⟨same, -, -⟩
  exact (screenText_inj same).symm

/-- A screen with lit pixels, from twelve different RAMs. -/
theorem printscreen_shows_screen_mottled :
    ∃ text, (∃ s', Program.Runs (slaveDevice 2 fun _ => 0) printscreen mottled text s') ∧
      (∀ text' s', Program.Runs (slaveDevice 2 fun _ => 0) printscreen mottled text' s' →
        text' = text ∧ s'.Quiescent ∧ s'.screen = mottled.screen) ∧
      ∀ t t' : PlotCircle, t.Quiescent →
        Program.Runs (slaveDevice 2 fun _ => 0) printscreen t text t' →
          t.screen = mottled.screen :=
  printscreen_shows_screen quiescent_mottled

end PlotCircle

end CirclePlotter.FinalDesign
