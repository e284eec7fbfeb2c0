import Dalvik.Proofs.Draft.Assembling
import Dalvik.Proofs.Draft.Outline
import Dalvik.Proofs.Outline.Reading

/-!
# Reachable drafts

A draft starts empty, as the copy of a finished method or as the outcome of an assembler, and then
undergoes any sequence of actions, some of which may fail (`Draft.Reachable`).  A copy of a draft is
the same value, so copying needs no case of its own.

All reachable drafts are sound, and therefore legal whenever they do not need relaxation
(`Draft.legal_of_reachable`).
-/

namespace Dalvik

namespace Draft

/-- The drafts that can come about. -/
inductive Reachable : Draft → Prop
  /-- A draft with nothing in it. -/
  | new (id : Nat) (registers : UInt16) : Reachable (.new id registers)
  /-- The draft of a finished method. -/
  | ofMethod {id : Nat} {m : Method} {d : Draft} (h : Draft.ofMethod id m = .ok d) : Reachable d
  /-- A draft that has been assembled. -/
  | build {s : Assembler} {d : Draft} (hs : s.Reachable) (h : s.build = .ok d) : Reachable d
  /-- Something has been done with a draft, or tried to be. -/
  | next {d : Draft} (h : Reachable d) (action : Action) : Reachable (action.next d)

variable {d : Draft}

/-- A draft that comes about is sound. -/
theorem Reachable.sound (h : d.Reachable) : d.Sound := by
  induction h with
  | new id registers =>
    have hbuild : (Assembler.new id registers).build = .ok (Draft.new id registers) := by
      simp [Assembler.build, Assembler.unplaced, Assembler.new]
    exact (Assembler.sound_new id registers).build hbuild
  | ofMethod h => exact sound_of_ofMethod h
  | build hs h => exact hs.sound.build h
  | next _ action ih => exact action.step.sound ih

/-- Whenever a draft does not need relaxation it is legal: as it stands, after it has been relaxed,
and after any action that does not ask for relaxation. -/
theorem legal_of_reachable (h : d.Reachable) :
    (d.needsRelaxation = false → d.Legal) ∧
      (∀ d', relax d = .ok () d' → d'.needsRelaxation = false ∧ d'.Legal) ∧
      ∀ action : Action, (action.next d).needsRelaxation = false → (action.next d).Legal := by
  refine ⟨h.sound.legal, fun d' hok => ?_, fun action => (h.next action).sound.legal⟩
  obtain ⟨hsound, hclean⟩ := h.sound.relaxed (relax_eq_ok_iff.1 hok)
  exact ⟨hclean, hsound.legal hclean⟩

/-- The draft after a sequence of actions. -/
def run (d : Draft) (actions : List Action) : Draft :=
  actions.foldl (fun d action => action.next d) d

theorem Reachable.run (h : d.Reachable) (actions : List Action) : (d.run actions).Reachable := by
  induction actions generalizing d with
  | nil => exact h
  | cons action rest ih => exact ih (h.next action)

/-- A table, a switch that names it, and data that has to be aligned. -/
def sample : Draft :=
  (new 0 1).run
    [.append (.data (.packed 0 [])), .labelAt 0, .append (.op .packedSwitch (.f31t 0 ⟨0, 0⟩)),
      .append (.data (.array 1 [7]))]

/-- The sample needs relaxation, which succeeds, and then it is legal. -/
theorem legal_of_reachable_sample :
    sample.Reachable ∧ sample.needsRelaxation = true ∧
      ∃ d', relax sample = .ok () d' ∧ d'.size = 4 ∧ d'.Legal := by
  have hsample : sample.Reachable := (Reachable.new 0 1).run _
  have hok : ∃ d', relax sample = .ok () d' ∧ d'.size = 4 := ⟨_, rfl, by decide +kernel⟩
  obtain ⟨d', hrelax, hsize⟩ := hok
  exact ⟨hsample, by decide +kernel, d', hrelax, hsize,
    ((legal_of_reachable hsample).2.1 d' hrelax).2⟩

end Draft

end Dalvik
