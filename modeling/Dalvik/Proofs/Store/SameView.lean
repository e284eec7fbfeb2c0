import Dalvik.Proofs.Draft.Likeness
import Dalvik.Proofs.Store.Failing

/-!
# Stores that look the same

Two stores look the same (`Store.SameView`) if they differ in nothing but labels, cells and what is known
about their relaxation, so that the instructions and handlers are the same once labels are replaced by
the positions that they denote.  How they came about may differ in any way, and one may need relaxation
while the other does not.  They are turned into the same method, or fail with the same error
(`Store.outcome_toMethod_of_sameView`).
-/

namespace Dalvik

/-- Lists whose elements convert alike, one after the other, convert alike. -/
theorem mapM_eq_of_map_eq {ε α β γ : Type} {f : α → Except ε γ} {g : β → Except ε γ} {xs : List α}
    {ys : List β} (h : xs.map f = ys.map g) : xs.mapM f = ys.mapM g := by
  have hid := congrArg (List.mapM (fun x => x)) h
  rwa [List.mapM_map, List.mapM_map] at hid

namespace Store

/-- Two stores look the same from outside: they agree position by position. -/
structure SameView (s t : Store) : Prop where
  /-- The number of registers is the same. -/
  registers : t.registers = s.registers
  /-- The instructions are the same, positions taken for labels. -/
  instructions : t.instructions.map (·.mapTargetsM t.labelIndex) =
    s.instructions.map (·.mapTargetsM s.labelIndex)
  /-- The same debug items are pinned to every position. -/
  items : t.cells.map (·.point.items.toList) = s.cells.map (·.point.items.toList)
  /-- The handlers are the same, positions taken for labels. -/
  tries : t.tries.toList.map (·.mapM t.labelIndex) = s.tries.toList.map (·.mapM s.labelIndex)

variable {s t : Store} {d e : Draft}

/-- Stores that look the same have the same outline. -/
theorem SameView.outline_eq (h : s.SameView t) (hs : s.Refines d) (ht : t.Refines e) :
    t.outline = s.outline := by
  have hsize : e.listing.size = d.listing.size := by
    have hlength := congrArg List.length h.items
    simpa [hs.tracks.cells_eq, ht.tracks.cells_eq] using hlength
  have hitems : t.cells.flatMap (fun cell => cell.point.items.toList.map (cell.index, ·)) =
      s.cells.flatMap fun cell => cell.point.items.toList.map (cell.index, ·) := by
    have hsame := h.items
    rw [ht.tracks.cells_eq, hs.tracks.cells_eq, hsize, List.map_map, List.map_map,
      List.map_inj_left] at hsame
    rw [ht.tracks.cells_eq, hs.tracks.cells_eq, hsize, List.flatMap_map, List.flatMap_map]
    exact List.flatMap_congr fun k hk => congrArg (List.map (k, ·)) (hsame k hk)
  rw [outline, outline, mapM_eq_of_map_eq h.instructions, mapM_eq_of_map_eq h.tries, hitems,
    h.registers]

/-- Stores that look the same come to the same method or to the same error, whatever has been done with
them. -/
theorem outcome_toMethod_of_sameView (hs : s.Reachable) (ht : t.Reachable) (h : s.SameView t) :
    outcome toMethod s = outcome toMethod t := by
  obtain ⟨d, hd, hsd⟩ := hs.exists_refines
  obtain ⟨e, he, hte⟩ := ht.exists_refines
  obtain ⟨o, ho⟩ := hd.sound.exists_outline
  have ho' : e.outline = .ok o := by
    rw [← hte.outline_eq, h.outline_eq hsd hte, hsd.outline_eq, ho]
  rw [(agree_toMethod hsd hd.sound).outcome_eq, (agree_toMethod hte he.sound).outcome_eq,
    Draft.outcome_toMethod, Draft.outcome_toMethod]
  exact Draft.finished_of_outline hd.sound he.sound ho ho'

/-- The sample, put together in another order under another identity.  A jump has come and gone, whose
label nothing uses any more, and it has not been relaxed. -/
def double : Store :=
  (new 7 1).run
    [.append (.data (.array 1 [7])), .insert 0 .nop, .labelAt 1, .insert 0 (.data (.packed 0 [])),
      .labelAt 0, .insert 1 (.op .packedSwitch (.f31t 0 ⟨7, 1⟩)), .append (.goto .byte ⟨7, 0⟩),
      .remove 4]

/-- The sample is relaxed and its double is not, but they come to the same method. -/
theorem outcome_toMethod_of_sameView_double :
    sample.Reachable ∧ double.Reachable ∧ sample.SameView double ∧
      sample.dirty = false ∧ double.dirty = true ∧ sample.places ≠ double.places ∧
      outcome toMethod sample = outcome toMethod double := by
  have hsample : sample.Reachable := (Reachable.new 0 1).run _
  have hdouble : double.Reachable := (Reachable.new 7 1).run _
  have hsame : sample.SameView double :=
    ⟨by decide +kernel, by decide +kernel, by decide +kernel, by decide +kernel⟩
  exact ⟨hsample, hdouble, hsame, by decide +kernel, by decide +kernel, by decide +kernel,
    outcome_toMethod_of_sameView hsample hdouble hsame⟩

end Store

end Dalvik
