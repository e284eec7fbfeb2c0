import Dalvik.Proofs.Draft.Faults
import Dalvik.Proofs.Store.Reachability

/-!
# When relaxation fails

Relaxation of a store fails exactly if there is something wrong with one of its switches, and the
error is that of the first one (`Store.relax_fails_iff`).  Labels are never a
reason, since in a reachable store all of them have been placed, and once the switches have found
their tables nothing can go wrong any more.

Whatever reads a store relaxes it first.  If that fails, so does the read, with the same error and in
the same state; otherwise the read goes on with the relaxed store.
-/

namespace Dalvik

namespace Store

variable {s s' : Store} {d : Draft} {e : Error}

/-- What is wrong with the switch at a position. -/
def Fault (s : Store) (k : Nat) (e : Error) : Prop :=
  Code.Fault s.labelIndex s.instructions k e

namespace Refines

theorem fault_iff (h : s.Refines d) {k : Nat} :
    s.Fault k e ↔ Code.Fault d.locate d.listing.instructions k e := by
  rw [Fault, h.labelIndex_eq, h.tracks.instructions_eq]

theorem exists_relax_eq_error_iff (h : s.Refines d) (hd : d.Sound) :
    (∃ s', relax s = .error e s') ↔ d.relaxed = .error e := by
  have hagree := agree_relax h hd
  constructor
  · rintro ⟨s', hs'⟩
    rw [hs'] at hagree
    generalize hy : Draft.relax d = r at hagree
    cases hagree with
    | error _ h' => exact (Draft.relax_eq_error_iff.1 hy).1
  · intro herror
    rw [Draft.relax_eq_error_iff.2 ⟨herror, rfl⟩] at hagree
    generalize relax s = r at hagree
    cases hagree with
    | error _ h' => exact ⟨_, rfl⟩

theorem exists_relax_eq_ok_iff (h : s.Refines d) (hd : d.Sound) :
    (∃ s', relax s = .ok ⟨⟩ s') ↔ ∃ d', d.relaxed = .ok d' := by
  have hagree := agree_relax h hd
  constructor
  · rintro ⟨s', hs'⟩
    obtain ⟨d', hd', -⟩ := hagree.exists_of_ok hs'
    exact ⟨d', Draft.relax_eq_ok_iff.1 hd'⟩
  · rintro ⟨d', hd'⟩
    rw [Draft.relax_eq_ok_iff.2 hd'] at hagree
    generalize relax s = r at hagree
    cases hagree with
    | ok _ h' => exact ⟨_, rfl⟩

end Refines

/-! ### Reads -/

/-- A read that starts with an action that fails does so itself. -/
theorem reads_of_relax_eq_error (h : relax s = .error e s') :
    readInstructions s = .error e s' ∧ readLocations s = .error e s' ∧
      readTries s = .error e s' ∧ readDebugItems s = .error e s' ∧
      (∀ label, readAddress label s = .error e s') ∧ toMethod s = .error e s' :=
  ⟨run_bind_of_error h _, run_bind_of_error h _, run_bind_of_error h _, run_bind_of_error h _,
    fun _ => run_bind_of_error h _, run_bind_of_error h _⟩

/-- A read gives what the relaxed store says, and leaves it as it is. -/
theorem reads_of_relax_eq_ok (h : relax s = .ok ⟨⟩ s') :
    readInstructions s = .ok s'.instructions s' ∧ readLocations s = .ok s'.locations s' ∧
      readTries s = .ok s'.tries.toList s' ∧ readDebugItems s = .ok s'.addressedDebugItems s' ∧
      (∀ label, readAddress label s = require ((s'.cellOf label).map (·.address)) s') ∧
      toMethod s = require (s'.outline >>= (·.toMethod s'.switchIndex?)) s' := by
  refine ⟨run_bind_of_ok h _, run_bind_of_ok h _, run_bind_of_ok h _, run_bind_of_ok h _,
    fun label => (run_bind_of_ok h _).trans ?_, (run_bind_of_ok h _).trans ?_⟩
  · rw [run_get_bind]
    cases s'.cellOf label <;> rfl
  · rw [run_get_bind]
    cases s'.outline <;> rfl

/-! ### Relaxation -/

/-- A store in need of relaxation cannot be relaxed if one of its switches is faulty, and the error is
that of the first one; otherwise it can.  Every read starts by relaxing the store, fails if that
fails, and else goes on with the relaxed store. -/
theorem relax_fails_iff (h : s.Reachable) (hdirty : s.dirty = true) :
    (∀ e, (∃ s', relax s = .error e s') ↔ ∃ k, s.Fault k e ∧ ∀ j < k, ∀ e', ¬ s.Fault j e') ∧
      ((∃ s', relax s = .ok ⟨⟩ s') ↔ ∀ k e, ¬ s.Fault k e) ∧
      (∀ e s', relax s = .error e s' →
        readInstructions s = .error e s' ∧ readLocations s = .error e s' ∧
          readTries s = .error e s' ∧ readDebugItems s = .error e s' ∧
          (∀ label, readAddress label s = .error e s') ∧ toMethod s = .error e s') ∧
      ∀ s', relax s = .ok ⟨⟩ s' →
        readInstructions s = .ok s'.instructions s' ∧ readLocations s = .ok s'.locations s' ∧
          readTries s = .ok s'.tries.toList s' ∧
          readDebugItems s = .ok s'.addressedDebugItems s' ∧
          (∀ label, readAddress label s = require ((s'.cellOf label).map (·.address)) s') ∧
          toMethod s = require (s'.outline >>= (·.toMethod s'.switchIndex?)) s' := by
  obtain ⟨d, hd, hrefines⟩ := h.exists_refines
  have hsound := hd.sound
  have howners? : d.owners? = none := by
    rw [← Option.isNone_iff_eq_none, ← hdirty, hrefines.dirty]
    rfl
  refine ⟨fun e => ?_, ?_, fun e s' => reads_of_relax_eq_error, fun s' => reads_of_relax_eq_ok⟩
  · rw [hrefines.exists_relax_eq_error_iff hsound, hsound.relaxed_eq_error_iff howners?]
    simp only [hrefines.fault_iff]
  · rw [hrefines.exists_relax_eq_ok_iff hsound, hsound.exists_relaxed_eq_ok_iff howners?]
    simp only [hrefines.fault_iff]

/-- A `nop`, a table, and two switches that reach the table, one of them over the `nop`. -/
def rivals : Store :=
  (new 0 1).run
    [.append .nop, .labelAt 0, .append (.data (.packed 0 [])), .labelAt 1,
      .append (.op .packedSwitch (.f31t 0 ⟨0, 0⟩)), .append (.op .packedSwitch (.f31t 0 ⟨0, 1⟩))]

/-- The second of the rivals is at fault, and nothing can be read. -/
theorem relax_fails_iff_rivals :
    rivals.Reachable ∧ rivals.dirty = true ∧
      (∃ k, rivals.Fault k (.ambiguousPayload 1) ∧ ∀ j < k, ∀ e', ¬ rivals.Fault j e') ∧
      (¬ ∃ s', relax rivals = .ok ⟨⟩ s') ∧
      ∃ s', toMethod rivals = .error (.ambiguousPayload 1) s' := by
  have hrivals : rivals.Reachable := (Reachable.new 0 1).run _
  have hdirty : rivals.dirty = true := by decide +kernel
  obtain ⟨herror, hok, hreads, -⟩ := relax_fails_iff hrivals hdirty
  obtain ⟨s', hs'⟩ : ∃ s', relax rivals = .error (.ambiguousPayload 1) s' := ⟨_, rfl⟩
  obtain ⟨k, hfault, hfirst⟩ := (herror _).1 ⟨s', hs'⟩
  obtain ⟨-, -, -, -, -, hmethod⟩ := hreads _ _ hs'
  exact ⟨hrivals, hdirty, ⟨k, hfault, hfirst⟩, fun h => hok.1 h k _ hfault, s', hmethod⟩

end Store

end Dalvik
