import Dalvik.Proofs.Store.Import
import Dalvik.Proofs.Draft.Assembling
import Dalvik.Store.Assembler

/-!
# Assembled stores

Assembling a store does what assembling a draft does: names stand for the same labels, and whatever
is added to the store is added to the draft (`StoreAssembler.Refines`).  What is finished refines
what is finished.
-/

namespace Dalvik

namespace StoreAssembler

/-- A store is assembled as a draft is. -/
structure Refines (s : StoreAssembler) (a : Assembler) : Prop where
  /-- The store is that of the draft. -/
  store : s.store.Refines a.draft
  /-- The names are the same. -/
  names : s.names = a.names
  /-- What has been assembled so far makes sense. -/
  sound : a.Sound

variable {α : Type} {s : StoreAssembler} {a : Assembler}

/-- An edit that agrees with one of the draft, which leaves everything in order. -/
theorem agree_edit {x : StoreM α} {y : DraftM α} (h : s.Refines a)
    (hxy : Agree Store.Refines (x s.store) (y a.draft))
    (hsound : (Assembler.after (Assembler.edit y) a).Sound) :
    Agree Refines (edit x s) (Assembler.edit y a) := by
  rw [Assembler.after] at hsound
  simp only [edit, Assembler.edit] at hsound ⊢
  generalize x s.store = r at hxy
  generalize y a.draft = r' at hxy hsound
  cases hxy with
  | ok b hstore => exact .ok b ⟨hstore, h.names, hsound⟩
  | error e hstore => exact .error e ⟨hstore, h.names, hsound⟩

/-- A name stands for the same label. -/
theorem simulates_label (name : String) :
    Simulates Refines (label name) (Assembler.label name) := by
  intro s a h
  have hsound := Assembler.keeps_label name a h.sound
  cases hfind : a.names.findIdx? (·.name = name) with
  | some n =>
    have hdraft : Assembler.label name a = .ok ⟨a.draft.id, n⟩ a := by
      rw [Assembler.label, run_get_bind, hfind]
      rfl
    have hstore : label name s = .ok ⟨a.draft.id, n⟩ s := by
      rw [label, run_get_bind, h.names, hfind, ← h.store.id]
      rfl
    rw [hstore, hdraft]
    exact .ok _ h
  | none =>
    have hdraft : Assembler.label name a = .ok (a.draft.listing.nextLabel a.draft.id)
        ⟨{ a.draft with listing := a.draft.listing.issue }, a.names.push ⟨name, false⟩⟩ := by
      rw [Assembler.label, run_get_bind, hfind]
      rfl
    have hstore : label name s = .ok s.store.issueLabel.1
        ⟨s.store.issueLabel.2, s.names.push ⟨name, false⟩⟩ := by
      rw [label, run_get_bind, h.names, hfind, ← h.names]
      rfl
    obtain ⟨hlabel, hrefines⟩ := h.store.issueLabel
    rw [Assembler.after, hdraft] at hsound
    rw [hstore, hdraft, hlabel, h.names]
    exact .ok _ ⟨hrefines, rfl, hsound⟩

/-- Placing a name. -/
theorem simulates_place (name : String) :
    Simulates Refines (place name) (Assembler.place name) := by
  intro s a h
  have hsound := Assembler.keeps_place name a h.sound
  obtain ⟨a', n, x, hok, ha', hx, hname⟩ := Assembler.exists_label_eq_ok h.sound name
  have hlabel := simulates_label name s a h
  rw [hok] at hlabel
  generalize hrun : label name s = r at hlabel
  cases hlabel with
  | @ok s' _ _ h' =>
    by_cases htwice : a'.names.any (fun n => n.name = name && n.placed) = true
    · have hdraft : Assembler.place name a = .error (.duplicateLabel name) a' := by
        rw [Assembler.place, run_bind_of_ok hok, run_get_bind, if_pos htwice]
        rfl
      have hstore : place name s = .error (.duplicateLabel name) s' := by
        rw [place, run_bind_of_ok hrun, run_get_bind, h'.names, if_pos htwice]
        rfl
      rw [hstore, hdraft]
      exact .error _ h'
    · have hdraft : Assembler.place name a = .ok ⟨a'.draft.id, n⟩
          { draft := { a'.draft with
              listing := a'.draft.listing.mark a'.draft.size ⟨a'.draft.id, n⟩ }
            names := a'.names.map fun n =>
              if n.name = name then { n with placed := true } else n } := by
        rw [Assembler.place, run_bind_of_ok hok, run_get_bind, if_neg htwice, run_modify_bind]
        rfl
      have hstore : place name s = .ok ⟨a'.draft.id, n⟩
          { store := s'.store.placeLabel ⟨a'.draft.id, n⟩ a'.draft.size
            names := a'.names.map fun n =>
              if n.name = name then { n with placed := true } else n } := by
        rw [place, run_bind_of_ok hrun, run_get_bind, h'.names, if_neg htwice, run_modify_bind,
          h'.names, h'.store.tracks_size]
        rfl
      have hn : n < a'.names.size := (Array.getElem?_eq_some_iff.1 hx).1
      have hnew : (⟨a'.draft.id, n⟩ : Label) ∉ a'.draft.listing.labels := by
        intro hmem
        have hplaced := (ha'.placed n x hx).2 hmem
        rw [Array.any_eq_true'] at htwice
        exact htwice ⟨x, Array.mem_of_getElem? hx, by simp [hname, hplaced]⟩
      rw [Assembler.after, hdraft] at hsound
      rw [hstore, hdraft]
      exact .ok _ ⟨h'.store.placeLabel (Nat.le_refl _) ⟨rfl, ha'.names ▸ hn⟩ hnew, rfl, hsound⟩

/-- Adding an instruction. -/
theorem simulates_add (i : Instruction Label) : Simulates Refines (add i) (Assembler.add i) :=
  fun _ a h => agree_edit h (Store.simulates_append i _ _ h.store) (Assembler.keeps_add i a h.sound)

theorem simulates_addTry (entry : TryEntry Label) :
    Simulates Refines (edit (Store.addTry entry)) (Assembler.edit (Draft.addTry entry)) :=
  fun _ a h =>
    agree_edit h (Store.simulates_addTry entry _ _ h.store) (Assembler.keeps_addTry entry a h.sound)

/-- Adding an exception handler. -/
theorem simulates_addCatch (type? : Option UInt32) (start stop handler : String) :
    Simulates Refines (addCatch type? start stop handler)
      (Assembler.addCatch type? start stop handler) :=
  fun s a h => (simulates_label start s a h).bind fun _ _ _ h => (simulates_label stop _ _ h).bind
    fun _ _ _ h => (simulates_label handler _ _ h).bind fun _ => simulates_addTry _

/-- Adding a debug item. -/
theorem simulates_addDebugItem (item : DebugItem) :
    Simulates Refines (addDebugItem item) (Assembler.addDebugItem item) := by
  intro s a h
  have hstore : addDebugItem item s = edit (Store.addDebugItem a.draft.size item) s := by
    rw [← h.store.tracks_size]
    rfl
  rw [hstore]
  exact agree_edit h (Store.simulates_addDebugItem _ item _ _ h.store)
    (Assembler.keeps_addDebugItem item a h.sound)

/-! ### Assembling step by step -/

theorem refines_after {x : StoreAssemblerM α} {y : AssemblerM α} (h : Agree Refines (x s) (y a)) :
    (stateAfter x s).Refines (Assembler.after y a) := by
  have hafter : Assembler.after y a = stateAfter y a := by
    rw [Assembler.after, stateAfter]
    cases y a <;> rfl
  exact hafter ▸ h.stateAfter

/-- The assembler in which what can be done while a method is assembled ends. -/
def next (s : StoreAssembler) : Assembler.Action → StoreAssembler
  | .label name => stateAfter (label name) s
  | .place name => stateAfter (place name) s
  | .add i => stateAfter (add i) s
  | .addCatch type? start stop handler => stateAfter (addCatch type? start stop handler) s
  | .addDebugItem item => stateAfter (addDebugItem item) s
  | .addLine line => stateAfter (addLine line) s

/-- The states in which a store can be while it is assembled. -/
inductive Reachable : StoreAssembler → Prop
  /-- Nothing has been assembled yet. -/
  | new (id : Nat) (registers : UInt16) : Reachable (.new id registers)
  /-- Something has been added, or tried to be. -/
  | next {s : StoreAssembler} (h : Reachable s) (action : Assembler.Action) :
    Reachable (s.next action)

theorem Refines.next (h : s.Refines a) (action : Assembler.Action) :
    (s.next action).Refines (action.next a) := by
  cases action with
  | label name => exact refines_after (simulates_label name s a h)
  | place name => exact refines_after (simulates_place name s a h)
  | add i => exact refines_after (simulates_add i s a h)
  | addCatch type? start stop handler =>
    exact refines_after (simulates_addCatch type? start stop handler s a h)
  | addDebugItem item => exact refines_after (simulates_addDebugItem item s a h)
  | addLine line => exact refines_after (simulates_addDebugItem (.line line) s a h)

/-- Whatever is assembled in a store can be assembled in a draft. -/
theorem Reachable.exists_refines (h : s.Reachable) : ∃ a, a.Reachable ∧ s.Refines a := by
  induction h with
  | new id registers =>
    exact ⟨_, .new id registers, Store.refines_new id registers, rfl,
      Assembler.sound_new id registers⟩
  | next _ action ih =>
    obtain ⟨a, ha, hrefines⟩ := ih
    exact ⟨_, ha.next action, hrefines.next action⟩

/-- What is finished refines what is finished. -/
theorem Refines.build (h : s.Refines a) {store : Store} (hok : s.build = .ok store) :
    a.build = .ok a.draft ∧ store.Refines a.draft := by
  have hunplaced : s.unplaced = a.unplaced := by rw [unplaced, Assembler.unplaced, h.names]
  rw [StoreAssembler.build, hunplaced] at hok
  rw [Assembler.build]
  cases hnames : a.unplaced with
  | nil =>
    rw [hnames] at hok
    obtain rfl := Except.ok.inj hok
    exact ⟨rfl, h.store⟩
  | cons name rest =>
    rw [hnames] at hok
    cases hok

end StoreAssembler

end Dalvik
