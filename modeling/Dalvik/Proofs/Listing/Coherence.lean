import Dalvik.Proofs.Listing.Labels
import Dalvik.Proofs.Code.Reach
import Mathlib.Data.List.Nodup

/-!
# Coherent listings

In a coherent listing every instruction is valid, every label belongs to the draft that the listing
is part of, and no label stands in two places.  Then the table of positions tells the truth about
every label.  A listing is sound if moreover every label that was issued stands somewhere; while a
method is being assembled, labels may be issued before they are placed.  For relaxation it is enough
that the labels to which instructions refer stand somewhere (`Listing.Ready`).

Relaxation edits a listing without touching any label, so it keeps both.
-/

namespace Dalvik

namespace Listing

/-- The labels that the listing of the draft with identity `draft` has issued so far. -/
def Issued (l : Listing) (draft : Nat) (label : Label) : Prop :=
  label.draft = draft ∧ label.number < l.issued

instance (l : Listing) (draft : Nat) (label : Label) : Decidable (l.Issued draft label) :=
  inferInstanceAs (Decidable (_ ∧ _))

/-- What the code says, and where the labels stand, makes sense. -/
structure Coherent (l : Listing) (draft : Nat) : Prop where
  /-- Every instruction can be encoded, its offsets apart. -/
  valid : ∀ i ∈ l.instructions, i.Valid
  /-- Instructions refer to labels of the same draft. -/
  targets : ∀ i ∈ l.instructions, ∀ label ∈ i.targets, l.Issued draft label
  /-- The labels that stand somewhere are labels of the draft. -/
  own : ∀ label ∈ l.labels, l.Issued draft label
  /-- No label stands twice. -/
  nodup : l.labels.Nodup

/-- A coherent listing in which every label stands somewhere. -/
structure Sound (l : Listing) (draft : Nat) : Prop extends Coherent l draft where
  /-- Every label has been placed. -/
  placed : ∀ label, l.Issued draft label → label ∈ l.labels

/-- A coherent listing in which every label stands somewhere to which an instruction refers. -/
structure Ready (l : Listing) (draft : Nat) : Prop extends Coherent l draft where
  /-- Every target has been placed. -/
  placed : ∀ i ∈ l.instructions, ∀ label ∈ i.targets, label ∈ l.labels

/-- The position at which a label stands, as the table of positions gives it. -/
def locate? (l : Listing) (label : Label) : Option Nat := l.positions[label.number]?.join

variable {l l' : Listing} {draft : Nat}

namespace Coherent

theorem nodup_numbers (h : l.Coherent draft) : (l.labels.map Label.number).Nodup := by
  refine List.Nodup.map_on ?_ h.nodup
  intro x hx y hy hxy
  have hdraft : x.draft = y.draft := (h.own x hx).1.trans (h.own y hy).1.symm
  obtain ⟨xdraft, xnumber⟩ := x
  obtain ⟨ydraft, ynumber⟩ := y
  rw [Label.mk.injEq]
  exact ⟨hdraft, hxy⟩

/-- The table of positions gives the position at which a label stands. -/
theorem locate?_eq_some_iff (h : l.Coherent draft) {label : Label} (hlabel : label.draft = draft) {k : Nat} :
    l.locate? label = some k ↔ (k, label) ∈ l.marks := by
  have hjoin : l.locate? label = some k ↔ l.positions[label.number]? = some (some k) := by
    rw [locate?, Option.join_eq_some_iff]
  rw [hjoin, getElem?_positions_iff h.nodup_numbers]
  constructor
  · rintro ⟨-, other, hnumber, hmem⟩
    -- a number determines the label, all labels being of the same draft
    have hother : other = label := by
      have hdraft : other.draft = label.draft :=
        (h.own _ (mem_labels_of_mem_marks hmem)).1.trans hlabel.symm
      obtain ⟨draft₁, number₁⟩ := other
      obtain ⟨draft₂, number₂⟩ := label
      rw [Label.mk.injEq]
      exact ⟨hdraft, hnumber⟩
    rwa [hother] at hmem
  · intro hmem
    exact ⟨(h.own _ (mem_labels_of_mem_marks hmem)).2, label, rfl, hmem⟩

theorem locate?_eq_none_iff (h : l.Coherent draft) {label : Label} (hlabel : label.draft = draft) :
    l.locate? label = none ↔ label ∉ l.labels := by
  constructor
  · intro hnone hmem
    obtain ⟨k, hk⟩ := exists_mem_marks hmem
    rw [(h.locate?_eq_some_iff hlabel).2 hk] at hnone
    simp at hnone
  · intro hmem
    rw [Option.eq_none_iff_forall_ne_some]
    intro k hk
    exact hmem (mem_labels_of_mem_marks ((h.locate?_eq_some_iff hlabel).1 hk))

/-- A label stands at a position of the listing or at its end. -/
theorem locate?_le_size (h : l.Coherent draft) {label : Label} (hlabel : label.draft = draft) {k : Nat}
    (hk : l.locate? label = some k) : k ≤ l.size :=
  le_size_of_mem_marks ((h.locate?_eq_some_iff hlabel).1 hk)

/-- If an edit renumbers the marks, it renumbers where labels stand. -/
theorem locate?_eq_map (h : l.Coherent draft) (h' : l'.Coherent draft) {f : Nat → Nat}
    (hmarks : l'.marks = l.marks.map (Prod.map f id)) {label : Label} (hlabel : label.draft = draft) :
    l'.locate? label = (l.locate? label).map f := by
  cases hk : l.locate? label with
  | some k =>
    have hmem := (h.locate?_eq_some_iff hlabel).1 hk
    rw [Option.map_some, h'.locate?_eq_some_iff hlabel, hmarks]
    exact List.mem_map.2 ⟨_, hmem, rfl⟩
  | none =>
    have hmem := (h.locate?_eq_none_iff hlabel).1 hk
    rw [Option.map_none, h'.locate?_eq_none_iff hlabel]
    simpa [labels, hmarks] using hmem

/-- A listing stays coherent if its labels stay and its instructions are old ones or fit in. -/
theorem of_labels_eq (h : l.Coherent draft) (hlabels : l'.labels = l.labels)
    (hissued : l'.issued = l.issued)
    (hinstructions : ∀ i ∈ l'.instructions,
      i ∈ l.instructions ∨ (i.Valid ∧ ∀ label ∈ i.targets, l.Issued draft label)) :
    l'.Coherent draft where
  valid i hi := (hinstructions i hi).elim (h.valid i) And.left
  targets i hi label hlabel := by
    rw [Issued, hissued]
    exact (hinstructions i hi).elim (fun hold => h.targets i hold label hlabel)
      fun hnew => hnew.2 label hlabel
  own label hlabel := by
    rw [Issued, hissued]
    exact h.own label (hlabels ▸ hlabel)
  nodup := hlabels ▸ h.nodup

theorem insertAt (h : l.Coherent draft) {k : Nat} (hk : k ≤ l.size) {i : Instruction Label}
    (hi : i.Valid) (htargets : ∀ label ∈ i.targets, l.Issued draft label) :
    (l.insertAt k i).Coherent draft := by
  refine h.of_labels_eq (labels_insertAt l k i) (issued_insertAt l k i) fun j hj => ?_
  rw [instructions_insertAt l hk, List.mem_insertIdx (by simpa using hk)] at hj
  rcases hj with rfl | hj
  · exact Or.inr ⟨hi, htargets⟩
  · exact Or.inl hj

theorem replaceAt (h : l.Coherent draft) (k : Nat) {i : Instruction Label} (hi : i.Valid)
    (htargets : ∀ label ∈ i.targets, l.Issued draft label) : (l.replaceAt k i).Coherent draft := by
  refine h.of_labels_eq (labels_replaceAt l k i) rfl fun j hj => ?_
  rw [instructions_replaceAt] at hj
  rcases List.mem_or_eq_of_mem_set hj with hj | rfl
  · exact Or.inl hj
  · exact Or.inr ⟨hi, htargets⟩

/-- Instructions that change places are still those of the listing. -/
theorem swapAt (h : l.Coherent draft) (k₁ k₂ : Nat) : (l.swapAt k₁ k₂).Coherent draft := by
  unfold Listing.swapAt
  split
  · next i₁ i₂ h₁ h₂ =>
    have hmem : ∀ {k i}, l.instruction? k = some i → i ∈ l.instructions := fun hi =>
      List.mem_of_getElem? ((Listing.getElem?_instructions _ _).trans hi)
    have hfirst := h.replaceAt k₁ (h.valid i₂ (hmem h₂)) (h.targets i₂ (hmem h₂))
    exact hfirst.replaceAt k₂ (h.valid i₁ (hmem h₁)) (h.targets i₁ (hmem h₁))
  · exact h

theorem removeAt (h : l.Coherent draft) (k : Nat) : (l.removeAt k).Coherent draft := by
  refine h.of_labels_eq (labels_removeAt l k) (issued_removeAt l k) fun j hj => ?_
  rw [instructions_removeAt] at hj
  exact Or.inl (List.mem_of_mem_eraseIdx hj)

theorem locate?_insertAt (h : l.Coherent draft) {k : Nat} (hk : k < l.size) {i : Instruction Label}
    (h' : (l.insertAt k i).Coherent draft) {label : Label} (hlabel : label.draft = draft) :
    (l.insertAt k i).locate? label = (l.locate? label).map (shiftUp k) :=
  h.locate?_eq_map h' (marks_insertAt l hk i) hlabel

theorem locate?_removeAt (h : l.Coherent draft) {k : Nat} (hk : k < l.size) {label : Label}
    (hlabel : label.draft = draft) :
    (l.removeAt k).locate? label = (l.locate? label).map (shiftDown k) :=
  h.locate?_eq_map (h.removeAt k) (marks_removeAt l hk) hlabel

end Coherent

namespace Sound

theorem of_labels_eq (h : l.Sound draft) (hlabels : l'.labels = l.labels)
    (hissued : l'.issued = l.issued) (hcoherent : l'.Coherent draft) : l'.Sound draft where
  toCoherent := hcoherent
  placed label hlabel := by
    rw [hlabels]
    refine h.placed label ?_
    rwa [Issued, hissued] at hlabel

/-- In a sound listing every label that was issued stands somewhere. -/
theorem exists_locate? (h : l.Sound draft) {label : Label} (hlabel : l.Issued draft label) :
    ∃ k, l.locate? label = some k := by
  obtain ⟨k, hk⟩ := exists_mem_marks (h.placed label hlabel)
  exact ⟨k, (h.locate?_eq_some_iff hlabel.1).2 hk⟩

theorem ready (h : l.Sound draft) : l.Ready draft where
  toCoherent := h.toCoherent
  placed i hi label hlabel := h.placed label (h.targets i hi label hlabel)

end Sound

namespace Ready

/-- A listing stays ready if its labels stay and its targets are old ones. -/
theorem of_labels_eq (h : l.Ready draft) (hlabels : l'.labels = l.labels)
    (htargets : ∀ i ∈ l'.instructions, ∀ label ∈ i.targets,
      ∃ j ∈ l.instructions, label ∈ j.targets) (hcoherent : l'.Coherent draft) :
    l'.Ready draft where
  toCoherent := hcoherent
  placed i hi label hlabel := by
    obtain ⟨j, hj, hlabel'⟩ := htargets i hi label hlabel
    rw [hlabels]
    exact h.placed j hj label hlabel'

/-- A label to which an instruction refers stands somewhere. -/
theorem exists_locate? (h : l.Ready draft) {i : Instruction Label} (hi : i ∈ l.instructions)
    {label : Label} (hlabel : label ∈ i.targets) : ∃ k, l.locate? label = some k := by
  obtain ⟨k, hk⟩ := exists_mem_marks (h.placed i hi label hlabel)
  exact ⟨k, (h.locate?_eq_some_iff (h.targets i hi label hlabel).1).2 hk⟩

end Ready

/-! ### Switches and tables -/

/-- The switch at `switch` reaches the table at `table`. -/
def Reaches (l : Listing) (switch table : Nat) : Prop :=
  Code.Reaches (fun _ label => l.locate? label) l.instructions switch table

instance (l : Listing) (switch table : Nat) : Decidable (l.Reaches switch table) :=
  inferInstanceAs (Decidable (Code.Reaches _ _ _ _))

/-- The label of a switch is one of the draft. -/
theorem Coherent.draft_of_switchTarget? (h : l.Coherent draft) {k : Nat} {i : Instruction Label}
    {label : Label} (hi : l.instructions[k]? = some i) (hlabel : i.switchTarget? = some label) :
    label.draft = draft :=
  (h.targets i (List.mem_of_getElem? hi) label (Instruction.mem_targets_of_switchTarget? hlabel)).1

theorem Coherent.insertAt_nop (h : l.Coherent draft) {k : Nat} (hk : k ≤ l.size) :
    (l.insertAt k .nop).Coherent draft :=
  h.insertAt hk Instruction.valid_nop fun _ hlabel => absurd hlabel (List.not_mem_nil)

theorem Reaches.insertAt_nop {switch table k : Nat} (hr : l.Reaches switch table)
    (h : l.Coherent draft) (hk : k < l.size) :
    (l.insertAt k .nop).Reaches (shiftUp k switch) (shiftUp k table) := by
  rw [Reaches, instructions_insertAt l (Nat.le_of_lt hk)]
  refine Code.Reaches.insertIdx hr (by simpa using Nat.le_of_lt hk) fun i hi label hlabel => ?_
  exact h.locate?_insertAt hk (h.insertAt_nop (Nat.le_of_lt hk)) (h.draft_of_switchTarget? hi hlabel)

theorem Reaches.removeAt {switch table k : Nat} (hr : l.Reaches switch table)
    (h : l.Coherent draft) (hk : k < l.size) (hswitch : switch ≠ k) (htable : table ≠ k) :
    (l.removeAt k).Reaches (shiftDown k switch) (shiftDown k table) := by
  rw [Reaches, instructions_removeAt]
  refine Code.Reaches.eraseIdx hr hswitch htable fun i hi label hlabel => ?_
  exact h.locate?_removeAt hk (h.draft_of_switchTarget? hi hlabel)

theorem Reaches.replaceAt {switch table k : Nat} (hr : l.Reaches switch table)
    (hk : l.instructions[k]? ≠ some .nop) (hswitch : switch ≠ k) (htable : table ≠ k)
    (h : l.Coherent draft) {i : Instruction Label} (h' : (l.replaceAt k i).Coherent draft) :
    (l.replaceAt k i).Reaches switch table := by
  rw [Reaches, instructions_replaceAt]
  refine Code.Reaches.set hr hk hswitch htable (fun j hj label hlabel => ?_) i
  have hmarks : (l.replaceAt k i).marks = l.marks.map (Prod.map id id) := by simp
  simpa using h.locate?_eq_map h' hmarks (h.draft_of_switchTarget? hj hlabel)

end Listing

end Dalvik
