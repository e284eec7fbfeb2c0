import Dalvik.Proofs.Listing.Coherence

/-!
# Labels and debug items that are added

Placing a label or pinning a debug item leaves the code as it is.  A label that is placed for the
first time is found where it was placed, and all others stay where they were; debug items do not
concern labels at all.
-/

namespace Dalvik

namespace Code

variable {τ : Type} {locate locate' : Nat → τ → Option Nat} {code : List (Instruction τ)}
  {switch table : Nat}

/-- What a switch reaches depends on where its label stands, and on no other label. -/
theorem Reaches.congr (h : Reaches locate code switch table)
    (hlocate : ∀ i ∈ code[switch]?, ∀ t ∈ i.switchTarget?, locate' switch t = locate switch t) :
    Reaches locate' code switch table := by
  obtain ⟨i, hi, t, ht, target, htarget, hrest⟩ := h
  refine ⟨i, hi, t, ht, target, ?_, hrest⟩
  rw [hlocate i hi t ht]
  exact htarget

end Code

namespace Listing

variable {l l' : Listing} {draft k : Nat} {label : Label}

/-- Issues one more label, which stands nowhere yet. -/
def issue (l : Listing) : Listing := { l with issued := l.issued + 1 }

@[simp] theorem instructions_issue (l : Listing) : l.issue.instructions = l.instructions := rfl

@[simp] theorem size_issue (l : Listing) : l.issue.size = l.size := rfl

@[simp] theorem marks_issue (l : Listing) : l.issue.marks = l.marks := rfl

theorem issued_issue (l : Listing) : l.issue.issued = l.issued + 1 := rfl

/-! ### Placing a label -/

@[simp] theorem instructions_mark (l : Listing) (k : Nat) (label : Label) :
    (l.mark k label).instructions = l.instructions := instructions_modifyPoint l k _

@[simp] theorem size_mark (l : Listing) (k : Nat) (label : Label) : (l.mark k label).size = l.size :=
  size_modifyPoint l k _

@[simp] theorem issued_mark (l : Listing) (k : Nat) (label : Label) :
    (l.mark k label).issued = l.issued := issued_modifyPoint l k _

theorem marks_mark_perm (hk : k ≤ l.size) (label : Label) :
    (l.mark k label).marks.Perm ((k, label) :: l.marks) := by
  have hperm := attachments_modify_perm (f := (·.labels.toList)) (x := label)
    (g := fun point : Point => { point with labels := point.labels.push label })
    (fun p => Attached.toList_push p.labels label) l.points (by simpa using Nat.lt_succ_of_le hk) 0
  rw [Nat.zero_add] at hperm
  rwa [marks, mark, points_modifyPoint l hk]

theorem labels_mark_perm (hk : k ≤ l.size) (label : Label) :
    (l.mark k label).labels.Perm (label :: l.labels) :=
  (marks_mark_perm hk label).map _

namespace Coherent

/-- Labels that stand in the same places are found there. -/
theorem locate?_congr (h : l.Coherent draft) (h' : l'.Coherent draft) (hlabel : label.draft = draft)
    (hmarks : ∀ k, (k, label) ∈ l'.marks ↔ (k, label) ∈ l.marks) :
    l'.locate? label = l.locate? label := by
  apply Option.ext
  intro k
  rw [h.locate?_eq_some_iff hlabel, h'.locate?_eq_some_iff hlabel, hmarks k]

theorem issue (h : l.Coherent draft) : l.issue.Coherent draft where
  valid := h.valid
  targets i hi label hlabel :=
    ⟨(h.targets i hi label hlabel).1, Nat.lt_succ_of_lt (h.targets i hi label hlabel).2⟩
  own label hlabel := ⟨(h.own label hlabel).1, Nat.lt_succ_of_lt (h.own label hlabel).2⟩
  nodup := h.nodup

/-- A label that stands nowhere may be placed. -/
theorem mark (h : l.Coherent draft) (hk : k ≤ l.size) (hissued : l.Issued draft label)
    (hnew : label ∉ l.labels) : (l.mark k label).Coherent draft where
  valid i hi := h.valid i (by simpa using hi)
  targets i hi other hother := by
    rw [Issued, issued_mark]
    exact h.targets i (by simpa using hi) other hother
  own other hother := by
    rw [Issued, issued_mark]
    rcases List.mem_cons.1 ((labels_mark_perm hk label).mem_iff.1 hother) with rfl | hold
    · exact hissued
    · exact h.own other hold
  nodup := (labels_mark_perm hk label).nodup_iff.2 (List.nodup_cons.2 ⟨hnew, h.nodup⟩)

/-- A label is where it was placed. -/
theorem locate?_mark_self (h : l.Coherent draft) (hk : k ≤ l.size) (hissued : l.Issued draft label)
    (hnew : label ∉ l.labels) : (l.mark k label).locate? label = some k := by
  rw [(h.mark hk hissued hnew).locate?_eq_some_iff hissued.1, (marks_mark_perm hk label).mem_iff]
  exact List.mem_cons_self

/-- The others stay where they were. -/
theorem locate?_mark_of_ne (h : l.Coherent draft) (hk : k ≤ l.size) (hissued : l.Issued draft label)
    (hnew : label ∉ l.labels) {other : Label} (hother : other.draft = draft) (hne : other ≠ label) :
    (l.mark k label).locate? other = l.locate? other := by
  refine h.locate?_congr (h.mark hk hissued hnew) hother fun j => ?_
  rw [(marks_mark_perm hk label).mem_iff, List.mem_cons, or_iff_right]
  intro heq
  exact hne (Prod.mk.inj heq).2

end Coherent

/-- The next label to be issued. -/
def nextLabel (l : Listing) (draft : Nat) : Label := ⟨draft, l.issued⟩

theorem issued_nextLabel (l : Listing) (draft : Nat) : l.issue.Issued draft (l.nextLabel draft) :=
  ⟨rfl, Nat.lt_succ_self _⟩

theorem ne_nextLabel_of_issued (hissued : l.Issued draft label) : label ≠ l.nextLabel draft := by
  rintro rfl
  exact Nat.lt_irrefl _ hissued.2

/-- The next label stands nowhere. -/
theorem Coherent.nextLabel_notMem (h : l.Coherent draft) : l.nextLabel draft ∉ l.issue.labels :=
  fun hmem => ne_nextLabel_of_issued (h.own _ hmem) rfl

/-- A sound listing stays sound when a label is issued and placed. -/
theorem Sound.mark_nextLabel (h : l.Sound draft) (hk : k ≤ l.size) :
    (l.issue.mark k (l.nextLabel draft)).Sound draft where
  toCoherent := h.toCoherent.issue.mark hk (l.issued_nextLabel draft) h.nextLabel_notMem
  placed label hissued := by
    refine (labels_mark_perm (l := l.issue) hk _).mem_iff.2 ?_
    rw [Issued, issued_mark, issued_issue] at hissued
    rcases Nat.lt_succ_iff_lt_or_eq.1 hissued.2 with hlt | heq
    · exact List.mem_cons_of_mem _ (h.placed label ⟨hissued.1, hlt⟩)
    · have hlabel : label = l.nextLabel draft := by
        obtain ⟨draft', number⟩ := label
        rw [nextLabel, Label.mk.injEq]
        exact ⟨hissued.1, heq⟩
      rw [hlabel]
      exact List.mem_cons_self

/-- The labels issued before stay where they are. -/
theorem Coherent.locate?_mark_nextLabel (h : l.Coherent draft) (hk : k ≤ l.size)
    (hissued : l.Issued draft label) :
    (l.issue.mark k (l.nextLabel draft)).locate? label = l.locate? label := by
  rw [h.issue.locate?_mark_of_ne hk (l.issued_nextLabel draft) h.nextLabel_notMem hissued.1
    (ne_nextLabel_of_issued hissued)]
  exact h.locate?_congr h.issue hissued.1 fun j => by rw [marks_issue]

/-! ### Debug items -/

@[simp] theorem debugItems_mark (hk : k ≤ l.size) (label : Label) :
    (l.mark k label).debugItems = l.debugItems := by
  rw [debugItems_eq, mark, points_modifyPoint l hk, debugItems_eq]
  exact attachments_modify_of_eq
    (g := fun point : Point => { point with labels := point.labels.push label })
    (fun _ => rfl) l.points k 0

/-- An item that is pinned behind all others comes last. -/
theorem debugItems_pin_of_forall_le (hk : k ≤ l.size) (hle : ∀ m ∈ l.debugItems, m.1 ≤ k)
    (item : DebugItem) : (l.pin k item).debugItems = l.debugItems ++ [(k, item)] := by
  rw [debugItems_eq, pin, points_modifyPoint l hk, debugItems_eq]
  have hpin := attachments_modify_of_forall_le (f := (·.items.toList)) (x := item)
    (g := fun point : Point => { point with items := point.items.push item })
    (fun p => Attached.toList_push p.items item) l.points (by simpa using Nat.lt_succ_of_le hk) 0
    (by rw [Nat.zero_add, ← debugItems_eq]; exact hle)
  rwa [Nat.zero_add] at hpin

/-- Neither the code nor the labels are touched. -/
structure SameButItems (l' l : Listing) : Prop where
  /-- The instructions are the same. -/
  instructions : l'.instructions = l.instructions
  /-- The labels stand where they stood. -/
  marks : l'.marks = l.marks
  /-- No label has been issued. -/
  issued : l'.issued = l.issued

/-- A change of the items at a position. -/
theorem sameButItems_modifyPoint (hk : k ≤ l.size) {g : Point → Point}
    (hg : ∀ p, (g p).labels = p.labels) : (l.modifyPoint k g).SameButItems l where
  instructions := instructions_modifyPoint l k g
  marks := by
    rw [marks, points_modifyPoint l hk, marks]
    exact attachments_modify_of_eq (fun p => by rw [hg]) l.points k 0
  issued := issued_modifyPoint l k g

theorem sameButItems_pin (hk : k ≤ l.size) (item : DebugItem) : (l.pin k item).SameButItems l :=
  sameButItems_modifyPoint hk fun _ => rfl

theorem sameButItems_retainItems (l : Listing) (keep : DebugItem → Bool) :
    (l.retainItems keep).SameButItems l where
  instructions := by
    simp only [retainItems, instructions, Array.toList_map, List.map_map]
    rfl
  marks := by
    let retain := fun point : Point => { point with items := point.items.retain keep }
    have hpoints : (l.retainItems keep).points = l.points.map retain := by
      simp [retainItems, points, retain, Function.comp_def]
    rw [marks, hpoints, marks]
    exact attachments_map_of_eq (g := retain) (fun _ => rfl) l.points 0
  issued := rfl

namespace SameButItems

theorem refl (l : Listing) : l.SameButItems l := ⟨rfl, rfl, rfl⟩

theorem trans {l'' : Listing} (h : l''.SameButItems l') (h' : l'.SameButItems l) :
    l''.SameButItems l :=
  ⟨h.instructions.trans h'.instructions, h.marks.trans h'.marks, h.issued.trans h'.issued⟩

theorem size (h : l'.SameButItems l) : l'.size = l.size := by
  rw [← length_instructions, h.instructions, length_instructions]

theorem labels (h : l'.SameButItems l) : l'.labels = l.labels := by
  rw [Listing.labels, h.marks, Listing.labels]

theorem coherent (h : l'.SameButItems l) (hl : l.Coherent draft) : l'.Coherent draft := by
  refine hl.of_labels_eq h.labels h.issued fun i hi => Or.inl ?_
  rwa [h.instructions] at hi

theorem sound (h : l'.SameButItems l) (hl : l.Sound draft) : l'.Sound draft :=
  hl.of_labels_eq h.labels h.issued (h.coherent hl.toCoherent)

theorem locate?_eq (h : l'.SameButItems l) (hl : l.Sound draft) (hlabel : label.draft = draft) :
    l'.locate? label = l.locate? label :=
  hl.toCoherent.locate?_congr (h.sound hl).toCoherent hlabel fun k => by rw [h.marks]

end SameButItems

end Listing

end Dalvik
