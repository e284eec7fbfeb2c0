import Dalvik.Proofs.Listing.Edits

/-!
# What is attached to a listing

Labels and debug items are attached to points, and a point is known by its position.  `attachments`
lists them with their positions, front to back; `Listing.marks` are the labels and
`Listing.debugItems` the debug items of a listing.

An edit renumbers the attachments and otherwise leaves them as they are, in their order.  The table
of positions is filled from the marks (`Listing.getElem?_positions_iff`).
-/

namespace Dalvik

variable {α : Type}

/-! ### Attachments of a list of points -/

/-- What `f` finds attached to some points, with the positions, the first point being at `n`. -/
def attachments (f : Point → List α) (points : List Point) (n : Nat) : List (Nat × α) :=
  (points.zipIdx n).flatMap fun (point, k) => (f point).map (k, ·)

@[simp] theorem attachments_nil (f : Point → List α) (n : Nat) : attachments f [] n = [] := rfl

@[simp] theorem attachments_cons (f : Point → List α) (p : Point) (rest : List Point) (n : Nat) :
    attachments f (p :: rest) n = (f p).map (n, ·) ++ attachments f rest (n + 1) := by
  simp [attachments]

/-- Where nothing is attached there are no attachments. -/
theorem attachments_replicate {f : Point → List α} (hf : f ∅ = []) (count n : Nat) :
    attachments f (List.replicate count ∅) n = [] := by
  induction count generalizing n with
  | zero => rfl
  | succ count ih => simp [List.replicate_succ, hf, ih]

theorem mem_attachments {f : Point → List α} {points : List Point} {n k : Nat} {x : α} :
    (k, x) ∈ attachments f points n ↔ n ≤ k ∧ ∃ p, points[k - n]? = some p ∧ x ∈ f p := by
  simp only [attachments, List.mem_flatMap, Prod.exists, List.mk_mem_zipIdx_iff_le_and_getElem?_sub,
    List.mem_map, Prod.mk.injEq]
  constructor
  · rintro ⟨p, j, ⟨hj, hp⟩, y, hy, rfl, rfl⟩
    exact ⟨hj, p, hp, hy⟩
  · rintro ⟨hk, p, hp, hx⟩
    exact ⟨p, k, ⟨hk, hp⟩, x, hx, rfl, rfl⟩

/-- Attachments are listed front to back. -/
theorem pairwise_attachments (f : Point → List α) (points : List Point) (n : Nat) :
    (attachments f points n).Pairwise fun m m' => m.1 ≤ m'.1 := by
  induction points generalizing n with
  | nil => exact .nil
  | cons p rest ih =>
    rw [attachments_cons, List.pairwise_append]
    refine ⟨?_, ih (n + 1), ?_⟩
    · rw [List.pairwise_map]
      exact List.pairwise_of_forall fun _ _ => Nat.le_refl n
    · rintro m hm ⟨k, x⟩ hk
      obtain ⟨y, -, rfl⟩ := List.mem_map.1 hm
      exact Nat.le_of_succ_le (mem_attachments.1 hk).1

/-- Positions that are counted from one further on are one higher. -/
theorem attachments_succ (f : Point → List α) (points : List Point) {k n : Nat} (hk : k ≤ n) :
    attachments f points (n + 1) = (attachments f points n).map (Prod.map (shiftUp k) id) := by
  induction points generalizing n with
  | nil => rfl
  | cons p rest ih =>
    rw [attachments_cons, attachments_cons, ih (Nat.le_succ_of_le hk)]
    simp [shiftUp_of_le hk, Function.comp_def]

/-- An empty point in between renumbers the attachments behind it. -/
theorem attachments_insertIdx {f : Point → List α} (hf : f ∅ = []) (points : List Point)
    {k : Nat} (hk : k ≤ points.length) (n : Nat) :
    attachments f (points.insertIdx k ∅) n =
      (attachments f points n).map (Prod.map (shiftUp (n + k)) id) := by
  induction points generalizing k n with
  | nil =>
    obtain rfl : k = 0 := by simpa using hk
    simp [hf]
  | cons p rest ih =>
    cases k with
    | zero =>
      rw [List.insertIdx_zero, attachments_cons, hf, attachments_succ f _ (Nat.le_of_eq rfl)]
      simp
    | succ k =>
      rw [List.insertIdx_succ_cons, attachments_cons, attachments_cons,
        ih (Nat.le_of_succ_le_succ hk), List.map_append, List.map_map,
        show n + 1 + k = n + (k + 1) by omega]
      simp [Function.comp_def, shiftUp_of_lt (show n < n + (k + 1) by omega)]

/-- Everything behind a removed point moves up by one. -/
theorem attachments_pred (f : Point → List α) (points : List Point) {k n : Nat} (hk : k ≤ n) :
    attachments f points n = (attachments f points (n + 1)).map (Prod.map (shiftDown k) id) := by
  induction points generalizing n with
  | nil => rfl
  | cons p rest ih =>
    rw [attachments_cons, attachments_cons, ih (Nat.le_succ_of_le hk)]
    simp [shiftDown_of_lt (Nat.lt_succ_of_le hk), Function.comp_def]

/-- A point that is merged into the next one hands on its attachments, in order. -/
theorem attachments_eraseIdx_modify {f : Point → List α} {g : Point → Point} (points : List Point)
    {k : Nat} (hk : k + 1 < points.length) (n : Nat)
    (hg : ∀ q, f (g q) = f points[k] ++ f q) :
    attachments f ((points.eraseIdx k).modify k g) n =
      (attachments f points n).map (Prod.map (shiftDown (n + k)) id) := by
  induction points generalizing k n with
  | nil => simp at hk
  | cons p rest ih =>
    cases k with
    | zero =>
      cases rest with
      | nil => simp at hk
      | cons q rest =>
        have hq : f (g q) = f p ++ f q := hg q
        simp only [List.eraseIdx_cons_zero, List.modify_zero_cons, attachments_cons, hq,
          List.map_append, List.append_assoc, List.map_map]
        rw [attachments_pred f rest (k := n) (Nat.le_succ n)]
        simp [Function.comp_def, shiftDown_of_le, shiftDown_of_lt]
    | succ k =>
      have hk' : k + 1 < rest.length := Nat.lt_of_succ_lt_succ hk
      rw [List.eraseIdx_cons_succ, List.modify_succ_cons, attachments_cons, attachments_cons,
        ih hk' (n + 1) hg, List.map_append, List.map_map, show n + 1 + k = n + (k + 1) by omega]
      simp [Function.comp_def, shiftDown_of_le (show n ≤ n + (k + 1) by omega)]

/-- What is attached behind everything else at a point is one more attachment at its position. -/
theorem attachments_modify_perm {f : Point → List α} {g : Point → Point} {x : α}
    (hg : ∀ p, f (g p) = f p ++ [x]) (points : List Point) {k : Nat} (hk : k < points.length)
    (n : Nat) :
    (attachments f (points.modify k g) n).Perm ((n + k, x) :: attachments f points n) := by
  induction points generalizing k n with
  | nil => simp at hk
  | cons p rest ih =>
    cases k with
    | zero =>
      rw [List.modify_zero_cons, attachments_cons, attachments_cons, hg, List.map_append,
        List.append_assoc]
      exact List.perm_middle
    | succ k =>
      rw [List.modify_succ_cons, attachments_cons, attachments_cons,
        show n + (k + 1) = n + 1 + k by omega]
      refine ((ih (Nat.lt_of_succ_lt_succ hk) (n + 1)).append_left _).trans ?_
      exact List.perm_middle

/-- If nothing is attached behind a point, what is attached there last comes last of all. -/
theorem attachments_modify_of_forall_le {f : Point → List α} {g : Point → Point} {x : α}
    (hg : ∀ p, f (g p) = f p ++ [x]) (points : List Point) {k : Nat} (hk : k < points.length)
    (n : Nat) (hle : ∀ m ∈ attachments f points n, m.1 ≤ n + k) :
    attachments f (points.modify k g) n = attachments f points n ++ [(n + k, x)] := by
  induction points generalizing k n with
  | nil => simp at hk
  | cons p rest ih =>
    cases k with
    | zero =>
      have hrest : attachments f rest (n + 1) = [] := by
        rw [List.eq_nil_iff_forall_not_mem]
        rintro ⟨j, y⟩ hmem
        have hj := (mem_attachments.1 hmem).1
        have hj' := hle (j, y) (by rw [attachments_cons]; exact List.mem_append_right _ hmem)
        simp only at hj'
        omega
      simp [hg, hrest]
    | succ k =>
      have hrest : ∀ m ∈ attachments f rest (n + 1), m.1 ≤ n + 1 + k := by
        intro m hmem
        have hm := hle m (by rw [attachments_cons]; exact List.mem_append_right _ hmem)
        omega
      rw [List.modify_succ_cons, attachments_cons, attachments_cons,
        ih (Nat.lt_of_succ_lt_succ hk) (n + 1) hrest, List.append_assoc,
        show n + 1 + k = n + (k + 1) by omega]

/-- A change of points that `f` does not see leaves the attachments alone. -/
theorem attachments_modify_of_eq {f : Point → List α} {g : Point → Point} (hg : ∀ p, f (g p) = f p)
    (points : List Point) (k n : Nat) :
    attachments f (points.modify k g) n = attachments f points n := by
  induction points generalizing k n with
  | nil => simp
  | cons p rest ih => cases k <;> simp [hg, ih]

theorem attachments_map_of_eq {f : Point → List α} {g : Point → Point} (hg : ∀ p, f (g p) = f p)
    (points : List Point) (n : Nat) :
    attachments f (points.map g) n = attachments f points n := by
  induction points generalizing n with
  | nil => rfl
  | cons p rest ih => simp [hg, ih]

namespace Listing

/-! ### Labels and debug items of a listing -/

/-- The labels that stand in a listing, each with its position. -/
def marks (l : Listing) : List (Nat × Label) := attachments (·.labels.toList) l.points 0

/-- The labels that stand in a listing, front to back. -/
def labels (l : Listing) : List Label := l.marks.map (·.2)

theorem debugItems_eq (l : Listing) : l.debugItems = attachments (·.items.toList) l.points 0 := rfl

theorem mem_marks {l : Listing} {k : Nat} {label : Label} :
    (k, label) ∈ l.marks ↔ k ≤ l.size ∧ label ∈ (l.point k).labels.toList := by
  rw [marks, mem_attachments, Nat.sub_zero]
  constructor
  · rintro ⟨-, p, hp, hlabel⟩
    have hk : k ≤ l.size := by
      have := (List.getElem?_eq_some_iff.1 hp).1
      rw [length_points] at this
      omega
    rw [getElem?_points l hk] at hp
    obtain rfl := Option.some.inj hp
    exact ⟨hk, hlabel⟩
  · rintro ⟨hk, hlabel⟩
    exact ⟨Nat.zero_le k, _, getElem?_points l hk, hlabel⟩

theorem le_size_of_mem_marks {l : Listing} {k : Nat} {label : Label} (h : (k, label) ∈ l.marks) :
    k ≤ l.size :=
  (mem_marks.1 h).1

theorem mem_labels_of_mem_marks {l : Listing} {k : Nat} {label : Label} (h : (k, label) ∈ l.marks) :
    label ∈ l.labels :=
  List.mem_map_of_mem h

theorem exists_mem_marks {l : Listing} {label : Label} (h : label ∈ l.labels) :
    ∃ k, (k, label) ∈ l.marks := by
  obtain ⟨⟨k, label⟩, hmem, rfl⟩ := List.mem_map.1 h
  exact ⟨k, hmem⟩

/-! ### What edits do to attachments -/

section Edits

variable {f : Point → List α}

theorem attachments_append (hf : f ∅ = []) (l : Listing) (i : Instruction Label) :
    attachments f (l.append i).points 0 = attachments f l.points 0 := by
  rw [points_append, ← List.insertIdx_length_self, attachments_insertIdx hf _ (Nat.le_refl _)]
  have hfix : ∀ m ∈ attachments f l.points 0,
      Prod.map (shiftUp (0 + l.points.length)) id m = m := by
    rintro ⟨k, x⟩ hm
    obtain ⟨-, p, hp, -⟩ := mem_attachments.1 hm
    have hk := (List.getElem?_eq_some_iff.1 hp).1
    rw [Prod.map_apply, shiftUp_of_lt (by omega), id]
  rw [List.map_congr_left hfix, List.map_id']

theorem attachments_insertAt (hf : f ∅ = []) (l : Listing) {k : Nat} (hk : k < l.size)
    (i : Instruction Label) :
    attachments f (l.insertAt k i).points 0 =
      (attachments f l.points 0).map (Prod.map (shiftUp k) id) := by
  rw [points_insertAt l hk, attachments_insertIdx hf _ (by rw [length_points]; omega), Nat.zero_add]

theorem attachments_removeAt (hf : ∀ p q : Point, f (p.mergeInto q) = f p ++ f q) (l : Listing)
    {k : Nat} (hk : k < l.size) :
    attachments f (l.removeAt k).points 0 =
      (attachments f l.points 0).map (Prod.map (shiftDown k) id) := by
  have hlen : k + 1 < l.points.length := by rw [length_points]; omega
  have hpoint : l.points[k] = l.point k :=
    (List.getElem_eq_iff _).2 (getElem?_points l (Nat.le_of_lt hk))
  rw [points_removeAt l hk, attachments_eraseIdx_modify _ hlen, Nat.zero_add]
  intro q
  rw [hpoint]
  exact hf _ _

end Edits

@[simp] theorem marks_append (l : Listing) (i : Instruction Label) : (l.append i).marks = l.marks :=
  attachments_append rfl l i

theorem marks_insertAt (l : Listing) {k : Nat} (hk : k < l.size) (i : Instruction Label) :
    (l.insertAt k i).marks = l.marks.map (Prod.map (shiftUp k) id) :=
  attachments_insertAt rfl l hk i

@[simp] theorem marks_replaceAt (l : Listing) (k : Nat) (i : Instruction Label) :
    (l.replaceAt k i).marks = l.marks := by
  rw [marks, points_replaceAt, marks]

theorem marks_removeAt (l : Listing) {k : Nat} (hk : k < l.size) :
    (l.removeAt k).marks = l.marks.map (Prod.map (shiftDown k) id) :=
  attachments_removeAt (by simp [Point.mergeInto]) l hk

theorem debugItems_insertAt (l : Listing) {k : Nat} (hk : k < l.size) (i : Instruction Label) :
    (l.insertAt k i).debugItems = l.debugItems.map (Prod.map (shiftUp k) id) := by
  rw [debugItems_eq, debugItems_eq]
  exact attachments_insertAt rfl l hk i

@[simp] theorem debugItems_replaceAt (l : Listing) (k : Nat) (i : Instruction Label) :
    (l.replaceAt k i).debugItems = l.debugItems := by
  rw [debugItems_eq, points_replaceAt, debugItems_eq]

theorem debugItems_removeAt (l : Listing) {k : Nat} (hk : k < l.size) :
    (l.removeAt k).debugItems = l.debugItems.map (Prod.map (shiftDown k) id) := by
  rw [debugItems_eq, debugItems_eq]
  exact attachments_removeAt (by simp [Point.mergeInto]) l hk

/-- No label is lost or moved past another by an insertion. -/
@[simp] theorem labels_insertAt (l : Listing) (k : Nat) (i : Instruction Label) :
    (l.insertAt k i).labels = l.labels := by
  rcases Nat.lt_or_ge k l.size with hk | hk
  · simp [labels, marks_insertAt l hk]
  · rw [insertAt, if_neg (show ¬ k < l.slots.size from Nat.not_lt_of_ge hk), labels, marks_append,
      labels]

/-- No label is lost or moved past another by a removal. -/
@[simp] theorem labels_removeAt (l : Listing) (k : Nat) : (l.removeAt k).labels = l.labels := by
  rcases Nat.lt_or_ge k l.size with hk | hk
  · simp [labels, marks_removeAt l hk]
  · rw [removeAt, Array.getElem?_eq_none hk]

@[simp] theorem labels_replaceAt (l : Listing) (k : Nat) (i : Instruction Label) :
    (l.replaceAt k i).labels = l.labels := by
  rw [labels, marks_replaceAt, labels]

/-! ### The table of positions -/

/-- Filling in the marks one by one. -/
private theorem positions_eq_foldl (l : Listing) :
    l.positions = l.marks.foldl (fun table mark => table.setIfInBounds mark.2.number (some mark.1))
      (Array.replicate l.issued none) := by
  rw [positions, marks, attachments, List.foldl_flatMap]
  simp only [List.foldl_map]

private theorem size_foldl_set (marks : List (Nat × Label)) (table : Array (Option Nat)) :
    (marks.foldl (fun table mark => table.setIfInBounds mark.2.number (some mark.1)) table).size =
      table.size := by
  induction marks generalizing table with
  | nil => rfl
  | cons mark rest ih => simp [ih]

/-- If no number comes twice, every mark is found under its number. -/
private theorem getElem?_foldl_set {marks : List (Nat × Label)}
    (hnodup : (marks.map (·.2.number)).Nodup) (table : Array (Option Nat)) {n : Nat}
    (hn : n < table.size) (o : Option Nat) :
    (marks.foldl (fun table mark => table.setIfInBounds mark.2.number (some mark.1)) table)[n]? =
        some o ↔
      (∃ k label, (k, label) ∈ marks ∧ label.number = n ∧ o = some k) ∨
        (n ∉ marks.map (·.2.number) ∧ table[n]? = some o) := by
  induction marks generalizing table with
  | nil => simp
  | cons mark rest ih =>
    obtain ⟨hfresh, hrest⟩ := List.nodup_cons.1 hnodup
    rw [List.foldl_cons, ih hrest _ (by simpa using hn), Array.getElem?_setIfInBounds]
    rcases Decidable.eq_or_ne mark.2.number n with rfl | hne
    · have hold : ¬ ∃ k label, (k, label) ∈ rest ∧ label.number = mark.2.number ∧ o = some k := by
        rintro ⟨k, label, hmem, hnum, -⟩
        exact hfresh (List.mem_map.2 ⟨_, hmem, hnum⟩)
      simp only [hold, false_or, hfresh, not_false_eq_true, true_and, if_true, hn]
      constructor
      · intro h
        exact Or.inl ⟨mark.1, mark.2, List.mem_cons_self, rfl, (Option.some.inj h).symm⟩
      · rintro (⟨k, label, hmem, hnum, rfl⟩ | ⟨hnot, -⟩)
        · rcases List.mem_cons.1 hmem with rfl | hmem
          · rfl
          · exact absurd ⟨k, label, hmem, hnum, rfl⟩ hold
        · simp at hnot
    · rw [if_neg hne]
      have hcons : ∀ k label, label.number = n →
          ((k, label) ∈ mark :: rest ↔ (k, label) ∈ rest) := by
        intro k label hnum
        rw [List.mem_cons, or_iff_right]
        rintro rfl
        exact hne hnum
      refine or_congr ?_ (and_congr_left' ?_)
      · exact exists_congr fun k => exists_congr fun label => by
          constructor
          · rintro ⟨hmem, hnum, ho⟩
            exact ⟨(hcons k label hnum).2 hmem, hnum, ho⟩
          · rintro ⟨hmem, hnum, ho⟩
            exact ⟨(hcons k label hnum).1 hmem, hnum, ho⟩
      · simp [Ne.symm hne]

@[simp] theorem size_positions (l : Listing) : l.positions.size = l.issued := by
  rw [positions_eq_foldl, size_foldl_set, Array.size_replicate]

/-- If no two labels share a number, the table of positions has an entry for exactly the labels that
stand somewhere. -/
theorem getElem?_positions_iff {l : Listing} (hnodup : (l.labels.map Label.number).Nodup) {n k : Nat} :
    l.positions[n]? = some (some k) ↔
      n < l.issued ∧ ∃ label, label.number = n ∧ (k, label) ∈ l.marks := by
  rcases Nat.lt_or_ge n l.issued with hn | hn
  · have hnodup' : (l.marks.map (·.2.number)).Nodup := by
      simpa [labels, Function.comp_def] using hnodup
    rw [positions_eq_foldl, getElem?_foldl_set hnodup' _ (by simpa using hn)]
    constructor
    · rintro (⟨k', label, hmem, hnum, hk⟩ | ⟨-, h⟩)
      · obtain rfl := Option.some.inj hk
        exact ⟨hn, label, hnum, hmem⟩
      · simp [hn] at h
    · rintro ⟨-, label, hnum, hmem⟩
      exact Or.inl ⟨k, label, hmem, hnum, rfl⟩
  · rw [Array.getElem?_eq_none (by simpa using hn)]
    simp [Nat.not_lt_of_ge hn]

end Listing

end Dalvik
