import Dalvik.Proofs.Store.Page
import Dalvik.Proofs.Store.Reachability

/-!
# Edits are edits of lists

The page that a store shows changes under every edit as `Page.perform` says, and the answers are the
same. The listing of the draft that the store refines stands between the two: its slots are those of
the page, only that what is attached to them is kept in points.
-/

namespace Dalvik

/-- The slot of a page for a slot of a listing. -/
def Slot.onPage (slot : Slot) : Page.Slot :=
  ⟨slot.instruction, slot.point.labels.toList, slot.point.items.toList⟩

/-- Looking up all positions of a list gives the list. -/
theorem filterMap_getElem?_range {α : Type} (xs : List α) {n : Nat} (hn : xs.length ≤ n) :
    (List.range n).filterMap (xs[·]?) = xs := by
  induction xs generalizing n with
  | nil => simp
  | cons x rest ih =>
    cases n with
    | zero => simp at hn
    | succ n =>
      rw [List.range_succ_eq_map, List.filterMap_cons_some List.getElem?_cons_zero,
        List.filterMap_map]
      exact congrArg (x :: ·) (ih (Nat.le_of_succ_le_succ hn))

namespace Listing

/-- The page that a listing shows. -/
def page (l : Listing) (id : Nat) : Page where
  id := id
  issued := l.issued
  slots := l.slots.toList.map Slot.onPage
  endLabels := l.tail.labels.toList
  endItems := l.tail.items.toList

variable (l : Listing) (id k : Nat) (i : Instruction Label)

@[simp] theorem size_page : (l.page id).size = l.size := by simp [page, Page.size, size]

theorem getElem?_slots_page : (l.page id).slots[k]? = l.slots[k]?.map Slot.onPage := by simp [page]

theorem page_append : (l.append i).page id = (l.page id).append i := by
  simp [append, page, Page.append, Slot.onPage, EmptyCollection.emptyCollection, Attached.empty,
    Attached.toList]

theorem page_insertAt : (l.insertAt k i).page id = (l.page id).insertAt k i := by
  rw [insertAt, Page.insertAt, size_page]
  by_cases hk : k < l.size
  · rw [if_pos hk, if_pos (show k < l.slots.size from hk), Array.insertIdxIfInBounds,
      dif_pos (show k ≤ l.slots.size from Nat.le_of_lt hk)]
    simp [page, List.map_insertIdx, Slot.onPage, EmptyCollection.emptyCollection, Attached.empty,
      Attached.toList]
  · rw [if_neg hk, if_neg (show ¬ k < l.slots.size from hk), page_append]

theorem page_replaceAt : (l.replaceAt k i).page id = (l.page id).replaceAt k i := by
  have hslots :
      (l.slots.toList.modify k fun slot => { slot with instruction := i }).map Slot.onPage =
      (l.slots.toList.map Slot.onPage).modify k fun slot => { slot with instruction := i } :=
    map_modify_of_comm (f := Slot.onPage) (g := fun slot => { slot with instruction := i })
      (fun _ => rfl) _ _
  rw [page, replaceAt, Page.replaceAt, Array.toList_modify, hslots]
  rfl

theorem page_modifyPoint {f : Point → Point} {g : List Label → List Label}
    {h : List DebugItem → List DebugItem} (hg : ∀ p, (f p).labels.toList = g p.labels.toList)
    (hh : ∀ p, (f p).items.toList = h p.items.toList) :
    (l.modifyPoint k f).page id = (l.page id).attach k g h := by
  rw [modifyPoint, Page.attach, size_page]
  by_cases hk : k < l.size
  · have hslots : (l.slots.toList.modify k fun slot => { slot with point := f slot.point }).map
        Slot.onPage = (l.slots.toList.map Slot.onPage).modify k fun slot =>
          { slot with labels := g slot.labels, items := h slot.items } :=
      map_modify_of_comm (fun slot => by simp [Slot.onPage, hg, hh]) _ _
    rw [if_pos hk, if_pos (show k < l.slots.size from hk), page, Array.toList_modify, hslots]
    rfl
  · rw [if_neg hk, if_neg (show ¬ k < l.slots.size from hk), page, hg, hh]
    rfl

theorem page_removeAt : (l.removeAt k).page id = (l.page id).removeAt k := by
  rw [removeAt, Page.removeAt, getElem?_slots_page]
  cases hslot : l.slots[k]? with
  | none => rfl
  | some slot =>
    have herase : { l with slots := l.slots.eraseIdxIfInBounds k }.page id =
        { l.page id with slots := (l.page id).slots.eraseIdx k } := by
      simp [page, Array.toList_eraseIdxIfInBounds, List.eraseIdx_map]
    rw [Option.map_some]
    dsimp only
    rw [← herase]
    exact page_modifyPoint _ _ _ (fun p => Attached.toList_mergeInto _ _)
      fun p => Attached.toList_mergeInto _ _

theorem page_swapAt (k₁ k₂ : Nat) : (l.swapAt k₁ k₂).page id = (l.page id).swapAt k₁ k₂ := by
  rw [swapAt, Page.swapAt, getElem?_slots_page, getElem?_slots_page, instruction?, instruction?]
  cases l.slots[k₁]? with
  | none => rfl
  | some slot₁ =>
    cases l.slots[k₂]? with
    | none => rfl
    | some slot₂ =>
      exact (page_replaceAt _ _ _ _).trans
        (congrArg (Page.replaceAt · k₂ slot₁.instruction) (page_replaceAt _ _ _ _))

theorem page_label : (l.issue.mark k (l.nextLabel id)).page id = (l.page id).label k := by
  have hmark := page_modifyPoint l.issue id k (f := fun point =>
    { point with labels := point.labels.push (l.nextLabel id) }) (g := (· ++ [(l.page id).fresh]))
    (h := fun items => items) (fun p => Attached.toList_push _ _) fun _ => rfl
  rw [mark, hmark, Page.label, Page.attach, Page.attach, size_page, size_page, size_issue]
  split <;> rfl

theorem page_retainItems (keep : DebugItem → Bool) :
    (l.retainItems keep).page id = (l.page id).retainItems keep := by
  simp [retainItems, page, Page.retainItems, Slot.onPage, Function.comp_def]

theorem instructions_page : (l.page id).slots.map (·.instruction) = l.instructions := by
  simp [page, instructions, Slot.onPage, Function.comp_def]

theorem units_page : (l.page id).units = l.units := by
  have hmap : (l.page id).units =
      (((l.page id).slots.map (·.instruction)).map Instruction.units).sum := by
    rw [List.map_map]
    rfl
  rw [hmap, instructions_page, units_eq, Code.address, List.take_of_length_le (by simp)]

theorem itemsAt_page : (l.page id).itemsAt k = (l.point k).items.toList := by
  rw [Page.itemsAt, getElem?_slots_page, point]
  cases l.slots[k]? <;> rfl

/-- A label stands at a position of the page if it does so in the listing. -/
theorem at_page_iff {label : Label} : (l.page id).At label k ↔ (k, label) ∈ l.marks := by
  rw [mem_marks, Page.At, getElem?_slots_page, size_page, point]
  rcases Nat.lt_trichotomy k l.size with hlt | rfl | hgt
  · obtain ⟨slot, hslot⟩ : ∃ slot, l.slots[k]? = some slot := ⟨_, Array.getElem?_eq_getElem hlt⟩
    simp [hslot, Nat.le_of_lt hlt, Nat.ne_of_lt hlt, Slot.onPage]
  · have hnone : l.slots[l.size]? = none := Array.getElem?_eq_none (Nat.le_refl _)
    simp [hnone, page]
  · have hnone : l.slots[k]? = none := Array.getElem?_eq_none (Nat.le_of_lt hgt)
    simp [hnone, Nat.not_le_of_lt hgt, Nat.ne_of_gt hgt]

/-- The slots of the page are the cells that hold an instruction. -/
theorem filterMap_cell :
    ((List.range (l.size + 1)).map l.cell).filterMap (fun cell => cell.instruction?.map fun i =>
      Page.Slot.mk i cell.point.labels.toList cell.point.items.toList) = (l.page id).slots := by
  have hcell : ∀ k, ((l.cell k).instruction?.map fun i =>
      Page.Slot.mk i (l.cell k).point.labels.toList (l.cell k).point.items.toList) =
      (l.page id).slots[k]? := fun k => by
    rw [getElem?_slots_page, cell, instruction?, point]
    cases l.slots[k]? <;> rfl
  rw [List.filterMap_map, ← filterMap_getElem?_range (l.page id).slots (n := l.size + 1)
    (by rw [← l.size_page id]; exact Nat.le_succ _)]
  exact List.filterMap_congr fun k _ => hcell k

end Listing

namespace Draft

variable {α β : Type} {d : Draft}

/-- The page that a draft shows. -/
def page (d : Draft) : Page := d.listing.page d.id

/-- A draft shows a page. -/
def Shows (d : Draft) (p : Page) : Prop := d.page = p

/-- Carries out an edit of a draft. -/
def perform : Page.Edit → DraftM Page.Answer
  | .append i => do
    append i
    return .done
  | .insert index i => do
    insert index i
    return .done
  | .replace index i => return .instruction (← replace index i)
  | .remove index => return .instruction (← remove index)
  | .swap index₁ index₂ => do
    swap index₁ index₂
    return .done
  | .labelAt index => return .label (← labelAt index)
  | .labelAtAddress address => return .label (← labelAtAddress address)
  | .addTry entry => do
    addTry entry
    return .done
  | .addDebugItem index item => do
    addDebugItem index item
    return .done
  | .removeDebugItems index => return .items (← removeDebugItems index)
  | .retainDebugItems keep => do
    retainDebugItems keep
    return .done

/-! ### Checks -/

theorem instructionAt_page (d : Draft) (k : Nat) : d.page.instructionAt k = d.instructionAt k := by
  have hsize : d.page.size = d.size := Listing.size_page _ _
  rw [Page.instructionAt, instructionAt, instruction?, Listing.instruction?, hsize, page,
    Listing.getElem?_slots_page]
  cases d.listing.slots[k]? <;> rfl

theorem checkIndex_page (d : Draft) (k : Nat) : d.page.checkIndex k = d.checkIndex k := by
  have hsize : d.page.size = d.size := Listing.size_page _ _
  rw [Page.checkIndex, checkIndex, hsize]

theorem checkInstruction_page (d : Draft) (i : Instruction Label) :
    d.page.checkInstruction i = d.checkInstruction i := rfl

/-- Edits that start with the same check agree if they do so when it succeeds. -/
theorem agree_commit_bind {x y : Except Error α} {f : α → DraftM β}
    {g : α → Except Error (β × Page)} (hxy : y = x)
    (hrest : ∀ a, Agree Shows (f a d) (d.page.commit (g a))) :
    Agree Shows ((require x >>= f) d) (d.page.commit (y >>= g)) := by
  subst hxy
  cases y with
  | ok a => exact hrest a
  | error e => exact .error e rfl

/-- The same for a check of which nothing is kept. -/
theorem agree_commit_discard_bind {x y : Except Error α} {f : DraftM β}
    {g : Except Error (β × Page)} (hxy : y = x)
    (hrest : Agree Shows (f d) (d.page.commit g)) :
    Agree Shows ((do discard (require x); f) d) (d.page.commit (do discard y; g)) := by
  subst hxy
  cases y with
  | ok a => exact hrest
  | error e => exact .error e rfl

/-! ### Every edit -/

/-- An edit of a draft does to the page what it does to the slots. -/
theorem agree_perform (e : Page.Edit) (d : Draft) :
    Agree Shows (perform e d) (Page.perform e d.page) := by
  cases e with
  | append i =>
    rw [perform, append, bind_assoc, run_get_bind, bind_assoc]
    exact agree_commit_bind (d.checkInstruction_page i) fun _ =>
      .ok _ (d.listing.page_append d.id i)
  | insert k i =>
    rw [perform, insert, bind_assoc, run_get_bind, bind_assoc]
    refine agree_commit_bind (d.checkIndex_page k) fun _ => ?_
    rw [bind_assoc, run_get_bind, bind_assoc]
    exact agree_commit_bind (d.checkInstruction_page i) fun _ =>
      .ok _ (d.listing.page_insertAt d.id k i)
  | replace k i =>
    rw [perform, replace, bind_assoc, run_get_bind, bind_assoc]
    refine agree_commit_bind (d.instructionAt_page k) fun old => ?_
    rw [bind_assoc, run_get_bind, bind_assoc]
    exact agree_commit_bind (d.checkInstruction_page i) fun _ =>
      .ok _ (d.listing.page_replaceAt d.id k i)
  | remove k =>
    rw [perform, remove, bind_assoc, run_get_bind, bind_assoc]
    exact agree_commit_bind (d.instructionAt_page k) fun old =>
      .ok _ (d.listing.page_removeAt d.id k)
  | swap k₁ k₂ =>
    rw [perform, swap, bind_assoc, run_get_bind, bind_assoc]
    refine agree_commit_discard_bind (d.instructionAt_page k₁) ?_
    rw [bind_assoc, run_get_bind, bind_assoc]
    refine agree_commit_discard_bind (d.instructionAt_page k₂) ?_
    by_cases hne : k₁ ≠ k₂
    · rw [if_pos hne]
      exact .ok _ (d.listing.page_swapAt d.id k₁ k₂)
    · -- an instruction is exchanged for itself
      obtain rfl := not_not.1 hne
      rw [if_neg hne]
      exact .ok _ (Page.swapAt_self _ _).symm
  | labelAt k =>
    rw [perform, labelAt, bind_assoc, run_get_bind, bind_assoc]
    exact agree_commit_bind (d.checkIndex_page k) fun _ =>
      .ok _ (d.listing.page_label d.id k)
  | labelAtAddress address =>
    have hunits : d.page.units = d.units := d.listing.units_page d.id
    have hcovering : d.page.covering address.toNat =
        Listing.covering 0 d.listing.instructions address.toNat := by
      rw [Page.covering, page, Listing.instructions_page]
    rw [perform, labelAtAddress, bind_assoc, run_get_bind]
    rw [Page.perform, Page.edit, hunits, hcovering]
    by_cases hpast : d.units < address.toNat
    · rw [if_pos hpast, if_pos hpast]
      exact .error _ rfl
    · rw [if_neg hpast, if_neg hpast]
      exact .ok _ (d.listing.page_label d.id _)
  | addTry entry =>
    rw [perform, addTry, bind_assoc, run_get_bind, bind_assoc]
    exact agree_commit_bind rfl fun _ => .ok _ rfl
  | addDebugItem k item =>
    rw [perform, addDebugItem, bind_assoc, run_get_bind, bind_assoc]
    exact agree_commit_bind (d.checkIndex_page k) fun _ =>
      .ok _ (d.listing.page_modifyPoint d.id k (fun _ => rfl) fun p => Attached.toList_push _ _)
  | removeDebugItems k =>
    rw [perform, removeDebugItems, bind_assoc, run_get_bind, bind_assoc]
    refine agree_commit_bind (d.checkIndex_page k) fun _ => ?_
    change Agree Shows (.ok (Page.Answer.items (d.listing.point k).items.toList) _)
      (.ok (Page.Answer.items (d.page.itemsAt k)) _)
    have hitems : d.page.itemsAt k = (d.listing.point k).items.toList :=
      d.listing.itemsAt_page d.id k
    rw [hitems]
    exact .ok _ (d.listing.page_modifyPoint d.id k (fun _ => rfl) fun _ => rfl)
  | retainDebugItems keep => exact .ok _ (d.listing.page_retainItems d.id keep)

end Draft

namespace Store

variable {s : Store} {d : Draft}

/-- An edit of a store is an edit of the draft that it refines. -/
theorem simulates_perform (e : Page.Edit) : Simulates Refines (perform e) (Draft.perform e) := by
  intro s d h
  cases e with
  | append i => exact (simulates_append i s d h).bind fun _ _ _ h => .ok _ h
  | insert k i => exact (simulates_insert k i s d h).bind fun _ _ _ h => .ok _ h
  | replace k i => exact (simulates_replace k i s d h).bind fun _ _ _ h => .ok _ h
  | remove k => exact (simulates_remove k s d h).bind fun _ _ _ h => .ok _ h
  | swap k₁ k₂ => exact (simulates_swap k₁ k₂ s d h).bind fun _ _ _ h => .ok _ h
  | labelAt k => exact (simulates_labelAt k s d h).bind fun _ _ _ h => .ok _ h
  | labelAtAddress address =>
    exact (simulates_labelAtAddress address s d h).bind fun _ _ _ h => .ok _ h
  | addTry entry => exact (simulates_addTry entry s d h).bind fun _ _ _ h => .ok _ h
  | addDebugItem k item => exact (simulates_addDebugItem k item s d h).bind fun _ _ _ h => .ok _ h
  | removeDebugItems k => exact (simulates_removeDebugItems k s d h).bind fun _ _ _ h => .ok _ h
  | retainDebugItems keep =>
    exact (simulates_retainDebugItems keep s d h).bind fun _ _ _ h => .ok _ h

/-- A store shows the page of the draft that it refines. -/
theorem Refines.page_eq (h : s.Refines d) : s.page = d.page := by
  have hend : s.cell? s.size = some (d.listing.cell d.listing.size) := by
    rw [h.tracks.size_eq, h.tracks.cell?_eq (Nat.le_refl _)]
  have htail : d.listing.point d.listing.size = d.listing.tail := by
    have hnone : d.listing.slots[d.listing.size]? = none := Array.getElem?_eq_none (Nat.le_refl _)
    rw [Listing.point, hnone]
  rw [page, Draft.page, hend, h.tracks.cells_eq, d.listing.filterMap_cell d.id, h.id,
    h.tracks.issued, Option.map_some, Option.map_some, Option.getD_some, Option.getD_some,
    Listing.cell, htail]
  rfl

/-- A label is where the page has it. -/
theorem Refines.labelIndex_eq_ok_iff (h : s.Refines d) {label : Label} {k : Nat} :
    s.labelIndex label = .ok k ↔ s.page.At label k := by
  rw [h.labelIndex_eq, h.page_eq, Draft.locate_eq_ok_iff, Draft.page, Listing.at_page_iff]
  constructor
  · rintro ⟨hlabel, hk⟩
    exact (h.coherent.locate?_eq_some_iff hlabel).1 hk
  · intro hmark
    have hlabel := (h.coherent.own label (Listing.mem_labels_of_mem_marks hmark)).1
    exact ⟨hlabel, (h.coherent.locate?_eq_some_iff hlabel).2 hmark⟩

/-- A store refines a draft that shows a page. -/
def Depicts (s : Store) (p : Page) : Prop := ∃ d, s.Refines d ∧ d.Shows p

/-- An edit of a store is an edit of the page that it depicts. -/
theorem simulates_perform_page (e : Page.Edit) :
    Simulates Depicts (perform e) (Page.perform e) := by
  rintro s p ⟨d, hrefines, rfl⟩
  exact (simulates_perform e s d hrefines).trans (Draft.agree_perform e d)

namespace Depicts

variable {p : Page}

theorem page_eq (h : s.Depicts p) : s.page = p := by
  obtain ⟨d, hrefines, hshows⟩ := h
  exact hrefines.page_eq.trans hshows

theorem size_eq (h : s.Depicts p) : s.size = p.size := by
  obtain ⟨d, hrefines, rfl⟩ := h
  exact hrefines.tracks_size.trans (Listing.size_page _ _).symm

theorem labelIndex_eq_ok_iff (h : s.Depicts p) {label : Label} {k : Nat} :
    s.labelIndex label = .ok k ↔ p.At label k := by
  obtain ⟨d, hrefines, rfl⟩ := h
  rw [hrefines.labelIndex_eq_ok_iff, hrefines.page_eq]

/-- The label that is issued next stands nowhere. -/
theorem not_at_fresh (h : s.Depicts p) (k : Nat) : ¬ p.At p.fresh k := by
  obtain ⟨d, hrefines, rfl⟩ := h
  intro hat
  have hmark : (k, d.listing.nextLabel d.id) ∈ d.listing.issue.marks :=
    (d.listing.at_page_iff d.id k).1 hat
  exact hrefines.coherent.nextLabel_notMem (Listing.mem_labels_of_mem_marks hmark)

/-- An edit moves labels as it moves positions. -/
theorem labelIndex_of_perform (h : s.Depicts p) {e : Page.Edit} {a : Page.Answer} {s' : Store}
    (he : perform e s = .ok a s') {label : Label} {k : Nat} (hk : s.labelIndex label = .ok k) :
    s'.labelIndex label = .ok (e.renumber s.size k) := by
  obtain ⟨p', hp, h'⟩ := (simulates_perform_page e s p h).exists_of_ok he
  rw [h'.labelIndex_eq_ok_iff, h.size_eq]
  exact Page.at_of_edit (Page.perform_eq_ok_iff.1 hp) (h.labelIndex_eq_ok_iff.1 hk)

end Depicts

/-- Whatever has been done with a store, any further edits are edits of the page that it shows: they
answer the same, errors included, and lead to the same page.  Labels are always where the page has
them, a label that is issued stands nowhere before, and an edit moves labels as it moves positions.
-/
theorem edits_of_reachable (h : s.Reachable) (edits : List Page.Edit) :
    ∃ s', transcript perform edits s = ((transcript Page.perform edits s.page).1, s') ∧
      s'.page = (transcript Page.perform edits s.page).2 ∧
      (∀ label k, s'.labelIndex label = .ok k ↔ s'.page.At label k) ∧
      (∀ k, ¬ s'.page.At s'.page.fresh k) ∧
      ∀ e a s'', perform e s' = .ok a s'' → ∀ label k, s'.labelIndex label = .ok k →
        s''.labelIndex label = .ok (e.renumber s'.size k) := by
  obtain ⟨d, -, hrefines⟩ := h.exists_refines
  have hstart : s.Depicts s.page := ⟨d, hrefines, hrefines.page_eq.symm⟩
  obtain ⟨hanswers, hend⟩ := transcript_of_simulates simulates_perform_page edits hstart
  refine ⟨_, Prod.ext hanswers rfl, hend.page_eq, fun _ _ => ?_, ?_, fun _ _ _ he _ _ hk =>
    hend.labelIndex_of_perform he hk⟩
  · rw [hend.page_eq]
    exact hend.labelIndex_eq_ok_iff
  · rw [hend.page_eq]
    exact hend.not_at_fresh

/-- Edits of the sample, one of which fails. -/
def sampleEdits : List Page.Edit :=
  [.labelAt 3, .insert 1 (.op .nop .f10x), .swap 0 9, .addDebugItem 2 .prologueEnd, .remove 0,
    .append (.op .nop .f10x)]

/-- The label that is issued first goes up by one and then down by one. -/
theorem edits_of_reachable_sample :
    sample.Reachable ∧ ∃ s', transcript perform sampleEdits sample =
        ((transcript Page.perform sampleEdits sample.page).1, s') ∧
      s'.page = (transcript Page.perform sampleEdits sample.page).2 ∧
      s'.labelIndex ⟨0, 1⟩ = .ok 3 ∧ s'.page.At ⟨0, 1⟩ 3 := by
  have hsample : sample.Reachable := (Reachable.new 0 1).run _
  obtain ⟨s', htranscript, hpage, hlabels, -, -⟩ := edits_of_reachable hsample sampleEdits
  have hindex : s'.labelIndex ⟨0, 1⟩ = .ok 3 := by
    obtain rfl : (transcript perform sampleEdits sample).2 = s' := by rw [htranscript]
    decide +kernel
  exact ⟨hsample, s', htranscript, hpage, hindex, (hlabels _ _).1 hindex⟩

end Store

end Dalvik
