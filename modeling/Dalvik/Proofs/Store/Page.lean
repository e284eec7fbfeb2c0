import Dalvik.Store.Edit
import Dalvik.Proofs.Listing.Edits
import Dalvik.Proofs.Outcome

/-!
# Pages

A page is what a method that is being edited looks like from outside: a list of slots, each of which
holds an instruction with its labels and its debug items, and behind them the end, which has labels
and debug items only.  Nothing is looked up and nothing is kept twice, so that an edit of a page is
an edit of lists.

`Page.perform` says what every edit answers and what becomes of the page.  An edit that fails leaves
the page as it was.
-/

namespace Dalvik

namespace Page

/-- A position that holds an instruction. -/
structure Slot where
  /-- The instruction. -/
  instruction : Instruction Label
  /-- The labels that stand here. -/
  labels : List Label
  /-- The debug items pinned here. -/
  items : List DebugItem
  deriving DecidableEq

end Page

/-- A method as a list of slots. -/
structure Page where
  /-- Identity of the method, stamped on its labels. -/
  id : Nat
  /-- Number of labels issued so far. -/
  issued : Nat
  /-- The slots in order. -/
  slots : List Page.Slot
  /-- The labels that stand at the end. -/
  endLabels : List Label
  /-- The debug items pinned to the end. -/
  endItems : List DebugItem
  deriving DecidableEq

namespace Page

variable {α : Type}

/-- Number of instructions, which is also the position of the end. -/
def size (p : Page) : Nat := p.slots.length

/-- A label stands at a position. -/
def At (p : Page) (label : Label) (index : Nat) : Prop :=
  (∃ slot, p.slots[index]? = some slot ∧ label ∈ slot.labels) ∨
    index = p.size ∧ label ∈ p.endLabels

/-- The label that is issued next. -/
def fresh (p : Page) : Label := ⟨p.id, p.issued⟩

/-! ### Checks -/

/-- The instruction at a position, which must hold one. -/
def instructionAt (p : Page) (index : Nat) : Except Error (Instruction Label) :=
  match p.slots[index]? with
  | some slot => .ok slot.instruction
  | none => .error (.indexOutOfBounds index p.size)

/-- Refuses positions past the end. -/
def checkIndex (p : Page) (index : Nat) : Except Error Unit :=
  if index ≤ p.size then .ok () else .error (.indexOutOfBounds index p.size)

/-- Refuses labels that were not issued. -/
def checkLabel (p : Page) (label : Label) : Except Error Unit :=
  if label.draft = p.id && label.number < p.issued then .ok () else .error (.unknownLabel label)

/-- Refuses invalid instructions and foreign labels. -/
def checkInstruction (p : Page) (i : Instruction Label) : Except Error Unit := do
  i.validate
  i.targets.forM p.checkLabel

/-! ### Edits of lists -/

/-- Puts an instruction into the end, which keeps its labels and debug items, and adds a new end. -/
def append (p : Page) (i : Instruction Label) : Page :=
  { p with slots := p.slots ++ [⟨i, p.endLabels, p.endItems⟩], endLabels := [], endItems := [] }

/-- Puts a slot with nothing but an instruction in front of a position.  At the end this is
appending. -/
def insertAt (p : Page) (index : Nat) (i : Instruction Label) : Page :=
  if index < p.size then { p with slots := p.slots.insertIdx index ⟨i, [], []⟩ } else p.append i

/-- Changes the instruction of a slot and nothing else. -/
def replaceAt (p : Page) (index : Nat) (i : Instruction Label) : Page :=
  { p with slots := p.slots.modify index fun slot => { slot with instruction := i } }

/-- Changes the labels and the debug items at a position. -/
def attach (p : Page) (index : Nat) (f : List Label → List Label)
    (g : List DebugItem → List DebugItem) : Page :=
  if index < p.size then
    { p with
      slots := p.slots.modify index fun slot =>
        { slot with labels := f slot.labels, items := g slot.items } }
  else { p with endLabels := f p.endLabels, endItems := g p.endItems }

/-- Deletes a slot.  Its labels and debug items come in front of those of the following position. -/
def removeAt (p : Page) (index : Nat) : Page :=
  match p.slots[index]? with
  | none => p
  | some slot =>
    { p with slots := p.slots.eraseIdx index }.attach index (slot.labels ++ ·) (slot.items ++ ·)

/-- Exchanges the instructions of two slots and nothing else. -/
def swapAt (p : Page) (index₁ index₂ : Nat) : Page :=
  match p.slots[index₁]?, p.slots[index₂]? with
  | some slot₁, some slot₂ =>
    (p.replaceAt index₁ slot₂.instruction).replaceAt index₂ slot₁.instruction
  | _, _ => p

/-- Adds a fresh label to a position. -/
def label (p : Page) (index : Nat) : Page :=
  { p.attach index (· ++ [p.fresh]) (·) with issued := p.issued + 1 }

/-- The debug items at a position. -/
def itemsAt (p : Page) (index : Nat) : List DebugItem :=
  ((p.slots[index]?).map (·.items)).getD p.endItems

/-- Filters the debug items at every position. -/
def retainItems (p : Page) (keep : DebugItem → Bool) : Page :=
  { p with
    slots := p.slots.map fun slot => { slot with items := slot.items.filter keep }
    endItems := p.endItems.filter keep }

/-- The position that covers an address, or the end. -/
def covering (p : Page) (address : Nat) : Nat :=
  Listing.covering 0 (p.slots.map (·.instruction)) address

/-- Size in code units. -/
def units (p : Page) : Nat := (p.slots.map (·.instruction.units)).sum

/-! ### Edits -/

/-- What can be done with a method to edit it. -/
inductive Edit where
  | append (i : Instruction Label)
  | insert (index : Nat) (i : Instruction Label)
  | replace (index : Nat) (i : Instruction Label)
  | remove (index : Nat)
  | swap (index₁ index₂ : Nat)
  | labelAt (index : Nat)
  | labelAtAddress (address : UInt64)
  | addTry (entry : TryEntry Label)
  | addDebugItem (index : Nat) (item : DebugItem)
  | removeDebugItems (index : Nat)
  | retainDebugItems (keep : DebugItem → Bool)

/-- Where an edit of a method with `size` instructions moves what stands at a position. -/
def Edit.renumber (size : Nat) : Edit → Nat → Nat
  | .insert index _, k => if index < size ∧ index ≤ k then k + 1 else k
  | .remove index, k => if index < k then k - 1 else k
  | _, k => k

/-- What an edit gives back if it succeeds. -/
inductive Answer where
  /-- Nothing. -/
  | done
  /-- The instruction that was there before. -/
  | instruction (i : Instruction Label)
  /-- A label. -/
  | label (label : Label)
  /-- The debug items that were there before. -/
  | items (items : List DebugItem)
  deriving DecidableEq

/-- What an edit answers, and what becomes of the page. -/
def edit (p : Page) : Edit → Except Error (Answer × Page)
  | .append i => do
    p.checkInstruction i
    return (.done, p.append i)
  | .insert index i => do
    p.checkIndex index
    p.checkInstruction i
    return (.done, p.insertAt index i)
  | .replace index i => do
    let old ← p.instructionAt index
    p.checkInstruction i
    return (.instruction old, p.replaceAt index i)
  | .remove index => do
    let old ← p.instructionAt index
    return (.instruction old, p.removeAt index)
  | .swap index₁ index₂ => do
    discard (p.instructionAt index₁)
    discard (p.instructionAt index₂)
    return (.done, p.swapAt index₁ index₂)
  | .labelAt index => do
    p.checkIndex index
    return (.label p.fresh, p.label index)
  | .labelAtAddress address =>
    if p.units < address.toNat then
      .error (.addressOutOfBounds address.toInt64.toInt p.units)
    else .ok (.label p.fresh, p.label (p.covering address.toNat))
  | .addTry entry => do
    entry.places.forM p.checkLabel
    return (.done, p)
  | .addDebugItem index item => do
    p.checkIndex index
    return (.done, p.attach index (·) (· ++ [item]))
  | .removeDebugItems index => do
    p.checkIndex index
    return (.items (p.itemsAt index), p.attach index (·) fun _ => [])
  | .retainDebugItems keep => return (.done, p.retainItems keep)

/-- The outcome of an edit, which changes the page only if it succeeds. -/
def commit (p : Page) : Except Error (α × Page) → EStateM.Result Error Page α
  | .ok (a, p') => .ok a p'
  | .error e => .error e p

/-- Carries out an edit of a page. -/
def perform (e : Edit) : EStateM Error Page Answer := fun p => p.commit (p.edit e)

theorem perform_eq_ok_iff {p p' : Page} {e : Edit} {a : Answer} :
    perform e p = .ok a p' ↔ p.edit e = .ok (a, p') := by
  rw [perform]
  cases p.edit e with
  | ok r => simp [commit, Prod.ext_iff]
  | error e => simp [commit]

/-- Exchanging an instruction for itself changes nothing. -/
theorem swapAt_self (p : Page) (k : Nat) : p.swapAt k k = p := by
  rw [swapAt]
  cases hslot : p.slots[k]? with
  | none => rfl
  | some slot =>
    have hreplace : p.replaceAt k slot.instruction = p := by
      have hslots : (p.slots.modify k fun s => { s with instruction := slot.instruction }) =
          p.slots := by
        refine List.ext_getElem? fun j => ?_
        rw [List.getElem?_modify]
        rcases Decidable.eq_or_ne k j with rfl | hne
        · rw [hslot]
          simp
        · simp [hne]
      rw [replaceAt, hslots]
    dsimp only
    rw [hreplace, hreplace]

variable {p p' : Page} {label : Label} {i k : Nat}

/-! ### Where labels go -/

theorem at_append (h : p.At label k) (x : Instruction Label) : (p.append x).At label k := by
  rcases h with ⟨slot, hslot, hlabel⟩ | ⟨rfl, hlabel⟩
  · have hlt := (List.getElem?_eq_some_iff.1 hslot).1
    exact Or.inl ⟨slot, (List.getElem?_append_left hlt).trans hslot, hlabel⟩
  · exact Or.inl ⟨⟨x, p.endLabels, p.endItems⟩, List.getElem?_concat_length, hlabel⟩

theorem at_insertAt (h : p.At label k) (hi : i < p.size) (x : Instruction Label) :
    (p.insertAt i x).At label (shiftUp i k) := by
  rw [insertAt, if_pos hi]
  rcases h with ⟨slot, hslot, hlabel⟩ | ⟨rfl, hlabel⟩
  · exact Or.inl ⟨slot, (getElem?_insertIdx_shiftUp _ _ _ _).trans hslot, hlabel⟩
  · refine Or.inr ⟨?_, hlabel⟩
    rw [shiftUp_of_le (Nat.le_of_lt hi)]
    exact (List.length_insertIdx_of_le_length (Nat.le_of_lt hi) _).symm

/-- Whatever keeps the labels of the slots keeps them where they are. -/
theorem at_of_map (h : p.At label k) (hslots : p'.slots.map (·.labels) = p.slots.map (·.labels))
    (hend : p'.endLabels = p.endLabels) : p'.At label k := by
  rcases h with ⟨slot, hslot, hlabel⟩ | ⟨rfl, hlabel⟩
  · have hk := congrArg (·[k]?) hslots
    simp only [List.getElem?_map, hslot, Option.map_some] at hk
    obtain ⟨slot', hslot', hsame⟩ := Option.map_eq_some_iff.1 hk
    exact Or.inl ⟨slot', hslot', hsame ▸ hlabel⟩
  · have hlength := congrArg List.length hslots
    rw [List.length_map, List.length_map] at hlength
    exact Or.inr ⟨hlength.symm, hend ▸ hlabel⟩

theorem map_labels_replaceAt (p : Page) (k : Nat) (x : Instruction Label) :
    (p.replaceAt k x).slots.map (·.labels) = p.slots.map (·.labels) :=
  map_modify_of_eq (g := fun slot : Slot => { slot with instruction := x }) (fun _ => rfl) _ _

theorem at_replaceAt (h : p.At label k) (i : Nat) (x : Instruction Label) :
    (p.replaceAt i x).At label k :=
  at_of_map h (p.map_labels_replaceAt i x) rfl

theorem at_swapAt (h : p.At label k) (i j : Nat) : (p.swapAt i j).At label k := by
  rw [swapAt]
  split
  · exact at_replaceAt (at_replaceAt h _ _) _ _
  · exact h

theorem at_attach {f : List Label → List Label} {g : List DebugItem → List DebugItem}
    (h : p.At label k) (hf : ∀ labels, label ∈ labels → label ∈ f labels) (i : Nat) :
    (p.attach i f g).At label k := by
  rw [attach]
  split
  · rcases h with ⟨slot, hslot, hlabel⟩ | ⟨rfl, hlabel⟩
    · refine Or.inl ⟨_, (List.getElem?_modify ..).trans (congrArg _ hslot), ?_⟩
      split
      · exact hf _ hlabel
      · exact hlabel
    · exact Or.inr ⟨(List.length_modify ..).symm, hlabel⟩
  · rcases h with hslot | ⟨rfl, hlabel⟩
    · exact Or.inl hslot
    · exact Or.inr ⟨rfl, hf _ hlabel⟩

/-- What a position gets for its labels stands there. -/
theorem at_attach_of_mem {f : List Label → List Label} {g : List DebugItem → List DebugItem}
    (hi : i ≤ p.size) (hf : ∀ labels, label ∈ f labels) : (p.attach i f g).At label i := by
  rw [attach]
  split
  · next hlt =>
    obtain ⟨slot, hslot⟩ : ∃ slot, p.slots[i]? = some slot := ⟨_, List.getElem?_eq_getElem hlt⟩
    exact Or.inl ⟨_, (List.getElem?_modify_eq ..).trans (congrArg _ hslot), hf _⟩
  · next hge => exact Or.inr ⟨Nat.le_antisymm hi (Nat.le_of_not_lt hge), hf _⟩

/-- The labels of a slot that is deleted go with what takes its place. -/
theorem at_removeAt (h : p.At label k) (hi : i < p.size) :
    (p.removeAt i).At label (shiftDown i k) := by
  obtain ⟨gone, hgone⟩ : ∃ gone, p.slots[i]? = some gone := ⟨_, List.getElem?_eq_getElem hi⟩
  have hsize : { p with slots := p.slots.eraseIdx i }.size = p.size - 1 :=
    List.length_eraseIdx_of_lt hi
  rw [removeAt, hgone]
  rcases Decidable.eq_or_ne k i with rfl | hne
  · have hlabel : label ∈ gone.labels := by
      rcases h with ⟨slot, hslot, hlabel⟩ | ⟨rfl, -⟩
      · rwa [Option.some.inj (hgone.symm.trans hslot)]
      · exact absurd hi (Nat.lt_irrefl _)
    rw [shiftDown_of_le (Nat.le_refl k)]
    exact at_attach_of_mem (by rw [hsize]; omega) fun _ => List.mem_append_left _ hlabel
  · have herased : At { p with slots := p.slots.eraseIdx i } label (shiftDown i k) := by
      rcases h with ⟨slot, hslot, hlabel⟩ | ⟨rfl, hlabel⟩
      · exact Or.inl ⟨slot, (getElem?_eraseIdx_shiftDown _ hne).trans hslot, hlabel⟩
      · exact Or.inr ⟨(shiftDown_of_lt hi).trans hsize.symm, hlabel⟩
    exact at_attach herased (fun _ hmem => List.mem_append_right _ hmem) i

theorem at_label (h : p.At label k) (i : Nat) : (p.label i).At label k :=
  at_attach h (fun _ hlabel => List.mem_append_left _ hlabel) i

theorem at_retainItems (h : p.At label k) (keep : DebugItem → Bool) :
    (p.retainItems keep).At label k :=
  at_of_map h (List.map_map ..) rfl

theorem instructionAt_eq_ok_iff {x : Instruction Label} :
    p.instructionAt i = .ok x ↔ p.slots[i]?.map (·.instruction) = some x := by
  rw [instructionAt]
  cases p.slots[i]? with
  | none => simp
  | some slot => simp

/-- An edit moves a label as it moves the position at which the label stands. -/
theorem at_of_edit {e : Edit} {a : Answer} (he : p.edit e = .ok (a, p')) (h : p.At label k) :
    p'.At label (e.renumber p.size k) := by
  cases e with
  | append x =>
    obtain ⟨-, -, ⟨⟩⟩ := bind_eq_ok_iff.1 he
    exact at_append h x
  | insert i x =>
    obtain ⟨-, -, he⟩ := bind_eq_ok_iff.1 he
    obtain ⟨-, -, ⟨⟩⟩ := bind_eq_ok_iff.1 he
    by_cases hi : i < p.size
    · have hrenumber : (Edit.insert i x).renumber p.size k = shiftUp i k := by
        simp [Edit.renumber, shiftUp, hi]
      exact hrenumber ▸ at_insertAt h hi x
    · have hrenumber : (Edit.insert i x).renumber p.size k = k := by simp [Edit.renumber, hi]
      rw [hrenumber, insertAt, if_neg hi]
      exact at_append h x
  | replace i x =>
    obtain ⟨old, -, he⟩ := bind_eq_ok_iff.1 he
    obtain ⟨-, -, ⟨⟩⟩ := bind_eq_ok_iff.1 he
    exact at_replaceAt h i x
  | remove i =>
    obtain ⟨old, hold, ⟨⟩⟩ := bind_eq_ok_iff.1 he
    obtain ⟨slot, hslot, -⟩ := Option.map_eq_some_iff.1 (instructionAt_eq_ok_iff.1 hold)
    exact at_removeAt h (List.getElem?_eq_some_iff.1 hslot).1
  | swap i j =>
    obtain ⟨-, -, he⟩ := bind_eq_ok_iff.1 he
    obtain ⟨-, -, ⟨⟩⟩ := bind_eq_ok_iff.1 he
    exact at_swapAt h i j
  | labelAt i =>
    obtain ⟨-, -, ⟨⟩⟩ := bind_eq_ok_iff.1 he
    exact at_label h i
  | labelAtAddress address =>
    rw [edit] at he
    split at he
    · cases he
    · cases he
      exact at_label h _
  | addTry entry =>
    obtain ⟨-, -, ⟨⟩⟩ := bind_eq_ok_iff.1 he
    exact h
  | addDebugItem i item =>
    obtain ⟨-, -, ⟨⟩⟩ := bind_eq_ok_iff.1 he
    exact at_attach h (fun _ hlabel => hlabel) i
  | removeDebugItems i =>
    obtain ⟨-, -, ⟨⟩⟩ := bind_eq_ok_iff.1 he
    exact at_attach h (fun _ hlabel => hlabel) i
  | retainDebugItems keep =>
    cases he
    exact at_retainItems h keep

end Page

namespace Store

/-- Carries out an edit of a store. -/
def perform : Page.Edit → StoreM Page.Answer
  | .append i => do
    append i
    return .done
  | .insert index i => do
    insert index i
    return .done
  | .replace index i => return .instruction (← replace index i)
  | .remove index => return .instruction (← remove index)
  | .swap index₁ index₂ => do
    swap index₁ index₂
    return .done
  | .labelAt index => return .label (← labelAt index)
  | .labelAtAddress address => return .label (← labelAtAddress address)
  | .addTry entry => do
    addTry entry
    return .done
  | .addDebugItem index item => do
    addDebugItem index item
    return .done
  | .removeDebugItems index => return .items (← removeDebugItems index)
  | .retainDebugItems keep => do
    retainDebugItems keep
    return .done

/-- The page that a store shows: what its cells hold, in order. -/
def page (s : Store) : Page where
  id := s.id
  issued := s.places.size
  slots := s.cells.filterMap fun cell => cell.instruction?.map fun i =>
    ⟨i, cell.point.labels.toList, cell.point.items.toList⟩
  endLabels := ((s.cell? s.size).map (·.point.labels.toList)).getD []
  endItems := ((s.cell? s.size).map (·.point.items.toList)).getD []

end Store

end Dalvik
