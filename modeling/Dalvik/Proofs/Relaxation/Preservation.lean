import Dalvik.Proofs.Relaxation.Settling
import Mathlib.Data.Nat.Count

/-!
# What relaxation preserves

Apart from plain `nop`s and from tables that no switch reaches, nothing in the code gets lost and
nothing is added: the instructions at the remaining positions (`Listing.isCore`) stay in their order,
and only jumps get longer.  Since positions change, where something stands is told by the number of
core instructions in front of it (`Listing.coresBefore`), that is, by the core instruction that comes
next.

`Listing.Preserved` says that two listings agree in this sense.  It holds across every single repair,
hence across all of relaxation.
-/

namespace Dalvik

variable {α : Type}

/-! ### Elements at selected positions -/

/-- The elements at the positions that are selected, the first one being at position `n`. -/
def selected (p : Nat → Bool) : Nat → List α → List α
  | _, [] => []
  | n, x :: rest => if p n then x :: selected p (n + 1) rest else selected p (n + 1) rest

/-- Positions may be counted from elsewhere if the same ones are selected. -/
theorem selected_congr {p q : Nat → Bool} (xs : List α) {m n : Nat}
    (h : ∀ j, q (n + j) = p (m + j)) : selected q n xs = selected p m xs := by
  induction xs generalizing m n with
  | nil => rfl
  | cons x rest ih =>
    have hhead : q n = p m := by simpa using h 0
    have htail : selected q (n + 1) rest = selected p (m + 1) rest := by
      refine ih fun j => ?_
      have hj := h (j + 1)
      rwa [show n + (j + 1) = n + 1 + j by omega, show m + (j + 1) = m + 1 + j by omega] at hj
    rw [selected, selected, hhead, htail]

/-- Adding what is not selected changes nothing. -/
theorem selected_insertIdx {p q : Nat → Bool} (xs : List α) (x : α) {k n : Nat}
    (hk : k ≤ xs.length) (hnew : q (n + k) = false)
    (hold : ∀ j, q (n + shiftUp k j) = p (n + j)) :
    selected q n (xs.insertIdx k x) = selected p n xs := by
  induction xs generalizing k n with
  | nil =>
    obtain rfl : k = 0 := by simpa using hk
    rw [Nat.add_zero] at hnew
    simp [selected, hnew]
  | cons y rest ih =>
    cases k with
    | zero =>
      rw [Nat.add_zero] at hnew
      rw [List.insertIdx_zero, selected, hnew, if_neg Bool.false_ne_true]
      refine selected_congr _ fun j => ?_
      have hj := hold j
      rwa [shiftUp_of_le (Nat.zero_le j), show n + (j + 1) = n + 1 + j by omega] at hj
    | succ k =>
      have hhead : q n = p n := by simpa [shiftUp] using hold 0
      have htail : selected q (n + 1) (rest.insertIdx k x) = selected p (n + 1) rest := by
        refine ih (Nat.le_of_succ_le_succ hk) ?_ fun j => ?_
        · rwa [show n + 1 + k = n + (k + 1) by omega]
        · have hj := hold (j + 1)
          have hshift : shiftUp (k + 1) (j + 1) = shiftUp k j + 1 := by
            unfold shiftUp
            split <;> split <;> omega
          rwa [hshift, show n + (shiftUp k j + 1) = n + 1 + shiftUp k j by omega,
            show n + (j + 1) = n + 1 + j by omega] at hj
      rw [List.insertIdx_succ_cons, selected, selected, hhead, htail]

/-- Removing what is not selected changes nothing. -/
theorem selected_eraseIdx {p q : Nat → Bool} (xs : List α) {k n : Nat} (hk : k < xs.length)
    (hgone : p (n + k) = false) (hold : ∀ j, q (n + j) = p (n + shiftUp k j)) :
    selected q n (xs.eraseIdx k) = selected p n xs := by
  have hback : (xs.eraseIdx k).insertIdx k xs[k] = xs := List.insertIdx_eraseIdx_getElem hk
  have hlength : k ≤ (xs.eraseIdx k).length := by
    rw [List.length_eraseIdx_of_lt hk]
    omega
  have hinsert := selected_insertIdx (xs.eraseIdx k) xs[k] hlength hgone fun j => (hold j).symm
  rw [hback] at hinsert
  exact hinsert.symm

/-- Exchanging an element exchanges it among those that are selected. -/
theorem selected_set {R : α → α → Prop} (hrefl : ∀ x, R x x) {p : Nat → Bool} (xs : List α)
    {k n : Nat} {x y : α} (hx : xs[k]? = some x) (hxy : R x y) :
    List.Forall₂ R (selected p n xs) (selected p n (xs.set k y)) := by
  induction xs generalizing k n with
  | nil => simp at hx
  | cons z rest ih =>
    cases k with
    | zero =>
      obtain rfl : z = x := by simpa using hx
      rw [List.set_cons_zero, selected, selected]
      have hrest : List.Forall₂ R (selected p (n + 1) rest) (selected p (n + 1) rest) :=
        List.forall₂_same.2 fun x _ => hrefl x
      split
      · exact .cons hxy hrest
      · exact hrest
    | succ k =>
      rw [List.set_cons_succ, selected, selected]
      have hrest := ih (n := n + 1) (k := k) (by simpa using hx)
      split
      · exact .cons (hrefl z) hrest
      · exact hrest

/-- As many are selected in front of a position as before something else was added. -/
theorem count_shiftUp {p q : Nat → Bool} {k : Nat} (hnew : q k = false)
    (hold : ∀ j, q (shiftUp k j) = p j) (j : Nat) :
    Nat.count (q ·) (shiftUp k j) = Nat.count (p ·) j := by
  induction j with
  | zero =>
    rcases Nat.eq_zero_or_pos k with rfl | hpos
    · simp [shiftUp, Nat.count_succ, hnew]
    · simp [shiftUp, Nat.not_le_of_lt hpos]
  | succ j ih =>
    have hj := hold j
    rcases Nat.lt_trichotomy (j + 1) k with hlt | heq | hgt
    · rw [shiftUp_of_lt (by omega)] at hj ih ⊢
      rw [Nat.count_succ, Nat.count_succ, ih, hj]
    · rw [shiftUp_of_lt (by omega)] at hj ih
      rw [shiftUp_of_le (by omega), Nat.count_succ, heq, hnew, ← heq, Nat.count_succ,
        Nat.count_succ, ih, hj]
      simp
    · rw [shiftUp_of_le (by omega)] at hj ih
      have hlast := Nat.count_succ (q ·) (j + 1)
      rw [ih, hj] at hlast
      rw [shiftUp_of_le (by omega), hlast, Nat.count_succ]

/-- As many are selected in front of a position as before something else was removed. -/
theorem count_shiftDown {p q : Nat → Bool} {k : Nat} (hgone : p k = false)
    (hold : ∀ j, q j = p (shiftUp k j)) (j : Nat) :
    Nat.count (q ·) (shiftDown k j) = Nat.count (p ·) j := by
  rw [← count_shiftUp hgone fun j => (hold j).symm]
  rcases Nat.lt_trichotomy j k with hlt | rfl | hgt
  · rw [shiftDown_of_le (by omega), shiftUp_of_lt hlt]
  · rw [shiftDown_of_le (Nat.le_refl j), shiftUp_of_le (Nat.le_refl j), Nat.count_succ, hgone]
    simp
  · rw [shiftDown_of_lt hgt, shiftUp_of_le (by omega), Nat.sub_add_cancel (by omega)]

/-! ### The core of a listing -/

namespace Instruction

variable {τ : Type}

/-- Whether this is the table of a switch. -/
def isSwitchTable : Instruction τ → Bool
  | op .. => false
  | data p => p.isSwitchTable

/-- A jump that may have become longer. -/
def Widened (i j : Instruction τ) : Prop :=
  i = j ∨ ∃ (r wider : Reach) (t : τ), i = goto r t ∧ j = goto wider t ∧ r.units < wider.units

theorem Widened.trans {i j k : Instruction τ} (h : i.Widened j) (h' : j.Widened k) :
    i.Widened k := by
  rcases h with rfl | ⟨r, wider, t, rfl, rfl, hlt⟩
  · exact h'
  · rcases h' with rfl | ⟨r', wider', t', hgoto, rfl, hlt'⟩
    · exact Or.inr ⟨r, wider, t, rfl, rfl, hlt⟩
    · obtain ⟨-, hjump⟩ := op.inj hgoto
      obtain ⟨rfl, rfl⟩ := Operands.jump.inj hjump
      exact Or.inr ⟨r, wider', t, rfl, rfl, Nat.lt_trans hlt hlt'⟩

end Instruction

theorem forall₂_widened_trans {τ : Type} {xs ys zs : List (Instruction τ)}
    (h : List.Forall₂ Instruction.Widened xs ys) (h' : List.Forall₂ Instruction.Widened ys zs) :
    List.Forall₂ Instruction.Widened xs zs := by
  induction h generalizing zs with
  | nil => exact h'
  | cons hhead _ ih =>
    cases h' with
    | cons hhead' htail' => exact .cons (hhead.trans hhead') (ih htail')

namespace Listing

variable {l l' l'' : Listing}

/-- Whether some switch reaches the table at a position. -/
def isReached (l : Listing) (k : Nat) : Bool := decide (∃ switch < l.size, l.Reaches switch k)

/-- Whether the instruction at a position is there for its own sake: it is not a plain `nop`, nor the
table of a switch that no switch reaches. -/
def isCore (l : Listing) (k : Nat) : Bool :=
  match l.instructions[k]? with
  | none => false
  | some i => !i.isNop && (!i.isSwitchTable || l.isReached k)

/-- The core instructions in order. -/
def core (l : Listing) : List (Instruction Label) := selected l.isCore 0 l.instructions

/-- Number of core instructions in front of a position.  It tells which one is the next from there on,
the position included, and whether there is one at all. -/
def coresBefore (l : Listing) (k : Nat) : Nat := Nat.count (l.isCore ·) k

/-- Two listings have the same core, up to the length of jumps, and labels and debug items stand in
front of the same core instructions in both. -/
structure Preserved (l l' : Listing) : Prop where
  /-- The core is the same, but jumps may have become longer. -/
  core : List.Forall₂ Instruction.Widened l.core l'.core
  /-- Labels stand in front of the same core instructions. -/
  marks : l'.marks.map (Prod.map l'.coresBefore id) = l.marks.map (Prod.map l.coresBefore id)
  /-- Debug items are pinned in front of the same core instructions, in the same order. -/
  items : l'.debugItems.map (Prod.map l'.coresBefore id) =
    l.debugItems.map (Prod.map l.coresBefore id)

theorem Preserved.refl (l : Listing) : l.Preserved l :=
  ⟨List.forall₂_same.2 fun _ _ => Or.inl rfl, rfl, rfl⟩

theorem Preserved.trans (h : l.Preserved l') (h' : l'.Preserved l'') : l.Preserved l'' where
  core := forall₂_widened_trans h.core h'.core
  marks := h'.marks.trans h.marks
  items := h'.items.trans h.items

/-- A label that is preserved stands in front of the same core instruction. -/
theorem Preserved.locate? (h : l.Preserved l') {draft : Nat} (hl : l.Coherent draft)
    (hl' : l'.Coherent draft) {label : Label} (hlabel : label.draft = draft) {k : Nat}
    (hk : l.locate? label = some k) :
    ∃ k', l'.locate? label = some k' ∧ l'.coresBefore k' = l.coresBefore k := by
  have hmem : (l.coresBefore k, label) ∈ l.marks.map (Prod.map l.coresBefore id) :=
    List.mem_map.2 ⟨(k, label), (hl.locate?_eq_some_iff hlabel).1 hk, rfl⟩
  rw [← h.marks] at hmem
  obtain ⟨⟨k', label'⟩, hmem', heq⟩ := List.mem_map.1 hmem
  obtain ⟨hcount, rfl⟩ := Prod.mk.inj heq
  exact ⟨k', (hl'.locate?_eq_some_iff hlabel).2 hmem', hcount⟩

/-- If positions are renumbered by `f`, which keeps count of the core instructions, the labels and
debug items are preserved. -/
theorem Preserved.of_map {f : Nat → Nat} (hcore : List.Forall₂ Instruction.Widened l.core l'.core)
    (hmarks : l'.marks = l.marks.map (Prod.map f id))
    (hitems : l'.debugItems = l.debugItems.map (Prod.map f id))
    (hcount : ∀ j, l'.coresBefore (f j) = l.coresBefore j) : l.Preserved l' where
  core := hcore
  marks := by
    rw [hmarks, List.map_map]
    exact List.map_congr_left fun m _ => Prod.ext (hcount m.1) rfl
  items := by
    rw [hitems, List.map_map]
    exact List.map_congr_left fun m _ => Prod.ext (hcount m.1) rfl

end Listing

namespace Bound

variable {b b' : Bound} {draft k : Nat}

/-- A switch reaches a table exactly if the table has an owner. -/
theorem Linked.isReached_eq (h : b.Linked) (k : Nat) :
    b.listing.isReached k = (b.owners.of? k).isSome := by
  rw [Bool.eq_iff_iff, Listing.isReached, decide_eq_true_eq, h.of?_isSome_iff]
  constructor
  · rintro ⟨switch, -, hr⟩
    exact ⟨switch, hr⟩
  · rintro ⟨switch, hr⟩
    obtain ⟨i, label, hi, -⟩ := hr.switchTarget?
    exact ⟨switch, lt_size_of_getElem? hi, hr⟩

/-- Whether an instruction is a core instruction depends on itself and on who owns it. -/
theorem Linked.isCore_congr (h : b.Linked) (h' : b'.Linked) {j j' : Nat}
    (hi : b'.listing.instructions[j']? = b.listing.instructions[j]?)
    (howner : (b'.owners.of? j').isSome = (b.owners.of? j).isSome) :
    b'.listing.isCore j' = b.listing.isCore j := by
  rw [Listing.isCore, Listing.isCore, hi, h.isReached_eq, h'.isReached_eq, howner]

theorem isCore_of_goto {r : Reach} {label : Label}
    (hi : b.listing.instructions[k]? = some (.goto r label)) : b.listing.isCore k = true := by
  rw [Listing.isCore, hi]
  cases r <;> rfl

/-- A table that nobody owns is no core instruction. -/
theorem Linked.isCore_of_orphan (h : b.Linked) {p : Payload Label}
    (hi : b.listing.instructions[k]? = some (.data p)) (htable : p.isSwitchTable = true)
    (hfree : b.owners.of? k = none) : b.listing.isCore k = false := by
  rw [Listing.isCore, hi, h.isReached_eq, hfree]
  simp [Instruction.isSwitchTable, htable]

theorem isCore_of_nop (hnop : b.listing.instructions[k]? = some .nop) :
    b.listing.isCore k = false := by
  rw [Listing.isCore, hnop]
  rfl

/-- Adding a nop preserves the core. -/
theorem preserved_insertAt_nop (h : b.Linked) (h' : (b.insertAt k .nop).Linked)
    (hk : k < b.listing.size) : b.listing.Preserved (b.insertAt k .nop).listing := by
  have hsize := Nat.le_of_lt hk
  have hlength : k ≤ b.listing.instructions.length := by simpa using hsize
  have hinstructions : (b.insertAt k .nop).listing.instructions =
      b.listing.instructions.insertIdx k .nop := Listing.instructions_insertAt _ hsize _
  have hnew : (b.insertAt k .nop).listing.isCore k = false := by
    refine isCore_of_nop ?_
    rw [hinstructions, List.getElem?_insertIdx_self, if_pos hlength]
  have hold : ∀ j, (b.insertAt k .nop).listing.isCore (shiftUp k j) = b.listing.isCore j := by
    intro j
    refine h.isCore_congr h' ?_ ?_
    · rw [hinstructions, getElem?_insertIdx_shiftUp]
    · rw [Bound.insertAt, Owners.of?_insertAt, Option.isSome_map]
  refine .of_map ?_ (Listing.marks_insertAt _ hk _) (Listing.debugItems_insertAt _ hk _)
    (count_shiftUp hnew hold)
  have hcore : (b.insertAt k .nop).listing.core = b.listing.core := by
    rw [Listing.core, hinstructions]
    refine selected_insertIdx _ _ hlength ?_ fun j => ?_
    · rwa [Nat.zero_add]
    · rw [Nat.zero_add, Nat.zero_add, hold]
  rw [hcore]
  exact (Listing.Preserved.refl _).core

/-- Removing what is not in the core preserves it. -/
theorem preserved_removeAt (h : b.Linked) (h' : (b.removeAt k).Linked) (hk : k < b.listing.size)
    (hne : ∀ o ∈ b.owners, o.table ≠ k ∧ o.switch ≠ k) (hgone : b.listing.isCore k = false) :
    b.listing.Preserved (b.removeAt k).listing := by
  have hinstructions : (b.removeAt k).listing.instructions =
      b.listing.instructions.eraseIdx k := Listing.instructions_removeAt _ _
  have hold : ∀ j, (b.removeAt k).listing.isCore j = b.listing.isCore (shiftUp k j) := by
    intro j
    have hj := shiftUp_ne k j
    refine h.isCore_congr h' ?_ ?_
    · rw [hinstructions, ← getElem?_eraseIdx_shiftDown _ hj, shiftDown_shiftUp]
    · have hof := Owners.of?_removeAt hne hj
      rw [shiftDown_shiftUp] at hof
      rw [Bound.removeAt, hof, Option.isSome_map]
  refine .of_map ?_ (Listing.marks_removeAt _ hk) (Listing.debugItems_removeAt _ hk)
    (count_shiftDown hgone hold)
  have hcore : (b.removeAt k).listing.core = b.listing.core := by
    rw [Listing.core, hinstructions]
    refine selected_eraseIdx _ (by simpa using hk) ?_ fun j => ?_
    · rwa [Nat.zero_add]
    · rw [Nat.zero_add, Nat.zero_add, hold]
  rw [hcore]
  exact (Listing.Preserved.refl _).core

/-- Making a jump longer preserves everything else. -/
theorem preserved_replaceAt_goto (h : b.Linked) {r wider : Reach} {label : Label}
    (h' : (b.replaceAt k (.goto wider label)).Linked)
    (hi : b.listing.instructions[k]? = some (.goto r label)) (hshort : r.units < wider.units) :
    b.listing.Preserved (b.replaceAt k (.goto wider label)).listing := by
  have hinstructions : (b.replaceAt k (.goto wider label)).listing.instructions =
      b.listing.instructions.set k (.goto wider label) := Listing.instructions_replaceAt _ _ _
  have hold : ∀ j, (b.replaceAt k (.goto wider label)).listing.isCore j = b.listing.isCore j := by
    intro j
    rcases Decidable.eq_or_ne k j with rfl | hne
    · -- the jump is a core instruction, however long it is
      rw [isCore_of_goto hi]
      have hnew : (b.replaceAt k (.goto wider label)).listing.instructions[k]? =
          some (.goto wider label) := by
        rw [hinstructions, List.getElem?_set_self (List.getElem?_eq_some_iff.1 hi).1]
      exact isCore_of_goto hnew
    · refine h.isCore_congr h' ?_ rfl
      rw [hinstructions, List.getElem?_set_ne hne]
  have hsame : (b.replaceAt k (.goto wider label)).listing.isCore = b.listing.isCore := funext hold
  refine ⟨?_, ?_, ?_⟩
  · rw [Listing.core, Listing.core, hinstructions, hsame]
    exact selected_set (R := Instruction.Widened) (fun _ => Or.inl rfl) _ hi (Or.inr ⟨r, wider, label, rfl, rfl, hshort⟩)
  · have hmarks : (b.replaceAt k (.goto wider label)).listing.marks = b.listing.marks :=
      Listing.marks_replaceAt _ _ _
    rw [hmarks]
    unfold Listing.coresBefore
    rw [hsame]
  · have hitems : (b.replaceAt k (.goto wider label)).listing.debugItems = b.listing.debugItems :=
      Listing.debugItems_replaceAt _ _ _
    rw [hitems]
    unfold Listing.coresBefore
    rw [hsame]

/-- A repair preserves all but nops and tables that no switch reaches. -/
theorem Mends.preserved (h : b.Mends b') (hb : b.Sound draft) :
    b.listing.Preserved b'.listing := by
  have hlinked := hb.linked
  have hlinked' := (h.sound hb).linked
  cases h with
  | widen hi hshort =>
    have hgoto := Instruction.eq_goto_of_valid (hb.listing.valid _ (List.mem_of_getElem? hi))
    rw [hgoto] at hi
    exact preserved_replaceAt_goto hlinked hlinked' hi hshort
  | drop hi htable hfree =>
    exact preserved_removeAt hlinked hlinked' (lt_size_of_getElem? hi)
      (hlinked.owners_ne hi (switchTarget?_data _) hfree) (hlinked.isCore_of_orphan hi htable hfree)
  | closeGap hnop _ _ =>
    exact preserved_removeAt hlinked hlinked' (lt_size_of_getElem? hnop)
      (hlinked.owners_ne hnop rfl (hlinked.of?_of_nop hnop)) (isCore_of_nop hnop)
  | openGap hi _ =>
    exact preserved_insertAt_nop hlinked hlinked' (lt_size_of_getElem? hi)

/-- So does a chain of repairs. -/
theorem preserved_of_mends (h : Relation.ReflTransGen Mends b b') (hb : b.Sound draft) :
    b.listing.Preserved b'.listing := by
  induction h with
  | refl => exact .refl _
  | tail hchain hstep ih => exact ih.trans (hstep.preserved (sound_of_mends hchain hb))

end Bound

/-! ### The repairs as edits of a listing -/

namespace Listing

/-- One repair, as an edit of the listing.  A `nop` goes or comes only right in front of data. -/
inductive RepairedTo (l : Listing) : Listing → Prop
  /-- A jump gets longer. -/
  | widen {k : Nat} {r wider : Reach} {label : Label}
      (hi : l.instruction? k = some (.goto r label)) (hshort : r.units < wider.units) :
      RepairedTo l (l.replaceAt k (.goto wider label))
  /-- A table that no switch reaches is removed. -/
  | dropTable {k : Nat} {p : Payload Label} (hi : l.instruction? k = some (.data p))
      (htable : p.isSwitchTable = true) (hfree : ∀ switch, ¬ l.Reaches switch k) :
      RepairedTo l (l.removeAt k)
  /-- A `nop` is removed that stands right in front of data. -/
  | removeNop {k : Nat} {p : Payload Label} (hnop : l.instruction? k = some .nop)
      (hi : l.instruction? (k + 1) = some (.data p)) : RepairedTo l (l.removeAt k)
  /-- A `nop` is added right in front of data. -/
  | addNop {k : Nat} {p : Payload Label} (hi : l.instruction? k = some (.data p)) :
      RepairedTo l (l.insertAt k .nop)

end Listing

namespace Bound

variable {b b' : Bound} {draft : Nat}

theorem Mends.repairedTo (h : b.Mends b') (hb : b.Sound draft) :
    b.listing.RepairedTo b'.listing := by
  cases h with
  | widen hi hshort =>
    have hgoto := Instruction.eq_goto_of_valid (hb.listing.valid _ (List.mem_of_getElem? hi))
    rw [hgoto, Listing.getElem?_instructions] at hi
    exact .widen hi hshort
  | @drop k p hi htable hfree =>
    rw [Listing.getElem?_instructions] at hi
    refine .dropTable hi htable fun switch hr => ?_
    rw [hb.linked.of?_eq_some_iff.2 hr] at hfree
    simp at hfree
  | closeGap hnop hi _ =>
    rw [Listing.getElem?_instructions] at hnop hi
    exact .removeNop hnop hi
  | openGap hi _ =>
    rw [Listing.getElem?_instructions] at hi
    exact .addNop hi

theorem repairedTo_of_mends (h : Relation.ReflTransGen Mends b b') (hb : b.Sound draft) :
    Relation.ReflTransGen Listing.RepairedTo b.listing b'.listing := by
  induction h with
  | refl => exact .refl
  | tail hchain hstep ih => exact ih.tail (hstep.repairedTo (sound_of_mends hchain hb))

end Bound

end Dalvik
