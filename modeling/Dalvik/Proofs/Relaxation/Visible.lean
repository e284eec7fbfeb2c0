import Dalvik.Proofs.Relaxation.Settling

/-!
# What shows that a sweep has repaired something

What the cursor of a sweep has passed stays as it is, apart from a `nop` right in front of the cursor,
which may still turn out to be a gap (`Bound.Fixed`).  So whatever a sweep does first can be told when
the sweep is over: a longer jump is where it got longer, and so is a gap that was closed or opened; a
table that was removed is one table fewer.  A sweep that repairs anything therefore leaves other code
than it found (`Bound.instructions_sweep_ne`), and if everything was tidy, a jump is longer than it
was (`Bound.exists_longer_of_sweep`).
-/

namespace Dalvik

/-- One for a switch table, and nothing for anything else. -/
def Instruction.tables {τ : Type} : Instruction τ → Nat
  | .op .. => 0
  | .data p => p.isSwitchTable.toNat

namespace Bound

variable {b b' : Bound} {draft j k : Nat}

/-! ### What the cursor has passed -/

/-- Position `j` is behind a cursor at `n`, and no repair at the cursor takes away what it holds. -/
def Fixed (b : Bound) (n j : Nat) : Prop :=
  j < n ∧ (j + 1 < n ∨ b.listing.instructions[j]? ≠ some .nop)

/-- What is fixed stays so if it stays as it is and the cursor does not move back. -/
theorem Fixed.mono {m n : Nat} (h : b.Fixed m j) (hle : m ≤ n)
    (hsame : b'.listing.instructions[j]? = b.listing.instructions[j]?) : b'.Fixed n j := by
  obtain ⟨hlt, hbefore⟩ := h
  rw [Fixed, hsame]
  exact ⟨Nat.lt_of_lt_of_le hlt hle, hbefore.imp_left fun hlt => Nat.lt_of_lt_of_le hlt hle⟩

/-- A repair leaves alone what is fixed. -/
theorem Diagnosis.getElem?_repair {action : Repair} (h : b.Diagnosis k action)
    (hj : b.Fixed k j) :
    (b.repair k action).1.listing.instructions[j]? = b.listing.instructions[j]? := by
  obtain ⟨hlt, hbefore⟩ := hj
  cases h with
  | plain => rfl
  | near => rfl
  | far =>
    simp only [repair, replaceAt, Listing.instructions_replaceAt]
    exact List.getElem?_set_ne (by omega)
  | orphan =>
    simp only [repair, removeAt, Listing.instructions_removeAt]
    exact List.getElem?_eraseIdx_of_lt hlt
  | aligned => rfl
  | @gap p before hk _ _ _ hnop =>
    subst hk
    -- the `nop` that goes is not fixed
    have hne : j ≠ before := by
      rintro rfl
      exact hbefore.elim (Nat.lt_irrefl _) fun hne => hne hnop
    simp only [repair, removeAt, Listing.instructions_removeAt]
    exact List.getElem?_eraseIdx_of_lt (by omega)
  | tight hi =>
    have hle := Nat.le_of_lt (lt_size_of_getElem? hi)
    simp only [repair, insertAt, Listing.instructions_insertAt _ hle]
    exact List.getElem?_insertIdx_of_lt hlt

/-- The cursor does not move back. -/
theorem le_repair (b : Bound) (k : Nat) (action : Repair) : k ≤ (b.repair k action).2 := by
  cases action with
  | keep => exact Nat.le_succ k
  | widen => exact Nat.le_succ k
  | drop => exact Nat.le_refl k
  | closeGap => exact Nat.le_refl k
  | openGap => exact Nat.le_add_right k 2

/-- The rest of a sweep leaves alone what is fixed. -/
theorem getElem?_sweepFrom (left : Nat) {index : Nat} (hsize : b.listing.size = index + left)
    (hj : b.Fixed index j) :
    (b.sweepFrom b.listing.survey left index).1.listing.instructions[j]? =
      b.listing.instructions[j]? := by
  induction left generalizing b index with
  | zero => rw [sweepFrom]
  | succ left ih =>
    have hdiagnosis := b.diagnosis (k := index) (by omega)
    have hsame := hdiagnosis.getElem?_repair hj
    have hfixed := hj.mono (b.le_repair index (b.repairAt b.listing.survey index)) hsame
    by_cases hkeep : b.repairAt b.listing.survey index = .keep
    · rw [sweepFrom_of_keep hkeep]
      rw [hkeep] at hfixed
      exact ih (by omega) hfixed
    · rw [sweepFrom_of_ne_keep hkeep]
      exact (ih (hdiagnosis.size_repair hsize) hfixed).trans hsame

/-! ### What a repair leaves to be seen -/

/-- The number of switch tables. -/
def tables (b : Bound) : Nat := b.total Instruction.tables

/-- No repair makes a table. -/
theorem tables_le_of_mends (h : Relation.ReflTransGen Mends b b') : b'.tables ≤ b.tables :=
  total_le_of_mends (f := Instruction.tables) h rfl fun _ _ _ _ _ => Nat.le_refl 0

/-- A jump that has got longer is fixed. -/
theorem fixed_replaceAt_goto {i : Instruction Label} (hi : b.listing.instructions[k]? = some i)
    (wider : Reach) (label : Label) :
    (b.replaceAt k (.goto wider label)).listing.instructions[k]? = some (.goto wider label) ∧
      (b.replaceAt k (.goto wider label)).Fixed (k + 1) k := by
  have hself : (b.replaceAt k (.goto wider label)).listing.instructions[k]? =
      some (.goto wider label) := by
    rw [replaceAt, Listing.instructions_replaceAt,
      List.getElem?_set_self (List.getElem?_eq_some_iff.1 hi).1]
  refine ⟨hself, Nat.lt_succ_self k, .inr fun hnop => ?_⟩
  exact Instruction.goto_ne_nop wider label (Option.some.inj (hself.symm.trans hnop))

/-- Unless a repair leaves fewer tables, what it did stands behind the cursor. -/
theorem Diagnosis.exists_fixed_or_tables_lt {action : Repair} (h : b.Diagnosis k action)
    (hne : action ≠ .keep) :
    (∃ j, (b.repair k action).1.Fixed (b.repair k action).2 j ∧
      (b.repair k action).1.listing.instructions[j]? ≠ b.listing.instructions[j]?) ∨
    (b.repair k action).1.tables < b.tables := by
  cases h with
  | plain => exact absurd rfl hne
  | near => exact absurd rfl hne
  | @far o r wider label stop hi _ _ hshort =>
    obtain ⟨hself, hfixed⟩ := fixed_replaceAt_goto hi wider label
    refine .inl ⟨k, hfixed, ?_⟩
    intro hsame
    have hgoto := Option.some.inj ((hself.symm.trans hsame).trans hi)
    obtain ⟨-, hjump⟩ := Instruction.op.inj hgoto
    obtain ⟨rfl, -⟩ := Operands.jump.inj hjump
    exact Nat.lt_irrefl _ hshort
  | @orphan p hi htable _ =>
    refine .inr ?_
    have hsum := total_removeAt Instruction.tables hi
    have hone : Instruction.tables (.data p) = 1 := by rw [Instruction.tables, htable]; rfl
    simp only [repair, tables]
    omega
  | aligned => exact absurd rfl hne
  | @gap p before hk hi _ _ hnop =>
    subst hk
    have hself : (b.removeAt before).listing.instructions[before]? = some (.data p) := by
      rw [removeAt, Listing.instructions_removeAt,
        List.getElem?_eraseIdx_of_ge (Nat.le_refl before), hi]
    refine .inl ⟨before, ⟨Nat.lt_succ_self before, .inr ?_⟩, ?_⟩
    · intro hnop'
      cases hself.symm.trans hnop'
    · intro hsame
      cases (hself.symm.trans hsame).trans hnop
  | @tight p hi _ _ =>
    have hle := Nat.le_of_lt (lt_size_of_getElem? hi)
    have hself : (b.insertAt k .nop).listing.instructions[k]? = some .nop := by
      rw [insertAt, Listing.instructions_insertAt _ hle, List.getElem?_insertIdx_self,
        if_pos (by simpa using hle)]
    refine .inl ⟨k, ⟨by simp only [repair]; omega, .inl (by simp only [repair]; omega)⟩, ?_⟩
    intro hsame
    cases (hself.symm.trans hsame).trans hi

/-! ### What a sweep leaves to be seen -/

/-- A sweep that repairs anything leaves other code than it found. -/
theorem instructions_sweep_ne (hb : b.Ready draft) (hchanged : b.sweep.2 = true) :
    b.sweep.1.listing.instructions ≠ b.listing.instructions := by
  obtain ⟨k, rest, hrest, hbefore, -, hkeep, hsweep⟩ := exists_sweepFrom_eq _ hb.linked
    (Nat.zero_add _).symm b.tidyUpTo_zero hchanged
  have hdiagnosis := b.diagnosis (k := k) (by omega)
  have hleft := hdiagnosis.size_repair hrest
  rw [sweep, hsweep, sweepFrom_of_ne_keep hkeep]
  intro hsame
  rcases hdiagnosis.exists_fixed_or_tables_lt hkeep with ⟨j, hfixed, hne⟩ | hfewer
  · refine hne ?_
    rw [← getElem?_sweepFrom rest hleft hfixed, hsame]
  · have hchain := (mends_sweepFrom rest ((hdiagnosis.mends hkeep).ready hb) hleft
      (hdiagnosis.tidyUpTo hb.linked hbefore)).1
    have hle := tables_le_of_mends hchain
    rw [tables, total, hsame] at hle
    exact absurd hfewer (Nat.not_lt_of_le hle)

/-- A sweep of a tidy listing first makes a jump longer, if it repairs anything, and the jump stays
where it is. -/
theorem exists_longer_of_sweep (hb : b.Ready draft) (htidy : b.Tidy)
    (hchanged : b.sweep.2 = true) :
    ∃ (k : Nat) (r wider : Reach) (label : Label), r.units < wider.units ∧
      (∀ j < k, b.repairAt b.listing.survey j = .keep) ∧
      b.repairAt b.listing.survey k = .widen wider label ∧
      b.listing.instructions[k]? = some (.goto r label) ∧
      b.sweep.1.listing.instructions[k]? = some (.goto wider label) := by
  obtain ⟨k, rest, hrest, -, hpassed, hkeep, hsweep⟩ := exists_sweepFrom_eq _ hb.linked
    (Nat.zero_add _).symm b.tidyUpTo_zero hchanged
  have hdiagnosis := b.diagnosis (k := k) (by omega)
  have hleft := hdiagnosis.size_repair hrest
  obtain ⟨o, r, wider, label, hi, hshort, haction⟩ := htidy.exists_far hdiagnosis hkeep
  have hgoto := Instruction.eq_goto_of_valid (hb.listing.valid _ (List.mem_of_getElem? hi))
  refine ⟨k, r, wider, label, hshort, fun j => hpassed j (Nat.zero_le j), haction, hgoto ▸ hi, ?_⟩
  obtain ⟨hself, hfixed⟩ := fixed_replaceAt_goto hi wider label
  rw [sweep, hsweep, sweepFrom_of_ne_keep hkeep]
  rw [haction] at hleft ⊢
  rw [getElem?_sweepFrom rest hleft hfixed]
  exact hself

end Bound

end Dalvik
