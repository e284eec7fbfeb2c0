import Dalvik.Proofs.Relaxation.Repair

/-!
# Sweeping until nothing is left to do

A sweep repairs the positions one after the other.  Behind the cursor everything stays tidy: payloads
are aligned and switch tables have owners (`Bound.TidyUpTo`), since a repair moves only what is in
front of it.  So the listing is tidy after a sweep, and from then on only jumps can be in need of
repair.  Every further sweep that changes anything therefore makes a jump longer, and sweeping ends
before the limit on the number of sweeps is reached.

`Bound.settled_settle` is the outcome: nothing is left to repair in a listing that has been settled.
-/

namespace Dalvik

namespace Bound

variable {b b' : Bound} {draft k : Nat}

/-! ### What is behind the cursor -/

/-- In front of position `n`, payloads are aligned and switch tables have owners. -/
def TidyUpTo (b : Bound) (n : Nat) : Prop :=
  ∀ j < n, ∀ p, b.listing.instructions[j]? = some (.data p) →
    Code.address b.listing.instructions j % 2 = 0 ∧
      (p.isSwitchTable = true → (b.owners.of? j).isSome = true)

/-- All payloads are aligned, and all switch tables have owners. -/
def Tidy (b : Bound) : Prop := b.TidyUpTo b.listing.size

theorem tidyUpTo_zero (b : Bound) : b.TidyUpTo 0 := fun j hj => absurd hj (Nat.not_lt_zero j)

/-- Whatever holds data that is aligned and owned may be passed. -/
theorem TidyUpTo.succ {n : Nat} (h : b.TidyUpTo n)
    (hn : ∀ p, b.listing.instructions[n]? = some (.data p) →
      Code.address b.listing.instructions n % 2 = 0 ∧
        (p.isSwitchTable = true → (b.owners.of? n).isSome = true)) : b.TidyUpTo (n + 1) := by
  intro j hj
  rcases Nat.lt_succ_iff_lt_or_eq.1 hj with hlt | rfl
  · exact h j hlt
  · exact hn

/-- Only what stands in front of a position, and who owns it, decides whether it is tidy up to
there. -/
theorem TidyUpTo.congr {n : Nat} (h : b.TidyUpTo n)
    (hcode : ∀ j < n, b'.listing.instructions[j]? = b.listing.instructions[j]? ∧
      Code.address b'.listing.instructions j = Code.address b.listing.instructions j)
    (howners : ∀ j < n, (b.owners.of? j).isSome = true → (b'.owners.of? j).isSome = true) :
    b'.TidyUpTo n := by
  intro j hj p hp
  obtain ⟨hsame, haddress⟩ := hcode j hj
  rw [hsame] at hp
  obtain ⟨heven, howned⟩ := h j hj p hp
  rw [haddress]
  exact ⟨heven, fun htable => howners j hj (howned htable)⟩

theorem TidyUpTo.replaceAt {n : Nat} (h : b.TidyUpTo n) (hk : n ≤ k) (i : Instruction Label) :
    (b.replaceAt k i).TidyUpTo n := by
  refine h.congr (fun j hj => ?_) fun j _ howned => howned
  simp only [Bound.replaceAt, Listing.instructions_replaceAt]
  exact ⟨List.getElem?_set_ne (by omega), Code.address_set_of_le _ i (by omega)⟩

theorem TidyUpTo.removeAt {n : Nat} (h : b.TidyUpTo n) (hk : n ≤ k)
    (hne : ∀ o ∈ b.owners, o.table ≠ k ∧ o.switch ≠ k) : (b.removeAt k).TidyUpTo n := by
  refine h.congr (fun j hj => ?_) fun j hj howned => ?_
  · simp only [Bound.removeAt, Listing.instructions_removeAt]
    exact ⟨List.getElem?_eraseIdx_of_lt (by omega), Code.address_eraseIdx_of_le _ (by omega)⟩
  · have hof := Owners.of?_removeAt hne (show j ≠ k by omega)
    rw [shiftDown_of_le (by omega)] at hof
    simpa [Bound.removeAt, hof] using howned

theorem TidyUpTo.insertAt {n : Nat} (h : b.TidyUpTo n) (hk : n ≤ k) (hsize : k ≤ b.listing.size)
    (i : Instruction Label) : (b.insertAt k i).TidyUpTo n := by
  refine h.congr (fun j hj => ?_) fun j hj howned => ?_
  · simp only [Bound.insertAt, Listing.instructions_insertAt _ hsize]
    exact ⟨List.getElem?_insertIdx_of_lt (by omega), Code.address_insertIdx_of_le _ i (by omega)⟩
  · have hof := Owners.of?_insertAt b.owners k j
    rw [shiftUp_of_lt (by omega)] at hof
    simpa [Bound.insertAt, hof] using howned

/-- A repair leaves everything tidy up to where the sweep goes on. -/
theorem Diagnosis.tidyUpTo {action : Repair} (h : b.Diagnosis k action) (hb : b.Linked)
    (htidy : b.TidyUpTo k) : (b.repair k action).1.TidyUpTo (b.repair k action).2 := by
  cases h with
  | plain hi _ =>
    refine htidy.succ fun p hp => ?_
    simp [hi] at hp
  | near hi _ =>
    refine htidy.succ fun p hp => ?_
    simp [hi] at hp
  | @far o r wider label stop hi _ _ _ =>
    refine (htidy.replaceAt (Nat.le_refl k) (.goto wider label)).succ fun p hp => ?_
    have hk := (List.getElem?_eq_some_iff.1 hi).1
    simp [Bound.replaceAt, List.getElem?_set_self hk, Instruction.goto] at hp
  | orphan hi _ hfree =>
    exact htidy.removeAt (Nat.le_refl k) (hb.owners_ne hi (switchTarget?_data _) hfree)
  | aligned hi howned heven =>
    refine htidy.succ fun p hp => ?_
    rw [hi] at hp
    obtain rfl := Instruction.data.inj (Option.some.inj hp)
    exact ⟨heven, howned⟩
  | @gap p before hk hi howned hodd hnop =>
    subst hk
    have hne := hb.owners_ne hnop rfl (hb.of?_of_nop hnop)
    -- the payload takes the place of the nop
    have hbefore : b.TidyUpTo before := fun j hj => htidy j (Nat.lt_succ_of_lt hj)
    refine (hbefore.removeAt (Nat.le_refl before) hne).succ fun q hq => ?_
    simp only [Bound.removeAt, Listing.instructions_removeAt] at hq ⊢
    rw [List.getElem?_eraseIdx_of_ge (Nat.le_refl before), hi] at hq
    obtain rfl := Instruction.data.inj (Option.some.inj hq)
    have hunits : Code.address b.listing.instructions (before + 1) =
        Code.address b.listing.instructions before + 1 := Code.address_succ hnop
    rw [Code.address_eraseIdx_of_le _ (Nat.le_refl before)]
    refine ⟨by omega, fun htable => ?_⟩
    have hof := Owners.of?_removeAt hne (show before + 1 ≠ before by omega)
    rw [shiftDown_of_lt (Nat.lt_succ_self before), Nat.succ_sub_one] at hof
    rw [hof, Option.isSome_map]
    exact howned htable
  | @tight p hi howned hodd =>
    have hk := lt_size_of_getElem? hi
    have hsize := Nat.le_of_lt hk
    have hself : ((b.insertAt k .nop).listing.instructions)[k]? = some .nop := by
      simp only [Bound.insertAt, Listing.instructions_insertAt _ hsize]
      rw [List.getElem?_insertIdx_self, if_pos (by simpa using hsize)]
    have hnop : (b.insertAt k .nop).TidyUpTo (k + 1) := by
      refine (htidy.insertAt (Nat.le_refl k) hsize .nop).succ fun q hq => ?_
      rw [hself] at hq
      simp [Instruction.nop] at hq
    -- the payload comes right behind the new nop
    refine hnop.succ fun q hq => ?_
    rw [Code.address_succ hself]
    simp only [Bound.insertAt, Listing.instructions_insertAt _ hsize] at hq ⊢
    rw [List.getElem?_insertIdx_of_gt (Nat.lt_succ_self k), Nat.succ_sub_one, hi] at hq
    obtain rfl := Instruction.data.inj (Option.some.inj hq)
    rw [Code.address_insertIdx_of_le _ _ (Nat.le_refl k)]
    refine ⟨?_, fun htable => ?_⟩
    · show (Code.address b.listing.instructions k + 1) % 2 = 0
      omega
    · have hof := Owners.of?_insertAt b.owners k k
      rw [shiftUp_of_le (Nat.le_refl k)] at hof
      rw [hof, Option.isSome_map]
      exact howned htable

/-! ### One sweep -/

/-- Nothing is left to repair. -/
def Settled (b : Bound) : Prop :=
  ∀ k < b.listing.size, b.repairAt b.listing.survey k = .keep

instance (b : Bound) : Decidable b.Settled := inferInstanceAs (Decidable (∀ k < _, _))

/-- Where data is aligned and owned and jumps reach their targets, nothing is left to repair. -/
theorem settled_of_forall
    (hdata : ∀ k p, b.listing.instructions[k]? = some (.data p) →
      Code.address b.listing.instructions k % 2 = 0 ∧
        (p.isSwitchTable = true → (b.owners.of? k).isSome = true))
    (hjump : ∀ k o (r : Reach) label stop,
      b.listing.instructions[k]? = some (.op o (.jump r label)) →
      b.listing.survey.address? label = some stop →
        r.fits ((stop : Int) - Code.address b.listing.instructions k) = true) :
    b.Settled := by
  intro k hk
  have hdiagnosis := b.diagnosis hk
  generalize b.repairAt b.listing.survey k = action at hdiagnosis
  cases hdiagnosis with
  | plain => rfl
  | near => rfl
  | far hi hstop hwider hshort =>
    have hle := Reach.units_least_le_of_fits (hjump k _ _ _ _ hi hstop)
    rw [← hwider] at hle
    omega
  | orphan hi htable hfree =>
    have howned := (hdata k _ hi).2 htable
    rw [hfree] at howned
    simp at howned
  | aligned => rfl
  | gap _ hi _ hodd _ =>
    have heven := (hdata k _ hi).1
    omega
  | tight hi _ hodd =>
    have heven := (hdata k _ hi).1
    omega

theorem sweepFrom_of_keep {left index : Nat}
    (h : b.repairAt b.listing.survey index = .keep) :
    b.sweepFrom b.listing.survey (left + 1) index =
      b.sweepFrom b.listing.survey left (index + 1) := by
  rw [sweepFrom, h]

theorem sweepFrom_of_ne_keep {left index : Nat}
    (h : b.repairAt b.listing.survey index ≠ .keep) :
    b.sweepFrom b.listing.survey (left + 1) index =
      (((b.repair index (b.repairAt b.listing.survey index)).1.sweepFrom
        (b.repair index (b.repairAt b.listing.survey index)).1.listing.survey left
        (b.repair index (b.repairAt b.listing.survey index)).2).1, true) := by
  rw [sweepFrom]
  split
  · next hkeep => exact absurd hkeep h
  · rfl

/-- A sweep is a chain of repairs, after which everything that was swept is tidy. -/
theorem mends_sweepFrom (left : Nat) {index : Nat} (hb : b.Ready draft)
    (hsize : b.listing.size = index + left) (htidy : b.TidyUpTo index) :
    Relation.ReflTransGen Mends b (b.sweepFrom b.listing.survey left index).1 ∧
      (b.sweepFrom b.listing.survey left index).1.Tidy := by
  induction left generalizing b index with
  | zero =>
    rw [sweepFrom]
    refine ⟨.refl, ?_⟩
    rwa [Tidy, hsize]
  | succ left ih =>
    have hdiagnosis := b.diagnosis (k := index) (by omega)
    have hnext := hdiagnosis.tidyUpTo hb.linked htidy
    by_cases hkeep : b.repairAt b.listing.survey index = .keep
    · rw [sweepFrom_of_keep hkeep]
      rw [hkeep] at hnext
      exact ih hb (by omega) hnext
    · rw [sweepFrom_of_ne_keep hkeep]
      have hmends := hdiagnosis.mends hkeep
      obtain ⟨hchain, htidy'⟩ := ih (hmends.ready hb) (hdiagnosis.size_repair hsize) hnext
      exact ⟨hchain.head hmends, htidy'⟩

/-- A sweep that changes nothing has found nothing to repair. -/
theorem sweepFrom_eq_false_iff (left : Nat) {index : Nat} :
    (b.sweepFrom b.listing.survey left index).2 = false ↔
      ∀ k, index ≤ k → k < index + left → b.repairAt b.listing.survey k = .keep := by
  induction left generalizing index with
  | zero =>
    rw [sweepFrom]
    refine ⟨fun _ k hle hlt => ?_, fun _ => rfl⟩
    omega
  | succ left ih =>
    by_cases hkeep : b.repairAt b.listing.survey index = .keep
    · rw [sweepFrom_of_keep hkeep, ih]
      constructor
      · intro h k hle hlt
        rcases Nat.eq_or_lt_of_le hle with rfl | hgt
        · exact hkeep
        · exact h k hgt (by omega)
      · intro h k hle hlt
        exact h k (by omega) (by omega)
    · rw [sweepFrom_of_ne_keep hkeep]
      refine ⟨fun h => by simp at h, fun h => ?_⟩
      exact absurd (h index (Nat.le_refl index) (by omega)) hkeep

/-- If it has found nothing, the listing is as it was. -/
theorem sweepFrom_of_eq_false (left : Nat) {index : Nat}
    (h : (b.sweepFrom b.listing.survey left index).2 = false) :
    b.sweepFrom b.listing.survey left index = (b, false) := by
  induction left generalizing index with
  | zero => rw [sweepFrom]
  | succ left ih =>
    by_cases hkeep : b.repairAt b.listing.survey index = .keep
    · rw [sweepFrom_of_keep hkeep] at h ⊢
      exact ih h
    · rw [sweepFrom_of_ne_keep hkeep] at h
      simp at h

/-- A sweep that changes anything might as well start where it finds the first thing to repair. -/
theorem exists_sweepFrom_eq (left : Nat) {index : Nat} (hlinked : b.Linked)
    (hsize : b.listing.size = index + left) (htidy : b.TidyUpTo index)
    (hchanged : (b.sweepFrom b.listing.survey left index).2 = true) :
    ∃ k rest, b.listing.size = k + (rest + 1) ∧ b.TidyUpTo k ∧
      (∀ j, index ≤ j → j < k → b.repairAt b.listing.survey j = .keep) ∧
      b.repairAt b.listing.survey k ≠ .keep ∧
      b.sweepFrom b.listing.survey left index = b.sweepFrom b.listing.survey (rest + 1) k := by
  induction left generalizing index with
  | zero =>
    rw [sweepFrom] at hchanged
    simp at hchanged
  | succ left ih =>
    by_cases hkeep : b.repairAt b.listing.survey index = .keep
    · have hnext := (b.diagnosis (k := index) (by omega)).tidyUpTo hlinked htidy
      rw [hkeep] at hnext
      rw [sweepFrom_of_keep hkeep] at hchanged ⊢
      obtain ⟨k, rest, hrest, hbefore, hpassed, hrepair⟩ :=
        ih (show b.listing.size = index + 1 + left by omega) hnext hchanged
      refine ⟨k, rest, hrest, hbefore, fun j hle hlt => ?_, hrepair⟩
      rcases Nat.eq_or_lt_of_le hle with rfl | hgt
      · exact hkeep
      · exact hpassed j hgt hlt
    · exact ⟨index, left, hsize, htidy, fun j hle hlt => by omega, hkeep, rfl⟩

/-- In a tidy listing, what needs repair is a jump that falls short of its target. -/
theorem Tidy.exists_far (htidy : b.Tidy) {action : Repair} (h : b.Diagnosis k action)
    (hne : action ≠ .keep) : ∃ o r wider label,
      b.listing.instructions[k]? = some (.op o (.jump r label)) ∧ r.units < wider.units ∧
        action = .widen wider label := by
  cases h with
  | plain => exact absurd rfl hne
  | near => exact absurd rfl hne
  | far hi _ _ hshort => exact ⟨_, _, _, _, hi, hshort, rfl⟩
  | orphan hi htable hfree =>
    have howned := (htidy k (lt_size_of_getElem? hi) _ hi).2 htable
    rw [hfree] at howned
    simp at howned
  | aligned => exact absurd rfl hne
  | gap _ hi _ hodd _ =>
    have heven := (htidy k (lt_size_of_getElem? hi) _ hi).1
    omega
  | tight hi _ hodd =>
    have heven := (htidy k (lt_size_of_getElem? hi) _ hi).1
    omega

/-- A sweep of a tidy listing uses up some of the slack, if it changes anything. -/
theorem slack_sweepFrom_lt (left : Nat) {index : Nat} (hb : b.Ready draft) (htidy : b.Tidy)
    (hsize : b.listing.size = index + left)
    (hchanged : (b.sweepFrom b.listing.survey left index).2 = true) :
    (b.sweepFrom b.listing.survey left index).1.slack < b.slack := by
  obtain ⟨k, rest, hrest, hbefore, -, hkeep, hsweep⟩ := exists_sweepFrom_eq left hb.linked hsize
    (fun j hj => htidy j (by omega)) hchanged
  have hdiagnosis := b.diagnosis (k := k) (by omega)
  have hchain := (mends_sweepFrom rest ((hdiagnosis.mends hkeep).ready hb)
    (hdiagnosis.size_repair hrest) (hdiagnosis.tidyUpTo hb.linked hbefore)).1
  rw [hsweep, sweepFrom_of_ne_keep hkeep]
  refine Nat.lt_of_le_of_lt (slack_le_of_mends hchain) ?_
  obtain ⟨o, r, wider, label, hi, hshort, haction⟩ := htidy.exists_far hdiagnosis hkeep
  rw [haction]
  exact slack_replaceAt_lt hi hshort

theorem mends_sweep (hb : b.Ready draft) :
    Relation.ReflTransGen Mends b b.sweep.1 ∧ b.sweep.1.Tidy :=
  mends_sweepFrom _ hb (Nat.zero_add _).symm b.tidyUpTo_zero

/-- A sweep leaves a listing alone exactly if nothing is left to repair. -/
theorem sweep_eq_false_iff : b.sweep.2 = false ↔ b.Settled := by
  rw [sweep, sweepFrom_eq_false_iff, Nat.zero_add]
  constructor
  · intro h k hk
    exact h k (Nat.zero_le k) hk
  · intro h k _ hk
    exact h k hk

theorem sweep_of_settled (h : b.Settled) : b.sweep = (b, false) :=
  sweepFrom_of_eq_false _ (sweep_eq_false_iff.2 h)

/-! ### All sweeps -/

theorem settleWithin_succ (b : Bound) (limit : Nat) :
    b.settleWithin (limit + 1) =
      if b.sweep.2 = true then b.sweep.1.settleWithin limit else b.sweep.1 := by
  rw [settleWithin]
  split
  · next swept h => rw [h, if_pos rfl]
  · next swept h => rw [h, if_neg (by simp)]

/-- However often a listing is swept, it undergoes a chain of repairs. -/
theorem mends_settleWithin (limit : Nat) (hb : b.Sound draft) :
    Relation.ReflTransGen Mends b (b.settleWithin limit) := by
  induction limit generalizing b with
  | zero => exact .refl
  | succ limit ih =>
    have hsweep := (mends_sweep hb.ready).1
    rw [settleWithin_succ]
    split
    · exact hsweep.trans (ih (sound_of_mends hsweep hb))
    · exact hsweep

/-- A tidy listing settles within one sweep more than its jumps can get longer. -/
theorem settled_settleWithin {limit : Nat} (hb : b.Sound draft) (htidy : b.Tidy)
    (hlimit : b.slack < limit) : (b.settleWithin limit).Settled := by
  induction limit generalizing b with
  | zero => exact absurd hlimit (Nat.not_lt_zero _)
  | succ limit ih =>
    obtain ⟨hchain, htidy'⟩ := mends_sweep hb.ready
    rw [settleWithin_succ]
    by_cases hchanged : b.sweep.2 = true
    · rw [if_pos hchanged]
      have hslack : b.sweep.1.slack < b.slack :=
        slack_sweepFrom_lt _ hb.ready htidy (Nat.zero_add _).symm hchanged
      exact ih (sound_of_mends hchain hb) htidy' (by omega)
    · have hsettled : b.Settled := sweep_eq_false_iff.1 (by simpa using hchanged)
      rw [if_neg hchanged, sweep_of_settled hsettled]
      exact hsettled

/-- Settling is a chain of repairs. -/
theorem mends_settle (hb : b.Sound draft) : Relation.ReflTransGen Mends b b.settle :=
  mends_settleWithin _ hb

/-- Nothing is left to repair in a listing that has been settled. -/
theorem settled_settle (hb : b.Sound draft) : b.settle.Settled := by
  obtain ⟨hchain, htidy⟩ := mends_sweep hb.ready
  rw [settle, sweepLimit_eq, settleWithin_succ]
  by_cases hchanged : b.sweep.2 = true
  · rw [if_pos hchanged]
    -- the first sweep makes the listing tidy and may leave the slack as it is
    exact settled_settleWithin (sound_of_mends hchain hb) htidy
      (Nat.lt_succ_of_le (slack_le_of_mends hchain))
  · have hsettled : b.Settled := sweep_eq_false_iff.1 (by simpa using hchanged)
    rw [if_neg hchanged, sweep_of_settled hsettled]
    exact hsettled

theorem sound_settle (hb : b.Sound draft) : b.settle.Sound draft :=
  sound_of_mends (mends_settle hb) hb

/-- A listing in which nothing is left to repair stays as it is. -/
theorem settle_of_settled (h : b.Settled) : b.settle = b := by
  rw [settle, sweepLimit_eq, settleWithin_succ, sweep_of_settled h, if_neg (by simp)]

end Bound

end Dalvik
