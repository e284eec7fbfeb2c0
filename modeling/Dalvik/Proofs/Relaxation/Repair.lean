import Dalvik.Proofs.Relaxation.Binding
import Mathlib.Logic.Relation

/-!
# One repair

`Bound.Diagnosis` says what a sweep can find at a position and what it then does about it, and
`Bound.Mends` what can become of a listing in one repair.  A repair keeps a listing sound and its
tables linked, and never makes jumps longer without need: the number of times jumps can still get
longer (`Bound.slack`) does not grow, and it shrinks when one does.
-/

namespace Dalvik

/-! ### Jumps -/

namespace Reach

theorem widen_of_fits {r : Reach} {offset : Int} (h : r.fits offset = true) :
    r.widen offset = r := if_pos h

theorem widen_of_not_fits {r : Reach} {offset : Int} (h : ¬ r.fits offset = true) :
    r.widen offset = least offset := if_neg h

/-- A jump that falls short gets a longer form. -/
theorem units_lt_units_least {r : Reach} {offset : Int} (h : ¬ r.fits offset = true) :
    r.units < (least offset).units := by
  have hle := units_le_units_widen r offset
  rw [widen_of_not_fits h] at hle
  refine Nat.lt_of_le_of_ne hle fun heq => h ?_
  have hreach : r = least offset := by
    cases r <;> cases hl : least offset <;> rw [hl] at heq <;> first | rfl | cases heq
  rw [hreach]
  exact fits_least offset

/-- No form that reaches the target is shorter than the shortest one. -/
theorem units_least_le_of_fits {r : Reach} {offset : Int} (h : r.fits offset = true) :
    (least offset).units ≤ r.units := by
  unfold least
  split
  · cases r <;> decide
  · next hbyte =>
    split
    · cases r with
      | byte => exact absurd h hbyte
      | _ => decide
    · next hword =>
      cases r with
      | byte => exact absurd h hbyte
      | word => exact absurd h hword
      | long => exact Nat.le_refl _

/-- How many times a jump with this reach can get longer. -/
def slack : Reach → Nat
  | byte => 2
  | word => 1
  | long => 0

theorem slack_lt_slack {r wider : Reach} (h : r.units < wider.units) : wider.slack < r.slack := by
  cases r <;> cases wider <;> first | decide | exact absurd h (by decide)

end Reach

namespace Instruction

variable {τ : Type}

/-- How many times an instruction can be made longer. -/
def slack : Instruction τ → Nat
  | op _ (.jump r _) => r.slack
  | _ => 0

end Instruction

namespace Listing

variable {l : Listing} {draft : Nat}

/-- A survey gives the address of the position at which a label stands. -/
theorem Coherent.address?_survey (h : l.Coherent draft) {label : Label}
    (hlabel : label.draft = draft) :
    l.survey.address? label = (l.locate? label).map (Code.address l.instructions) := by
  have hbind : l.survey.address? label = (l.locate? label).bind fun k => l.addresses[k]? := by
    unfold Survey.address? locate? survey
    cases l.positions[label.number]? with
    | none => rfl
    | some position => cases position <;> rfl
  rw [hbind]
  cases hk : l.locate? label with
  | none => rfl
  | some k =>
    exact l.getElem?_addresses (h.locate?_le_size hlabel hk)

end Listing

namespace Bound

variable {b b' : Bound} {draft k : Nat}

/-! ### What a sweep finds -/

/-- What can be found at position `k` of a listing, by what is done about it. -/
inductive Diagnosis (b : Bound) (k : Nat) : Repair → Prop
  /-- Neither a jump nor data. -/
  | plain {o : Opcode} {args : Operands Label} (hi : b.listing.instructions[k]? = some (.op o args))
      (hjump : ∀ r label, args ≠ .jump r label) : Diagnosis b k .keep
  /-- A jump that reaches its target. -/
  | near {o : Opcode} {r : Reach} {label : Label}
      (hi : b.listing.instructions[k]? = some (.op o (.jump r label)))
      (hfits : ∀ stop, b.listing.survey.address? label = some stop →
        r.fits ((stop : Int) - Code.address b.listing.instructions k) = true) : Diagnosis b k .keep
  /-- A jump that falls short of its target. -/
  | far {o : Opcode} {r wider : Reach} {label : Label} {stop : Nat}
      (hi : b.listing.instructions[k]? = some (.op o (.jump r label)))
      (hstop : b.listing.survey.address? label = some stop)
      (hwider : wider = .least ((stop : Int) - Code.address b.listing.instructions k))
      (hshort : r.units < wider.units) : Diagnosis b k (.widen wider label)
  /-- A table that no switch owns. -/
  | orphan {p : Payload Label} (hi : b.listing.instructions[k]? = some (.data p))
      (htable : p.isSwitchTable = true) (hfree : b.owners.of? k = none) : Diagnosis b k .drop
  /-- Data at an even address. -/
  | aligned {p : Payload Label} (hi : b.listing.instructions[k]? = some (.data p))
      (howned : p.isSwitchTable = true → (b.owners.of? k).isSome = true)
      (heven : Code.address b.listing.instructions k % 2 = 0) : Diagnosis b k .keep
  /-- Data at an odd address behind a nop. -/
  | gap {p : Payload Label} {before : Nat} (hk : k = before + 1)
      (hi : b.listing.instructions[k]? = some (.data p))
      (howned : p.isSwitchTable = true → (b.owners.of? k).isSome = true)
      (hodd : Code.address b.listing.instructions k % 2 = 1)
      (hnop : b.listing.instructions[before]? = some .nop) : Diagnosis b k .closeGap
  /-- Data at an odd address behind something else. -/
  | tight {p : Payload Label} (hi : b.listing.instructions[k]? = some (.data p))
      (howned : p.isSwitchTable = true → (b.owners.of? k).isSome = true)
      (hodd : Code.address b.listing.instructions k % 2 = 1) : Diagnosis b k .openGap

/-- Nothing is done about what is neither a jump nor data. -/
theorem repairOf_of_ne_jump {o : Opcode} {args : Operands Label}
    (h : ∀ r label, args ≠ .jump r label) (survey : Survey) (k address : Nat) :
    b.repairOf survey k address (.op o args) = .keep := by
  unfold repairOf
  split
  · next heq => exact absurd (Instruction.op.inj heq).2 (h _ _)
  · rfl
  · next heq => simp at heq

/-- A sweep does about a position what its diagnosis asks for. -/
theorem diagnosis (b : Bound) (hk : k < b.listing.size) :
    b.Diagnosis k (b.repairAt b.listing.survey k) := by
  have hlen : k < b.listing.instructions.length := by simpa using hk
  have hi : b.listing.instructions[k]? = some b.listing.instructions[k] :=
    List.getElem?_eq_getElem hlen
  generalize b.listing.instructions[k] = i at hi
  have hrepair : b.repairAt b.listing.survey k =
      b.repairOf b.listing.survey k (Code.address b.listing.instructions k) i := by
    have haddress : b.listing.survey.addresses[k]? = some (Code.address b.listing.instructions k) :=
      b.listing.getElem?_addresses (Nat.le_of_lt hk)
    rw [repairAt, ← Listing.getElem?_instructions, hi, haddress]
  rw [hrepair]
  cases i with
  | op o args =>
    by_cases hjump : ∃ r label, args = .jump r label
    · obtain ⟨r, label, rfl⟩ := hjump
      simp only [repairOf]
      split
      · next hstop =>
        refine .near hi fun stop h => ?_
        simp [hstop] at h
      · next stop hstop =>
        by_cases hfits : r.fits ((stop : Int) - Code.address b.listing.instructions k) = true
        · rw [Reach.widen_of_fits hfits, if_pos rfl]
          refine .near hi fun stop' h => ?_
          obtain rfl := Option.some.inj (hstop.symm.trans h)
          exact hfits
        · have hshort := Reach.units_lt_units_least hfits
          rw [Reach.widen_of_not_fits hfits, if_neg fun heq => by simp [heq] at hshort]
          exact .far hi hstop rfl hshort
    · have hne : ∀ r label, args ≠ .jump r label := fun r label h => hjump ⟨r, label, h⟩
      rw [repairOf_of_ne_jump hne]
      exact .plain hi hne
  | data p =>
    simp only [repairOf]
    split
    · next horphan =>
      obtain ⟨htable, hfree⟩ := Bool.and_eq_true_iff.1 horphan
      exact .orphan hi htable (Option.isNone_iff_eq_none.1 hfree)
    · next horphan =>
      have howned : p.isSwitchTable = true → (b.owners.of? k).isSome = true := by
        intro htable
        simpa [htable, Option.isSome_iff_ne_none] using horphan
      split
      · next heven => exact .aligned hi howned heven
      · next hodd =>
        have hodd' : Code.address b.listing.instructions k % 2 = 1 := by omega
        split
        · next hnop =>
          cases k with
          | zero => simp [followsNop] at hnop
          | succ before =>
            rw [followsNop, ← Listing.getElem?_instructions] at hnop
            obtain ⟨j, hj, hnop⟩ := (Option.any_eq_true _ _).1 hnop
            obtain rfl := Instruction.isNop_iff.1 hnop
            exact .gap rfl hi howned hodd' hj
        · exact .tight hi howned hodd'

/-! ### What a repair does -/

/-- What can become of a listing in one repair. -/
inductive Mends (b : Bound) : Bound → Prop
  /-- A jump gets longer. -/
  | widen {k : Nat} {o : Opcode} {r wider : Reach} {label : Label}
      (hi : b.listing.instructions[k]? = some (.op o (.jump r label)))
      (hshort : r.units < wider.units) : Mends b (b.replaceAt k (.goto wider label))
  /-- A table that no switch owns is removed. -/
  | drop {k : Nat} {p : Payload Label} (hi : b.listing.instructions[k]? = some (.data p))
      (htable : p.isSwitchTable = true) (hfree : b.owners.of? k = none) : Mends b (b.removeAt k)
  /-- A nop right in front of data is removed. -/
  | closeGap {k : Nat} {p : Payload Label} (hnop : b.listing.instructions[k]? = some .nop)
      (hi : b.listing.instructions[k + 1]? = some (.data p))
      (howned : p.isSwitchTable = true → (b.owners.of? (k + 1)).isSome = true) :
      Mends b (b.removeAt k)
  /-- A nop is added right in front of data. -/
  | openGap {k : Nat} {p : Payload Label} (hi : b.listing.instructions[k]? = some (.data p))
      (howned : p.isSwitchTable = true → (b.owners.of? k).isSome = true) :
      Mends b (b.insertAt k .nop)

theorem Diagnosis.mends {action : Repair} (h : b.Diagnosis k action) (hne : action ≠ .keep) :
    b.Mends (b.repair k action).1 := by
  cases h with
  | plain => exact absurd rfl hne
  | near => exact absurd rfl hne
  | far hi _ _ hshort => exact .widen hi hshort
  | orphan hi htable hfree => exact .drop hi htable hfree
  | aligned => exact absurd rfl hne
  | gap hk hi howned _ hnop =>
    subst hk
    exact .closeGap hnop hi howned
  | tight hi howned => exact .openGap hi howned

/-- Whatever the repair, one instruction fewer is left to look at. -/
theorem Diagnosis.size_repair {action : Repair} (h : b.Diagnosis k action) {left : Nat}
    (hsize : b.listing.size = k + (left + 1)) :
    (b.repair k action).1.listing.size = (b.repair k action).2 + left := by
  cases h with
  | plain => simp only [repair]; omega
  | near => simp only [repair]; omega
  | far =>
    simp only [repair, replaceAt, Listing.size_replaceAt]
    omega
  | orphan =>
    simp only [repair, removeAt]
    rw [Listing.size_removeAt _ (by omega)]
    omega
  | aligned => simp only [repair]; omega
  | gap hk =>
    simp only [repair, removeAt]
    rw [Listing.size_removeAt _ (by omega)]
    omega
  | tight =>
    simp only [repair, insertAt]
    rw [Listing.size_insertAt _ (by omega)]
    omega

/-- A listing whose labels and tables are in order, as relaxation finds it. -/
structure Sound (b : Bound) (draft : Nat) : Prop where
  /-- The labels are in order. -/
  listing : b.listing.Sound draft
  /-- Every switch has found its table. -/
  linked : b.Linked

/-- A listing whose targets and tables are in order, which is all that repairs need. -/
structure Ready (b : Bound) (draft : Nat) : Prop where
  /-- The targets are in order. -/
  listing : b.listing.Ready draft
  /-- Every switch has found its table. -/
  linked : b.Linked

theorem Sound.ready (h : b.Sound draft) : b.Ready draft := ⟨h.listing.ready, h.linked⟩

theorem lt_size_of_getElem? {i : Instruction Label}
    (hi : b.listing.instructions[k]? = some i) : k < b.listing.size := by
  simpa using (List.getElem?_eq_some_iff.1 hi).1

/-- The switch target that data does not have. -/
theorem switchTarget?_data (p : Payload Label) :
    (Instruction.data p).switchTarget? = none := rfl

/-- A repair keeps the code coherent and the switches bound. -/
theorem Mends.coherent_and_linked (h : b.Mends b') (hcoherent : b.listing.Coherent draft)
    (hlinked : b.Linked) : b'.listing.Coherent draft ∧ b'.Linked := by
  cases h with
  | @widen k o r wider label hi _ =>
    have htargets : ∀ t ∈ (Instruction.goto wider label).targets,
        b.listing.Issued draft t := by
      intro t ht
      exact hcoherent.targets _ (List.mem_of_getElem? hi) t ht
    have hcoherent' := hcoherent.replaceAt k (Instruction.valid_goto wider label) htargets
    exact ⟨hcoherent', hlinked.replaceAt_goto hcoherent hi hcoherent'⟩
  | @drop k p hi _ hfree =>
    exact ⟨hcoherent.removeAt k, hlinked.removeAt hcoherent hi (switchTarget?_data p) hfree⟩
  | @closeGap k p hnop _ _ =>
    exact ⟨hcoherent.removeAt k, hlinked.removeAt hcoherent hnop rfl (hlinked.of?_of_nop hnop)⟩
  | @openGap k p hi _ =>
    have hk := lt_size_of_getElem? hi
    exact ⟨hcoherent.insertAt_nop (Nat.le_of_lt hk), hlinked.insertAt_nop hcoherent hk⟩

/-- It leaves the labels alone. -/
theorem Mends.labels (h : b.Mends b') : b'.listing.labels = b.listing.labels := by
  cases h with
  | widen => exact Listing.labels_replaceAt _ _ _
  | drop => exact Listing.labels_removeAt _ _
  | closeGap => exact Listing.labels_removeAt _ _
  | openGap => exact Listing.labels_insertAt _ _ _

/-- It issues no label. -/
theorem Mends.issued (h : b.Mends b') : b'.listing.issued = b.listing.issued := by
  cases h with
  | widen => exact Listing.issued_replaceAt _ _ _
  | drop => exact Listing.issued_removeAt _ _
  | closeGap => exact Listing.issued_removeAt _ _
  | openGap => exact Listing.issued_insertAt _ _ _

/-- It refers to no label that has not been referred to before. -/
theorem Mends.targets (h : b.Mends b') : ∀ i ∈ b'.listing.instructions, ∀ label ∈ i.targets,
    ∃ j ∈ b.listing.instructions, label ∈ j.targets := by
  intro i hi label hlabel
  cases h with
  | @widen k o r wider target hjump _ =>
    simp only [replaceAt, Listing.instructions_replaceAt] at hi
    rcases List.mem_or_eq_of_mem_set hi with hold | rfl
    · exact ⟨i, hold, hlabel⟩
    · exact ⟨_, List.mem_of_getElem? hjump, hlabel⟩
  | drop =>
    simp only [removeAt, Listing.instructions_removeAt] at hi
    exact ⟨i, List.mem_of_mem_eraseIdx hi, hlabel⟩
  | closeGap =>
    simp only [removeAt, Listing.instructions_removeAt] at hi
    exact ⟨i, List.mem_of_mem_eraseIdx hi, hlabel⟩
  | @openGap k p hdata _ =>
    have hk := Nat.le_of_lt (lt_size_of_getElem? hdata)
    simp only [insertAt, Listing.instructions_insertAt _ hk] at hi
    rw [List.mem_insertIdx (by simpa using hk)] at hi
    rcases hi with rfl | hold
    · exact absurd hlabel List.not_mem_nil
    · exact ⟨i, hold, hlabel⟩

/-- A repair keeps everything in order. -/
theorem Mends.sound (h : b.Mends b') (hb : b.Sound draft) : b'.Sound draft := by
  obtain ⟨hcoherent, hlinked⟩ := h.coherent_and_linked hb.listing.toCoherent hb.linked
  exact ⟨hb.listing.of_labels_eq h.labels h.issued hcoherent, hlinked⟩

theorem Mends.ready (h : b.Mends b') (hb : b.Ready draft) : b'.Ready draft := by
  obtain ⟨hcoherent, hlinked⟩ := h.coherent_and_linked hb.listing.toCoherent hb.linked
  exact ⟨hb.listing.of_labels_eq h.labels h.targets hcoherent, hlinked⟩

/-- A chain of repairs keeps everything in order. -/
theorem sound_of_mends (h : Relation.ReflTransGen Mends b b') (hb : b.Sound draft) :
    b'.Sound draft := by
  induction h with
  | refl => exact hb
  | tail _ hstep ih => exact hstep.sound ih

theorem ready_of_mends (h : Relation.ReflTransGen Mends b b') (hb : b.Ready draft) :
    b'.Ready draft := by
  induction h with
  | refl => exact hb
  | tail _ hstep ih => exact hstep.ready ih

/-- Repairs issue no labels. -/
theorem issued_of_mends (h : Relation.ReflTransGen Mends b b') :
    b'.listing.issued = b.listing.issued := by
  induction h with
  | refl => rfl
  | tail _ hstep ih => exact hstep.issued.trans ih

/-! ### What the instructions of a listing add up to -/

/-- What the instructions of a listing add up to, each one measured by itself. -/
def total (b : Bound) (f : Instruction Label → Nat) : Nat := (b.listing.instructions.map f).sum

theorem total_replaceAt (f : Instruction Label → Nat) {i j : Instruction Label}
    (hi : b.listing.instructions[k]? = some i) :
    (b.replaceAt k j).total f + f i = b.total f + f j := by
  obtain ⟨hk, rfl⟩ := List.getElem?_eq_some_iff.1 hi
  have hnew := ((List.set_perm_cons_eraseIdx hk j).map f).sum_eq
  have hold := ((List.getElem_cons_eraseIdx_perm hk).map f).sum_eq
  rw [List.map_cons, List.sum_cons] at hnew hold
  simp only [total, replaceAt, Listing.instructions_replaceAt]
  omega

theorem total_removeAt (f : Instruction Label → Nat) {i : Instruction Label}
    (hi : b.listing.instructions[k]? = some i) : (b.removeAt k).total f + f i = b.total f := by
  obtain ⟨hk, rfl⟩ := List.getElem?_eq_some_iff.1 hi
  have hold := ((List.getElem_cons_eraseIdx_perm hk).map f).sum_eq
  rw [List.map_cons, List.sum_cons] at hold
  simp only [total, removeAt, Listing.instructions_removeAt]
  omega

theorem total_insertAt (f : Instruction Label → Nat) (hk : k ≤ b.listing.size)
    (i : Instruction Label) : (b.insertAt k i).total f = b.total f + f i := by
  have hlen : k ≤ b.listing.instructions.length := by simpa using hk
  have hnew := ((List.perm_insertIdx i b.listing.instructions hlen).map f).sum_eq
  rw [List.map_cons, List.sum_cons] at hnew
  simp only [total, insertAt, Listing.instructions_insertAt _ hk]
  omega

/-- A repair does not raise a total to which a `nop` adds nothing, and a longer jump no more than a
shorter one. -/
theorem Mends.total_le (h : b.Mends b') {f : Instruction Label → Nat} (hnop : f .nop = 0)
    (hjump : ∀ (o : Opcode) (r wider : Reach) (label : Label), r.units < wider.units →
      f (.goto wider label) ≤ f (.op o (.jump r label))) : b'.total f ≤ b.total f := by
  cases h with
  | @widen k o r wider label hi hshort =>
    have hsum := total_replaceAt f (j := .goto wider label) hi
    have hle := hjump o r wider label hshort
    omega
  | drop hi =>
    have hsum := total_removeAt f hi
    omega
  | closeGap hnop =>
    have hsum := total_removeAt f hnop
    omega
  | openGap hi =>
    rw [total_insertAt f (Nat.le_of_lt (lt_size_of_getElem? hi)), hnop]
    exact Nat.le_refl _

/-- Neither does a chain of repairs. -/
theorem total_le_of_mends (h : Relation.ReflTransGen Mends b b') {f : Instruction Label → Nat}
    (hnop : f .nop = 0)
    (hjump : ∀ (o : Opcode) (r wider : Reach) (label : Label), r.units < wider.units →
      f (.goto wider label) ≤ f (.op o (.jump r label))) : b'.total f ≤ b.total f := by
  induction h with
  | refl => exact Nat.le_refl _
  | tail _ hstep ih => exact Nat.le_trans (hstep.total_le hnop hjump) ih

/-! ### How often jumps can still get longer -/

/-- How many times the jumps of a listing can still get longer. -/
def slack (b : Bound) : Nat := (b.listing.instructions.map Instruction.slack).sum

/-- A jump that gets longer uses up some of the slack. -/
theorem slack_replaceAt_lt {o : Opcode} {r wider : Reach} {label : Label}
    (hi : b.listing.instructions[k]? = some (.op o (.jump r label)))
    (hshort : r.units < wider.units) : (b.replaceAt k (.goto wider label)).slack < b.slack := by
  have hsum : (b.replaceAt k (.goto wider label)).slack + r.slack = b.slack + wider.slack :=
    total_replaceAt Instruction.slack hi
  have hlt : wider.slack < r.slack := Reach.slack_lt_slack hshort
  omega

/-- No repair makes room for jumps to get longer. -/
theorem slack_le_of_mends (h : Relation.ReflTransGen Mends b b') : b'.slack ≤ b.slack :=
  total_le_of_mends (f := Instruction.slack) h rfl fun _ _ _ _ hshort =>
    Nat.le_of_lt (Reach.slack_lt_slack hshort)

/-- The jumps with one reach, counted in any list of instructions. -/
private def jumpsIn (code : List (Instruction Label)) (reach : Reach) : Nat :=
  code.countP fun
    | .op _ (.jump r _) => r = reach
    | _ => false

private theorem slack_eq_jumpsIn (code : List (Instruction Label)) :
    (code.map Instruction.slack).sum = 2 * jumpsIn code .byte + jumpsIn code .word := by
  induction code with
  | nil => rfl
  | cons i rest ih =>
    simp only [jumpsIn] at ih ⊢
    rw [List.countP_cons, List.countP_cons, List.map_cons, List.sum_cons, ih]
    unfold Instruction.slack
    split
    · next r _ => cases r <;> simp [Reach.slack] <;> omega
    · simp

/-- The limit on the number of sweeps is two more than the slack. -/
theorem sweepLimit_eq (b : Bound) : b.sweepLimit = b.slack + 2 := by
  have hsum : b.slack = 2 * b.countJumps .byte + b.countJumps .word :=
    slack_eq_jumpsIn b.listing.instructions
  rw [hsum, sweepLimit]
  omega

end Bound

end Dalvik
