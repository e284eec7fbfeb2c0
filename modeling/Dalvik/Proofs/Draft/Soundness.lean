import Dalvik.Proofs.Relaxation.Settling
import Dalvik.Proofs.Instruction.Shape
import Dalvik.Draft.Basic

/-!
# Sound and legal drafts

A draft is legal (`Draft.Legal`) if its code can be executed as it stands, its offsets being computed
from its labels: payloads are aligned, short jumps reach their targets, and switches and tables
belong together.  That is what relaxation is for, and a draft that does not need relaxation is meant
to be legal.

`Draft.Sound` adds to this what relaxation relies on and what every edit has to keep: instructions
are valid, and every label in use has been issued and placed.
-/

namespace Dalvik

/-- Validation succeeds for exactly the valid instructions. -/
theorem Instruction.validate_eq_ok_iff {τ : Type} {i : Instruction τ} :
    i.validate = .ok () ↔ i.Valid := by
  unfold validate Valid
  cases i.defect? <;> simp

namespace Draft

variable {d d' : Draft}

/-! ### Where labels stand -/

/-- The position of a label is the one in the table of positions, if the label is one of the draft. -/
theorem locate_eq_ok_iff {label : Label} {k : Nat} :
    d.locate label = .ok k ↔ label.draft = d.id ∧ d.listing.locate? label = some k := by
  unfold locate locateIn Listing.locate?
  split
  · next hlabel =>
    cases d.listing.positions[label.number]? with
    | none => simp
    | some position => cases position <;> simp [hlabel]
  · next hlabel => simp [hlabel]

/-- A label passes the check if the draft has issued it. -/
theorem checkLabel_eq_ok_iff {label : Label} :
    d.checkLabel label = .ok () ↔ d.listing.Issued d.id label := by
  unfold checkLabel Listing.Issued
  split
  · next h => simpa using h
  · next h => simpa using h

/-- An instruction passes the check if it is valid and its targets are labels of the draft. -/
theorem checkInstruction_eq_ok_iff {i : Instruction Label} :
    d.checkInstruction i = .ok () ↔
      i.Valid ∧ ∀ label ∈ i.targets, d.listing.Issued d.id label := by
  unfold checkInstruction
  rw [bind_eq_ok_iff]
  simp only [forM_eq_ok_iff, checkLabel_eq_ok_iff]
  constructor
  · rintro ⟨⟨⟩, hvalid, htargets⟩
    exact ⟨Instruction.validate_eq_ok_iff.1 hvalid, htargets⟩
  · rintro ⟨hvalid, htargets⟩
    exact ⟨(), Instruction.validate_eq_ok_iff.2 hvalid, htargets⟩

/-! ### Legal drafts -/

/-- Every jump with opcode `o` has a label, which stands no less than `low` and no more than `high`
code units behind the jump. -/
def JumpsWithin (d : Draft) (o : Opcode) (low high : Int) : Prop :=
  ∀ k i, d.instruction? k = some i → i.opcode = o →
    ∃ label stop, i.targets = [label] ∧ d.locate label = .ok stop ∧
      low ≤ (Code.address d.listing.instructions stop : Int) -
        Code.address d.listing.instructions k ∧
      (Code.address d.listing.instructions stop : Int) -
        Code.address d.listing.instructions k ≤ high

/-- The code of a draft can be executed as it stands, and the draft knows which switch belongs to
which table. -/
structure Legal (d : Draft) : Prop where
  /-- Payloads are at even addresses. -/
  aligned : ∀ k p, d.instruction? k = some (.data p) →
    Code.address d.listing.instructions k % 2 = 0
  /-- The shortest jumps reach their targets. -/
  short : d.JumpsWithin .goto (-128) 127
  /-- So do the jumps of medium length. -/
  medium : d.JumpsWithin .goto16 (-32768) 32767
  /-- Every switch reaches a table. -/
  bound : ∀ k i, d.instruction? k = some i → i.opcode.isSwitch = true →
    ∃ table, d.listing.Reaches k table
  /-- Every table is reached by exactly one switch. -/
  owned : ∀ k p, d.instruction? k = some (.data p) → p.isSwitchTable = true →
    ∃! switch, d.listing.Reaches switch k
  /-- The owners are exactly the switches that reach the tables. -/
  owners : ∃ owners, d.owners? = some owners ∧ ∀ table switch,
    owners.of? table = some switch ↔ d.listing.Reaches switch table

/-- Without instructions there is nothing to do. -/
theorem legal_of_instructions_eq_nil (h : d.listing.instructions = [])
    (howners : d.owners? = some []) : d.Legal := by
  have hnone : ∀ {k i}, d.instruction? k ≠ some i := by
    intro k i hi
    have hmem := List.mem_of_getElem? ((Listing.getElem?_instructions d.listing k).trans hi)
    rw [h] at hmem
    exact List.not_mem_nil hmem
  refine ⟨fun k p hi => absurd hi hnone, fun k i hi => absurd hi hnone,
    fun k i hi => absurd hi hnone, fun k i hi => absurd hi hnone, fun k p hi => absurd hi hnone,
    [], howners, fun table switch => ?_⟩
  constructor
  · intro hof
    simp [Owners.of?] at hof
  · intro hr
    obtain ⟨p, hp⟩ := Code.Reaches.isPayload hr
    rw [Listing.getElem?_instructions] at hp
    exact absurd hp hnone

/-- The code, the labels and the handlers of a draft make sense, and it is legal unless it needs to
be relaxed. -/
structure Sound (d : Draft) : Prop where
  /-- The labels in the code are in order. -/
  listing : d.listing.Sound d.id
  /-- The handlers name labels of the draft. -/
  tries : ∀ entry ∈ d.tries.toList, ∀ label ∈ entry.places, d.listing.Issued d.id label
  /-- Nothing is left to do, unless it is marked as such. -/
  legal : d.needsRelaxation = false → d.Legal

/-- In a legal draft every jump reaches its target. -/
theorem Legal.exists_fits (h : d.Legal) {k : Nat} {r : Reach} {label : Label}
    (hi : d.listing.instructions[k]? = some (.goto r label))
    (hlisting : d.listing.Sound d.id) : ∃ stop, d.locate label = .ok stop ∧
      r.fits ((Code.address d.listing.instructions stop : Int) -
        Code.address d.listing.instructions k) = true := by
  have hat : d.instruction? k = some (.goto r label) := by
    rw [← hi, Listing.getElem?_instructions]
    rfl
  have hissued := hlisting.targets _ (List.mem_of_getElem? hi) label (List.mem_singleton_self label)
  cases r with
  | byte =>
    obtain ⟨label', stop, htargets, hstop, hfits⟩ := h.short k _ hat rfl
    obtain rfl := List.singleton_inj.1 htargets
    exact ⟨stop, hstop, by simpa [Reach.fits] using hfits⟩
  | word =>
    obtain ⟨label', stop, htargets, hstop, hfits⟩ := h.medium k _ hat rfl
    obtain rfl := List.singleton_inj.1 htargets
    exact ⟨stop, hstop, by simpa [Reach.fits] using hfits⟩
  | long =>
    obtain ⟨stop, hstop⟩ := hlisting.exists_locate? hissued
    exact ⟨stop, locate_eq_ok_iff.2 ⟨hissued.1, hstop⟩, rfl⟩

end Draft

/-! ### What nothing is left to repair in -/

namespace Bound

variable {b : Bound} {draft k : Nat}

/-- Data that needs no repair is aligned, and owned if it is a table. -/
theorem Settled.data (h : b.Settled) {p : Payload Label}
    (hi : b.listing.instructions[k]? = some (.data p)) :
    Code.address b.listing.instructions k % 2 = 0 ∧
      (p.isSwitchTable = true → (b.owners.of? k).isSome = true) := by
  have hk := lt_size_of_getElem? hi
  have hdiagnosis := b.diagnosis hk
  rw [h k hk] at hdiagnosis
  cases hdiagnosis with
  | plain hi' _ => simp [hi] at hi'
  | near hi' _ => simp [hi] at hi'
  | aligned hi' howned heven =>
    rw [hi] at hi'
    obtain rfl := Instruction.data.inj (Option.some.inj hi')
    exact ⟨heven, howned⟩

/-- A jump that needs no repair reaches its target. -/
theorem Settled.jump (h : b.Settled) (hb : b.Sound draft) {r : Reach} {label : Label}
    (hi : b.listing.instructions[k]? = some (.goto r label)) :
    ∃ stop, b.listing.locate? label = some stop ∧ label.draft = draft ∧
      r.fits ((Code.address b.listing.instructions stop : Int) -
        Code.address b.listing.instructions k) = true := by
  have hissued : b.listing.Issued draft label :=
    hb.listing.targets _ (List.mem_of_getElem? hi) label (List.mem_singleton_self label)
  obtain ⟨stop, hstop⟩ := hb.listing.exists_locate? hissued
  have hk := lt_size_of_getElem? hi
  have hdiagnosis := b.diagnosis hk
  rw [h k hk] at hdiagnosis
  cases hdiagnosis with
  | plain hi' hjump =>
    rw [hi] at hi'
    obtain ⟨-, rfl⟩ := Instruction.op.inj (Option.some.inj hi')
    exact absurd rfl (hjump r label)
  | near hi' hfits =>
    rw [hi] at hi'
    obtain ⟨-, hjump⟩ := Instruction.op.inj (Option.some.inj hi')
    obtain ⟨rfl, rfl⟩ := Operands.jump.inj hjump
    refine ⟨stop, hstop, hissued.1, hfits _ ?_⟩
    rw [hb.listing.address?_survey hissued.1, hstop, Option.map_some]
  | aligned hi' => simp [hi, Instruction.goto] at hi'

end Bound

/-! ### Relaxing a draft -/

namespace Draft

variable {d d' : Draft}

/-- Relaxing an unrelaxed draft settles it, once the switches have found their tables. -/
theorem relaxed_of_owners?_eq_none (h : d.owners? = none) (hok : d.relaxed = .ok d') :
    ∃ owners, d.listing.findOwners d.locate = .ok owners ∧
      d' = { d with
        listing := (Bound.settle ⟨d.listing, owners⟩).listing
        owners? := some (Bound.settle ⟨d.listing, owners⟩).owners } := by
  unfold relaxed at hok
  rw [h] at hok
  obtain ⟨-, -, hok⟩ := bind_eq_ok_iff.1 hok
  obtain ⟨-, -, hok⟩ := bind_eq_ok_iff.1 hok
  obtain ⟨owners, howners, hok⟩ := bind_eq_ok_iff.1 hok
  exact ⟨owners, howners, (pure_eq_ok_iff.1 hok).symm⟩

theorem relaxed_of_owners?_eq_some {owners : Owners} (h : d.owners? = some owners) :
    d.relaxed = .ok d := by
  unfold relaxed
  rw [h]

/-- A listing in which nothing is left to repair makes a legal draft. -/
theorem legal_of_settled {b : Bound} (h : b.Settled) (hb : b.Sound d.id)
    (hlisting : d.listing = b.listing) (howners : d.owners? = some b.owners) : d.Legal := by
  have hinstruction : ∀ {k i}, d.instruction? k = some i → b.listing.instructions[k]? = some i := by
    intro k i hi
    rw [Listing.getElem?_instructions, ← hlisting]
    exact hi
  have hvalid : ∀ {k i}, d.instruction? k = some i → i.Valid := by
    intro k i hi
    exact hb.listing.valid i (List.mem_of_getElem? (hinstruction hi))
  have hjump : ∀ {k i} {r : Reach}, d.instruction? k = some i → i.opcode = r.goto →
      ∃ label stop, i.targets = [label] ∧ d.locate label = .ok stop ∧
        r.fits ((Code.address d.listing.instructions stop : Int) -
          Code.address d.listing.instructions k) = true := by
    intro k i r hi ho
    obtain ⟨label, rfl⟩ := Instruction.eq_goto_of_opcode (hvalid hi) ho
    obtain ⟨stop, hstop, hdraft, hfits⟩ := h.jump hb (hinstruction hi)
    rw [← hlisting] at hstop hfits
    exact ⟨label, stop, rfl, locate_eq_ok_iff.2 ⟨hdraft, hstop⟩, hfits⟩
  refine ⟨?_, ?_, ?_, ?_, ?_, b.owners, howners, ?_⟩
  · intro k p hi
    rw [hlisting]
    exact (h.data (hinstruction hi)).1
  · intro k i hi ho
    obtain ⟨label, stop, htargets, hstop, hfits⟩ := hjump (r := .byte) hi ho
    simp only [Reach.fits, Bool.and_eq_true, decide_eq_true_eq] at hfits
    exact ⟨label, stop, htargets, hstop, hfits⟩
  · intro k i hi ho
    obtain ⟨label, stop, htargets, hstop, hfits⟩ := hjump (r := .word) hi ho
    simp only [Reach.fits, Bool.and_eq_true, decide_eq_true_eq] at hfits
    exact ⟨label, stop, htargets, hstop, hfits⟩
  · intro k i hi ho
    obtain ⟨label, hlabel⟩ := Instruction.exists_switchTarget? (hvalid hi) ho
    obtain ⟨o, ho', rfl⟩ := hb.linked.covers k i label (hinstruction hi) hlabel
    rw [hlisting]
    exact ⟨o.table, hb.linked.reaches o ho'⟩
  · intro k p hi htable
    obtain ⟨switch, hswitch⟩ := hb.linked.of?_isSome_iff.1 ((h.data (hinstruction hi)).2 htable)
    rw [hlisting]
    exact ⟨switch, hswitch, fun switch' hswitch' => hb.linked.switch_unique hswitch' hswitch⟩
  · intro table switch
    rw [hlisting]
    exact hb.linked.of?_eq_some_iff

/-- What relaxation starts from is in order, once the switches have found their tables. -/
theorem Sound.bound (h : d.Sound) {owners : Owners}
    (howners : d.listing.findOwners d.locate = .ok owners) :
    Bound.Sound ⟨d.listing, owners⟩ d.id where
  listing := h.listing
  linked := Listing.linked_of_findOwners (fun _ _ hk => (locate_eq_ok_iff.1 hk).2) howners

/-- Relaxing a sound draft makes it legal and keeps it sound. -/
theorem Sound.relaxed (h : d.Sound) (hok : d.relaxed = .ok d') :
    d'.Sound ∧ d'.needsRelaxation = false := by
  cases howners? : d.owners? with
  | some owners =>
    rw [relaxed_of_owners?_eq_some howners?] at hok
    obtain rfl := Except.ok.inj hok
    exact ⟨h, by simp [needsRelaxation, howners?]⟩
  | none =>
    obtain ⟨owners, howners, rfl⟩ := relaxed_of_owners?_eq_none howners? hok
    have hbound := h.bound howners
    refine ⟨⟨(Bound.sound_settle hbound).listing, fun entry hentry label hlabel => ?_, fun _ => ?_⟩,
      rfl⟩
    · -- repairs issue no label
      have hissued := h.tries entry hentry label hlabel
      rwa [Listing.Issued, ← Bound.issued_of_mends (Bound.mends_settle hbound)] at hissued
    · exact legal_of_settled (Bound.settled_settle hbound) (Bound.sound_settle hbound) rfl rfl

end Draft

end Dalvik
