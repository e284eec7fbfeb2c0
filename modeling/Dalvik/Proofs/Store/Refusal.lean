import Dalvik.Proofs.Outline.Refusal
import Dalvik.Proofs.Store.Exporting
import Dalvik.Proofs.Store.Faults
import Dalvik.Proofs.Draft.Likeness

/-!
# When a relaxed store is not turned into a method

Relaxation makes jumps long enough and nothing else: a conditional branch keeps its 16 bits.  It is the
only thing that can keep a relaxed store from being turned into a method, and encoding refuses code for
the same reason (`Store.toMethod_fails_iff`).
-/

namespace Dalvik

/-- The formats of branches that relaxation cannot make longer. -/
def Format.IsConditional (f : Format) : Prop := f = .f21t ∨ f = .f22t

namespace Draft

variable {d : Draft} {o : Outline} {code : List (Instruction Int32)} {owners : Owners} {k : Nat}
  {i : Instruction Label} {j : Instruction Int32}

/-- The instruction `i` at `k` is a conditional branch, and its target is too far away, namely by
`offset`. -/
structure TooFar (d : Draft) (k : Nat) (i : Instruction Label) (offset : Int) : Prop where
  conditional : i.format.IsConditional
  target : ∃ label p, i.targets = [label] ∧ d.locate label = .ok p ∧
    offset = (Code.address d.listing.instructions p : Int) - Code.address d.listing.instructions k
  far : offset < -32768 ∨ 32767 < offset

/-- What belongs to the only element of a list. -/
theorem exists_of_forall₂_singleton {α β : Type} {R : α → β → Prop} {x : α} {ys : List β}
    (h : List.Forall₂ R [x] ys) : ∃ y, R x y ∧ ys = [y] := by
  obtain ⟨y, rest, hy, hrest, rfl⟩ := List.forall₂_cons_left_iff.1 h
  rw [List.forall₂_nil_left_iff.1 hrest]
  exact ⟨y, hy, rfl⟩

/-- The offset of a conditional branch does not fit if the target is too far away. -/
theorem find?_iff_tooFar {label : Label} {offsets : List Int32} {offset : Int}
    (hconditional : i.format.IsConditional) (htarget : i.targets = [label])
    (hoffsets : List.Forall₂ (fun label offset => ∃ p, d.locate label = .ok p ∧
      offset.toInt = (Code.address d.listing.instructions p : Int) -
        Code.address d.listing.instructions k) [label] offsets) :
    (∃ t, (offsets.find? fun t => !Reach.word.fits t.toInt) = some t ∧ t.toInt = offset) ↔
      d.TooFar k i offset := by
  obtain ⟨t, ⟨p, hp, hdistance⟩, rfl⟩ := exists_of_forall₂_singleton hoffsets
  have hfits : Reach.word.fits t.toInt = false ↔ t.toInt < -32768 ∨ 32767 < t.toInt := by
    simp only [Reach.fits, Bool.and_eq_false_iff, decide_eq_false_iff_not]
    omega
  constructor
  · rintro ⟨t', hfind, rfl⟩
    obtain rfl := List.mem_singleton.1 (List.mem_of_find?_eq_some hfind)
    have hfar := List.find?_some hfind
    rw [Bool.not_eq_true'] at hfar
    exact ⟨hconditional, ⟨label, p, htarget, hp, hdistance⟩, hfits.1 hfar⟩
  · rintro ⟨-, ⟨label', p', htarget', hp', hdistance'⟩, hfar⟩
    obtain rfl := (List.cons.inj (htarget.symm.trans htarget')).1
    obtain rfl := Except.ok.inj (hp.symm.trans hp')
    rw [← hdistance] at hdistance'
    subst hdistance'
    exact ⟨t, by simp [hfits.2 hfar], rfl⟩

section

variable (hlegal : d.Legal) (hlisting : d.listing.Sound d.id) (ho : d.outline = .ok o)
  (howners : ∀ table switch, owners.of? table = some switch ↔ d.listing.Reaches switch table)
  (hspells : Code.Spells (Outline.base owners.of?) o.instructions code)

include ho howners hspells

/-- What can be executed is spelled out with the distances from its own address. -/
theorem forall₂_distances {opcode : Opcode} {args : Operands Label}
    (hi : d.listing.instructions[k]? = some (.op opcode args)) (hj : code[k]? = some j) :
    List.Forall₂ (fun label offset => ∃ p, d.locate label = .ok p ∧
      offset.toInt = (Code.address d.listing.instructions p : Int) -
        Code.address d.listing.instructions k) args.targets j.targets := by
  have hbase : Outline.base owners.of? k = k := by
    unfold Outline.base
    cases howner : owners.of? k with
    | none => rfl
    | some switch =>
      obtain ⟨p, hp⟩ := ((howners k switch).1 howner).isPayload
      cases hi.symm.trans hp
  have hshape := hspells.shape.trans (shape_of_outline ho)
  refine (forall₂_follow_of_spells ho hspells hi hj).imp fun label offset hfollow => ?_
  obtain ⟨p, hp, hfollow⟩ := hfollow
  rw [hbase, Code.follow_eq_some_iff, Code.address_eq_of_shape_eq hshape,
    Code.address_eq_of_shape_eq hshape] at hfollow
  exact ⟨p, hp, by omega⟩

include hlegal hlisting

/-- In what a legal draft spells out, only the offsets of conditional branches can be too far. -/
theorem overlong?_iff_tooFar (hi : d.listing.instructions[k]? = some i) (hj : code[k]? = some j)
    {offset : Int} : (∃ t, j.overlong? = some t ∧ t.toInt = offset) ↔ d.TooFar k i offset := by
  have hshape : j.shape = i.shape := by
    obtain ⟨j', hj', hij⟩ :=
      Code.getElem?_of_shape_eq (hspells.shape.trans (shape_of_outline ho)) hi
    rwa [Option.some.inj (hj.symm.trans hj')]
  cases i with
  | data p =>
    obtain ⟨q, rfl, -⟩ := Instruction.eq_data_of_shape_eq hshape
    refine iff_of_false (by simp [Instruction.overlong?]) ?_
    rintro ⟨hformat, -⟩
    cases p <;> simp [Instruction.format, Payload.format, Format.IsConditional] at hformat
  | op opcode args =>
    have htargets := forall₂_distances ho howners hspells hi hj
    cases j with
    | data q => cases hshape
    | op opcode' args' =>
      obtain ⟨-, hargs⟩ := Instruction.op.inj hshape
      have hreach : args'.reach = args.reach := by
        rw [← Operands.reach_shape, hargs, Operands.reach_shape]
      change (∃ t, (args'.targets.find? fun t => !args'.reach.fits t.toInt) = some t ∧ _) ↔ _
      rw [hreach]
      change List.Forall₂ _ args.targets args'.targets at htargets
      -- what is not a branch has no offset at all, and what is one has a single offset
      cases args with
      | jump r label =>
        obtain ⟨t, ⟨p, hp, hdistance⟩, htargets⟩ := exists_of_forall₂_singleton htargets
        have hvalid := hlisting.valid _ (List.mem_of_getElem? hi)
        rw [Instruction.eq_goto_of_valid hvalid] at hi
        obtain ⟨stop, hstop, hfits⟩ := hlegal.exists_fits hi hlisting
        obtain rfl := Except.ok.inj (hp.symm.trans hstop)
        rw [← hdistance] at hfits
        refine iff_of_false (by simp [htargets, Operands.reach, hfits]) ?_
        rintro ⟨hformat, -⟩
        cases r <;> simp [Instruction.format, Operands.format, Reach.format, Format.IsConditional]
          at hformat
      | f21t a label => exact find?_iff_tooFar (.inl rfl) rfl htargets
      | f22t a b label => exact find?_iff_tooFar (.inr rfl) rfl htargets
      | f31t a label =>
        obtain ⟨t, -, htargets⟩ := exists_of_forall₂_singleton htargets
        refine iff_of_false (by simp [htargets, Operands.reach, Reach.fits]) ?_
        rintro ⟨hformat, -⟩
        simp [Instruction.format, Operands.format, Format.IsConditional] at hformat
      | _ =>
        have hnone := List.forall₂_nil_left_iff.1 htargets
        refine iff_of_false (by simp [hnone]) ?_
        rintro ⟨-, ⟨label, p, htarget, -⟩, -⟩
        cases htarget

end

end Draft

namespace Store

/-- The conditional branch at position `k`, which has the given opcode, is `offset` code units away
from its target, and that is more than it can bridge. -/
structure TooFar (s : Store) (k : Nat) (opcode : Opcode) (offset : Int) : Prop where
  branch : ∃ i label own stop, s.instruction? k = some i ∧ i.format.IsConditional ∧
    i.opcode = opcode ∧ i.targets = [label] ∧ s.cell? k = some own ∧ s.cellOf label = .ok stop ∧
      offset = (stop.address : Int) - own.address
  far : offset < -32768 ∨ 32767 < offset

/-- It is the first branch with this fault. -/
structure FirstTooFar (s : Store) (k : Nat) (opcode : Opcode) (offset : Int) : Prop extends
    s.TooFar k opcode offset where
  before : ∀ j < k, ∀ opcode' offset', ¬ s.TooFar j opcode' offset'

variable {s s' : Store} {d : Draft} {o : Outline} {code : List (Instruction Int32)} {k : Nat}
  {opcode : Opcode} {owners : Owners}

namespace Refines

/-- A store and its draft agree on which branches are too far from their targets. -/
theorem tooFar_iff (h : s.Refines d) {offset : Int} : s.TooFar k opcode offset ↔
    ∃ i, d.listing.instructions[k]? = some i ∧ i.opcode = opcode ∧ d.TooFar k i offset := by
  have hown : ∀ {i}, d.listing.instructions[k]? = some i → k ≤ d.listing.size := by
    intro i hi
    simpa using Nat.le_of_lt (List.getElem?_eq_some_iff.1 hi).1
  constructor
  · rintro ⟨⟨i, label, own, stop, hi, hformat, hopcode, htarget, hcell, hstop, hoffset⟩, hfar⟩
    rw [h.tracks.instruction?_eq, ← Listing.getElem?_instructions] at hi
    rw [h.tracks.cell?_eq (hown hi)] at hcell
    obtain rfl := Option.some.inj hcell
    rw [h.cellOf_eq] at hstop
    cases hp : d.locate label with
    | error e =>
      rw [hp] at hstop
      cases hstop
    | ok p =>
      rw [hp] at hstop
      obtain rfl := Except.ok.inj hstop
      exact ⟨i, hi, hopcode, hformat, ⟨label, p, htarget, hp, hoffset⟩, hfar⟩
  · rintro ⟨i, hi, hopcode, hformat, ⟨label, p, htarget, hp, hoffset⟩, hfar⟩
    refine ⟨⟨i, label, d.listing.cell k, d.listing.cell p, ?_, hformat, hopcode, htarget,
      h.tracks.cell?_eq (hown hi), ?_, hoffset⟩, hfar⟩
    · rw [h.tracks.instruction?_eq, ← Listing.getElem?_instructions, hi]
    · rw [h.cellOf_eq, hp]
      rfl

section

variable (h : s.Refines d) (hlegal : d.Legal) (hlisting : d.listing.Sound d.id)
  (ho : d.outline = .ok o)
  (howners : ∀ table switch, owners.of? table = some switch ↔ d.listing.Reaches switch table)
  (hspells : Code.Spells (Outline.base owners.of?) o.instructions code)

include h hlegal hlisting ho howners hspells

/-- What is spelled out for a store has offsets that are too far exactly where the store has branches
that are too far from their targets. -/
theorem tooFar_iff_overlong {offset : Int} : s.TooFar k opcode offset ↔
    ∃ j t, code[k]? = some j ∧ j.opcode = opcode ∧ j.overlong? = some t ∧ t.toInt = offset := by
  have hshape := hspells.shape.trans (Draft.shape_of_outline ho)
  rw [h.tooFar_iff]
  constructor
  · rintro ⟨i, hi, rfl, hfar⟩
    obtain ⟨j, hj, hij⟩ := Code.getElem?_of_shape_eq hshape hi
    obtain ⟨t, hoverlong, ht⟩ :=
      (Draft.overlong?_iff_tooFar hlegal hlisting ho howners hspells hi hj).2 hfar
    refine ⟨j, t, hj, ?_, hoverlong, ht⟩
    rw [← Instruction.opcode_shape j, hij, Instruction.opcode_shape]
  · rintro ⟨j, t, hj, rfl, hoverlong, ht⟩
    obtain ⟨i, hi, hij⟩ := Code.getElem?_of_shape_eq hshape.symm hj
    refine ⟨i, hi, ?_, ?_⟩
    · rw [← Instruction.opcode_shape i, hij, Instruction.opcode_shape]
    · exact (Draft.overlong?_iff_tooFar hlegal hlisting ho howners hspells hi hj).1
        ⟨t, hoverlong, ht⟩

/-- So the first ones are at the same position. -/
theorem firstTooFar_iff_firstOverlong {offset : Int} : s.FirstTooFar k opcode offset ↔
    ∃ t : Int32, Code.FirstOverlong code k opcode t ∧ t.toInt = offset := by
  have hpoint : ∀ n opcode' offset', s.TooFar n opcode' offset' ↔ _ := fun n opcode' offset' =>
    h.tooFar_iff_overlong hlegal hlisting ho howners hspells
  constructor
  · rintro ⟨hfar, hbefore⟩
    obtain ⟨j, t, hj, hopcode, hoverlong, ht⟩ := (hpoint _ _ _).1 hfar
    refine ⟨t, ⟨⟨j, hj, hopcode, hoverlong⟩, fun n hn j' hj' => ?_⟩, ht⟩
    rw [Option.eq_none_iff_forall_ne_some]
    intro t' hoverlong'
    exact hbefore n hn _ _ ((hpoint _ _ _).2 ⟨j', t', hj', rfl, hoverlong', rfl⟩)
  · rintro ⟨t, ⟨⟨j, hj, hopcode, hoverlong⟩, hbefore⟩, ht⟩
    refine ⟨(hpoint _ _ _).2 ⟨j, t, hj, hopcode, hoverlong, ht⟩, fun n hn opcode' offset' => ?_⟩
    rw [hpoint]
    rintro ⟨j', t', hj', -, hoverlong', -⟩
    rw [hbefore n hn j' hj'] at hoverlong'
    cases hoverlong'

end

end Refines

/-- A relaxed store of less than 2³¹ code units is not turned into a method exactly if some conditional
branch is more than 16 bits away from its target.  The error names the first one with its position, its
opcode and the distance, and the store is left relaxed.  Encoding, of any code, refuses the first offset
that is too far for its field, and nothing else; so what a store is turned into can be encoded. -/
theorem toMethod_fails_iff (h : s.Reachable) (hok : relax s = .ok ⟨⟩ s')
    (hsize : s'.units < 2 ^ 31) :
    (∀ e s'', toMethod s = .error e s'' ↔ s'' = s' ∧ ∃ k opcode offset,
      s'.FirstTooFar k opcode offset ∧ e = .branchOffsetOverflow k opcode offset) ∧
      ((∃ m, toMethod s = .ok m s') ↔ ∀ k opcode offset, ¬ s'.TooFar k opcode offset) ∧
      (∀ m, toMethod s = .ok m s' → ∃ bytes, Code.encode m.instructions = .ok bytes) ∧
      ∀ code : List (Instruction Int32),
        (∀ e, Code.encode code = .error e ↔ ∃ k, Code.FirstOverlong code k e.opcode e.offset) ∧
          ((∃ bytes, Code.encode code = .ok bytes) ↔ ∀ i ∈ code, i.overlong? = none) := by
  obtain ⟨d, hd, hrefines⟩ := h.exists_refines
  obtain ⟨d', hrelax, h'⟩ := (agree_relax hrefines hd.sound).exists_of_ok hok
  obtain ⟨hsound, hclean⟩ := hd.sound.relaxed (Draft.relax_eq_ok_iff.1 hrelax)
  have hlegal := hsound.legal hclean
  obtain ⟨owners, hsome, howners⟩ := hlegal.owners
  obtain ⟨o, ho⟩ := hsound.exists_outline
  have htargets := (hsound.wellFormed_outline ho).targets
  -- what the outline of the relaxed store is spelled out as
  obtain ⟨code, hspells⟩ : ∃ code, Code.Spells (Outline.base owners.of?) o.instructions code := by
    refine Code.exists_spells ?_ htargets _
    rw [Code.address_eq_of_shape_eq (Draft.shape_of_outline ho), Draft.length_of_outline ho,
      ← Listing.units_eq, ← h'.tracks.units_eq]
    exact hsize
  have hmethod : toMethod s = require (o.toMethod owners.of?) s' := by
    rw [(reads_of_relax_eq_ok hok).2.2.2.2.2, h'.outline_eq, ho, h'.switchIndex?_eq hsome]
    rfl
  have herror : ∀ {e}, o.toMethod owners.of? = .error e ↔ ∃ k opcode offset,
      s'.FirstTooFar k opcode offset ∧ e = .branchOffsetOverflow k opcode offset := by
    intro e
    rw [Outline.toMethod_eq_error_iff hspells]
    constructor
    · rintro ⟨k, opcode, t, hfirst, rfl⟩
      exact ⟨k, opcode, t.toInt, (h'.firstTooFar_iff_firstOverlong hlegal hsound.listing ho howners
        hspells).2 ⟨t, hfirst, rfl⟩, rfl⟩
    · rintro ⟨k, opcode, offset, hfirst, rfl⟩
      obtain ⟨t, hoverlong, rfl⟩ := (h'.firstTooFar_iff_firstOverlong hlegal hsound.listing ho
        howners hspells).1 hfirst
      exact ⟨k, opcode, t, hoverlong, rfl⟩
  refine ⟨fun e s'' => ?_, ?_, fun m hm => ?_, fun code =>
    ⟨fun e => Code.encode_eq_error_iff, Code.exists_encode_eq_ok_iff⟩⟩
  · rw [hmethod, require_eq_error_iff, herror]
    exact and_comm
  · rw [hmethod]
    simp only [require_eq_ok_iff, and_true]
    constructor
    · rintro ⟨m, hm⟩ k opcode offset hfar
      obtain ⟨j, t, hj, -, hoverlong, -⟩ :=
        (h'.tooFar_iff_overlong hlegal hsound.listing ho howners hspells).1 hfar
      obtain ⟨n, opcode', t', hfirst⟩ := Code.exists_firstOverlong_iff.2
        ⟨j, List.mem_of_getElem? hj, by simp [hoverlong]⟩
      have hfails := (Outline.toMethod_eq_error_iff hspells).2 ⟨n, opcode', t', hfirst, rfl⟩
      cases hm.symm.trans hfails
    · intro hnear
      cases hm : o.toMethod owners.of? with
      | ok m => exact ⟨m, rfl⟩
      | error e =>
        obtain ⟨k, opcode, offset, hfirst, -⟩ := herror.1 hm
        exact absurd hfirst.toTooFar (hnear k opcode offset)
  · rw [hmethod, require_eq_ok_iff] at hm
    exact Code.exists_encode_eq_ok_iff.2 ((Outline.toMethod_eq_ok_iff htargets).1 hm.1).1.2

/-- A conditional branch to the end over 34068 code units of data. -/
def remote : Store :=
  (new 0 1).run (List.replicate 17 (.append (.data (.array 1 (List.replicate 4000 0)))) ++
    [.labelAt 17, .insert 0 (.op .ifEqz (.f21t 0 ⟨0, 0⟩))])

/-- The branch is refused, being the first and only one that is too far from its target. -/
theorem toMethod_fails_iff_remote :
    remote.Reachable ∧ ∃ s', relax remote = .ok ⟨⟩ s' ∧ s'.units < 2 ^ 31 ∧
      toMethod remote = .error (.branchOffsetOverflow 0 .ifEqz 34070) s' ∧
      s'.FirstTooFar 0 .ifEqz 34070 := by
  have hremote : remote.Reachable := (Reachable.new 0 1).run _
  obtain ⟨⟨⟩, s', hs'⟩ := exists_of_succeeds (x := relax) (s := remote) (by decide +kernel)
  have hunits : (stateAfter relax remote).units = 34070 := by decide +kernel
  rw [stateAfter, hs'] at hunits
  have hsize : s'.units < 2 ^ 31 := by
    rw [hunits]
    decide
  have hfails := (toMethod_fails_iff hremote hs' hsize).1
  have herror : outcome toMethod remote = .error (.branchOffsetOverflow 0 .ifEqz 34070) := by
    decide +kernel
  obtain ⟨e, s'', hremote'⟩ := exists_of_fails (x := toMethod) (s := remote) (by decide +kernel)
  rw [outcome, hremote'] at herror
  obtain rfl := Except.error.inj herror
  obtain ⟨rfl, k, opcode, offset, hfirst, heq⟩ := (hfails _ _).1 hremote'
  cases heq
  exact ⟨hremote, s'', hs', hsize, hremote', hfirst⟩

end Store

end Dalvik
