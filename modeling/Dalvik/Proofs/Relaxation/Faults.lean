import Dalvik.Proofs.Relaxation.Binding
import Mathlib.Data.Nat.Find

/-!
# What is wrong with a switch

Binding fails if some switch is faulty.  `Code.Fault` says what can be wrong with a switch, looking
only at what its label denotes and at the first position from there on that is no plain `nop`
(`Code.Aims`), and which error is due; it does not mention the tables that were found before.  The
error of binding is that of the first faulty switch (`Listing.findOwners_eq_error_iff`).
-/

namespace Dalvik

namespace Code

variable {locate : Label → Except Error Nat} {code : List (Instruction Label)} {k t t' p p' : Nat}
  {i i' : Instruction Label} {e e' : Error}

/-- The instruction `i` at `k` is a switch whose label denotes `t`, and `p` is the first position from
there on that holds no plain `nop`. -/
structure Aims (locate : Label → Except Error Nat) (code : List (Instruction Label)) (k : Nat)
    (i : Instruction Label) (t p : Nat) : Prop where
  instruction : code[k]? = some i
  target : ∃ label, i.switchTarget? = some label ∧ locate label = .ok t
  run : NopsUpTo code t p
  stop : code[p]? ≠ some .nop

theorem Aims.unique (h : Aims locate code k i t p) (h' : Aims locate code k i' t' p') :
    i = i' ∧ t = t' ∧ p = p' := by
  obtain rfl := Option.some.inj (h.instruction.symm.trans h'.instruction)
  obtain ⟨label, hlabel, htarget⟩ := h.target
  obtain ⟨label', hlabel', htarget'⟩ := h'.target
  obtain rfl := Option.some.inj (hlabel.symm.trans hlabel')
  obtain rfl := Except.ok.inj (htarget.symm.trans htarget')
  exact ⟨rfl, rfl, h.run.unique h.stop h'.run h'.stop⟩

/-- What is wrong with the switch at `k`, as an error. -/
inductive Fault (locate : Label → Except Error Nat) (code : List (Instruction Label)) (k : Nat) :
    Error → Prop
  /-- Its label denotes the end. -/
  | targetsEnd {i : Instruction Label} {p : Nat} (aims : Aims locate code k i code.length p) :
      Fault locate code k (.switchTargetsEnd k)
  /-- The `nop`s lead to the end, or to something that is no payload. -/
  | withoutPayload {i : Instruction Label} {t p : Nat} (aims : Aims locate code k i t p)
      (inside : t < code.length) (nothing : ∀ q, code[p]? ≠ some (.data q)) :
      Fault locate code k (.switchWithoutPayload k)
  /-- They lead to a payload of another kind. -/
  | mismatched {i : Instruction Label} {t p : Nat} {q : Payload Label}
      (aims : Aims locate code k i t p) (payload : code[p]? = some (.data q))
      (kind : q.opcode ≠ i.opcode.table) :
      Fault locate code k (.mismatchedPayload k i.opcode.table q.opcode)
  /-- They lead to a payload to which those of an earlier switch lead as well. -/
  | ambiguous {i i' : Instruction Label} {t t' p j : Nat} {q : Payload Label}
      (aims : Aims locate code k i t p) (payload : code[p]? = some (.data q))
      (kind : q.opcode = i.opcode.table) (earlier : j < k) (taken : Aims locate code j i' t' p) :
      Fault locate code k (.ambiguousPayload p)

/-- What leads to a payload starts in front of the end. -/
theorem Aims.lt_length (h : Aims locate code k i t p) {q : Payload Label}
    (hq : code[p]? = some (.data q)) : t < code.length :=
  Nat.lt_of_le_of_lt h.run.1 (List.getElem?_eq_some_iff.1 hq).1

/-! ### Where a switch aims decides what is wrong with it -/

theorem Aims.fault_iff_of_end (h : Aims locate code k i t p) (hend : t = code.length) :
    Fault locate code k e ↔ e = .switchTargetsEnd k := by
  constructor
  · intro hfault
    cases hfault with
    | targetsEnd aims => rfl
    | withoutPayload aims inside =>
      obtain ⟨-, rfl, -⟩ := h.unique aims
      exact absurd inside (Nat.not_lt.2 (Nat.le_of_eq hend.symm))
    | mismatched aims payload =>
      obtain ⟨-, rfl, -⟩ := h.unique aims
      exact absurd (aims.lt_length payload) (Nat.not_lt.2 (Nat.le_of_eq hend.symm))
    | ambiguous aims payload =>
      obtain ⟨-, rfl, -⟩ := h.unique aims
      exact absurd (aims.lt_length payload) (Nat.not_lt.2 (Nat.le_of_eq hend.symm))
  · rintro rfl
    subst hend
    exact .targetsEnd h

theorem Aims.fault_iff_of_nothing (h : Aims locate code k i t p) (hinside : t < code.length)
    (hnothing : ∀ q, code[p]? ≠ some (.data q)) :
    Fault locate code k e ↔ e = .switchWithoutPayload k := by
  constructor
  · intro hfault
    cases hfault with
    | targetsEnd aims =>
      obtain ⟨-, rfl, -⟩ := h.unique aims
      exact absurd hinside (Nat.lt_irrefl _)
    | withoutPayload aims => rfl
    | mismatched aims payload =>
      obtain ⟨-, -, rfl⟩ := h.unique aims
      exact absurd payload (hnothing _)
    | ambiguous aims payload =>
      obtain ⟨-, -, rfl⟩ := h.unique aims
      exact absurd payload (hnothing _)
  · rintro rfl
    exact .withoutPayload h hinside hnothing

theorem Aims.fault_iff_of_data (h : Aims locate code k i t p) {q : Payload Label}
    (hq : code[p]? = some (.data q)) : Fault locate code k e ↔
      q.opcode ≠ i.opcode.table ∧ e = .mismatchedPayload k i.opcode.table q.opcode ∨
        q.opcode = i.opcode.table ∧ (∃ j < k, ∃ i' t', Aims locate code j i' t' p) ∧
          e = .ambiguousPayload p := by
  constructor
  · intro hfault
    cases hfault with
    | targetsEnd aims =>
      obtain ⟨-, rfl, -⟩ := h.unique aims
      exact absurd (h.lt_length hq) (Nat.lt_irrefl _)
    | withoutPayload aims inside nothing =>
      obtain ⟨-, -, rfl⟩ := h.unique aims
      exact absurd hq (nothing q)
    | mismatched aims payload kind =>
      obtain ⟨rfl, -, rfl⟩ := h.unique aims
      obtain rfl := Instruction.data.inj (Option.some.inj (hq.symm.trans payload))
      exact .inl ⟨kind, rfl⟩
    | ambiguous aims payload kind earlier taken =>
      obtain ⟨rfl, -, rfl⟩ := h.unique aims
      obtain rfl := Instruction.data.inj (Option.some.inj (hq.symm.trans payload))
      exact .inr ⟨kind, ⟨_, earlier, _, _, taken⟩, rfl⟩
  · rintro (⟨kind, rfl⟩ | ⟨kind, ⟨j, earlier, i', t', taken⟩, rfl⟩)
    · exact .mismatched h hq kind
    · exact .ambiguous h hq kind earlier taken

/-- Only a switch can have a fault. -/
theorem Fault.exists_aims (h : Fault locate code k e) : ∃ i t p, Aims locate code k i t p := by
  cases h with
  | targetsEnd aims => exact ⟨_, _, _, aims⟩
  | withoutPayload aims => exact ⟨_, _, _, aims⟩
  | mismatched aims => exact ⟨_, _, _, aims⟩
  | ambiguous aims => exact ⟨_, _, _, aims⟩

end Code

namespace Listing

open Code

variable {l : Listing} {locate : Label → Except Error Nat} {owners owners' : Owners} {n : Nat}
  {i : Instruction Label} {label : Label} {e : Error}

section

variable (hlocate : ∀ label k, locate label = .ok k → l.locate? label = some k)
  (hplaced : ∀ i ∈ l.instructions, ∀ label ∈ i.switchTarget?, ∃ k ≤ l.size, locate label = .ok k)

include hlocate hplaced

/-- Labels of switches are looked up where they stand. -/
theorem locate_eq_ok_iff_of_placed (hi : i ∈ l.instructions) (hlabel : i.switchTarget? = some label)
    {k : Nat} : locate label = .ok k ↔ l.locate? label = some k := by
  refine ⟨hlocate label k, fun hk => ?_⟩
  obtain ⟨k', -, hk'⟩ := hplaced i hi label hlabel
  obtain rfl := Option.some.inj ((hlocate label k' hk').symm.trans hk)
  exact hk'

/-- What a switch reaches is what it aims at, if that is a table of its kind. -/
theorem reaches_iff_aims {switch table : Nat} : l.Reaches switch table ↔
    ∃ i t, Aims locate l.instructions switch i t table ∧
      ∃ q, l.instructions[table]? = some (.data q) ∧ q.opcode = i.opcode.table := by
  constructor
  · intro h
    have hstop := h.not_nop
    obtain ⟨i, hi, label, hlabel, t, ht, hrun, p, hp, hpayload, hkind⟩ := h
    have ht' := (locate_eq_ok_iff_of_placed hlocate hplaced (List.mem_of_getElem? hi) hlabel).2 ht
    obtain ⟨q, rfl⟩ := Instruction.isPayload_iff.1 hpayload
    exact ⟨i, t, ⟨hi, ⟨label, hlabel, ht'⟩, hrun, hstop⟩, q, hp, hkind⟩
  · rintro ⟨i, t, ⟨hi, ⟨label, hlabel, ht⟩, hrun, -⟩, q, hq, hkind⟩
    exact ⟨i, hi, label, hlabel, t, hlocate label t ht, hrun, .data q, hq, rfl, hkind⟩

/-- Once the switches in front of `n` have found their tables, a payload is taken if one of them aims
at it. -/
theorem BoundUpTo.isSome_of?_iff (h : l.BoundUpTo n owners) {table : Nat} {q : Payload Label}
    (hq : l.instructions[table]? = some (.data q)) : (owners.of? table).isSome = true ↔
      ∃ j < n, ∃ i t, Aims locate l.instructions j i t table := by
  rw [Owners.of?_isSome_iff]
  constructor
  · rintro ⟨o, ho, rfl⟩
    obtain ⟨i, t, haims, -⟩ := (reaches_iff_aims hlocate hplaced).1 (h.reaches o ho)
    exact ⟨o.switch, h.before o ho, i, t, haims⟩
  · rintro ⟨j, hj, i, t, haims⟩
    obtain ⟨label, hlabel, -⟩ := haims.target
    obtain ⟨o, ho, rfl⟩ := h.covers j hj i label haims.instruction hlabel
    obtain ⟨i', t', haims', -⟩ := (reaches_iff_aims hlocate hplaced).1 (h.reaches o ho)
    obtain ⟨-, -, htable⟩ := haims'.unique haims
    exact ⟨o, ho, htable⟩

/-- Finding the table of a switch fails if there is something wrong with the switch. -/
theorem findTable_eq_error_iff (h : l.BoundUpTo n owners) {t p : Nat}
    (haims : Aims locate l.instructions n i t p) :
    l.findTable owners n i.opcode t = .error e ↔ Fault locate l.instructions n e := by
  obtain ⟨label, hlabel, ht⟩ := haims.target
  obtain ⟨t', hle, ht'⟩ := hplaced i (List.mem_of_getElem? haims.instruction) label hlabel
  obtain rfl := Except.ok.inj (ht'.symm.trans ht)
  have hlength := l.length_instructions
  have hp : skipNops t' (l.instructions.drop t') = p :=
    (nopsUpTo_iff_skipNops (hlength.symm ▸ hle) haims.stop).1 haims.run
  rw [findTable, hp]
  dsimp only
  split
  · next hend =>
    rw [haims.fault_iff_of_end (hlength.symm ▸ Nat.le_antisymm hle hend), Except.error.injEq]
    exact eq_comm
  · next hinside =>
    rw [← getElem?_instructions]
    split
    · next q hq =>
      rw [haims.fault_iff_of_data hq, ← h.isSome_of?_iff hlocate hplaced hq]
      split
      · next hkind =>
        constructor
        · intro he
          exact .inl ⟨hkind, (Except.error.inj he).symm⟩
        · rintro (⟨-, rfl⟩ | ⟨hkind', -⟩)
          · rfl
          · exact absurd hkind' hkind
      · next hkind =>
        split
        · next htaken =>
          constructor
          · intro he
            exact .inr ⟨not_not.1 hkind, htaken, (Except.error.inj he).symm⟩
          · rintro (⟨hkind', -⟩ | ⟨-, -, rfl⟩)
            · exact absurd hkind' hkind
            · rfl
        · next hfree =>
          constructor
          · intro he
            cases he
          · rintro (⟨hkind', -⟩ | ⟨-, htaken, -⟩)
            · exact absurd hkind' hkind
            · exact absurd htaken hfree
    · next hnothing =>
      have hlt : t' < l.instructions.length := hlength.symm ▸ Nat.not_le.1 hinside
      rw [haims.fault_iff_of_nothing hlt hnothing, Except.error.injEq]
      exact eq_comm

/-- So does one step of binding. -/
theorem bindStep_eq_error_iff (h : l.BoundUpTo n owners) (hi : l.instructions[n]? = some i) :
    l.bindStep locate owners (i, n) = .error e ↔ Fault locate l.instructions n e := by
  rw [bindStep]
  dsimp only
  cases hswitch : i.switchTarget? with
  | none =>
    constructor
    · intro he
      cases he
    · intro hfault
      obtain ⟨i', t, p, haims⟩ := hfault.exists_aims
      obtain rfl := Option.some.inj (hi.symm.trans haims.instruction)
      obtain ⟨label, hlabel, -⟩ := haims.target
      rw [hswitch] at hlabel
      cases hlabel
  | some label =>
    obtain ⟨t, hle, ht⟩ := hplaced i (List.mem_of_getElem? hi) label hswitch
    obtain ⟨hrun, hstop⟩ := skipNops_spec l.instructions (l.length_instructions.symm ▸ hle)
    have haims : Aims locate l.instructions n i t _ := ⟨hi, ⟨label, hswitch, ht⟩, hrun, hstop⟩
    rw [← findTable_eq_error_iff hlocate hplaced h haims]
    dsimp only
    rw [ht]
    cases hfind : l.findTable owners n i.opcode t with
    | error e' => simp [hfind, bind, Except.bind]
    | ok o => simp [hfind, bind, Except.bind, pure, Except.pure]

/-- Binding the switches from `n` on fails with what is wrong with the first of them with which
something is. -/
theorem foldlM_bindStep_eq_error_iff (rest : List (Instruction Label))
    (hrest : l.instructions.drop n = rest) (h : l.BoundUpTo n owners) :
    (rest.zipIdx n).foldlM (l.bindStep locate) owners = .error e ↔
      ∃ k ≥ n, Fault locate l.instructions k e ∧
        ∀ j ≥ n, j < k → ∀ e', ¬ Fault locate l.instructions j e' := by
  induction rest generalizing n owners with
  | nil =>
    constructor
    · intro he
      cases he
    · rintro ⟨k, hk, hfault, -⟩
      obtain ⟨i, t, p, haims⟩ := hfault.exists_aims
      have hlt := (List.getElem?_eq_some_iff.1 haims.instruction).1
      have hend := List.drop_eq_nil_iff.1 hrest
      omega
  | cons i rest ih =>
    have hi : l.instructions[n]? = some i := by rw [← List.head?_drop, hrest, List.head?_cons]
    have hdrop : l.instructions.drop (n + 1) = rest := by
      rw [← List.tail_drop, hrest, List.tail_cons]
    have hfault := fun e => bindStep_eq_error_iff hlocate hplaced (e := e) h hi
    rw [List.zipIdx_cons, List.foldlM_cons]
    cases hstep : l.bindStep locate owners (i, n) with
    | error e₁ =>
      have hfirst := (hfault e₁).1 hstep
      constructor
      · intro he
        obtain rfl : e₁ = e := Except.error.inj he
        exact ⟨n, Nat.le_refl n, hfirst, fun j hj hlt => absurd hlt (Nat.not_lt.2 hj)⟩
      · rintro ⟨k, hk, hfault', hnone⟩
        rcases Nat.eq_or_lt_of_le hk with rfl | hlt
        · rw [← (hfault e).2 hfault', hstep]
          rfl
        · exact absurd hfirst (hnone n (Nat.le_refl n) hlt e₁)
    | ok owners₁ =>
      have hnone : ∀ e', ¬ Fault locate l.instructions n e' := fun e' hfault' => by
        have he' := (hfault e').2 hfault'
        rw [hstep] at he'
        cases he'
      refine (ih hdrop (h.bindStep hlocate hi hstep)).trans ?_
      constructor
      · rintro ⟨k, hk, hfault', hbefore⟩
        refine ⟨k, Nat.le_of_succ_le hk, hfault', fun j hj hlt => ?_⟩
        rcases Nat.eq_or_lt_of_le hj with rfl | hgt
        · exact hnone
        · exact hbefore j hgt hlt
      · rintro ⟨k, hk, hfault', hbefore⟩
        rcases Nat.eq_or_lt_of_le hk with rfl | hgt
        · exact absurd hfault' (hnone e)
        · exact ⟨k, hgt, hfault', fun j hj => hbefore j (Nat.le_of_succ_le hj)⟩

/-- Binding all switches fails with what is wrong with the first switch with which something is. -/
theorem findOwners_eq_error_iff : l.findOwners locate = .error e ↔
    ∃ k, Fault locate l.instructions k e ∧
      ∀ j < k, ∀ e', ¬ Fault locate l.instructions j e' := by
  refine (foldlM_bindStep_eq_error_iff hlocate hplaced l.instructions (n := 0) rfl
    (BoundUpTo.zero l)).trans ?_
  simp

/-- Binding all switches succeeds if nothing is wrong with any of them. -/
theorem exists_findOwners_eq_ok_iff : (∃ owners, l.findOwners locate = .ok owners) ↔
    ∀ k e, ¬ Fault locate l.instructions k e := by
  constructor
  · rintro ⟨owners, howners⟩ k e hfault
    -- a first faulty switch would have made binding fail
    classical
    have hexists : ∃ k, ∃ e, Fault locate l.instructions k e := ⟨k, e, hfault⟩
    obtain ⟨e₁, hfirst⟩ := Nat.find_spec hexists
    have herror := (findOwners_eq_error_iff hlocate hplaced).2
      ⟨_, hfirst, fun j hj e' h => Nat.find_min hexists hj ⟨e', h⟩⟩
    rw [howners] at herror
    cases herror
  · intro hnone
    cases howners : l.findOwners locate with
    | ok owners => exact ⟨owners, rfl⟩
    | error e =>
      obtain ⟨k, hfault, -⟩ := (findOwners_eq_error_iff hlocate hplaced).1 howners
      exact absurd hfault (hnone k e)

end

end Listing

end Dalvik
