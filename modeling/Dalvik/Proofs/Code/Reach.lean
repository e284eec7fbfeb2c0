import Dalvik.Proofs.Listing.Edits
import Dalvik.Proofs.Instruction.Formats
import Dalvik.Listing.Owners

/-!
# From a switch to its table

A switch reaches a table if nothing but plain `nop`s stands between the place which its target
denotes and the table, and the table is of the kind that the switch needs.  `Code.Reaches` says so
for instructions with targets of any kind, `locate` telling what a target denotes.

A switch reaches at most one table, the one found by running over the `nop`s
(`Code.nopsUpTo_iff_skipNops`).  Edits renumber what is reached, as long as they leave the switch and
the table alone.
-/

namespace Dalvik

namespace Instruction

variable {τ σ : Type}

theorem isNop_iff {i : Instruction τ} : i.isNop = true ↔ i = .nop := by
  constructor
  · intro h
    unfold isNop at h
    split at h
    · rfl
    · simp at h
  · rintro rfl
    rfl

@[simp] theorem isNop_nop : (nop : Instruction τ).isNop = true := rfl

theorem switchTarget?_eq_some_iff {i : Instruction τ} {t : τ} :
    i.switchTarget? = some t ↔ ∃ o a, i = .op o (.f31t a t) ∧ o.isSwitch = true := by
  unfold switchTarget?
  split
  · next o a t' => by_cases h : o.isSwitch <;> simp [h]
  · next hno =>
    constructor
    · intro h
      simp at h
    · rintro ⟨o, a, rfl, -⟩
      exact absurd rfl (hno o a t)

/-- A switch has one target, that of its table. -/
theorem targets_of_switchTarget? {i : Instruction τ} {t : τ} (h : i.switchTarget? = some t) :
    i.targets = [t] := by
  obtain ⟨o, a, rfl, -⟩ := switchTarget?_eq_some_iff.1 h
  rfl

theorem mem_targets_of_switchTarget? {i : Instruction τ} {t : τ} (h : i.switchTarget? = some t) :
    t ∈ i.targets := by
  rw [targets_of_switchTarget? h]
  exact List.mem_singleton_self t

theorem isPayload_of_switchTarget? {i : Instruction τ} {t : τ} (h : i.switchTarget? = some t) :
    i.isPayload = false := by
  obtain ⟨o, a, rfl, -⟩ := switchTarget?_eq_some_iff.1 h
  rfl

/-- A valid instruction with the opcode of a switch has a target. -/
theorem exists_switchTarget? {i : Instruction τ} (h : i.Valid) (ho : i.opcode.isSwitch = true) :
    ∃ t, i.switchTarget? = some t := by
  cases i with
  | op o args =>
    have hformat := format_of_valid h
    have ho' : o.isSwitch = true := ho
    rw [Opcode.format_of_isSwitch ho'] at hformat
    obtain ⟨a, t, rfl⟩ := Operands.exists_of_format_f31t hformat.symm
    exact ⟨t, if_pos ho'⟩
  | data p => cases p <;> simp [opcode, Payload.opcode, Opcode.isSwitch] at ho

theorem isPayload_iff {i : Instruction τ} : i.isPayload = true ↔ ∃ p, i = .data p := by
  cases i <;> simp [isPayload]

end Instruction

namespace Code

variable {τ : Type}

/-! ### Runs of nops -/

/-- Nothing but plain `nop`s stands from `start` up to `stop`. -/
def NopsUpTo (code : List (Instruction τ)) (start stop : Nat) : Prop :=
  start ≤ stop ∧ ∀ k < stop, start ≤ k → code[k]? = some .nop

instance [DecidableEq τ] (code : List (Instruction τ)) (start stop : Nat) :
    Decidable (NopsUpTo code start stop) :=
  inferInstanceAs (Decidable (_ ∧ _))

theorem nopsUpTo_self (code : List (Instruction τ)) (k : Nat) : NopsUpTo code k k :=
  ⟨Nat.le_refl k, fun _ hlt hle => absurd hlt (Nat.not_lt_of_ge hle)⟩

/-- Two runs of nops from the same place that cannot go on end at the same place. -/
theorem NopsUpTo.unique {code : List (Instruction τ)} {start stop stop' : Nat}
    (h : NopsUpTo code start stop) (hstop : code[stop]? ≠ some .nop)
    (h' : NopsUpTo code start stop') (hstop' : code[stop']? ≠ some .nop) : stop = stop' := by
  rcases Nat.lt_trichotomy stop stop' with hlt | heq | hgt
  · exact absurd (h'.2 stop hlt h.1) hstop
  · exact heq
  · exact absurd (h.2 stop' hgt h'.1) hstop'

/-- Running over nops stops at the first position without one. -/
theorem skipNops_spec (code : List (Instruction Label)) {start : Nat} (hstart : start ≤ code.length) :
    NopsUpTo code start (Listing.skipNops start (code.drop start)) ∧
      code[Listing.skipNops start (code.drop start)]? ≠ some .nop := by
  obtain ⟨rest, hrest⟩ : ∃ rest, code.drop start = rest := ⟨_, rfl⟩
  induction rest generalizing start with
  | nil =>
    have hend : code.length ≤ start := List.drop_eq_nil_iff.1 hrest
    rw [hrest, Listing.skipNops, List.getElem?_eq_none hend]
    exact ⟨nopsUpTo_self code start, by simp⟩
  | cons i rest ih =>
    have hi : code[start]? = some i := by
      rw [← List.head?_drop, hrest, List.head?_cons]
    have hlt : start < code.length := (List.getElem?_eq_some_iff.1 hi).1
    rw [hrest, Listing.skipNops]
    by_cases hnop : i.isNop
    · obtain rfl := Instruction.isNop_iff.1 hnop
      have hdrop : code.drop (start + 1) = rest := by rw [← List.tail_drop, hrest, List.tail_cons]
      rw [if_pos hnop]
      obtain ⟨⟨hle, hrun⟩, hstop⟩ := ih hlt hdrop
      rw [hdrop] at hle hrun hstop
      refine ⟨⟨Nat.le_of_succ_le hle, fun k hk hstartk => ?_⟩, hstop⟩
      rcases Nat.eq_or_lt_of_le hstartk with rfl | hgt
      · exact hi
      · exact hrun k hk hgt
    · rw [if_neg hnop]
      refine ⟨nopsUpTo_self code start, fun h => hnop ?_⟩
      obtain rfl := Option.some.inj (hi.symm.trans h)
      rfl

/-- Where a run of nops that cannot go on ends is where running over nops stops. -/
theorem nopsUpTo_iff_skipNops {code : List (Instruction Label)} {start stop : Nat}
    (hstart : start ≤ code.length) (hstop : code[stop]? ≠ some .nop) :
    NopsUpTo code start stop ↔ Listing.skipNops start (code.drop start) = stop := by
  obtain ⟨hrun, hend⟩ := skipNops_spec code hstart
  constructor
  · intro h
    exact hrun.unique hend h hstop
  · rintro rfl
    exact hrun

/-! ### Switches and tables -/

/-- The switch at `switch` reaches the table at `table`. -/
def Reaches (locate : Nat → τ → Option Nat) (code : List (Instruction τ)) (switch table : Nat) :
    Prop :=
  ∃ i ∈ code[switch]?, ∃ t ∈ i.switchTarget?, ∃ target ∈ locate switch t,
    NopsUpTo code target table ∧ ∃ p ∈ code[table]?, p.isPayload = true ∧ p.opcode = i.opcode.table

instance [DecidableEq τ] (locate : Nat → τ → Option Nat) (code : List (Instruction τ))
    (switch table : Nat) : Decidable (Reaches locate code switch table) :=
  inferInstanceAs (Decidable (∃ i ∈ code[switch]?, _))

section

variable {locate locate' : Nat → τ → Option Nat} {code code' : List (Instruction τ)}
  {switch table : Nat}

theorem Reaches.isPayload (h : Reaches locate code switch table) :
    ∃ p, code[table]? = some (.data p) := by
  obtain ⟨i, -, t, -, target, -, -, p, hp, hpayload, -⟩ := h
  obtain ⟨q, rfl⟩ := Instruction.isPayload_iff.1 hpayload
  exact ⟨q, hp⟩

theorem Reaches.not_nop (h : Reaches locate code switch table) : code[table]? ≠ some .nop := by
  obtain ⟨p, hp⟩ := h.isPayload
  rw [hp]
  simp [Instruction.nop]

/-- What a switch reaches is a table of its own kind. -/
theorem Reaches.isSwitchTable (h : Reaches locate code switch table) {p : Payload τ}
    (hp : code[table]? = some (.data p)) : p.isSwitchTable = true := by
  obtain ⟨i, -, t, ht, target, -, -, q, hq, -, hkind⟩ := h
  obtain ⟨o, a, rfl, ho⟩ := Instruction.switchTarget?_eq_some_iff.1 ht
  obtain rfl := Option.some.inj (hp.symm.trans hq)
  cases p with
  | array => cases o <;> simp [Opcode.isSwitch] at ho <;> simp [Instruction.opcode, Payload.opcode,
      Opcode.table] at hkind
  | _ => rfl

theorem Reaches.switchTarget? (h : Reaches locate code switch table) :
    ∃ i t, code[switch]? = some i ∧ i.switchTarget? = some t := by
  obtain ⟨i, hi, t, ht, -⟩ := h
  exact ⟨i, t, hi, ht⟩

/-- A switch is not itself data or a nop. -/
theorem Reaches.switch_ne {k : Nat} {i : Instruction τ} (h : Reaches locate code switch table)
    (hi : code[k]? = some i) (hno : i.switchTarget? = none) : switch ≠ k := by
  obtain ⟨j, t, hj, ht⟩ := h.switchTarget?
  rintro rfl
  obtain rfl := Option.some.inj (hi.symm.trans hj)
  simp [hno] at ht

theorem Reaches.table_ne {k : Nat} {i : Instruction τ} (h : Reaches locate code switch table)
    (hi : code[k]? = some i) (hno : i.isPayload = false) : table ≠ k := by
  obtain ⟨p, hp⟩ := h.isPayload
  rintro rfl
  obtain rfl := Option.some.inj (hi.symm.trans hp)
  simp [Instruction.isPayload] at hno

/-- A switch reaches at most one table. -/
theorem Reaches.unique {table' : Nat} (h : Reaches locate code switch table)
    (h' : Reaches locate code switch table') : table = table' := by
  have hstop := h.not_nop
  have hstop' := h'.not_nop
  obtain ⟨i, hi, t, ht, target, htarget, hrun, -⟩ := h
  obtain ⟨j, hj, u, hu, target', htarget', hrun', -⟩ := h'
  obtain rfl := Option.mem_unique hi hj
  obtain rfl := Option.mem_unique ht hu
  obtain rfl := Option.mem_unique htarget htarget'
  exact hrun.unique hstop hrun' hstop'

/-! ### What edits do to reaching -/

/-- A nop that is added anywhere does no harm. -/
theorem NopsUpTo.insertIdx {start stop : Nat} (h : NopsUpTo code start stop) {k : Nat}
    (hk : k ≤ code.length) :
    NopsUpTo (code.insertIdx k .nop) (shiftUp k start) (shiftUp k stop) := by
  obtain ⟨hle, hrun⟩ := h
  constructor
  · unfold shiftUp
    split <;> split <;> omega
  · intro j hj hstart
    rcases Nat.lt_trichotomy j k with hlt | rfl | hgt
    · -- in front of the new nop nothing has changed
      rw [List.getElem?_insertIdx_of_lt hlt]
      unfold shiftUp at hj hstart
      split at hj <;> split at hstart <;> exact hrun j (by omega) (by omega)
    · rw [List.getElem?_insertIdx_self, if_pos hk]
    · rw [List.getElem?_insertIdx_of_gt hgt]
      unfold shiftUp at hj hstart
      split at hj <;> split at hstart <;> exact hrun (j - 1) (by omega) (by omega)

/-- Nor does it matter if one is removed, or something else that is not in between. -/
theorem NopsUpTo.eraseIdx {start stop : Nat} (h : NopsUpTo code start stop) (k : Nat) :
    NopsUpTo (code.eraseIdx k) (shiftDown k start) (shiftDown k stop) := by
  obtain ⟨hle, hrun⟩ := h
  constructor
  · unfold shiftDown
    split <;> split <;> omega
  · intro j hj hstart
    rcases Nat.lt_or_ge j k with hlt | hge
    · rw [List.getElem?_eraseIdx_of_lt hlt]
      unfold shiftDown at hj hstart
      split at hj <;> split at hstart <;> exact hrun j (by omega) (by omega)
    · rw [List.getElem?_eraseIdx_of_ge hge]
      unfold shiftDown at hj hstart
      split at hj <;> split at hstart <;> exact hrun (j + 1) (by omega) (by omega)

theorem NopsUpTo.set {start stop : Nat} (h : NopsUpTo code start stop) {k : Nat}
    (hk : code[k]? ≠ some .nop) (i : Instruction τ) : NopsUpTo (code.set k i) start stop := by
  refine ⟨h.1, fun j hj hstart => ?_⟩
  have hnop := h.2 j hj hstart
  have hne : k ≠ j := by
    rintro rfl
    exact hk hnop
  rw [List.getElem?_set_ne hne, hnop]

/-- Adding a nop renumbers what a switch reaches. -/
theorem Reaches.insertIdx (h : Reaches locate code switch table) {k : Nat} (hk : k ≤ code.length)
    (hlocate : ∀ i ∈ code[switch]?, ∀ t ∈ i.switchTarget?,
      locate' (shiftUp k switch) t = (locate switch t).map (shiftUp k)) :
    Reaches locate' (code.insertIdx k .nop) (shiftUp k switch) (shiftUp k table) := by
  obtain ⟨i, hi, t, ht, target, htarget, hrun, p, hp, hkind⟩ := h
  refine ⟨i, ?_, t, ht, shiftUp k target, ?_, hrun.insertIdx hk, p, ?_, hkind⟩
  · rw [getElem?_insertIdx_shiftUp]
    exact hi
  · rw [hlocate i hi t ht, Option.mem_def.1 htarget]
    rfl
  · rw [getElem?_insertIdx_shiftUp]
    exact hp

/-- Removing what is neither the switch nor the table renumbers what the switch reaches. -/
theorem Reaches.eraseIdx (h : Reaches locate code switch table) {k : Nat} (hswitch : switch ≠ k)
    (htable : table ≠ k)
    (hlocate : ∀ i ∈ code[switch]?, ∀ t ∈ i.switchTarget?,
      locate' (shiftDown k switch) t = (locate switch t).map (shiftDown k)) :
    Reaches locate' (code.eraseIdx k) (shiftDown k switch) (shiftDown k table) := by
  obtain ⟨i, hi, t, ht, target, htarget, hrun, p, hp, hkind⟩ := h
  refine ⟨i, ?_, t, ht, shiftDown k target, ?_, hrun.eraseIdx k, p, ?_, hkind⟩
  · rw [getElem?_eraseIdx_shiftDown _ hswitch]
    exact hi
  · rw [hlocate i hi t ht, Option.mem_def.1 htarget]
    rfl
  · rw [getElem?_eraseIdx_shiftDown _ htable]
    exact hp

/-- Exchanging an instruction that is no nop, nor the switch or the table, changes nothing. -/
theorem Reaches.set (h : Reaches locate code switch table) {k : Nat} (hk : code[k]? ≠ some .nop)
    (hswitch : switch ≠ k) (htable : table ≠ k)
    (hlocate : ∀ i ∈ code[switch]?, ∀ t ∈ i.switchTarget?, locate' switch t = locate switch t)
    (j : Instruction τ) : Reaches locate' (code.set k j) switch table := by
  obtain ⟨i, hi, t, ht, target, htarget, hrun, p, hp, hkind⟩ := h
  refine ⟨i, ?_, t, ht, target, ?_, hrun.set hk j, p, ?_, hkind⟩
  · rw [List.getElem?_set_ne (Ne.symm hswitch)]
    exact hi
  · rw [hlocate i hi t ht]
    exact htarget
  · rw [List.getElem?_set_ne (Ne.symm htable)]
    exact hp

end

end Code

end Dalvik
