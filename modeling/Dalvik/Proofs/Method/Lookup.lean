import Dalvik.Proofs.Outline.Reading
import Dalvik.Proofs.Outline.Spelling
import Dalvik.Proofs.Outline.Handlers

/-!
# The outline of a well-formed method

In a well-formed method every address is that of an instruction or of the end, and is looked up as
such.  The switch to which a table belongs is found by going back from the table: in between there
are only `nop`s, and a second switch that points there would reach the same table
(`Method.switchAddress?_eq`).  So a well-formed method has an outline, and spells it out
(`Method.exists_outline`).
-/

namespace Dalvik

/-- An address of an instruction or of the end is looked up as its position. -/
theorem Coverage.position_of_stopAt {τ : Type} {code : List (Instruction τ)} {a : Int} {k : Nat}
    (h : Code.stopAt code a = some k) : (ofInstructions code).position a = .ok k := by
  obtain ⟨hk, rfl⟩ := Code.stopAt_eq_some_iff.1 h
  exact position_address code hk

/-- Only tables have targets among the payloads. -/
theorem Payload.isSwitchTable_of_targets_ne_nil {τ : Type} {p : Payload τ} (h : p.targets ≠ []) :
    p.isSwitchTable = true := by
  cases p with
  | array => exact absurd rfl h
  | _ => rfl

namespace Method

variable {m : Method} {k : Nat} {i : Instruction Int32}

/-- The size of a method is the address of its end. -/
theorem units_eq (hcode : m.code = .ofList m.instructions) :
    m.units = Code.address m.instructions m.instructions.length := by
  rw [units, hcode]
  exact (Layout.entries_ofList m.instructions).2

/-- The instructions and the end are laid out at their addresses. -/
theorem offset_eq (hcode : m.code = .ofList m.instructions) (k : Nat) :
    m.code.offset k = Code.address m.instructions k := by
  rw [hcode, Layout.offset_ofList]

/-- An address within the bounds of a method is that of a position. -/
theorem Boundary.exists_stopAt {a : Int} (h : m.Boundary a) :
    ∃ k, Code.stopAt m.instructions a = some k := by
  obtain ⟨k, hk, ha⟩ := h
  exact ⟨k, Code.stopAt_eq_some_iff.2 ⟨hk, ha⟩⟩

/-- What a table or a branch refers to is found by following its offset. -/
theorem forall₂_follow {source : Nat} (h : ∀ offset ∈ i.targets,
      m.Boundary (Code.address m.instructions source + offset.toInt)) :
    ∃ j, m.coverage.resolveFrom (Code.address m.instructions source) i = .ok j ∧
      j.shape = i.shape ∧ List.Forall₂
        (fun offset p => Code.follow m.instructions source offset = some p) i.targets j.targets := by
  have hfollow : ∀ offset ∈ i.targets, ∃ p, Code.follow m.instructions source offset = some p ∧
      m.coverage.position (Code.address m.instructions source + offset.toInt) = .ok p := by
    intro offset hoffset
    obtain ⟨p, hp⟩ := (h offset hoffset).exists_stopAt
    exact ⟨p, hp, Coverage.position_of_stopAt hp⟩
  obtain ⟨j, hj⟩ : ∃ j, m.coverage.resolveFrom (Code.address m.instructions source) i = .ok j :=
    Instruction.exists_mapTargetsM_eq_ok fun offset hoffset =>
      (hfollow offset hoffset).imp fun _ hp => hp.2
  obtain ⟨hshape, htargets⟩ := Instruction.mapTargetsM_eq_ok_iff.1 hj
  refine ⟨j, hj, hshape, forall₂_iff_getElem?.2 ⟨htargets.length_eq, fun n offset p hoffset hp => ?_⟩⟩
  obtain ⟨p', hp', hposition⟩ := hfollow offset (List.mem_of_getElem? hoffset)
  have hlookup := (forall₂_iff_getElem?.1 htargets).2 n offset p hoffset hp
  obtain rfl := Except.ok.inj (hlookup.symm.trans hposition)
  exact hp'

/-- The targets of the instruction at position `k` are offsets from position `base k`: that of the
switch for a table, that of the instruction itself for everything else. -/
def CountsFrom (m : Method) (base : Nat → Nat) : Prop :=
  ∀ k i, m.instructions[k]? = some i → i.targets ≠ [] →
    i.isPayload = false ∧ base k = k ∨ m.Reaches (base k) k

/-! ### The switches of a method -/

/-- The instructions of a method with their addresses. -/
theorem entries_eq (hcode : m.code = .ofList m.instructions) :
    m.code.entries.toList =
      m.instructions.zipIdx.map fun p => (Code.address m.instructions p.2, p.1) := by
  rw [hcode]
  exact (Layout.entries_ofList m.instructions).1

theorem mem_entries_iff (hcode : m.code = .ofList m.instructions) {a : Nat} :
    (a, i) ∈ m.code.entries.toList ↔
      ∃ k, m.instructions[k]? = some i ∧ Code.address m.instructions k = a := by
  rw [entries_eq hcode, List.mem_map]
  constructor
  · rintro ⟨p, hp, heq⟩
    obtain ⟨ha, rfl⟩ := Prod.mk.inj heq
    exact ⟨p.2, List.mem_zipIdx_iff_getElem?.1 hp, ha⟩
  · rintro ⟨k, hk, rfl⟩
    exact ⟨(i, k), List.mem_zipIdx_iff_getElem?.2 hk, rfl⟩

variable (h : m.WellFormed)

include h

/-- The target of a switch is a position. -/
theorem WellFormed.exists_follow {t : Int32} (hi : m.instructions[k]? = some i)
    (ht : i.switchTarget? = some t) : ∃ p, Code.follow m.instructions k t = some p := by
  have hboundary := h.branches k i hi (Instruction.isPayload_of_switchTarget? ht) t
    (Instruction.mem_targets_of_switchTarget? ht)
  exact hboundary.exists_stopAt

/-- The switches are listed with the positions at which they point. -/
theorem mem_switchTargets_iff (hcode : m.code = .ofList m.instructions) {p a : Nat} :
    (p, a) ∈ m.switchTargets m.coverage ↔
      ∃ k i t, m.instructions[k]? = some i ∧ i.switchTarget? = some t ∧
        Code.follow m.instructions k t = some p ∧ Code.address m.instructions k = a := by
  rw [switchTargets, List.mem_filterMap]
  constructor
  · rintro ⟨⟨a', i⟩, hmem, hswitch⟩
    obtain ⟨k, hi, rfl⟩ := (mem_entries_iff hcode).1 hmem
    dsimp only at hswitch
    split at hswitch
    · cases hswitch
    · next hkind =>
      simp only [Bool.or_eq_true, Bool.not_eq_true', not_or, Bool.not_eq_true,
        Bool.not_eq_false] at hkind
      obtain ⟨t, ht⟩ := Instruction.exists_switchTarget? (h.valid i (List.mem_of_getElem? hi)) hkind.2
      obtain ⟨p', hp'⟩ := h.exists_follow hi ht
      have hposition : m.coverage.position (Code.address m.instructions k + t.toInt) = .ok p' :=
        Coverage.position_of_stopAt hp'
      simp only [Instruction.targets_of_switchTarget? ht, List.head?_cons, Option.bind_eq_bind,
        Option.bind_some, hposition, Except.toOption, Option.pure_def, Option.some.injEq,
        Prod.mk.injEq] at hswitch
      obtain ⟨rfl, rfl⟩ := hswitch
      exact ⟨k, i, t, hi, ht, hp', rfl⟩
  · rintro ⟨k, i, t, hi, ht, hp, rfl⟩
    refine ⟨(Code.address m.instructions k, i), (mem_entries_iff hcode).2 ⟨k, hi, rfl⟩, ?_⟩
    have hposition : m.coverage.position (Code.address m.instructions k + t.toInt) = .ok p :=
      Coverage.position_of_stopAt hp
    obtain ⟨o, b, rfl, ho⟩ := Instruction.switchTarget?_eq_some_iff.1 ht
    simp [Instruction.isPayload, Instruction.opcode, ho, Instruction.targets, Operands.targets,
      hposition, Except.toOption]

/-- The switch of a table is found from every position between the one at which it points and the
table. -/
theorem switchAddress?_eq (hcode : m.code = .ofList m.instructions) {switch table p : Nat}
    {i : Instruction Int32} {t : Int32} (hr : m.Reaches switch table)
    (hi : m.instructions[switch]? = some i) (ht : i.switchTarget? = some t)
    (hp : Code.follow m.instructions switch t = some p) (n : Nat) (hn : p + n ≤ table) :
    m.switchAddress? (m.switchTargets m.coverage) (p + n) =
      some (Code.address m.instructions switch) := by
  have hnops : ∀ j < table, p ≤ j → m.instructions[j]? = some .nop := by
    obtain ⟨i', hi', t', ht', p', hp', ⟨-, hnops⟩, -⟩ := hr
    obtain rfl := Option.some.inj (hi.symm.trans hi')
    obtain rfl := Option.some.inj (ht.symm.trans ht')
    obtain rfl := Option.some.inj (hp.symm.trans hp')
    exact hnops
  obtain ⟨payload, hpayload⟩ := hr.isPayload
  obtain ⟨_, _, hunique⟩ := h.owned table payload hpayload (hr.isSwitchTable hpayload)
  -- any switch that points into the run of nops reaches the table, so it is the same
  have hsame : ∀ a j, p ≤ j → j ≤ table → (m.switchTargets m.coverage).lookup j = some a →
      a = Code.address m.instructions switch := by
    intro a j hpj hj hlookup
    obtain ⟨before, behind, hlist, -⟩ := List.lookup_eq_some_iff.1 hlookup
    have hmem : (j, a) ∈ m.switchTargets m.coverage := by simp [hlist]
    obtain ⟨switch', i', t', hi', ht', hp', rfl⟩ := (mem_switchTargets_iff h hcode).1 hmem
    have hswitch : i'.opcode.isSwitch = true := by
      obtain ⟨o, b, rfl, ho⟩ := Instruction.switchTarget?_eq_some_iff.1 ht'
      exact ho
    obtain ⟨table', hr'⟩ := h.bound switch' i' hi' hswitch
    have htable : table' = table := by
      have hstop := hr'.not_nop
      obtain ⟨i'', hi'', t'', ht'', p'', hp'', hrun, -⟩ := hr'
      obtain rfl := Option.some.inj (hi'.symm.trans hi'')
      obtain rfl := Option.some.inj (ht'.symm.trans ht'')
      obtain rfl := Option.some.inj (hp'.symm.trans hp'')
      exact hrun.unique hstop ⟨hj, fun k hk hjk => hnops k hk (Nat.le_trans hpj hjk)⟩ hr.not_nop
    rw [htable] at hr'
    rw [hunique switch' hr', hunique switch hr]
  induction n with
  | zero =>
    obtain ⟨a, ha⟩ : ∃ a, (m.switchTargets m.coverage).lookup p = some a := by
      rw [← Option.isSome_iff_exists, List.lookup_isSome_iff]
      exact ⟨_, (mem_switchTargets_iff h hcode).2 ⟨switch, i, t, hi, ht, hp, rfl⟩, by simp⟩
    unfold switchAddress?
    rw [Nat.add_zero, ha, hsame a p (Nat.le_refl p) hn ha]
  | succ n ih =>
    unfold switchAddress?
    split
    · next a ha =>
      rw [hsame a (p + (n + 1)) (Nat.le_add_right _ _) hn ha]
    · have hget : m.code.get? (p + n) = some (Code.address m.instructions (p + n), .nop) := by
        rw [Layout.get?, hcode, Layout.getElem?_entries_ofList,
          hnops (p + n) (by omega) (Nat.le_add_right _ _), Option.map_some]
      rw [← Nat.add_assoc]
      simp only [hget, Instruction.isNop_nop, if_true]
      exact ih (by omega)

/-! ### Looking up everything -/

/-- The targets of every instruction are looked up, those of a table as offsets from its switch. -/
theorem exists_resolveAt (hcode : m.code = .ofList m.instructions) {k : Nat} {i : Instruction Int32}
    (hi : m.instructions[k]? = some i) :
    ∃ j, m.resolveAt m.coverage (m.switchTargets m.coverage) (Code.address m.instructions k) k i =
        .ok j ∧ j.shape = i.shape ∧
      ∀ source, (i.targets ≠ [] → i.isPayload = false ∧ source = k ∨ m.Reaches source k) →
        List.Forall₂ (fun offset p => Code.follow m.instructions source offset = some p)
          i.targets j.targets := by
  by_cases hnil : i.targets = []
  · obtain ⟨place, hplace⟩ := resolveAt_eq_mapTargetsM (m := m) m.coverage
      (m.switchTargets m.coverage) (Code.address m.instructions k) k i
    obtain ⟨j, hj⟩ : ∃ j, i.mapTargetsM (fun offset => m.coverage.position (place offset)) = .ok j := by
      refine Instruction.exists_mapTargetsM_eq_ok fun offset hoffset => ?_
      rw [hnil] at hoffset
      cases hoffset
    obtain ⟨hshape, htargets⟩ := Instruction.mapTargetsM_eq_ok_iff.1 hj
    rw [hnil, List.forall₂_nil_left_iff] at htargets
    refine ⟨j, hplace.trans hj, hshape, fun source _ => ?_⟩
    rw [hnil, htargets]
    exact .nil
  by_cases hpayload : i.isPayload = true
  · obtain ⟨payload, rfl⟩ := Instruction.isPayload_iff.1 hpayload
    obtain ⟨switch, hr, hunique⟩ :=
      h.owned k payload hi (Payload.isSwitchTable_of_targets_ne_nil hnil)
    obtain ⟨j, hj, hshape, htargets⟩ := forall₂_follow (h.tables switch k _ hr hi)
    obtain ⟨i', hi', t, ht, p, hp, ⟨hle, -⟩, -⟩ := id hr
    have hbase := switchAddress?_eq h hcode hr hi' ht hp (k - p) (by omega)
    rw [Nat.add_sub_cancel' hle] at hbase
    refine ⟨j, ?_, hshape, fun source hsource => ?_⟩
    · rw [resolveAt, if_pos hpayload, hbase]
      exact hj
    · rcases hsource hnil with ⟨hno, -⟩ | hreaches
      · rw [hpayload] at hno
        cases hno
      · rw [hunique source hreaches]
        exact htargets
  · have hno : i.isPayload = false := by simpa using hpayload
    obtain ⟨j, hj, hshape, htargets⟩ := forall₂_follow (h.branches k i hi hno)
    refine ⟨j, ?_, hshape, fun source hsource => ?_⟩
    · rw [resolveAt, if_neg hpayload]
      exact hj
    · rcases hsource hnil with ⟨-, rfl⟩ | hreaches
      · exact htargets
      · obtain ⟨payload, hpayload'⟩ := hreaches.isPayload
        obtain rfl := Option.some.inj (hi.symm.trans hpayload')
        exact absurd rfl hpayload

/-- The instructions are looked up, and the method spells them out. -/
theorem exists_instructions (hcode : m.code = .ofList m.instructions) :
    ∃ places, m.code.toList.mapM (fun (address, index, i) =>
        m.resolveAt m.coverage (m.switchTargets m.coverage) address index i) = .ok places ∧
      ∀ base, m.CountsFrom base → Code.Spells base places m.instructions := by
  obtain ⟨places, hplaces⟩ : ∃ places, m.code.toList.mapM (fun (address, index, i) =>
      m.resolveAt m.coverage (m.switchTargets m.coverage) address index i) = .ok places := by
    refine exists_mapM_eq_ok fun e he => ?_
    rw [hcode, Layout.toList_ofList] at he
    obtain ⟨p, hp, rfl⟩ := List.mem_map.1 he
    exact (exists_resolveAt h hcode (List.mem_zipIdx_iff_getElem?.1 hp)).imp fun _ hj => hj.1
  refine ⟨places, hplaces, fun base hbase => ?_⟩
  rw [mapM_eq_ok_iff, hcode, Layout.toList_ofList, List.forall₂_map_left_iff,
    forall₂_iff_getElem?] at hplaces
  obtain ⟨hlength, hresolve⟩ := hplaces
  rw [List.length_zipIdx] at hlength
  have hspec : ∀ k i j, m.instructions[k]? = some i → places[k]? = some j → j.shape = i.shape ∧
      List.Forall₂ (fun offset p => Code.follow m.instructions (base k) offset = some p)
        i.targets j.targets := by
    intro k i j hi hj
    obtain ⟨j', hj', hshape, htargets⟩ := exists_resolveAt h hcode hi
    have heq := hresolve k (i, k) j (by simp [hi]) hj
    obtain rfl := Except.ok.inj (hj'.symm.trans heq)
    exact ⟨hshape, htargets (base k) (hbase k i hi)⟩
  refine ⟨List.ext_getElem (by simp [hlength]) fun k hk hk' => ?_, fun k j i hj hi => ?_⟩
  · rw [List.length_map] at hk hk'
    rw [List.getElem_map, List.getElem_map]
    exact (hspec k _ _ (List.getElem?_eq_getElem hk) (List.getElem?_eq_getElem hk')).1.symm
  · exact (hspec k i j hi hj).2

/-- The targets of a table are counted from its owner. -/
theorem countsFrom_base {owner? : Nat → Option Nat}
    (howner : ∀ table switch, owner? table = some switch ↔ m.Reaches switch table) :
    m.CountsFrom (Outline.base owner?) := by
  intro k i hi hne
  unfold Outline.base
  cases hof : owner? k with
  | some switch => exact Or.inr ((howner k switch).1 hof)
  | none =>
    refine Or.inl ⟨?_, rfl⟩
    cases i with
    | op o args => rfl
    | data payload =>
      obtain ⟨switch, hr, -⟩ := h.owned k payload hi (Payload.isSwitchTable_of_targets_ne_nil hne)
      rw [(howner k switch).2 hr] at hof
      cases hof

theorem exists_countsFrom : ∃ base, m.CountsFrom base := by
  have hall : ∀ k, ∃ source, ∀ i, m.instructions[k]? = some i → i.targets ≠ [] →
      i.isPayload = false ∧ source = k ∨ m.Reaches source k := by
    intro k
    by_cases htable : ∃ switch, m.Reaches switch k
    · obtain ⟨switch, hr⟩ := htable
      exact ⟨switch, fun _ _ _ => Or.inr hr⟩
    · refine ⟨k, fun i hi hne => Or.inl ⟨?_, rfl⟩⟩
      cases i with
      | op o args => rfl
      | data payload =>
        obtain ⟨switch, hr, -⟩ := h.owned k payload hi (Payload.isSwitchTable_of_targets_ne_nil hne)
        exact absurd ⟨switch, hr⟩ htable
  exact ⟨fun k => (hall k).choose, fun k => (hall k).choose_spec⟩

omit h in
/-- A method and the positions it spells out agree on which switch reaches which table. -/
theorem CountsFrom.reaches_iff {base : Nat → Nat} {places : List (Instruction Nat)}
    (hbase : m.CountsFrom base) (hspells : Code.Spells base places m.instructions)
    {switch table : Nat} :
    m.Reaches switch table ↔ Code.Reaches (fun _ p => some p) places switch table := by
  refine hspells.reaches_iff fun k i p hi hp => ?_
  obtain ⟨j, hj, hshape⟩ := Code.getElem?_of_shape_eq hspells.shape hi
  obtain ⟨t, ht⟩ := Instruction.exists_switchTarget?_of_shape_eq hshape hp
  rcases hbase k j hj (by simp [Instruction.targets_of_switchTarget? ht]) with ⟨-, hself⟩ | hr
  · exact hself
  · exact absurd rfl (hr.table_ne hj (Instruction.isPayload_of_switchTarget? ht))

/-! ### Handlers and debug items -/

omit h in
/-- An address within the bounds of a method is looked up as the position that has it. -/
theorem Boundary.exists_position {a : Int} (ha : m.Boundary a) :
    ∃ k, m.coverage.position a = .ok k ∧ (Code.address m.instructions k : Int) = a := by
  obtain ⟨k, hk⟩ := ha.exists_stopAt
  exact ⟨k, Coverage.position_of_stopAt hk, (Code.stopAt_eq_some_iff.1 hk).2⟩

section

variable (hcode : m.code = .ofList m.instructions) (hsize : m.units < 2 ^ 63)

include hcode hsize

omit h in
theorem Boundary.lt {a : Nat} (ha : m.Boundary a) : a < 2 ^ 63 := by
  obtain ⟨k, hk, heq⟩ := ha
  have hend := Code.address_mono m.instructions hk
  rw [units_eq hcode] at hsize
  omega

omit h in
/-- What is written down at a higher address comes further on. -/
theorem le_of_ofNat_address_le {k k' : Nat} (hk : k ≤ m.instructions.length)
    (hk' : k' ≤ m.instructions.length)
    (hle : UInt64.ofNat (Code.address m.instructions k) ≤
      UInt64.ofNat (Code.address m.instructions k')) : k ≤ k' := by
  have hlt : Code.address m.instructions k < 2 ^ 63 := Boundary.lt hcode hsize ⟨k, hk, rfl⟩
  have hlt' : Code.address m.instructions k' < 2 ^ 63 := Boundary.lt hcode hsize ⟨k', hk', rfl⟩
  rw [UInt64.le_iff_toNat_le, UInt64.toNat_ofNat_of_lt' (Nat.lt_trans hlt (by decide)),
    UInt64.toNat_ofNat_of_lt' (Nat.lt_trans hlt' (by decide))] at hle
  refine Nat.le_of_not_lt fun hgt => ?_
  exact absurd (Code.address_lt_address hgt (Nat.lt_of_lt_of_le hgt hk)) (Nat.not_lt_of_ge hle)

omit h in
/-- The addresses of a method are the same whether they are signed or not. -/
theorem Boundary.toInt_toInt64 {a : UInt64} (ha : m.Boundary a.toNat) :
    a.toInt64.toInt = a.toNat := by
  have hlt := ha.lt hcode hsize
  exact BitVec.toInt_eq_toNat_of_lt (x := a.toBitVec) (by simpa using by omega)

omit h in
/-- The handlers of a block have the addresses that the block says, in spite of the signs. -/
theorem tryEntries_eq {block : TryBlock} (hblock : block.WellFormed m.Boundary) :
    tryEntries block = block.entries.map fun entry =>
      ⟨entry.start, entry.stop, entry.type?, entry.handler⟩ := by
  have hstart := hblock.start.toInt_toInt64 hcode hsize
  have hlt : block.start.toNat + block.count.toNat < 2 ^ 63 := by
    refine Boundary.lt hcode hsize ?_
    rw [Int.natCast_add]
    exact hblock.stop
  have hcount : block.count.toInt64.toInt = block.count.toNat :=
    BitVec.toInt_eq_toNat_of_lt (x := block.count.toBitVec) (by simpa using by omega)
  have hstop : (block.start.toInt64 + block.count.toInt64).toInt =
      ((block.start.toNat + block.count.toNat : Nat) : Int) := by
    rw [Int64.toInt_add, hstart, hcount]
    exact Int.bmod_eq_of_le (by omega) (by omega)
  rw [tryEntries, TryBlock.entries, List.map_map]
  refine List.map_congr_left fun handler hhandler => ?_
  have haddress := (hblock.handled handler hhandler).toInt_toInt64 hcode hsize
  simp only [Function.comp_apply, hstart, hstop, haddress]

/-- The handlers are looked up, and have the addresses that the blocks say. -/
theorem exists_tries :
    ∃ entries, (m.tries.flatMap tryEntries).mapM (fun entry => entry.mapM m.coverage.position) =
        .ok entries ∧
      entries.map (TryEntry.placed (Code.address m.instructions)) =
        m.tries.flatMap TryBlock.entries := by
  have hflat : m.tries.flatMap tryEntries = (m.tries.flatMap TryBlock.entries).map fun entry =>
      ⟨entry.start, entry.stop, entry.type?, entry.handler⟩ := by
    rw [List.map_flatMap]
    exact List.flatMap_congr fun block hblock =>
      tryEntries_eq hcode hsize (h.tries block hblock)
  have hentry : ∀ entry ∈ m.tries.flatMap TryBlock.entries, ∃ entry',
      (⟨entry.start, entry.stop, entry.type?, entry.handler⟩ : TryEntry Int).mapM
          m.coverage.position = .ok entry' ∧
        entry'.placed (Code.address m.instructions) = entry := by
    intro entry hentry
    obtain ⟨block, hblock, hmem⟩ := List.mem_flatMap.1 hentry
    obtain ⟨handler, hhandler, rfl⟩ := List.mem_map.1 hmem
    have hwf := h.tries block hblock
    obtain ⟨start, hstart, hstart'⟩ := hwf.start.exists_position
    obtain ⟨stop, hstop, hstop'⟩ := hwf.stop.exists_position
    obtain ⟨handled, hhandled, hhandled'⟩ := (hwf.handled handler hhandler).exists_position
    refine ⟨⟨start, stop, handler.type?, handled⟩, TryEntry.mapM_eq_ok_iff.2 ⟨rfl, ?_⟩, ?_⟩
    · exact .cons hstart (.cons (by rw [Int.natCast_add]; exact hstop) (.cons hhandled .nil))
    · simp only [TryEntry.placed, TryEntry.mk.injEq, true_and]
      omega
  obtain ⟨entries, hentries, hmap⟩ := exists_mapM_eq_ok_and_map_eq hentry
  rw [hflat, List.mapM_map]
  exact ⟨entries, hentries, by rw [hmap, List.map_id']⟩

/-- The debug items are looked up, and keep their addresses. -/
theorem exists_items :
    ∃ items, m.debugItems.mapM (fun (address, item) => do
        return (← m.coverage.position address.toInt64.toInt, item)) = .ok items ∧
      items.map (fun (k, item) => (UInt64.ofNat (Code.address m.instructions k), item)) =
        m.debugItems := by
  have hitem : ∀ e ∈ m.debugItems, ∃ e' : Nat × DebugItem,
      (do return (← m.coverage.position e.1.toInt64.toInt, e.2)) = Except.ok e' ∧
        (UInt64.ofNat (Code.address m.instructions e'.1), e'.2) = e := by
    intro e he
    have hboundary := h.items e he
    obtain ⟨k, hk, haddress⟩ := hboundary.exists_position
    rw [← hboundary.toInt_toInt64 hcode hsize] at hk
    refine ⟨(k, e.2), bind_eq_ok_iff.2 ⟨k, hk, rfl⟩, ?_⟩
    rw [Int.natCast_inj.1 haddress, UInt64.ofNat_toNat]
  obtain ⟨items, hitems, hmap⟩ := exists_mapM_eq_ok_and_map_eq hitem
  exact ⟨items, hitems, by rw [hmap, List.map_id']⟩

/-- A well-formed method has an outline, and says at which addresses what the outline says at which
positions. -/
theorem WellFormed.exists_outline :
    ∃ o, m.outline = .ok o ∧ o.registers = m.registers ∧
      (∀ base, m.CountsFrom base → Code.Spells base o.instructions m.instructions) ∧
      o.tries.map (TryEntry.placed (Code.address m.instructions)) = m.tries.flatMap TryBlock.entries ∧
      o.debugItems.map (fun (k, item) => (UInt64.ofNat (Code.address m.instructions k), item)) =
        m.debugItems := by
  obtain ⟨places, hplaces, hspells⟩ := exists_instructions h hcode
  obtain ⟨entries, hentries, htries⟩ := exists_tries h hcode hsize
  obtain ⟨items, hitems, hmap⟩ := exists_items h hcode hsize
  refine ⟨⟨m.registers, places, entries, items⟩, ?_, rfl, hspells, htries, hmap⟩
  rw [outline_eq_ok_iff]
  refine ⟨fun e he hno => ?_, mapM_eq_ok_iff.1 hplaces, fun j hj => ?_, mapM_eq_ok_iff.1 hentries,
    ?_, rfl⟩
  · obtain ⟨k, hk, heq⟩ := (mem_entries_iff hcode (a := e.1) (i := e.2)).1 he
    rw [← heq]
    exact (forall₂_follow (h.branches k e.2 hk hno)).imp fun _ hj => hj.1
  · obtain ⟨base, hbase⟩ := exists_countsFrom h
    obtain ⟨k, hk, rfl⟩ := List.mem_iff_getElem.1 hj
    obtain ⟨i, hi, hshape⟩ :=
      Code.getElem?_of_shape_eq (hspells base hbase).shape (List.getElem?_eq_getElem hk)
    rw [← Instruction.valid_shape_iff, ← hshape, Instruction.valid_shape_iff]
    exact h.valid i (List.mem_of_getElem? hi)
  · refine (mapM_eq_ok_iff.1 hitems).imp fun e e' he => ?_
    obtain ⟨k, hk, heq⟩ := bind_eq_ok_iff.1 he
    obtain rfl := pure_eq_ok_iff.1 heq
    exact ⟨hk, rfl⟩

end

end Method

end Dalvik
