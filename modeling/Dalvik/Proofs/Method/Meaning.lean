import Dalvik.Proofs.Method.Switches
import Dalvik.Proofs.Outline.Overflow

/-!
# What the addresses of a method mean

An address stands for the position that covers it.  A branch counts from itself, a table from the switch
to which it belongs; the targets of a table that belongs to no switch are taken for addresses, as far as
they are not negative (`Method.LeadsTo`).

A method has an outline if its instructions are valid and no target is negative
(`Method.exists_outline_iff`), and the outline then says with positions what the method says with
addresses (`Method.read_of_outline`).
-/

namespace Dalvik

namespace Method

variable {τ σ : Type} {m : Method} {k : Nat} {i : Instruction Int32} {o : Outline}

/-- The address to which a target of the instruction `i` at position `k` leads. -/
inductive LeadsTo (m : Method) (k : Nat) (i : Instruction Int32) (offset : Int32) : Int → Prop
  /-- A branch counts from itself. -/
  | branch (executed : i.isPayload = false) :
    LeadsTo m k i offset (Code.address m.instructions k + offset.toInt)
  /-- A table counts from its switch. -/
  | table {switch : Nat} (payload : i.isPayload = true) (finds : m.Finds k switch) :
    LeadsTo m k i offset (Code.address m.instructions switch + offset.toInt)
  /-- A table without a switch counts from the start, and gets no farther back. -/
  | orphan (payload : i.isPayload = true) (none : ∀ switch, ¬ m.Finds k switch) :
    LeadsTo m k i offset (max offset.toInt 0)

/-- The instruction `j` is the instruction `i` at position `k`, with places for targets. -/
def Spelled (m : Method) (place : Int → τ → Prop) (k : Nat) (i : Instruction Int32)
    (j : Instruction τ) : Prop :=
  j.shape = i.shape ∧
    List.Forall₂ (fun offset t => ∃ a, m.LeadsTo k i offset a ∧ place a t) i.targets j.targets

/-- A handler of a block with places for addresses. -/
structure Guards (place : Int → τ → Prop) (block : TryBlock) (handler : Handler)
    (entry : TryEntry τ) : Prop where
  start : place block.start.toNat entry.start
  stop : place (block.start.toNat + block.count.toNat) entry.stop
  type? : entry.type? = handler.type?
  handler : place handler.address.toNat entry.handler

/-- The handlers of a method, each with its block. -/
def guarded (m : Method) : List (TryBlock × Handler) :=
  m.tries.flatMap fun block => block.handlers.map fun handler => (block, handler)

/-- Instructions and handlers that say with places what a method says with addresses. -/
structure Read (m : Method) (place : Int → τ → Prop) (instructions : List (Instruction τ))
    (tries : List (TryEntry τ)) : Prop where
  /-- There are as many instructions. -/
  length : instructions.length = m.instructions.length
  /-- They are the same, but for the targets. -/
  instructions : ∀ (k : Nat) i j, m.instructions[k]? = some i → instructions[k]? = some j →
    m.Spelled place k i j
  /-- So are the handlers, in their order. -/
  tries : List.Forall₂ (fun e entry => Guards place e.1 e.2 entry) m.guarded tries

/-- The addresses of handlers and debug items can be told apart from negative ones. -/
structure Small (m : Method) : Prop where
  blocks : ∀ block ∈ m.tries, block.start.toNat + block.count.toNat < 2 ^ 63
  handlers : ∀ block ∈ m.tries, ∀ handler ∈ block.handlers, handler.address.toNat < 2 ^ 63
  items : ∀ e ∈ m.debugItems, e.1.toNat < 2 ^ 63

/-- Nothing in a method is invalid, and nothing leads in front of its start. -/
structure Importable (m : Method) : Prop where
  valid : ∀ i ∈ m.instructions, i.Valid
  branches : ∀ k i, m.instructions[k]? = some i → i.isPayload = false → ∀ offset ∈ i.targets,
    0 ≤ (Code.address m.instructions k : Int) + offset.toInt
  tables : ∀ table payload switch, m.instructions[table]? = some (.data payload) →
    m.Finds table switch → ∀ offset ∈ payload.targets,
      0 ≤ (Code.address m.instructions switch : Int) + offset.toInt

/-! ### Single targets -/

/-- A place of one kind may be exchanged for one of another. -/
theorem Spelled.trans {place : Int → τ → Prop} {place' : Int → σ → Prop} {j : Instruction τ}
    {j' : Instruction σ} (h : m.Spelled place k i j) (hshape : j'.shape = j.shape)
    (htargets : List.Forall₂ (fun t t' => ∀ a, place a t → place' a t') j.targets j'.targets) :
    m.Spelled place' k i j' := by
  obtain ⟨hij, hplaces⟩ := h
  obtain ⟨hlength, hplaces⟩ := forall₂_iff_getElem?.1 hplaces
  obtain ⟨hlength', htargets⟩ := forall₂_iff_getElem?.1 htargets
  refine ⟨hshape.trans hij, forall₂_iff_getElem?.2
    ⟨hlength.trans hlength', fun n offset t' hoffset ht' => ?_⟩⟩
  have hn : n < j.targets.length := hlength ▸ (List.getElem?_eq_some_iff.1 hoffset).1
  obtain ⟨a, hleads, ha⟩ := hplaces n offset _ hoffset (List.getElem?_eq_getElem hn)
  exact ⟨a, hleads, htargets n _ t' (List.getElem?_eq_getElem hn) ht' a ha⟩

/-- In what can be imported nothing leads in front of the start. -/
theorem Importable.nonneg (h : m.Importable) (hi : m.instructions[k]? = some i) {offset : Int32}
    (hoffset : offset ∈ i.targets) {a : Int} (ha : m.LeadsTo k i offset a) : 0 ≤ a := by
  cases ha with
  | branch executed => exact h.branches k i hi executed offset hoffset
  | table payload finds =>
    obtain ⟨p, rfl⟩ := Instruction.isPayload_iff.1 payload
    exact h.tables k p _ hi finds offset hoffset
  | orphan => exact Int.le_max_right _ _

variable (hcode : m.code = .ofList m.instructions)

include hcode

/-- There is one way of counting for each instruction, and its targets are looked up that way. -/
theorem exists_count (k : Nat) (i : Instruction Int32) : ∃ count : Int32 → Int,
    (∀ offset a, m.LeadsTo k i offset a ↔ a = count offset) ∧
      m.resolveAt m.coverage (m.switchTargets m.coverage) (Code.address m.instructions k) k i =
        i.mapTargetsM fun offset => m.coverage.position (count offset) := by
  unfold resolveAt
  cases hpayload : i.isPayload with
  | false =>
    refine ⟨_, fun offset a => ⟨fun ha => ?_, fun ha => ha ▸ .branch hpayload⟩, rfl⟩
    cases ha with
    | branch => rfl
    | table payload => cases hpayload.symm.trans payload
    | orphan payload => cases hpayload.symm.trans payload
  | true =>
    rw [if_pos rfl]
    cases hbase : m.switchAddress? (m.switchTargets m.coverage) k with
    | some base =>
      obtain ⟨switch, hfinds, rfl⟩ := (switchAddress?_eq_some_iff hcode).1 hbase
      refine ⟨_, fun offset a => ⟨fun ha => ?_, fun ha => ha ▸ .table hpayload hfinds⟩, rfl⟩
      cases ha with
      | branch executed => cases hpayload.symm.trans executed
      | @table switch' payload finds =>
        have hbase' := (switchAddress?_eq_some_iff hcode).2 ⟨switch', finds, rfl⟩
        rw [Option.some.inj (hbase'.symm.trans hbase)]
      | orphan payload none => exact absurd hfinds (none switch)
    | none =>
      have hnone : ∀ switch, ¬ m.Finds k switch := by
        intro switch hfinds
        rw [(switchAddress?_eq_some_iff hcode).2 ⟨switch, hfinds, rfl⟩] at hbase
        cases hbase
      refine ⟨_, fun offset a => ⟨fun ha => ?_, fun ha => ha ▸ .orphan hpayload hnone⟩, rfl⟩
      cases ha with
      | branch executed => cases hpayload.symm.trans executed
      | table payload finds => exact absurd finds (hnone _)
      | orphan => rfl

/-- An instruction is looked up by looking up the addresses to which its targets lead. -/
theorem resolveAt_eq_ok_iff {j : Instruction Nat} :
    m.resolveAt m.coverage (m.switchTargets m.coverage) (Code.address m.instructions k) k i = .ok j ↔
      m.Spelled (Code.Covers m.instructions) k i j := by
  obtain ⟨count, hcount, hresolve⟩ := exists_count hcode k i
  rw [hresolve, Instruction.mapTargetsM_eq_ok_iff]
  unfold Spelled
  simp only [hcount, exists_eq_left, coverage, Coverage.position_eq_ok_iff]

/-- That is possible if none of these addresses is negative. -/
theorem exists_resolveAt_of_nonneg (h : ∀ offset ∈ i.targets, ∀ a, m.LeadsTo k i offset a → 0 ≤ a) :
    ∃ j, m.resolveAt m.coverage (m.switchTargets m.coverage) (Code.address m.instructions k) k i =
      .ok j := by
  obtain ⟨count, hcount, hresolve⟩ := exists_count hcode k i
  rw [hresolve]
  refine Instruction.exists_mapTargetsM_eq_ok fun offset hoffset => ?_
  rw [coverage, Coverage.exists_position_iff]
  exact h offset hoffset _ ((hcount offset _).2 rfl)

/-- No address to which an instruction leads is negative once the instruction has been looked up. -/
theorem Spelled.nonneg {j : Instruction Nat} (h : m.Spelled (Code.Covers m.instructions) k i j)
    {offset : Int32} (hoffset : offset ∈ i.targets) {a : Int} (ha : m.LeadsTo k i offset a) :
    0 ≤ a := by
  obtain ⟨count, hcount, -⟩ := exists_count hcode k i
  obtain ⟨p, -, a', ha', hcovers⟩ := forall₂_exists_left h.2.flip hoffset
  obtain rfl : a = a' := ((hcount offset a).1 ha).trans ((hcount offset a').1 ha').symm
  exact hcovers.nonneg

/-! ### Handlers and debug items -/

omit hcode in
/-- A small address is the same with and without a sign. -/
theorem toInt_toInt64 {a : UInt64} (ha : a.toNat < 2 ^ 63) : a.toInt64.toInt = a.toNat :=
  BitVec.toInt_eq_toNat_of_lt (x := a.toBitVec) (by simpa using by omega)

omit hcode in
/-- The handlers are looked up with the addresses that their blocks say. -/
theorem Small.tryEntries_eq (h : m.Small) : m.tries.flatMap tryEntries =
    m.guarded.map fun e => ⟨e.1.start.toNat, e.1.start.toNat + e.1.count.toNat, e.2.type?,
      e.2.address.toNat⟩ := by
  rw [guarded, List.map_flatMap]
  refine List.flatMap_congr fun block hblock => ?_
  have hlt := h.blocks block hblock
  have hstart := toInt_toInt64 (a := block.start) (by omega)
  have hcount := toInt_toInt64 (a := block.count) (by omega)
  have hstop : (block.start.toInt64 + block.count.toInt64).toInt =
      (block.start.toNat : Int) + block.count.toNat := by
    rw [Int64.toInt_add, hstart, hcount]
    exact Int.bmod_eq_of_le (by omega) (by omega)
  rw [tryEntries, List.map_map]
  refine List.map_congr_left fun handler hhandler => ?_
  simp only [Function.comp_apply, hstart, hstop, toInt_toInt64 (h.handlers block hblock handler hhandler)]

omit hcode in
/-- A handler is looked up by looking up its addresses. -/
theorem mapM_position_eq_ok_iff {block : TryBlock} {handler : Handler} {entry : TryEntry Nat} :
    (⟨block.start.toNat, block.start.toNat + block.count.toNat, handler.type?,
        handler.address.toNat⟩ : TryEntry Int).mapM m.coverage.position = .ok entry ↔
      Guards (Code.Covers m.instructions) block handler entry := by
  rw [TryEntry.mapM_eq_ok_iff]
  simp only [TryEntry.places, List.forall₂_cons, List.forall₂_nil_left_iff, and_true, coverage,
    Coverage.position_eq_ok_iff]
  constructor
  · rintro ⟨htype, hstart, hstop, hhandler⟩
    exact ⟨hstart, hstop, htype, hhandler⟩
  · rintro ⟨hstart, hstop, htype, hhandler⟩
    exact ⟨htype, hstart, hstop, hhandler⟩

/-! ### The outline -/

/-- What the instructions are looked up as. -/
theorem forall₂_resolveAt_iff {places : List (Instruction Nat)} :
    List.Forall₂ (fun e j =>
        m.resolveAt m.coverage (m.switchTargets m.coverage) e.1 e.2.1 e.2.2 = .ok j)
      m.code.toList places ↔ places.length = m.instructions.length ∧
        ∀ (k : Nat) i j, m.instructions[k]? = some i → places[k]? = some j →
          m.Spelled (Code.Covers m.instructions) k i j := by
  rw [hcode, Layout.toList_ofList, List.forall₂_map_left_iff, forall₂_iff_getElem?]
  simp only [List.length_zipIdx, List.getElem?_zipIdx, Option.map_eq_some_iff, Nat.zero_add]
  refine and_congr eq_comm ⟨fun h k i j hi hj => ?_, fun h k e j he hj => ?_⟩
  · exact (resolveAt_eq_ok_iff hcode).1 (h k _ j ⟨i, hi, rfl⟩ hj)
  · obtain ⟨i, hi, rfl⟩ := he
    exact (resolveAt_eq_ok_iff hcode).2 (h k i j hi hj)

/-- The instructions of the outline of a method say with positions what those of the method say with
addresses. -/
theorem spelled_of_outline (h : m.outline = .ok o) :
    o.instructions.length = m.instructions.length ∧
      ∀ (k : Nat) i j, m.instructions[k]? = some i → o.instructions[k]? = some j →
        m.Spelled (Code.Covers m.instructions) k i j :=
  (forall₂_resolveAt_iff hcode).1 (outline_eq_ok_iff.1 h).2.1

section

variable (hsmall : m.Small)

include hsmall

/-- The outline of a method says with positions what the method says with addresses. -/
theorem read_of_outline (h : m.outline = .ok o) :
    m.Read (Code.Covers m.instructions) o.instructions o.tries ∧
      List.Forall₂ (fun e e' => Code.Covers m.instructions e.1.toNat e'.1 ∧ e'.2 = e.2)
        m.debugItems o.debugItems ∧
      o.registers = m.registers := by
  obtain ⟨-, -, -, htries, hitems, hregisters⟩ := outline_eq_ok_iff.1 h
  obtain ⟨hlength, hspelled⟩ := spelled_of_outline hcode h
  rw [hsmall.tryEntries_eq, List.forall₂_map_left_iff] at htries
  refine ⟨⟨hlength, hspelled, htries.imp fun e entry => mapM_position_eq_ok_iff.1⟩, ?_, hregisters⟩
  obtain ⟨hlength', hitems⟩ := forall₂_iff_getElem?.1 hitems
  refine forall₂_iff_getElem?.2 ⟨hlength', fun n e e' he he' => ?_⟩
  obtain ⟨hposition, hsame⟩ := hitems n e e' he he'
  rw [toInt_toInt64 (hsmall.items e (List.mem_of_getElem? he)), coverage,
    Coverage.position_eq_ok_iff] at hposition
  exact ⟨hposition, hsame⟩

/-- What has an outline can be imported. -/
theorem importable_of_outline (h : m.outline = .ok o) : m.Importable := by
  obtain ⟨hread, -⟩ := read_of_outline hcode hsmall h
  have hvalid := (wellFormed_of_outline h).valid
  have hplace : ∀ {k : Nat} {i}, m.instructions[k]? = some i →
      ∃ j, o.instructions[k]? = some j ∧ m.Spelled (Code.Covers m.instructions) k i j := by
    intro k i hi
    have hk : k < o.instructions.length := hread.length ▸ (List.getElem?_eq_some_iff.1 hi).1
    exact ⟨_, List.getElem?_eq_getElem hk,
      hread.instructions k i _ hi (List.getElem?_eq_getElem hk)⟩
  refine ⟨fun i hi => ?_, fun k i hi hno offset hoffset => ?_,
    fun table payload switch hi hfinds offset hoffset => ?_⟩
  · obtain ⟨k, hk⟩ := List.getElem?_of_mem hi
    obtain ⟨j, hj, hshape, -⟩ := hplace hk
    rw [← Instruction.valid_shape_iff, ← hshape, Instruction.valid_shape_iff]
    exact hvalid j (List.mem_of_getElem? hj)
  · obtain ⟨j, -, hspelled⟩ := hplace hi
    exact hspelled.nonneg hcode hoffset (.branch hno)
  · obtain ⟨j, -, hspelled⟩ := hplace hi
    exact hspelled.nonneg hcode (i := .data payload) hoffset (.table rfl hfinds)

/-- What can be imported has an outline. -/
theorem Importable.exists_outline (h : m.Importable) : ∃ o, m.outline = .ok o := by
  have hposition : ∀ {a : Int}, 0 ≤ a → ∃ k, m.coverage.position a = .ok k := fun ha =>
    Coverage.exists_position_iff.2 ha
  obtain ⟨places, hplaces⟩ : ∃ places, m.code.toList.mapM (fun e =>
      m.resolveAt m.coverage (m.switchTargets m.coverage) e.1 e.2.1 e.2.2) = .ok places := by
    refine exists_mapM_eq_ok fun e he => ?_
    rw [hcode, Layout.toList_ofList] at he
    obtain ⟨p, hp, rfl⟩ := List.mem_map.1 he
    have hi := List.mem_zipIdx_iff_getElem?.1 hp
    exact exists_resolveAt_of_nonneg hcode fun offset hoffset a ha => h.nonneg hi hoffset ha
  obtain ⟨entries, hentries⟩ : ∃ entries, (m.tries.flatMap tryEntries).mapM
      (fun entry => entry.mapM m.coverage.position) = .ok entries := by
    rw [hsmall.tryEntries_eq]
    refine exists_mapM_eq_ok fun entry hentry => ?_
    obtain ⟨⟨block, handler⟩, -, rfl⟩ := List.mem_map.1 hentry
    obtain ⟨start, hstart⟩ := hposition (Int.natCast_nonneg block.start.toNat)
    obtain ⟨stop, hstop⟩ := hposition (a := block.start.toNat + block.count.toNat) (by omega)
    obtain ⟨place, hplace⟩ := hposition (Int.natCast_nonneg handler.address.toNat)
    exact ⟨⟨start, stop, handler.type?, place⟩, TryEntry.mapM_eq_ok_iff.2
      ⟨rfl, .cons hstart (.cons hstop (.cons hplace .nil))⟩⟩
  obtain ⟨items, hitems⟩ : ∃ items : List (Nat × DebugItem), List.Forall₂ (fun e e' =>
      m.coverage.position e.1.toInt64.toInt = .ok e'.1 ∧ e'.2 = e.2) m.debugItems items := by
    have hitem : ∀ e ∈ m.debugItems, ∃ e' : Nat × DebugItem,
        (do return (← m.coverage.position e.1.toInt64.toInt, e.2)) = Except.ok e' := by
      intro e he
      rw [toInt_toInt64 (hsmall.items e he)]
      obtain ⟨k, hk⟩ := hposition (Int.natCast_nonneg e.1.toNat)
      exact ⟨(k, e.2), bind_eq_ok_iff.2 ⟨k, hk, rfl⟩⟩
    obtain ⟨items, hitems⟩ := exists_mapM_eq_ok hitem
    refine ⟨items, (mapM_eq_ok_iff.1 hitems).imp fun e e' he => ?_⟩
    obtain ⟨k, hk, heq⟩ := bind_eq_ok_iff.1 he
    obtain rfl := pure_eq_ok_iff.1 heq
    exact ⟨hk, rfl⟩
  rw [mapM_eq_ok_iff] at hplaces hentries
  refine ⟨⟨m.registers, places, entries, items⟩, outline_eq_ok_iff.2
    ⟨fun e he hno => ?_, hplaces, fun j hj => ?_, hentries, hitems, rfl⟩⟩
  · obtain ⟨k, hi, heq⟩ := (mem_entries_iff hcode (a := e.1) (i := e.2)).1 he
    rw [← heq]
    exact Instruction.exists_mapTargetsM_eq_ok fun offset hoffset =>
      hposition (h.branches k e.2 hi hno offset hoffset)
  · obtain ⟨k, hk⟩ := List.getElem?_of_mem hj
    obtain ⟨hlength, hspelled⟩ := (forall₂_resolveAt_iff hcode).1 hplaces
    have hlt : k < m.instructions.length := hlength ▸ (List.getElem?_eq_some_iff.1 hk).1
    have hi := List.getElem?_eq_getElem hlt
    rw [← Instruction.valid_shape_iff, (hspelled k _ j hi hk).1, Instruction.valid_shape_iff]
    exact h.valid _ (List.mem_of_getElem? hi)

/-- A method has an outline if it can be imported. -/
theorem exists_outline_iff : (∃ o, m.outline = .ok o) ↔ m.Importable :=
  ⟨fun ⟨_, h⟩ => importable_of_outline hcode hsmall h, fun h => h.exists_outline hcode hsmall⟩

end

/-! ### Why there is no outline -/

/-- What the error says is the case: an address is negative, or an instruction is invalid. -/
inductive Refuses (m : Method) : Error → Prop
  | negative {a : Int} (ha : a < 0) : Refuses m (.addressOutOfBounds a m.units)
  | invalid {i : Instruction Int32} {defect : Defect} (hi : i ∈ m.instructions)
    (hdefect : i.defect? = some defect) : Refuses m (.invalidInstruction i.opcode defect)

/-- Looking up an address fails if it is negative. -/
theorem failsWith_position (a : Int) : FailsWith m.Refuses (m.coverage.position a) := by
  intro e he
  unfold Coverage.position at he
  split at he
  · next ha =>
    cases he
    rw [coverage, Coverage.size_positions, ← units_eq hcode]
    exact .negative ha
  · cases he

theorem failsWith_resolveAt (k : Nat) (i : Instruction Int32) : FailsWith m.Refuses
    (m.resolveAt m.coverage (m.switchTargets m.coverage) (Code.address m.instructions k) k i) := by
  obtain ⟨count, -, hresolve⟩ := exists_count hcode k i
  rw [hresolve]
  exact failsWith_mapTargetsM (fun offset => failsWith_position hcode (count offset)) i

theorem failsWith_mapM_position (entry : TryEntry Int) :
    FailsWith m.Refuses (entry.mapM m.coverage.position) :=
  ((failsWithRelation m.Refuses).rel_tryEntry
    (fun a => ⟨rfl, failsWith_position hcode a⟩) entry).2

/-- There is a reason if a method has no outline. -/
theorem failsWith_outline : FailsWith m.Refuses m.outline := by
  intro e herror
  unfold outline at herror
  rcases bind_eq_error_iff.1 herror with hbranches | ⟨-, -, herror⟩
  · obtain ⟨⟨a, i⟩, -, hdiscard⟩ := exists_of_forM_eq_error hbranches
    have hresolve : m.coverage.resolveFrom a i = .error e := by
      dsimp only at hdiscard
      change discard (m.coverage.resolveFrom a i) = .error e at hdiscard
      cases hok : m.coverage.resolveFrom a i with
      | ok j =>
        rw [hok] at hdiscard
        cases hdiscard
      | error e' =>
        rw [hok] at hdiscard
        cases hdiscard
        rfl
    exact failsWith_mapTargetsM (fun _ => failsWith_position hcode _) i e hresolve
  rcases bind_eq_error_iff.1 herror with hinstructions | ⟨places, hplaces, herror⟩
  · obtain ⟨k, entry, hk, hresolve, -⟩ := mapM_eq_error_iff.1 hinstructions
    rw [hcode, Layout.toList_ofList, List.getElem?_map] at hk
    obtain ⟨p, -, rfl⟩ := Option.map_eq_some_iff.1 hk
    exact failsWith_resolveAt hcode p.2 p.1 e hresolve
  rcases bind_eq_error_iff.1 herror with hinvalid | ⟨-, -, herror⟩
  · obtain ⟨j, hj, hvalidate⟩ := exists_of_forM_eq_error hinvalid
    obtain ⟨k, hk⟩ := List.getElem?_of_mem hj
    obtain ⟨hlength, hspelled⟩ := (forall₂_resolveAt_iff hcode).1 (mapM_eq_ok_iff.1 hplaces)
    have hlt : k < m.instructions.length := hlength ▸ (List.getElem?_eq_some_iff.1 hk).1
    have hi := List.getElem?_eq_getElem hlt
    have hshape := (hspelled k _ j hi hk).1
    unfold Instruction.validate at hvalidate
    rw [← Instruction.defect?_shape, ← Instruction.opcode_shape, hshape, Instruction.defect?_shape,
      Instruction.opcode_shape] at hvalidate
    split at hvalidate
    · cases hvalidate
    · next defect hdefect =>
      cases hvalidate
      exact .invalid (List.mem_of_getElem? hi) hdefect
  rcases bind_eq_error_iff.1 herror with htries | ⟨tries, -, herror⟩
  · exact failsWith_mapM (failsWith_mapM_position hcode) _ e htries
  rcases bind_eq_error_iff.1 herror with hitems | ⟨items, -, herror⟩
  · refine failsWith_mapM (fun e => ?_) _ e hitems
    exact (failsWith_position hcode _).bind fun _ => failsWith_pure _
  · cases herror

end Method

end Dalvik
