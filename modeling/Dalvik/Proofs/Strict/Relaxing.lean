import Dalvik.Proofs.Strict.Editing
import Dalvik.Proofs.Store.Dirty

/-!
# Strict relaxation

Relaxation with strict lookups is faithful to relaxation (`Store.Refines.faithful_relax`).  While labels
are checked and switches bound, the store is consistent and no cell comes or goes.  Running over `nop`s
stops at the end at the latest.  While the cells are swept, they follow a listing, and a repair takes
place only at a position that the listing has.
-/

namespace Dalvik

/-! ### Actions that only look something up -/

section Reads

variable {σ α β γ : Type} {s : σ}

/-- A strict action does not get stuck, leaves the state alone and comes to the outcome of a check. -/
def Reads (x : StrictM σ α) (y : Except Error α) (s : σ) : Prop := x.run.run s = some (y, s)

theorem reads_pure (a : α) (s : σ) : Reads (pure a : StrictM σ α) (.ok a) s := rfl

theorem reads_throw (e : Error) (s : σ) : Reads (throw e : StrictM σ α) (.error e) s := rfl

theorem Reads.bind {x : StrictM σ α} {y : Except Error α} {f : α → StrictM σ β}
    {g : α → Except Error β} (h : Reads x y s) (hrest : ∀ a, y = .ok a → Reads (f a) (g a) s) :
    Reads (x >>= f) (y >>= g) s := by
  cases y with
  | ok a => exact (run_strict_bind_of_ok f h).trans (hrest a rfl)
  | error e => exact run_strict_bind_of_error f h

theorem reads_look_bind {found? : Option α} {a : α} {f : α → StrictM σ β} {y : Except Error β}
    (hfound : found? = some a) (h : Reads (f a) y s) : Reads (StrictM.look found? >>= f) y s := by
  subst hfound
  exact h

theorem reads_get_bind {f : σ → StrictM σ α} {y : Except Error α} (h : Reads (f s) y s) :
    Reads (get >>= f) y s := h

theorem Reads.discard {x : StrictM σ α} {y : Except Error α} (h : Reads x y s) :
    Reads (discard x : StrictM σ PUnit) (discard y) s := by
  cases y with
  | ok a => exact run_strict_bind_of_ok (fun _ => pure PUnit.unit) h
  | error e => exact run_strict_bind_of_error (fun _ => pure PUnit.unit) h

theorem reads_forM {f : α → StrictM σ PUnit} {g : α → Except Error PUnit} (xs : List α)
    (h : ∀ x ∈ xs, Reads (f x) (g x) s) : Reads (xs.forM f) (xs.forM g) s := by
  induction xs with
  | nil => exact reads_pure _ s
  | cons x rest ih =>
    obtain ⟨hx, hrest⟩ := List.forall_mem_cons.1 h
    exact hx.bind fun _ _ => ih hrest

end Reads

namespace Store

variable {s s' : Store} {d : Draft} {b : Bound} {l : Listing} {k : Nat}

namespace Strict

open StrictM

/-- The instructions in order. -/
def instructions (s : Store) : Option (List (Instruction Label)) :=
  return (← cells s).filterMap (·.instruction?)

/-- The cell at which a label stands. -/
def cellOf (s : Store) (label : Label) : Option (Except Error Cell) :=
  if label.draft = s.id then
    match s.places[label.number]? with
    | none => some (.error (.unknownLabel label))
    | some none => some (.error (.unplacedLabel label))
    | some (some h) => (s.arena.get? h).map .ok
  else some (.error (.unknownLabel label))

/-- Goes on with the cell at which a label stands. -/
def find (label : Label) : StrictM Store Cell := do check (← look (cellOf (← get) label))

/-! ### Binding switches to their tables -/

/-- Makes sure that every label in use has been placed. -/
def checkPlaced : StrictM Store Unit := do
  let s ← get
  (← look (instructions s)).forM fun i => i.targets.forM fun label => discard (find label)
  s.tries.toList.forM fun entry => entry.places.forM fun label => discard (find label)

/-- The first position from `index` on that holds no plain `nop`, `left` being a number of cells that is
not less than those from there on. -/
def skipNops (s : Store) : (left index : Nat) → Option Nat
  | 0, _ => none
  | left + 1, index => do
    if (← cell s index).instruction?.any Instruction.isNop then skipNops s left (index + 1)
    else some index

/-- Finds the position of the table of the switch at `switch`, whose label is `label`. -/
def findTable (switch : Nat) (opcode : Opcode) (label : Label) : StrictM Store Nat := do
  let s ← get
  let target := (← find label).index
  if target = (← look (size s)) then throw (.switchTargetsEnd switch)
  let table ← look (skipNops s s.order.size target)
  match (← look (cell s table)).instruction? with
  | some (.data payload) =>
    if payload.opcode = opcode.table then return table
    else throw (.mismatchedPayload switch opcode.table payload.opcode)
  | _ => throw (.switchWithoutPayload switch)

/-- The switch that refers to the table at a position. -/
def switchOf? (s : Store) (table : Nat) : Option (Option Handle) :=
  return s.referrals.switchOf? (← s.order[table]?)

/-- Notes that the switch at a position refers to the table at another. -/
def refer (s : Store) (table switch : Nat) : Option Store := do
  let t ← s.order[table]?
  let h ← s.order[switch]?
  return { s with referrals := s.referrals.insert t h }

/-- Binds the switch at a position to its table, if there is a switch. -/
def bindSwitch (index : Nat) : StrictM Store Unit := do
  let s ← get
  match (← look (cell s index)).instruction? with
  | none => return
  | some i =>
    match i.switchTarget? with
    | none => return
    | some label =>
      let table ← findTable index i.opcode label
      modifyPoints (refer · table index)
      if (← look (switchOf? s table)).isSome then throw (.ambiguousPayload table)

/-- Binds all switches to their tables. -/
def bindTables : StrictM Store Unit := do
  modify fun s => { s with referrals := [] }
  (List.range (← look (size (← get)))).forM bindSwitch

/-! ### Sweeping -/

/-- What the cell at a position needs. -/
def repairAt (index : Nat) : StrictM Store Repair := do
  let s ← get
  let cell ← look (cell s index)
  match cell.instruction? with
  | some (.op _ (.jump reach target)) =>
    let wider := reach.widen (((← find target).address : Int) - cell.address)
    return if wider = reach then .keep else .widen wider target
  | some (.data payload) =>
    let switch? ← look (switchOf? s index)
    if payload.isSwitchTable && switch?.isNone then return .drop
    if cell.address % 2 = 0 then return .keep
    match index with
    | 0 => return .openGap
    | before + 1 =>
      let front ← look (Strict.cell s before)
      return if front.instruction?.any Instruction.isNop then .closeGap else .openGap
  | _ => return .keep

/-- Carries out a repair at a position.  Gives the position from which to go on. -/
def repair (s : Store) (index : Nat) : Repair → Option (Nat × Store)
  | .keep => some (index + 1, s)
  | .widen reach target => return (index + 1, (← setInstruction s index (.goto reach target)).2)
  | .drop => return (index, (← removeCell s index).2)
  | .closeGap =>
    match index with
    | 0 => none
    | before + 1 => return (before + 1, (← removeCell s before).2)
  | .openGap => return (index + 2, ← insertCell s index .nop)

/-- Sweeps the last `left` instructions, which start at position `index`. -/
def sweepFrom : (left index : Nat) → StrictM Store Bool
  | 0, _ => return false
  | left + 1, index => do
    match ← repairAt index with
    | .keep => sweepFrom left (index + 1)
    | action =>
      let next ← change (repair · index action)
      discard (sweepFrom left next)
      return true

/-- One sweep over all instructions. -/
def sweep : StrictM Store Bool := do sweepFrom (← look (size (← get))) 0

/-- Sweeps until nothing is left to repair, but no more than `limit` times. -/
def settleWithin : (limit : Nat) → StrictM Store Unit
  | 0 => return
  | limit + 1 => do
    if ← sweep then settleWithin limit

/-- Sweeps until nothing is left to repair. -/
def settle : StrictM Store Unit := do
  let s ← get
  settleWithin (2 + 2 * s.countJumps .byte + s.countJumps .word)

/-- Relaxes the store, unless it is relaxed already. -/
def relax : StrictM Store Unit := do
  if (← get).dirty then
    checkPlaced
    bindTables
    settle
    modify fun s => { s with dirty := false }

end Strict

/-- An action that only looks something up is faithful to a check. -/
theorem Faithful.of_reads {α : Type} {x : StrictM Store α} {y : Except Error α} (h : Reads x y s) :
    Faithful x (require y) s := by
  cases y with
  | ok a => exact h
  | error e => exact h

/-! ### Looking up labels -/

namespace Consistent

variable (h : s.Consistent)

include h

theorem strict_instructions : Strict.instructions s = some s.instructions := by
  rw [Strict.instructions, h.exact.strict_cells]
  rfl

theorem strict_cellOf (label : Label) : Strict.cellOf s label = some (s.cellOf label) := by
  rw [Strict.cellOf, Store.cellOf]
  split
  · cases hplace : s.places[label.number]? with
    | none => rfl
    | some place? =>
      cases place? with
      | none => rfl
      | some g =>
        have hlive := (h.live g).2 (h.placed label.number g hplace).1
        dsimp only
        rw [hlive.get?_eq]
        rfl
  · rfl

/-- Any label may be looked up, be it one of the store or not. -/
theorem reads_find (label : Label) : Reads (Strict.find label) (s.cellOf label) s :=
  reads_get_bind (reads_look_bind (h.strict_cellOf label) rfl)

theorem reads_checkPlaced : Reads Strict.checkPlaced s.checkPlaced s := by
  refine reads_get_bind (reads_look_bind h.strict_instructions (Reads.bind ?_ fun _ _ => ?_))
  · exact reads_forM _ fun i _ => reads_forM _ fun label _ => (h.reads_find label).discard
  · exact reads_forM _ fun entry _ => reads_forM _ fun label _ => (h.reads_find label).discard

end Consistent

/-! ### Binding switches to their tables -/

/-- Running over `nop`s stops at the end at the latest. -/
theorem Tracks.strict_skipNops (h : s.Tracks l) (left : Nat) {index : Nat} (hindex : index ≤ l.size)
    (hleft : l.size < index + left) :
    Strict.skipNops s left index = some (Listing.skipNops index (l.instructions.drop index)) ∧
      Listing.skipNops index (l.instructions.drop index) ≤ l.size := by
  induction left generalizing index with
  | zero => omega
  | succ left ih =>
    have hcell : Strict.cell s index = some (l.cell index) :=
      (h.exact.strict_cell index).trans (h.cell?_eq hindex)
    have hinstruction : (l.cell index).instruction? = l.instructions[index]? :=
      (l.getElem?_instructions index).symm
    rw [Strict.skipNops]
    simp only [hcell, hinstruction, Option.bind_eq_bind, Option.bind_some]
    cases hi : l.instructions[index]? with
    | none =>
      rw [List.drop_eq_nil_of_le (List.getElem?_eq_none_iff.1 hi)]
      exact ⟨rfl, hindex⟩
    | some i =>
      obtain ⟨hlt, rfl⟩ := List.getElem?_eq_some_iff.1 hi
      rw [List.drop_eq_getElem_cons hlt, Listing.skipNops, Option.any_some]
      rw [Listing.length_instructions] at hlt
      split
      · exact ih hlt (by omega)
      · exact ⟨rfl, hindex⟩

namespace Refines

variable (h : s.Refines d)

include h

theorem reads_findTable (switch : Nat) (opcode : Opcode) (label : Label) :
    Reads (Strict.findTable switch opcode label) (s.findTable switch opcode label) s := by
  have hconsistent := h.consistent
  refine reads_get_bind ((hconsistent.reads_find label).bind fun c hc => ?_)
  have hindex : c.index ≤ d.listing.size := by
    rw [h.cellOf_eq] at hc
    cases hk : d.locate label with
    | error e =>
      rw [hk] at hc
      cases hc
    | ok k =>
      rw [hk] at hc
      obtain rfl := Except.ok.inj hc
      obtain ⟨hdraft, hplace⟩ := Draft.locate_eq_ok_iff.1 hk
      exact h.coherent.locate?_le_size hdraft hplace
  refine reads_look_bind (Strict.size_eq hconsistent.size_pos) ?_
  by_cases hend : c.index = s.size
  · rw [if_pos hend, if_pos hend]
    exact reads_throw _ s
  · rw [if_neg hend, if_neg hend]
    obtain ⟨hskip, hle⟩ := h.tracks.strict_skipNops s.order.size hindex (by
      rw [h.tracks.size_order]
      omega)
    rw [← h.tracks.instructions_eq] at hskip hle
    refine reads_look_bind hskip ?_
    have hcell := (h.tracks.exact.strict_cell _).trans (h.tracks.cell?_eq hle)
    refine reads_look_bind hcell ?_
    dsimp only
    rw [h.tracks.instruction?_eq]
    change Reads (match d.listing.instruction? _ with
      | some (.data payload) => _
      | _ => _) _ s
    cases d.listing.instruction?
        (Listing.skipNops c.index (s.instructions.drop c.index)) with
    | none => exact reads_throw _ s
    | some i =>
      cases i with
      | op o args => exact reads_throw _ s
      | data p =>
        dsimp only
        split
        · exact reads_pure _ s
        · exact reads_throw _ s

/-- Binding one switch. -/
theorem faithful_bindSwitch (hk : k < d.listing.size) :
    Faithful (Strict.bindSwitch k) (bindSwitch k) s := by
  have hcell := (h.tracks.exact.strict_cell k).trans (h.tracks.cell?_eq (Nat.le_of_lt hk))
  obtain ⟨g, hg⟩ := h.exists_handle (Nat.le_of_lt hk)
  rw [Strict.bindSwitch, Store.bindSwitch]
  refine faithful_get_bind (faithful_look_bind hcell ?_)
  rw [h.tracks.instruction?_eq]
  change Faithful (match d.listing.instruction? k with
    | none => _
    | some i => _) _ s
  cases d.listing.instruction? k with
  | none => exact faithful_pure _ s
  | some i =>
    dsimp only
    cases i.switchTarget? with
    | none => exact faithful_pure _ s
    | some label =>
      dsimp only
      refine (Faithful.of_reads (h.reads_findTable k i.opcode label)).bind fun table s' hok => ?_
      obtain ⟨hfind, rfl⟩ := require_eq_ok_iff.1 hok
      obtain ⟨t, ht⟩ := h.exists_handle (Nat.le_of_lt (h.lt_size_of_findTable hfind))
      have hrefer : Strict.refer s' table k = some (s'.refer table k) := by
        rw [Strict.refer, Store.refer, ht, hg]
        rfl
      refine (faithful_modifyPoints hrefer).bind fun _ s'' hok => ?_
      obtain rfl : s'.refer table k = s'' := by cases hok; rfl
      have hswitch : Strict.switchOf? s' table = some (s'.switchOf? table) := by
        rw [Strict.switchOf?, Store.switchOf?, ht]
        rfl
      refine faithful_look_bind hswitch ?_
      split
      · exact faithful_throw _ _
      · exact faithful_pure _ _

end Refines

/-- Binding the switches from a position on. -/
theorem Refines.faithful_forM (howners? : d.owners? = none) (rest : List (Instruction Label)) {n : Nat}
    (hrest : d.listing.instructions.drop n = rest) {s : Store} (h : s.Refines d) {owners : Owners}
    (howners : List.Forall₂ (Referral.Of s.order) s.referrals owners) :
    Faithful ((List.range' n rest.length).forM Strict.bindSwitch)
      ((List.range' n rest.length).forM bindSwitch) s := by
  induction rest generalizing n s owners with
  | nil => exact faithful_pure _ s
  | cons i rest ih =>
    have hi : d.listing.instructions[n]? = some i := by
      rw [← List.head?_drop, hrest, List.head?_cons]
    have hdrop : d.listing.instructions.drop (n + 1) = rest := by
      rw [← List.tail_drop, hrest, List.tail_cons]
    have hn : n < d.listing.size := by simpa using (List.getElem?_eq_some_iff.1 hi).1
    have hbinding := h.binding_bindSwitch howners? howners hi
    rw [List.length_cons, List.range'_succ]
    refine (h.faithful_bindSwitch hn).bind fun _ s' hok => ?_
    rw [hok] at hbinding
    generalize d.listing.bindStep d.locate owners (i, n) = found at hbinding
    cases hbinding with
    | ok h' howners' => exact ih hdrop h' howners'

/-- Binding all switches. -/
theorem Refines.faithful_bindTables (h : s.Refines d) (howners? : d.owners? = none) :
    Faithful Strict.bindTables bindTables s := by
  -- the cells are looked up while there are no referrals yet, which the invariant does not mind
  have hstart : Refines { s with referrals := [] } d :=
    h.withReferrals howners? fun r hr => absurd hr List.not_mem_nil
  have hsize : s.size = d.listing.instructions.length := by
    rw [Listing.length_instructions]
    exact h.tracks_size
  have hrange := hstart.faithful_forM howners? d.listing.instructions (n := 0) rfl .nil
  rw [← hsize, ← List.range_eq_range'] at hrange
  have hclear : Faithful (modify fun s => { s with referrals := [] } : StrictM Store PUnit)
      (modify fun s => { s with referrals := [] }) s := rfl
  refine hclear.bind fun _ s' hok => ?_
  obtain rfl : { s with referrals := [] } = s' := by cases hok; rfl
  exact faithful_get_bind (faithful_look_bind (Strict.size_eq h.consistent.size_pos) hrange)

/-! ### Sweeping -/

/-- What a cell needs is found out. -/
theorem Consistent.reads_repairAt (h : s.Consistent) (hk : k < s.size) :
    Reads (Strict.repairAt k) (s.repairAt k) s := by
  have horder : k < s.order.size := h.lt_order_of_le_size (Nat.le_of_lt hk)
  have hg := Array.getElem?_eq_getElem horder
  have hcell := cell?_eq_some horder
  generalize s.order[k] = g at hg hcell
  refine reads_get_bind (reads_look_bind ((h.exact.strict_cell k).trans hcell) ?_)
  rw [Store.repairAt, hcell]
  dsimp only
  cases (s.arena.get g).instruction? with
  | none => exact reads_pure _ s
  | some i =>
    cases i with
    | op o args =>
      cases args with
      | jump reach target => exact (h.reads_find target).bind fun _ _ => reads_pure _ s
      | _ => exact reads_pure _ s
    | data p =>
      have hswitch : Strict.switchOf? s k = some (s.switchOf? k) := by
        rw [Strict.switchOf?, Store.switchOf?, hg]
        rfl
      refine reads_look_bind hswitch ?_
      change Reads _ (.ok (if _ then _ else _)) s
      by_cases hdrop : (p.isSwitchTable && (s.switchOf? k).isNone) = true
      · rw [if_pos hdrop, if_pos hdrop]
        exact reads_pure _ s
      · rw [if_neg hdrop, if_neg hdrop]
        by_cases heven : (s.arena.get g).address % 2 = 0
        · rw [if_pos heven, if_pos heven]
          exact reads_pure _ s
        · rw [if_neg heven, if_neg heven]
          cases k with
          | zero => exact reads_pure _ s
          | succ before =>
            have hfront := cell?_eq_some (Nat.lt_of_succ_lt horder)
            refine reads_look_bind ((h.exact.strict_cell before).trans hfront) ?_
            rw [Nat.add_sub_cancel, Store.instruction?, hfront]
            exact reads_pure _ s

/-- A repair is carried out. -/
theorem Consistent.strict_repair (h : s.Consistent) (hsize : s.size = b.listing.size)
    (hk : k < b.listing.size) :
    Strict.repair s k (b.repairAt b.listing.survey k) =
      some (s.repair k (b.repairAt b.listing.survey k)) := by
  have hexact := h.exact
  have horder : k < s.order.size := h.lt_order_of_le_size (by omega)
  have hremove : ∀ {j}, j < b.listing.size → Strict.removeCell s j = some (s.removeCell j) :=
    fun hj => hexact.strict_removeCell (hsize ▸ hj) fun _ => h.number_lt
  have hdiagnosis := b.diagnosis hk
  generalize b.repairAt b.listing.survey k = action at hdiagnosis
  cases hdiagnosis with
  | plain => rfl
  | near => rfl
  | far => rw [Strict.repair, hexact.strict_setInstruction horder]; rfl
  | orphan => rw [Strict.repair, hremove hk]; rfl
  | aligned => rfl
  | @gap p before hbefore => subst hbefore; rw [Strict.repair, hremove (by omega)]; rfl
  | tight =>
    rw [Strict.repair, hexact.strict_insertCell h.size_pos (by omega)]
    rfl

namespace Follows

/-- The rest of the cells are swept, whether relaxation is needed or not. -/
theorem faithful_sweepFrom (left : Nat) {index : Nat} (h : (s.withDirty true).Follows d b)
    (hb : b.Ready d.id) (hsize : b.listing.size = index + left) :
    Faithful (Strict.sweepFrom left index) (sweepFrom left index) s := by
  induction left generalizing s b index with
  | zero => exact faithful_pure false s
  | succ left ih =>
    have hindex : index < b.listing.size := by omega
    have hdiagnosis := b.diagnosis hindex
    have hconsistent : s.Consistent := h.refines.consistent.withDirty s.dirty
    have hstore : s.size = b.listing.size := h.refines.tracks_size
    have hneeds : s.repairAt index = .ok (b.repairAt b.listing.survey index) :=
      h.repairAt_eq hb hindex
    obtain ⟨hnext, hrepair⟩ := h.repair hb hindex
    rw [repair_withDirty] at hnext hrepair
    have hstrict := hconsistent.strict_repair hstore hindex
    have hleft := hdiagnosis.size_repair hsize
    rw [Strict.sweepFrom, sweepFrom]
    refine (Faithful.of_reads (hconsistent.reads_repairAt (by omega))).bind fun action s' hok => ?_
    rw [hneeds] at hok
    obtain ⟨haction, rfl⟩ := require_eq_ok_iff.1 hok
    obtain rfl := Except.ok.inj haction
    -- after a repair the store follows another listing, with as many instructions left to look at
    by_cases hkeep : b.repairAt b.listing.survey index = .keep
    · rw [hkeep]
      exact ih h hb (by omega)
    · have hrest := ih hrepair ((hdiagnosis.mends hkeep).ready hb) hleft
      rw [← hnext] at hrest
      generalize b.repairAt b.listing.survey index = action at hrest hkeep hstrict ⊢
      cases action with
      | keep => exact absurd rfl hkeep
      | _ =>
        refine (faithful_change hstrict).bind fun next s'' hok => ?_
        cases hok
        exact hrest.discard.bind fun _ _ _ => faithful_pure true _

/-- All cells are swept. -/
theorem faithful_sweep (h : (s.withDirty true).Follows d b) (hb : b.Ready d.id) :
    Faithful Strict.sweep sweep s := by
  have hconsistent : s.Consistent := h.refines.consistent.withDirty s.dirty
  refine faithful_get_bind (faithful_look_bind (Strict.size_eq hconsistent.size_pos) ?_)
  have hsize : s.size = b.listing.size := h.refines.tracks_size
  rw [hsize]
  exact h.faithful_sweepFrom _ hb (Nat.zero_add _).symm

/-- The cells are swept again and again. -/
theorem faithful_settleWithin (limit : Nat) (h : s.Follows d b) (hb : b.Sound d.id) :
    Faithful (Strict.settleWithin limit) (settleWithin limit) s := by
  induction limit generalizing s b with
  | zero => exact faithful_pure _ s
  | succ limit ih =>
    obtain ⟨s₁, hs₁, hsweep, -⟩ := h.exists_sweep hb.ready
    rw [Strict.settleWithin, settleWithin]
    refine (h.withDirty.faithful_sweep hb.ready).bind fun changed s' hok => ?_
    cases hs₁.symm.trans hok
    cases b.sweep.2 with
    | true => exact ih hsweep (Bound.sound_of_mends (Bound.mends_sweep hb.ready).1 hb)
    | false => exact faithful_pure _ s₁

theorem faithful_settle (h : s.Follows d b) (hb : b.Sound d.id) :
    Faithful Strict.settle settle s :=
  faithful_get_bind (h.faithful_settleWithin _ hb)

end Follows

/-- Relaxation does not get stuck. -/
theorem Refines.faithful_relax (h : s.Refines d) (hd : d.Sound) :
    Faithful Strict.relax relax s := by
  have hdirty : s.dirty = d.owners?.isNone := h.dirty
  refine faithful_get_bind ?_
  cases howners? : d.owners? with
  | some owners =>
    rw [hdirty, howners?]
    exact faithful_pure _ s
  | none =>
    rw [hdirty, howners?, Option.isNone_none, if_pos rfl, if_pos rfl]
    refine (Faithful.of_reads h.consistent.reads_checkPlaced).bind fun _ s₀ hok => ?_
    obtain ⟨-, rfl⟩ := require_eq_ok_iff.1 hok
    refine (h.faithful_bindTables howners?).bind fun _ s₁ hbind => ?_
    have hbinding := h.binding_bindTables howners?
    rw [hbind] at hbinding
    generalize hfind : d.listing.findOwners d.locate = found at hbinding
    cases hbinding with
    | @ok _ owners h' howners =>
      have hsame : d.withListing d.listing = d := by rw [Draft.withListing, ← howners?]
      have hfollows : s₁.Follows d ⟨d.listing, owners⟩ := ⟨hsame.symm ▸ h', howners⟩
      exact (hfollows.faithful_settle (hd.bound hfind)).bind fun _ _ _ => rfl

end Store

end Dalvik
