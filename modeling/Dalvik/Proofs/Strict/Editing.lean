import Dalvik.Proofs.Store.Consistency
import Dalvik.Proofs.Store.Page
import Dalvik.Proofs.Strict.Cells

/-!
# Strict edits

A strict action is an action that may get stuck (`StrictM`).  It is faithful to an action if it does
not get stuck and comes to the same, in the same state (`Faithful`).  Strict actions do their work with
strict lookups.  In a consistent store every strict edit is faithful to the edit with the same name
(`Store.Consistent.faithful_perform`): what the checks let through exists.
-/

namespace Dalvik

/-- An action that may change a state, may fail and may get stuck. -/
abbrev StrictM (σ : Type) := ExceptT Error (StateT σ Option)

namespace StrictM

variable {σ α : Type}

/-- Goes on with what is found, and gets stuck if nothing is. -/
def look (found? : Option α) : StrictM σ α :=
  .mk fun s => found?.map fun a => (.ok a, s)

/-- Goes on with the outcome of a check. -/
def check (x : Except Error α) : StrictM σ α := .mk fun s => some (x, s)

/-- Changes the state, and gets stuck if that is not possible. -/
def change (f : σ → Option (α × σ)) : StrictM σ α :=
  .mk fun s => (f s).map fun (a, s') => (.ok a, s')

/-- The state in which an action ends, if it does not get stuck. -/
def after (x : StrictM σ α) (s : σ) : Option σ := (x.run.run s).map (·.2)

end StrictM

/-! ### Faithful actions -/

section Faithful

variable {σ α β : Type} {s s' : σ} {a : α} {e : Error}

/-- A strict action does not get stuck, and it comes to the same as an action. -/
def Faithful (x : StrictM σ α) (y : EStateM Error σ α) (s : σ) : Prop :=
  x.run.run s = some (outcome y s, stateAfter y s)

/-- A faithful action ends in the same state. -/
theorem Faithful.after_eq {x : StrictM σ α} {y : EStateM Error σ α} (h : Faithful x y s) :
    x.after s = some (stateAfter y s) := by
  rw [StrictM.after, h]
  rfl

theorem faithful_of_ok {x : StrictM σ α} {y : EStateM Error σ α} (hy : y s = .ok a s')
    (hx : x.run.run s = some (.ok a, s')) : Faithful x y s := by
  rw [Faithful, hx, outcome, stateAfter, hy]

theorem faithful_of_error {x : StrictM σ α} {y : EStateM Error σ α} (hy : y s = .error e s')
    (hx : x.run.run s = some (.error e, s')) : Faithful x y s := by
  rw [Faithful, hx, outcome, stateAfter, hy]

theorem faithful_pure (a : α) (s : σ) :
    Faithful (pure a : StrictM σ α) (pure a : EStateM Error σ α) s := rfl

theorem faithful_throw (e : Error) (s : σ) :
    Faithful (throw e : StrictM σ α) (throw e : EStateM Error σ α) s := rfl

/-- What succeeds goes on with what comes next. -/
theorem run_strict_bind_of_ok {x : StrictM σ α} (f : α → StrictM σ β)
    (hx : x.run.run s = some (.ok a, s')) : (x >>= f).run.run s = (f a).run.run s' := by
  change (x.run.run s).bind _ = _
  rw [hx]
  rfl

/-- After an action that fails nothing else is done. -/
theorem run_strict_bind_of_error {x : StrictM σ α} (f : α → StrictM σ β)
    (hx : x.run.run s = some (.error e, s')) : (x >>= f).run.run s = some (.error e, s') := by
  change (x.run.run s).bind _ = _
  rw [hx]
  rfl

/-- Actions in a row are faithful if each of them is. -/
theorem Faithful.bind {x : StrictM σ α} {y : EStateM Error σ α} {f : α → StrictM σ β}
    {g : α → EStateM Error σ β} (h : Faithful x y s)
    (hrest : ∀ a s', y s = .ok a s' → Faithful (f a) (g a) s') :
    Faithful (x >>= f) (y >>= g) s := by
  rw [Faithful, outcome, stateAfter] at h
  cases hy : y s with
  | ok a s' =>
    rw [hy] at h
    rw [Faithful, run_strict_bind_of_ok f h, outcome, stateAfter, run_bind_of_ok hy]
    exact hrest a s' hy
  | error e s' =>
    rw [hy] at h
    exact faithful_of_error (run_bind_of_error hy g) (run_strict_bind_of_error f h)

theorem Faithful.discard {x : StrictM σ α} {y : EStateM Error σ α} (h : Faithful x y s) :
    Faithful (discard x : StrictM σ PUnit) (discard y) s :=
  h.bind fun _ s' _ => faithful_pure PUnit.unit s'

theorem faithful_get_bind {f : σ → StrictM σ α} {g : σ → EStateM Error σ α}
    (h : Faithful (f s) (g s) s) : Faithful (get >>= f) (get >>= g) s := h

/-- The state may be known already. -/
theorem Faithful.get_bind {x : StrictM σ β} {g : σ → EStateM Error σ β} (h : Faithful x (g s) s) :
    Faithful x (get >>= g) s := h

theorem faithful_look {found? : Option α} (hfound : found? = some a) :
    Faithful (StrictM.look found?) (pure a : EStateM Error σ α) s := by
  subst hfound
  rfl

/-- Looking something up that is there. -/
theorem faithful_look_bind {found? : Option α} {f : α → StrictM σ β} {y : EStateM Error σ β}
    (hfound : found? = some a) (h : Faithful (f a) y s) :
    Faithful (StrictM.look found? >>= f) y s := by
  subst hfound
  exact h

/-- A change of the state that is possible. -/
theorem faithful_change {f : σ → Option (α × σ)} {g : σ → α × σ} (h : f s = some (g s)) :
    Faithful (StrictM.change f) (modifyGet g : EStateM Error σ α) s := by
  have hmodify : (modifyGet g : EStateM Error σ α) s = .ok (g s).1 (g s).2 := rfl
  refine faithful_of_ok hmodify ?_
  change (f s).map _ = _
  rw [h]
  rfl

theorem faithful_modify {f : σ → Option (Unit × σ)} {g : σ → σ} (h : f s = some ((), g s)) :
    Faithful (StrictM.change f) (modify g : EStateM Error σ PUnit) s :=
  faithful_change (g := fun s => ((), g s)) h

end Faithful

namespace Store

namespace Strict

open StrictM

/-- Size in code units, which is the address of the end. -/
def units (s : Store) : Option Nat := return (← cell s (← size s)).address

/-- The position whose cell covers an address.  It is the one in front of where the cells behind the
address start. -/
def covering (s : Store) (address : Nat) : Option Nat := do
  let cells ← cells s
  match bisect (fun index => cells[index]?.any (·.address ≤ address)) 0 s.order.size with
  | 0 => none
  | before + 1 => some before

/-- Refuses positions past the last instruction, or past the end if that is allowed. -/
def checkIndex (index : Nat) (atEnd : Bool) : StrictM Store Unit := do
  let size ← look (size (← get))
  check (if index < size || atEnd && index == size then .ok ()
    else .error (.indexOutOfBounds index size))

/-- Changes the instructions of a store. -/
def modifyCode (f : Store → Option Store) : StrictM Store Unit :=
  change fun s => do return ((), { ← f s with dirty := true })

/-- Changes what is attached to the instructions of a store. -/
def modifyPoints (f : Store → Option Store) : StrictM Store Unit :=
  change fun s => do return ((), ← f s)

/-- Changes the instructions of a store by an edit that gives back an instruction. -/
def exchange (index : Nat) (f : Store → Option (Option (Instruction Label) × Store)) :
    StrictM Store (Instruction Label) := do
  let size ← look (size (← get))
  match ← change f with
  | none => throw (.indexOutOfBounds index size)
  | some old =>
    modifyCode some
    return old

/-- Adds an instruction at the end. -/
def append (i : Instruction Label) : StrictM Store Unit := do
  check ((← get).checkInstruction i)
  modifyCode (appendCell · i)

/-- Adds an instruction in front of a position, or at the end. -/
def insert (index : Nat) (i : Instruction Label) : StrictM Store Unit := do
  checkIndex index true
  check ((← get).checkInstruction i)
  modifyCode (insertCell · index i)

/-- Exchanges the instruction at a position for another. -/
def replace (index : Nat) (i : Instruction Label) : StrictM Store (Instruction Label) := do
  checkIndex index false
  check ((← get).checkInstruction i)
  exchange index (setInstruction · index i)

/-- Removes the instruction at a position. -/
def remove (index : Nat) : StrictM Store (Instruction Label) := do
  checkIndex index false
  exchange index (removeCell · index)

/-- Exchanges two instructions. -/
def swap (index₁ index₂ : Nat) : StrictM Store Unit := do
  checkIndex index₁ false
  checkIndex index₂ false
  if index₁ ≠ index₂ then
    modifyCode (swapCells · index₁ index₂)

/-- Issues a label for the instruction at a position, or for the end. -/
def labelAt (index : Nat) : StrictM Store Label := do
  checkIndex index true
  change (issueLabelAt · index)

/-- Issues a label for the instruction that covers an address, or for the end. -/
def labelAtAddress (address : UInt64) : StrictM Store Label := do
  let s ← get
  let units ← look (units s)
  if units < address.toNat then
    throw (.addressOutOfBounds address.toInt64.toInt units)
  else
    let index ← look (covering s address.toNat)
    change (issueLabelAt · index)

/-- Adds an exception handler.  Nothing is looked up but the size of the table of labels. -/
def addTry (entry : TryEntry Label) : StrictM Store Unit := do
  check (entry.places.forM (← get).checkLabel)
  modify fun s => { s with tries := s.tries.push entry }

/-- Pins a debug item to a position. -/
def addDebugItem (index : Nat) (item : DebugItem) : StrictM Store Unit := do
  checkIndex index true
  modifyPoints (pinItem · index item)

/-- Detaches the debug items from a position. -/
def removeDebugItems (index : Nat) : StrictM Store (List DebugItem) := do
  checkIndex index true
  change (takeItems · index)

/-- Keeps the debug items that satisfy a predicate, throughout the method. -/
def retainDebugItems (keep : DebugItem → Bool) : StrictM Store Unit :=
  modifyPoints (retainItems · keep)

/-- Carries out an edit. -/
def perform : Page.Edit → StrictM Store Page.Answer
  | .append i => do
    append i
    return .done
  | .insert index i => do
    insert index i
    return .done
  | .replace index i => return .instruction (← replace index i)
  | .remove index => return .instruction (← remove index)
  | .swap index₁ index₂ => do
    swap index₁ index₂
    return .done
  | .labelAt index => return .label (← labelAt index)
  | .labelAtAddress address => return .label (← labelAtAddress address)
  | .addTry entry => do
    addTry entry
    return .done
  | .addDebugItem index item => do
    addDebugItem index item
    return .done
  | .removeDebugItems index => return .items (← removeDebugItems index)
  | .retainDebugItems keep => do
    retainDebugItems keep
    return .done

end Strict

/-! ### Checks -/

variable {s : Store} {k : Nat} {α β : Type}

theorem faithful_check (x : Except Error α) (s : Store) :
    Faithful (StrictM.check x) (require x) s := by
  cases x with
  | ok a => rfl
  | error e => rfl

/-- A check that looks nothing up. -/
theorem faithful_check_bind {x : Except Error α} {f : α → StrictM Store β} {g : α → StoreM β}
    (h : ∀ a, x = .ok a → Faithful (f a) (g a) s) :
    Faithful (StrictM.check x >>= f) (require x >>= g) s := by
  refine (faithful_check x s).bind fun a s' hok => ?_
  obtain ⟨hx, rfl⟩ := require_eq_ok_iff.1 hok
  exact h a hx

theorem faithful_modifyCode {f : Store → Option Store} {g : Store → Store} (hf : f s = some (g s)) :
    Faithful (Strict.modifyCode f) (modifyCode g) s :=
  faithful_modify (g := fun s => { g s with dirty := true }) (by rw [hf]; rfl)

theorem faithful_modifyPoints {f : Store → Option Store} {g : Store → Store}
    (hf : f s = some (g s)) : Faithful (Strict.modifyPoints f) (modify g) s :=
  faithful_modify (by rw [hf]; rfl)

/-- Nothing is looked up when a handler is added. -/
theorem faithful_addTry (entry : TryEntry Label) :
    Faithful (Strict.addTry entry) (addTry entry) s := by
  rw [Strict.addTry, Store.addTry]
  exact faithful_get_bind (faithful_check_bind fun _ _ => rfl)

namespace Consistent

variable (h : s.Consistent)

include h

theorem exact : s.Exact := ⟨h.nodup, h.live⟩

theorem size_pos : 0 < s.order.size := Nat.pos_of_ne_zero fun hsize =>
  h.nonempty (Array.eq_empty_of_size_eq_zero hsize)

theorem lt_order_of_le_size (hk : k ≤ s.size) : k < s.order.size := by
  have hpos := h.size_pos
  rw [size] at hk
  omega

/-- The labels at a position have entries in the table. -/
theorem number_lt {c : Cell} (hc : s.cell? k = some c) :
    ∀ label ∈ c.point.labels.toList, label.number < s.places.size := by
  intro label hlabel
  obtain ⟨g, hg, rfl⟩ := Option.map_eq_some_iff.1 hc
  have hmem : g ∈ s.order.toList := Array.mem_toList_iff.2 (Array.mem_of_getElem? hg)
  exact (Array.getElem?_eq_some_iff.1 (h.attached g hmem label hlabel).2).1

theorem faithful_checkIndex (k : Nat) (atEnd : Bool) :
    Faithful (Strict.checkIndex k atEnd) (require (s.checkIndex k atEnd)) s :=
  faithful_look_bind (Strict.size_eq h.size_pos) (faithful_check _ s)

/-- After the check of a position it is known to exist. -/
theorem faithful_checkIndex_bind (atEnd : Bool) {f : Unit → StrictM Store α} {g : Unit → StoreM α}
    (hrest : s.checkIndex k atEnd = .ok () → Faithful (f ()) (g ()) s) :
    Faithful (Strict.checkIndex k atEnd >>= f) (require (s.checkIndex k atEnd) >>= g) s := by
  refine (h.faithful_checkIndex k atEnd).bind fun _ s' hok => ?_
  obtain ⟨hcheck, rfl⟩ := require_eq_ok_iff.1 hok
  exact hrest hcheck

/-! ### Edits -/

theorem faithful_exchange {f : Store → Option (Option (Instruction Label) × Store)}
    {g : Store → Option (Instruction Label) × Store} (hf : f s = some (g s)) :
    Faithful (Strict.exchange k f) (exchange k g) s := by
  rw [Strict.exchange, Store.exchange]
  refine faithful_get_bind (faithful_look_bind (Strict.size_eq h.size_pos)
    ((faithful_change hf).bind fun old? s' _ => ?_))
  cases old? with
  | none => exact faithful_throw _ s'
  | some old =>
    have hsame : Faithful (Strict.modifyCode some) (modifyCode fun s => s) s' :=
      faithful_modifyCode rfl
    exact hsame.bind fun _ s'' _ => faithful_pure old s''

theorem faithful_append (i : Instruction Label) : Faithful (Strict.append i) (append i) s :=
  faithful_check_bind fun _ _ => faithful_modifyCode (h.exact.strict_appendCell h.size_pos i)

theorem faithful_insert (k : Nat) (i : Instruction Label) :
    Faithful (Strict.insert k i) (insert k i) s :=
  h.faithful_checkIndex_bind true fun hk => faithful_check_bind fun _ _ => faithful_modifyCode
    (h.exact.strict_insertCell h.size_pos (checkIndex_atEnd_eq_ok_iff.1 hk) i)

theorem faithful_replace (k : Nat) (i : Instruction Label) :
    Faithful (Strict.replace k i) (replace k i) s :=
  h.faithful_checkIndex_bind false fun hk => faithful_check_bind fun _ _ => h.faithful_exchange
    (h.exact.strict_setInstruction (h.lt_order_of_le_size (Nat.le_of_lt (checkIndex_eq_ok_iff.1 hk))) i)

theorem faithful_remove (k : Nat) : Faithful (Strict.remove k) (remove k) s :=
  h.faithful_checkIndex_bind false fun hk => h.faithful_exchange
    (h.exact.strict_removeCell (checkIndex_eq_ok_iff.1 hk) fun _ => h.number_lt)

theorem faithful_swap (k₁ k₂ : Nat) : Faithful (Strict.swap k₁ k₂) (swap k₁ k₂) s := by
  refine h.faithful_checkIndex_bind false fun hk₁ => h.faithful_checkIndex_bind false fun hk₂ => ?_
  by_cases hne : k₁ ≠ k₂
  · rw [if_pos hne, if_pos hne]
    exact faithful_modifyCode (h.exact.strict_swapCells
      (h.lt_order_of_le_size (Nat.le_of_lt (checkIndex_eq_ok_iff.1 hk₁)))
      (h.lt_order_of_le_size (Nat.le_of_lt (checkIndex_eq_ok_iff.1 hk₂))))
  · rw [if_neg hne, if_neg hne]
    exact faithful_pure _ s

theorem faithful_labelAt (k : Nat) : Faithful (Strict.labelAt k) (labelAt k) s :=
  h.faithful_checkIndex_bind true fun hk => faithful_change
    (h.exact.strict_issueLabelAt (h.lt_order_of_le_size (checkIndex_atEnd_eq_ok_iff.1 hk)))

theorem strict_units : Strict.units s = some s.units := by
  have hend := cell?_eq_some (h.lt_order_of_le_size (Nat.le_refl s.size))
  rw [Strict.units, Store.units]
  simp only [Strict.size_eq h.size_pos, h.exact.strict_cell, hend, Option.bind_eq_bind,
    Option.bind_some]
  rfl

/-- The first cell starts at the start, so the search for an address ends behind it. -/
theorem strict_covering (address : Nat) :
    Strict.covering s address = some (s.covering address) ∧ s.covering address < s.order.size := by
  have hfirst : (s.cell? 0).any (·.address ≤ address) = true := by
    have haddress := h.address 0 _ (Array.getElem?_eq_getElem h.size_pos)
    rw [cell?_eq_some h.size_pos, Option.any_some, haddress]
    simp
  have hpos : 0 < bisect (fun index => (s.cell? index).any (·.address ≤ address)) 0 s.order.size :=
    lt_bisect h.size_pos hfirst
  have hle := (bisect_mem (fun index => (s.cell? index).any (·.address ≤ address))
    (Nat.zero_le s.order.size)).2
  rw [Strict.covering, Store.covering]
  simp only [h.exact.strict_cells, getElem?_cells, Option.bind_eq_bind, Option.bind_some]
  generalize bisect (fun index => (s.cell? index).any (·.address ≤ address)) 0 s.order.size = turn
    at hpos hle
  cases turn with
  | zero => exact absurd hpos (Nat.lt_irrefl 0)
  | succ before => exact ⟨rfl, hle⟩

theorem faithful_labelAtAddress (address : UInt64) :
    Faithful (Strict.labelAtAddress address) (labelAtAddress address) s := by
  refine faithful_get_bind (faithful_look_bind h.strict_units ?_)
  by_cases hpast : s.units < address.toNat
  · rw [if_pos hpast, if_pos hpast]
    exact faithful_throw _ s
  · obtain ⟨hcovering, hlt⟩ := h.strict_covering address.toNat
    rw [if_neg hpast, if_neg hpast]
    exact faithful_look_bind hcovering (faithful_change (h.exact.strict_issueLabelAt hlt))

theorem faithful_addDebugItem (k : Nat) (item : DebugItem) :
    Faithful (Strict.addDebugItem k item) (addDebugItem k item) s :=
  h.faithful_checkIndex_bind true fun hk => faithful_modifyPoints
    (h.exact.strict_modifyCell (h.lt_order_of_le_size (checkIndex_atEnd_eq_ok_iff.1 hk)) _)

theorem faithful_removeDebugItems (k : Nat) :
    Faithful (Strict.removeDebugItems k) (removeDebugItems k) s :=
  h.faithful_checkIndex_bind true fun hk => faithful_change
    (h.exact.strict_takeItems (h.lt_order_of_le_size (checkIndex_atEnd_eq_ok_iff.1 hk)))

theorem faithful_retainDebugItems (keep : DebugItem → Bool) :
    Faithful (Strict.retainDebugItems keep) (retainDebugItems keep) s :=
  faithful_modifyPoints (h.exact.strict_retainItems keep)

/-- No edit gets stuck. -/
theorem faithful_perform (e : Page.Edit) : Faithful (Strict.perform e) (perform e) s := by
  cases e with
  | append i => exact (h.faithful_append i).bind fun _ s' _ => faithful_pure _ s'
  | insert k i => exact (h.faithful_insert k i).bind fun _ s' _ => faithful_pure _ s'
  | replace k i => exact (h.faithful_replace k i).bind fun _ s' _ => faithful_pure _ s'
  | remove k => exact (h.faithful_remove k).bind fun _ s' _ => faithful_pure _ s'
  | swap k₁ k₂ => exact (h.faithful_swap k₁ k₂).bind fun _ s' _ => faithful_pure _ s'
  | labelAt k => exact (h.faithful_labelAt k).bind fun _ s' _ => faithful_pure _ s'
  | labelAtAddress address =>
    exact (h.faithful_labelAtAddress address).bind fun _ s' _ => faithful_pure _ s'
  | addTry entry => exact (faithful_addTry entry).bind fun _ s' _ => faithful_pure _ s'
  | addDebugItem k item =>
    exact (h.faithful_addDebugItem k item).bind fun _ s' _ => faithful_pure _ s'
  | removeDebugItems k =>
    exact (h.faithful_removeDebugItems k).bind fun _ s' _ => faithful_pure _ s'
  | retainDebugItems keep =>
    exact (h.faithful_retainDebugItems keep).bind fun _ s' _ => faithful_pure _ s'

end Consistent

end Store

end Dalvik
