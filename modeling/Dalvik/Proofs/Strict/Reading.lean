import Dalvik.Proofs.Instruction.Conversion
import Dalvik.Proofs.Store.Failing
import Dalvik.Proofs.Strict.Relaxing

/-!
# Strict reads

A read relaxes the store, which leaves a consistent store behind, and then looks up cells, the labels
in the code and the switches to which the tables belong.  Hence strict reads are faithful
(`Store.Refines.faithful_consult`), and so nothing that can be done with a store gets stuck
(`Store.Refines.strict_next`).
-/

namespace Dalvik

/-- Lookups are done one after the other. -/
def readsRelation {σ : Type} (s : σ) : MonadRelation (StrictM σ) (Except Error) where
  rel x y := Reads x y s
  rel_pure a := reads_pure a s
  rel_bind h hrest := h.bind fun a _ => hrest a

namespace Store

namespace Strict

open StrictM

/-- The position at which a label stands. -/
def labelIndex (s : Store) (label : Label) : Option (Except Error Nat) :=
  return (← cellOf s label).map (·.index)

/-- The instruction at a position, if there is such a position. -/
def instruction? (s : Store) (index : Nat) : Option (Option (Instruction Label)) :=
  match s.order[index]? with
  | none => some none
  | some h => return (← s.arena.get? h).instruction?

/-- The positions of the store with all that is known about them. -/
def locations (s : Store) : Option (List Location) :=
  return (← cells s).map fun cell =>
    { index := cell.index
      address := cell.address
      instruction? := cell.instruction?
      labels := cell.point.labels.toList
      items := cell.point.items.toList }

/-- The debug items of a store with their addresses. -/
def addressedDebugItems (s : Store) : Option (List (Nat × DebugItem)) :=
  return (← cells s).flatMap fun cell => cell.point.items.toList.map (cell.address, ·)

/-- The outline that the labels currently spell out. -/
def outline : StrictM Store Outline := do
  let s ← get
  let instructions ← (← look (instructions s)).mapM fun i =>
    i.mapTargetsM fun label => return (← find label).index
  let tries ← s.tries.toList.mapM fun entry =>
    entry.mapM fun label => return (← find label).index
  let cells ← look (cells s)
  return ⟨s.registers, instructions, tries,
    cells.flatMap fun cell => cell.point.items.toList.map (cell.index, ·)⟩

/-- For every position the position of the switch that refers to the table there. -/
def switchIndices (s : Store) : Option (List (Option Nat)) :=
  s.order.toList.mapM fun t =>
    match s.referrals.switchOf? t with
    | none => some none
    | some h => return some (← s.arena.get? h).index

/-- The instructions in order. -/
def readInstructions : StrictM Store (List (Instruction Label)) := do
  relax
  look (instructions (← get))

/-- Every position. -/
def readLocations : StrictM Store (List Location) := do
  relax
  look (locations (← get))

/-- The exception handlers in order. -/
def readTries : StrictM Store (List (TryEntry Label)) := do
  relax
  return (← get).tries.toList

/-- The debug items with their addresses. -/
def readDebugItems : StrictM Store (List (Nat × DebugItem)) := do
  relax
  look (addressedDebugItems (← get))

/-- The address at which a label stands. -/
def readAddress (label : Label) : StrictM Store Nat := do
  relax
  return (← find label).address

/-- The finished method. -/
def toMethod : StrictM Store Method := do
  relax
  let outline ← outline
  let switches ← look (switchIndices (← get))
  check (outline.toMethod fun table => (switches[table]?).join)

/-- Reads something out of a store. -/
def consult : Reading → StrictM Store Report
  | .instructions => return .instructions (← readInstructions)
  | .locations => return .locations (← readLocations)
  | .tries => return .tries (← readTries)
  | .debugItems => return .debugItems (← readDebugItems)
  | .address label => return .address (← readAddress label)
  | .method => return .method (← toMethod)

/-- The store in which what can be done with a store ends. -/
def next (s : Store) : Draft.Action → Option Store
  | .append i => (append i).after s
  | .insert index i => (insert index i).after s
  | .replace index i => (replace index i).after s
  | .remove index => (remove index).after s
  | .swap index₁ index₂ => (swap index₁ index₂).after s
  | .labelAt index => (labelAt index).after s
  | .labelAtAddress address => (labelAtAddress address).after s
  | .addTry entry => (addTry entry).after s
  | .addDebugItem index item => (addDebugItem index item).after s
  | .removeDebugItems index => (removeDebugItems index).after s
  | .retainDebugItems keep => (retainDebugItems keep).after s
  | .relax => relax.after s
  | .readInstructions => readInstructions.after s
  | .readLocations => readLocations.after s
  | .readTries => readTries.after s
  | .readDebugItems => readDebugItems.after s
  | .readAddress label => (readAddress label).after s
  | .toMethod => toMethod.after s

end Strict

variable {α : Type} {s : Store} {d : Draft}

/-! ### What the cells say -/

namespace Consistent

variable (h : s.Consistent)

include h

theorem strict_labelIndex (label : Label) :
    Strict.labelIndex s label = some (s.labelIndex label) := by
  rw [Strict.labelIndex, h.strict_cellOf]
  rfl

theorem strict_instruction? (k : Nat) : Strict.instruction? s k = some (s.instruction? k) := by
  rw [Strict.instruction?, Store.instruction?, cell?]
  cases hk : s.order[k]? with
  | none => rfl
  | some g =>
    dsimp only
    rw [(h.exact.live_of_getElem? hk).get?_eq]
    rfl

theorem strict_locations : Strict.locations s = some s.locations := by
  rw [Strict.locations, h.exact.strict_cells]
  rfl

theorem strict_addressedDebugItems :
    Strict.addressedDebugItems s = some s.addressedDebugItems := by
  rw [Strict.addressedDebugItems, h.exact.strict_cells]
  rfl

theorem reads_outline : Reads Strict.outline s.outline s := by
  have hfind : ∀ label, Reads (do return (← Strict.find label).index) (s.labelIndex label) s := by
    intro label
    have hbind := (h.reads_find label).bind (f := fun cell => pure cell.index)
      (g := fun cell => .ok cell.index) fun _ _ => reads_pure _ s
    rw [labelIndex]
    cases hcell : s.cellOf label with
    | ok cell => rwa [hcell] at hbind
    | error e => rwa [hcell] at hbind
  refine reads_get_bind (reads_look_bind h.strict_instructions
    (((readsRelation s).rel_mapM ((readsRelation s).rel_instruction hfind) _).bind fun _ _ =>
      ((readsRelation s).rel_mapM ((readsRelation s).rel_tryEntry hfind) _).bind fun _ _ =>
        reads_look_bind h.exact.strict_cells (reads_pure _ s)))

/-- The switch of a table is a cell, if there is one. -/
theorem strict_switchIndices : ∃ switches, Strict.switchIndices s = some switches ∧
    ∀ table, (switches[table]?).join = s.switchIndex? table := by
  have hindices : ∀ handles : List Handle, handles.mapM (fun t =>
      match s.referrals.switchOf? t with
      | none => some none
      | some g => (do return some (← s.arena.get? g).index : Option (Option Nat))) =
      some (handles.map fun t =>
        (s.referrals.switchOf? t).map fun g => (s.arena.get g).index) := by
    intro handles
    induction handles with
    | nil => rfl
    | cons t rest ih =>
      rw [List.mapM_cons, ih]
      cases hswitch : s.referrals.switchOf? t with
      | none => rw [List.map_cons, hswitch]; rfl
      | some g =>
        obtain ⟨r, hr, rfl⟩ := Option.map_eq_some_iff.1 hswitch
        have hlive := (h.referrals r (List.mem_of_find?_eq_some hr)).2
        rw [List.map_cons, hswitch]
        dsimp only
        rw [hlive.get?_eq]
        rfl
  refine ⟨_, hindices s.order.toList, fun table => ?_⟩
  rw [List.getElem?_map, Array.getElem?_toList, switchIndex?, switchOf?]
  cases s.order[table]? <;> rfl

end Consistent

/-! ### Reads -/

namespace Refines

variable (h : s.Refines d) (hd : d.Sound)

include h hd

/-- Relaxing does not get stuck, and then there is a consistent store. -/
theorem faithful_relax_bind {f : StrictM Store α} {g : StoreM α}
    (hrest : ∀ s' : Store, s'.Consistent → Faithful f g s') :
    Faithful (do Strict.relax; f) (do relax; g) s := by
  refine (h.faithful_relax hd).bind fun _ s' hok => ?_
  obtain ⟨d', -, h'⟩ := (agree_relax h hd).exists_of_ok hok
  exact hrest s' h'.consistent

theorem faithful_readInstructions : Faithful Strict.readInstructions readInstructions s :=
  h.faithful_relax_bind hd fun _ h' => faithful_get_bind (faithful_look h'.strict_instructions)

theorem faithful_readLocations : Faithful Strict.readLocations readLocations s :=
  h.faithful_relax_bind hd fun _ h' => faithful_get_bind (faithful_look h'.strict_locations)

theorem faithful_readTries : Faithful Strict.readTries readTries s :=
  h.faithful_relax_bind hd fun s' _ => faithful_get_bind (faithful_pure s'.tries.toList s')

theorem faithful_readDebugItems : Faithful Strict.readDebugItems readDebugItems s :=
  h.faithful_relax_bind hd fun _ h' =>
    faithful_get_bind (faithful_look h'.strict_addressedDebugItems)

theorem faithful_readAddress (label : Label) :
    Faithful (Strict.readAddress label) (readAddress label) s :=
  h.faithful_relax_bind hd fun _ h' => Faithful.get_bind
    ((Faithful.of_reads (h'.reads_find label)).bind fun cell s'' _ => faithful_pure cell.address s'')

theorem faithful_toMethod : Faithful Strict.toMethod toMethod s := by
  refine h.faithful_relax_bind hd fun s' h' => Faithful.get_bind
    ((Faithful.of_reads h'.reads_outline).bind fun outline s'' hok => ?_)
  obtain ⟨-, rfl⟩ := require_eq_ok_iff.1 hok
  obtain ⟨switches, hswitches, hindex⟩ := h'.strict_switchIndices
  refine faithful_get_bind (faithful_look_bind hswitches ?_)
  rw [funext hindex]
  exact faithful_check _ _

/-- No read gets stuck. -/
theorem faithful_consult (r : Reading) : Faithful (Strict.consult r) (consult r) s := by
  cases r with
  | instructions => exact (h.faithful_readInstructions hd).bind fun _ s' _ => faithful_pure _ s'
  | locations => exact (h.faithful_readLocations hd).bind fun _ s' _ => faithful_pure _ s'
  | tries => exact (h.faithful_readTries hd).bind fun _ s' _ => faithful_pure _ s'
  | debugItems => exact (h.faithful_readDebugItems hd).bind fun _ s' _ => faithful_pure _ s'
  | address label => exact (h.faithful_readAddress hd label).bind fun _ s' _ => faithful_pure _ s'
  | method => exact (h.faithful_toMethod hd).bind fun _ s' _ => faithful_pure _ s'

/-- Nothing that can be done with a store gets stuck. -/
theorem strict_next (action : Draft.Action) : Strict.next s action = some (s.next action) := by
  have hconsistent := h.consistent
  cases action with
  | append i => exact (hconsistent.faithful_append i).after_eq
  | insert k i => exact (hconsistent.faithful_insert k i).after_eq
  | replace k i => exact (hconsistent.faithful_replace k i).after_eq
  | remove k => exact (hconsistent.faithful_remove k).after_eq
  | swap k₁ k₂ => exact (hconsistent.faithful_swap k₁ k₂).after_eq
  | labelAt k => exact (hconsistent.faithful_labelAt k).after_eq
  | labelAtAddress address => exact (hconsistent.faithful_labelAtAddress address).after_eq
  | addTry entry => exact (faithful_addTry entry).after_eq
  | addDebugItem k item => exact (hconsistent.faithful_addDebugItem k item).after_eq
  | removeDebugItems k => exact (hconsistent.faithful_removeDebugItems k).after_eq
  | retainDebugItems keep => exact (hconsistent.faithful_retainDebugItems keep).after_eq
  | relax => exact (h.faithful_relax hd).after_eq
  | readInstructions => exact (h.faithful_readInstructions hd).after_eq
  | readLocations => exact (h.faithful_readLocations hd).after_eq
  | readTries => exact (h.faithful_readTries hd).after_eq
  | readDebugItems => exact (h.faithful_readDebugItems hd).after_eq
  | readAddress label => exact (h.faithful_readAddress hd label).after_eq
  | toMethod => exact (h.faithful_toMethod hd).after_eq

end Refines

end Store

end Dalvik
