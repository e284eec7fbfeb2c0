import Dalvik.Proofs.Draft.Export
import Dalvik.Proofs.Store.Reachability

/-!
# What the offsets of a finished method denote

A finished method says with offsets and addresses what the relaxed store says with labels
(`Store.toMethod_exported`).  Every offset leads from its base to the address at which the position
of the label starts in the method.  The base is the instruction itself, or for a table the one switch
that reaches it.  Handlers and debug items have the addresses of their labels and of their positions.
-/

namespace Dalvik

namespace Draft

variable {d : Draft} {o : Outline} {code : List (Instruction Int32)}

/-- The offset that leads from a position to a label, the code being as it is. -/
def offsetTo (d : Draft) (code : List (Instruction Int32)) (base : Nat) (label : Label) : Int32 :=
  .ofInt (Code.address code ((d.locate label).toOption.getD 0) - Code.address code base)

/-- It is the only one. -/
theorem offsetTo_eq {label : Label} {offset : Int32} {base p : Nat} (hp : d.locate label = .ok p)
    (hfollow : Code.follow code base offset = some p) : d.offsetTo code base label = offset := by
  have hdistance : (Code.address code p : Int) - Code.address code base = offset.toInt := by
    rw [(Code.follow_eq_some_iff.1 hfollow).2]
    omega
  rw [offsetTo, hp, Except.toOption, Option.getD_some, hdistance, Int32.ofInt_toInt]

/-- The offsets that are spelled out for labels lead to where these stand. -/
theorem forall₂_follow_of_spells {base : Nat → Nat} (ho : d.outline = .ok o)
    (hspells : Code.Spells base o.instructions code) {k : Nat} {i : Instruction Label}
    {j : Instruction Int32} (hi : d.listing.instructions[k]? = some i) (hj : code[k]? = some j) :
    List.Forall₂ (fun label offset => ∃ p, d.locate label = .ok p ∧
      Code.follow code (base k) offset = some p) i.targets j.targets := by
  obtain ⟨n, hn, -⟩ := Code.getElem?_of_shape_eq (shape_of_outline ho) hi
  obtain ⟨hlength, hplaces⟩ := forall₂_iff_getElem?.1 (targets_of_outline ho hi hn)
  obtain ⟨hlength', hoffsets⟩ := forall₂_iff_getElem?.1 (hspells.targets k n j hn hj)
  refine forall₂_iff_getElem?.2 ⟨hlength.trans hlength'.symm, fun t label offset hlabel hoffset => ?_⟩
  have hlt : t < n.targets.length := hlength ▸ (List.getElem?_eq_some_iff.1 hlabel).1
  exact ⟨_, hplaces t label _ hlabel (List.getElem?_eq_getElem hlt),
    hoffsets t offset _ hoffset (List.getElem?_eq_getElem hlt)⟩

end Draft

namespace Store

/-- The switch at `switch` reaches the table at `table`. -/
def Reaches (s : Store) (switch table : Nat) : Prop :=
  Code.Reaches (fun _ label => (s.labelIndex label).toOption) s.instructions switch table

/-- The position from which the targets of the instruction `i` at position `k` are counted. -/
inductive CountsFrom (s : Store) (k : Nat) : Instruction Label → Nat → Prop
  /-- A table counts from the switch that reaches it, there being no other. -/
  | table {p : Payload Label} {switch : Nat} (table : p.isSwitchTable = true)
      (reaches : s.Reaches switch k) (only : ∀ other, s.Reaches other k → other = switch) :
      CountsFrom s k (.data p) switch
  /-- Everything else counts from itself. -/
  | itself {i : Instruction Label} (none : ∀ p, i = .data p → p.isSwitchTable = false) :
      CountsFrom s k i k

/-- A label denotes an address of a method: the start of the instruction at its position, or the end
if that is the position past the last instruction. -/
def Denotes (s : Store) (m : Method) (label : Label) (address : Nat) : Prop :=
  ∃ k ≤ m.code.size, s.labelIndex label = .ok k ∧ m.code.offset k = address

/-- The places of a handler are those of its labels. -/
structure Resolves (s : Store) (m : Method) (entry : TryEntry Label) (entry' : TryEntry Nat) :
    Prop where
  start : s.Denotes m entry.start entry'.start
  stop : s.Denotes m entry.stop entry'.stop
  type? : entry'.type? = entry.type?
  handler : s.Denotes m entry.handler entry'.handler

/-- A method says with offsets and addresses what a store says with labels. -/
structure Exported (s : Store) (m : Method) : Prop where
  /-- The number of registers is the same. -/
  registers : m.registers = s.registers
  /-- So is the number of instructions. -/
  size : m.code.size = s.size
  /-- Instructions start at the addresses of their cells, and the end is at that of its cell. -/
  starts : ∀ k ≤ s.size, ∃ c, s.cell? k = some c ∧ m.code.offset k = c.address
  /-- The instructions are the same, but for the offsets that stand for labels. -/
  instructions : ∀ k < s.size, ∃ i j base, ∃ offset : Label → Int32,
    s.instruction? k = some i ∧ m.instructions[k]? = some j ∧ s.CountsFrom k i base ∧
      i.mapTargetsM (fun label => (.ok (offset label) : Except Error Int32)) = .ok j ∧
        ∀ label ∈ i.targets, ∃ address, s.Denotes m label address ∧
          (m.code.offset base : Int) + (offset label).toInt = address
  /-- Handlers have the addresses that their labels denote; those with an empty range are left
  out. -/
  handlers : ∃ entries, List.Forall₂ (s.Resolves m) s.tries.toList entries ∧
    m.tries.flatMap TryBlock.covered =
      (entries.filter fun entry => entry.start < entry.stop).map fun entry =>
        (.ofNat entry.start, .ofNat (entry.stop - entry.start),
          ⟨entry.type?, .ofNat entry.handler⟩)
  /-- Debug items have the addresses of the cells to which they are attached. -/
  items : m.debugItems = s.addressedDebugItems.map fun (address, item) => (.ofNat address, item)
  /-- These do not decrease. -/
  nondecreasing : s.addressedDebugItems.Pairwise (·.1 ≤ ·.1)
  /-- Nor do they where they are written down, as long as they fit. -/
  sorted : m.units < 2 ^ 64 → m.debugItems.Pairwise (·.1 ≤ ·.1)

variable {s s' : Store} {d : Draft} {o : Outline} {m : Method} {owners : Owners} {k : Nat}
  {i : Instruction Label} {label : Label}

/-- A store becomes a method if it can be relaxed and its outline can then be spelled out. -/
theorem toMethod_eq_ok_iff : toMethod s = .ok m s' ↔
    relax s = .ok ⟨⟩ s' ∧ ∃ o, s'.outline = .ok o ∧ o.toMethod s'.switchIndex? = .ok m := by
  rw [toMethod]
  simp only [run_bind_eq_ok_iff, run_get_eq_ok_iff, require_eq_ok_iff]
  constructor
  · rintro ⟨⟨⟩, _, hrelax, _, _, ⟨rfl, rfl⟩, o, _, ⟨ho, rfl⟩, hm, rfl⟩
    exact ⟨hrelax, o, ho, hm⟩
  · rintro ⟨hrelax, o, ho, hm⟩
    exact ⟨⟨⟩, s', hrelax, s', s', ⟨rfl, rfl⟩, o, s', ⟨ho, rfl⟩, hm, rfl⟩

namespace Refines

/-- A store and its draft agree on which switch reaches which table. -/
theorem reaches_iff (h : s.Refines d) {switch table : Nat} :
    s.Reaches switch table ↔ d.listing.Reaches switch table := by
  have hlocate : ∀ i ∈ d.listing.instructions[switch]?, ∀ label ∈ i.switchTarget?,
      (d.locate label).toOption = d.listing.locate? label := by
    intro i hi label hlabel
    have hdraft := h.coherent.draft_of_switchTarget? hi hlabel
    cases hlocate : d.locate label with
    | ok k => exact (Draft.locate_eq_ok_iff.1 hlocate).2.symm
    | error e =>
      cases hk : d.listing.locate? label with
      | none => rfl
      | some k =>
        rw [Draft.locate_eq_ok_iff.2 ⟨hdraft, hk⟩] at hlocate
        cases hlocate
  rw [Reaches, h.labelIndex_eq, h.tracks.instructions_eq, Listing.Reaches]
  constructor
  · intro hr
    exact hr.congr fun i hi label hlabel => (hlocate i hi label hlabel).symm
  · intro hr
    exact hr.congr hlocate

/-- The position from which an instruction counts is that of the owner, if it has one. -/
theorem countsFrom (h : s.Refines d) (hlegal : d.Legal)
    (howners : ∀ table switch, owners.of? table = some switch ↔ d.listing.Reaches switch table)
    (hi : d.instruction? k = some i) : s.CountsFrom k i (Outline.base owners.of? k) := by
  by_cases htable : ∃ switch, d.listing.Reaches switch k
  · obtain ⟨switch, hr⟩ := htable
    obtain ⟨p, hp⟩ := hr.isPayload
    have hkind := hr.isSwitchTable hp
    rw [Listing.getElem?_instructions] at hp
    obtain rfl := Option.some.inj (hi.symm.trans hp)
    rw [Outline.base, (howners k switch).2 hr]
    refine .table hkind (h.reaches_iff.2 hr) fun other hother => ?_
    exact (hlegal.owned k p hp hkind).unique (h.reaches_iff.1 hother) hr
  · have hfree : owners.of? k = none := by
      cases hof : owners.of? k with
      | none => rfl
      | some switch => exact absurd ⟨switch, (howners k switch).1 hof⟩ htable
    rw [Outline.base, hfree]
    refine .itself fun p hp => ?_
    subst hp
    cases hkind : p.isSwitchTable with
    | false => rfl
    | true => exact absurd (hlegal.owned k p hi hkind).exists htable

/-! ### What a draft spells out -/

section

variable (h : s.Refines d) (hcode : m.code = .ofList m.instructions)
  (hshape : m.instructions.map Instruction.shape = d.listing.instructions.map Instruction.shape)

include hcode hshape

/-- The instructions of the method are at the addresses of those of the draft. -/
theorem offset_eq (k : Nat) : m.code.offset k = Code.address d.listing.instructions k :=
  (Method.offset_eq hcode k).trans (Code.address_eq_of_shape_eq hshape k)

omit hcode in
theorem size_code : m.code.size = d.listing.size := by
  rw [← Listing.length_instructions, ← Code.length_eq_of_shape_eq hshape]
  simp [Method.instructions, Layout.elems, Layout.size]

include h

/-- What a label denotes is the address of its position. -/
theorem denotes (hk : d.locate label = .ok k) :
    s.Denotes m label (Code.address d.listing.instructions k) := by
  obtain ⟨hdraft, hk'⟩ := Draft.locate_eq_ok_iff.1 hk
  refine ⟨k, ?_, by rw [h.labelIndex_eq, hk], offset_eq hcode hshape k⟩
  rw [size_code hshape]
  exact h.coherent.locate?_le_size hdraft hk'

/-- The handlers of the outline, once they have addresses, are where their labels say. -/
theorem forall₂_resolves (ho : d.outline = .ok o) : List.Forall₂ (s.Resolves m) s.tries.toList
    (o.tries.map (TryEntry.placed (Code.address d.listing.instructions))) := by
  rw [h.tries, List.forall₂_map_right_iff]
  refine (Draft.outline_eq_ok_iff.1 ho).2.1.imp fun entry entry' hentry => ?_
  obtain ⟨htype, hplaces⟩ := TryEntry.mapM_eq_ok_iff.1 hentry
  obtain ⟨hstart, hplaces⟩ := List.forall₂_cons.1 hplaces
  obtain ⟨hstop, hplaces⟩ := List.forall₂_cons.1 hplaces
  obtain ⟨hhandler, -⟩ := List.forall₂_cons.1 hplaces
  exact ⟨h.denotes hcode hshape hstart, h.denotes hcode hshape hstop, htype,
    h.denotes hcode hshape hhandler⟩

/-- An instruction is spelled out with the offsets that lead to its labels. -/
theorem exists_offsets (hlegal : d.Legal) (ho : d.outline = .ok o)
    (hspells : Code.Spells (Outline.base owners.of?) o.instructions m.instructions)
    (howners : ∀ table switch, owners.of? table = some switch ↔ d.listing.Reaches switch table)
    (hi : d.instruction? k = some i) : ∃ j base, ∃ offset : Label → Int32,
      m.instructions[k]? = some j ∧ s.CountsFrom k i base ∧
        i.mapTargetsM (fun label => (.ok (offset label) : Except Error Int32)) = .ok j ∧
          ∀ label ∈ i.targets, ∃ address, s.Denotes m label address ∧
            (m.code.offset base : Int) + (offset label).toInt = address := by
  have hbase := h.countsFrom hlegal howners hi
  rw [Draft.instruction?, ← Listing.getElem?_instructions] at hi
  obtain ⟨j, hj, hij⟩ := Code.getElem?_of_shape_eq hshape hi
  have htargets := Draft.forall₂_follow_of_spells ho hspells hi hj
  refine ⟨j, _, d.offsetTo m.instructions (Outline.base owners.of? k), hj, hbase, ?_,
    fun label hlabel => ?_⟩
  · refine Instruction.mapTargetsM_eq_ok_iff.2 ⟨hij, htargets.imp ?_⟩
    rintro label offset ⟨p, hp, hfollow⟩
    rw [Draft.offsetTo_eq hp hfollow]
  · obtain ⟨offset, -, p, hp, hfollow⟩ := forall₂_exists_left htargets.flip hlabel
    refine ⟨_, h.denotes hcode hshape hp, ?_⟩
    rw [Draft.offsetTo_eq hp hfollow, Method.offset_eq hcode,
      ← Code.address_eq_of_shape_eq hshape]
    exact (Code.follow_eq_some_iff.1 hfollow).2.symm

end

/-- The debug items with the addresses of their positions. -/
theorem addressedDebugItems_eq (h : s.Refines d) : s.addressedDebugItems =
    d.listing.debugItems.map fun (k, item) => (Code.address d.listing.instructions k, item) := by
  rw [h.tracks.addressedDebugItems_eq, Draft.addressedDebugItems]
  refine List.map_congr_left fun e he => ?_
  dsimp only
  rw [d.listing.getD_addresses (Listing.le_size_of_mem_debugItems he)]

theorem pairwise_addressedDebugItems (h : s.Refines d) :
    s.addressedDebugItems.Pairwise (·.1 ≤ ·.1) := by
  rw [h.addressedDebugItems_eq, List.pairwise_map]
  exact d.listing.pairwise_debugItems.imp fun hle => Code.address_mono _ hle

theorem le_units_of_mem_addressedDebugItems (h : s.Refines d) {e : Nat × DebugItem}
    (he : e ∈ s.addressedDebugItems) : e.1 ≤ s.units := by
  rw [h.addressedDebugItems_eq] at he
  obtain ⟨e', he', rfl⟩ := List.mem_map.1 he
  rw [h.tracks.units_eq, Listing.units_eq]
  exact Code.address_mono _ (Listing.le_size_of_mem_debugItems he')

/-- What a legal draft spells out says the same as the store. -/
theorem exported (h : s.Refines d) (hd : d.Sound) (hlegal : d.Legal) (ho : s.outline = .ok o)
    (hm : o.toMethod s.switchIndex? = .ok m) : s.Exported m := by
  obtain ⟨owners, hsome, howners⟩ := hlegal.owners
  rw [h.outline_eq] at ho
  rw [h.switchIndex?_eq hsome] at hm
  obtain ⟨-, -, hitems, hregisters⟩ := Draft.outline_eq_ok_iff.1 ho
  obtain ⟨⟨hspells, -⟩, hcode, hregisters', htries, hitems'⟩ :=
    (Outline.toMethod_eq_ok_iff (hd.wellFormed_outline ho).targets).1 hm
  have hshape := Draft.shape_of_spells ho hspells
  have haddress := Code.address_eq_of_shape_eq (Draft.shape_of_outline ho)
  have hdebug : m.debugItems =
      s.addressedDebugItems.map fun (address, item) => (.ofNat address, item) := by
    rw [hitems', hitems, h.addressedDebugItems_eq, List.map_map]
    simp only [haddress, Function.comp_def]
  have hunits : m.units = s.units := by
    rw [Method.units_eq hcode, h.tracks.units_eq, Listing.units_eq,
      Code.length_eq_of_shape_eq hshape, Code.address_eq_of_shape_eq hshape,
      Listing.length_instructions]
  exact
    { registers := by rw [hregisters', hregisters, h.registers]
      size := by rw [size_code hshape, h.tracks_size]; rfl
      starts := fun k hk => by
        rw [h.tracks_size] at hk
        exact ⟨_, h.tracks.cell?_eq hk, offset_eq hcode hshape k⟩
      instructions := fun k hk => by
        rw [h.tracks_size] at hk
        obtain ⟨i, hi⟩ := d.listing.exists_instruction? hk
        obtain ⟨j, base, offset, hj⟩ :=
          h.exists_offsets hcode hshape hlegal ho hspells howners hi
        exact ⟨i, j, base, offset, (h.tracks.instruction?_eq k).trans hi, hj⟩
      handlers := by
        refine ⟨_, h.forall₂_resolves hcode hshape ho, ?_⟩
        rw [htries, Outline.emitTries_ofList, TryBlock.flatMap_covered_foldr, funext haddress]
      items := hdebug
      nondecreasing := h.pairwise_addressedDebugItems
      sorted := fun hsize => by
        rw [hdebug, List.pairwise_map]
        refine h.pairwise_addressedDebugItems.imp_of_mem fun he he' hle => ?_
        have hlt := Nat.lt_of_le_of_lt (h.le_units_of_mem_addressedDebugItems he) (hunits ▸ hsize)
        have hlt' := Nat.lt_of_le_of_lt (h.le_units_of_mem_addressedDebugItems he') (hunits ▸ hsize)
        dsimp only
        rwa [UInt64.le_iff_toNat_le, UInt64.toNat_ofNat_of_lt' hlt, UInt64.toNat_ofNat_of_lt' hlt'] }

end Refines

/-- When a reachable store is turned into a method, it is relaxed, and the method says with offsets
and addresses what the relaxed store says with labels. -/
theorem toMethod_exported (h : s.Reachable) (hok : toMethod s = .ok m s') :
    relax s = .ok ⟨⟩ s' ∧ s'.Exported m := by
  obtain ⟨hrelax, o, ho, hm⟩ := toMethod_eq_ok_iff.1 hok
  obtain ⟨d, hd, hrefines⟩ := h.exists_refines
  obtain ⟨d', hd', hrefines'⟩ := (agree_relax hrefines hd.sound).exists_of_ok hrelax
  obtain ⟨hsound, hclean⟩ := hd.sound.relaxed (Draft.relax_eq_ok_iff.1 hd')
  exact ⟨hrelax, hrefines'.exported hsound (hsound.legal hclean) ho hm⟩

/-- A loop with a switch, whose table is in need of alignment, a handler and a line. -/
def loop : Store :=
  (new 0 2).run
    [.labelAt 0, .append .nop, .labelAt 1, .append (.data (.packed 7 [⟨0, 0⟩])),
      .insert 1 (.op .packedSwitch (.f31t 0 ⟨0, 1⟩)), .insert 2 (.goto .byte ⟨0, 0⟩),
      .addTry ⟨⟨0, 0⟩, ⟨0, 1⟩, none, ⟨0, 1⟩⟩, .addDebugItem 2 (.line 5)]

/-- The loop is turned into the method of the draft that it refines.  Its table counts from the
switch, and the offset there leads to the start. -/
theorem toMethod_exported_loop :
    ∃ s', loop.Reachable ∧ toMethod loop = .ok Draft.loopMethod s' ∧
      relax loop = .ok ⟨⟩ s' ∧ s'.Exported Draft.loopMethod := by
  have hloop : loop.Reachable := (Reachable.new 0 2).run _
  have hcheck : (match toMethod loop with
      | .ok m _ => decide (m = Draft.loopMethod)
      | .error _ _ => false) = true := by decide +kernel
  split at hcheck
  · next m s' hok =>
    obtain rfl := of_decide_eq_true hcheck
    exact ⟨s', hloop, hok, toMethod_exported hloop hok⟩
  · cases hcheck

end Store

end Dalvik
