import Dalvik.Proofs.Draft.Export
import Dalvik.Proofs.Relaxation.Settling

/-!
# There and back again

The draft of a well-formed method has the same switches and tables as the method, and nothing is left
to repair in it (`Draft.settled_of_spells`), so that relaxing it does no more than to note the owners
of the tables.  Its outline is that of the method, and spells out the method again
(`Draft.exists_relaxed_ofOutline`).
-/

namespace Dalvik

/-- A method is got back from an outline that agrees with it. -/
theorem Outline.toMethod_of_spells {o : Outline} {m : Method} {owner? : Nat → Option Nat}
    (h : m.WellFormed) (hcode : m.code = .ofList m.instructions) (hwf : o.WellFormed)
    (hspells : Code.Spells (base owner?) o.instructions m.instructions)
    (hregisters : o.registers = m.registers)
    (htries : o.tries.map (TryEntry.placed (Code.address m.instructions)) =
      m.tries.flatMap TryBlock.entries)
    (hitems : o.debugItems.map (fun (k, item) =>
      (UInt64.ofNat (Code.address m.instructions k), item)) = m.debugItems) :
    o.toMethod owner? = .ok m := by
  have haddress : Code.address o.instructions = Code.address m.instructions :=
    funext fun k => (Code.address_eq_of_shape_eq hspells.shape k).symm
  have htries' : emitTries (.ofList o.instructions) o.tries = m.tries := by
    rw [emitTries_ofList, haddress, htries]
    exact TryBlock.foldr_entries h.tries h.distinct
  refine (toMethod_eq_ok_iff hwf.targets).2
    ⟨⟨hspells, h.fits⟩, hcode, hregisters.symm, htries'.symm, ?_⟩
  rw [haddress, hitems]

namespace Draft

variable {d : Draft} {o : Outline} {owners : Owners}

/-- Relaxing does no more than to note the owners, if nothing is left to repair. -/
theorem relaxed_of_settled (hnone : d.owners? = none) (ho : d.outline = .ok o)
    (hfind : d.listing.findOwners d.locate = .ok owners)
    (hsettled : Bound.Settled ⟨d.listing, owners⟩) :
    d.relaxed = .ok { d with owners? := some owners } := by
  obtain ⟨hinstructions, htries, -⟩ := outline_eq_ok_iff.1 ho
  unfold relaxed
  rw [hnone]
  refine bind_eq_ok_iff.2 ⟨(), forM_eq_ok_iff.2 fun i hi => forM_eq_ok_iff.2 fun label hlabel => ?_,
    bind_eq_ok_iff.2 ⟨(), forM_eq_ok_iff.2 fun entry hentry => forM_eq_ok_iff.2 fun label hlabel => ?_,
      bind_eq_ok_iff.2 ⟨owners, hfind, ?_⟩⟩⟩
  · obtain ⟨j, -, hij⟩ := forall₂_exists_left hinstructions.flip hi
    obtain ⟨p, -, hp⟩ :=
      forall₂_exists_left (Instruction.mapTargetsM_eq_ok_iff.1 hij).2.flip hlabel
    exact discard_eq_ok_iff.2 ⟨p, hp⟩
  · obtain ⟨entry', -, hmap⟩ := forall₂_exists_left htries.flip hentry
    obtain ⟨p, -, hp⟩ := forall₂_exists_left (TryEntry.mapM_eq_ok_iff.1 hmap).2.flip hlabel
    exact discard_eq_ok_iff.2 ⟨p, hp⟩
  · rw [Bound.settle_of_settled hsettled]
    rfl

section

variable {m : Method} {base : Nat → Nat} (hd : d.Sound) (ho : d.outline = .ok o)
  (h : m.WellFormed) (hbase : m.CountsFrom base)
  (hspells : Code.Spells base o.instructions m.instructions)

include ho hbase hspells

/-- A draft agrees with the method that spells out its outline on which switch reaches which
table. -/
theorem reaches_iff_of_spells {switch table : Nat} :
    d.listing.Reaches switch table ↔ m.Reaches switch table :=
  (reaches_iff_of_outline ho).trans (hbase.reaches_iff hspells).symm

include hd h

/-- Nothing is left to repair in a draft whose outline is spelled out by a well-formed method. -/
theorem settled_of_spells (howners : ∀ table switch,
      owners.of? table = some switch ↔ d.listing.Reaches switch table) :
    Bound.Settled ⟨d.listing, owners⟩ := by
  have hshape : m.instructions.map Instruction.shape =
      d.listing.instructions.map Instruction.shape := hspells.shape.trans (shape_of_outline ho)
  have haddress := Code.address_eq_of_shape_eq hshape
  refine Bound.settled_of_forall (fun k p hi => ?_) fun k o' r label stop hi hstop => ?_
  · obtain ⟨j, hj, hij⟩ := Code.getElem?_of_shape_eq hshape hi
    obtain ⟨q, rfl, hq⟩ := Instruction.eq_data_of_shape_eq hij
    refine ⟨?_, fun htable => ?_⟩
    · rw [← haddress]
      exact h.aligned k q hj
    · rw [← Payload.isSwitchTable_shape, ← hq, Payload.isSwitchTable_shape] at htable
      obtain ⟨switch, hr, -⟩ := h.owned k q hj htable
      rw [(howners k switch).2 ((reaches_iff_of_spells ho hbase hspells).2 hr)]
      rfl
  · -- the offset of the jump fits in the method, and leads to where the label stands in the draft
    obtain ⟨j, hj, hij⟩ := Code.getElem?_of_shape_eq hshape hi
    obtain ⟨t, rfl⟩ := Instruction.eq_jump_of_shape_eq hij
    obtain ⟨j', hj', hij'⟩ := Code.getElem?_of_shape_eq (shape_of_outline ho) hi
    obtain ⟨p, rfl⟩ := Instruction.eq_jump_of_shape_eq hij'
    have hlocate : d.locate label = .ok p :=
      (List.forall₂_cons.1 (targets_of_outline ho hi hj')).1
    have hself : base k = k := by
      rcases hbase k _ hj (List.cons_ne_nil t []) with ⟨-, hself⟩ | hr
      · exact hself
      · exact absurd rfl (hr.table_ne hj rfl)
    have hfollow := (List.forall₂_cons.1 (hspells.targets k _ _ hj' hj)).1
    rw [hself, Code.follow_eq_some_iff, haddress, haddress] at hfollow
    obtain ⟨hlabel, hplace⟩ := locate_eq_ok_iff.1 hlocate
    rw [hd.listing.address?_survey hlabel, hplace, Option.map_some] at hstop
    obtain rfl := Option.some.inj hstop
    have hfits : r.fits t.toInt = true := by
      have hnone := h.fits _ (List.mem_of_getElem? hj)
      simpa [Instruction.overlong?, Operands.targets, Operands.reach] using hnone
    have hoffset : (Code.address d.listing.instructions p : Int) -
        Code.address d.listing.instructions k = t.toInt := by
      have hsum := hfollow.2
      omega
    rw [hoffset]
    exact hfits

/-- Every switch of such a draft finds its table, and no table is found twice. -/
theorem exists_findOwners :
    ∃ owners, d.listing.findOwners d.locate = .ok owners ∧
      ∀ table switch, owners.of? table = some switch ↔ d.listing.Reaches switch table := by
  have hshape : m.instructions.map Instruction.shape =
      d.listing.instructions.map Instruction.shape := hspells.shape.trans (shape_of_outline ho)
  obtain ⟨owners, howners⟩ : ∃ owners, d.listing.findOwners d.locate = .ok owners := by
    refine Listing.exists_findOwners_eq_ok (fun i hi label hlabel p hp => ?_)
      (fun k i label hi hlabel => ?_) fun table switch switch' hr hr' => ?_
    · obtain ⟨k, hk, rfl⟩ := List.mem_iff_getElem.1 hi
      have hdraft := hd.listing.draft_of_switchTarget? (List.getElem?_eq_getElem hk) hlabel
      exact locate_eq_ok_iff.2 ⟨hdraft, hp⟩
    · obtain ⟨j, hj, hij⟩ := Code.getElem?_of_shape_eq hshape hi
      obtain ⟨o', a, rfl, ho'⟩ := Instruction.switchTarget?_eq_some_iff.1 hlabel
      have hswitch : j.opcode.isSwitch = true := by
        rw [← Instruction.opcode_shape, hij, Instruction.opcode_shape]
        exact ho'
      obtain ⟨table, hr⟩ := h.bound k j hj hswitch
      exact ⟨table, (reaches_iff_of_spells ho hbase hspells).2 hr⟩
    · have hr₁ := (reaches_iff_of_spells ho hbase hspells).1 hr
      have hr₂ := (reaches_iff_of_spells ho hbase hspells).1 hr'
      obtain ⟨q, hq⟩ := hr₁.isPayload
      obtain ⟨_, _, hunique⟩ := h.owned table q hq (hr₁.isSwitchTable hq)
      rw [hunique switch hr₁, hunique switch' hr₂]
  exact ⟨owners, howners, fun table switch => (hd.bound howners).linked.of?_eq_some_iff⟩

/-- Relaxing such a draft does no more than to note the owners of the tables. -/
theorem exists_relaxed_of_spells (hempty : o.instructions = [] → d.owners? = some [])
    (hnone : o.instructions ≠ [] → d.owners? = none) :
    ∃ owners, d.relaxed = .ok { d with owners? := some owners } ∧
      ∀ table switch, owners.of? table = some switch ↔ m.Reaches switch table := by
  by_cases hnil : o.instructions = []
  · have howners := hempty hnil
    refine ⟨[], ?_, fun table switch => ?_⟩
    · rw [relaxed_of_owners?_eq_some howners, ← howners]
    · -- without instructions there are no tables
      constructor
      · intro hof
        simp [Owners.of?] at hof
      · intro hr
        obtain ⟨p, hp⟩ := ((hbase.reaches_iff hspells).1 hr).isPayload
        rw [hnil] at hp
        simp at hp
  · obtain ⟨owners, hfind, howners⟩ := exists_findOwners hd ho h hbase hspells
    refine ⟨owners, ?_, fun table switch => ?_⟩
    · exact relaxed_of_settled (hnone hnil) ho hfind
        (settled_of_spells hd ho h hbase hspells howners)
    · rw [howners]
      exact reaches_iff_of_spells ho hbase hspells

end

/-- The draft of a well-formed method, once it is relaxed, has the outline of the method, which
spells out the method again. -/
theorem exists_relaxed_ofOutline {m : Method} (h : m.WellFormed)
    (hcode : m.code = .ofList m.instructions) (hsize : m.units < 2 ^ 63) (draft : Nat) :
    ∃ o d, m.outline = .ok o ∧ (ofOutline draft o).relaxed = .ok d ∧ d.outline = .ok o ∧
      o.toMethod (d.owners?.getD []).of? = .ok m := by
  obtain ⟨o, ho, hregisters, hspells, htries, hitems⟩ := h.exists_outline hcode hsize
  have hwf := Method.wellFormed_of_outline ho
  have hsorted : o.debugItems.Pairwise fun e e' => e.1 ≤ e'.1 := by
    have hpairs := h.sorted
    rw [← hitems, List.pairwise_map] at hpairs
    obtain ⟨base, hbase⟩ := Method.exists_countsFrom h
    have hlength := Code.length_eq_of_shape_eq (hspells base hbase).shape
    refine hpairs.imp_of_mem fun {e e'} he he' hle => ?_
    exact Method.le_of_ofNat_address_le hcode hsize (hlength ▸ hwf.items e he)
      (hlength ▸ hwf.items e' he') hle
  have hout : (ofOutline draft o).outline = .ok o := outline_ofOutline hwf hsorted
  obtain ⟨base, hbase⟩ := Method.exists_countsFrom h
  obtain ⟨owners, hrelaxed, howners⟩ := exists_relaxed_of_spells (sound_ofOutline hwf) hout h hbase
    (hspells base hbase) (fun hnil => if_pos (List.isEmpty_iff.2 hnil))
    fun hne => if_neg (by simpa using hne)
  refine ⟨o, _, ho, hrelaxed, hout, ?_⟩
  exact Outline.toMethod_of_spells h hcode hwf (hspells _ (Method.countsFrom_base h howners))
    hregisters htries hitems

/-- A well-formed method that is turned into a draft is got back unchanged.  Its addresses have to
make sense as signed numbers of 64 bits, which is to say that it fits into memory. -/
theorem toMethod_ofMethod {registers : UInt16} {code : List (Instruction Int32)}
    {tries : List TryBlock} {items : List (UInt64 × DebugItem)}
    (h : (Method.ofInstructions registers code tries items).WellFormed)
    (hsize : (Method.ofInstructions registers code tries items).units < 2 ^ 63) (draft : Nat) :
    ∃ d d', ofMethod draft (Method.ofInstructions registers code tries items) = .ok d ∧
      toMethod d = .ok (Method.ofInstructions registers code tries items) d' := by
  have hcode : (Method.ofInstructions registers code tries items).code =
      .ofList (Method.ofInstructions registers code tries items).instructions := by
    rw [Method.instructions_ofInstructions]
    rfl
  obtain ⟨o, d', ho, hrelaxed, hout, hm⟩ := exists_relaxed_ofOutline h hcode hsize draft
  refine ⟨ofOutline draft o, d', ?_, toMethod_eq_ok_iff.2 ⟨hrelaxed, o, hout, hm⟩⟩
  exact bind_eq_ok_iff.2 ⟨o, ho, rfl⟩

/-- The method of the loop is well-formed, and the loop is got back from it. -/
theorem toMethod_ofMethod_loop :
    loopMethod.WellFormed ∧ loopMethod.units < 2 ^ 63 ∧
      ∃ d d', ofMethod 1 loopMethod = .ok d ∧ toMethod d = .ok loopMethod d' := by
  obtain ⟨d, hok⟩ := toMethod_loop
  have hsize : loopMethod.units < 2 ^ 63 := by decide +kernel
  have hwf := (reachable_loop.sound.wellFormed_of_toMethod hok hsize).1
  exact ⟨hwf, hsize, toMethod_ofMethod hwf hsize 1⟩

end Draft

end Dalvik
