import Dalvik.Proofs.Draft.Reachability
import Dalvik.Proofs.Method.Lookup

/-!
# What drafts are turned into

The method of a sound draft is well-formed (`Draft.Sound.wellFormed_of_toMethod`): relaxing the draft
has made it legal, the owners of its tables are the switches that reach them, offsets that do not fit
are refused, and handlers and debug items are written down in order.
-/

namespace Dalvik

namespace Draft

variable {d d' : Draft} {o : Outline} {m : Method} {owners : Owners}

section

variable (ho : d.outline = .ok o)
  (hspells : Code.Spells (Outline.base owners.of?) o.instructions m.instructions)
  (howners : ∀ table switch, owners.of? table = some switch ↔ d.listing.Reaches switch table)

include hspells

/-- What an offset of the method leads to is the position of an instruction or the end. -/
theorem boundary_of_spells {k source : Nat} {j : Instruction Int32}
    (hj : m.instructions[k]? = some j) (hsource : Outline.base owners.of? k = source) :
    ∀ offset ∈ j.targets, m.Boundary (Code.address m.instructions source + offset.toInt) := by
  intro offset hoffset
  obtain ⟨i, hi, -⟩ := Code.getElem?_of_shape_eq hspells.shape.symm hj
  obtain ⟨p, -, hp⟩ := forall₂_exists_left (hspells.targets k i j hi hj).flip hoffset
  rw [hsource] at hp
  exact ⟨p, Code.follow_eq_some_iff.1 hp⟩

/-- Every position of the outline has an address in the method. -/
theorem boundary_of_le (hcode : m.code = .ofList m.instructions) (hsize : m.units < 2 ^ 63) {k : Nat}
    (hk : k ≤ o.instructions.length) :
    Code.address o.instructions k < 2 ^ 64 ∧ m.Boundary (Code.address o.instructions k) := by
  rw [← Code.address_eq_of_shape_eq hspells.shape]
  have hplace : m.Boundary (Code.address m.instructions k) :=
    ⟨k, (Code.length_eq_of_shape_eq hspells.shape).symm ▸ hk, rfl⟩
  exact ⟨Nat.lt_trans (hplace.lt hcode hsize) (by decide), hplace⟩

include ho

theorem shape_of_spells :
    m.instructions.map Instruction.shape = d.listing.instructions.map Instruction.shape :=
  hspells.shape.trans (shape_of_outline ho)

/-- Every instruction of the method has its counterpart in the draft. -/
theorem exists_instruction?_of_spells {k : Nat} {j : Instruction Int32}
    (hj : m.instructions[k]? = some j) : ∃ i, d.instruction? k = some i ∧ i.shape = j.shape := by
  obtain ⟨i, hi, hij⟩ := Code.getElem?_of_shape_eq (shape_of_spells ho hspells).symm hj
  rw [Listing.getElem?_instructions] at hi
  exact ⟨i, hi, hij⟩

theorem exists_data_of_spells {k : Nat} {q : Payload Int32}
    (hj : m.instructions[k]? = some (.data q)) :
    ∃ p, d.instruction? k = some (.data p) ∧ p.shape = q.shape := by
  obtain ⟨i, hi, hij⟩ := exists_instruction?_of_spells ho hspells hj
  obtain ⟨p, rfl, hp⟩ := Instruction.eq_data_of_shape_eq hij
  exact ⟨p, hi, hp⟩

include howners

/-- What is no payload counts its targets from itself. -/
theorem base_eq_self {k : Nat} {j : Instruction Int32} (hj : m.instructions[k]? = some j)
    (hno : j.isPayload = false) : Outline.base owners.of? k = k := by
  unfold Outline.base
  cases hof : owners.of? k with
  | none => rfl
  | some switch =>
    obtain ⟨p, hp⟩ := ((howners k switch).1 hof).isPayload
    obtain ⟨j', hj', hshape⟩ := Code.getElem?_of_shape_eq (shape_of_spells ho hspells) hp
    obtain rfl := Option.some.inj (hj.symm.trans hj')
    obtain ⟨q, rfl, -⟩ := Instruction.eq_data_of_shape_eq hshape
    simp [Instruction.isPayload] at hno

/-- A draft and its method agree on which switch reaches which table. -/
theorem reaches_iff_of_owners {switch table : Nat} :
    m.Reaches switch table ↔ d.listing.Reaches switch table := by
  refine (hspells.reaches_iff fun k i p hi hp => ?_).trans (reaches_iff_of_outline ho).symm
  obtain ⟨j, hj, hshape⟩ := Code.getElem?_of_shape_eq hspells.shape hi
  obtain ⟨t, ht⟩ := Instruction.exists_switchTarget?_of_shape_eq hshape hp
  exact base_eq_self ho hspells howners hj (Instruction.isPayload_of_switchTarget? ht)

end

/-- The method that a legal draft spells out is well-formed. -/
theorem Sound.wellFormed_of_legal (hd : d.Sound) (hlegal : d.Legal) (ho : d.outline = .ok o)
    (hm : o.toMethod (d.owners?.getD []).of? = .ok m) (hsize : m.units < 2 ^ 63) :
    m.WellFormed := by
  obtain ⟨owners, hsome, howners⟩ := hlegal.owners
  rw [hsome, Option.getD_some] at hm
  have hwf := hd.wellFormed_outline ho
  obtain ⟨⟨hspells, hfits⟩, hcode, -, htries, hitems⟩ :=
    (Outline.toMethod_eq_ok_iff hwf.targets).1 hm
  have haddress := Code.address_eq_of_shape_eq (shape_of_spells ho hspells)
  have hreaches : ∀ {switch table}, m.Reaches switch table ↔ d.listing.Reaches switch table :=
    reaches_iff_of_owners ho hspells howners
  refine
    { valid := fun j hj => ?valid
      fits := hfits
      branches := fun k j hj hno => ?branches
      tables := fun switch k j hr hj => ?tables
      aligned := fun k q hj => ?aligned
      bound := fun k j hj hswitch => ?bound
      owned := fun k q hj htable => ?owned
      tries := ?tries
      distinct := ?distinct
      items := fun item hitem => ?items
      sorted := ?sorted }
  case valid =>
    obtain ⟨k, hk, rfl⟩ := List.mem_iff_getElem.1 hj
    obtain ⟨i, hi, hij⟩ := exists_instruction?_of_spells ho hspells (List.getElem?_eq_getElem hk)
    rw [← Instruction.valid_shape_iff, ← hij, Instruction.valid_shape_iff]
    refine hd.listing.valid i (List.mem_of_getElem? (i := k) ?_)
    rw [Listing.getElem?_instructions]
    exact hi
  case branches =>
    exact boundary_of_spells hspells hj (base_eq_self ho hspells howners hj hno)
  case tables =>
    refine boundary_of_spells hspells hj ?_
    rw [Outline.base, (howners k switch).2 (hreaches.1 hr), Option.getD_some]
  case aligned =>
    obtain ⟨p, hp, -⟩ := exists_data_of_spells ho hspells hj
    rw [haddress]
    exact hlegal.aligned k p hp
  case bound =>
    obtain ⟨i, hi, hij⟩ := exists_instruction?_of_spells ho hspells hj
    rw [← Instruction.opcode_shape, ← hij, Instruction.opcode_shape] at hswitch
    obtain ⟨table, hr⟩ := hlegal.bound k i hi hswitch
    exact ⟨table, hreaches.2 hr⟩
  case owned =>
    obtain ⟨p, hp, hpq⟩ := exists_data_of_spells ho hspells hj
    rw [← Payload.isSwitchTable_shape, ← hpq, Payload.isSwitchTable_shape] at htable
    simpa only [hreaches] using hlegal.owned k p hp htable
  case tries =>
    rw [htries, Outline.emitTries_ofList]
    refine TryBlock.wellFormed_foldr fun entry hentry a ha => ?_
    obtain ⟨entry', hentry', rfl⟩ := List.mem_map.1 hentry
    obtain ⟨p, hp, rfl⟩ : ∃ p ∈ entry'.places, Code.address o.instructions p = a := by
      simpa [TryEntry.places, TryEntry.placed, eq_comm] using ha
    exact boundary_of_le hspells hcode hsize
      (hwf.places p (Outline.mem_places_iff.2 (Or.inr ⟨entry', hentry', hp⟩)))
  case distinct =>
    rw [htries, Outline.emitTries_ofList]
    exact TryBlock.isChain_foldr _
  case items =>
    rw [hitems] at hitem
    obtain ⟨e, he, rfl⟩ := List.mem_map.1 hitem
    obtain ⟨hlt, hplace⟩ := boundary_of_le hspells hcode hsize (hwf.items e he)
    rw [UInt64.toNat_ofNat_of_lt' hlt]
    exact hplace
  case sorted =>
    rw [hitems, List.pairwise_map]
    have hsorted := d.listing.pairwise_debugItems
    rw [← (outline_eq_ok_iff.1 ho).2.2.1] at hsorted
    refine hsorted.imp_of_mem fun {e e'} he he' hle => ?_
    have hlt := (boundary_of_le hspells hcode hsize (hwf.items e he)).1
    have hlt' := (boundary_of_le hspells hcode hsize (hwf.items e' he')).1
    rw [UInt64.le_iff_toNat_le, UInt64.toNat_ofNat_of_lt' hlt, UInt64.toNat_ofNat_of_lt' hlt']
    exact Code.address_mono _ hle

/-- The method of a sound draft is well-formed, and its instructions are laid out one behind the
other. -/
theorem Sound.wellFormed_of_toMethod (hd : d.Sound) (hok : toMethod d = .ok m d')
    (hsize : m.units < 2 ^ 63) : m.WellFormed ∧ m.code = .ofList m.instructions := by
  obtain ⟨hrelaxed, o, ho, hm⟩ := toMethod_eq_ok_iff.1 hok
  obtain ⟨hd', hclean⟩ := hd.relaxed hrelaxed
  refine ⟨hd'.wellFormed_of_legal (hd'.legal hclean) ho hm hsize, ?_⟩
  exact ((Outline.toMethod_eq_ok_iff (hd'.wellFormed_outline ho).targets).1 hm).2.1

/-- A loop with a switch, whose table is in need of alignment, a handler and a line. -/
def loop : Draft :=
  (new 0 2).run
    [.labelAt 0, .append .nop, .labelAt 1, .append (.data (.packed 7 [⟨0, 0⟩])),
      .insert 1 (.op .packedSwitch (.f31t 0 ⟨0, 1⟩)), .insert 2 (.goto .byte ⟨0, 0⟩),
      .addTry ⟨⟨0, 0⟩, ⟨0, 1⟩, none, ⟨0, 1⟩⟩, .addDebugItem 2 (.line 5)]

/-- The method of the loop, in which a `nop` has been added. -/
def loopMethod : Method :=
  .ofInstructions 2
    [.nop, .op .packedSwitch (.f31t 0 5), .goto .byte (-4), .nop, .data (.packed 7 [-1])]
    [⟨0, 6, [⟨none, 6⟩]⟩] [(4, .line 5)]

theorem toMethod_loop : ∃ d, toMethod loop = .ok loopMethod d := by
  have hcheck : (match toMethod loop with
      | .ok m _ => decide (m = loopMethod)
      | .error _ _ => false) = true := by decide +kernel
  split at hcheck
  · next m d hok => exact ⟨d, by rw [hok, of_decide_eq_true hcheck]⟩
  · cases hcheck

theorem reachable_loop : loop.Reachable := (Reachable.new 0 2).run _

end Draft

end Dalvik
