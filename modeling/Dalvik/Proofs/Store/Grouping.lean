import Dalvik.Proofs.Outline.Grouping
import Dalvik.Proofs.Store.Exporting

/-!
# Handlers in a finished method

When a reachable store is turned into a method, its handlers are taken in order, with the addresses
that their labels have once the store is relaxed, and grouped into canonical blocks, which list
every handler whose range is not empty (`Store.toMethod_grouped`).
-/

namespace Dalvik

/-- No instruction starts past the end. -/
theorem Code.address_le_address_length {τ : Type} (code : List (Instruction τ)) (k : Nat) :
    address code k ≤ address code code.length := by
  rcases Nat.le_total k code.length with hk | hk
  · exact address_mono code hk
  · exact Nat.le_of_eq (address_of_length_le hk)

/-- Relaxing leaves the handlers alone. -/
theorem Draft.tries_of_relaxed {d d' : Draft} (h : d.relaxed = .ok d') : d'.tries = d.tries := by
  cases howners : d.owners? with
  | some owners =>
    rw [relaxed, howners] at h
    cases h
    rfl
  | none =>
    rw [relaxed, howners] at h
    obtain ⟨⟨⟩, -, h⟩ := bind_eq_ok_iff.1 h
    obtain ⟨⟨⟩, -, h⟩ := bind_eq_ok_iff.1 h
    obtain ⟨owners, -, h⟩ := bind_eq_ok_iff.1 h
    cases h
    rfl

namespace Store

variable {s s' : Store} {d d' : Draft} {m : Method} {o : Outline}

/-- The address of the cell at which a label stands. -/
def addressOf (s : Store) (label : Label) : Except Error Nat := (s.cellOf label).map (·.address)

/-- The blocks of a method are the handlers of a store. -/
structure Grouped (s : Store) (m : Method) : Prop where
  /-- The labels of the handlers stand at addresses, and in order, without those whose range is
  empty, these are the handlers that the blocks list. -/
  lossless : ∃ ranges, s.tries.toList.mapM (TryEntry.mapM s.addressOf) = .ok ranges ∧
    m.tries.flatMap TryBlock.entries = (ranges.filter fun e => e.start < e.stop) ∧
      m.tries = ranges.foldl TryBlock.pushEntry []
  /-- Ranges are not empty, every block has a handler, and neighbours have different ranges. -/
  canonical : TryBlock.Canonical m.tries
  /-- No other canonical blocks list these handlers. -/
  unique : ∀ blocks, TryBlock.Canonical blocks →
    blocks.flatMap TryBlock.entries = m.tries.flatMap TryBlock.entries → blocks = m.tries
  /-- Ranges do not reach past the code. -/
  within : ∀ block ∈ m.tries, block.start.toNat + block.count.toNat ≤ m.units

namespace Refines

theorem addressOf_eq_ok (h : s.Refines d) {label : Label} {k : Nat} (hk : d.locate label = .ok k) :
    s.addressOf label = .ok (Code.address d.listing.instructions k) := by
  rw [addressOf, h.cellOf_eq, hk]
  rfl

theorem mapM_addressOf (h : s.Refines d) (ho : d.outline = .ok o) :
    s.tries.toList.mapM (TryEntry.mapM s.addressOf) =
      .ok (o.tries.map (TryEntry.placed (Code.address d.listing.instructions))) := by
  rw [mapM_eq_ok_iff, h.tries, List.forall₂_map_right_iff]
  refine (Draft.outline_eq_ok_iff.1 ho).2.1.imp fun entry entry' hentry => ?_
  obtain ⟨htype, hplaces⟩ := TryEntry.mapM_eq_ok_iff.1 hentry
  refine TryEntry.mapM_eq_ok_iff.2 ⟨htype, ?_⟩
  have hmap : (TryEntry.placed (Code.address d.listing.instructions) entry').places =
      entry'.places.map (Code.address d.listing.instructions) := rfl
  rw [hmap, List.forall₂_map_right_iff]
  exact hplaces.imp fun _ _ hk => h.addressOf_eq_ok hk

/-- What a sound draft spells out has its handlers in canonical blocks. -/
theorem grouped (h : s.Refines d) (hd : d.Sound) (ho : d.outline = .ok o)
    {owners : Owners} (hm : o.toMethod owners.of? = .ok m) (hsize : m.units < 2 ^ 64) :
    s.Grouped m := by
  obtain ⟨⟨hspells, -⟩, hcode, -, htries, -⟩ :=
    (Outline.toMethod_eq_ok_iff (hd.wellFormed_outline ho).targets).1 hm
  have hshape := Draft.shape_of_spells ho hspells
  have hle : ∀ k, Code.address d.listing.instructions k ≤ m.units := by
    intro k
    rw [Method.units_eq hcode, ← Code.address_eq_of_shape_eq hshape]
    exact Code.address_le_address_length m.instructions k
  rw [Outline.emitTries_ofList, funext (Code.address_eq_of_shape_eq (Draft.shape_of_outline ho))]
    at htries
  generalize hranges : o.tries.map (TryEntry.placed (Code.address d.listing.instructions)) = ranges
    at htries
  have hplaces : ∀ entry ∈ ranges, ∀ a ∈ entry.places, a ≤ m.units := by
    intro entry hentry a ha
    rw [← hranges] at hentry
    obtain ⟨entry', -, rfl⟩ := List.mem_map.1 hentry
    obtain ⟨k, -, rfl⟩ : ∃ k ∈ entry'.places, Code.address d.listing.instructions k = a :=
      List.mem_map.1 ha
    exact hle k
  have haddressable : ∀ entry ∈ ranges, TryBlock.Addressable entry := fun entry hentry a ha =>
    Nat.lt_of_le_of_lt (hplaces entry hentry a ha) hsize
  have hcanonical : TryBlock.Canonical m.tries := htries ▸ TryBlock.canonical_foldr haddressable
  exact
    { lossless := by
        refine ⟨ranges, ?_, ?_, ?_⟩
        · rw [h.mapM_addressOf ho, hranges]
        · rw [htries, TryBlock.flatMap_entries_foldr haddressable]
        · rw [htries, TryBlock.foldl_pushEntry_eq_foldr haddressable]
      canonical := hcanonical
      unique := fun blocks hblocks heq => hblocks.unique hcanonical heq
      within := fun block hblock => by
        rw [htries] at hblock
        have hbounded := @TryBlock.wellFormed_foldr (· ≤ m.units) ranges fun entry hentry a ha =>
          ⟨haddressable entry hentry a ha, Int.ofNat_le.2 (hplaces entry hentry a ha)⟩
        have hstop := (hbounded block hblock).stop
        omega }

end Refines

/-- When a reachable store is turned into a method, the blocks of this method are the handlers of
the relaxed store.  Addresses being machine words, the method has fewer than `2 ^ 64` units. -/
theorem toMethod_grouped (h : s.Reachable) (hok : toMethod s = .ok m s')
    (hsize : m.units < 2 ^ 64) :
    relax s = .ok ⟨⟩ s' ∧ s'.tries = s.tries ∧ s'.Grouped m := by
  obtain ⟨hrelax, o, ho, hm⟩ := toMethod_eq_ok_iff.1 hok
  obtain ⟨d, hd, hrefines⟩ := h.exists_refines
  obtain ⟨d', hd', hrefines'⟩ := (agree_relax hrefines hd.sound).exists_of_ok hrelax
  have hrelaxed := Draft.relax_eq_ok_iff.1 hd'
  obtain ⟨hsound, hclean⟩ := hd.sound.relaxed hrelaxed
  refine ⟨hrelax, ?_, ?_⟩
  · rw [hrefines'.tries, hrefines.tries, Draft.tries_of_relaxed hrelaxed]
  · obtain ⟨owners, hsome, -⟩ := (hsound.legal hclean).owners
    rw [hrefines'.outline_eq] at ho
    rw [hrefines'.switchIndex?_eq hsome] at hm
    exact hrefines'.grouped hsound ho hm hsize

/-- Two handlers of the first two instructions, whose labels were issued separately, and between
them one whose range is turned round. -/
def handled : Store :=
  (new 0 2).run
    [.append (.op .const16 (.f21s 0 7)), .append (.op .throw (.f11x 0)),
      .append (.op .returnVoid .f10x), .labelAt 0, .labelAt 2, .labelAt 0, .labelAt 2,
      .addTry ⟨⟨0, 0⟩, ⟨0, 1⟩, some 5, ⟨0, 1⟩⟩, .addTry ⟨⟨0, 1⟩, ⟨0, 0⟩, none, ⟨0, 0⟩⟩,
      .addTry ⟨⟨0, 2⟩, ⟨0, 3⟩, none, ⟨0, 3⟩⟩]

/-- The two handlers share a block. -/
theorem toMethod_grouped_handled : ∃ m s', handled.Reachable ∧ toMethod handled = .ok m s' ∧
    m.units < 2 ^ 64 ∧ relax handled = .ok ⟨⟩ s' ∧ s'.tries = handled.tries ∧ s'.Grouped m ∧
      m.tries = [⟨0, 3, [⟨some 5, 3⟩, ⟨none, 3⟩]⟩] := by
  have hreachable : handled.Reachable := (Reachable.new 0 2).run _
  have hcheck : (match toMethod handled with
      | .ok m _ => decide (m.units = 4 ∧ m.tries = [⟨0, 3, [⟨some 5, 3⟩, ⟨none, 3⟩]⟩])
      | .error _ _ => false) = true := by decide +kernel
  split at hcheck
  · next m s' hok =>
    obtain ⟨hunits, htries⟩ := of_decide_eq_true hcheck
    have hsize : m.units < 2 ^ 64 := hunits ▸ (by decide)
    obtain ⟨hrelax, hsame, hgrouped⟩ := toMethod_grouped hreachable hok hsize
    exact ⟨m, s', hreachable, hok, hsize, hrelax, hsame, hgrouped, htries⟩
  · cases hcheck

end Store

end Dalvik
