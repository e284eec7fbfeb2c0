import Dalvik.Proofs.Outline.Covering
import Dalvik.Proofs.Store.Ownership

/-!
# Looking up addresses

There are three ways to find the instruction at an address: the table that is made for importing, the
search in the layout of a finished method, and the search in the cells of a store.  They find the same
instruction (`Store.lookups_agree`).
-/

namespace Dalvik

namespace Code

/-- Code of the same shape covers the same addresses. -/
theorem covers_iff_of_shape_eq {τ σ : Type} {code : List (Instruction τ)}
    {code' : List (Instruction σ)} (h : code'.map Instruction.shape = code.map Instruction.shape)
    {a : Int} {k : Nat} : Covers code' a k ↔ Covers code a k := by
  rw [Covers, Covers, length_eq_of_shape_eq h, address_eq_of_shape_eq h, address_eq_of_shape_eq h]

/-- The table of positions and the layout say the same about an address. -/
structure LookupsAgree (code : List (Instruction Int32)) (a : Nat) : Prop where
  /-- The table gives an instruction if it starts at the address or the address is within it. -/
  instruction : ∀ k, (Coverage.ofInstructions code).position a = .ok k ∧ k < code.length ↔
    (∃ i, (Layout.ofList code).locate a = .start k i) ∨ (Layout.ofList code).locate a = .inside k
  /-- The table gives the end if the address is past the layout. -/
  past : (Coverage.ofInstructions code).position a = .ok code.length ↔
    (Layout.ofList code).locate a = .past
  /-- It is past the layout if it is at its width or behind. -/
  past_iff : (Layout.ofList code).locate a = .past ↔ (Layout.ofList code).width ≤ a

theorem lookupsAgree (code : List (Instruction Int32)) (a : Nat) : LookupsAgree code a where
  instruction k := by rw [Coverage.position_eq_ok_iff, and_comm, covers_iff_locate]
  past := by rw [Coverage.position_eq_ok_iff, covers_length_iff_locate]
  past_iff := by
    rw [Layout.locate_eq_past_iff fun i _ => i.units_pos, Layout.width_ofList]

end Code

namespace Store

variable {s : Store} {d : Draft} {a : UInt64} {k : Nat}

/-- What it comes to if a label is asked for at an address. -/
structure Finds (s : Store) (a : UInt64) : Prop where
  /-- Behind the end there is none. -/
  past : s.units < a.toNat →
    labelAtAddress a s = .error (.addressOutOfBounds a.toInt64.toInt s.units) s
  /-- Elsewhere one instruction covers the address, or the end does, and there the label stands. -/
  covered : a.toNat ≤ s.units → ∃ label s' k, labelAtAddress a s = .ok label s' ∧
    s'.labelIndex label = .ok k ∧ s'.instructions = s.instructions ∧
      Code.Covers s.instructions a.toNat k ∧
        (∀ k', Code.Covers s.instructions a.toNat k' → k' = k) ∧ (k = s.size ↔ a.toNat = s.units)

/-- The size of a store is the address of its end. -/
theorem Refines.units_eq (h : s.Refines d) : s.units = Code.address s.instructions s.size := by
  rw [h.tracks.units_eq, Listing.units_eq, h.tracks.instructions_eq, h.tracks.size_eq]

/-- A label that is issued for a position stands there. -/
theorem Refines.labelIndex_issueLabelAt (h : s.Refines d) (hk : k ≤ d.listing.size) :
    (s.issueLabelAt k).2.labelIndex (s.issueLabelAt k).1 = .ok k ∧
      (s.issueLabelAt k).2.instructions = s.instructions := by
  obtain ⟨hlabel, hrefines⟩ := h.issueLabelAt hk
  refine ⟨?_, ?_⟩
  · rw [hrefines.labelIndex_eq, hlabel]
    refine Draft.locate_eq_ok_iff.2 ⟨rfl, ?_⟩
    exact h.coherent.issue.locate?_mark_self hk (d.listing.issued_nextLabel d.id)
      h.coherent.nextLabel_notMem
  · rw [hrefines.tracks.instructions_eq, h.tracks.instructions_eq, Listing.instructions_mark,
      Listing.instructions_issue]

/-- The position that is found covers the address. -/
theorem Refines.covers_covering (h : s.Refines d) (a : Nat) :
    Code.Covers s.instructions a (s.covering a) := by
  obtain ⟨n, hn, hcovering, hstart, hstop⟩ := covering_spec d.listing.instructions 0 a
  rw [h.tracks.covering_eq, hcovering, Nat.zero_add, h.tracks.instructions_eq]
  exact ⟨hn, Int.ofNat_le.2 hstart, fun hlt => Int.ofNat_lt.2 (hstop hlt)⟩

theorem Refines.length_instructions (h : s.Refines d) : s.instructions.length = s.size := by
  rw [h.tracks.instructions_eq, Listing.length_instructions, h.tracks.size_eq]

/-- A label for an address up to the end is given out, and it stands at the position that covers the
address. -/
theorem Refines.labelAtAddress_eq (h : s.Refines d) (ha : a.toNat ≤ s.units) :
    ∃ label s', labelAtAddress a s = .ok label s' ∧
      s'.labelIndex label = .ok (s.covering a.toNat) ∧ s'.instructions = s.instructions := by
  have hle : s.covering a.toNat ≤ d.listing.size := by
    have hcovers := (h.covers_covering a.toNat).1
    rwa [h.length_instructions, h.tracks.size_eq] at hcovers
  obtain ⟨hindex, hinstructions⟩ := h.labelIndex_issueLabelAt hle
  refine ⟨_, _, ?_, hindex, hinstructions⟩
  rw [labelAtAddress, run_get_bind, if_neg (Nat.not_lt.2 ha)]
  rfl

theorem Refines.finds (h : s.Refines d) (a : UInt64) : s.Finds a where
  past ha := by
    rw [labelAtAddress, run_get_bind, if_pos ha]
    rfl
  covered ha := by
    obtain ⟨label, s', hlabel, hindex, hinstructions⟩ := h.labelAtAddress_eq ha
    have hcovers := h.covers_covering a.toNat
    have hunits : Code.address s.instructions s.instructions.length = s.units := by
      rw [h.length_instructions, h.units_eq]
    have hend := hcovers.eq_length_iff (by rw [hunits]; exact Int.ofNat_le.2 ha)
    rw [hunits, h.length_instructions, Int.ofNat_inj] at hend
    exact ⟨label, s', _, hlabel, hindex, hinstructions, hcovers,
      fun k' hk' => hk'.unique hcovers, hend⟩

/-- In a store that has just been made of a method, labels are found where the method has them. -/
theorem labelIndex_of_ofMethod {id : Nat} {registers : UInt16} {code : List (Instruction Int32)}
    {tries : List TryBlock} {items : List (UInt64 × DebugItem)}
    (hs : ofMethod id (.ofInstructions registers code tries items) = .ok s) :
    s.units = (Layout.ofList code).width ∧
      ∀ a label s', labelAtAddress a s = .ok label s' →
        s'.labelIndex label = (Coverage.ofInstructions code).position a.toNat := by
  have hcode := Method.code_ofInstructions registers code tries items
  obtain ⟨o, ho, hstore⟩ := bind_eq_ok_iff.1 hs
  obtain rfl := pure_eq_ok_iff.1 hstore
  have hrefines := refines_ofOutline id (Method.wellFormed_of_outline ho)
  have hshape := shape_of_outline id hcode ho
  rw [Method.instructions_ofInstructions] at hshape
  have hunits : (ofOutline id o).units = (Layout.ofList code).width := by
    rw [hrefines.units_eq, ← hrefines.length_instructions, Code.length_eq_of_shape_eq hshape,
      Code.address_eq_of_shape_eq hshape]
    exact (Layout.width_ofList code).symm
  refine ⟨hunits, fun a label s' hlabel => ?_⟩
  rcases Nat.lt_or_ge (ofOutline id o).units a.toNat with hpast | hle
  · rw [(hrefines.finds a).past hpast] at hlabel
    cases hlabel
  · obtain ⟨label', s'', k, hlabel', hindex, -, hcovers, -⟩ := (hrefines.finds a).covered hle
    cases hlabel'.symm.trans hlabel
    rw [hindex, Coverage.position_eq_ok_iff.2 ((Code.covers_iff_of_shape_eq hshape).1 hcovers)]

/-- Addresses are looked up alike.  The table for importing gives the instruction that is found at the
address in the layout, and the end for all that is past it.  In a store, whatever has been done with
it, a label for an address up to its end is given out for the one instruction that covers the address,
or for the end; and right after a method has been imported, this is what the table gives. -/
theorem lookups_agree :
    (∀ (code : List (Instruction Int32)) (a : Nat), Code.LookupsAgree code a) ∧
      (∀ s : Store, s.Reachable → ∀ a, s.Finds a) ∧
      ∀ (id : Nat) (registers : UInt16) (code : List (Instruction Int32)) (tries : List TryBlock)
        (items : List (UInt64 × DebugItem)) (s : Store),
        ofMethod id (.ofInstructions registers code tries items) = .ok s →
          s.units = (Layout.ofList code).width ∧
            ∀ a label s', labelAtAddress a s = .ok label s' →
              s'.labelIndex label = (Coverage.ofInstructions code).position a.toNat := by
  refine ⟨Code.lookupsAgree, fun s hs a => ?_, fun _ _ _ _ _ _ hs => labelIndex_of_ofMethod hs⟩
  obtain ⟨d, -, hrefines⟩ := hs.exists_refines
  exact hrefines.finds a

/-- The first table of the jumble takes up the addresses from 6 to 13, and there are 21 units. -/
theorem lookups_agree_jumble :
    ∃ s, ofMethod 0 jumble = .ok s ∧ s.Reachable ∧ s.units = 21 ∧
      labelAtAddress 22 s = .error (.addressOutOfBounds 22 21) s ∧
      (∃ label s', labelAtAddress 13 s = .ok label s' ∧ s'.labelIndex label = .ok 3) ∧
      ∃ label s', labelAtAddress 21 s = .ok label s' ∧ s'.labelIndex label = .ok 6 := by
  have hcheck : (match ofMethod 0 jumble with
      | .ok _ => true
      | .error _ => false) = true := by decide +kernel
  split at hcheck
  · next s hs =>
    have hreachable : s.Reachable := .ofMethod hs
    obtain ⟨-, hfinds, himported⟩ := lookups_agree
    obtain ⟨hunits, hposition⟩ := himported _ _ _ _ _ s hs
    have hsize : s.units = 21 := hunits.trans (by decide +kernel)
    have hlabel : ∀ a : UInt64, a.toNat ≤ 21 → ∃ label s', labelAtAddress a s = .ok label s' ∧
        s'.labelIndex label = (Coverage.ofInstructions jumble.instructions).position a.toNat := by
      intro a ha
      obtain ⟨label, s', -, hok, -⟩ := (hfinds s hreachable a).covered (by omega)
      exact ⟨label, s', hok, hposition a label s' hok⟩
    refine ⟨s, hs, hreachable, hsize, ?_, hlabel 13 (by decide), hlabel 21 (by decide)⟩
    have hpast := (hfinds s hreachable 22).past (by rw [hsize]; decide)
    rwa [hsize] at hpast
  · cases hcheck

end Store

end Dalvik
