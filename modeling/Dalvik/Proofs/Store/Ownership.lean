import Dalvik.Proofs.Method.Ownership
import Dalvik.Proofs.Store.Exporting
import Dalvik.Proofs.Store.Idempotence
import Dalvik.Proofs.Store.Importing

/-!
# One switch for one table

When a method is imported, the targets of a table are counted from the switch that is found by going
back from the table; when a store is relaxed, the table is bound to the switch that reaches it.  These
are the same switches, and relaxation does not exchange them, so that a table counts from the same switch
when it is written down again (`Store.switchAddress?_of_bindTables`).
-/

namespace Dalvik

namespace Store

variable {s s' b : Store} {d : Draft} {m : Method} {o : Outline} {table : Nat}

/-- The cell of the switch from which the targets of the table at a position are counted. -/
def base? (s : Store) (table : Nat) : Option Handle := (s.switchIndex? table).bind (s.order[·]?)

/-- It is the one that is referred to. -/
theorem Refines.base?_eq (h : s.Refines d) (table : Nat) : s.base? table = s.switchOf? table := by
  unfold base? switchIndex?
  cases hswitch : s.switchOf? table with
  | none => rfl
  | some g =>
    obtain ⟨t, -, hof⟩ := Option.bind_eq_some_iff.1 hswitch
    obtain ⟨r, hr, rfl⟩ := Option.map_eq_some_iff.1 hof
    have hlive := (h.live r (List.mem_of_find?_eq_some hr)).2
    obtain ⟨k, hk⟩ := List.mem_iff_getElem?.1 hlive
    rw [Array.getElem?_toList] at hk
    -- the cell knows where it stands
    have hle : k ≤ d.listing.size := by
      have hlt := (Array.getElem?_eq_some_iff.1 hk).1
      rw [h.tracks.size_order] at hlt
      exact Nat.le_of_lt_succ hlt
    have hcell := h.tracks.cell?_eq hle
    rw [cell?, hk] at hcell
    have hindex : (s.arena.get r.switch).index = k := by
      rw [Option.some.inj hcell]
      rfl
    rw [Option.map_some, Option.bind_some, hindex, hk]

/-- With the same referrals, what is in the same cell counts from the same cell. -/
theorem Refines.base?_congr {d' : Draft} (h : s.Refines d) (h' : s'.Refines d')
    (hsame : s'.referrals = s.referrals) {table' : Nat}
    (hcell : s'.order[table']? = s.order[table]?) : s'.base? table' = s.base? table := by
  rw [h.base?_eq, h'.base?_eq, switchOf?, switchOf?, hcell, hsame]

/-- What binding the switches of a store comes to, and what relaxation then makes of it. -/
theorem Refines.exists_owners_of_bindTables (h : s.Refines d) (hd : d.Sound)
    (howners? : d.owners? = none) (hb : bindTables s = .ok ⟨⟩ b) :
    ∃ owners, Bound.Linked ⟨d.listing, owners⟩ ∧ b.switchIndex? = owners.of? ∧ b.Refines d ∧
      ∃ r d', relax s = .ok ⟨⟩ r ∧ r.Refines d' ∧ r.referrals = b.referrals := by
  have hdirty := h.dirty_eq_true_iff.2 howners?
  have hplaced : s.checkPlaced = .ok () := by
    obtain ⟨hinstructions, htries⟩ := hd.placed
    rw [h.checkPlaced_eq, hinstructions]
    exact htries
  obtain ⟨owners, hfind, h₁, hfollows, hbound⟩ := h.exists_follows_of_bindTables hd howners? hb
  obtain ⟨r, hsettle, hsettled, hreferrals⟩ := hfollows.exists_settle hbound
  refine ⟨owners, hbound.linked, hfollows.relaxed.switchIndex?_eq rfl, h₁, { r with dirty := false }, _,
    ?_, hsettled.relaxed, hreferrals⟩
  exact (relax_eq_ok_iff hdirty).2 ⟨hplaced, b, r, hb, hsettle, rfl⟩

/-- Nothing is left to bind or to relax where there are no instructions. -/
theorem exists_owners_ofOutline {id : Nat} (ho : o.WellFormed)
    (hb : bindTables (ofOutline id o) = .ok ⟨⟩ b) :
    ∃ owners, Bound.Linked ⟨(Draft.ofOutline id o).listing, owners⟩ ∧ b.switchIndex? = owners.of? ∧
      b.Refines (Draft.ofOutline id o) ∧
        ∃ r d', relax (ofOutline id o) = .ok ⟨⟩ r ∧ r.Refines d' ∧ r.referrals = b.referrals := by
  have hrefines := refines_ofOutline id ho
  by_cases hempty : o.instructions.isEmpty = true
  · have howners : (Draft.ofOutline id o).owners? = some [] := if_pos hempty
    have hnone : (Draft.ofOutline id o).listing.instructions = [] := by
      refine List.eq_nil_of_length_eq_zero ?_
      rw [Listing.length_instructions, Draft.size_ofOutline id ho, List.isEmpty_iff.1 hempty,
        List.length_nil]
    have hsize : (ofOutline id o).size = 0 := by
      rw [hrefines.tracks.size_eq, ← Listing.length_instructions, hnone, List.length_nil]
    have hreferrals : (ofOutline id o).referrals = [] :=
      List.forall₂_nil_right_iff.1 (hrefines.owners [] howners)
    have hsame : b = ofOutline id o := by
      have hrun : bindTables (ofOutline id o) = (List.range (ofOutline id o).size).forM bindSwitch
          { ofOutline id o with referrals := [] } := rfl
      rw [hrun, hsize, ← hreferrals] at hb
      cases hb
      rfl
    have hclean := hrefines.dirty_eq_false_iff.2 ⟨[], howners⟩
    refine ⟨[], ⟨fun owner h => absurd h List.not_mem_nil, fun k i label hi => ?_, List.nodup_nil⟩,
      hsame ▸ hrefines.switchIndex?_eq howners, hsame ▸ hrefines, ofOutline id o, _, ?_, hrefines,
      by rw [hsame]⟩
    · change (Draft.ofOutline id o).listing.instructions[k]? = some i at hi
      rw [hnone] at hi
      cases hi
    · rw [relax, run_get_bind, hclean]
      rfl
  · exact hrefines.exists_owners_of_bindTables (Draft.sound_ofOutline ho) (if_neg hempty) hb

section

variable (id : Nat) (hcode : m.code = .ofList m.instructions) (ho : m.outline = .ok o)

include hcode ho

/-- The imported instructions are those of the method, but for the targets. -/
theorem shape_of_outline : (ofOutline id o).instructions.map Instruction.shape =
    m.instructions.map Instruction.shape := by
  have hwf := Method.wellFormed_of_outline ho
  obtain ⟨hlength, hspelled⟩ := Method.spelled_of_outline hcode ho
  have hlength' : (ofOutline id o).instructions.length = m.instructions.length := by
    rw [(refines_ofOutline id hwf).tracks.instructions_eq, Listing.length_instructions,
      Draft.size_ofOutline id hwf, hlength]
  rw [← List.forall₂_eq_eq_eq, List.forall₂_map_left_iff, List.forall₂_map_right_iff]
  refine forall₂_iff_getElem?.2 ⟨hlength', fun k j i hj hi => ?_⟩
  exact (spelled_labels hwf (fun n hn => hspelled k i n hi hn) hj).1

/-- A switch of the method points at the position where the label of the imported switch stands. -/
theorem pointsAt_iff_of_outline (switch p : Nat) : m.PointsAt switch p ↔
    ∃ j ∈ (ofOutline id o).instructions[switch]?, ∃ label ∈ j.switchTarget?,
      ((ofOutline id o).labelIndex label).toOption = some p := by
  have hwf := Method.wellFormed_of_outline ho
  have hrefines := refines_ofOutline id hwf
  obtain ⟨-, hspelled⟩ := Method.spelled_of_outline hcode ho
  have hpoints : ∀ i j, m.instructions[switch]? = some i →
      (ofOutline id o).instructions[switch]? = some j → (m.PointsAt switch p ↔
        ∃ label ∈ j.switchTarget?, ((ofOutline id o).labelIndex label).toOption = some p) := by
    intro i j hi hj
    have hvalid : j.Valid := by
      rw [hrefines.tracks.instructions_eq] at hj
      exact (Draft.sound_ofOutline hwf).listing.valid j (List.mem_of_getElem? hj)
    obtain ⟨hshape, htargets⟩ := spelled_labels hwf (fun n hn => hspelled switch i n hi hn) hj
    refine Method.Spelled.pointsAt_iff ⟨hshape, htargets.imp fun offset label => ?_⟩ hi hvalid
    rintro ⟨a, hleads, q, hcovers, hq⟩
    exact ⟨a, hleads, q, hcovers, by rw [hq]; rfl⟩
  have hshape := shape_of_outline id hcode ho
  constructor
  · intro h
    have hpoint := h
    obtain ⟨i, -, hi, -⟩ := hpoint
    obtain ⟨j, hj, -⟩ := Code.getElem?_of_shape_eq hshape hi
    exact ⟨j, hj, (hpoints i j hi hj).1 h⟩
  · rintro ⟨j, hj, hlabel⟩
    obtain ⟨i, hi, -⟩ := Code.getElem?_of_shape_eq hshape.symm hj
    exact (hpoints i j hi hj).2 hlabel

end

/-- Importing and binding agree on the switch of every table: the address from which its targets are
counted when a method is imported is that of the switch to which binding refers the table.  Wherever
relaxation moves the two, the targets are still counted from the cell of that switch. -/
theorem switchAddress?_of_bindTables {registers : UInt16} {code : List (Instruction Int32)}
    {tries : List TryBlock} {items : List (UInt64 × DebugItem)} {id : Nat}
    (hs : ofMethod id (.ofInstructions registers code tries items) = .ok s)
    (hb : bindTables s = .ok ⟨⟩ b) :
    b.instructions.map Instruction.shape = code.map Instruction.shape ∧
      (∀ table payload, code[table]? = some (.data payload) →
        (Method.ofInstructions registers code tries items).switchAddress?
            ((Method.ofInstructions registers code tries items).switchTargets (.ofInstructions code))
            table =
          (b.switchIndex? table).map (Code.address code)) ∧
      ∃ r, relax s = .ok ⟨⟩ r ∧ ∀ table table', r.order[table']? = b.order[table]? →
        r.base? table' = b.base? table := by
  have hcode : (Method.ofInstructions registers code tries items).code =
      .ofList (Method.ofInstructions registers code tries items).instructions := by
    rw [Method.instructions_ofInstructions]
    rfl
  obtain ⟨o, ho, hstore⟩ := bind_eq_ok_iff.1 hs
  obtain rfl := pure_eq_ok_iff.1 hstore
  have hwf := Method.wellFormed_of_outline ho
  have hrefines := refines_ofOutline id hwf
  have hshape := shape_of_outline id hcode ho
  rw [Method.instructions_ofInstructions] at hshape
  have hsame := sameButReferrals_bindTables hb
  have hinstructions : b.instructions = (ofOutline id o).instructions := by rw [hsame]; rfl
  obtain ⟨owners, hlinked, hswitch, hbound, r, d', hrelax, hrelaxed, hreferrals⟩ :=
    exists_owners_ofOutline hwf hb
  refine ⟨by rw [hinstructions, hshape], fun table payload htable => ?_, r, hrelax,
    fun table table' hcell => hbound.base?_congr hrelaxed hreferrals hcell⟩
  have hcoverage : Coverage.ofInstructions code =
      (Method.ofInstructions registers code tries items).coverage := by
    rw [Method.coverage, Method.instructions_ofInstructions]
  rw [← Method.instructions_ofInstructions registers code tries items] at htable
  have hfinds : ∀ switch, (Method.ofInstructions registers code tries items).Finds table switch ↔
      owners.of? table = some switch := by
    intro switch
    rw [hlinked.of?_eq_some_iff, ← hrefines.reaches_iff]
    refine Method.finds_iff_reaches (pointsAt_iff_of_outline id hcode ho) (shape_of_outline id hcode ho)
      (fun switch j hj label hlabel => ?_) (fun table switch switch' h h' => ?_) htable
    · rw [hrefines.tracks.instructions_eq] at hj
      obtain ⟨owner, hmem, rfl⟩ := hlinked.covers switch j label hj hlabel
      exact ⟨owner.table, hrefines.reaches_iff.2 (hlinked.reaches owner hmem)⟩
    · exact hlinked.switch_unique (hrefines.reaches_iff.1 h) (hrefines.reaches_iff.1 h')
  refine Option.ext fun a => ?_
  rw [hcoverage, Method.switchAddress?_eq_some_iff hcode, hswitch, Option.map_eq_some_iff,
    Method.instructions_ofInstructions]
  exact exists_congr fun switch => and_congr_left' (hfinds switch)

/-- The table of the jumble that is behind a `nop` counts from the switch at address 2, the other one
belongs to no switch. -/
theorem switchAddress?_of_bindTables_jumble :
    ∃ s b, ofMethod 0 jumble = .ok s ∧ bindTables s = .ok ⟨⟩ b ∧
      (b.switchIndex? 3).map (Code.address jumble.instructions) = some 2 ∧
      (b.switchIndex? 4).map (Code.address jumble.instructions) = none ∧
      ∃ r, relax s = .ok ⟨⟩ r ∧ ∀ table table', r.order[table']? = b.order[table]? →
        r.base? table' = b.base? table := by
  have hcheck : (match ofMethod 0 jumble with
      | .ok s => (match bindTables s with
        | .ok _ _ => true
        | .error _ _ => false)
      | .error _ => false) = true := by decide +kernel
  split at hcheck
  · next s hs =>
    split at hcheck
    · next b hb =>
      obtain ⟨-, haddress, hrelax⟩ := switchAddress?_of_bindTables hs hb
      have hthird := haddress 3 (.packed 0 [100, -2]) rfl
      have hfourth := haddress 4 (.sparse [⟨1, -7⟩]) rfl
      refine ⟨s, b, hs, hb, ?_, ?_, hrelax⟩
      · exact hthird.symm.trans (by decide +kernel)
      · exact hfourth.symm.trans (by decide +kernel)
    · cases hcheck
  · cases hcheck

end Store

end Dalvik
