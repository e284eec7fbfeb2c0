import Dalvik.Proofs.Store.Relaxing
import Dalvik.Proofs.Draft.Outline
import Dalvik.Store.Read

/-!
# Reading a store

Whatever is read out of a store is read out of the draft that it refines: the store is relaxed like
the draft, and then the cells say what is computed from the listing.
-/

namespace Dalvik

/-- The points with their positions. -/
theorem Listing.zipIdx_points (l : Listing) :
    l.points.zipIdx = (List.range (l.size + 1)).map fun k => (l.point k, k) := by
  refine List.ext_getElem? fun k => ?_
  rw [List.getElem?_zipIdx, List.getElem?_map, Nat.zero_add]
  rcases Nat.lt_or_ge l.size k with hlt | hle
  · rw [List.getElem?_eq_none (by rw [length_points]; exact hlt),
      List.getElem?_eq_none (by rw [List.length_range]; exact hlt)]
    rfl
  · rw [getElem?_points l hle, List.getElem?_range (Nat.lt_succ_of_le hle)]
    rfl

theorem Listing.getD_addresses (l : Listing) {k : Nat} (hk : k ≤ l.size) :
    l.addresses.getD k 0 = Code.address l.instructions k := by
  rw [Array.getD_eq_getD_getElem?, l.getElem?_addresses hk]
  rfl

namespace Store

variable {α : Type} {s s' : Store} {d : Draft} {l : Listing} {k : Nat} {label : Label}

/-! ### What the cells say -/

namespace Tracks

theorem debugItems_eq (h : s.Tracks l) :
    s.cells.flatMap (fun cell => cell.point.items.toList.map (cell.index, ·)) = l.debugItems := by
  rw [h.cells_eq, Listing.debugItems, l.zipIdx_points, List.flatMap_map, List.flatMap_map]
  rfl

theorem addressedDebugItems_eq (h : s.Tracks d.listing) :
    s.addressedDebugItems = d.addressedDebugItems := by
  rw [addressedDebugItems, Draft.addressedDebugItems, h.cells_eq, Listing.debugItems,
    d.listing.zipIdx_points, List.flatMap_map, List.flatMap_map, List.map_flatMap]
  refine List.flatMap_congr fun k hk => ?_
  have hle : k ≤ d.listing.size := Nat.le_of_lt_succ (List.mem_range.1 hk)
  simp only [Listing.cell, List.map_map, Function.comp_def, d.listing.getD_addresses hle]

theorem locations_eq (h : s.Tracks d.listing) : s.locations = d.locations := by
  rw [locations, Draft.locations, h.cells_eq, d.listing.zipIdx_points, List.map_map, List.map_map]
  refine List.map_congr_left fun k hk => ?_
  have hle : k ≤ d.listing.size := Nat.le_of_lt_succ (List.mem_range.1 hk)
  simp only [Function.comp_apply, Listing.cell, d.listing.getD_addresses hle, Draft.instruction?]

end Tracks

namespace Refines

theorem labelIndex_eq (h : s.Refines d) : s.labelIndex = d.locate := by
  funext label
  rw [labelIndex, h.cellOf_eq]
  cases d.locate label <;> rfl

theorem outline_eq (h : s.Refines d) : s.outline = d.outline := by
  rw [outline, Draft.outline, h.labelIndex_eq, h.tracks.instructions_eq, h.tries, h.registers,
    h.tracks.debugItems_eq]
  rfl

/-- In a relaxed store the switch of a table is the one that owns it. -/
theorem switchIndex?_eq (h : s.Refines d) {owners : Owners} (howners : d.owners? = some owners) :
    s.switchIndex? = owners.of? := by
  have hreferrals := h.owners owners howners
  funext table
  cases ht : s.order[table]? with
  | none =>
    have hfree : owners.of? table = none := by
      rw [Owners.of?_eq_none_iff, List.mem_map]
      rintro ⟨o, ho, rfl⟩
      obtain ⟨r, -, hro⟩ := forall₂_exists_left hreferrals ho
      rw [hro.1] at ht
      cases ht
    rw [switchIndex?, switchOf?, ht, hfree]
    rfl
  | some t =>
    have hswitch : s.switchOf? table = (owners.of? table).bind (s.order[·]?) := by
      rw [← Referrals.switchOf?_eq h.tracks.exact.nodup hreferrals ht, switchOf?, ht]
      rfl
    rw [switchIndex?, hswitch]
    cases hof : owners.of? table with
    | none => rfl
    | some switch =>
      obtain ⟨o, ho, rfl⟩ := Option.map_eq_some_iff.1 hof
      obtain ⟨r, -, hro⟩ := forall₂_exists_left hreferrals (List.mem_of_find?_eq_some ho)
      have hle : o.switch ≤ d.listing.size := by
        have hlt := (Array.getElem?_eq_some_iff.1 hro.2).1
        rw [h.tracks.size_order] at hlt
        exact Nat.le_of_lt_succ hlt
      have hcell := h.tracks.cell?_eq hle
      rw [cell?, hro.2] at hcell
      rw [Option.bind_some, hro.2, Option.map_some, Option.some.inj hcell]
      rfl

end Refines

/-! ### Reading -/

/-- Relaxing first, and then doing something with what is relaxed. -/
theorem agree_relax_bind {f : StoreM α} {g : DraftM α} (h : s.Refines d) (hd : d.Sound)
    (hrest : ∀ s' d', s'.Refines d' → d'.needsRelaxation = false → Agree Refines (f s') (g d')) :
    Agree Refines ((do relax; f) s) ((do Draft.relax; g) d) := by
  have hrelax := agree_relax h hd
  generalize hx : relax s = r at hrelax
  generalize hy : Draft.relax d = t at hrelax
  cases hrelax with
  | ok _ h' =>
    have hclean := (hd.relaxed (Draft.relax_eq_ok_iff.1 hy)).2
    rw [run_bind_of_ok hx, run_bind_of_ok hy]
    exact hrest _ _ h' hclean
  | error e h' =>
    rw [run_bind_of_error hx, run_bind_of_error hy]
    exact .error e h'

/-- Relaxing first, and then looking at what is relaxed. -/
theorem agree_relax_get {f : Store → α} {g : Draft → α} (h : s.Refines d) (hd : d.Sound)
    (hfg : ∀ s' d', s'.Refines d' → f s' = g d') :
    Agree Refines ((do relax; return f (← get)) s) ((do Draft.relax; return g (← get)) d) :=
  agree_relax_bind h hd fun s' d' h' _ => by
    have hstore : (do return f (← get) : StoreM α) s' = .ok (g d') s' := by
      rw [← hfg s' d' h']
      rfl
    exact hstore ▸ .ok _ h'

theorem agree_readInstructions (h : s.Refines d) (hd : d.Sound) :
    Agree Refines (readInstructions s) (Draft.readInstructions d) :=
  agree_relax_get h hd fun _ _ h' => h'.tracks.instructions_eq

theorem agree_readLocations (h : s.Refines d) (hd : d.Sound) :
    Agree Refines (readLocations s) (Draft.readLocations d) :=
  agree_relax_get h hd fun _ _ h' => h'.tracks.locations_eq

theorem agree_readTries (h : s.Refines d) (hd : d.Sound) :
    Agree Refines (readTries s) (Draft.readTries d) :=
  agree_relax_get h hd fun _ _ h' => congrArg Array.toList h'.tries

theorem agree_readDebugItems (h : s.Refines d) (hd : d.Sound) :
    Agree Refines (readDebugItems s) (Draft.readDebugItems d) :=
  agree_relax_get h hd fun _ _ h' => h'.tracks.addressedDebugItems_eq

theorem agree_readAddress (h : s.Refines d) (hd : d.Sound) (label : Label) :
    Agree Refines (readAddress label s) (Draft.readAddress label d) :=
  agree_relax_bind h hd fun s' d' h' _ => by
    rw [run_get_bind, run_get_bind, h'.cellOf_eq]
    cases hlocate : d'.locate label with
    | error e => exact .error e h'
    | ok k =>
      obtain ⟨hdraft, hk⟩ := Draft.locate_eq_ok_iff.1 hlocate
      have haddress := d'.listing.getD_addresses (h'.coherent.locate?_le_size hdraft hk)
      have hdraft : (do
          let index ← Draft.require (.ok k)
          return d'.listing.addresses.getD index 0 : DraftM Nat) d' =
          .ok (Code.address d'.listing.instructions k) d' := by rw [← haddress]; rfl
      exact hdraft ▸ .ok _ h'

theorem agree_toMethod (h : s.Refines d) (hd : d.Sound) :
    Agree Refines (toMethod s) (Draft.toMethod d) :=
  agree_relax_bind h hd fun s' d' h' hclean => by
    obtain ⟨owners, howners⟩ : ∃ owners, d'.owners? = some owners := by
      rwa [Draft.needsRelaxation, Option.isNone_eq_false_iff, Option.isSome_iff_exists] at hclean
    rw [run_get_bind, run_get_bind, h'.switchIndex?_eq howners, howners]
    exact agree_require_bind h'.outline_eq h' fun outline _ => agree_require h'

end Store

end Dalvik
