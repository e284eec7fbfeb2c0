import Dalvik.Proofs.Method.Meaning
import Dalvik.Proofs.Code.Overflow
import Dalvik.Proofs.Store.Import
import Dalvik.Proofs.Store.Reading

/-!
# What a finished method is imported as

A store that is made of a finished method says with labels what the method says with addresses: every
label stands at the position that covers the address for which it has been issued, and every debug item
is attached to the position that covers its address (`Store.ofMethod_imported`).
-/

namespace Dalvik

/-! ### Debug items that are pinned in any order -/

section Items

variable {α : Type}

/-- Elements that are put into lists one by one are found behind what was there before. -/
theorem getElem?_foldl_modify (entries : List (Nat × α)) (xs : List (List α)) (k : Nat) :
    (entries.foldl (fun xs e => xs.modify e.1 (· ++ [e.2])) xs)[k]? =
      xs[k]?.map fun x => x ++ (entries.filter (·.1 = k)).map (·.2) := by
  induction entries generalizing xs with
  | nil => simp
  | cons e rest ih =>
    rw [List.foldl_cons, ih, List.getElem?_modify, Option.map_eq_map, Option.map_map]
    by_cases hk : e.1 = k
    · rw [List.filter_cons_of_pos (by simpa using hk)]
      simp [Function.comp_def, hk]
    · rw [List.filter_cons_of_neg (by simpa using hk)]
      simp [Function.comp_def, hk]

end Items

namespace Listing

variable {l : Listing} {draft : Nat}

/-- The debug items of each position. -/
def pinned (l : Listing) : List (List DebugItem) := l.points.map (·.items.toList)

theorem pinned_mark {k : Nat} (hk : k ≤ l.size) (label : Label) :
    (l.mark k label).pinned = l.pinned := by
  unfold pinned mark
  rw [points_modifyPoint l hk]
  refine map_modify_of_eq ?_ _ _
  intro point
  rfl

theorem pinned_markAll {places : List (Nat × Nat)} (h : ∀ p ∈ places, p.1 ≤ l.size) :
    (l.markAll draft places).pinned = l.pinned := by
  induction places generalizing l with
  | nil => rfl
  | cons p rest ih =>
    obtain ⟨k, n⟩ := p
    rw [markAll_cons, ih fun p hp => by rw [size_mark]; exact h p (List.mem_cons_of_mem _ hp)]
    exact pinned_mark (h (k, n) List.mem_cons_self) _

theorem pinned_pin {k : Nat} (hk : k ≤ l.size) (item : DebugItem) :
    (l.pin k item).pinned = l.pinned.modify k (· ++ [item]) := by
  unfold pinned pin
  rw [points_modifyPoint l hk]
  refine map_modify_of_comm ?_ _ _
  intro point
  exact Attached.toList_push point.items item

theorem pinned_pinAll {items : List (Nat × DebugItem)} (h : ∀ e ∈ items, e.1 ≤ l.size) :
    (l.pinAll items).pinned =
      items.foldl (fun xs e => xs.modify e.1 (· ++ [e.2])) l.pinned := by
  induction items generalizing l with
  | nil => rfl
  | cons e rest ih =>
    obtain ⟨k, item⟩ := e
    have hk := h (k, item) List.mem_cons_self
    rw [pinAll_cons, ih fun e he => by
      rw [(sameButItems_pin hk item).size]
      exact h e (List.mem_cons_of_mem _ he), pinned_pin hk, List.foldl_cons]

end Listing

/-! ### The draft that spells out an outline -/

namespace Draft

variable {o : Outline}

/-- A position of the draft has the debug items that the outline has there, in their order. -/
theorem items_ofOutline (draft : Nat) (h : o.WellFormed) {k : Nat}
    (hk : k ≤ o.instructions.length) :
    ((ofOutline draft o).listing.point k).items.toList =
      (o.debugItems.filter (·.1 = k)).map (·.2) := by
  have hplaces : ∀ p ∈ o.places.zipIdx (Listing.nops o.instructions.length).issued,
      p.1 ≤ (Listing.nops o.instructions.length).size := by
    intro p hp
    rw [Listing.size_nops]
    exact h.places _ (List.fst_mem_of_mem_zipIdx hp)
  -- nothing is pinned before the items of the outline are
  have hmarked : ((Listing.nops o.instructions.length).issueAll draft o.places).pinned =
      List.replicate (o.instructions.length + 1) [] := by
    refine (Listing.pinned_markAll (l := { Listing.nops o.instructions.length with
      issued := (Listing.nops o.instructions.length).issued + o.places.length }) hplaces).trans ?_
    change (Listing.nops o.instructions.length).points.map _ = _
    rw [Listing.points_nops, List.map_replicate]
    rfl
  have hitems : ∀ e ∈ o.debugItems,
      e.1 ≤ ((Listing.nops o.instructions.length).issueAll draft o.places).size := by
    intro e he
    have hlength := congrArg List.length hmarked
    rw [Listing.pinned, List.length_map, Listing.length_points, List.length_replicate] at hlength
    rw [Nat.succ.inj hlength]
    exact h.items e he
  have hpinned : (ofOutline draft o).listing.pinned[k]? =
      some ((o.debugItems.filter (·.1 = k)).map (·.2)) := by
    have hpoints : (ofOutline draft o).listing.pinned =
        (((Listing.nops o.instructions.length).issueAll draft o.places).pinAll
          o.debugItems).pinned := by
      unfold Listing.pinned
      rw [Store.points_ofOutline draft h]
    rw [hpoints, Listing.pinned_pinAll hitems, hmarked, getElem?_foldl_modify,
      List.getElem?_replicate_of_lt (Nat.lt_succ_of_le hk)]
    rfl
  have hk' : k ≤ (ofOutline draft o).listing.size := (size_ofOutline draft h).symm ▸ hk
  rw [Listing.pinned, List.getElem?_map, Listing.getElem?_points _ hk'] at hpinned
  exact Option.some.inj hpinned

/-- The labels of the draft stand at the places of the outline. -/
theorem forall₂_ofOutline (draft : Nat) (h : o.WellFormed) :
    List.Forall₂ (fun i j => i.mapTargetsM (ofOutline draft o).locate = .ok j)
        (ofOutline draft o).listing.instructions o.instructions ∧
      List.Forall₂ (fun entry entry' => entry.mapM (ofOutline draft o).locate = .ok entry')
        (ofOutline draft o).tries.toList o.tries := by
  -- without debug items the outline can be read off the draft, and they do not matter for labels
  let bare : Outline := { o with debugItems := [] }
  have hbare : bare.WellFormed := ⟨h.valid, h.places, fun e he => absurd he List.not_mem_nil⟩
  have hlocate : ∀ {label : Label} {k : Nat}, (ofOutline draft bare).locate label = .ok k →
      (ofOutline draft o).locate label = .ok k := fun hk =>
    (locate_ofOutline h).2 ((locate_ofOutline hbare).1 hk)
  have houtline : (ofOutline draft bare).outline = .ok bare := outline_ofOutline hbare .nil
  obtain ⟨hinstructions, htries, -⟩ := outline_eq_ok_iff.1 houtline
  have hsame : (ofOutline draft bare).listing.instructions =
      (ofOutline draft o).listing.instructions :=
    (instructions_ofOutline draft hbare).trans (instructions_ofOutline draft h).symm
  rw [hsame] at hinstructions
  refine ⟨hinstructions.imp fun i j hij => ?_, htries.imp fun entry entry' hentry => ?_⟩
  · obtain ⟨hshape, htargets⟩ := Instruction.mapTargetsM_eq_ok_iff.1 hij
    exact Instruction.mapTargetsM_eq_ok_iff.2 ⟨hshape, htargets.imp fun _ _ => hlocate⟩
  · obtain ⟨htype, hplaces⟩ := TryEntry.mapM_eq_ok_iff.1 hentry
    exact TryEntry.mapM_eq_ok_iff.2 ⟨htype, hplaces.imp fun _ _ => hlocate⟩

end Draft

namespace Store

variable {s : Store} {m : Method} {o : Outline}

/-- The label stands at the position that covers the address. -/
def StandsFor (s : Store) (m : Method) (a : Int) (label : Label) : Prop :=
  ∃ p, Code.Covers m.instructions a p ∧ s.labelIndex label = .ok p

/-- A store says with labels what a finished method says with addresses. -/
structure Imported (s : Store) (m : Method) : Prop where
  /-- The number of registers is the same. -/
  registers : s.registers = m.registers
  /-- So is the number of instructions. -/
  size : s.size = m.instructions.length
  /-- Instructions and handlers are the same, with labels for addresses. -/
  read : m.Read (s.StandsFor m) s.instructions s.tries.toList
  /-- Every position has the debug items whose addresses it covers, in the order of the method. -/
  items : ∀ k ≤ m.instructions.length, ∃ c, s.cell? k = some c ∧ c.point.items.toList =
    (m.debugItems.filter fun e => Code.Covers m.instructions e.1.toNat k).map (·.2)

/-- Items that have been looked up one by one are found under the positions that cover their
addresses. -/
theorem filter_items_eq {code : List (Instruction Int32)} {items : List (UInt64 × DebugItem)}
    {items' : List (Nat × DebugItem)} (k : Nat)
    (h : List.Forall₂ (fun e e' => Code.Covers code e.1.toNat e'.1 ∧ e'.2 = e.2) items items') :
    (items'.filter (·.1 = k)).map (·.2) =
      (items.filter fun e => Code.Covers code e.1.toNat k).map (·.2) := by
  induction h with
  | nil => rfl
  | @cons e e' rest rest' he _ ih =>
    obtain ⟨hcovers, hsame⟩ := he
    by_cases hk : e'.1 = k
    · rw [List.filter_cons_of_pos (by simpa using hk),
        List.filter_cons_of_pos (by simpa using hk ▸ hcovers), List.map_cons, List.map_cons, ih,
        hsame]
    · have hnot : ¬ Code.Covers code e.1.toNat k := fun hcovers' => hk (hcovers.unique hcovers')
      rw [List.filter_cons_of_neg (by simpa using hk), List.filter_cons_of_neg (by simpa using hnot),
        ih]

/-- A label that stands at the place of an address stands for the address. -/
theorem standsFor_of_locate {id : Nat} (ho : o.WellFormed) {label : Label} {p : Nat}
    (hp : (Draft.ofOutline id o).locate label = .ok p) (a : Int)
    (ha : Code.Covers m.instructions a p) : (ofOutline id o).StandsFor m a label := by
  refine ⟨p, ha, ?_⟩
  rw [(refines_ofOutline id ho).labelIndex_eq, hp]

/-- The labels of instructions stand for the addresses to which the targets lead. -/
theorem spelled_labels {id : Nat} (ho : o.WellFormed) {k : Nat} {i : Instruction Int32}
    {j : Instruction Label}
    (h : ∀ n, o.instructions[k]? = some n → m.Spelled (Code.Covers m.instructions) k i n)
    (hj : (ofOutline id o).instructions[k]? = some j) :
    m.Spelled ((ofOutline id o).StandsFor m) k i j := by
  obtain ⟨hlength, hlabels⟩ := forall₂_iff_getElem?.1 (Draft.forall₂_ofOutline id ho).1
  rw [(refines_ofOutline id ho).tracks.instructions_eq] at hj
  have hk : k < o.instructions.length := hlength ▸ (List.getElem?_eq_some_iff.1 hj).1
  have hn := List.getElem?_eq_getElem hk
  obtain ⟨hshape, htargets⟩ := Instruction.mapTargetsM_eq_ok_iff.1 (hlabels k j _ hj hn)
  exact (h _ hn).trans hshape.symm (htargets.flip.imp fun _ _ hp => standsFor_of_locate ho hp)

/-- Labels that stand at the places of an outline stand for the addresses for which these places have
been found. -/
theorem read_labels {id : Nat} (ho : o.WellFormed)
    (h : m.Read (Code.Covers m.instructions) o.instructions o.tries) :
    m.Read ((ofOutline id o).StandsFor m) (ofOutline id o).instructions
      (ofOutline id o).tries.toList := by
  obtain ⟨hinstructions, htries⟩ := Draft.forall₂_ofOutline id ho
  refine ⟨?_, fun k i j hi hj => ?_, ?_⟩
  · rw [(refines_ofOutline id ho).tracks.instructions_eq]
    exact hinstructions.length_eq.trans h.length
  · exact spelled_labels ho (fun n hn => h.instructions k i n hi hn) hj
  · rw [(refines_ofOutline id ho).tries]
    obtain ⟨hlength, hguards⟩ := forall₂_iff_getElem?.1 h.tries
    obtain ⟨hlength', hentries⟩ := forall₂_iff_getElem?.1 htries
    refine forall₂_iff_getElem?.2 ⟨hlength.trans hlength'.symm, fun n e entry he hentry => ?_⟩
    have hn : n < o.tries.length := hlength' ▸ (List.getElem?_eq_some_iff.1 hentry).1
    have hentry' := List.getElem?_eq_getElem hn
    obtain ⟨htype, hplaces⟩ := TryEntry.mapM_eq_ok_iff.1 (hentries n entry _ hentry hentry')
    obtain ⟨hstart, hplaces⟩ := List.forall₂_cons.1 hplaces
    obtain ⟨hstop, hplaces⟩ := List.forall₂_cons.1 hplaces
    obtain ⟨hhandler, -⟩ := List.forall₂_cons.1 hplaces
    have hguard := hguards n e _ he hentry'
    exact ⟨standsFor_of_locate ho hstart _ hguard.start, standsFor_of_locate ho hstop _ hguard.stop,
      htype.symm.trans hguard.type?, standsFor_of_locate ho hhandler _ hguard.handler⟩

/-- The store of an outline that says the same as a method says the same as the method. -/
theorem imported_ofOutline (hcode : m.code = .ofList m.instructions) (hsmall : m.Small)
    (ho : m.outline = .ok o) (id : Nat) : (ofOutline id o).Imported m := by
  have hwf := Method.wellFormed_of_outline ho
  have hrefines := refines_ofOutline id hwf
  obtain ⟨hread, hitems, hregisters⟩ := Method.read_of_outline hcode hsmall ho
  have hsize := Draft.size_ofOutline id hwf
  refine ⟨?_, ?_, read_labels hwf hread, fun k hk => ?_⟩
  · rw [hrefines.registers]
    exact hregisters
  · rw [hrefines.tracks_size]
    exact hsize.trans hread.length
  · rw [← hread.length] at hk
    refine ⟨_, hrefines.tracks.cell?_eq (hsize.symm ▸ hk), ?_⟩
    change ((Draft.ofOutline id o).listing.point k).items.toList = _
    rw [Draft.items_ofOutline id hwf hk, filter_items_eq k hitems]

/-- A finished method can be imported if its instructions are valid and none of its branches and tables
leads in front of its start; otherwise the error says what is wrong.  The store says with labels what the
method says with addresses. -/
theorem ofMethod_imported {registers : UInt16} {code : List (Instruction Int32)}
    {tries : List TryBlock} {items : List (UInt64 × DebugItem)}
    (h : (Method.ofInstructions registers code tries items).Small) (id : Nat) :
    ((∃ s, ofMethod id (.ofInstructions registers code tries items) = .ok s) ↔
        (Method.ofInstructions registers code tries items).Importable) ∧
      (∀ e, ofMethod id (.ofInstructions registers code tries items) = .error e →
        (Method.ofInstructions registers code tries items).Refuses e) ∧
      ∀ s, ofMethod id (.ofInstructions registers code tries items) = .ok s →
        s.Imported (.ofInstructions registers code tries items) := by
  have hcode : (Method.ofInstructions registers code tries items).code =
      .ofList (Method.ofInstructions registers code tries items).instructions := by
    rw [Method.instructions_ofInstructions]
    rfl
  have hok : ∀ {s}, ofMethod id (.ofInstructions registers code tries items) = .ok s ↔
      ∃ o, (Method.ofInstructions registers code tries items).outline = .ok o ∧
        ofOutline id o = s := by
    intro s
    unfold ofMethod
    simp only [bind_eq_ok_iff, pure_eq_ok_iff]
  refine ⟨?_, fun e he => ?_, fun s hs => ?_⟩
  · rw [← Method.exists_outline_iff hcode h]
    constructor
    · rintro ⟨s, hs⟩
      obtain ⟨o, ho, -⟩ := hok.1 hs
      exact ⟨o, ho⟩
    · rintro ⟨o, ho⟩
      exact ⟨_, hok.2 ⟨o, ho, rfl⟩⟩
  · exact Method.failsWith_outline hcode e (bind_pure_eq_error_iff.1 he)
  · obtain ⟨o, ho, rfl⟩ := hok.1 hs
    exact imported_ofOutline hcode h ho id

/-- A branch into itself, a switch whose table comes behind a `nop` and leads past the end and back to the
start, a table without a switch that leads nowhere, a handler that reaches past the end, and lines in no
particular order. -/
def jumble : Method :=
  .ofInstructions 1
    [.op .ifEqz (.f21t 0 1), .op .packedSwitch (.f31t 0 3), .nop, .data (.packed 0 [100, -2]),
      .data (.sparse [⟨1, -7⟩]), .op .returnVoid .f10x]
    [⟨1, 30, [⟨none, 3⟩]⟩] [(21, .line 3), (1, .line 4), (0, .line 5)]

/-- All of it is imported. -/
theorem ofMethod_imported_jumble :
    jumble.Small ∧ jumble.Importable ∧ ∃ s, ofMethod 0 jumble = .ok s ∧ s.Imported jumble := by
  have hsmall : jumble.Small := ⟨by decide, by decide, by decide⟩
  obtain ⟨himportable, -, himported⟩ := ofMethod_imported hsmall 0
  have hcheck : (match ofMethod 0 jumble with
      | .ok _ => true
      | .error _ => false) = true := by decide +kernel
  split at hcheck
  · next s hok => exact ⟨hsmall, himportable.1 ⟨s, hok⟩, s, hok, himported s hok⟩
  · cases hcheck

end Store

end Dalvik
