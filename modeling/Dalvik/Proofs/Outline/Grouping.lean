import Dalvik.Proofs.Outline.Handlers

/-!
# Handlers grouped front to back

Blocks are canonical if none can be left out and no neighbours can be joined (`TryBlock.Canonical`).
Handlers can be written down as canonical blocks in one way only (`TryBlock.Canonical.unique`).

An outline puts its handlers together from the back, so that each joins the block behind it.  When
they are taken in order instead, and each is compared with the last block so far
(`TryBlock.pushEntry`), the blocks are canonical and list the same handlers, so they are the same
(`TryBlock.foldl_pushEntry_eq_foldr`).
-/

namespace Dalvik

namespace TryBlock

variable {blocks blocks' : List TryBlock} {entry : TryEntry Nat} {ranges : List (TryEntry Nat)}

/-! ### Canonical blocks -/

/-- No block can be left out, and no neighbours can be joined. -/
structure Canonical (blocks : List TryBlock) : Prop where
  /-- Ranges are not empty. -/
  count : ∀ block ∈ blocks, block.count ≠ 0
  /-- Every block has a handler. -/
  handlers : ∀ block ∈ blocks, block.handlers ≠ []
  /-- Neighbours have different ranges. -/
  distinct : blocks.IsChain fun block block' => ¬ block.SameRange block'

/-- Canonical blocks come back when they are taken apart and put together again. -/
theorem Canonical.foldr_entries (h : Canonical blocks) :
    (blocks.flatMap entries).foldr consEntry [] = blocks := by
  have hblocks : ∀ block ∈ blocks, block.WellFormed fun _ => True := fun block hblock =>
    ⟨h.count block hblock, h.handlers block hblock, trivial, trivial, fun _ _ => trivial⟩
  exact TryBlock.foldr_entries hblocks h.distinct

/-- There is only one way to write handlers down in canonical blocks. -/
theorem Canonical.unique (h : Canonical blocks) (h' : Canonical blocks')
    (heq : blocks.flatMap entries = blocks'.flatMap entries) : blocks = blocks' := by
  rw [← h.foldr_entries, heq, h'.foldr_entries]

/-! ### Handlers with addresses in 64 bits -/

/-- The addresses of an entry are machine words. -/
def Addressable (entry : TryEntry Nat) : Prop := ∀ a ∈ entry.places, a < 2 ^ 64

/-- The block that an entry has for itself. -/
def ofEntry (entry : TryEntry Nat) : TryBlock :=
  ⟨.ofNat entry.start, .ofNat (entry.stop - entry.start), [⟨entry.type?, .ofNat entry.handler⟩]⟩

/-- An entry is all that its own block lists. -/
theorem entries_ofEntry (h : Addressable entry) (hlt : entry.start < entry.stop) :
    (ofEntry entry).entries = [entry] := by
  obtain ⟨start, stop, type?, handler⟩ := entry
  obtain ⟨hstart, hstop, hhandler⟩ : start < 2 ^ 64 ∧ stop < 2 ^ 64 ∧ handler < 2 ^ 64 := by
    simpa [Addressable, TryEntry.places] using h
  have hcount : stop - start < 2 ^ 64 := Nat.lt_of_le_of_lt (Nat.sub_le _ _) hstop
  have hsum : start + (stop - start) = stop := Nat.add_sub_of_le (Nat.le_of_lt hlt)
  simp only [entries, ofEntry, List.map_cons, List.map_nil, UInt64.toNat_ofNat_of_lt' hstart,
    UInt64.toNat_ofNat_of_lt' hcount, UInt64.toNat_ofNat_of_lt' hhandler, hsum]

theorem count_ofEntry_ne_zero (h : Addressable entry) (hlt : entry.start < entry.stop) :
    (ofEntry entry).count ≠ 0 := by
  intro hzero
  have hstop : entry.stop < 2 ^ 64 := h entry.stop (by simp [TryEntry.places])
  have hcount := congrArg UInt64.toNat hzero
  rw [ofEntry, UInt64.toNat_ofNat_of_lt' (Nat.lt_of_le_of_lt (Nat.sub_le _ _) hstop)] at hcount
  simp only [UInt64.toNat_zero] at hcount
  omega

/-! ### From the back -/

/-- The handlers that the blocks list, with the ends of their ranges instead of the lengths. -/
theorem flatMap_entries (blocks : List TryBlock) : blocks.flatMap entries =
    (blocks.flatMap covered).map fun (start, count, handler) =>
      ⟨start.toNat, start.toNat + count.toNat, handler.type?, handler.address.toNat⟩ := by
  rw [List.map_flatMap]
  refine congrArg (blocks.flatMap ·) (funext fun block => ?_)
  rw [covered, List.map_map]
  rfl

theorem flatMap_entries_foldr (h : ∀ entry ∈ ranges, Addressable entry) :
    (ranges.foldr consEntry []).flatMap entries = ranges.filter fun e => e.start < e.stop := by
  rw [flatMap_entries, flatMap_covered_foldr, List.map_map]
  refine (List.map_congr_left fun entry hentry => ?_).trans (List.map_id _)
  obtain ⟨hmem, hlt⟩ := List.mem_filter.1 hentry
  exact List.singleton_inj.1 (entries_ofEntry (h entry hmem) (of_decide_eq_true hlt))

theorem canonical_foldr (h : ∀ entry ∈ ranges, Addressable entry) :
    Canonical (ranges.foldr consEntry []) := by
  have hblocks : ∀ block ∈ ranges.foldr consEntry [], block.WellFormed fun _ => True :=
    wellFormed_foldr fun entry hentry a ha => ⟨h entry hentry a ha, trivial⟩
  exact ⟨fun block hblock => (hblocks block hblock).count,
    fun block hblock => (hblocks block hblock).handlers, isChain_foldr ranges⟩

/-! ### From the front -/

/-- Puts a handler with addresses for places behind the blocks, unless its range is empty.  It joins
the last block if that covers the same range. -/
def pushEntry (blocks : List TryBlock) (entry : TryEntry Nat) : List TryBlock :=
  if entry.stop ≤ entry.start then blocks
  else
    let single := ofEntry entry
    match blocks.getLast? with
    | some last =>
      if last.start = single.start && last.count = single.count then
        blocks.dropLast ++ [⟨last.start, last.count, last.handlers ++ single.handlers⟩]
      else blocks ++ [single]
    | none => blocks ++ [single]

/-- What becomes of the blocks when an entry is put behind them. -/
inductive Pushed (blocks : List TryBlock) (entry : TryEntry Nat) : List TryBlock → Prop where
  /-- The entry is left out, its range being empty. -/
  | dropped (hempty : entry.stop ≤ entry.start) : Pushed blocks entry blocks
  /-- It joins the last block. -/
  | joined {front : List TryBlock} {last : TryBlock} (hlt : entry.start < entry.stop)
      (hlast : blocks = front ++ [last]) (hsame : last.SameRange (ofEntry entry)) :
      Pushed blocks entry
        (front ++ [⟨last.start, last.count, last.handlers ++ (ofEntry entry).handlers⟩])
  /-- It gets a block of its own. -/
  | added (hlt : entry.start < entry.stop)
      (hnew : ∀ last ∈ blocks.getLast?, ¬ last.SameRange (ofEntry entry)) :
      Pushed blocks entry (blocks ++ [ofEntry entry])

theorem pushed_pushEntry (blocks : List TryBlock) (entry : TryEntry Nat) :
    Pushed blocks entry (pushEntry blocks entry) := by
  rw [pushEntry]
  split
  · next hempty => exact .dropped hempty
  next hlt =>
  have hlt' := Nat.lt_of_not_le hlt
  rcases List.eq_nil_or_concat blocks with rfl | ⟨front, last, rfl⟩
  · exact .added hlt' fun last hlast => by cases hlast
  · simp only [List.concat_eq_append, List.getLast?_concat, List.dropLast_concat]
    split
    · next hsame => exact .joined hlt' rfl (by simpa [SameRange] using hsame)
    · next hnew =>
      refine .added hlt' fun last' hlast' => ?_
      rw [List.getLast?_concat, Option.mem_some_iff] at hlast'
      subst hlast'
      simpa [SameRange] using hnew

namespace Pushed

/-- The entry comes behind the handlers that were there. -/
theorem flatMap_entries (hpushed : Pushed blocks entry blocks') (h : Addressable entry) :
    blocks'.flatMap entries =
      blocks.flatMap entries ++ [entry].filter fun e => e.start < e.stop := by
  cases hpushed with
  | dropped hempty =>
    rw [List.filter_cons_of_neg (by simpa using hempty), List.filter_nil, List.append_nil]
  | joined hlt hlast hsame =>
    rename_i front last
    rw [List.filter_cons_of_pos (by simpa using hlt), List.filter_nil, hlast, List.flatMap_append,
      List.flatMap_append, List.append_assoc, ← entries_ofEntry h hlt]
    simp [entries, hsame.1, hsame.2]
  | added hlt hnew =>
    rw [List.filter_cons_of_pos (by simpa using hlt), List.filter_nil, List.flatMap_append,
      List.flatMap_singleton, entries_ofEntry h hlt]

/-- Blocks stay canonical. -/
theorem canonical (hpushed : Pushed blocks entry blocks') (h : Addressable entry)
    (hblocks : Canonical blocks) : Canonical blocks' := by
  cases hpushed with
  | dropped hempty => exact hblocks
  | joined hlt hlast hsame =>
    rename_i front last
    subst hlast
    obtain ⟨hcount, hhandlers, hdistinct⟩ := hblocks
    rw [List.forall_mem_append, List.forall_mem_singleton] at hcount hhandlers
    rw [List.isChain_append] at hdistinct
    refine ⟨?_, ?_, ?_⟩
    · rw [List.forall_mem_append, List.forall_mem_singleton]
      exact hcount
    · rw [List.forall_mem_append, List.forall_mem_singleton]
      exact ⟨hhandlers.1, by simp [ofEntry]⟩
    · -- the range of the last block stays the same
      rw [List.isChain_append]
      refine ⟨hdistinct.1, List.isChain_singleton _, fun block hblock block' hblock' => ?_⟩
      rw [List.head?_cons, Option.mem_some_iff] at hblock'
      subst hblock'
      exact hdistinct.2.2 block hblock last rfl
  | added hlt hnew =>
    obtain ⟨hcount, hhandlers, hdistinct⟩ := hblocks
    refine ⟨?_, ?_, ?_⟩
    · rw [List.forall_mem_append, List.forall_mem_singleton]
      exact ⟨hcount, count_ofEntry_ne_zero h hlt⟩
    · rw [List.forall_mem_append, List.forall_mem_singleton]
      exact ⟨hhandlers, List.cons_ne_nil _ _⟩
    · rw [List.isChain_append]
      refine ⟨hdistinct, List.isChain_singleton _, fun block hblock block' hblock' => ?_⟩
      rw [List.head?_cons, Option.mem_some_iff] at hblock'
      subst hblock'
      exact hnew block hblock

end Pushed

/-- Taking the entries in order lists them in order, but for those whose range is empty, and leaves
canonical blocks behind. -/
theorem canonical_foldl (h : ∀ entry ∈ ranges, Addressable entry) (hblocks : Canonical blocks) :
    Canonical (ranges.foldl pushEntry blocks) ∧ (ranges.foldl pushEntry blocks).flatMap entries =
      blocks.flatMap entries ++ ranges.filter fun e => e.start < e.stop := by
  induction ranges generalizing blocks with
  | nil => exact ⟨hblocks, by simp⟩
  | cons entry rest ih =>
    obtain ⟨hentry, hrest⟩ := List.forall_mem_cons.1 h
    have hpushed := pushed_pushEntry blocks entry
    obtain ⟨hcanonical, hentries⟩ := ih hrest (hpushed.canonical hentry hblocks)
    refine ⟨hcanonical, hentries.trans ?_⟩
    rw [hpushed.flatMap_entries hentry, List.append_assoc, ← List.filter_append]
    rfl

/-- Blocks are the same whether handlers are put together from the front or from the back. -/
theorem foldl_pushEntry_eq_foldr (h : ∀ entry ∈ ranges, Addressable entry) :
    ranges.foldl pushEntry [] = ranges.foldr consEntry [] := by
  have hnil : Canonical [] := ⟨nofun, nofun, List.isChain_nil⟩
  obtain ⟨hcanonical, hentries⟩ := canonical_foldl h hnil
  exact hcanonical.unique (canonical_foldr h) (hentries.trans (flatMap_entries_foldr h).symm)

end TryBlock

end Dalvik
