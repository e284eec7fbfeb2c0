import Dalvik.Proofs.Method.WellFormed
import Dalvik.Proofs.Outline.Coverage
import Dalvik.Outline.ToMethod
import Mathlib.Data.List.Chain

/-!
# Handlers and blocks

A finished method keeps the handlers of a range together in a block, an outline lists them one by
one.  Handlers are put together from the back (`TryBlock.consEntry`).  Whatever they are, the blocks
that result have ranges that are not empty, and neighbours have different ranges
(`TryBlock.isChain_foldr`).  They list the handlers in order, but for those whose range is empty
(`TryBlock.flatMap_covered_foldr`).  Conversely blocks of this kind come back when they are taken
apart and put together again (`TryBlock.foldr_entries`).
-/

namespace Dalvik

/-- The entry with addresses for places, `address` giving the address of a position. -/
def TryEntry.placed (address : Nat → Nat) (entry : TryEntry Nat) : TryEntry Nat :=
  ⟨address entry.start, address entry.stop, entry.type?, address entry.handler⟩

namespace TryBlock

variable {blocks : List TryBlock} {boundary : Int → Prop}

/-- Puts a handler with addresses for places in front of the blocks, unless its range is empty. -/
def consEntry (entry : TryEntry Nat) (blocks : List TryBlock) : List TryBlock :=
  if entry.stop ≤ entry.start then blocks
  else consHandler (.ofNat entry.start) (.ofNat (entry.stop - entry.start))
    ⟨entry.type?, .ofNat entry.handler⟩ blocks

/-! ### Putting handlers together -/

/-- A handler whose range is new gets a block of its own. -/
theorem consHandler_of_not_sameRange {start count : UInt64} {handler : Handler}
    (h : ∀ block ∈ blocks.head?, ¬ (block.start = start ∧ block.count = count)) :
    consHandler start count handler blocks = ⟨start, count, [handler]⟩ :: blocks := by
  cases blocks with
  | nil => rfl
  | cons block rest =>
    have hne := h block rfl
    rw [consHandler, if_neg (by simpa using hne)]

/-- A handler joins the first block if that covers the same range. -/
theorem consHandler_of_sameRange {handler : Handler} (block : TryBlock) :
    consHandler block.start block.count handler (block :: blocks) =
      ⟨block.start, block.count, handler :: block.handlers⟩ :: blocks := by
  rw [consHandler, if_pos (by simp)]

theorem wellFormed_consHandler {start count : UInt64} {handler : Handler}
    (h : ∀ block ∈ blocks, block.WellFormed boundary)
    (hnew : WellFormed boundary ⟨start, count, [handler]⟩) :
    ∀ block ∈ consHandler start count handler blocks, block.WellFormed boundary := by
  by_cases hsame : ∃ block rest, blocks = block :: rest ∧ block.start = start ∧ block.count = count
  · obtain ⟨block, rest, rfl, rfl, rfl⟩ := hsame
    obtain ⟨hblock, hrest⟩ := List.forall_mem_cons.1 h
    rw [consHandler_of_sameRange, List.forall_mem_cons]
    refine ⟨⟨hblock.count, List.cons_ne_nil _ _, hblock.start, hblock.stop, ?_⟩, hrest⟩
    rw [List.forall_mem_cons]
    exact ⟨hnew.handled handler (List.mem_singleton_self handler), hblock.handled⟩
  · rw [consHandler_of_not_sameRange, List.forall_mem_cons]
    · exact ⟨hnew, h⟩
    · intro block hblock heq
      obtain ⟨rest, rfl⟩ := List.head?_eq_some_iff.1 hblock
      exact hsame ⟨block, rest, rfl, heq⟩

theorem isChain_consHandler (start count : UInt64) (handler : Handler)
    (h : blocks.IsChain fun block block' => ¬ block.SameRange block') :
    (consHandler start count handler blocks).IsChain fun block block' =>
      ¬ block.SameRange block' := by
  cases blocks with
  | nil => exact List.isChain_singleton _
  | cons block rest =>
    by_cases hsame : block.start = start ∧ block.count = count
    · obtain ⟨rfl, rfl⟩ := hsame
      rw [consHandler_of_sameRange]
      -- the range of the first block stays the same
      cases rest with
      | nil => exact List.isChain_singleton _
      | cons next rest =>
        rw [List.isChain_cons_cons] at h ⊢
        exact h
    · rw [consHandler_of_not_sameRange (by simpa using hsame), List.isChain_cons_cons]
      exact ⟨fun heq => hsame ⟨heq.1.symm, heq.2.symm⟩, h⟩

/-- Neighbouring blocks have different ranges, whatever the handlers. -/
theorem isChain_foldr (entries : List (TryEntry Nat)) :
    (entries.foldr consEntry []).IsChain fun block block' => ¬ block.SameRange block' := by
  induction entries with
  | nil => exact List.isChain_nil
  | cons entry rest ih =>
    rw [List.foldr_cons, consEntry]
    split
    · exact ih
    · exact isChain_consHandler _ _ _ ih

/-- The blocks mention no addresses but those of the handlers. -/
theorem wellFormed_foldr {entries : List (TryEntry Nat)}
    (h : ∀ entry ∈ entries, ∀ a ∈ entry.places, a < 2 ^ 64 ∧ boundary a) :
    ∀ block ∈ entries.foldr consEntry [], block.WellFormed boundary := by
  induction entries with
  | nil => exact fun block hblock => absurd hblock List.not_mem_nil
  | cons entry rest ih =>
    obtain ⟨hentry, hrest⟩ := List.forall_mem_cons.1 h
    obtain ⟨hstart, hstop, hhandler⟩ : (entry.start < 2 ^ 64 ∧ boundary entry.start) ∧
        (entry.stop < 2 ^ 64 ∧ boundary entry.stop) ∧
        (entry.handler < 2 ^ 64 ∧ boundary entry.handler) := by
      simpa [TryEntry.places] using hentry
    rw [List.foldr_cons, consEntry]
    split
    · exact ih hrest
    · next hlt =>
      have hcount : (UInt64.ofNat (entry.stop - entry.start)).toNat = entry.stop - entry.start :=
        UInt64.toNat_ofNat_of_lt' (Nat.lt_of_le_of_lt (Nat.sub_le _ _) hstop.1)
      refine wellFormed_consHandler (ih hrest) ⟨fun hzero => ?_, List.cons_ne_nil _ _, ?_, ?_, ?_⟩
      · have hzero' := congrArg UInt64.toNat hzero
        rw [hcount, UInt64.toNat_zero] at hzero'
        omega
      · rw [UInt64.toNat_ofNat_of_lt' hstart.1]
        exact hstart.2
      · have hsum : ((entry.start : Int) + ((entry.stop - entry.start : Nat) : Int)) = entry.stop := by
          omega
        rw [UInt64.toNat_ofNat_of_lt' hstart.1, hcount, hsum]
        exact hstop.2
      · intro handler hmem
        obtain rfl := List.mem_singleton.1 hmem
        rw [UInt64.toNat_ofNat_of_lt' hhandler.1]
        exact hhandler.2

/-- The handlers of a block, each with the start and the length of the range. -/
def covered (block : TryBlock) : List (UInt64 × UInt64 × Handler) :=
  block.handlers.map fun handler => (block.start, block.count, handler)

/-- A handler comes first, whether it gets a block of its own or not. -/
theorem flatMap_covered_consHandler (start count : UInt64) (handler : Handler)
    (blocks : List TryBlock) : (consHandler start count handler blocks).flatMap covered =
      (start, count, handler) :: blocks.flatMap covered := by
  by_cases hsame : ∃ block rest, blocks = block :: rest ∧ block.start = start ∧ block.count = count
  · obtain ⟨block, rest, rfl, rfl, rfl⟩ := hsame
    rw [consHandler_of_sameRange]
    rfl
  · rw [consHandler_of_not_sameRange]
    · rfl
    · intro block hblock heq
      obtain ⟨rest, rfl⟩ := List.head?_eq_some_iff.1 hblock
      exact hsame ⟨block, rest, rfl, heq⟩

/-- The blocks list the handlers in order, but for those whose range is empty. -/
theorem flatMap_covered_foldr (entries : List (TryEntry Nat)) :
    (entries.foldr consEntry []).flatMap covered =
      (entries.filter fun entry => entry.start < entry.stop).map fun entry =>
        (.ofNat entry.start, .ofNat (entry.stop - entry.start),
          ⟨entry.type?, .ofNat entry.handler⟩) := by
  induction entries with
  | nil => rfl
  | cons entry rest ih =>
    rw [List.foldr_cons, consEntry]
    split
    · next hempty =>
      rw [ih, List.filter_cons_of_neg (by simpa using hempty)]
    · next hrange =>
      rw [flatMap_covered_consHandler, ih, List.filter_cons_of_pos (by simpa using hrange),
        List.map_cons]

/-! ### Taking blocks apart -/

/-- The handlers of a block, each with the range of the block. -/
def entries (block : TryBlock) : List (TryEntry Nat) :=
  block.handlers.map fun handler =>
    ⟨block.start.toNat, block.start.toNat + block.count.toNat, handler.type?,
      handler.address.toNat⟩

/-- A handler of a block with a range that is not empty is put back as it was. -/
theorem consEntry_eq {block : TryBlock} (hcount : block.count ≠ 0) (handler : Handler)
    (blocks : List TryBlock) :
    consEntry ⟨block.start.toNat, block.start.toNat + block.count.toNat, handler.type?,
        handler.address.toNat⟩ blocks =
      consHandler block.start block.count handler blocks := by
  have hpos : block.count.toNat ≠ 0 := fun hzero => hcount (UInt64.toNat_inj.1 hzero)
  have hlt : ¬ block.start.toNat + block.count.toNat ≤ block.start.toNat := by omega
  rw [consEntry, if_neg hlt, Nat.add_sub_cancel_left, UInt64.ofNat_toNat, UInt64.ofNat_toNat,
    UInt64.ofNat_toNat]

/-- The handlers of a block, put together, are the block again. -/
theorem foldr_entries_append {block : TryBlock} (hcount : block.count ≠ 0)
    (hhandlers : block.handlers ≠ []) (h : ∀ next ∈ blocks.head?, ¬ block.SameRange next) :
    block.entries.foldr consEntry blocks = block :: blocks := by
  obtain ⟨start, count, handlers⟩ := block
  induction handlers with
  | nil => exact absurd rfl hhandlers
  | cons handler rest ih =>
    rw [entries, List.map_cons, List.foldr_cons, consEntry_eq hcount]
    cases rest with
    | nil =>
      refine consHandler_of_not_sameRange fun next hnext heq => h next hnext ?_
      exact ⟨heq.1.symm, heq.2.symm⟩
    | cons handler' rest =>
      have hrest := ih hcount (List.cons_ne_nil _ _) h
      rw [entries] at hrest
      rw [hrest]
      exact consHandler_of_sameRange ⟨start, count, handler' :: rest⟩

/-- The handlers of all blocks, put together, are the blocks again. -/
theorem foldr_entries (h : ∀ block ∈ blocks, block.WellFormed boundary)
    (hdistinct : blocks.IsChain fun block block' => ¬ block.SameRange block') :
    (blocks.flatMap entries).foldr consEntry [] = blocks := by
  induction blocks with
  | nil => rfl
  | cons block rest ih =>
    obtain ⟨hblock, hrest⟩ := List.forall_mem_cons.1 h
    rw [List.flatMap_cons, List.foldr_append, ih hrest hdistinct.tail]
    refine foldr_entries_append hblock.count hblock.handlers fun next hnext => ?_
    obtain ⟨others, rfl⟩ := List.head?_eq_some_iff.1 hnext
    exact (List.isChain_cons_cons.1 hdistinct).1

end TryBlock

/-- The blocks of an outline are put together from its handlers, once they have addresses. -/
theorem Outline.emitTries_ofList (code : List (Instruction Nat)) (entries : List (TryEntry Nat)) :
    emitTries (.ofList code) entries =
      (entries.map (TryEntry.placed (Code.address code))).foldr TryBlock.consEntry [] := by
  rw [List.foldr_map, emitTries]
  simp only [Layout.offset_ofList]
  rfl

end Dalvik
