import Dalvik.Proofs.Method.Meaning

/-!
# Ranges in 64 bits

The start of a block, its length and the addresses of its handlers are machine words.  To be looked
up they are taken for signed numbers, and the end of a range is the sum of two such numbers.  Words
from `2 ^ 63` on are negative then and are refused.  The sum may lose a carry, so the end that is
looked up is what remains of it in 64 bits (`Method.mapM_position_word_iff`).
-/

namespace Dalvik

/-- Converting an entry fails with what one of its places fails with. -/
theorem TryEntry.exists_of_mapM_eq_error {ε τ σ : Type} {f : τ → Except ε σ} {entry : TryEntry τ}
    {e : ε} (h : entry.mapM f = .error e) : ∃ place ∈ entry.places, f place = .error e := by
  rcases bind_eq_error_iff.1 h with hstart | ⟨start, -, h⟩
  · exact ⟨entry.start, by simp [places], hstart⟩
  rcases bind_eq_error_iff.1 h with hstop | ⟨stop, -, h⟩
  · exact ⟨entry.stop, by simp [places], hstop⟩
  · exact ⟨entry.handler, by simp [places], bind_pure_eq_error_iff.1 h⟩

/-- As a signed number a word is negative from the middle on. -/
theorem toInt_toInt64_eq (a : UInt64) :
    a.toInt64.toInt = if a.toNat < 2 ^ 63 then (a.toNat : Int) else (a.toNat : Int) - 2 ^ 64 := by
  have h := BitVec.toInt_eq_toNat_cond a.toBitVec
  change a.toInt64.toInt = if 2 * a.toNat < 2 ^ 64 then (a.toNat : Int) else a.toNat - 2 ^ 64 at h
  rw [h]
  refine if_congr ?_ rfl rfl
  omega

/-- A word can be looked up if it is not negative. -/
theorem Coverage.position_word_iff {code : List (Instruction Int32)} {a : UInt64} {k : Nat} :
    (ofInstructions code).position a.toInt64.toInt = .ok k ↔
      a.toNat < 2 ^ 63 ∧ Code.Covers code a.toNat k := by
  rw [position_eq_ok_iff]
  constructor
  · intro h
    have hlt : a.toNat < 2 ^ 63 := by
      have hnonneg := h.nonneg
      have hword := a.toNat_lt
      rw [toInt_toInt64_eq] at hnonneg
      split at hnonneg <;> omega
    rw [Method.toInt_toInt64 hlt] at h
    exact ⟨hlt, h⟩
  · rintro ⟨hlt, h⟩
    rwa [Method.toInt_toInt64 hlt]

/-- Only a negative address is out of bounds. -/
theorem Coverage.position_eq_error_iff {code : List (Instruction Int32)} {a : Int} {e : Error} :
    (ofInstructions code).position a = .error e ↔
      a < 0 ∧ e = .addressOutOfBounds a (Code.address code code.length) := by
  rw [position, size_positions]
  split
  · next hneg => rw [Except.error.injEq, eq_comm, and_iff_right hneg]
  · next hnonneg =>
    constructor
    · intro h
      cases h
    · intro h
      exact absurd h.1 hnonneg

namespace Method

variable {m : Method} {o : Outline} {block : TryBlock} {handler : Handler}

/-! ### Handlers -/

/-- The words that are looked up for a handler, the end of the range being a sum in 64 bits. -/
def words (block : TryBlock) (handler : Handler) : List UInt64 :=
  [block.start, block.start + block.count, handler.address]

/-- The entry with these words as signed numbers. -/
def signedEntry (e : TryBlock × Handler) : TryEntry Int :=
  ⟨e.1.start.toInt64.toInt, (e.1.start + e.1.count).toInt64.toInt, e.2.type?,
    e.2.address.toInt64.toInt⟩

theorem flatMap_tryEntries (m : Method) :
    m.tries.flatMap tryEntries = m.guarded.map signedEntry := by
  rw [guarded, List.map_flatMap]
  refine List.flatMap_congr fun block _ => ?_
  simp only [tryEntries, List.map_map, Function.comp_def, signedEntry, UInt64.toInt64_add]

/-- A handler is looked up by looking up its words, none of which may be negative. -/
theorem mapM_position_word_iff {entry : TryEntry Nat} :
    (signedEntry (block, handler)).mapM m.coverage.position = .ok entry ↔
      (∀ a ∈ words block handler, a.toNat < 2 ^ 63) ∧
        entry.type? = handler.type? ∧
        List.Forall₂ (fun (a : UInt64) k => Code.Covers m.instructions a.toNat k)
          (words block handler) entry.places := by
  rw [signedEntry, TryEntry.mapM_eq_ok_iff]
  simp only [words, TryEntry.places, List.forall₂_cons, List.forall₂_nil_left_iff, and_true, coverage,
    Coverage.position_word_iff, List.forall_mem_cons, List.not_mem_nil, IsEmpty.forall_iff,
    implies_true]
  tauto

/-- If none of its words is negative, a handler can be looked up. -/
theorem exists_mapM_position (m : Method) (h : ∀ a ∈ words block handler, a.toNat < 2 ^ 63) :
    ∃ entry, (signedEntry (block, handler)).mapM m.coverage.position = .ok entry := by
  have hposition : ∀ a ∈ words block handler, ∃ k, m.coverage.position a.toInt64.toInt = .ok k := by
    intro a ha
    obtain ⟨k, hk⟩ : ∃ k, Code.Covers m.instructions a.toNat k :=
      Code.exists_covers (Int.natCast_nonneg a.toNat)
    exact ⟨k, Coverage.position_word_iff.2 ⟨h a ha, hk⟩⟩
  obtain ⟨start, hstart⟩ := hposition block.start (by simp [words])
  obtain ⟨stop, hstop⟩ := hposition (block.start + block.count) (by simp [words])
  obtain ⟨place, hplace⟩ := hposition handler.address (by simp [words])
  exact ⟨⟨start, stop, handler.type?, place⟩, TryEntry.mapM_eq_ok_iff.2
    ⟨rfl, .cons hstart (.cons hstop (.cons hplace .nil))⟩⟩

/-! ### Sums that lose a carry -/

/-- The end of a range in 64 bits is the sum, unless this has a carry. -/
theorem toNat_stop (block : TryBlock) : (block.start + block.count).toNat =
    (block.start.toNat + block.count.toNat) % 2 ^ 64 := UInt64.toNat_add _ _

/-- If neither the start of a range nor its end is negative, adding signed numbers has not gone out
of their range. -/
theorem signed_sum (hstart : block.start.toNat < 2 ^ 63)
    (hstop : (block.start + block.count).toNat < 2 ^ 63) :
    -2 ^ 63 ≤ block.start.toInt64.toInt + block.count.toInt64.toInt ∧
      block.start.toInt64.toInt + block.count.toInt64.toInt < 2 ^ 63 := by
  have hword := block.count.toNat_lt
  rw [toNat_stop] at hstop
  rw [toInt_toInt64_eq, toInt_toInt64_eq, if_pos hstart]
  split <;> omega

/-- A range whose sum has a carry ends where it starts or in front of that. -/
theorem stop_le_start (h : 2 ^ 64 ≤ block.start.toNat + block.count.toNat) :
    (block.start + block.count).toNat ≤ block.start.toNat := by
  have hword := block.start.toNat_lt
  have hword' := block.count.toNat_lt
  rw [toNat_stop]
  omega

/-! ### What depends on the code only -/

/-- Which switch a table belongs to does not depend on handlers and debug items. -/
theorem switchAddress?_congr {m m' : Method} (h : m.code = m'.code) (switches : List (Nat × Nat))
    (index : Nat) : m.switchAddress? switches index = m'.switchAddress? switches index := by
  induction index with
  | zero =>
    unfold switchAddress?
    rfl
  | succ before ih =>
    unfold switchAddress?
    dsimp only
    rw [h, ih]

theorem resolveAt_congr {m m' : Method} (h : m.code = m'.code) (c : Coverage)
    (switches : List (Nat × Nat)) (address index : Nat) (i : Instruction Int32) :
    m.resolveAt c switches address index i = m'.resolveAt c switches address index i := by
  unfold resolveAt
  rw [switchAddress?_congr h]

section

variable {registers : UInt16} {code : List (Instruction Int32)} {tries : List TryBlock}
  {items : List (UInt64 × DebugItem)} (h : (ofInstructions registers code [] []).outline = .ok o)

include h

/-- If the instructions of a method can be imported, only its handlers and its debug items have to
be looked up in addition. -/
theorem outline_of_bare :
    (ofInstructions registers code tries items).outline = do
      let coverage := (ofInstructions registers code tries items).coverage
      let entries ← (tries.flatMap tryEntries).mapM fun entry => entry.mapM coverage.position
      let items ← items.mapM fun (address, item) =>
        return (← coverage.position address.toInt64.toInt, item)
      return ⟨registers, o.instructions, entries, items⟩ := by
  have hresolve := @resolveAt_congr (ofInstructions registers code tries items)
    (ofInstructions registers code [] []) rfl
  have hlater : (ofInstructions registers code tries items).outline = do
      let o ← (ofInstructions registers code [] []).outline
      let coverage := (ofInstructions registers code tries items).coverage
      let entries ← (tries.flatMap tryEntries).mapM fun entry => entry.mapM coverage.position
      let items ← items.mapM fun (address, item) =>
        return (← coverage.position address.toInt64.toInt, item)
      return ⟨registers, o.instructions, entries, items⟩ := by
    unfold outline
    simp only [hresolve, bind_assoc]
    rfl
  rw [hlater, h]
  rfl

/-- That works if no word is negative. -/
theorem exists_outline_iff_of_bare :
    (∃ o, (ofInstructions registers code tries items).outline = .ok o) ↔
    (∀ e ∈ (ofInstructions registers code tries items).guarded,
      ∀ a ∈ words e.1 e.2, a.toNat < 2 ^ 63) ∧ ∀ e ∈ items, e.1.toNat < 2 ^ 63 := by
  set m := ofInstructions registers code tries items with hm
  have hguarded : tries.flatMap tryEntries = m.guarded.map signedEntry := flatMap_tryEntries m
  rw [outline_of_bare h, ← hm, hguarded]
  constructor
  · rintro ⟨o', ho'⟩
    obtain ⟨entries, hentries, ho'⟩ := bind_eq_ok_iff.1 ho'
    obtain ⟨items', hitems, -⟩ := bind_eq_ok_iff.1 ho'
    rw [mapM_eq_ok_iff, List.forall₂_map_left_iff] at hentries
    refine ⟨fun e he => ?_, fun e he => ?_⟩
    · obtain ⟨entry, -, hentry⟩ := forall₂_exists_left hentries.flip he
      exact (mapM_position_word_iff.1 hentry).1
    · obtain ⟨e', -, he'⟩ := forall₂_exists_left (mapM_eq_ok_iff.1 hitems).flip he
      obtain ⟨k, hk, -⟩ := bind_eq_ok_iff.1 he'
      exact (Coverage.position_word_iff.1 hk).1
  · rintro ⟨hwords, hitems⟩
    obtain ⟨entries, hentries⟩ : ∃ entries, (m.guarded.map signedEntry).mapM
        (fun entry => entry.mapM m.coverage.position) = .ok entries := by
      refine exists_mapM_eq_ok fun entry hentry => ?_
      obtain ⟨e, he, rfl⟩ := List.mem_map.1 hentry
      exact exists_mapM_position m (hwords e he)
    obtain ⟨items', hitems'⟩ : ∃ items', (items.mapM fun (address, item) => do
        return (← m.coverage.position address.toInt64.toInt, item)) = .ok items' := by
      refine exists_mapM_eq_ok fun e he => ?_
      obtain ⟨k, hk⟩ : ∃ k, Code.Covers m.instructions e.1.toNat k :=
        Code.exists_covers (Int.natCast_nonneg e.1.toNat)
      exact ⟨(k, e.2), bind_eq_ok_iff.2 ⟨k, Coverage.position_word_iff.2 ⟨hitems e he, hk⟩, rfl⟩⟩
    exact ⟨_, bind_eq_ok_iff.2 ⟨entries, hentries, bind_eq_ok_iff.2 ⟨items', hitems', rfl⟩⟩⟩

/-- Otherwise an address is out of bounds. -/
theorem outline_eq_error_of_bare {e : Error}
    (herror : (ofInstructions registers code tries items).outline = .error e) :
    ∃ a < 0, e = .addressOutOfBounds a (ofInstructions registers code tries items).units := by
  have hcode := code_ofInstructions registers code tries items
  have hposition : ∀ {a : Int}, (ofInstructions registers code tries items).coverage.position a =
      .error e → ∃ a < 0,
        e = .addressOutOfBounds a (ofInstructions registers code tries items).units := by
    intro a ha
    rw [coverage, Coverage.position_eq_error_iff, ← units_eq hcode] at ha
    exact ⟨a, ha⟩
  rw [outline_of_bare h] at herror
  rcases bind_eq_error_iff.1 herror with hentries | ⟨entries, -, herror⟩
  · obtain ⟨-, entry, -, hentry, -⟩ := mapM_eq_error_iff.1 hentries
    obtain ⟨a, -, ha⟩ := TryEntry.exists_of_mapM_eq_error hentry
    exact hposition ha
  · obtain ⟨-, item, -, hitem, -⟩ := mapM_eq_error_iff.1 (bind_pure_eq_error_iff.1 herror)
    exact hposition (bind_pure_eq_error_iff.1 hitem)

end

/-- In an outline every handler is where its words say. -/
theorem forall₂_words_of_outline (ho : m.outline = .ok o) :
    List.Forall₂ (fun e entry => (signedEntry e).mapM m.coverage.position = .ok entry) m.guarded
      o.tries := by
  have htries := (outline_eq_ok_iff.1 ho).2.2.2.1
  rwa [flatMap_tryEntries, List.forall₂_map_left_iff] at htries

end Method

end Dalvik
