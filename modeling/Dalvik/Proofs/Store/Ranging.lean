import Dalvik.Proofs.Method.Ranges
import Dalvik.Proofs.Store.Importing

/-!
# Imported ranges

If the instructions of a method can be imported, its handlers can be, unless one of the words that
are looked up for them is negative as a signed number; only this is ever wrong with them
(`Store.ofMethod_ranged`).  The labels stand for the words.  For the end of a range this is the sum
of its start and its length, as long as the sum fits in 64 bits.  If it does not, the label stands
for what is left of it, which is in front of the start: a range that should reach past the end of
the code then has nothing in it (`Store.exists_ofMethod_reversed`).
-/

namespace Dalvik

/-- Lower addresses are covered by lower positions. -/
theorem Code.Covers.le_of_le {τ : Type} {code : List (Instruction τ)} {a a' : Int} {k k' : Nat}
    (h : Covers code a k) (h' : Covers code a' k') (hle : a ≤ a') : k ≤ k' := by
  rcases Nat.lt_or_ge k' code.length with hlt | hge
  · exact h.le_of_lt_address (Int.lt_of_le_of_lt hle (h'.2.2 hlt))
  · exact Nat.le_trans h.1 hge

namespace Store

open Method

variable {s : Store} {m : Method} {o : Outline} {block : TryBlock} {handler : Handler}

/-- What becomes of a handler. -/
structure Ranged (s : Store) (m : Method) (block : TryBlock) (handler : Handler)
    (entry : TryEntry Label) : Prop where
  /-- The range starts where the block does. -/
  start : s.StandsFor m block.start.toNat entry.start
  /-- It ends at the sum in 64 bits. -/
  stop : s.StandsFor m (block.start + block.count).toNat entry.stop
  /-- The same exceptions are handled. -/
  type? : entry.type? = handler.type?
  /-- So is the place where they are. -/
  handler : s.StandsFor m handler.address.toNat entry.handler
  /-- The sum of the signed numbers has not overflowed. -/
  signed : -2 ^ 63 ≤ block.start.toInt64.toInt + block.count.toInt64.toInt ∧
    block.start.toInt64.toInt + block.count.toInt64.toInt < 2 ^ 63
  /-- Where there is no carry, the range ends at the sum. -/
  exact : block.start.toNat + block.count.toNat < 2 ^ 64 →
    s.StandsFor m (block.start.toNat + block.count.toNat) entry.stop
  /-- Where there is one, the range does not end behind its start. -/
  reversed : 2 ^ 64 ≤ block.start.toNat + block.count.toNat →
    ∃ p q, s.labelIndex entry.stop = .ok p ∧ s.labelIndex entry.start = .ok q ∧ p ≤ q

/-- A handler that has been looked up by its words is in the store of the outline. -/
theorem ranged_of_words {id : Nat} (ho : o.WellFormed) {entry : TryEntry Label}
    {places : TryEntry Nat} (hentry : entry.mapM (Draft.ofOutline id o).locate = .ok places)
    (hplaces : (signedEntry (block, handler)).mapM m.coverage.position = .ok places) :
    (ofOutline id o).Ranged m block handler entry := by
  obtain ⟨hwords, htype, hcovers⟩ := mapM_position_word_iff.1 hplaces
  obtain ⟨hsame, hlabels⟩ := TryEntry.mapM_eq_ok_iff.1 hentry
  obtain ⟨hlabel₁, hlabels⟩ := List.forall₂_cons.1 hlabels
  obtain ⟨hlabel₂, hlabels⟩ := List.forall₂_cons.1 hlabels
  obtain ⟨hlabel₃, -⟩ := List.forall₂_cons.1 hlabels
  obtain ⟨hcover₁, hcovers⟩ := List.forall₂_cons.1 hcovers
  obtain ⟨hcover₂, hcovers⟩ := List.forall₂_cons.1 hcovers
  obtain ⟨hcover₃, -⟩ := List.forall₂_cons.1 hcovers
  have hstart := standsFor_of_locate ho hlabel₁ _ hcover₁
  have hstop := standsFor_of_locate ho hlabel₂ _ hcover₂
  exact
    { start := hstart
      stop := hstop
      type? := hsame.symm.trans htype
      handler := standsFor_of_locate ho hlabel₃ _ hcover₃
      signed := signed_sum (hwords _ (by simp [words])) (hwords _ (by simp [words]))
      exact := fun hlt => by
        rw [toNat_stop, Nat.mod_eq_of_lt hlt] at hstop
        exact hstop
      reversed := fun hcarry => by
        obtain ⟨q, hq, hindex⟩ := hstart
        obtain ⟨p, hp, hindex'⟩ := hstop
        exact ⟨p, q, hindex', hindex, hp.le_of_le hq (Int.ofNat_le.2 (stop_le_start hcarry))⟩ }

/-- If the instructions of a method can be imported, then the method can be, unless a word that is
looked up for a handler or a debug item is negative as a signed number.  Then an address is out of
bounds. -/
theorem ofMethod_ranged {registers : UInt16} {code : List (Instruction Int32)}
    {tries : List TryBlock} {items : List (UInt64 × DebugItem)} {id : Nat}
    (h : ∃ s, ofMethod id (.ofInstructions registers code [] []) = .ok s) :
    let m := Method.ofInstructions registers code tries items
    ((∃ s, ofMethod id m = .ok s) ↔
        (∀ e ∈ m.guarded, ∀ a ∈ words e.1 e.2, a.toNat < 2 ^ 63) ∧
          ∀ e ∈ items, e.1.toNat < 2 ^ 63) ∧
      (∀ e, ofMethod id m = .error e → ∃ a < 0, e = .addressOutOfBounds a m.units) ∧
      ∀ s, ofMethod id m = .ok s →
        List.Forall₂ (fun e entry => s.Ranged m e.1 e.2 entry) m.guarded s.tries.toList := by
  intro m
  obtain ⟨s₀, h⟩ := h
  obtain ⟨o₀, hbare, -⟩ := bind_eq_ok_iff.1 h
  have hok : ∀ {s}, ofMethod id m = .ok s ↔ ∃ o, m.outline = .ok o ∧ ofOutline id o = s := by
    intro s
    unfold ofMethod
    simp only [bind_eq_ok_iff, pure_eq_ok_iff]
  refine ⟨?_, fun e he => outline_eq_error_of_bare hbare (bind_pure_eq_error_iff.1 he),
    fun s hs => ?_⟩
  · rw [← exists_outline_iff_of_bare hbare]
    constructor
    · rintro ⟨s, hs⟩
      obtain ⟨o, ho, -⟩ := hok.1 hs
      exact ⟨o, ho⟩
    · rintro ⟨o, ho⟩
      exact ⟨_, hok.2 ⟨o, ho, rfl⟩⟩
  · obtain ⟨o, ho, rfl⟩ := hok.1 hs
    have hwf := wellFormed_of_outline ho
    obtain ⟨hlength, hwords⟩ := forall₂_iff_getElem?.1 (forall₂_words_of_outline ho)
    obtain ⟨hlength', hlabels⟩ := forall₂_iff_getElem?.1 (Draft.forall₂_ofOutline id hwf).2
    rw [(refines_ofOutline id hwf).tries]
    refine forall₂_iff_getElem?.2 ⟨hlength.trans hlength'.symm, fun n e entry he hentry => ?_⟩
    have hn : n < o.tries.length := hlength' ▸ (List.getElem?_eq_some_iff.1 hentry).1
    have hplaces := List.getElem?_eq_getElem hn
    exact ranged_of_words hwf (hlabels n entry _ hentry hplaces) (hwords n e _ he hplaces)

/-- Some code with a handler whose range is said to be almost as long as a word can tell. -/
def endless : Method :=
  .ofInstructions 1
    [.op .const16 (.f21s 0 7), .op .throw (.f11x 0), .op .returnVoid .f10x]
    [⟨2, 18446744073709551615, [⟨none, 3⟩]⟩] []

/-- Its labels stand for the words. -/
theorem ofMethod_ranged_endless :
    (∃ s, ofMethod 0 (.ofInstructions 1 endless.instructions [] []) = .ok s) ∧
      ∃ s, ofMethod 0 endless = .ok s ∧
        List.Forall₂ (fun e entry => s.Ranged endless e.1 e.2 entry) endless.guarded
          s.tries.toList := by
  have hbare : ∃ s, ofMethod 0 (.ofInstructions 1 endless.instructions [] []) = .ok s := by
    have hcheck : (match ofMethod 0 (.ofInstructions 1 endless.instructions [] []) with
        | .ok _ => true
        | .error _ => false) = true := by decide +kernel
    split at hcheck
    · next s hok => exact ⟨s, hok⟩
    · cases hcheck
  obtain ⟨hok, -, hranged⟩ := @ofMethod_ranged 1 endless.instructions endless.tries [] 0 hbare
  -- checked along the lists: a quantifier over words could be decided by trying every word
  have hwords : (endless.guarded.all fun e =>
      (words e.1 e.2).all fun a => decide (a.toNat ≤ 3)) = true := by decide +kernel
  simp only [List.all_eq_true, decide_eq_true_eq] at hwords
  obtain ⟨s, hs⟩ := hok.2 ⟨fun e he a ha => Nat.lt_of_le_of_lt (hwords e he a ha) (by omega), nofun⟩
  exact ⟨hbare, s, hs, hranged s hs⟩

/-- The range of this handler starts at the second instruction.  Its end, past the end of the code,
becomes the first instruction, and the handler is left out when a method is made of the store. -/
theorem exists_ofMethod_reversed : ∃ block handler s entry, endless.guarded = [(block, handler)] ∧
    ofMethod 0 endless = .ok s ∧ s.tries.toList = [entry] ∧
      s.labelIndex entry.start = .ok 1 ∧ s.labelIndex entry.stop = .ok 0 ∧
        ¬ s.StandsFor endless (block.start.toNat + block.count.toNat) entry.stop ∧
          ∃ m s', toMethod s = .ok m s' ∧ m.tries = [] := by
  obtain ⟨-, s, hs, -⟩ := ofMethod_ranged_endless
  have hcheck : (match ofMethod 0 endless with
      | .ok s =>
        decide (s.tries.toList = [⟨⟨0, 0⟩, ⟨0, 1⟩, none, ⟨0, 2⟩⟩] ∧
          s.labelIndex ⟨0, 0⟩ = .ok 1 ∧ s.labelIndex ⟨0, 1⟩ = .ok 0) &&
        match toMethod s with
        | .ok m _ => decide (m.tries = [])
        | .error _ _ => false
      | .error _ => false) = true := by decide +kernel
  rw [hs] at hcheck
  obtain ⟨hlabels, hexport⟩ := Bool.and_eq_true_iff.1 hcheck
  obtain ⟨htries, hstart, hstop⟩ := of_decide_eq_true hlabels
  refine ⟨⟨2, 18446744073709551615, [⟨none, 3⟩]⟩, ⟨none, 3⟩, s, _, rfl, hs, htries, hstart, hstop,
    ?_, ?_⟩
  · -- the first instruction does not reach that far
    rintro ⟨p, hp, hindex⟩
    cases hindex.symm.trans hstop
    exact absurd hp (by decide +kernel)
  · split at hexport
    · next m s' hok => exact ⟨m, s', hok, of_decide_eq_true hexport⟩
    · cases hexport

end Store

end Dalvik
