import Dalvik.Proofs.Store.Attaching
import Dalvik.Proofs.Draft.Steps
import Dalvik.Store.Edit

/-!
# A store does what a draft does

A store refines a draft (`Store.Refines`) if it tracks its listing, if the registers, the handlers
and the need for relaxation are the same, and if its referrals are the owners of the draft, when the
draft has any.  Every edit of a store simulates the edit of a draft with the same name: from a store
and the draft that it refines both come to the same outcome, be it a result or an error, and the
store still refines the draft.
-/

namespace Dalvik

/-- The handles of a referral are those of the positions of an owner. -/
def Referral.Of (order : Array Handle) (r : Referral) (o : Owner) : Prop :=
  order[o.table]? = some r.table ∧ order[o.switch]? = some r.switch

namespace Store

/-- A store keeps what a draft stands for. -/
structure Refines (s : Store) (d : Draft) : Prop where
  /-- The identity is the same. -/
  id : s.id = d.id
  /-- The number of registers is the same. -/
  registers : s.registers = d.registers
  /-- The handlers are the same. -/
  tries : s.tries = d.tries
  /-- So is the need for relaxation. -/
  dirty : s.dirty = d.needsRelaxation
  /-- The cells are those of the listing. -/
  tracks : s.Tracks d.listing
  /-- The listing makes sense. -/
  coherent : d.listing.Coherent d.id
  /-- Referrals mention nothing but cells. -/
  live : ∀ r ∈ s.referrals, r.table ∈ s.order.toList ∧ r.switch ∈ s.order.toList
  /-- In a relaxed draft the referrals are the owners. -/
  owners : ∀ owners, d.owners? = some owners → List.Forall₂ (Referral.Of s.order) s.referrals owners

variable {α β : Type} {s s' : Store} {d : Draft} {l : Listing} {k : Nat} {i : Instruction Label}

/-! ### Checks -/

theorem require_eq_ok_iff {x : Except Error α} {a : α} :
    require x s = .ok a s' ↔ x = .ok a ∧ s' = s := by
  cases x with
  | ok a' =>
    change EStateM.Result.ok a' s = .ok a s' ↔ _
    simp [eq_comm]
  | error e =>
    change EStateM.Result.error e s = .ok a s' ↔ _
    simp

theorem require_eq_error_iff {x : Except Error α} {e : Error} :
    require x s = .error e s' ↔ x = .error e ∧ s' = s := by
  cases x with
  | ok a =>
    change EStateM.Result.ok a s = .error e s' ↔ _
    simp
  | error e' =>
    change EStateM.Result.error e' s = .error e s' ↔ _
    simp [eq_comm]

theorem agree_require {x : Except Error α} (h : s.Refines d) :
    Agree Refines (require x s) (Draft.require x d) := by
  cases x with
  | ok a => exact .ok a h
  | error e => exact .error e h

/-- Actions that start with the same check agree if they do so when it succeeds. -/
theorem agree_require_bind {x y : Except Error α} {f : α → StoreM β} {g : α → DraftM β}
    (hxy : x = y) (h : s.Refines d) (hrest : ∀ a, y = .ok a → Agree Refines (f a s) (g a d)) :
    Agree Refines ((require x >>= f) s) ((Draft.require y >>= g) d) := by
  subst hxy
  cases x with
  | ok a => exact hrest a rfl
  | error e => exact .error e h

theorem checkIndex_eq_ok_iff : s.checkIndex k false = .ok () ↔ k < s.size := by
  rw [Store.checkIndex]
  split <;> simp_all

theorem checkIndex_atEnd_eq_ok_iff : s.checkIndex k true = .ok () ↔ k ≤ s.size := by
  rw [Store.checkIndex, Nat.le_iff_lt_or_eq]
  split <;> simp_all

namespace Refines

theorem tracks_size (h : s.Refines d) : s.size = d.size := h.tracks.size_eq

/-- A store needs relaxation as long as no owners are known. -/
theorem dirty_eq_true_iff (h : s.Refines d) : s.dirty = true ↔ d.owners? = none := by
  rw [h.dirty, Draft.needsRelaxation, Option.isNone_iff_eq_none]

theorem dirty_eq_false_iff (h : s.Refines d) : s.dirty = false ↔ ∃ owners, d.owners? = some owners := by
  rw [h.dirty, Draft.needsRelaxation, Option.isNone_eq_false_iff, Option.isSome_iff_exists]

theorem checkIndex_atEnd (h : s.Refines d) (k : Nat) : s.checkIndex k true = d.checkIndex k := by
  rw [Store.checkIndex, Draft.checkIndex, h.tracks_size]
  have hiff : (decide (k < d.size) || (true && k == d.size)) = true ↔ k ≤ d.size := by
    simp [Nat.le_iff_lt_or_eq]
  by_cases hk : k ≤ d.size
  · rw [if_pos (hiff.2 hk), if_pos hk]
  · rw [if_neg (mt hiff.1 hk), if_neg hk]

theorem checkIndex_of_lt (h : s.Refines d) (hk : k < d.size) : s.checkIndex k false = .ok () :=
  checkIndex_eq_ok_iff.2 (h.tracks_size ▸ hk)

theorem checkIndex_of_le (h : s.Refines d) (hk : d.size ≤ k) :
    s.checkIndex k false = .error (.indexOutOfBounds k d.size) := by
  rw [Store.checkIndex, h.tracks_size, if_neg (by simpa using hk)]

theorem checkLabel_eq (h : s.Refines d) : s.checkLabel = d.checkLabel := by
  funext label
  rw [Store.checkLabel, Draft.checkLabel, h.id, h.tracks.issued]

theorem checkInstruction_eq (h : s.Refines d) (i : Instruction Label) :
    s.checkInstruction i = d.checkInstruction i := by
  rw [Store.checkInstruction, Draft.checkInstruction, h.checkLabel_eq]

end Refines

/-- There is an instruction at exactly the positions in front of the end. -/
theorem instructionAt_of_lt (hk : k < d.size) :
    ∃ i, d.listing.instruction? k = some i ∧ d.instructionAt k = .ok i := by
  obtain ⟨i, hi⟩ := d.listing.exists_instruction? hk
  exact ⟨i, hi, by rw [Draft.instructionAt, Draft.instruction?, hi]⟩

theorem instructionAt_of_le (hk : d.size ≤ k) :
    d.instructionAt k = .error (.indexOutOfBounds k d.size) := by
  have hnone : d.listing.instruction? k = none := by
    rw [← Listing.getElem?_instructions,
      List.getElem?_eq_none (by rwa [Listing.length_instructions])]
  rw [Draft.instructionAt, Draft.instruction?, hnone]

/-! ### Edits of the code -/

/-- After an edit of the code, relaxation is needed and no owners are known. -/
theorem Refines.edit (h : s.Refines d) (hid : s'.id = s.id)
    (hregisters : s'.registers = s.registers) (htries : s'.tries = s.tries)
    (hlive : ∀ r ∈ s'.referrals, r.table ∈ s'.order.toList ∧ r.switch ∈ s'.order.toList)
    (htracks : s'.Tracks l) (hcoherent : l.Coherent d.id) :
    Refines { s' with dirty := true } (d.withListing l) where
  id := hid.trans h.id
  registers := hregisters.trans h.registers
  tries := htries.trans h.tries
  dirty := rfl
  tracks := { htracks with
    exact := htracks.exact.congr rfl fun _ => Iff.rfl }
  coherent := hcoherent
  live := hlive
  owners owners howners := by simp [Draft.withListing] at howners

/-- At the end, adding an instruction in front is appending. -/
theorem insertAt_size (l : Listing) (i : Instruction Label) : l.insertAt l.size i = l.append i :=
  if_neg (Nat.lt_irrefl l.slots.size)

namespace Refines

theorem appendCell (h : s.Refines d) (hvalid : i.Valid)
    (htargets : ∀ label ∈ i.targets, d.listing.Issued d.id label) :
    Refines { s.appendCell i with dirty := true } (d.withListing (d.listing.append i)) := by
  have hcoherent : (d.listing.append i).Coherent d.id :=
    insertAt_size d.listing i ▸ h.coherent.insertAt (Nat.le_refl _) hvalid htargets
  obtain ⟨arena, fresh, hstore, htracks⟩ :=
    h.tracks.appendCell (h.id ▸ h.coherent) (h.id ▸ hcoherent)
  refine h.edit (by rw [hstore]) (by rw [hstore]) (by rw [hstore]) (fun r hr => ?_) htracks
    hcoherent
  rw [hstore] at hr ⊢
  rw [Array.toList_push]
  exact (h.live r hr).imp (List.mem_append_left _) (List.mem_append_left _)

theorem insertCell_of_lt (h : s.Refines d) (hk : k < d.listing.size) (hvalid : i.Valid)
    (htargets : ∀ label ∈ i.targets, d.listing.Issued d.id label) :
    ∃ arena fresh,
      s.insertCell k i =
        { s with arena := arena, order := s.order.insertIdxIfInBounds k fresh } ∧
      Refines { s.insertCell k i with dirty := true } (d.withListing (d.listing.insertAt k i)) := by
  have hcoherent := h.coherent.insertAt (Nat.le_of_lt hk) hvalid htargets
  obtain ⟨arena, fresh, hstore, htracks⟩ :=
    h.tracks.insertCell (h.id ▸ h.coherent) hk (h.id ▸ hcoherent)
  refine ⟨arena, fresh, hstore, h.edit (by rw [hstore]) (by rw [hstore]) (by rw [hstore])
    (fun r hr => ?_) htracks hcoherent⟩
  have hle : k ≤ s.order.size := by
    rw [h.tracks.size_order]
    exact Nat.le_succ_of_le (Nat.le_of_lt hk)
  have hmem : ∀ g ∈ s.order.toList, g ∈ (s.order.insertIdxIfInBounds k fresh).toList := by
    intro g hg
    rw [Array.insertIdxIfInBounds, dif_pos hle, Array.toList_insertIdx, List.mem_insertIdx hle]
    exact Or.inr hg
  rw [hstore] at hr ⊢
  exact (h.live r hr).imp (hmem _) (hmem _)

theorem insertCell (h : s.Refines d) (hk : k ≤ d.listing.size) (hvalid : i.Valid)
    (htargets : ∀ label ∈ i.targets, d.listing.Issued d.id label) :
    Refines { s.insertCell k i with dirty := true } (d.withListing (d.listing.insertAt k i)) := by
  rcases Nat.lt_or_eq_of_le hk with hlt | rfl
  · obtain ⟨-, -, -, hrefines⟩ := h.insertCell_of_lt hlt hvalid htargets
    exact hrefines
  · -- inserting at the end is appending
    have hend : s.insertCell d.listing.size i = s.appendCell i := if_pos h.tracks_size.symm
    rw [insertAt_size, hend]
    exact h.appendCell hvalid htargets

theorem setInstruction (h : s.Refines d) (hk : k < d.listing.size) (hvalid : i.Valid)
    (htargets : ∀ label ∈ i.targets, d.listing.Issued d.id label) :
    ∃ arena, s.setInstruction k i = (d.listing.instruction? k, { s with arena := arena }) ∧
      Refines { (s.setInstruction k i).2 with dirty := true }
        (d.withListing (d.listing.replaceAt k i)) := by
  have hcoherent := h.coherent.replaceAt k hvalid htargets
  obtain ⟨hold, arena, hstore, htracks⟩ :=
    h.tracks.setInstruction (h.id ▸ h.coherent) hk (h.id ▸ hcoherent)
  refine ⟨arena, Prod.ext hold hstore,
    h.edit (by rw [hstore]) (by rw [hstore]) (by rw [hstore]) ?_ htracks hcoherent⟩
  rw [hstore]
  exact h.live

/-- What remains of the referrals when a cell is removed mentions nothing but cells. -/
theorem live_forget (h : s.Refines d) {gone : Handle} (hgone : s.order[k]? = some gone) :
    ∀ r ∈ s.referrals.forget gone, r.table ∈ (s.order.eraseIdxIfInBounds k).toList ∧
      r.switch ∈ (s.order.eraseIdxIfInBounds k).toList := by
  intro r hr
  obtain ⟨hmem, hne⟩ := List.mem_filter.1 hr
  simp only [ne_eq, Bool.and_eq_true, decide_eq_true_eq] at hne
  have hkeep : ∀ g ∈ s.order.toList, g ≠ gone → g ∈ s.order.toList.eraseIdx k := by
    intro g hg hgg
    obtain ⟨j, hj⟩ := List.mem_iff_getElem?.1 hg
    refine List.mem_eraseIdx_iff_getElem?.2 ⟨j, ?_, hj⟩
    rintro rfl
    rw [← Array.getElem?_toList, hj] at hgone
    exact hgg (Option.some.inj hgone)
  rw [Array.toList_eraseIdxIfInBounds]
  exact ⟨hkeep _ (h.live r hmem).1 hne.1, hkeep _ (h.live r hmem).2 hne.2⟩

theorem removeCell (h : s.Refines d) (hk : k < d.listing.size) :
    ∃ arena gone places, s.order[k]? = some gone ∧
      s.removeCell k = (d.listing.instruction? k,
        { s with
          arena := arena
          order := s.order.eraseIdxIfInBounds k
          places := places
          referrals := s.referrals.forget gone }) ∧
      Refines { (s.removeCell k).2 with dirty := true }
        (d.withListing (d.listing.removeAt k)) := by
  obtain ⟨arena, gone, places, hgone, hstore, htracks⟩ :=
    h.tracks.removeCell (h.id ▸ h.coherent) hk
  refine ⟨arena, gone, places, hgone, hstore, h.edit (by rw [hstore]) (by rw [hstore])
    (by rw [hstore]) ?_ htracks (h.coherent.removeAt k)⟩
  rw [hstore]
  exact h.live_forget hgone

theorem swapCells {k₁ k₂ : Nat} (h : s.Refines d) (hk₁ : k₁ < d.listing.size)
    (hk₂ : k₂ < d.listing.size) :
    Refines { s.swapCells k₁ k₂ with dirty := true } (d.withListing (d.listing.swapAt k₁ k₂)) := by
  have hcoherent : (d.listing.swapAt k₁ k₂).Coherent d.id := h.coherent.swapAt k₁ k₂
  obtain ⟨arena, hstore, htracks⟩ :=
    h.tracks.swapCells (h.id ▸ h.coherent) hk₁ hk₂ (h.id ▸ hcoherent)
  refine h.edit (by rw [hstore]) (by rw [hstore]) (by rw [hstore]) ?_ htracks hcoherent
  rw [hstore]
  exact h.live

end Refines

theorem simulates_append (i : Instruction Label) :
    Simulates Refines (append i) (Draft.append i) := by
  intro s d h
  refine agree_require_bind (h.checkInstruction_eq i) h fun _ hcheck => .ok () ?_
  obtain ⟨hvalid, htargets⟩ := Draft.checkInstruction_eq_ok_iff.1 hcheck
  exact h.appendCell hvalid htargets

theorem simulates_insert (k : Nat) (i : Instruction Label) :
    Simulates Refines (insert k i) (Draft.insert k i) := by
  intro s d h
  refine agree_require_bind (h.checkIndex_atEnd k) h fun _ hindex =>
    agree_require_bind (h.checkInstruction_eq i) h fun _ hcheck => .ok () ?_
  obtain ⟨hvalid, htargets⟩ := Draft.checkInstruction_eq_ok_iff.1 hcheck
  exact h.insertCell (Draft.checkIndex_eq_ok_iff.1 hindex) hvalid htargets

/-- A check for an instruction, and then looking for it. -/
theorem agree_instructionAt_bind {f : PUnit → StoreM β} {g : Instruction Label → DraftM β}
    (h : s.Refines d) (hrest : ∀ i, k < d.listing.size → d.listing.instruction? k = some i →
      Agree Refines (f ⟨⟩ s) (g i d)) :
    Agree Refines ((require (s.checkIndex k false) >>= f) s)
      ((Draft.require (d.instructionAt k) >>= g) d) := by
  rcases Nat.lt_or_ge k d.size with hlt | hge
  · obtain ⟨i, hi, hat⟩ := instructionAt_of_lt hlt
    rw [h.checkIndex_of_lt hlt, hat]
    exact hrest i hlt hi
  · rw [h.checkIndex_of_le hge, instructionAt_of_le hge]
    exact .error _ h

/-- An edit that gives back an instruction. -/
theorem agree_exchange {f : Store → Option (Instruction Label) × Store} {i : Instruction Label}
    (hi : (f s).1 = some i) (hrefines : Refines { (f s).2 with dirty := true } d) :
    Agree Refines (exchange k f s) (.ok i d) := by
  have hrun : exchange k f s = .ok i { (f s).2 with dirty := true } := by
    have hmodify : (modifyGet f : StoreM (Option (Instruction Label))) s = .ok (some i) (f s).2 := by
      rw [← hi]
      rfl
    rw [exchange, run_get_bind, run_bind_of_ok hmodify]
    rfl
  rw [hrun]
  exact .ok i hrefines

theorem simulates_replace (k : Nat) (i : Instruction Label) :
    Simulates Refines (replace k i) (Draft.replace k i) := by
  intro s d h
  refine agree_instructionAt_bind h fun old hk hold =>
    agree_require_bind (h.checkInstruction_eq i) h fun _ hcheck => ?_
  obtain ⟨hvalid, htargets⟩ := Draft.checkInstruction_eq_ok_iff.1 hcheck
  obtain ⟨arena, hset, hrefines⟩ := h.setInstruction hk hvalid htargets
  exact agree_exchange ((congrArg Prod.fst hset).trans hold) hrefines

theorem simulates_remove (k : Nat) : Simulates Refines (remove k) (Draft.remove k) := by
  intro s d h
  refine agree_instructionAt_bind h fun old hk hold => ?_
  obtain ⟨arena, gone, places, hgone, hremoved, hrefines⟩ := h.removeCell hk
  exact agree_exchange ((congrArg Prod.fst hremoved).trans hold) hrefines

/-- A check of which nothing is kept. -/
theorem run_discard_bind (x : Except Error α) (rest : DraftM β) (d : Draft) :
    (do discard (Draft.require x); rest) d = (Draft.require x >>= fun _ => rest) d := by
  cases x <;> rfl

theorem simulates_swap (k₁ k₂ : Nat) : Simulates Refines (swap k₁ k₂) (Draft.swap k₁ k₂) := by
  intro s d h
  rw [swap, Draft.swap, run_get_bind, run_get_bind, run_discard_bind]
  refine agree_instructionAt_bind h fun _ hk₁ _ => ?_
  rw [run_get_bind, run_get_bind, run_discard_bind]
  refine agree_instructionAt_bind h fun _ hk₂ _ => ?_
  by_cases hne : k₁ ≠ k₂
  · rw [if_pos hne, if_pos hne]
    exact .ok () (h.swapCells hk₁ hk₂)
  · rw [if_neg hne, if_neg hne]
    exact .ok () h

/-! ### Edits of what is attached -/

/-- After an edit of what is attached, relaxation is needed only if it was before. -/
theorem Refines.annotate (h : s.Refines d) (arena : Arena) (places : Array (Option Handle))
    (hstore : s' = { s with arena := arena, places := places }) (hcarries : s'.Carries l)
    (hsame : s'.SameCode s) (hinstructions : l.instructions = d.listing.instructions)
    (hcoherent : l.Coherent d.id) : s'.Refines { d with listing := l } where
  id := by rw [hstore, h.id]
  registers := by rw [hstore, h.registers]
  tries := by rw [hstore, h.tries]
  dirty := by rw [hstore]; exact h.dirty
  tracks := h.tracks.annotate hcarries hsame hinstructions
  coherent := hcoherent
  live := by
    rw [hstore]
    exact h.live
  owners := by
    rw [hstore]
    exact h.owners

/-- Issuing a label that stands nowhere yet. -/
theorem Refines.issueLabel (h : s.Refines d) : s.issueLabel.1 = d.listing.nextLabel d.id ∧
    s.issueLabel.2.Refines { d with listing := d.listing.issue } := by
  obtain ⟨hlabel, hcarries⟩ := h.tracks.toCarries.issueLabel (h.id ▸ h.coherent)
  exact ⟨h.id ▸ hlabel, h.annotate s.arena _ rfl hcarries s.sameCode_issueLabel rfl
    h.coherent.issue⟩

/-- Placing a label that stands nowhere yet. -/
theorem Refines.placeLabel (h : s.Refines d) (hk : k ≤ d.listing.size) {label : Label}
    (hissued : d.listing.Issued d.id label) (hnew : label ∉ d.listing.labels) :
    (s.placeLabel label k).Refines { d with listing := d.listing.mark k label } := by
  obtain ⟨arena, hmodify⟩ := Exact.modifyCell_eq s k (·.modifyPoint fun point =>
    { point with labels := point.labels.push label })
  have hframe : s.placeLabel label k = { s with
      arena := arena
      places := s.places.setIfInBounds label.number s.order[k]? } := by
    rw [Store.placeLabel, hmodify]
  exact h.annotate _ _ hframe
    (h.tracks.toCarries.placeLabel (h.id ▸ h.coherent) hk (h.id ▸ hissued) hnew)
    (h.tracks.exact.sameCode_placeLabel label k) (Listing.instructions_mark _ _ _)
    (h.coherent.mark hk hissued hnew)

theorem Refines.issueLabelAt (h : s.Refines d) (hk : k ≤ d.listing.size) :
    (s.issueLabelAt k).1 = d.listing.nextLabel d.id ∧ (s.issueLabelAt k).2.Refines
      { d with listing := d.listing.issue.mark k (d.listing.nextLabel d.id) } := by
  obtain ⟨hlabel, hissue⟩ := h.issueLabel
  have hplace := hissue.placeLabel (k := k) hk (d.listing.issued_nextLabel d.id)
    h.coherent.nextLabel_notMem
  refine ⟨hlabel, ?_⟩
  rw [← hlabel] at hplace ⊢
  exact hplace

/-- Issuing a label for a position that exists. -/
theorem agree_issueLabelAt (h : s.Refines d) (hk : k ≤ d.listing.size) :
    Agree Refines ((modifyGet (·.issueLabelAt k) : StoreM Label) s) (Draft.issueLabelAt k d) := by
  obtain ⟨hlabel, hrefines⟩ := h.issueLabelAt hk
  have hdraft : Draft.issueLabelAt k d = .ok (d.listing.nextLabel d.id)
      { d with listing := d.listing.issue.mark k (d.listing.nextLabel d.id) } := rfl
  have hstore : (modifyGet (·.issueLabelAt k) : StoreM Label) s =
      .ok (s.issueLabelAt k).1 (s.issueLabelAt k).2 := rfl
  rw [hdraft, hstore, hlabel]
  exact .ok _ hrefines

theorem simulates_labelAt (k : Nat) : Simulates Refines (labelAt k) (Draft.labelAt k) := by
  intro s d h
  exact agree_require_bind (h.checkIndex_atEnd k) h fun _ hindex =>
    agree_issueLabelAt h (Draft.checkIndex_eq_ok_iff.1 hindex)

/-- The instruction that covers an address starts there or before, and ends behind it. -/
theorem covering_spec (code : List (Instruction Label)) (first address : Nat) :
    ∃ n ≤ code.length, Listing.covering first code address = first + n ∧
      Code.address code n ≤ address ∧ (n < code.length → address < Code.address code (n + 1)) := by
  induction code generalizing first address with
  | nil => exact ⟨0, Nat.le_refl 0, rfl, Nat.zero_le _, fun h => absurd h (Nat.lt_irrefl 0)⟩
  | cons i rest ih =>
    unfold Listing.covering
    split
    · next hlt =>
      refine ⟨0, Nat.zero_le _, rfl, Nat.zero_le _, fun _ => ?_⟩
      rw [Code.address_cons_succ, Code.address_zero]
      exact hlt
    · next hge =>
      obtain ⟨n, hn, hcovering, hstart, hstop⟩ := ih (first + 1) (address - i.units)
      refine ⟨n + 1, Nat.succ_le_succ hn, by rw [hcovering]; omega, ?_, fun hlt => ?_⟩
      · rw [Code.address_cons_succ]
        omega
      · have hlt' := hstop (Nat.lt_of_succ_lt_succ hlt)
        rw [Code.address_cons_succ]
        omega

/-- Bisection finds the instruction that covers an address. -/
theorem Tracks.covering_eq (h : s.Tracks l) (address : Nat) :
    s.covering address = Listing.covering 0 l.instructions address := by
  obtain ⟨n, hn, hcovering, hstart, hstop⟩ := covering_spec l.instructions 0 address
  rw [Listing.length_instructions] at hn hstop
  rw [hcovering, Nat.zero_add, covering, h.size_order]
  have hturn : bisect (fun index => (s.cell? index).any (·.address ≤ address)) 0 (l.size + 1) =
      n + 1 := by
    have hholds : ∀ {k}, k ≤ l.size → (s.cell? k).any (·.address ≤ address) =
        decide (Code.address l.instructions k ≤ address) := fun hk => by
      rw [h.cell?_eq hk]
      rfl
    refine bisect_eq (Nat.zero_le _) (Nat.succ_le_succ hn) (fun k _ hk => ?_) fun k hk hlt => ?_
    · rw [hholds (by omega), decide_eq_true_eq]
      exact Nat.le_trans (Code.address_mono _ (Nat.le_of_lt_succ hk)) hstart
    · rw [hholds (by omega), decide_eq_false_iff_not, Nat.not_le]
      exact Nat.lt_of_lt_of_le (hstop (by omega)) (Code.address_mono _ hk)
  rw [hturn, Nat.add_sub_cancel]

theorem simulates_labelAtAddress (address : UInt64) :
    Simulates Refines (labelAtAddress address) (Draft.labelAtAddress address) := by
  intro s d h
  have hunits : s.units = d.units := h.tracks.units_eq
  rw [labelAtAddress, Draft.labelAtAddress, run_get_bind, run_get_bind, hunits]
  by_cases hpast : d.units < address.toNat
  · rw [if_pos hpast, if_pos hpast]
    exact .error _ h
  · rw [if_neg hpast, if_neg hpast, h.tracks.covering_eq]
    refine agree_issueLabelAt h ?_
    simpa using Draft.covering_le d.listing.instructions 0 address.toNat

theorem simulates_addTry (entry : TryEntry Label) :
    Simulates Refines (addTry entry) (Draft.addTry entry) := by
  intro s d h
  refine agree_require_bind (by rw [h.checkLabel_eq]) h fun _ _ => .ok _ ?_
  exact { h with
    tries := congrArg (·.push entry) h.tries
    dirty := h.dirty
    tracks := { h.tracks with exact := h.tracks.exact.congr rfl fun _ => Iff.rfl } }

/-- A change of the items at a position. -/
theorem Refines.modifyItems (h : s.Refines d) (hk : k ≤ d.listing.size) {g : Point → Point}
    (hg : ∀ p, (g p).labels = p.labels) : (s.modifyCell k (·.modifyPoint g)).Refines
      { d with listing := d.listing.modifyPoint k g } := by
  obtain ⟨arena, hstore⟩ := Exact.modifyCell_eq s k (·.modifyPoint g)
  have hsame := Listing.sameButItems_modifyPoint hk hg
  exact h.annotate _ _ hstore
    (h.tracks.toCarries.modifyItems (h.id ▸ h.coherent) hk hg)
    (h.tracks.exact.sameCode_modifyCell k g) hsame.instructions (hsame.coherent h.coherent)

theorem simulates_addDebugItem (k : Nat) (item : DebugItem) :
    Simulates Refines (addDebugItem k item) (Draft.addDebugItem k item) := by
  intro s d h
  exact agree_require_bind (h.checkIndex_atEnd k) h fun _ hindex =>
    .ok _ (h.modifyItems (Draft.checkIndex_eq_ok_iff.1 hindex) fun _ => rfl)

theorem simulates_removeDebugItems (k : Nat) :
    Simulates Refines (removeDebugItems k) (Draft.removeDebugItems k) := by
  intro s d h
  refine agree_require_bind (h.checkIndex_atEnd k) h fun _ hindex => ?_
  have hk := Draft.checkIndex_eq_ok_iff.1 hindex
  have hitems : (s.takeItems k).1 = (d.listing.point k).items.toList := by
    rw [takeItems, h.tracks.cell?_eq hk]
    rfl
  have hstore : (modifyGet (·.takeItems k) : StoreM (List DebugItem)) s =
      .ok (s.takeItems k).1 (s.takeItems k).2 := rfl
  rw [hstore, hitems]
  exact .ok _ (h.modifyItems hk fun _ => rfl)

theorem simulates_retainDebugItems (keep : DebugItem → Bool) :
    Simulates Refines (retainDebugItems keep) (Draft.retainDebugItems keep) := by
  intro s d h
  have hsame := Listing.sameButItems_retainItems d.listing keep
  exact .ok _ (h.annotate _ s.places rfl
    (h.tracks.toCarries.retainItems (h.id ▸ h.coherent) keep)
    (h.tracks.exact.sameCode_retainItems keep) hsame.instructions (hsame.coherent h.coherent))

end Store

end Dalvik
