import Dalvik.Proofs.Store.Editing
import Dalvik.Proofs.Store.Faults
import Dalvik.Proofs.Store.Idempotence

/-!
# What is left behind by actions that fail

An action of a store checks its arguments before it changes anything, and what comes after the checks
cannot fail as long as the cells are in order.  Hence an edit that fails leaves no trace
(`Store.traceless_perform`), and neither does an action of an assembler that fails.

Relaxation is not that strict: the switches that were bound before one of them turned out to be faulty
stay bound.  Nobody looks at the referrals of a store that needs relaxation, and nothing else is
touched, since sweeping does not fail any more.  A read that fails although relaxation did not has
relaxed the store, and has done nothing more.
-/

namespace Dalvik

section Actions

variable {ε σ α β : Type} {s : σ}

/-- If an action fails, the state stays as it was. -/
def Traceless (x : EStateM ε σ α) (s : σ) : Prop := ∀ e s', x s = .error e s' → s' = s

/-- An action that succeeds does not fail. -/
theorem Traceless.of_ok {x : EStateM ε σ α} {a : α} {s' : σ} (h : x s = .ok a s') :
    Traceless x s := by
  intro e s'' herror
  rw [h] at herror
  cases herror

/-- It does not matter what is made of the result. -/
theorem Traceless.bind_pure {x : EStateM ε σ α} (h : Traceless x s) (f : α → β) :
    Traceless (x >>= fun a => pure (f a)) s := by
  intro e s' herror
  cases hx : x s with
  | ok a s₁ =>
    rw [run_bind_of_ok hx] at herror
    cases herror
  | error e' s₁ =>
    rw [run_bind_of_error hx] at herror
    cases herror
    exact h _ _ hx

end Actions

namespace Store

variable {α β : Type} {s s' : Store} {d : Draft} {e : Error}

/-! ### Edits -/

/-- A check does not change anything, so it is enough to look at what comes after it. -/
theorem traceless_require_bind {x : Except Error α} {f : α → StoreM β}
    (h : ∀ a, x = .ok a → Traceless (f a) s) : Traceless (require x >>= f) s := by
  cases x with
  | ok a => exact h a rfl
  | error e =>
    intro e' s' herror
    cases herror
    rfl

/-- An edit that has an instruction to give back does not fail. -/
theorem traceless_exchange {k : Nat} {f : Store → Option (Instruction Label) × Store}
    {i : Instruction Label} (hi : (f s).1 = some i) : Traceless (exchange k f) s := by
  have hmodify : (modifyGet f : StoreM (Option (Instruction Label))) s = .ok (some i) (f s).2 := by
    rw [← hi]
    rfl
  have hok : exchange k f s = .ok i { (f s).2 with dirty := true } := by
    rw [exchange, run_get_bind, run_bind_of_ok hmodify]
    rfl
  exact .of_ok hok

theorem traceless_append (s : Store) (i : Instruction Label) : Traceless (append i) s :=
  traceless_require_bind fun _ _ => .of_ok rfl

theorem traceless_insert (s : Store) (k : Nat) (i : Instruction Label) :
    Traceless (insert k i) s :=
  traceless_require_bind fun _ _ => traceless_require_bind fun _ _ => .of_ok rfl

theorem traceless_swap (s : Store) (k₁ k₂ : Nat) : Traceless (swap k₁ k₂) s := by
  refine traceless_require_bind fun _ _ => traceless_require_bind fun _ _ => ?_
  by_cases hne : k₁ ≠ k₂
  · rw [if_pos hne]
    exact .of_ok rfl
  · rw [if_neg hne]
    exact .of_ok rfl

theorem traceless_labelAt (s : Store) (k : Nat) : Traceless (labelAt k) s :=
  traceless_require_bind fun _ _ => .of_ok rfl

theorem traceless_labelAtAddress (s : Store) (address : UInt64) :
    Traceless (labelAtAddress address) s := by
  intro e s' herror
  rw [labelAtAddress, run_get_bind] at herror
  split at herror
  · cases herror
    rfl
  · cases herror

theorem traceless_addTry (s : Store) (entry : TryEntry Label) : Traceless (addTry entry) s :=
  traceless_require_bind fun _ _ => .of_ok rfl

theorem traceless_addDebugItem (s : Store) (k : Nat) (item : DebugItem) :
    Traceless (addDebugItem k item) s :=
  traceless_require_bind fun _ _ => .of_ok rfl

theorem traceless_removeDebugItems (s : Store) (k : Nat) : Traceless (removeDebugItems k) s :=
  traceless_require_bind fun _ _ => .of_ok rfl

namespace Refines

/-- A position that passes the check is that of an instruction. -/
theorem lt_size_of_checkIndex (h : s.Refines d) {k : Nat} (hk : s.checkIndex k false = .ok ()) :
    k < d.listing.size := by
  rw [checkIndex_eq_ok_iff, h.tracks_size] at hk
  exact hk

theorem traceless_replace (h : s.Refines d) (k : Nat) (i : Instruction Label) :
    Traceless (replace k i) s := by
  refine traceless_require_bind fun _ hindex => traceless_require_bind fun _ _ => ?_
  obtain ⟨old, hold⟩ := d.listing.exists_instruction? (h.lt_size_of_checkIndex hindex)
  exact traceless_exchange ((h.tracks.instruction?_eq k).trans hold)

theorem traceless_remove (h : s.Refines d) (k : Nat) : Traceless (remove k) s := by
  refine traceless_require_bind fun _ hindex => ?_
  have hk := h.lt_size_of_checkIndex hindex
  obtain ⟨old, hold⟩ := d.listing.exists_instruction? hk
  obtain ⟨arena, gone, places, -, hremove, -⟩ := h.removeCell hk
  exact traceless_exchange ((congrArg Prod.fst hremove).trans hold)

/-- An edit that fails leaves no trace. -/
theorem traceless_perform (h : s.Refines d) (e : Page.Edit) : Traceless (perform e) s := by
  cases e with
  | append i => exact (traceless_append s i).bind_pure _
  | insert k i => exact (traceless_insert s k i).bind_pure _
  | replace k i => exact (h.traceless_replace k i).bind_pure _
  | remove k => exact (h.traceless_remove k).bind_pure _
  | swap k₁ k₂ => exact (traceless_swap s k₁ k₂).bind_pure _
  | labelAt k => exact (traceless_labelAt s k).bind_pure _
  | labelAtAddress address => exact (traceless_labelAtAddress s address).bind_pure _
  | addTry entry => exact (traceless_addTry s entry).bind_pure _
  | addDebugItem k item => exact (traceless_addDebugItem s k item).bind_pure _
  | removeDebugItems k => exact (traceless_removeDebugItems s k).bind_pure _
  | retainDebugItems keep => exact .of_ok rfl

end Refines

/-! ### Relaxation -/

theorem sameButReferrals_bindSwitch_error {k : Nat} (herror : bindSwitch k s = .error e s') :
    s.SameButReferrals s' := by
  rw [bindSwitch, run_get_bind] at herror
  cases hi : s.instruction? k with
  | none =>
    rw [hi] at herror
    cases herror
  | some i =>
    rw [hi] at herror
    dsimp only at herror
    cases hlabel : i.switchTarget? with
    | none =>
      rw [hlabel] at herror
      cases herror
    | some label =>
      rw [hlabel] at herror
      dsimp only at herror
      cases hfind : s.findTable k i.opcode label with
      | error e' =>
        rw [hfind] at herror
        cases herror
        rfl
      | ok table =>
        rw [hfind] at herror
        change (if (s.switchOf? table).isSome = true then throw (.ambiguousPayload table)
          else pure ⟨⟩ : StoreM PUnit) (s.refer table k) = _ at herror
        split at herror
        · cases herror
          exact sameButReferrals_refer _ _ _
        · cases herror

theorem sameButReferrals_forM_error (positions : List Nat)
    (herror : positions.forM bindSwitch s = .error e s') : s.SameButReferrals s' := by
  induction positions generalizing s with
  | nil => cases herror
  | cons k rest ih =>
    change (bindSwitch k >>= fun _ => rest.forM bindSwitch) s = _ at herror
    cases hfirst : bindSwitch k s with
    | ok _ s₁ =>
      rw [run_bind_of_ok hfirst] at herror
      exact (sameButReferrals_bindSwitch hfirst).trans (ih herror)
    | error e' s₁ =>
      rw [run_bind_of_error hfirst] at herror
      cases herror
      exact sameButReferrals_bindSwitch_error hfirst

theorem sameButReferrals_bindTables_error (herror : bindTables s = .error e s') :
    s.SameButReferrals s' := by
  have hstart : s.SameButReferrals { s with referrals := [] } := rfl
  exact hstart.trans (sameButReferrals_forM_error _ herror)

/-- Relaxation that fails has done nothing but bind some of the switches. -/
theorem Refines.sameButReferrals_of_relax_eq_error (h : s.Refines d) (hd : d.Sound)
    (herror : relax s = .error e s') : s.SameButReferrals s' := by
  cases hdirty : s.dirty with
  | false =>
    rw [relax, run_get_bind, hdirty] at herror
    cases herror
  | true =>
    rw [relax_of_dirty hdirty] at herror
    cases hplaced : s.checkPlaced with
    | error e' =>
      rw [hplaced] at herror
      cases herror
      rfl
    | ok =>
      rw [hplaced, run_bind_of_ok (require_eq_ok_iff.2 ⟨rfl, rfl⟩)] at herror
      cases hbind : bindTables s with
      | error e' s₁ =>
        rw [run_bind_of_error hbind] at herror
        cases herror
        exact sameButReferrals_bindTables_error hbind
      | ok _ s₁ =>
        -- once all switches are bound, nothing can go wrong any more
        have howners? := h.dirty_eq_true_iff.1 hdirty
        obtain ⟨owners, -, -, hfollows, hbound⟩ := h.exists_follows_of_bindTables hd howners? hbind
        obtain ⟨s₂, hsettle, -⟩ := hfollows.exists_settle hbound
        rw [run_bind_of_ok hbind, run_bind_of_ok hsettle] at herror
        cases herror

/-! ### Reads -/

/-- What can be read out of a store. -/
inductive Reading where
  /-- The instructions. -/
  | instructions
  /-- The positions with all that is known about them. -/
  | locations
  /-- The exception handlers. -/
  | tries
  /-- The debug items with their addresses. -/
  | debugItems
  /-- The address at which a label stands. -/
  | address (label : Label)
  /-- The finished method. -/
  | method

/-- What a store says when it is read. -/
inductive Report where
  /-- The instructions. -/
  | instructions (instructions : List (Instruction Label))
  /-- The positions with all that is known about them. -/
  | locations (locations : List Location)
  /-- The exception handlers. -/
  | tries (tries : List (TryEntry Label))
  /-- The debug items with their addresses. -/
  | debugItems (items : List (Nat × DebugItem))
  /-- An address. -/
  | address (address : Nat)
  /-- The finished method. -/
  | method (method : Method)

/-- Reads something out of a store. -/
def consult : Reading → StoreM Report
  | .instructions => return .instructions (← readInstructions)
  | .locations => return .locations (← readLocations)
  | .tries => return .tries (← readTries)
  | .debugItems => return .debugItems (← readDebugItems)
  | .address label => return .address (← readAddress label)
  | .method => return .method (← toMethod)

/-- A read that starts with relaxation that fails does so itself. -/
theorem consult_of_relax_eq_error (h : relax s = .error e s') (r : Reading) :
    consult r s = .error e s' := by
  obtain ⟨hinstructions, hlocations, htries, hitems, haddress, hmethod⟩ :=
    reads_of_relax_eq_error h
  cases r with
  | instructions => exact run_bind_of_error hinstructions _
  | locations => exact run_bind_of_error hlocations _
  | tries => exact run_bind_of_error htries _
  | debugItems => exact run_bind_of_error hitems _
  | address label => exact run_bind_of_error (haddress label) _
  | method => exact run_bind_of_error hmethod _

/-- Whether a read succeeds or not, it leaves the store relaxed if that is possible. -/
theorem stateAfter_consult_of_relax_eq_ok (h : relax s = .ok ⟨⟩ s') (r : Reading) :
    stateAfter (consult r) s = s' := by
  obtain ⟨hinstructions, hlocations, htries, hitems, haddress, hmethod⟩ := reads_of_relax_eq_ok h
  rw [stateAfter]
  cases r with
  | instructions => rw [consult, run_bind_of_ok hinstructions]; rfl
  | locations => rw [consult, run_bind_of_ok hlocations]; rfl
  | tries => rw [consult, run_bind_of_ok htries]; rfl
  | debugItems => rw [consult, run_bind_of_ok hitems]; rfl
  | address label =>
    have haddress := haddress label
    cases hcell : (s'.cellOf label).map (·.address) with
    | ok address =>
      rw [hcell] at haddress
      rw [consult, run_bind_of_ok haddress]
      rfl
    | error e =>
      rw [hcell] at haddress
      rw [consult, run_bind_of_error haddress]
  | method =>
    cases houtline : s'.outline >>= (·.toMethod s'.switchIndex?) with
    | ok method =>
      rw [houtline] at hmethod
      rw [consult, run_bind_of_ok hmethod]
      rfl
    | error e =>
      rw [houtline] at hmethod
      rw [consult, run_bind_of_error hmethod]

end Store

namespace StoreAssembler

variable {α : Type} {s : StoreAssembler}

/-! ### Assembling -/

/-- An edit that leaves no trace in the store leaves none in the assembler. -/
theorem traceless_edit {x : StoreM α} (h : Traceless x s.store) : Traceless (edit x) s := by
  intro e s' herror
  rw [edit] at herror
  cases hx : x s.store with
  | ok a store =>
    rw [hx] at herror
    cases herror
  | error e' store =>
    rw [hx] at herror
    cases herror
    rw [h _ _ hx]

/-- A name that has been placed already has a label, so none is issued for it. -/
theorem traceless_place (name : String) : Traceless (place name) s := by
  intro e s' herror
  cases hfind : s.names.findIdx? (·.name = name) with
  | some n =>
    have hlabel : label name s = .ok ⟨s.store.id, n⟩ s := by
      rw [label, run_get_bind, hfind]
      rfl
    rw [place, run_bind_of_ok hlabel, run_get_bind] at herror
    split at herror
    · cases herror
      rfl
    · cases herror
  | none =>
    have hlabel : label name s = .ok s.store.issueLabel.1
        ⟨s.store.issueLabel.2, s.names.push ⟨name, false⟩⟩ := by
      rw [label, run_get_bind, hfind]
      rfl
    have hnew : (s.names.push ⟨name, false⟩).any (fun n => n.name = name && n.placed) = false := by
      rw [Array.findIdx?_eq_none_iff] at hfind
      rw [Array.any_push, Bool.or_eq_false_iff, Array.any_eq_false']
      exact ⟨fun n hn => by simp [of_decide_eq_false (hfind n hn)], by simp⟩
    rw [place, run_bind_of_ok hlabel, run_get_bind, hnew] at herror
    cases herror

end StoreAssembler

namespace Store

variable {s : Store}

/-- Actions that fail leave no trace.  An edit that fails leaves a store as it was, and relaxation that
fails changes nothing but the referrals; so does every read, which then fails with the same error.  If
relaxation succeeds, a read that fails leaves the relaxed store.  Neither placing a name nor adding an
instruction changes an assembler if it fails. -/
theorem failing_of_reachable (h : s.Reachable) :
    (∀ edit e s', perform edit s = .error e s' → s' = s) ∧
      (∀ e s', relax s = .error e s' →
        s' = { s with referrals := s'.referrals } ∧ ∀ r, consult r s = .error e s') ∧
      (∀ s₁, relax s = .ok ⟨⟩ s₁ → ∀ r e s', consult r s = .error e s' → s' = s₁) ∧
      ∀ a : StoreAssembler,
        (∀ name e a', a.place name = .error e a' → a' = a) ∧
          ∀ i e a', a.add i = .error e a' → a' = a := by
  obtain ⟨d, hd, hrefines⟩ := h.exists_refines
  refine ⟨fun edit => hrefines.traceless_perform edit, fun e s' herror => ?_,
    fun s₁ hok r e s' herror => ?_, fun a => ⟨fun name => StoreAssembler.traceless_place name,
      fun i => StoreAssembler.traceless_edit (traceless_append a.store i)⟩⟩
  · exact ⟨hrefines.sameButReferrals_of_relax_eq_error hd.sound herror,
      consult_of_relax_eq_error herror⟩
  · have hafter := stateAfter_consult_of_relax_eq_ok hok r
    rw [stateAfter, herror] at hafter
    exact hafter

/-- The rivals, the second of which has to be gone before anything can be read. -/
def rival : Store := rivals.next (.remove 3)

/-- The rivals cannot be relaxed, which leaves a referral behind.  With one of them gone, a label that
was not issued has no address, and to find this out the store has been relaxed. -/
theorem failing_of_reachable_rivals :
    rivals.Reachable ∧ rival.Reachable ∧
      (∃ e s', perform (.replace 4 .nop) rivals = .error e s' ∧ s' = rivals) ∧
      (∃ e s', relax rivals = .error e s' ∧ s'.referrals.length = 1 ∧
        s' = { rivals with referrals := s'.referrals } ∧ consult .method rivals = .error e s') ∧
      (∃ s₁, relax rival = .ok ⟨⟩ s₁ ∧ s₁ ≠ rival ∧
        ∃ e, consult (.address ⟨0, 9⟩) rival = .error e s₁) ∧
      (∃ e a', (StoreAssembler.new 0 1).add (.goto .byte ⟨0, 0⟩) = .error e a' ∧
        a' = .new 0 1) := by
  have hrivals : rivals.Reachable := (Reachable.new 0 1).run _
  have hrival : rival.Reachable := hrivals.next _
  obtain ⟨hedits, hrelax, -, hassembler⟩ := failing_of_reachable hrivals
  obtain ⟨-, -, hreads, -⟩ := failing_of_reachable hrival
  refine ⟨hrivals, hrival, ?_, ?_, ?_, ?_⟩
  · have hreplace : perform (.replace 4 .nop) rivals =
        .error (.indexOutOfBounds 4 4) (stateAfter (perform (.replace 4 .nop)) rivals) := rfl
    exact ⟨_, _, hreplace, hedits _ _ _ hreplace⟩
  · obtain ⟨hsame, hreading⟩ := hrelax (.ambiguousPayload 1) _ rfl
    exact ⟨_, _, rfl, by decide +kernel, hsame, hreading .method⟩
  · obtain ⟨⟨⟩, s₁, hs₁⟩ := exists_of_succeeds (x := relax) (s := rival) (by decide +kernel)
    obtain ⟨e, s', haddress⟩ := exists_of_fails (x := consult (.address ⟨0, 9⟩)) (s := rival)
      (by decide +kernel)
    rw [hreads s₁ hs₁ _ _ _ haddress] at haddress
    refine ⟨s₁, hs₁, ?_, e, haddress⟩
    have hmoved : stateAfter relax rival ≠ rival := by decide +kernel
    rwa [stateAfter, hs₁] at hmoved
  · have hadd : (StoreAssembler.new 0 1).add (.goto .byte ⟨0, 0⟩) = .error (.unknownLabel ⟨0, 0⟩)
        (stateAfter (StoreAssembler.add (.goto .byte ⟨0, 0⟩)) (.new 0 1)) := rfl
    exact ⟨_, _, hadd, (hassembler _).2 _ _ _ hadd⟩

end Store

end Dalvik
