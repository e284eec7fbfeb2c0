import Dalvik.Proofs.Draft.Likeness
import Dalvik.Proofs.Outline.Overflow
import Dalvik.Proofs.Store.Failing

/-!
# Labels of a store and others

Every label that is in use in a store is one of its own and stands at one of its cells
(`Store.Refines.stands`).  Hence a read fails on account of a label only if it is asked for one that the
store has not issued (`Store.Refines.foreign_of_consult`).  Such a label is refused wherever it is given
(`Store.perform_of_foreign`).
-/

namespace Dalvik

/-- The labels among the arguments of an edit. -/
def Page.Edit.labels : Page.Edit → List Label
  | .append i | .insert _ i | .replace _ i => i.targets
  | .addTry entry => entry.places
  | _ => []

/-- The error is about a label that is not known, or stands nowhere. -/
def Error.AboutLabel (e : Error) : Prop :=
  ∃ label, e = .unknownLabel label ∨ e = .unplacedLabel label

namespace Store

/-- The store has not issued the label: it belongs to another store, or its number is not in use. -/
def Foreign (s : Store) (label : Label) : Prop :=
  label.draft ≠ s.id ∨ s.places.size ≤ label.number

instance (s : Store) (label : Label) : Decidable (s.Foreign label) :=
  inferInstanceAs (Decidable (_ ∨ _))

/-- The label is one of the store, and it stands at a cell that is listed and was not freed. -/
def Stands (s : Store) (label : Label) : Prop :=
  label.draft = s.id ∧ ∃ k h, s.places[label.number]? = some (some h) ∧ s.order[k]? = some h ∧
    s.arena.Live h ∧ s.labelIndex label = .ok k

/-- The arguments of an edit are valid, apart from the labels. -/
def Admits (s : Store) : Page.Edit → Prop
  | .append i => i.validate = .ok ()
  | .insert index i => index ≤ s.size ∧ i.validate = .ok ()
  | .replace index i => index < s.size ∧ i.validate = .ok ()
  | _ => True

variable {s s' : Store} {d : Draft} {label t : Label} {e : Error} {i : Instruction Label}

/-! ### Foreign labels -/

theorem checkLabel_of_foreign (h : s.Foreign label) :
    s.checkLabel label = .error (.unknownLabel label) := by
  refine if_neg fun hknown => ?_
  obtain ⟨hdraft, hnumber⟩ : label.draft = s.id ∧ label.number < s.places.size := by
    simpa using hknown
  exact h.elim (absurd hdraft) fun hle => absurd hnumber (Nat.not_lt.2 hle)

theorem checkLabel_of_not_foreign (h : ¬ s.Foreign label) : s.checkLabel label = .ok () := by
  obtain ⟨hdraft, hnumber⟩ := not_or.1 h
  refine if_pos ?_
  rw [Bool.and_eq_true, decide_eq_true_eq, decide_eq_true_eq]
  exact ⟨not_not.1 hdraft, Nat.lt_of_not_le hnumber⟩

/-- A foreign label stands nowhere. -/
theorem cellOf_of_foreign (h : s.Foreign label) :
    s.cellOf label = .error (.unknownLabel label) := by
  rw [cellOf]
  split
  · next hdraft =>
    have hle : s.places.size ≤ label.number := h.resolve_left (not_not.2 hdraft)
    rw [Array.getElem?_eq_none hle]
  · rfl

theorem labelIndex_of_foreign (h : s.Foreign label) :
    s.labelIndex label = .error (.unknownLabel label) := by
  rw [labelIndex, cellOf_of_foreign h]
  rfl

/-- Of several labels the first foreign one is reported. -/
theorem forM_checkLabel_of_foreign {labels : List Label}
    (ht : labels.find? (fun label => s.Foreign label) = some t) :
    labels.forM s.checkLabel = .error (.unknownLabel t) := by
  induction labels with
  | nil => cases ht
  | cons label rest ih =>
    change (s.checkLabel label >>= fun _ => rest.forM s.checkLabel) = _
    by_cases hlabel : s.Foreign label
    · rw [List.find?_cons_of_pos (by simpa using hlabel)] at ht
      obtain rfl := Option.some.inj ht
      rw [checkLabel_of_foreign hlabel]
      rfl
    · rw [List.find?_cons_of_neg (by simpa using hlabel)] at ht
      rw [checkLabel_of_not_foreign hlabel]
      exact ih ht

/-- An instruction with a foreign label is refused, if not for another reason. -/
theorem checkInstruction_of_foreign (ht : i.targets.find? (fun label => s.Foreign label) = some t) :
    (∃ e, s.checkInstruction i = .error e) ∧
      (i.validate = .ok () → s.checkInstruction i = .error (.unknownLabel t)) := by
  rw [checkInstruction]
  cases i.validate with
  | ok =>
    have hlabels := forM_checkLabel_of_foreign ht
    exact ⟨⟨_, hlabels⟩, fun _ => hlabels⟩
  | error e => exact ⟨⟨e, rfl⟩, fun hvalid => by cases hvalid⟩

/-- An action that checks an instruction, after another check, fails if there is a foreign label. -/
theorem checked_of_foreign {α : Type} {x : Except Error Unit} {f : Unit → StoreM α}
    (ht : i.targets.find? (fun label => s.Foreign label) = some t) :
    (∃ e, (do require x; require ((← get).checkInstruction i); f () : StoreM α) s = .error e s) ∧
      (x = .ok () → i.validate = .ok () →
        (do require x; require ((← get).checkInstruction i); f () : StoreM α) s =
          .error (.unknownLabel t) s) := by
  obtain ⟨⟨e, he⟩, hknown⟩ := checkInstruction_of_foreign ht
  have hfails : ∀ e, s.checkInstruction i = .error e →
      (require (s.checkInstruction i) >>= f) s = .error e s := fun e he => by
    rw [he]
    rfl
  cases x with
  | error e' => exact ⟨⟨e', rfl⟩, fun h => by cases h⟩
  | ok => exact ⟨⟨e, hfails e he⟩, fun _ hvalid => hfails _ (hknown hvalid)⟩

/-- An edit that is given a foreign label fails and changes nothing.  If nothing else is wrong with its
arguments, it reports the first such label. -/
theorem perform_of_foreign (edit : Page.Edit)
    (ht : edit.labels.find? (fun label => s.Foreign label) = some t) :
    (∃ e, perform edit s = .error e s) ∧
      (s.Admits edit → perform edit s = .error (.unknownLabel t) s) := by
  -- what is made of the result of the edit does not matter
  have hbind : ∀ {α : Type} {x : StoreM α} {p : Prop} (f : α → Page.Answer),
      ((∃ e, x s = .error e s) ∧ (p → x s = .error (.unknownLabel t) s)) →
        (∃ e, (x >>= fun a => pure (f a)) s = .error e s) ∧
          (p → (x >>= fun a => pure (f a)) s = .error (.unknownLabel t) s) :=
    fun f h => ⟨h.1.imp fun e he => run_bind_of_error he _, fun hp => run_bind_of_error (h.2 hp) _⟩
  cases edit with
  | append i =>
    obtain ⟨hfails, hreports⟩ := checked_of_foreign (x := .ok ())
      (f := fun _ => modifyCode (·.appendCell i)) ht
    exact hbind (x := append i) (fun _ => .done) ⟨hfails, hreports rfl⟩
  | insert k i =>
    obtain ⟨hfails, hreports⟩ := checked_of_foreign (x := s.checkIndex k true)
      (f := fun _ => modifyCode (·.insertCell k i)) ht
    exact hbind (x := insert k i) (fun _ => .done)
      ⟨hfails, fun h => hreports (checkIndex_atEnd_eq_ok_iff.2 h.1) h.2⟩
  | replace k i =>
    obtain ⟨hfails, hreports⟩ := checked_of_foreign (x := s.checkIndex k false)
      (f := fun _ => exchange k (·.setInstruction k i)) ht
    exact hbind (x := replace k i) .instruction
      ⟨hfails, fun h => hreports (checkIndex_eq_ok_iff.2 h.1) h.2⟩
  | addTry entry =>
    have hlabels : entry.places.forM s.checkLabel = .error (.unknownLabel t) :=
      forM_checkLabel_of_foreign ht
    have haddTry : addTry entry s = .error (.unknownLabel t) s := by
      rw [addTry, run_get_bind, hlabels]
      rfl
    exact hbind (x := addTry entry) (fun _ => .done) ⟨⟨_, haddTry⟩, fun _ => haddTry⟩
  | _ => cases ht

/-! ### Labels in use -/

namespace Refines

theorem issued_iff (h : s.Refines d) : d.listing.Issued d.id label ↔ ¬ s.Foreign label := by
  rw [Listing.Issued, Foreign, h.id, h.tracks.issued, not_or, not_not, Nat.not_le]

/-- A label that has been issued stands at a cell. -/
theorem stands (h : s.Refines d) (hd : d.Sound) (hlabel : d.listing.Issued d.id label) :
    s.Stands label := by
  obtain ⟨k, hk⟩ := hd.exists_locate_eq_ok hlabel
  obtain ⟨hdraft, hlocate⟩ := Draft.locate_eq_ok_iff.1 hk
  obtain ⟨g, hg⟩ := h.exists_handle (h.coherent.locate?_le_size hdraft hlocate)
  have hsame : (⟨s.id, label.number⟩ : Label) = label := by rw [h.id, ← hdraft]
  refine ⟨hdraft.trans h.id.symm, k, g, ?_, hg, h.tracks.exact.live_of_getElem? hg, ?_⟩
  · rw [h.tracks.places _ hlabel.2, hsame, hlocate, Option.bind_some, hg]
  · rw [h.labelIndex_eq, hk]

theorem stands_of_mem_targets (h : s.Refines d) (hd : d.Sound) (hi : i ∈ s.instructions)
    (hlabel : label ∈ i.targets) : s.Stands label := by
  rw [h.tracks.instructions_eq] at hi
  exact h.stands hd (hd.listing.targets i hi label hlabel)

theorem stands_of_mem_places (h : s.Refines d) (hd : d.Sound) {entry : TryEntry Label}
    (hentry : entry ∈ s.tries.toList) (hlabel : label ∈ entry.places) : s.Stands label := by
  rw [h.tries] at hentry
  exact h.stands hd (hd.tries entry hentry label hlabel)

/-- Looking up a label fails only if it is foreign. -/
theorem foreign_of_cellOf (h : s.Refines d) (hd : d.Sound) (herror : s.cellOf label = .error e) :
    s.Foreign label ∧ e = .unknownLabel label := by
  by_cases hforeign : s.Foreign label
  · rw [cellOf_of_foreign hforeign] at herror
    exact ⟨hforeign, (Except.error.inj herror).symm⟩
  · obtain ⟨k, hk⟩ := hd.exists_locate_eq_ok (h.issued_iff.2 hforeign)
    rw [h.cellOf_eq, hk] at herror
    cases herror

/-! ### Reads -/

/-- Relaxation does not fail on account of a label. -/
theorem not_aboutLabel_of_relax (h : s.Refines d) (hd : d.Sound)
    (herror : relax s = .error e s') : ¬ e.AboutLabel := by
  have hrelaxed := (h.exists_relax_eq_error_iff hd).1 ⟨s', herror⟩
  cases howners? : d.owners? with
  | some owners =>
    rw [Draft.relaxed_of_owners?_eq_some howners?] at hrelaxed
    cases hrelaxed
  | none =>
    obtain ⟨k, hfault, -⟩ := (hd.relaxed_eq_error_iff howners?).1 hrelaxed
    rintro ⟨label, rfl | rfl⟩ <;> cases hfault

/-- Relaxation issues no labels. -/
theorem foreign_relax_iff (h : s.Refines d) (hd : d.Sound) (hok : relax s = .ok ⟨⟩ s') :
    s'.Foreign label ↔ s.Foreign label := by
  obtain ⟨d', hd', h'⟩ := (agree_relax h hd).exists_of_ok hok
  have hsame : d'.id = d.id ∧ d'.listing.issued = d.listing.issued := by
    have hrelaxed := Draft.relax_eq_ok_iff.1 hd'
    cases howners? : d.owners? with
    | some owners =>
      rw [Draft.relaxed_of_owners?_eq_some howners?] at hrelaxed
      obtain rfl := Except.ok.inj hrelaxed
      exact ⟨rfl, rfl⟩
    | none =>
      obtain ⟨owners, howners, rfl⟩ := Draft.relaxed_of_owners?_eq_none howners? hrelaxed
      exact ⟨rfl, Bound.issued_of_mends (Bound.mends_settle (hd.bound howners))⟩
  rw [Foreign, Foreign, h'.id, h.id, h'.tracks.issued, h.tracks.issued, hsame.1, hsame.2]

/-- A read fails on account of a label only if it is asked for the address of a foreign one. -/
theorem foreign_of_consult (h : s.Refines d) (hd : d.Sound) {r : Reading}
    (herror : consult r s = .error e s') (he : e.AboutLabel) :
    ∃ label, r = .address label ∧ s.Foreign label ∧ e = .unknownLabel label := by
  cases hrelax : relax s with
  | error e' s₁ =>
    rw [consult_of_relax_eq_error hrelax] at herror
    cases herror
    exact absurd he (h.not_aboutLabel_of_relax hd hrelax)
  | ok _ s₁ =>
    obtain ⟨hinstructions, hlocations, htries, hitems, haddress, hmethod⟩ :=
      reads_of_relax_eq_ok hrelax
    obtain ⟨d₁, hd₁, h₁⟩ := (agree_relax h hd).exists_of_ok hrelax
    have hsound := (hd.relaxed (Draft.relax_eq_ok_iff.1 hd₁)).1
    cases r with
    | instructions => rw [consult, run_bind_of_ok hinstructions] at herror; cases herror
    | locations => rw [consult, run_bind_of_ok hlocations] at herror; cases herror
    | tries => rw [consult, run_bind_of_ok htries] at herror; cases herror
    | debugItems => rw [consult, run_bind_of_ok hitems] at herror; cases herror
    | address label =>
      have haddress := haddress label
      cases hcell : s₁.cellOf label with
      | ok cell =>
        rw [hcell] at haddress
        rw [consult, run_bind_of_ok haddress] at herror
        cases herror
      | error e' =>
        rw [hcell] at haddress
        rw [consult, run_bind_of_error haddress] at herror
        cases herror
        obtain ⟨hforeign, rfl⟩ := h₁.foreign_of_cellOf hsound hcell
        exact ⟨label, rfl, (h.foreign_relax_iff hd hrelax).1 hforeign, rfl⟩
    | method =>
      obtain ⟨o, ho⟩ := hsound.exists_outline
      rw [h₁.outline_eq, ho] at hmethod
      change toMethod s = require (o.toMethod s₁.switchIndex?) s₁ at hmethod
      cases hfinished : o.toMethod s₁.switchIndex? with
      | ok m =>
        rw [hfinished] at hmethod
        rw [consult, run_bind_of_ok hmethod] at herror
        cases herror
      | error e' =>
        rw [hfinished] at hmethod
        rw [consult, run_bind_of_error hmethod] at herror
        cases herror
        obtain ⟨k, opcode, offset, rfl⟩ := o.failsWith_toMethod _ _ hfinished
        obtain ⟨label, hlabel | hlabel⟩ := he <;> cases hlabel

/-- A foreign label has no address. -/
theorem readAddress_of_foreign (h : s.Refines d) (hd : d.Sound) (hlabel : s.Foreign label) :
    (∃ e s', readAddress label s = .error e s') ∧
      ∀ s', relax s = .ok ⟨⟩ s' → readAddress label s = .error (.unknownLabel label) s' := by
  have hrelaxed : ∀ s', relax s = .ok ⟨⟩ s' →
      readAddress label s = .error (.unknownLabel label) s' := by
    intro s' hok
    obtain ⟨-, -, -, -, haddress, -⟩ := reads_of_relax_eq_ok hok
    rw [haddress, cellOf_of_foreign ((h.foreign_relax_iff hd hok).2 hlabel)]
    rfl
  refine ⟨?_, hrelaxed⟩
  cases hrelax : relax s with
  | ok _ s' => exact ⟨_, s', hrelaxed s' hrelax⟩
  | error e s' =>
    obtain ⟨-, -, -, -, haddress, -⟩ := reads_of_relax_eq_error hrelax
    exact ⟨e, s', haddress label⟩

end Refines

end Store

end Dalvik
