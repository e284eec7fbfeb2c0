import Dalvik.Proofs.Store.Labels
import Dalvik.Proofs.Strict.Assembling
import Dalvik.Proofs.Strict.Reading
import Dalvik.Registry

/-!
# Sessions

In a session any number of stores and assemblers are in use side by side (`Session`).  Stores are
started, opened, assembled and copied, and what is done with one of them may mention the labels of any
other: the arguments of an action are arbitrary.

However a session goes on, its stores are safe (`Store.Safe`): the labels in use stand at cells, foreign
labels are refused, and no lookup gets stuck.  Nor does the session as a whole, when everything in it is
done with strict lookups (`Session.safe_of_run`).
-/

namespace Dalvik

/-- Stores and assemblers that are in use side by side. -/
structure Session where
  /-- Where they have their identities from. -/
  registry : Registry := {}
  /-- The stores. -/
  stores : List Store := []
  /-- The assemblers that have not been finished. -/
  assemblers : List StoreAssembler := []

namespace Session

/-- What can be done in a session. -/
inductive Action where
  /-- Starts a store with nothing in it. -/
  | new (registers : UInt16)
  /-- Opens a finished method. -/
  | openMethod (m : Method)
  /-- Starts to assemble a store. -/
  | assemble (registers : UInt16)
  /-- Goes on assembling a store. -/
  | extend (k : Nat) (action : Assembler.Action)
  /-- Finishes a store that is being assembled.  If that fails, it is lost. -/
  | build (k : Nat)
  /-- Copies a store, with its identity. -/
  | copy (k : Nat)
  /-- Does something with a store. -/
  | act (k : Nat) (action : Draft.Action)

/-- The session after the next identity has been handed out. -/
def issue (s : Session) : Session := { s with registry := s.registry.next }

/-- Adds a store, if there is one. -/
def add (s : Session) (store? : Except Error Store) : Session :=
  match store? with
  | .ok store => { s with stores := s.stores ++ [store] }
  | .error _ => s

/-- The session after an action.  What is not there is left alone. -/
def next (s : Session) : Action → Session
  | .new registers => s.issue.add (.ok (.new s.registry.issued registers))
  | .openMethod m => s.issue.add (Store.ofMethod s.registry.issued m)
  | .assemble registers =>
    { s.issue with assemblers := s.assemblers ++ [.new s.registry.issued registers] }
  | .extend k action =>
    match s.assemblers[k]? with
    | none => s
    | some a => { s with assemblers := s.assemblers.set k (a.next action) }
  | .build k =>
    match s.assemblers[k]? with
    | none => s
    | some a => { s with assemblers := s.assemblers.eraseIdx k }.add a.build
  | .copy k =>
    match s.stores[k]? with
    | none => s
    | some store => s.add (.ok store)
  | .act k action =>
    match s.stores[k]? with
    | none => s
    | some store => { s with stores := s.stores.set k (store.next action) }

/-- A session after some actions. -/
def run (actions : List Action) : Session := actions.foldl next {}

namespace Strict

/-- The session after an action, with strict lookups. -/
def next (s : Session) : Action → Option Session
  | .openMethod m => return s.issue.add (← Store.Strict.ofMethod s.registry.issued m)
  | .extend k action =>
    match s.assemblers[k]? with
    | none => return s
    | some a =>
      return { s with assemblers := s.assemblers.set k (← StoreAssembler.Strict.next a action) }
  | .act k action =>
    match s.stores[k]? with
    | none => return s
    | some store => return { s with stores := s.stores.set k (← Store.Strict.next store action) }
  | action => return s.next action

/-- A session after some actions, with strict lookups. -/
def run (actions : List Action) : Option Session := actions.foldlM next {}

end Strict

/-! ### What is in a session comes about -/

/-- The stores and the assemblers come about one by one. -/
structure Sound (s : Session) : Prop where
  /-- Every store comes about. -/
  stores : ∀ store ∈ s.stores, store.Reachable
  /-- Every assembler comes about. -/
  assemblers : ∀ a ∈ s.assemblers, a.Reachable

variable {s : Session}

theorem Sound.add (h : s.Sound) {store? : Except Error Store}
    (hstore : ∀ store, store? = .ok store → store.Reachable) : (s.add store?).Sound := by
  cases store? with
  | error e => exact h
  | ok store =>
    refine ⟨fun store' hstore' => ?_, h.assemblers⟩
    rcases List.mem_append.1 hstore' with hold | hnew
    · exact h.stores store' hold
    · exact hstore store' (congrArg Except.ok (List.mem_singleton.1 hnew).symm)

theorem Sound.issue (h : s.Sound) : s.issue.Sound := ⟨h.stores, h.assemblers⟩

/-- A strict step does not get stuck, and it keeps a session sound. -/
theorem Sound.strict_next (h : s.Sound) (action : Action) :
    Strict.next s action = some (s.next action) ∧ (s.next action).Sound := by
  -- only what is opened, assembled or worked with looks anything up
  cases action with
  | new registers =>
    rw [next]
    refine ⟨rfl, h.issue.add fun store hstore => ?_⟩
    rw [← Except.ok.inj hstore]
    exact .new _ _
  | openMethod m =>
    refine ⟨?_, h.issue.add fun store hstore => .ofMethod hstore⟩
    rw [Strict.next, Store.strict_ofMethod]
    rfl
  | assemble registers =>
    refine ⟨rfl, h.stores, fun a ha => ?_⟩
    rcases List.mem_append.1 ha with hold | hnew
    · exact h.assemblers a hold
    · rw [List.mem_singleton.1 hnew]
      exact .new _ _
  | extend k action =>
    rw [Strict.next, next]
    cases hk : s.assemblers[k]? with
    | none => exact ⟨rfl, h⟩
    | some a =>
      have ha := h.assemblers a (List.mem_of_getElem? hk)
      obtain ⟨draft, -, hrefines⟩ := ha.exists_refines
      dsimp only
      rw [hrefines.strict_next action]
      refine ⟨rfl, h.stores, fun a' ha' => ?_⟩
      rcases List.mem_or_eq_of_mem_set ha' with hold | rfl
      · exact h.assemblers a' hold
      · exact ha.next action
  | build k =>
    refine ⟨rfl, ?_⟩
    rw [next]
    cases hk : s.assemblers[k]? with
    | none => exact h
    | some a =>
      have hleft : Sound { s with assemblers := s.assemblers.eraseIdx k } :=
        ⟨h.stores, fun a' ha' => h.assemblers a' (List.mem_of_mem_eraseIdx ha')⟩
      exact hleft.add fun store hstore => .build (h.assemblers a (List.mem_of_getElem? hk)) hstore
  | copy k =>
    refine ⟨rfl, ?_⟩
    rw [next]
    cases hk : s.stores[k]? with
    | none => exact h
    | some store =>
      refine h.add fun store' hstore => ?_
      obtain rfl := Except.ok.inj hstore
      exact h.stores store (List.mem_of_getElem? hk)
  | act k action =>
    rw [Strict.next, next]
    cases hk : s.stores[k]? with
    | none => exact ⟨rfl, h⟩
    | some store =>
      have hstore := h.stores store (List.mem_of_getElem? hk)
      obtain ⟨d, hd, hrefines⟩ := hstore.exists_refines
      dsimp only
      rw [hrefines.strict_next hd.sound action]
      refine ⟨rfl, fun store' hstore' => ?_, h.assemblers⟩
      rcases List.mem_or_eq_of_mem_set hstore' with hold | rfl
      · exact h.stores store' hold
      · exact hstore.next action

/-- A strict session does not get stuck, and everything in it comes about. -/
theorem strict_run (actions : List Action) :
    Strict.run actions = some (run actions) ∧ (run actions).Sound :=
  foldlM_eq_some actions ⟨fun _ h => absurd h List.not_mem_nil, fun _ h => absurd h List.not_mem_nil⟩
    fun _ hs action _ => hs.strict_next action

end Session

/-! ### Safety -/

/-- The labels of a store do no harm. -/
structure Store.Safe (s : Store) : Prop where
  /-- Labels in the code stand at cells. -/
  code : ∀ i ∈ s.instructions, ∀ label ∈ i.targets, s.Stands label
  /-- So do labels in handlers. -/
  tries : ∀ entry ∈ s.tries.toList, ∀ label ∈ entry.places, s.Stands label
  /-- Relaxation does not fail on account of a label. -/
  relaxing : ∀ e s', relax s = .error e s' → ¬ e.AboutLabel
  /-- A read does so only if it is asked for the address of a foreign one. -/
  reading : ∀ r e s', consult r s = .error e s' → e.AboutLabel →
    ∃ label, r = .address label ∧ s.Foreign label ∧ e = .unknownLabel label
  /-- An edit that is given a foreign label fails, and reports the first one if nothing else is wrong. -/
  editing : ∀ edit : Page.Edit, (∃ label ∈ edit.labels, s.Foreign label) →
    (∃ e, perform edit s = .error e s) ∧
      (s.Admits edit → ∃ t, edit.labels.find? (fun label => s.Foreign label) = some t ∧
        perform edit s = .error (.unknownLabel t) s)
  /-- A foreign label has no position. -/
  index : ∀ label, s.Foreign label → s.labelIndex label = .error (.unknownLabel label)
  /-- Nor does it have an address, which is found out once the store is relaxed. -/
  address : ∀ label, s.Foreign label → (∃ e s', readAddress label s = .error e s') ∧
    ∀ s', relax s = .ok ⟨⟩ s' → readAddress label s = .error (.unknownLabel label) s'
  /-- Edits do not get stuck. -/
  strictEdits : ∀ edit, Faithful (Strict.perform edit) (perform edit) s
  /-- Relaxation does not get stuck. -/
  strictRelax : Faithful Strict.relax relax s
  /-- Reads do not get stuck. -/
  strictReads : ∀ r, Faithful (Strict.consult r) (consult r) s
  /-- Nor do lookups that leave the store alone. -/
  strictLookups : Strict.size s = some s.size ∧ Strict.units s = some s.units ∧
    (∀ k, Strict.instruction? s k = some (s.instruction? k)) ∧
    ∀ label, Strict.labelIndex s label = some (s.labelIndex label)

/-- A store that comes about is safe. -/
theorem Store.safe_of_reachable {s : Store} (h : s.Reachable) : s.Safe := by
  obtain ⟨d, hreachable, hrefines⟩ := h.exists_refines
  have hd := hreachable.sound
  have hconsistent := hrefines.consistent
  exact
    { code := fun i hi label => hrefines.stands_of_mem_targets hd hi
      tries := fun entry hentry label => hrefines.stands_of_mem_places hd hentry
      relaxing := fun e s' => hrefines.not_aboutLabel_of_relax hd
      reading := fun r e s' => hrefines.foreign_of_consult hd
      editing := fun edit ⟨label, hlabel, hforeign⟩ => by
        have hfound : (edit.labels.find? fun label => s.Foreign label).isSome :=
          List.find?_isSome.2 ⟨label, hlabel, decide_eq_true hforeign⟩
        obtain ⟨t, ht⟩ := Option.isSome_iff_exists.1 hfound
        obtain ⟨hfails, hreports⟩ := perform_of_foreign edit ht
        exact ⟨hfails, fun hadmits => ⟨t, ht, hreports hadmits⟩⟩
      index := fun label => labelIndex_of_foreign
      address := fun label => hrefines.readAddress_of_foreign hd
      strictEdits := hconsistent.faithful_perform
      strictRelax := hrefines.faithful_relax hd
      strictReads := hrefines.faithful_consult hd
      strictLookups := ⟨Strict.size_eq hconsistent.size_pos, hconsistent.strict_units,
        hconsistent.strict_instruction?, hconsistent.strict_labelIndex⟩ }

namespace Session

/-- However a session goes on, it does not get stuck when all lookups are strict, and all its stores are
safe. -/
theorem safe_of_run (actions : List Action) :
    Strict.run actions = some (run actions) ∧ ∀ store ∈ (run actions).stores, store.Safe := by
  obtain ⟨hrun, hsound⟩ := strict_run actions
  exact ⟨hrun, fun store hstore => Store.safe_of_reachable (hsound.stores store hstore)⟩

/-- A store is copied before it issues another label, which the copy and a third store are then given. -/
def crossing : List Action :=
  [.new 1, .act 0 (.append .nop), .act 0 (.labelAt 0), .copy 0, .new 1, .act 0 (.labelAt 1),
    .act 0 (.append (.goto .byte ⟨0, 1⟩)), .act 1 (.append (.goto .byte ⟨0, 1⟩)),
    .act 1 (.append (.goto .byte ⟨0, 0⟩)), .act 2 (.append (.goto .byte ⟨0, 0⟩)),
    .act 0 (.remove 1), .act 1 .toMethod]

/-- The store at a position when the labels have been given. -/
def crossed (k : Nat) : Store := ((run crossing).stores[k]?).getD default

/-- The second label stands in the original, at the end once its instruction is gone.  The copy, which
shares the identity, does not know it, and the third store knows neither of the labels. -/
theorem safe_of_run_crossing :
    Strict.run crossing = some (run crossing) ∧ (run crossing).stores.length = 3 ∧
      (∀ k < 3, crossed k ∈ (run crossing).stores ∧ (crossed k).Safe) ∧
      (crossed 0).labelIndex ⟨0, 1⟩ = .ok 1 ∧
      (crossed 1).id = (crossed 0).id ∧ (crossed 1).Stands ⟨0, 0⟩ ∧
      Store.perform (.append (.goto .byte ⟨0, 1⟩)) (crossed 1) =
        .error (.unknownLabel ⟨0, 1⟩) (crossed 1) ∧
      (crossed 2).id ≠ (crossed 0).id ∧ (crossed 2).size = 0 ∧
      (crossed 2).labelIndex ⟨0, 0⟩ = .error (.unknownLabel ⟨0, 0⟩) := by
  obtain ⟨hrun, hsafe⟩ := safe_of_run crossing
  have hstores : ∀ k < 3, crossed k ∈ (run crossing).stores := by decide +kernel
  have hcopy := hsafe _ (hstores 1 (by decide))
  have hthird := hsafe _ (hstores 2 (by decide))
  obtain ⟨-, hreports⟩ := hcopy.editing (.append (.goto .byte ⟨0, 1⟩))
    ⟨⟨0, 1⟩, List.mem_singleton_self _, by decide +kernel⟩
  obtain ⟨t, ht, hperform⟩ := hreports rfl
  obtain rfl : t = ⟨0, 1⟩ := List.mem_singleton.1 (List.mem_of_find?_eq_some ht)
  refine ⟨hrun, by decide +kernel, fun k hk => ⟨hstores k hk, hsafe _ (hstores k hk)⟩,
    by decide +kernel, by decide +kernel, ?_, hperform, by decide +kernel, by decide +kernel,
    hthird.index _ (by decide +kernel)⟩
  exact hcopy.code (.goto .byte ⟨0, 0⟩) (by decide +kernel) _ (List.mem_singleton_self _)

end Session

end Dalvik
