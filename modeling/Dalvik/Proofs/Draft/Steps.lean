import Dalvik.Proofs.Draft.Soundness
import Dalvik.Proofs.Listing.Marking
import Dalvik.Draft.Read

/-!
# What can become of a draft

`Draft.Action` are the things that can be done with a draft, edits and reads alike, and
`Draft.Action.next` is the draft in which an action ends, whether it succeeds or fails.  `Draft.Step`
says what can become of a draft in one action; it is the only thing that has to be known about
actions to see that they all keep a draft sound (`Draft.Step.sound`).
-/

namespace Dalvik

namespace Draft

/-- The draft with other code, which has to be relaxed. -/
def withListing (d : Draft) (l : Listing) : Draft := { d with listing := l, owners? := none }

/-- What can become of a draft in one action. -/
inductive Step (d : Draft) : Draft → Prop
  /-- Nothing has changed. -/
  | same : Step d d
  /-- An instruction has been added. -/
  | insertAt {k : Nat} {i : Instruction Label} (hk : k ≤ d.listing.size) (hvalid : i.Valid)
      (htargets : ∀ label ∈ i.targets, d.listing.Issued d.id label) :
      Step d (d.withListing (d.listing.insertAt k i))
  /-- An instruction has been exchanged for another. -/
  | replaceAt {k : Nat} {i : Instruction Label} (hvalid : i.Valid)
      (htargets : ∀ label ∈ i.targets, d.listing.Issued d.id label) :
      Step d (d.withListing (d.listing.replaceAt k i))
  /-- An instruction has been removed. -/
  | removeAt (k : Nat) : Step d (d.withListing (d.listing.removeAt k))
  /-- Two instructions have changed places. -/
  | swapAt (k₁ k₂ : Nat) : Step d (d.withListing (d.listing.swapAt k₁ k₂))
  /-- A label has been issued and placed. -/
  | label {k : Nat} (hk : k ≤ d.listing.size) :
      Step d { d with listing := d.listing.issue.mark k (d.listing.nextLabel d.id) }
  /-- An exception handler has been added. -/
  | handler {entry : TryEntry Label}
      (hentry : ∀ label ∈ entry.places, d.listing.Issued d.id label) :
      Step d { d with tries := d.tries.push entry }
  /-- Debug items have been added or removed. -/
  | items {l : Listing} (hl : l.SameButItems d.listing) : Step d { d with listing := l }
  /-- The draft has been relaxed. -/
  | relaxed {d' : Draft} (h : d.relaxed = .ok d') : Step d d'

variable {α β : Type} {d d' : Draft}

/-! ### Every step keeps a draft sound -/

theorem Reaches.congr {l l' : Listing} {switch table : Nat}
    (hinstructions : l'.instructions = l.instructions)
    (hlocate : ∀ i ∈ l.instructions, ∀ label ∈ i.targets, l'.locate? label = l.locate? label) :
    l'.Reaches switch table ↔ l.Reaches switch table := by
  have hswitch : ∀ i ∈ l.instructions[switch]?, ∀ label ∈ i.switchTarget?,
      l'.locate? label = l.locate? label := by
    intro i hi label hlabel
    exact hlocate i (List.mem_of_getElem? hi) label
      (Instruction.mem_targets_of_switchTarget? hlabel)
  rw [Listing.Reaches, Listing.Reaches, hinstructions]
  constructor
  · intro h
    exact h.congr fun i hi label hlabel => (hswitch i hi label hlabel).symm
  · intro h
    exact h.congr hswitch

/-- A draft stays legal if its code, its owners and the places of the labels in use stay. -/
theorem Legal.congr (h : d.Legal) (hid : d'.id = d.id) (howners : d'.owners? = d.owners?)
    (hinstructions : d'.listing.instructions = d.listing.instructions)
    (hlocate : ∀ i ∈ d.listing.instructions, ∀ label ∈ i.targets,
      d'.listing.locate? label = d.listing.locate? label) : d'.Legal := by
  have hinstruction : ∀ k, d'.instruction? k = d.instruction? k := by
    intro k
    rw [instruction?, instruction?, ← Listing.getElem?_instructions, hinstructions,
      Listing.getElem?_instructions]
  have hreaches : ∀ switch table,
      d'.listing.Reaches switch table ↔ d.listing.Reaches switch table :=
    fun _ _ => Reaches.congr hinstructions hlocate
  have hjumps : ∀ {o low high}, d.JumpsWithin o low high → d'.JumpsWithin o low high := by
    intro o low high hd k i hi ho
    rw [hinstruction] at hi
    obtain ⟨label, stop, htargets, hstop, hlow, hhigh⟩ := hd k i hi ho
    have hmem : i ∈ d.listing.instructions :=
      List.mem_of_getElem? ((Listing.getElem?_instructions d.listing k).trans hi)
    have hsame := hlocate i hmem label (by rw [htargets]; exact List.mem_singleton_self label)
    refine ⟨label, stop, htargets, ?_, ?_, ?_⟩
    · rw [locate_eq_ok_iff] at hstop ⊢
      rwa [hid, hsame]
    · rwa [hinstructions]
    · rwa [hinstructions]
  refine ⟨?_, hjumps h.short, hjumps h.medium, ?_, ?_, ?_⟩
  · intro k p hi
    rw [hinstruction] at hi
    rw [hinstructions]
    exact h.aligned k p hi
  · intro k i hi ho
    rw [hinstruction] at hi
    simpa only [hreaches] using h.bound k i hi ho
  · intro k p hi htable
    rw [hinstruction] at hi
    simpa only [hreaches] using h.owned k p hi htable
  · obtain ⟨owners, hd, hiff⟩ := h.owners
    refine ⟨owners, howners.trans hd, fun table switch => ?_⟩
    rw [hiff, hreaches]

namespace Sound

/-- Code may change in any way that keeps the listing sound, since relaxation is asked for. -/
theorem withListing (h : d.Sound) {l : Listing} (hl : l.Sound d.id)
    (hissued : l.issued = d.listing.issued) : (d.withListing l).Sound where
  listing := hl
  tries entry hentry label hlabel := by
    have hold := h.tries entry hentry label hlabel
    exact ⟨hold.1, hissued ▸ hold.2⟩
  legal hclean := by simp [needsRelaxation, Draft.withListing] at hclean

theorem edit (h : d.Sound) {l : Listing} (hl : l.Coherent d.id)
    (hlabels : l.labels = d.listing.labels) (hissued : l.issued = d.listing.issued) :
    (d.withListing l).Sound :=
  h.withListing (h.listing.of_labels_eq hlabels hissued hl) hissued

/-- Labels and debug items may change as long as the labels in use stay where they are. -/
theorem annotate (h : d.Sound) {l : Listing} (hl : l.Sound d.id)
    (hinstructions : l.instructions = d.listing.instructions)
    (hissued : d.listing.issued ≤ l.issued)
    (hlocate : ∀ label, d.listing.Issued d.id label →
      l.locate? label = d.listing.locate? label) : Sound { d with listing := l } where
  listing := hl
  tries entry hentry label hlabel := by
    have hold := h.tries entry hentry label hlabel
    exact ⟨hold.1, Nat.lt_of_lt_of_le hold.2 hissued⟩
  legal hclean := (h.legal hclean).congr rfl rfl hinstructions fun i hi label hlabel =>
    hlocate label (h.listing.targets i hi label hlabel)

end Sound

/-- Whatever becomes of a sound draft is sound. -/
theorem Step.sound (h : d.Step d') (hd : d.Sound) : d'.Sound := by
  have hcoherent := hd.listing.toCoherent
  cases h with
  | same => exact hd
  | insertAt hk hvalid htargets =>
    exact hd.edit (hcoherent.insertAt hk hvalid htargets) (Listing.labels_insertAt _ _ _)
      (Listing.issued_insertAt _ _ _)
  | replaceAt hvalid htargets =>
    exact hd.edit (hcoherent.replaceAt _ hvalid htargets) (Listing.labels_replaceAt _ _ _) rfl
  | removeAt k =>
    exact hd.edit (hcoherent.removeAt k) (Listing.labels_removeAt _ _)
      (Listing.issued_removeAt _ _)
  | swapAt k₁ k₂ =>
    refine hd.edit (hcoherent.swapAt k₁ k₂) ?_ ?_
    · unfold Listing.swapAt
      split
      · rw [Listing.labels_replaceAt, Listing.labels_replaceAt]
      · rfl
    · unfold Listing.swapAt
      split <;> rfl
  | label hk =>
    refine hd.annotate (hd.listing.mark_nextLabel hk) (Listing.instructions_mark _ _ _) ?_
      fun label hissued => hcoherent.locate?_mark_nextLabel hk hissued
    rw [Listing.issued_mark]
    exact Nat.le_succ _
  | handler hentry =>
    refine ⟨hd.listing, fun entry hmem label hlabel => ?_, fun hclean => ?_⟩
    · rw [Array.toList_push, List.mem_append, List.mem_singleton] at hmem
      rcases hmem with hold | rfl
      · exact hd.tries entry hold label hlabel
      · exact hentry label hlabel
    · exact (hd.legal hclean).congr rfl rfl rfl fun _ _ _ _ => rfl
  | items hl =>
    exact hd.annotate (hl.sound hd.listing) hl.instructions (Nat.le_of_eq hl.issued.symm)
      fun label hissued => hl.locate?_eq hd.listing hissued.1
  | relaxed hok => exact (hd.relaxed hok).1

/-! ### Actions -/

/-- The draft in which an action ends, whether it succeeds or fails. -/
def after (action : DraftM α) (d : Draft) : Draft :=
  match action d with
  | .ok _ d' => d'
  | .error _ d' => d'

theorem after_require (x : Except Error α) (d : Draft) : after (require x) d = d := by
  cases x <;> rfl

theorem after_get_bind (rest : Draft → DraftM α) (d : Draft) :
    after (get >>= rest) d = after (rest d) d := rfl

/-- An action that starts with a check goes on only if the check succeeds. -/
theorem after_require_bind (x : Except Error α) (rest : α → DraftM β) (d : Draft) :
    after (require x >>= rest) d = d ∨
      ∃ a, x = .ok a ∧ after (require x >>= rest) d = after (rest a) d := by
  cases x with
  | error e => exact Or.inl rfl
  | ok a => exact Or.inr ⟨a, rfl, rfl⟩

theorem step_require_bind {x : Except Error α} {rest : α → DraftM β}
    (h : ∀ a, x = .ok a → d.Step (after (rest a) d)) : d.Step (after (require x >>= rest) d) := by
  rcases after_require_bind x rest d with hsame | ⟨a, hok, hrest⟩
  · rw [hsame]
    exact .same
  · rw [hrest]
    exact h a hok

theorem step_discard_bind {x : Except Error α} {rest : DraftM β}
    (h : ∀ a, x = .ok a → d.Step (after rest d)) :
    d.Step (after (do discard (require x); rest) d) := by
  cases x with
  | error e => exact .same
  | ok a => exact h a rfl

theorem relax_of_relaxed_eq_error {e : Error} (h : d.relaxed = .error e) :
    relax d = .error e d := by
  rw [relax, run_get_bind, h]
  rfl

theorem relax_of_relaxed_eq_ok {d' : Draft} (h : d.relaxed = .ok d') : relax d = .ok () d' := by
  rw [relax, run_get_bind, h]
  rfl

/-- Reading something out of a relaxed draft leaves it as it is. -/
theorem step_relax_bind {rest : DraftM α} (h : ∀ d', after rest d' = d') :
    d.Step (after (do relax; rest) d) := by
  cases hok : d.relaxed with
  | error e =>
    have hsame : after (do relax; rest) d = d := by
      rw [after, run_bind_of_error (relax_of_relaxed_eq_error hok)]
    rw [hsame]
    exact .same
  | ok d' =>
    have hrest : after (do relax; rest) d = after rest d' := by
      rw [after, run_bind_of_ok (relax_of_relaxed_eq_ok hok), ← after]
    rw [hrest, h]
    exact .relaxed hok

theorem checkIndex_eq_ok_iff {k : Nat} : d.checkIndex k = .ok () ↔ k ≤ d.listing.size := by
  unfold checkIndex
  split
  · next h => exact ⟨fun _ => h, fun _ => rfl⟩
  · next h => exact ⟨fun h' => by simp at h', fun h' => absurd h' h⟩

/-- An instruction that passes the check is added at the end. -/
theorem after_append (i : Instruction Label) (d : Draft) :
    after (append i) d = d ∨
      (i.Valid ∧ (∀ label ∈ i.targets, d.listing.Issued d.id label) ∧
        after (append i) d = d.withListing (d.listing.insertAt d.listing.size i)) := by
  refine (after_require_bind (d.checkInstruction i) (fun _ => modifyListing (·.append i)) d).imp_right ?_
  rintro ⟨_, hcheck, hafter⟩
  obtain ⟨hvalid, htargets⟩ := checkInstruction_eq_ok_iff.1 hcheck
  have hend : d.listing.insertAt d.listing.size i = d.listing.append i :=
    if_neg (Nat.lt_irrefl _)
  refine ⟨hvalid, htargets, ?_⟩
  rw [hend]
  exact hafter

theorem step_append (i : Instruction Label) : d.Step (after (append i) d) := by
  rcases after_append i d with hsame | ⟨hvalid, htargets, hafter⟩
  · rw [hsame]
    exact .same
  · rw [hafter]
    exact .insertAt (Nat.le_refl _) hvalid htargets

theorem step_insert (k : Nat) (i : Instruction Label) : d.Step (after (insert k i) d) := by
  refine step_require_bind fun _ hindex => step_require_bind fun _ hcheck => ?_
  obtain ⟨hvalid, htargets⟩ := checkInstruction_eq_ok_iff.1 hcheck
  exact .insertAt (checkIndex_eq_ok_iff.1 hindex) hvalid htargets

theorem step_replace (k : Nat) (i : Instruction Label) : d.Step (after (replace k i) d) := by
  refine step_require_bind fun old _ => step_require_bind fun _ hcheck => ?_
  obtain ⟨hvalid, htargets⟩ := checkInstruction_eq_ok_iff.1 hcheck
  exact .replaceAt hvalid htargets

theorem step_remove (k : Nat) : d.Step (after (remove k) d) :=
  step_require_bind fun _ _ => .removeAt k

theorem step_swap (k₁ k₂ : Nat) : d.Step (after (swap k₁ k₂) d) := by
  refine step_discard_bind fun _ _ => step_discard_bind fun _ _ => ?_
  by_cases hne : k₁ ≠ k₂
  · rw [if_pos hne]
    exact .swapAt k₁ k₂
  · rw [if_neg hne]
    exact .same

/-- A new label stands at a position of the listing. -/
theorem step_issueLabelAt {k : Nat} (hk : k ≤ d.listing.size) :
    d.Step (after (issueLabelAt k) d) := .label hk

theorem step_labelAt (k : Nat) : d.Step (after (labelAt k) d) :=
  step_require_bind fun _ hindex => step_issueLabelAt (checkIndex_eq_ok_iff.1 hindex)

/-- Some instruction of the listing covers an address, or its end does. -/
theorem covering_le (code : List (Instruction Label)) (first address : Nat) :
    Listing.covering first code address ≤ first + code.length := by
  induction code generalizing first address with
  | nil => exact Nat.le_refl _
  | cons i rest ih =>
    unfold Listing.covering
    split
    · exact Nat.le_add_right _ _
    · have hrest := ih (first + 1) (address - i.units)
      rw [List.length_cons]
      omega

theorem step_labelAtAddress (address : UInt64) : d.Step (after (labelAtAddress address) d) := by
  by_cases hpast : d.units < address.toNat
  · have hsame : after (labelAtAddress address) d = d := by
      rw [labelAtAddress, after_get_bind, if_pos hpast]
      rfl
    rw [hsame]
    exact .same
  · have hissue : after (labelAtAddress address) d =
        after (issueLabelAt (Listing.covering 0 d.listing.instructions address.toNat)) d := by
      rw [labelAtAddress, after_get_bind, if_neg hpast]
    rw [hissue]
    refine step_issueLabelAt ?_
    simpa using covering_le d.listing.instructions 0 address.toNat

/-- A handler that passes the check is added behind the others. -/
theorem after_addTry (entry : TryEntry Label) (d : Draft) :
    after (addTry entry) d = d ∨
      ((∀ label ∈ entry.places, d.listing.Issued d.id label) ∧
        after (addTry entry) d = { d with tries := d.tries.push entry }) := by
  refine (after_require_bind (entry.places.forM d.checkLabel)
    (fun _ => modify fun d => { d with tries := d.tries.push entry }) d).imp_right ?_
  rintro ⟨_, hcheck, hafter⟩
  refine ⟨fun label hlabel => ?_, hafter⟩
  exact checkLabel_eq_ok_iff.1 (forM_eq_ok_iff.1 hcheck label hlabel)

theorem step_addTry (entry : TryEntry Label) : d.Step (after (addTry entry) d) := by
  rcases after_addTry entry d with hsame | ⟨hentry, hafter⟩
  · rw [hsame]
    exact .same
  · rw [hafter]
    exact .handler hentry

/-- A debug item is pinned to a position that exists. -/
theorem after_addDebugItem (k : Nat) (item : DebugItem) (d : Draft) :
    after (addDebugItem k item) d = d ∨
      (k ≤ d.listing.size ∧
        after (addDebugItem k item) d = { d with listing := d.listing.pin k item }) := by
  refine (after_require_bind (d.checkIndex k) (fun _ => modifyPoints (·.pin k item)) d).imp_right ?_
  rintro ⟨_, hindex, hafter⟩
  exact ⟨checkIndex_eq_ok_iff.1 hindex, hafter⟩

theorem step_addDebugItem (k : Nat) (item : DebugItem) :
    d.Step (after (addDebugItem k item) d) := by
  rcases after_addDebugItem k item d with hsame | ⟨hk, hafter⟩
  · rw [hsame]
    exact .same
  · rw [hafter]
    exact .items (Listing.sameButItems_pin hk item)

theorem step_removeDebugItems (k : Nat) : d.Step (after (removeDebugItems k) d) :=
  step_require_bind fun _ hindex =>
    .items (Listing.sameButItems_modifyPoint (checkIndex_eq_ok_iff.1 hindex) fun _ => rfl)

theorem step_retainDebugItems (keep : DebugItem → Bool) :
    d.Step (after (retainDebugItems keep) d) :=
  .items (Listing.sameButItems_retainItems d.listing keep)

theorem step_relax : d.Step (after relax d) :=
  step_require_bind fun _ hok => .relaxed hok

theorem step_readAddress (label : Label) : d.Step (after (readAddress label) d) := by
  refine step_relax_bind fun d' => ?_
  rw [after_get_bind]
  rcases after_require_bind (d'.locate label) _ d' with hsame | ⟨k, -, hrest⟩
  · exact hsame
  · exact hrest

theorem step_toMethod : d.Step (after toMethod d) := by
  refine step_relax_bind fun d' => ?_
  rw [after_get_bind]
  rcases after_require_bind d'.outline _ d' with hsame | ⟨o, -, hrest⟩
  · exact hsame
  · rw [hrest]
    exact after_require _ d'

/-- What can be done with a draft. -/
inductive Action where
  | append (i : Instruction Label)
  | insert (index : Nat) (i : Instruction Label)
  | replace (index : Nat) (i : Instruction Label)
  | remove (index : Nat)
  | swap (index₁ index₂ : Nat)
  | labelAt (index : Nat)
  | labelAtAddress (address : UInt64)
  | addTry (entry : TryEntry Label)
  | addDebugItem (index : Nat) (item : DebugItem)
  | removeDebugItems (index : Nat)
  | retainDebugItems (keep : DebugItem → Bool)
  | relax
  | readInstructions
  | readLocations
  | readTries
  | readDebugItems
  | readAddress (label : Label)
  | toMethod

/-- The draft in which an action ends, whether it succeeds or fails. -/
def Action.next (d : Draft) : Action → Draft
  | append i => after (Draft.append i) d
  | insert index i => after (Draft.insert index i) d
  | replace index i => after (Draft.replace index i) d
  | remove index => after (Draft.remove index) d
  | swap index₁ index₂ => after (Draft.swap index₁ index₂) d
  | labelAt index => after (Draft.labelAt index) d
  | labelAtAddress address => after (Draft.labelAtAddress address) d
  | addTry entry => after (Draft.addTry entry) d
  | addDebugItem index item => after (Draft.addDebugItem index item) d
  | removeDebugItems index => after (Draft.removeDebugItems index) d
  | retainDebugItems keep => after (Draft.retainDebugItems keep) d
  | relax => after Draft.relax d
  | readInstructions => after Draft.readInstructions d
  | readLocations => after Draft.readLocations d
  | readTries => after Draft.readTries d
  | readDebugItems => after Draft.readDebugItems d
  | readAddress label => after (Draft.readAddress label) d
  | toMethod => after Draft.toMethod d

/-- No action does anything but what the steps say. -/
theorem Action.step (action : Action) : d.Step (action.next d) := by
  cases action with
  | append i => exact step_append i
  | insert index i => exact step_insert index i
  | replace index i => exact step_replace index i
  | remove index => exact step_remove index
  | swap index₁ index₂ => exact step_swap index₁ index₂
  | labelAt index => exact step_labelAt index
  | labelAtAddress address => exact step_labelAtAddress address
  | addTry entry => exact step_addTry entry
  | addDebugItem index item => exact step_addDebugItem index item
  | removeDebugItems index => exact step_removeDebugItems index
  | retainDebugItems keep => exact step_retainDebugItems keep
  | relax => exact step_relax
  | readInstructions => exact step_relax_bind fun _ => rfl
  | readLocations => exact step_relax_bind fun _ => rfl
  | readTries => exact step_relax_bind fun _ => rfl
  | readDebugItems => exact step_relax_bind fun _ => rfl
  | readAddress label => exact step_readAddress label
  | toMethod => exact step_toMethod

end Draft

end Dalvik
