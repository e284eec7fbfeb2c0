import Dalvik.Proofs.Outline.Reading
import Dalvik.Proofs.Store.Assembling
import Dalvik.Proofs.Strict.Editing

/-!
# Strict import and assembly

The cells of an imported method are in order from the start: labels and debug items go to positions of
the outline, and so do the instructions (`Store.strict_ofMethod`).  An assembler looks up nothing but
the end of what has been assembled, and its names have entries in the table of labels
(`StoreAssembler.Refines.strict_next`).
-/

namespace Dalvik

/-- A row of steps is possible if each of them is, for which an invariant may be needed. -/
theorem foldlM_eq_some {σ α : Type} {p : σ → Prop} {f : σ → α → Option σ} {g : σ → α → σ}
    (xs : List α) {s : σ} (hs : p s)
    (hstep : ∀ s, p s → ∀ x ∈ xs, f s x = some (g s x) ∧ p (g s x)) :
    xs.foldlM f s = some (xs.foldl g s) ∧ p (xs.foldl g s) := by
  induction xs generalizing s with
  | nil => exact ⟨rfl, hs⟩
  | cons x rest ih =>
    obtain ⟨hx, hnext⟩ := hstep s hs x List.mem_cons_self
    rw [List.foldlM_cons, hx, List.foldl_cons]
    exact ih hnext fun s hs y hy => hstep s hs y (List.mem_cons_of_mem x hy)

namespace Store

namespace Strict

/-- Issues labels for some positions in order. -/
def issueLabelsAt (s : Store) (places : List Nat) : Option Store :=
  places.foldlM (fun s index => return (← issueLabelAt s index).2) s

/-- Puts instructions into the cells from the start on. -/
def fill (s : Store) (instructions : List (Instruction Label)) : Option Store :=
  instructions.zipIdx.foldlM (fun s (i, index) => modifyCell s index (·.withInstruction (some i))) s

/-- Pins some debug items. -/
def pinItems (s : Store) (items : List (Nat × DebugItem)) : Option Store :=
  items.foldlM (fun s (index, item) => pinItem s index item) s

/-- The store that spells out an outline. -/
def ofOutline (id : Nat) (o : Outline) : Option Store := do
  let inBranches := (o.branches.flatMap (·.targets)).length
  let inPayloads := (o.payloads.flatMap (·.targets)).length
  let placed ← issueLabelsAt (blank id o.registers o.instructions.length)
    (o.branches.flatMap (·.targets) ++ o.payloads.flatMap (·.targets))
  let filled ← reindexFrom
    (← fill placed (Draft.labelInstructions id 0 inBranches o.instructions).toList) 0
  let handled ← issueLabelsAt filled (o.tries.flatMap (·.places))
  pinItems { handled with tries := Draft.labelTries id (inBranches + inPayloads) o.tries }
    o.debugItems

/-- The store of a finished method. -/
def ofMethod (id : Nat) (m : Method) : Option (Except Error Store) :=
  match m.outline with
  | .ok o => (ofOutline id o).map .ok
  | .error e => some (.error e)

end Strict

/-! ### Import -/

variable {s : Store} {o : Outline} {count : Nat}

/-- The cells of a store are in order, and there is one for every position and one for the end. -/
def Roomy (s : Store) (count : Nat) : Prop := s.Exact ∧ s.order.size = count + 1

namespace Roomy

variable (h : s.Roomy count)

include h

theorem modifyCell (k : Nat) (f : Cell → Cell) : (s.modifyCell k f).Roomy count := by
  obtain ⟨arena, hstore⟩ := Exact.modifyCell_eq s k f
  exact ⟨h.1.modifyCell k f, by rw [hstore]; exact h.2⟩

theorem issueLabelAt (k : Nat) : (s.issueLabelAt k).2.Roomy count := by
  have hissue : s.issueLabel.2.Roomy count := ⟨h.1.congr rfl fun _ => Iff.rfl, h.2⟩
  obtain ⟨hexact, hsize⟩ := hissue.modifyCell k
    (·.modifyPoint fun point => { point with labels := point.labels.push s.issueLabel.1 })
  exact ⟨hexact.congr rfl fun _ => Iff.rfl, hsize⟩

theorem withTries (tries : Array (TryEntry Label)) : Roomy { s with tries := tries } count :=
  ⟨h.1.congr rfl fun _ => Iff.rfl, h.2⟩

/-- Labels can be issued for all positions. -/
theorem strict_issueLabelsAt {places : List Nat} (hplaces : ∀ k ∈ places, k ≤ count) :
    Strict.issueLabelsAt s places = some (s.issueLabelsAt places) ∧
      (s.issueLabelsAt places).Roomy count := by
  refine foldlM_eq_some (p := (Roomy · count)) places h fun s hs k hk => ?_
  refine ⟨?_, hs.issueLabelAt k⟩
  have hlt : k < s.order.size := hs.2 ▸ Nat.lt_succ_of_le (hplaces k hk)
  simp only [hs.1.strict_issueLabelAt hlt, Option.bind_eq_bind, Option.bind_some]
  rfl

/-- As many instructions can be filled in as there are positions. -/
theorem strict_fill {code : List (Instruction Label)} (hcode : code.length ≤ count) :
    Strict.fill s code = some (s.fill code) ∧ (s.fill code).Roomy count := by
  refine foldlM_eq_some (p := (Roomy · count)) code.zipIdx h fun s hs entry hentry => ?_
  obtain ⟨i, k⟩ := entry
  have hk := List.snd_lt_of_mem_zipIdx hentry
  exact ⟨hs.1.strict_modifyCell (by rw [hs.2]; omega) _, hs.modifyCell k _⟩

theorem strict_pinItems {items : List (Nat × DebugItem)} (hitems : ∀ m ∈ items, m.1 ≤ count) :
    Strict.pinItems s items =
      some (items.foldl (fun s (index, item) => s.pinItem index item) s) := by
  refine (foldlM_eq_some (p := (Roomy · count)) items h fun s hs m hm => ?_).1
  have hlt : m.1 < s.order.size := hs.2 ▸ Nat.lt_succ_of_le (hitems m hm)
  exact ⟨hs.1.strict_modifyCell hlt _, hs.modifyCell m.1 _⟩

end Roomy

/-- Spelling out an outline does not get stuck. -/
theorem strict_ofOutline (id : Nat) (h : o.WellFormed) :
    Strict.ofOutline id o = some (ofOutline id o) := by
  have hcode : (Draft.labelInstructions id 0 (o.branches.flatMap (·.targets)).length
      o.instructions).toList.length = o.instructions.length := by
    rw [← Draft.instructions_ofOutline id h, Listing.length_instructions,
      Draft.size_ofOutline id h]
  have hfront : ∀ k ∈ o.branches.flatMap (·.targets) ++ o.payloads.flatMap (·.targets),
      k ≤ o.instructions.length := fun k hk => h.places k (List.mem_append_left _ hk)
  have hback : ∀ k ∈ o.tries.flatMap (·.places), k ≤ o.instructions.length := fun k hk =>
    h.places k (List.mem_append_right _ hk)
  obtain ⟨-, -, -, hcarries, -⟩ := blank_spec id o.registers o.instructions.length
  have hblank : (blank id o.registers o.instructions.length).Roomy o.instructions.length :=
    ⟨hcarries.exact, by rw [hcarries.size_order, Listing.size_nops]⟩
  obtain ⟨hplaced, hroomy₁⟩ := hblank.strict_issueLabelsAt hfront
  obtain ⟨hfilled, hroomy₂⟩ := hroomy₁.strict_fill (Nat.le_of_eq hcode)
  have hlaid := hroomy₂.1.strict_reindexFrom (Nat.zero_le _)
  have hroomy₃ : Roomy (reindexFrom _ 0) o.instructions.length :=
    ⟨hroomy₂.1.reindexFrom 0, hroomy₂.2⟩
  obtain ⟨hhandled, hroomy₄⟩ := hroomy₃.strict_issueLabelsAt hback
  rw [Strict.ofOutline]
  simp only [hplaced, hfilled, hlaid, hhandled, Option.bind_eq_bind, Option.bind_some]
  exact (hroomy₄.withTries _).strict_pinItems h.items

/-- Importing a method does not get stuck. -/
theorem strict_ofMethod (id : Nat) (m : Method) :
    Strict.ofMethod id m = some (ofMethod id m) := by
  rw [Strict.ofMethod, ofMethod]
  cases ho : m.outline with
  | error e => rfl
  | ok o =>
    dsimp only
    rw [strict_ofOutline id (Method.wellFormed_of_outline ho)]
    rfl

end Store

namespace StoreAssembler

namespace Strict

open StrictM

variable {α : Type}

/-- Carries out an edit at what has been assembled so far. -/
def edit (x : StrictM Store α) : StrictM StoreAssembler α :=
  .mk fun s => (x.run.run s.store).map fun (result, store) => (result, ⟨store, s.names⟩)

/-- The label for a name, issued on first use. -/
def label (name : String) : StrictM StoreAssembler Label := do
  let s ← get
  match s.names.findIdx? (·.name = name) with
  | some number => return ⟨s.store.id, number⟩
  | none =>
    modify fun s => { s with names := s.names.push ⟨name, false⟩ }
    edit (change fun s => some s.issueLabel)

/-- Places a name here.  It can be placed once. -/
def place (name : String) : StrictM StoreAssembler Label := do
  let label ← label name
  if (← get).names.any fun n => n.name = name && n.placed then
    throw (.duplicateLabel name)
  else
    change fun s => do
      let store ← Store.Strict.placeLabel s.store label (← Store.Strict.size s.store)
      return ((), { store
                    names := s.names.map fun n =>
                      if n.name = name then { n with placed := true } else n })
    return label

/-- Adds an instruction. -/
def add (i : Instruction Label) : StrictM StoreAssembler Unit := edit (Store.Strict.append i)

/-- Adds an exception handler for the instructions between two names. -/
def addCatch (type? : Option UInt32) (start stop handler : String) :
    StrictM StoreAssembler Unit := do
  let start ← label start
  let stop ← label stop
  let handler ← label handler
  edit (Store.Strict.addTry { start, stop, type?, handler })

/-- Adds a debug item. -/
def addDebugItem (item : DebugItem) : StrictM StoreAssembler Unit := do
  let here ← look (Store.Strict.size (← get).store)
  edit (Store.Strict.addDebugItem here item)

/-- The assembler in which what can be done while a method is assembled ends. -/
def next (s : StoreAssembler) : Assembler.Action → Option StoreAssembler
  | .label name => (label name).after s
  | .place name => (place name).after s
  | .add i => (add i).after s
  | .addCatch type? start stop handler => (addCatch type? start stop handler).after s
  | .addDebugItem item => (addDebugItem item).after s
  | .addLine line => (addDebugItem (.line line)).after s

end Strict

/-! ### Assembly -/

variable {α : Type} {s : StoreAssembler} {a : Assembler}

/-- Edits of what has been assembled are faithful to edits of the store. -/
theorem faithful_edit {x : StrictM Store α} {y : StoreM α} (h : Faithful x y s.store) :
    Faithful (Strict.edit x) (edit y) s := by
  have hrun : (Strict.edit x).run.run s =
      some (outcome y s.store, ⟨stateAfter y s.store, s.names⟩) := by
    change (x.run.run s.store).map _ = _
    rw [h]
    rfl
  rw [Faithful, hrun, outcome, outcome, stateAfter, stateAfter, edit]
  cases y s.store <;> rfl

theorem faithful_label (name : String) (s : StoreAssembler) :
    Faithful (Strict.label name) (label name) s := by
  refine faithful_get_bind ?_
  cases s.names.findIdx? (·.name = name) with
  | some number => exact faithful_pure _ s
  | none =>
    have hissue : Faithful (Strict.edit (StrictM.change fun s => some s.issueLabel))
        (edit (modifyGet Store.issueLabel)) { s with names := s.names.push ⟨name, false⟩ } :=
      faithful_edit (faithful_change rfl)
    exact hissue

theorem faithful_addCatch (type? : Option UInt32) (start stop handler : String)
    (s : StoreAssembler) :
    Faithful (Strict.addCatch type? start stop handler) (addCatch type? start stop handler) s :=
  (faithful_label start s).bind fun _ s₁ _ => (faithful_label stop s₁).bind fun _ s₂ _ =>
    (faithful_label handler s₂).bind fun _ _ _ => faithful_edit (Store.faithful_addTry _)

namespace Refines

variable (h : s.Refines a)

include h

/-- A name that is placed has a label with an entry in the table. -/
theorem faithful_place (name : String) : Faithful (Strict.place name) (place name) s := by
  obtain ⟨a', n, x, hok, ha', hx, -⟩ := Assembler.exists_label_eq_ok h.sound name
  have hlabel := simulates_label name s a h
  rw [hok] at hlabel
  refine (faithful_label name s).bind fun label s' hs' => ?_
  rw [hs'] at hlabel
  cases hlabel with
  | ok _ h' =>
    have hconsistent := h'.store.consistent
    have hn : n < s'.store.places.size := by
      rw [h'.store.tracks.issued, ← ha'.names]
      exact (Array.getElem?_eq_some_iff.1 hx).1
    refine faithful_get_bind ?_
    split
    · exact faithful_throw _ s'
    · have hplace := hconsistent.exact.strict_placeLabel ⟨a'.draft.id, n⟩
        (hconsistent.lt_order_of_le_size (Nat.le_refl _)) hn
      refine (faithful_modify ?_).bind fun _ s'' _ => faithful_pure _ s''
      simp only [Store.Strict.size_eq hconsistent.size_pos, hplace, Option.bind_eq_bind,
        Option.bind_some]
      rfl

theorem faithful_add (i : Instruction Label) : Faithful (Strict.add i) (add i) s :=
  faithful_edit (h.store.consistent.faithful_append i)

theorem faithful_addDebugItem (item : DebugItem) :
    Faithful (Strict.addDebugItem item) (addDebugItem item) s :=
  faithful_get_bind (faithful_look_bind (Store.Strict.size_eq h.store.consistent.size_pos)
    (faithful_edit (h.store.consistent.faithful_addDebugItem _ item)))

/-- Nothing that can be done while a method is assembled gets stuck. -/
theorem strict_next (action : Assembler.Action) : Strict.next s action = some (s.next action) := by
  cases action with
  | label name => exact (faithful_label name s).after_eq
  | place name => exact (h.faithful_place name).after_eq
  | add i => exact (h.faithful_add i).after_eq
  | addCatch type? start stop handler =>
    exact (faithful_addCatch type? start stop handler s).after_eq
  | addDebugItem item => exact (h.faithful_addDebugItem item).after_eq
  | addLine line => exact (h.faithful_addDebugItem (.line line)).after_eq

end Refines

end StoreAssembler

end Dalvik
