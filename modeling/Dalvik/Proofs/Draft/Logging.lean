import Dalvik.Proofs.Draft.Calls
import Dalvik.Proofs.Draft.Outline

/-!
# What a sequence of calls assembles

`Assembler.Logs` says that what has been assembled is what the calls so far say: their names, with
the labels for them, what they place, their instructions, debug items and handlers.  Every call
keeps it, and is answered as the calls before it say (`Assembler.Logs.perform`); so a sequence of
calls assembles what it says (`Assembler.Logs.transcript`).
-/

namespace Dalvik

namespace Assembler

/-- Carries out a call. -/
def perform : Action → AssemblerM (Option Label)
  | .label name => return some (← label name)
  | .place name => return some (← place name)
  | .add i => do
    add i
    return none
  | .addCatch type? start stop handler => do
    addCatch type? start stop handler
    return none
  | .addDebugItem item => do
    addDebugItem item
    return none
  | .addLine line => do
    addLine line
    return none

/-- What has been assembled is what the calls say. -/
structure Logs (draft : Nat) (registers : UInt16) (calls : List Action) (a : Assembler) : Prop where
  /-- It makes sense. -/
  sound : a.Sound
  /-- The identity is that of the labels. -/
  id : a.draft.id = draft
  /-- The number of registers is what it was at the start. -/
  registers : a.draft.registers = registers
  /-- The names are those that are mentioned, and it is known which of them are placed. -/
  names : a.names.toList =
    (mentioned calls).map fun name => ⟨name, decide (name ∈ placed calls)⟩
  /-- The instructions are those that are accepted. -/
  instructions : a.draft.listing.instructions = code draft calls
  /-- The labels stand where they are placed. -/
  marks : a.draft.listing.marks.Perm (marks draft calls)
  /-- The debug items are where they are added. -/
  items : a.draft.listing.debugItems = pins draft calls
  /-- The handlers are those that are added. -/
  tries : a.draft.tries.toList = handlers draft calls

variable {draft : Nat} {registers : UInt16} {calls : List Action} {a a' : Assembler} {name : String}
  {call : Action}

theorem logs_new (id : Nat) (registers : UInt16) : Logs id registers [] (new id registers) where
  sound := sound_new id registers
  id := rfl
  registers := rfl
  names := rfl
  instructions := rfl
  marks := .refl _
  items := rfl
  tries := rfl

namespace Logs

theorem size (h : Logs draft registers calls a) : a.draft.size = (code draft calls).length := by
  rw [← h.instructions, Listing.length_instructions, Draft.size]

theorem issued (h : Logs draft registers calls a) :
    a.draft.listing.issued = (mentioned calls).length := by
  rw [← h.sound.names, ← Array.length_toList, h.names, List.length_map]

/-- Names that are mentioned have labels. -/
theorem issued_labelOf (h : Logs draft registers calls a) (hname : name ∈ mentioned calls) :
    a.draft.listing.Issued a.draft.id (labelOf draft calls name) := by
  rw [Listing.Issued, h.id, h.issued]
  exact ⟨rfl, List.idxOf_lt_length_iff.2 hname⟩

/-- Looking for a name gives the number of its label. -/
theorem findIdx?_names (h : Logs draft registers calls a) (name : String) :
    a.names.findIdx? (·.name = name) =
      if name ∈ mentioned calls then some (labelOf draft calls name).number else none := by
  have hlist : a.names.findIdx? (·.name = name) = (mentioned calls).findIdx? (· == name) := by
    rw [← @Array.toArray_toList _ a.names, List.findIdx?_toArray, h.names, List.findIdx?_map]
    rfl
  rw [hlist]
  split
  · next hname =>
    rw [List.findIdx?_eq_some_iff_findIdx_eq]
    exact ⟨List.idxOf_lt_length_iff.2 hname, rfl⟩
  · next hname =>
    rw [List.findIdx?_eq_none_iff]
    rintro name' hname'
    rw [beq_eq_false_iff_ne]
    rintro rfl
    exact hname hname'

/-- Looking for a name that is placed. -/
theorem any_names (h : Logs draft registers calls a) (name : String) :
    (a.names.any fun n => n.name = name && n.placed) = decide (name ∈ placed calls) := by
  rw [← Array.any_toList, h.names, List.any_map, Bool.eq_iff_iff, List.any_eq_true,
    decide_eq_true_iff]
  constructor
  · rintro ⟨name', -, hname'⟩
    obtain ⟨rfl, hplaced⟩ : name' = name ∧ name' ∈ placed calls := by simpa using hname'
    exact hplaced
  · intro hname
    exact ⟨name, mem_mentioned_of_mem_placed hname, by simp [hname]⟩

theorem checkInstruction_eq (h : Logs draft registers calls a) (i : Instruction Label) :
    a.draft.checkInstruction i = check draft calls i := by
  have hlabel : a.draft.checkLabel = fun label =>
      if label.draft = draft && label.number < (mentioned calls).length then .ok ()
      else .error (.unknownLabel label) := by
    funext label
    rw [Draft.checkLabel, h.id, h.issued]
  rw [Draft.checkInstruction, hlabel, check]

/-- A call adds what it contributes, and nothing else. -/
theorem concat (h : Logs draft registers calls a) (hsound : a'.Sound)
    (hid : a'.draft.id = a.draft.id) (hregisters : a'.draft.registers = a.draft.registers)
    (hnames : a'.names.toList =
      (mentioned (calls ++ [call])).map fun name => ⟨name, decide (name ∈ placed (calls ++ [call]))⟩)
    (hcode : a'.draft.listing.instructions =
      a.draft.listing.instructions ++ call.code draft calls)
    (hmarks : a'.draft.listing.marks.Perm (a.draft.listing.marks ++ call.marks draft calls))
    (hpins : a'.draft.listing.debugItems = a.draft.listing.debugItems ++ call.pins draft calls)
    (hhandlers : a'.draft.tries.toList =
      a.draft.tries.toList ++ call.handlers (labelOf draft (calls ++ [call]))) :
    Logs draft registers (calls ++ [call]) a' where
  sound := hsound
  id := hid.trans h.id
  registers := hregisters.trans h.registers
  names := hnames
  instructions := by rw [hcode, h.instructions, code_concat]
  marks := by
    rw [marks_concat]
    exact hmarks.trans (h.marks.append_right _)
  items := by rw [hpins, h.items, pins_concat]
  tries := by rw [hhandlers, h.tries, handlers_concat]

/-- A call that contributes nothing. -/
theorem concat_of_eq_nil (h : Logs draft registers calls a)
    (hmentioned : mentioned (calls ++ [call]) = mentioned calls)
    (hplaced : ∀ name, name ∈ placed (calls ++ [call]) ↔ name ∈ placed calls)
    (hcode : call.code draft calls = []) (hmarks : call.marks draft calls = [])
    (hpins : call.pins draft calls = [])
    (hhandlers : call.handlers (labelOf draft (calls ++ [call])) = []) :
    Logs draft registers (calls ++ [call]) a := by
  refine h.concat h.sound rfl rfl ?_ ?_ ?_ ?_ ?_
  · simpa only [hmentioned, hplaced] using h.names
  · rw [hcode, List.append_nil]
  · rw [hmarks, List.append_nil]
  · rw [hpins, List.append_nil]
  · rw [hhandlers, List.append_nil]

/-! ### Names -/

theorem label_of_mem (h : Logs draft registers calls a) (hname : name ∈ mentioned calls) :
    label name a = .ok (labelOf draft calls name) a := by
  rw [label, run_get_bind, h.findIdx?_names, if_pos hname, h.id]
  rfl

theorem label_of_notMem (h : Logs draft registers calls a) (hname : name ∉ mentioned calls) :
    label name a = .ok (labelOf draft calls name)
      ⟨{ a.draft with listing := a.draft.listing.issue }, a.names.push ⟨name, false⟩⟩ := by
  have hlabel : labelOf draft calls name = a.draft.listing.nextLabel a.draft.id := by
    rw [labelOf, List.idxOf_eq_length hname, ← h.issued, ← h.id, Listing.nextLabel]
  rw [label, run_get_bind, h.findIdx?_names, if_neg hname, hlabel]
  rfl

/-- A name stands for its label from now on. -/
theorem exists_label (h : Logs draft registers calls a) (name : String) :
    ∃ a', label name a = .ok (labelOf draft (calls ++ [.label name]) name) a' ∧
      Logs draft registers (calls ++ [.label name]) a' := by
  have hplaced : placed (calls ++ [.label name]) = placed calls := placed_concat_of_eq_nil rfl
  rw [labelOf_concat_self draft rfl]
  by_cases hname : name ∈ mentioned calls
  · refine ⟨a, h.label_of_mem hname,
      h.concat_of_eq_nil ?_ (fun _ => by rw [hplaced]) rfl rfl rfl rfl⟩
    rw [mentioned_concat rfl, if_pos hname]
  · have hrun := h.label_of_notMem hname
    have hsound := keeps_label name a h.sound
    rw [after, hrun] at hsound
    refine ⟨_, hrun, h.concat hsound rfl rfl ?_ (List.append_nil _).symm ?_ (List.append_nil _).symm
      (List.append_nil _).symm⟩
    · have hnew : name ∉ placed calls := fun hmem => hname (mem_mentioned_of_mem_placed hmem)
      rw [mentioned_concat rfl, if_neg hname, hplaced, Array.toList_push, h.names, List.map_append,
        List.map_singleton, decide_eq_false hnew]
    · rw [Listing.marks_issue, Action.marks, List.append_nil]

/-- A name can be placed once. -/
theorem place_of_mem (h : Logs draft registers calls a) (hname : name ∈ placed calls) :
    place name a = .error (.duplicateLabel name) a ∧
      Logs draft registers (calls ++ [.place name]) a := by
  have hmem : name ∈ mentioned calls := mem_mentioned_of_mem_placed hname
  constructor
  · rw [place, run_bind_of_ok (h.label_of_mem hmem), run_get_bind, h.any_names, if_pos (by simpa)]
    rfl
  · refine h.concat_of_eq_nil ?_ (fun name' => ?_) rfl (if_pos hname) rfl rfl
    · rw [mentioned_concat rfl, if_pos hmem]
    · rw [placed_concat, List.mem_append, Action.places, List.mem_singleton]
      exact or_iff_left_of_imp fun heq => heq ▸ hname

/-- A name that is placed for the first time is placed here. -/
theorem exists_place (h : Logs draft registers calls a) (hname : name ∉ placed calls) :
    ∃ a', place name a = .ok (labelOf draft (calls ++ [.place name]) name) a' ∧
      Logs draft registers (calls ++ [.place name]) a' := by
  -- placing a name starts with asking for its label
  obtain ⟨a', hrun, h'⟩ := h.exists_label name
  have hmentioned : mentioned (calls ++ [.label name]) = mentioned (calls ++ [.place name]) :=
    (mentioned_concat rfl).trans (mentioned_concat rfl).symm
  have hplaced : placed (calls ++ [.label name]) = placed calls := placed_concat_of_eq_nil rfl
  have hcode : code draft (calls ++ [.label name]) = code draft calls := by
    rw [code_concat, Action.code, List.append_nil]
  rw [labelOf_concat_self draft rfl] at hrun ⊢
  have hplace : place name a = .ok (labelOf draft calls name)
      { draft := { a'.draft with
          listing := a'.draft.listing.mark a'.draft.size (labelOf draft calls name) }
        names := a'.names.map fun n => if n.name = name then { n with placed := true } else n } := by
    rw [place, run_bind_of_ok hrun, run_get_bind, h'.any_names, hplaced, if_neg (by simpa),
      run_modify_bind]
    rfl
  have hsound := keeps_place name a h.sound
  rw [after, hplace] at hsound
  have hsize : a'.draft.size ≤ a'.draft.listing.size := Nat.le_refl _
  refine ⟨_, hplace, hsound, h'.id, h'.registers, ?_, ?_, ?_, ?_, ?_⟩
  · rw [Array.toList_map, h'.names, hmentioned, hplaced, placed_concat, Action.places, List.map_map]
    refine List.map_congr_left fun name' _ => ?_
    by_cases heq : name' = name <;> simp [heq]
  · rw [Listing.instructions_mark, h'.instructions, code_concat, code_concat]
    rfl
  · have hmarks := h'.marks
    rw [marks_concat, Action.marks, List.append_nil] at hmarks
    rw [marks_concat, Action.marks, if_neg hname, ← hcode, ← h'.size]
    exact ((Listing.marks_mark_perm hsize _).trans (hmarks.cons _)).trans
      (List.perm_append_singleton _ _).symm
  · rw [Listing.debugItems_mark hsize, h'.items, pins_concat, pins_concat]
    rfl
  · rw [h'.tries, handlers_concat, handlers_concat]
    rfl

/-! ### What is added -/

/-- An instruction is added if it is accepted. -/
theorem add (h : Logs draft registers calls a) (i : Instruction Label) :
    outcome (Assembler.add i) a = check draft calls i ∧
      Logs draft registers (calls ++ [.add i]) (stateAfter (Assembler.add i) a) := by
  have hmentioned : mentioned (calls ++ [.add i]) = mentioned calls :=
    mentioned_concat_of_eq_nil rfl
  have hplaced : placed (calls ++ [.add i]) = placed calls := placed_concat_of_eq_nil rfl
  cases hcheck : check draft calls i with
  | error e =>
    have hrun : Assembler.add i a = .error e a := by
      have happend : Draft.append i a.draft = .error e a.draft := by
        rw [Draft.append, run_get_bind, h.checkInstruction_eq, hcheck]
        rfl
      rw [Assembler.add, edit, happend]
    rw [outcome, stateAfter, hrun]
    refine ⟨rfl, h.concat_of_eq_nil hmentioned (fun _ => by rw [hplaced]) ?_ rfl rfl rfl⟩
    rw [Action.code, hcheck]
  | ok =>
    have hrun : Assembler.add i a =
        .ok () ⟨a.draft.withListing (a.draft.listing.append i), a.names⟩ := by
      have happend : Draft.append i a.draft =
          .ok () (a.draft.withListing (a.draft.listing.append i)) := by
        rw [Draft.append, run_get_bind, h.checkInstruction_eq, hcheck]
        rfl
      rw [Assembler.add, edit, happend]
    have hsound := keeps_add i a h.sound
    rw [after, hrun] at hsound
    rw [outcome, stateAfter, hrun]
    refine ⟨rfl, h.concat hsound rfl rfl ?_ ?_ ?_ ?_ (List.append_nil _).symm⟩
    · rw [h.names, hmentioned, hplaced]
    · rw [Draft.withListing, Listing.instructions_append, Action.code, hcheck]
    · rw [Draft.withListing, Listing.marks_append, Action.marks, List.append_nil]
    · rw [Draft.withListing, Listing.debugItems_eq, Listing.attachments_append rfl,
        ← Listing.debugItems_eq, Action.pins, List.append_nil]

/-- A debug item is added here. -/
theorem exists_addDebugItem (h : Logs draft registers calls a) (item : DebugItem) :
    ∃ a', addDebugItem item a = .ok () a' ∧
      Logs draft registers (calls ++ [.addDebugItem item]) a' := by
  have hsize : a.draft.size ≤ a.draft.listing.size := Nat.le_refl _
  have hrun : addDebugItem item a =
      .ok () ⟨{ a.draft with listing := a.draft.listing.pin a.draft.size item }, a.names⟩ := by
    have hpin : Draft.addDebugItem a.draft.size item a.draft =
        .ok () { a.draft with listing := a.draft.listing.pin a.draft.size item } := by
      rw [Draft.addDebugItem, run_get_bind, Draft.checkIndex, if_pos (Nat.le_refl _)]
      rfl
    rw [addDebugItem, run_get_bind, edit, hpin]
  have hsound := keeps_addDebugItem item a h.sound
  rw [after, hrun] at hsound
  have hsame := Listing.sameButItems_pin hsize item
  refine ⟨_, hrun, h.concat hsound rfl rfl ?_ ?_ ?_ ?_ (List.append_nil _).symm⟩
  · rw [h.names, mentioned_concat_of_eq_nil rfl, placed_concat_of_eq_nil rfl]
  · rw [hsame.instructions, Action.code, List.append_nil]
  · rw [hsame.marks, Action.marks, List.append_nil]
  · rw [Listing.debugItems_pin_of_forall_le hsize fun m hm => Listing.le_size_of_mem_debugItems hm,
      Action.pins, h.size]

/-- A line starts here. -/
theorem exists_addLine (h : Logs draft registers calls a) (line : UInt32) :
    ∃ a', addLine line a = .ok () a' ∧ Logs draft registers (calls ++ [.addLine line]) a' := by
  obtain ⟨a', hrun, h'⟩ := h.exists_addDebugItem (.line line)
  refine ⟨a', hrun, h'.sound, h'.id, h'.registers, ?_, ?_, ?_, ?_, ?_⟩
  · rw [h'.names, mentioned_concat_of_eq_nil rfl, mentioned_concat_of_eq_nil rfl,
      placed_concat_of_eq_nil rfl, placed_concat_of_eq_nil rfl]
  · rw [h'.instructions, code_concat, code_concat]
    rfl
  · have hmarks := h'.marks
    rw [marks_concat] at hmarks ⊢
    exact hmarks
  · rw [h'.items, pins_concat, pins_concat]
    rfl
  · rw [h'.tries, handlers_concat, handlers_concat]
    rfl

/-- A handler with known labels is added. -/
theorem edit_addTry {entry : TryEntry Label}
    (hentry : ∀ label ∈ entry.places, a.draft.listing.Issued a.draft.id label) :
    edit (Draft.addTry entry) a =
      .ok () ⟨{ a.draft with tries := a.draft.tries.push entry }, a.names⟩ := by
  have hcheck : entry.places.forM a.draft.checkLabel = .ok () :=
    forM_eq_ok_iff.2 fun label hlabel => Draft.checkLabel_eq_ok_iff.2 (hentry label hlabel)
  have hrun : Draft.addTry entry a.draft =
      .ok () { a.draft with tries := a.draft.tries.push entry } := by
    rw [Draft.addTry, run_get_bind, hcheck]
    rfl
  rw [edit, hrun]

/-- The labels for three names, asked for one after the other, are those for a call that mentions
them. -/
theorem exists_labels (h : Logs draft registers calls a) {start stop handler : String}
    (hmentions : call.mentions = [start, stop, handler]) :
    ∃ a₁ a₂ a₃, label start a = .ok (labelOf draft (calls ++ [call]) start) a₁ ∧
      label stop a₁ = .ok (labelOf draft (calls ++ [call]) stop) a₂ ∧
      label handler a₂ = .ok (labelOf draft (calls ++ [call]) handler) a₃ ∧
      mentioned (calls ++ [call]) =
        mentioned (calls ++ [.label start] ++ [.label stop] ++ [.label handler]) ∧
      Logs draft registers (calls ++ [.label start] ++ [.label stop] ++ [.label handler]) a₃ := by
  obtain ⟨a₁, hstart, h₁⟩ := h.exists_label start
  obtain ⟨a₂, hstop, h₂⟩ := h₁.exists_label stop
  obtain ⟨a₃, hhandler, h₃⟩ := h₂.exists_label handler
  have hmentioned : mentioned (calls ++ [call]) =
      mentioned (calls ++ [.label start] ++ [.label stop] ++ [.label handler]) := by
    rw [mentioned, List.flatMap_append, List.flatMap_singleton, hmentions, mentioned]
    simp [Action.mentions]
  have hlabel : ∀ name, labelOf draft (calls ++ [call]) name =
      labelOf draft (calls ++ [.label start] ++ [.label stop] ++ [.label handler]) name :=
    fun name => by rw [labelOf, hmentioned, labelOf]
  have hmem : ∀ (before : List Action) (name : String), name ∈ mentioned (before ++ [.label name]) :=
    fun before name => mem_mentioned_iff.2 ⟨_, List.mem_concat_self, List.mem_singleton_self name⟩
  refine ⟨a₁, a₂, a₃, ?_, ?_, ?_, hmentioned, h₃⟩
  · rw [hlabel, List.append_assoc, labelOf_append draft (hmem calls start), hstart]
  · rw [hlabel, labelOf_append draft (hmem _ stop), hstop]
  · rw [hlabel, hhandler]

/-- A handler is added, with labels for names. -/
theorem exists_addCatch (h : Logs draft registers calls a) (type? : Option UInt32)
    (start stop handler : String) :
    ∃ a', addCatch type? start stop handler a = .ok () a' ∧
      Logs draft registers (calls ++ [.addCatch type? start stop handler]) a' := by
  obtain ⟨a₁, a₂, a₃, hstart, hstop, hhandler, hmentioned, h₃⟩ :=
    h.exists_labels (rfl : (Action.addCatch type? start stop handler).mentions = _)
  have hissued : ∀ name ∈ [start, stop, handler], a₃.draft.listing.Issued a₃.draft.id
      (labelOf draft (calls ++ [.addCatch type? start stop handler]) name) := by
    intro name hname
    rw [labelOf, hmentioned, ← labelOf]
    refine h₃.issued_labelOf ?_
    rw [← hmentioned]
    exact mem_mentioned_iff.2 ⟨_, List.mem_concat_self, hname⟩
  obtain ⟨entry, hentry⟩ : ∃ entry, Action.handlers
      (labelOf draft (calls ++ [.addCatch type? start stop handler]))
        (.addCatch type? start stop handler) = [entry] := ⟨_, rfl⟩
  have hrun : addCatch type? start stop handler a =
      .ok () ⟨{ a₃.draft with tries := a₃.draft.tries.push entry }, a₃.names⟩ := by
    rw [addCatch, run_bind_of_ok hstart, run_bind_of_ok hstop, run_bind_of_ok hhandler]
    rw [Action.handlers, List.singleton_inj] at hentry
    rw [← hentry]
    refine edit_addTry fun label hlabel => ?_
    simp only [TryEntry.places, List.mem_cons, List.not_mem_nil, or_false] at hlabel
    rcases hlabel with rfl | rfl | rfl <;> exact hissued _ (by simp)
  have hsound := keeps_addCatch type? start stop handler a h.sound
  rw [after, hrun] at hsound
  -- asking for labels has added nothing but names
  refine ⟨_, hrun, hsound, h₃.id, h₃.registers, ?_, ?_, ?_, ?_, ?_⟩
  · rw [h₃.names, hmentioned]
    simp only [placed_concat, Action.places, List.append_nil]
  · rw [h₃.instructions]
    simp only [code_concat, Action.code, List.append_nil]
  · simpa only [marks_concat, Action.marks, List.append_nil] using h₃.marks
  · rw [h₃.items]
    simp only [pins_concat, Action.pins, List.append_nil]
  · rw [Array.toList_push, h₃.tries, handlers_concat draft calls (.addCatch ..), hentry]
    simp only [handlers_concat, Action.handlers, List.append_nil]

/-! ### Calls -/

/-- A call is answered as the calls before it say, and what is assembled by it is what it says. -/
theorem perform (h : Logs draft registers calls a) (call : Action) :
    outcome (Assembler.perform call) a = reply draft calls call ∧
      Logs draft registers (calls ++ [call]) (stateAfter (Assembler.perform call) a) := by
  cases call with
  | label name =>
    obtain ⟨a', hrun, h'⟩ := h.exists_label name
    rw [outcome, stateAfter, Assembler.perform, run_bind_of_ok hrun]
    exact ⟨rfl, h'⟩
  | place name =>
    rw [reply]
    split
    · next hname =>
      obtain ⟨hrun, h'⟩ := h.place_of_mem hname
      rw [outcome, stateAfter, Assembler.perform, run_bind_of_error hrun]
      exact ⟨rfl, h'⟩
    · next hname =>
      obtain ⟨a', hrun, h'⟩ := h.exists_place hname
      rw [outcome, stateAfter, Assembler.perform, run_bind_of_ok hrun]
      exact ⟨rfl, h'⟩
  | add i =>
    obtain ⟨houtcome, h'⟩ := h.add i
    rw [stateAfter] at h' ⊢
    rw [reply, ← houtcome, outcome, outcome, Assembler.perform]
    cases hrun : Assembler.add i a with
    | ok a a' =>
      rw [run_bind_of_ok hrun]
      rw [hrun] at h'
      exact ⟨rfl, h'⟩
    | error e a' =>
      rw [run_bind_of_error hrun]
      rw [hrun] at h'
      exact ⟨rfl, h'⟩
  | addCatch type? start stop handler =>
    obtain ⟨a', hrun, h'⟩ := h.exists_addCatch type? start stop handler
    rw [outcome, stateAfter, Assembler.perform, run_bind_of_ok hrun]
    exact ⟨rfl, h'⟩
  | addDebugItem item =>
    obtain ⟨a', hrun, h'⟩ := h.exists_addDebugItem item
    rw [outcome, stateAfter, Assembler.perform, run_bind_of_ok hrun]
    exact ⟨rfl, h'⟩
  | addLine line =>
    obtain ⟨a', hrun, h'⟩ := h.exists_addLine line
    rw [outcome, stateAfter, Assembler.perform, run_bind_of_ok hrun]
    exact ⟨rfl, h'⟩

/-- Calls are answered one after the other, and what is assembled by them is what they say. -/
theorem transcript (h : Logs draft registers calls a) (more : List Action) :
    (Dalvik.transcript Assembler.perform more a).1 =
        gather (fun before call => [reply draft before call]) calls more ∧
      Logs draft registers (calls ++ more) (Dalvik.transcript Assembler.perform more a).2 := by
  induction more generalizing calls a with
  | nil =>
    rw [List.append_nil]
    exact ⟨rfl, h⟩
  | cons call rest ih =>
    obtain ⟨houtcome, hcall⟩ := h.perform call
    obtain ⟨hanswers, hend⟩ := ih hcall
    rw [List.append_assoc, List.singleton_append] at hend
    rw [transcript_cons, gather, hanswers, houtcome]
    exact ⟨rfl, hend⟩

end Logs

end Assembler

end Dalvik
