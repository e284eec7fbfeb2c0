import Dalvik.Proofs.Store.Assembling
import Dalvik.Proofs.Store.Reading
import Dalvik.Proofs.Draft.Logging

/-!
# What comes of a sequence of calls

A store is assembled by any sequence of calls, some of which may fail.  Each of them is answered as
those before it say, and the names that are mentioned, the labels for them and whether they are
placed decide how the store can be finished (`StoreAssembler.Assembled`).  If it can, it holds what
the calls say (`StoreAssembler.Built`).  The main statement is
`StoreAssembler.assembled_transcript`; it is read off the assembler of a draft, which answers the
same.
-/

namespace Dalvik

namespace StoreAssembler

open Assembler (Action mentioned placed labelOf check code pins handlers replies)

/-- Carries out a call. -/
def perform : Action → StoreAssemblerM (Option Label)
  | .label name => return some (← label name)
  | .place name => return some (← place name)
  | .add i => do
    add i
    return none
  | .addCatch type? start stop handler => do
    addCatch type? start stop handler
    return none
  | .addDebugItem item => do
    addDebugItem item
    return none
  | .addLine line => do
    addLine line
    return none

/-- A finished store holds what the calls say. -/
structure Built (id : Nat) (registers : UInt16) (calls : List Action) (s : Store) : Prop where
  /-- The number of registers is what it was at the start. -/
  registers : s.registers = registers
  /-- The instructions are those that were accepted. -/
  instructions : s.instructions = code id calls
  /-- The label of a name stands behind the instructions that were accepted before the name was
  placed. -/
  labels : ∀ before name behind, calls = before ++ .place name :: behind → name ∉ placed before →
    s.labelIndex (labelOf id calls name) = .ok (code id before).length
  /-- The debug items stand behind the instructions that were accepted before them. -/
  items : s.cells.flatMap (fun cell => cell.point.items.toList.map (cell.index, ·)) = pins id calls
  /-- The handlers are those that were added. -/
  tries : s.tries.toList = handlers id calls

/-- What is assembled by some calls can be finished if all names are placed. -/
structure Assembled (id : Nat) (registers : UInt16) (calls : List Action) (s : StoreAssembler) :
    Prop where
  /-- There are as many labels as names. -/
  issued : s.store.places.size = (mentioned calls).length
  /-- Different names have different labels. -/
  distinct : ∀ name ∈ mentioned calls, ∀ name',
    labelOf id calls name = labelOf id calls name' → name = name'
  /-- A name has the same label from its first mention on. -/
  stable : ∀ before behind, calls = before ++ behind → ∀ name ∈ mentioned before,
    labelOf id before name = labelOf id calls name
  /-- An instruction is accepted if it is valid and its labels are those of names mentioned before.
  -/
  accepts : ∀ before behind, calls = before ++ behind → ∀ i, check id before i = .ok () ↔
    i.Valid ∧ ∀ label ∈ i.targets, ∃ name ∈ mentioned before, labelOf id calls name = label
  /-- It can be finished if and only if every name has been placed. -/
  finishes : (∃ store, s.build = .ok store) ↔ ∀ name ∈ mentioned calls, name ∈ placed calls
  /-- If not, the names that have not been placed are reported, each of them once and in order. -/
  fails : ∀ e, s.build = .error e → ∃ names, e = .methodNotFinished names ∧
    names.Pairwise (· < ·) ∧ ∀ name, name ∈ names ↔ name ∈ mentioned calls ∧ name ∉ placed calls
  /-- If so, it holds what the calls say. -/
  built : ∀ store, s.build = .ok store → Built id registers calls store

variable {id : Nat} {registers : UInt16} {calls : List Action} {s : StoreAssembler} {a : Assembler}
  {e : Error} {store : Store} {d : Draft}

theorem simulates_perform (call : Action) :
    Simulates Refines (perform call) (Assembler.perform call) := by
  intro s a h
  cases call with
  | label name => exact (simulates_label name s a h).bind fun _ _ _ h => .ok _ h
  | place name => exact (simulates_place name s a h).bind fun _ _ _ h => .ok _ h
  | add i => exact (simulates_add i s a h).bind fun _ _ _ h => .ok _ h
  | addCatch type? start stop handler =>
    exact (simulates_addCatch type? start stop handler s a h).bind fun _ _ _ h => .ok _ h
  | addDebugItem item => exact (simulates_addDebugItem item s a h).bind fun _ _ _ h => .ok _ h
  | addLine line => exact (simulates_addDebugItem (.line line) s a h).bind fun _ _ _ h => .ok _ h

/-! ### Names that are not placed -/

theorem build_eq_ok_iff : s.build = .ok store ↔ s.unplaced = [] ∧ s.store = store := by
  rw [build]
  split
  · next h => rw [Except.ok.injEq, and_iff_right h]
  · next h => simpa using fun hnil => absurd hnil h

theorem build_eq_error_iff :
    s.build = .error e ↔ s.unplaced ≠ [] ∧ e = .methodNotFinished s.unplaced := by
  rw [build]
  split
  · next h => simp [h]
  · next h => rw [Except.error.injEq, and_iff_right h, eq_comm]

/-- Names that differ are sorted strictly. -/
theorem pairwise_mergeSort_of_nodup {names : List String} (hnodup : names.Nodup) :
    names.mergeSort.Pairwise (· < ·) := by
  have hsorted : names.mergeSort.Pairwise fun a b => decide (a ≤ b) = true :=
    List.pairwise_mergeSort (fun _ _ _ => by simpa using String.le_trans)
      (fun _ _ => by simpa using String.le_total _ _) names
  have hne : names.mergeSort.Nodup := (List.mergeSort_perm names _).nodup_iff.2 hnodup
  refine (hsorted.and hne).imp fun ⟨hle, hne⟩ => String.not_le.1 fun hge => hne ?_
  exact String.le_antisymm (of_decide_eq_true hle) hge

/-- The names that are not placed are those that are mentioned and not placed, in order. -/
theorem Refines.unplaced_eq (h : s.Refines a) (hlogs : a.Logs id registers calls) :
    s.unplaced = ((mentioned calls).filter fun name => decide (name ∉ placed calls)).mergeSort := by
  rw [unplaced, h.names, hlogs.names, List.filter_map, List.map_map]
  simp [Function.comp_def]

theorem mem_unplaced_iff (h : s.Refines a) (hlogs : a.Logs id registers calls) {name : String} :
    name ∈ s.unplaced ↔ name ∈ mentioned calls ∧ name ∉ placed calls := by
  rw [h.unplaced_eq hlogs, List.mem_mergeSort, List.mem_filter, decide_eq_true_iff]

theorem exists_build_iff (h : s.Refines a) (hlogs : a.Logs id registers calls) :
    (∃ store, s.build = .ok store) ↔ ∀ name ∈ mentioned calls, name ∈ placed calls := by
  simp only [build_eq_ok_iff, exists_and_left, exists_eq', and_true]
  rw [List.eq_nil_iff_forall_not_mem]
  simp only [mem_unplaced_iff h hlogs, not_and, not_not]

/-! ### What is finished -/

/-- The label of a name stands behind the instructions that were accepted before it was placed. -/
theorem labelIndex_eq (h : store.Refines d) {names : Array NamedLabel}
    (hlogs : Assembler.Logs id registers calls ⟨d, names⟩) {before behind : List Action}
    {name : String} (hcalls : calls = before ++ .place name :: behind)
    (hname : name ∉ placed before) :
    store.labelIndex (labelOf id calls name) = .ok (code id before).length := by
  have hmentioned : name ∈ mentioned (before ++ [.place name]) :=
    Assembler.mem_mentioned_iff.2 ⟨_, List.mem_concat_self, List.mem_singleton_self name⟩
  have hlabel : labelOf id calls name = labelOf id before name := by
    rw [hcalls, List.append_cons, Assembler.labelOf_append id hmentioned,
      Assembler.labelOf_concat_self id rfl]
  have hmark : ((code id before).length, labelOf id before name) ∈ Assembler.marks id calls := by
    rw [hcalls]
    refine Assembler.mem_gather ?_ behind
    rw [Action.marks, if_neg hname]
    exact List.mem_singleton_self _
  rw [h.labelIndex_eq, Draft.locate_eq_ok_iff, hlabel]
  have hdraft : (labelOf id before name).draft = d.id := hlogs.id.symm
  exact ⟨hdraft, (h.coherent.locate?_eq_some_iff hdraft).2 (hlogs.marks.mem_iff.2 hmark)⟩

theorem built_of_refines (h : store.Refines d) {names : Array NamedLabel}
    (hlogs : Assembler.Logs id registers calls ⟨d, names⟩) : Built id registers calls store where
  registers := h.registers.trans hlogs.registers
  instructions := h.tracks.instructions_eq.trans hlogs.instructions
  labels _ _ _ hcalls hname := labelIndex_eq h hlogs hcalls hname
  items := h.tracks.debugItems_eq.trans hlogs.items
  tries := by rw [h.tries, hlogs.tries]

theorem Refines.assembled (h : s.Refines a) (hlogs : a.Logs id registers calls) :
    Assembled id registers calls s where
  issued := h.store.tracks.issued.trans hlogs.issued
  distinct name hname name' heq := (Assembler.labelOf_inj hname).1 heq
  stable before behind hcalls name hname := by rw [hcalls, Assembler.labelOf_append id hname]
  accepts before behind hcalls i := by
    have hlabel : ∀ label, (∃ name ∈ mentioned before, labelOf id before name = label) ↔
        ∃ name ∈ mentioned before, labelOf id calls name = label :=
      fun _ => exists_congr fun name => and_congr_right fun hname => by
        rw [hcalls, Assembler.labelOf_append id hname]
    simp only [Assembler.check_eq_ok_iff, hlabel]
  finishes := exists_build_iff h hlogs
  fails e he := by
    obtain ⟨-, rfl⟩ := build_eq_error_iff.1 he
    refine ⟨_, rfl, ?_, fun name => mem_unplaced_iff h hlogs⟩
    rw [h.unplaced_eq hlogs]
    exact pairwise_mergeSort_of_nodup ((Assembler.nodup_mentioned calls).filter _)
  built store hstore := by
    obtain ⟨-, rfl⟩ := build_eq_ok_iff.1 hstore
    exact built_of_refines h.store hlogs

/-- Whatever is called for while a store is assembled, the calls are answered as those before them
say, and the store can be finished and holds what the calls say if all the names that they mention
are placed. -/
theorem assembled_transcript (id : Nat) (registers : UInt16) (calls : List Action) :
    (transcript perform calls (.new id registers)).1 = replies id calls ∧
      Assembled id registers calls (transcript perform calls (.new id registers)).2 := by
  have hstart : (StoreAssembler.new id registers).Refines (.new id registers) :=
    ⟨Store.refines_new id registers, rfl, Assembler.sound_new id registers⟩
  obtain ⟨hanswers, hrefines⟩ := transcript_of_simulates simulates_perform calls hstart
  obtain ⟨hreplies, hlogs⟩ := (Assembler.logs_new id registers).transcript calls
  exact ⟨hanswers.trans hreplies, hrefines.assembled hlogs⟩

end StoreAssembler

end Dalvik
