import Dalvik.Proofs.Draft.Assembling
import Mathlib.Data.List.Induction

/-!
# What a sequence of calls says

What is assembled by a sequence of calls can be told from the calls alone: which names they mention
and which they place (`Assembler.mentioned`, `Assembler.placed`), which label a name stands for
(`Assembler.labelOf`), which instructions are accepted (`Assembler.code`), how many of them come in
front of each label and each debug item (`Assembler.marks`, `Assembler.pins`), which handlers there
are (`Assembler.handlers`), and what is answered (`Assembler.replies`).
-/

namespace Dalvik

/-- An element that comes last is kept if it did not come up before. -/
theorem eraseDups_concat {α : Type} [BEq α] [LawfulBEq α] (xs : List α) (x : α) :
    (xs ++ [x]).eraseDups = if xs.contains x then xs.eraseDups else xs.eraseDups ++ [x] := by
  have hlast : [x].removeAll xs = if xs.contains x then [] else [x] := by
    by_cases hx : x ∈ xs <;> simp [List.removeAll, hx]
  rw [List.eraseDups_append, hlast]
  split
  · exact List.append_nil _
  · rfl

theorem nodup_eraseDups {α : Type} [BEq α] [LawfulBEq α] (xs : List α) : xs.eraseDups.Nodup := by
  induction xs using List.reverseRecOn with
  | nil => exact List.nodup_nil
  | append_singleton xs x ih =>
    rw [eraseDups_concat]
    split
    · exact ih
    · next hx =>
      rw [← List.concat_eq_append]
      exact ih.concat (by simpa using hx)

namespace Assembler

variable {α : Type} {calls : List Action} {name : String} {call : Action}

/-- What calls contribute one after the other, each of them knowing the calls in front of it. -/
def gather (f : List Action → Action → List α) (before : List Action) : List Action → List α
  | [] => []
  | call :: rest => f before call ++ gather f (before ++ [call]) rest

theorem gather_append (f : List Action → Action → List α) (before calls more : List Action) :
    gather f before (calls ++ more) = gather f before calls ++ gather f (before ++ calls) more := by
  induction calls generalizing before with
  | nil => simp [gather]
  | cons call rest ih =>
    rw [List.cons_append, gather, gather, ih, List.append_assoc, List.append_assoc,
      List.singleton_append]

theorem gather_concat (f : List Action → Action → List α) (calls : List Action) (call : Action) :
    gather f [] (calls ++ [call]) = gather f [] calls ++ f calls call := by
  rw [gather_append, gather, gather, List.append_nil, List.nil_append]

/-- What a call contributes is there in the end. -/
theorem mem_gather {f : List Action → Action → List α} {x : α} (hx : x ∈ f calls call)
    (behind : List Action) : x ∈ gather f [] (calls ++ call :: behind) := by
  rw [gather_append, List.mem_append, gather, List.mem_append]
  exact .inr (.inl hx)

/-! ### Names -/

/-- The names that a call mentions. -/
def Action.mentions : Action → List String
  | .label name | .place name => [name]
  | .addCatch _ start stop handler => [start, stop, handler]
  | .add _ | .addDebugItem _ | .addLine _ => []

/-- The names that are mentioned, in the order in which they come up first. -/
def mentioned (calls : List Action) : List String := (calls.flatMap Action.mentions).eraseDups

/-- The name that a call places, or tries to. -/
def Action.places : Action → List String
  | .place name => [name]
  | .label _ | .add _ | .addCatch .. | .addDebugItem _ | .addLine _ => []

/-- The names that are placed, or tried to be. -/
def placed (calls : List Action) : List String := calls.flatMap Action.places

/-- The label for a name.  A name that comes up next gets the next number. -/
def labelOf (draft : Nat) (calls : List Action) (name : String) : Label :=
  ⟨draft, (mentioned calls).idxOf name⟩

theorem mem_mentioned_iff : name ∈ mentioned calls ↔ ∃ call ∈ calls, name ∈ call.mentions := by
  rw [mentioned, List.mem_eraseDups, List.mem_flatMap]

theorem mem_placed_iff : name ∈ placed calls ↔ .place name ∈ calls := by
  rw [placed, List.mem_flatMap]
  constructor
  · rintro ⟨call, hcall, hname⟩
    cases call with
    | place name' =>
      obtain rfl := List.mem_singleton.1 hname
      exact hcall
    | _ => cases hname
  · exact fun hcall => ⟨_, hcall, List.mem_singleton_self name⟩

/-- What is placed is mentioned. -/
theorem mem_mentioned_of_mem_placed (h : name ∈ placed calls) : name ∈ mentioned calls :=
  mem_mentioned_iff.2 ⟨_, mem_placed_iff.1 h, List.mem_singleton_self name⟩

theorem nodup_mentioned (calls : List Action) : (mentioned calls).Nodup := nodup_eraseDups _

theorem placed_concat (calls : List Action) (call : Action) :
    placed (calls ++ [call]) = placed calls ++ call.places := by
  rw [placed, List.flatMap_append, List.flatMap_singleton, placed]

theorem placed_concat_of_eq_nil (h : call.places = []) :
    placed (calls ++ [call]) = placed calls := by
  rw [placed_concat, h, List.append_nil]

/-- Names come up behind those that came up before. -/
theorem exists_mentioned_append (calls more : List Action) :
    ∃ names, mentioned (calls ++ more) = mentioned calls ++ names := by
  rw [mentioned, List.flatMap_append, List.eraseDups_append]
  exact ⟨_, rfl⟩

/-- Names do not come up in what mentions none. -/
theorem mentioned_concat_of_eq_nil (h : call.mentions = []) :
    mentioned (calls ++ [call]) = mentioned calls := by
  rw [mentioned, List.flatMap_append, List.flatMap_singleton, h, List.append_nil, mentioned]

/-- A name that is mentioned for the first time comes last. -/
theorem mentioned_concat (h : call.mentions = [name]) : mentioned (calls ++ [call]) =
    if name ∈ mentioned calls then mentioned calls else mentioned calls ++ [name] := by
  rw [mentioned, List.flatMap_append, List.flatMap_singleton, h, eraseDups_concat, ← mentioned]
  simp only [mentioned, List.mem_eraseDups, List.contains_iff_mem]

/-- A name stands for the same label for ever. -/
theorem labelOf_append (draft : Nat) (h : name ∈ mentioned calls) (more : List Action) :
    labelOf draft (calls ++ more) name = labelOf draft calls name := by
  obtain ⟨names, hnames⟩ := exists_mentioned_append calls more
  rw [labelOf, hnames, List.idxOf_append_of_mem h, labelOf]

/-- Different names stand for different labels. -/
theorem labelOf_inj {draft : Nat} {name' : String} (h : name ∈ mentioned calls) :
    labelOf draft calls name = labelOf draft calls name' ↔ name = name' := by
  rw [labelOf, labelOf, Label.mk.injEq, List.idxOf_inj h]
  exact and_iff_right rfl

/-- The label of a name that is mentioned now was known before. -/
theorem labelOf_concat_self (draft : Nat) (h : call.mentions = [name]) :
    labelOf draft (calls ++ [call]) name = labelOf draft calls name := by
  rw [labelOf, mentioned_concat h, labelOf]
  split
  · rfl
  · next hname =>
    rw [List.idxOf_append_of_notMem hname, List.idxOf_eq_length hname]
    simp

/-! ### Instructions -/

/-- Whether an instruction is accepted behind some calls. -/
def check (draft : Nat) (before : List Action) (i : Instruction Label) : Except Error Unit := do
  i.validate
  i.targets.forM fun label =>
    if label.draft = draft && label.number < (mentioned before).length then .ok ()
    else .error (.unknownLabel label)

/-- The instruction that a call adds, if it is accepted. -/
def Action.code (draft : Nat) (before : List Action) : Action → List (Instruction Label)
  | .add i =>
    match check draft before i with
    | .ok () => [i]
    | .error _ => []
  | .label _ | .place _ | .addCatch .. | .addDebugItem _ | .addLine _ => []

/-- The instructions that are accepted. -/
def code (draft : Nat) (calls : List Action) : List (Instruction Label) :=
  gather (Action.code draft) [] calls

theorem code_concat (draft : Nat) (calls : List Action) (call : Action) :
    code draft (calls ++ [call]) = code draft calls ++ call.code draft calls :=
  gather_concat _ _ _

/-- An instruction is accepted if it is valid, and its labels are those of names mentioned before.
-/
theorem check_eq_ok_iff {draft : Nat} {i : Instruction Label} : check draft calls i = .ok () ↔
    i.Valid ∧ ∀ label ∈ i.targets, ∃ name ∈ mentioned calls, labelOf draft calls name = label := by
  have hknown : ∀ label : Label, (∃ name ∈ mentioned calls, labelOf draft calls name = label) ↔
      label.draft = draft ∧ label.number < (mentioned calls).length := by
    rintro ⟨draft, number⟩
    constructor
    · rintro ⟨name, hname, heq⟩
      cases heq
      exact ⟨rfl, List.idxOf_lt_length_iff.2 hname⟩
    · rintro ⟨rfl, hnumber⟩
      refine ⟨_, List.getElem_mem hnumber, ?_⟩
      rw [labelOf, (nodup_mentioned calls).idxOf_getElem]
  rw [check, bind_eq_ok_iff, forM_eq_ok_iff]
  constructor
  · rintro ⟨⟨⟩, hvalid, hlabels⟩
    refine ⟨Instruction.validate_eq_ok_iff.1 hvalid, fun label hlabel => (hknown label).2 ?_⟩
    have hok := hlabels label hlabel
    split at hok
    · next h => simpa using h
    · cases hok
  · rintro ⟨hvalid, hlabels⟩
    refine ⟨(), Instruction.validate_eq_ok_iff.2 hvalid, fun label hlabel => if_pos ?_⟩
    simpa using (hknown label).1 (hlabels label hlabel)

/-! ### What is attached -/

/-- The label that a call places, with the number of instructions in front of it. -/
def Action.marks (draft : Nat) (before : List Action) : Action → List (Nat × Label)
  | .place name =>
    if name ∈ placed before then []
    else [((Assembler.code draft before).length, labelOf draft before name)]
  | .label _ | .add _ | .addCatch .. | .addDebugItem _ | .addLine _ => []

/-- The labels that are placed. -/
def marks (draft : Nat) (calls : List Action) : List (Nat × Label) :=
  gather (Action.marks draft) [] calls

theorem marks_concat (draft : Nat) (calls : List Action) (call : Action) :
    marks draft (calls ++ [call]) = marks draft calls ++ call.marks draft calls :=
  gather_concat _ _ _

/-- The debug item that a call adds, with the number of instructions in front of it. -/
def Action.pins (draft : Nat) (before : List Action) : Action → List (Nat × DebugItem)
  | .addDebugItem item => [((Assembler.code draft before).length, item)]
  | .addLine line => [((Assembler.code draft before).length, .line line)]
  | .label _ | .place _ | .add _ | .addCatch .. => []

/-- The debug items that are added. -/
def pins (draft : Nat) (calls : List Action) : List (Nat × DebugItem) :=
  gather (Action.pins draft) [] calls

theorem pins_concat (draft : Nat) (calls : List Action) (call : Action) :
    pins draft (calls ++ [call]) = pins draft calls ++ call.pins draft calls :=
  gather_concat _ _ _

/-- The handler that a call adds, with labels for names. -/
def Action.handlers (label : String → Label) : Action → List (TryEntry Label)
  | .addCatch type? start stop handler => [⟨label start, label stop, type?, label handler⟩]
  | .label _ | .place _ | .add _ | .addDebugItem _ | .addLine _ => []

/-- The handlers that are added. -/
def handlers (draft : Nat) (calls : List Action) : List (TryEntry Label) :=
  calls.flatMap (Action.handlers (labelOf draft calls))

/-- Handlers keep their labels. -/
theorem handlers_concat (draft : Nat) (calls : List Action) (call : Action) :
    handlers draft (calls ++ [call]) =
      handlers draft calls ++ call.handlers (labelOf draft (calls ++ [call])) := by
  have hstable : ∀ call' ∈ calls, call'.handlers (labelOf draft (calls ++ [call])) =
      call'.handlers (labelOf draft calls) := by
    intro call' hcall'
    cases call' with
    | addCatch type? start stop handler =>
      have hlabel : ∀ name ∈ [start, stop, handler],
          labelOf draft (calls ++ [call]) name = labelOf draft calls name :=
        fun name hname => labelOf_append draft (mem_mentioned_iff.2 ⟨_, hcall', hname⟩) _
      simp only [Action.handlers, hlabel start (by simp), hlabel stop (by simp),
        hlabel handler (by simp)]
    | _ => rfl
  rw [handlers, List.flatMap_append, List.flatMap_singleton, List.flatMap_congr hstable, handlers]

/-! ### Answers -/

/-- What a call is answered behind some others. -/
def reply (draft : Nat) (before : List Action) : Action → Except Error (Option Label)
  | .label name => .ok (some (labelOf draft (before ++ [.label name]) name))
  | .place name =>
    if name ∈ placed before then .error (.duplicateLabel name)
    else .ok (some (labelOf draft (before ++ [.place name]) name))
  | .add i => do
    check draft before i
    return none
  | .addCatch .. | .addDebugItem _ | .addLine _ => .ok none

/-- What the calls are answered. -/
def replies (draft : Nat) (calls : List Action) : List (Except Error (Option Label)) :=
  gather (fun before call => [reply draft before call]) [] calls

end Assembler

end Dalvik
