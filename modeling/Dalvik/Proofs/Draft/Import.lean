import Dalvik.Proofs.Draft.Soundness
import Dalvik.Proofs.Listing.Marking
import Dalvik.Draft.OfOutline

/-!
# Drafts that spell out an outline

`Draft.ofOutline` gives every place that an outline mentions a label of its own.  The labels are
numbered in the order of `Outline.places`, so a label denotes the place that is found there under its
number (`Draft.locate_ofOutline`).  It follows that the draft is sound and that the outline can be
read off it again.
-/

namespace Dalvik

/-! ### Consecutive labels -/

/-- `labels` are labels of the draft with identity `draft`, and under their numbers the places
`targets` are found. -/
def LabelsFor (draft : Nat) (places targets : List Nat) (labels : List Label) : Prop :=
  List.Forall₂ (fun t label => label.draft = draft ∧ places[label.number]? = some t) targets labels

/-- Labels that are numbered from `first` on denote the places from there on. -/
theorem labelsFor_range' {draft first : Nat} {places targets : List Nat}
    (h : targets <+: places.drop first) :
    LabelsFor draft places targets ((List.range' first targets.length).map (Label.mk draft)) := by
  induction targets generalizing first with
  | nil => exact .nil
  | cons t rest ih =>
    obtain ⟨behind, hbehind⟩ := h
    have hhead : places[first]? = some t := by
      rw [← List.head?_drop, ← hbehind, List.cons_append, List.head?_cons]
    have htail : rest <+: places.drop (first + 1) := by
      rw [← List.tail_drop, ← hbehind, List.cons_append, List.tail_cons]
      exact List.prefix_append _ _
    rw [List.length_cons, List.range'_succ, List.map_cons]
    exact .cons ⟨rfl, hhead⟩ (ih htail)

/-- What comes behind a prefix is found further on. -/
theorem rest_isPrefix_drop {α : Type} {xs ys places : List α} {first : Nat}
    (h : xs ++ ys <+: places.drop first) : ys <+: places.drop (first + xs.length) := by
  obtain ⟨behind, hbehind⟩ := h
  rw [← List.drop_drop, ← hbehind, List.append_assoc, List.drop_left]
  exact List.prefix_append _ _

/-- The action that issues the next label. -/
private def issueNext (draft : Nat) (_ : Nat) : StateM Nat Label :=
  modifyGet fun number => (⟨draft, number⟩, number + 1)

private theorem mapM_issueNext (draft : Nat) (targets : List Nat) (first : Nat) :
    (targets.mapM (issueNext draft)).run first =
      ((List.range' first targets.length).map (Label.mk draft), first + targets.length) := by
  induction targets generalizing first with
  | nil => rfl
  | cons t rest ih =>
    have hstep : ((t :: rest).mapM (issueNext draft)).run first =
        (⟨draft, first⟩ :: ((rest.mapM (issueNext draft)).run (first + 1)).1,
          ((rest.mapM (issueNext draft)).run (first + 1)).2) := by
      rw [List.mapM_cons]
      rfl
    rw [hstep, ih, List.length_cons, List.range'_succ, List.map_cons, Nat.add_right_comm,
      Nat.add_assoc]

/-- The action that issues a label for a case. -/
private def issueCase (draft : Nat) (c : SwitchCase Nat) : StateM Nat (SwitchCase Label) := do
  return ⟨c.key, ← issueNext draft c.target⟩

private theorem mapM_issueCase (draft : Nat) (cases : List (SwitchCase Nat)) (first : Nat) :
    ((cases.mapM (issueCase draft)).run first).1.map SwitchCase.key =
        cases.map SwitchCase.key ∧
      ((cases.mapM (issueCase draft)).run first).1.map SwitchCase.target =
        (List.range' first cases.length).map (Label.mk draft) := by
  induction cases generalizing first with
  | nil => exact ⟨rfl, rfl⟩
  | cons c rest ih =>
    have hstep : ((c :: rest).mapM (issueCase draft)).run first =
        (⟨c.key, ⟨draft, first⟩⟩ :: ((rest.mapM (issueCase draft)).run (first + 1)).1,
          ((rest.mapM (issueCase draft)).run (first + 1)).2) := by
      rw [List.mapM_cons]
      rfl
    obtain ⟨hkeys, htargets⟩ := ih (first + 1)
    rw [hstep, List.map_cons, List.map_cons, List.map_cons, hkeys, htargets, List.length_cons,
      List.range'_succ, List.map_cons]
    exact ⟨rfl, rfl⟩

/-- An instruction gets consecutive labels for its targets and stays the same otherwise. -/
theorem Instruction.withLabels_spec (i : Instruction Nat) (draft first : Nat) :
    (i.withLabels draft first).shape = i.shape ∧
      (i.withLabels draft first).targets =
        (List.range' first i.targets.length).map (Label.mk draft) := by
  cases i with
  | op o args => cases args <;> exact ⟨rfl, rfl⟩
  | data p =>
    cases p with
    | packed firstKey targets =>
      have hrun : (Instruction.data (Payload.packed firstKey targets)).withLabels draft first =
          .data (.packed firstKey ((targets.mapM (issueNext draft)).run first).1) := rfl
      rw [hrun, mapM_issueNext]
      refine ⟨?_, rfl⟩
      simp only [shape, Payload.shape, List.map_const', List.length_map, List.length_range']
    | sparse cases =>
      have hrun : (Instruction.data (Payload.sparse cases)).withLabels draft first =
          .data (.sparse ((cases.mapM (issueCase draft)).run first).1) := rfl
      obtain ⟨hkeys, htargets⟩ := mapM_issueCase draft cases first
      rw [hrun]
      refine ⟨?_, ?_⟩
      · have hshape : ∀ {τ : Type} (cs : List (SwitchCase τ)),
            (Instruction.data (Payload.sparse cs)).shape =
              .data (.sparse ((cs.map SwitchCase.key).map fun key => ⟨key, ()⟩)) := by
          intro τ cs
          simp [shape, Payload.shape, Function.comp_def]
        rw [hshape, hshape, hkeys]
      · have hlength : (Instruction.data (Payload.sparse cases)).targets.length = cases.length :=
          List.length_map _
        rw [hlength]
        exact htargets
    | array width data => exact ⟨rfl, rfl⟩

/-- Converting the places of a handler converts just these. -/
theorem TryEntry.mapM_eq_ok_iff {ε τ σ : Type} {f : τ → Except ε σ} {entry : TryEntry τ}
    {entry' : TryEntry σ} : entry.mapM f = .ok entry' ↔
      entry'.type? = entry.type? ∧
        List.Forall₂ (fun t s => f t = .ok s) entry.places entry'.places := by
  obtain ⟨start, stop, type?, handler⟩ := entry
  obtain ⟨start', stop', type?', handler'⟩ := entry'
  simp only [TryEntry.mapM, bind_eq_ok_iff, pure_eq_ok_iff, TryEntry.mk.injEq, places,
    List.forall₂_cons, List.forall₂_nil_left_iff, and_true]
  constructor
  · rintro ⟨_, hstart, _, hstop, _, hhandler, rfl, rfl, rfl, rfl⟩
    exact ⟨rfl, hstart, hstop, hhandler⟩
  · rintro ⟨rfl, hstart, hstop, hhandler⟩
    exact ⟨_, hstart, _, hstop, _, hhandler, rfl, rfl, rfl, rfl⟩

/-! ### The instructions and handlers of the draft -/

namespace Outline

/-- The places of an outline are those that instructions and handlers mention. -/
theorem mem_places_iff {o : Outline} {k : Nat} : k ∈ o.places ↔
    (∃ i ∈ o.instructions, k ∈ i.targets) ∨ ∃ entry ∈ o.tries, k ∈ entry.places := by
  simp only [places, branches, payloads, List.mem_append, List.mem_flatMap, List.mem_filter]
  refine or_congr_left ⟨?_, ?_⟩
  · rintro (⟨i, ⟨hi, -⟩, hk⟩ | ⟨i, ⟨hi, -⟩, hk⟩)
    · exact ⟨i, hi, hk⟩
    · exact ⟨i, hi, hk⟩
  · rintro ⟨i, hi, hk⟩
    by_cases hpayload : i.isPayload = true
    · exact Or.inr ⟨i, ⟨hi, hpayload⟩, hk⟩
    · exact Or.inl ⟨i, ⟨hi, by simpa using hpayload⟩, hk⟩

/-- What an outline consists of makes sense. -/
structure WellFormed (o : Outline) : Prop where
  /-- The instructions can be encoded, their offsets apart. -/
  valid : ∀ i ∈ o.instructions, i.Valid
  /-- Every place is that of an instruction or the end. -/
  places : ∀ k ∈ o.places, k ≤ o.instructions.length
  /-- So is the place of every debug item. -/
  items : ∀ m ∈ o.debugItems, m.1 ≤ o.instructions.length

theorem WellFormed.targets {o : Outline} (h : o.WellFormed) :
    ∀ i ∈ o.instructions, ∀ k ∈ i.targets, k ≤ o.instructions.length :=
  fun i hi k hk => h.places k (mem_places_iff.2 (Or.inl ⟨i, hi, hk⟩))

end Outline

namespace Draft

/-- An instruction and its labelled form. -/
def LabelledFor (draft : Nat) (places : List Nat) (i : Instruction Nat) (j : Instruction Label) :
    Prop :=
  j.shape = i.shape ∧ LabelsFor draft places i.targets j.targets

theorem labelledFor_withLabels {draft first : Nat} {places : List Nat} {i : Instruction Nat}
    (h : i.targets <+: places.drop first) :
    LabelledFor draft places i (i.withLabels draft first) := by
  obtain ⟨hshape, htargets⟩ := i.withLabels_spec draft first
  refine ⟨hshape, ?_⟩
  rw [htargets]
  exact labelsFor_range' h

/-- The step by which `labelInstructions` goes through the instructions. -/
private def labelStep (draft : Nat) (state : Array (Instruction Label) × Nat × Nat)
    (i : Instruction Nat) : Array (Instruction Label) × Nat × Nat :=
  if i.isPayload then
    (state.1.push (i.withLabels draft state.2.2), state.2.1, state.2.2 + i.targets.length)
  else
    (state.1.push (i.withLabels draft state.2.1), state.2.1 + i.targets.length, state.2.2)

private theorem labelInstructions_eq (draft branch table : Nat)
    (instructions : List (Instruction Nat)) :
    labelInstructions draft branch table instructions =
      (instructions.foldl (labelStep draft) (#[], branch, table)).1 := rfl

/-- The numbers of the labels that come next in a branch and in a table point at the places that come
next among the branches and among the tables. -/
private theorem foldl_labelStep (draft : Nat) {places : List Nat}
    (instructions : List (Instruction Nat)) (labelled : Array (Instruction Label))
    {branch table : Nat}
    (hbranch : (instructions.filter (!·.isPayload)).flatMap (·.targets) <+: places.drop branch)
    (htable : (instructions.filter (·.isPayload)).flatMap (·.targets) <+: places.drop table) :
    ∃ rest, (instructions.foldl (labelStep draft) (labelled, branch, table)).1.toList =
        labelled.toList ++ rest ∧
      List.Forall₂ (LabelledFor draft places) instructions rest := by
  induction instructions generalizing labelled branch table with
  | nil => exact ⟨[], by simp, .nil⟩
  | cons i instructions ih =>
    rw [List.foldl_cons]
    by_cases hpayload : i.isPayload = true
    · have hstep : labelStep draft (labelled, branch, table) i =
          (labelled.push (i.withLabels draft table), branch, table + i.targets.length) :=
        if_pos hpayload
      simp only [List.filter_cons, hpayload, Bool.not_true, Bool.false_eq_true, if_false, if_true,
        List.flatMap_cons] at hbranch htable
      obtain ⟨rest, hrest, hall⟩ := ih (labelled.push (i.withLabels draft table)) hbranch
        (rest_isPrefix_drop htable)
      refine ⟨i.withLabels draft table :: rest, ?_, .cons ?_ hall⟩
      · rw [hstep, hrest]
        simp
      · exact labelledFor_withLabels ((List.prefix_append _ _).trans htable)
    · have hstep : labelStep draft (labelled, branch, table) i =
          (labelled.push (i.withLabels draft branch), branch + i.targets.length, table) :=
        if_neg hpayload
      simp only [List.filter_cons, hpayload, Bool.not_false, Bool.false_eq_true, if_false, if_true,
        List.flatMap_cons] at hbranch htable
      obtain ⟨rest, hrest, hall⟩ := ih (labelled.push (i.withLabels draft branch))
        (rest_isPrefix_drop hbranch) htable
      refine ⟨i.withLabels draft branch :: rest, ?_, .cons ?_ hall⟩
      · rw [hstep, hrest]
        simp
      · exact labelledFor_withLabels ((List.prefix_append _ _).trans hbranch)

/-- A handler and its labelled form. -/
def LabelledTryFor (draft : Nat) (places : List Nat) (entry : TryEntry Nat)
    (entry' : TryEntry Label) : Prop :=
  entry'.type? = entry.type? ∧ LabelsFor draft places entry.places entry'.places

/-- The handlers from the `n`-th on get three labels each. -/
private theorem forall₂_labelTries {draft first : Nat} {places : List Nat}
    (tries : List (TryEntry Nat)) (n : Nat)
    (h : tries.flatMap (·.places) <+: places.drop (first + 3 * n)) :
    List.Forall₂ (LabelledTryFor draft places) tries
      ((tries.zipIdx n).map fun (entry, k) =>
        ⟨⟨draft, first + 3 * k⟩, ⟨draft, first + 3 * k + 1⟩, entry.type?,
          ⟨draft, first + 3 * k + 2⟩⟩) := by
  induction tries generalizing n with
  | nil => exact .nil
  | cons entry rest ih =>
    rw [List.flatMap_cons] at h
    rw [List.zipIdx_cons, List.map_cons]
    refine .cons ⟨rfl, labelsFor_range' ((List.prefix_append _ _).trans h)⟩ (ih (n + 1) ?_)
    exact rest_isPrefix_drop h

/-- The handlers get three labels each. -/
theorem labelTries_spec {draft first : Nat} {places : List Nat} {tries : List (TryEntry Nat)}
    (h : tries.flatMap (·.places) <+: places.drop first) :
    List.Forall₂ (LabelledTryFor draft places) tries (labelTries draft first tries).toList := by
  rw [labelTries, List.toList_toArray]
  exact forall₂_labelTries tries 0 h

end Draft

/-! ### The places of the labels -/

namespace Listing

variable {l : Listing} {draft : Nat}

/-- Places one label after the other. -/
def markAll (l : Listing) (draft : Nat) (places : List (Nat × Nat)) : Listing :=
  places.foldl (fun l (index, number) => l.mark index ⟨draft, number⟩) l

/-- Pins one debug item after the other. -/
def pinAll (l : Listing) (items : List (Nat × DebugItem)) : Listing :=
  items.foldl (fun l (index, item) => l.pin index item) l

theorem markAll_cons (l : Listing) (draft k n : Nat) (rest : List (Nat × Nat)) :
    l.markAll draft ((k, n) :: rest) = (l.mark k ⟨draft, n⟩).markAll draft rest := rfl

theorem pinAll_cons (l : Listing) (k : Nat) (item : DebugItem) (rest : List (Nat × DebugItem)) :
    l.pinAll ((k, item) :: rest) = (l.pin k item).pinAll rest := rfl

/-- Placing labels leaves everything else as it is. -/
theorem markAll_spec {places : List (Nat × Nat)} (h : ∀ p ∈ places, p.1 ≤ l.size) :
    (l.markAll draft places).instructions = l.instructions ∧
      (l.markAll draft places).issued = l.issued ∧
      (l.markAll draft places).debugItems = l.debugItems ∧
      (l.markAll draft places).marks.Perm
        (places.map (fun p => (p.1, ⟨draft, p.2⟩)) ++ l.marks) := by
  induction places generalizing l with
  | nil => exact ⟨rfl, rfl, rfl, .refl _⟩
  | cons p rest ih =>
    obtain ⟨k, n⟩ := p
    have hk : k ≤ l.size := h (k, n) List.mem_cons_self
    obtain ⟨hinstructions, hissued, hitems, hmarks⟩ := ih (l := l.mark k ⟨draft, n⟩)
      fun p hp => by rw [size_mark]; exact h p (List.mem_cons_of_mem _ hp)
    rw [markAll_cons]
    refine ⟨?_, ?_, ?_, ?_⟩
    · rw [hinstructions, instructions_mark]
    · rw [hissued, issued_mark]
    · rw [hitems, debugItems_mark hk]
    · refine hmarks.trans (((marks_mark_perm hk _).append_left _).trans ?_)
      exact List.perm_middle

theorem sameButItems_pinAll {items : List (Nat × DebugItem)} (h : ∀ m ∈ items, m.1 ≤ l.size) :
    (l.pinAll items).SameButItems l := by
  induction items generalizing l with
  | nil => exact .refl l
  | cons m rest ih =>
    obtain ⟨k, item⟩ := m
    have hpin := sameButItems_pin (h (k, item) List.mem_cons_self) item
    refine (ih fun m hm => ?_).trans hpin
    rw [hpin.size]
    exact h m (List.mem_cons_of_mem _ hm)

/-- Items that are pinned front to back stay in their order. -/
theorem debugItems_pinAll {items : List (Nat × DebugItem)} (h : ∀ m ∈ items, m.1 ≤ l.size)
    (hsorted : (l.debugItems ++ items).Pairwise fun m m' => m.1 ≤ m'.1) :
    (l.pinAll items).debugItems = l.debugItems ++ items := by
  induction items generalizing l with
  | nil => exact (List.append_nil _).symm
  | cons m rest ih =>
    obtain ⟨k, item⟩ := m
    have hk : k ≤ l.size := h (k, item) List.mem_cons_self
    have hle : ∀ m ∈ l.debugItems, m.1 ≤ k := fun m hm =>
      (List.pairwise_append.1 hsorted).2.2 m hm (k, item) List.mem_cons_self
    have hpin := debugItems_pin_of_forall_le hk hle item
    have hrest := ih (l := l.pin k item)
      (fun m hm => by
        rw [(sameButItems_pin hk item).size]
        exact h m (List.mem_cons_of_mem _ hm))
      (by rw [hpin, List.append_assoc]; exact hsorted)
    rw [pinAll_cons, hrest, hpin, List.append_assoc]
    rfl

end Listing

namespace Draft

variable {o : Outline} {draft : Nat}

/-- The code of an outline with labels for targets, none of which has been placed. -/
private def bare (draft : Nat) (o : Outline) : Listing where
  slots := (labelInstructions draft 0 (o.branches.flatMap (·.targets)).length o.instructions).map
    fun i => ⟨i, ∅⟩
  issued := o.places.length

/-- The code of an outline with all labels in their places. -/
private def marked (draft : Nat) (o : Outline) : Listing :=
  (bare draft o).markAll draft o.places.zipIdx

private theorem listing_ofOutline (draft : Nat) (o : Outline) :
    (ofOutline draft o).listing = (marked draft o).pinAll o.debugItems := rfl

private theorem bare_spec (draft : Nat) (o : Outline) :
    List.Forall₂ (LabelledFor draft o.places) o.instructions (bare draft o).instructions ∧
      (bare draft o).marks = [] ∧ (bare draft o).debugItems = [] := by
  have hbranch : (o.instructions.filter (!·.isPayload)).flatMap (·.targets) <+: o.places.drop 0 :=
    ⟨_, (List.append_assoc _ _ _).symm⟩
  have htable : (o.instructions.filter (·.isPayload)).flatMap (·.targets) <+:
      o.places.drop (o.branches.flatMap (·.targets)).length := by
    rw [Outline.places, List.append_assoc, List.drop_left]
    exact List.prefix_append _ _
  obtain ⟨labelled, hlabelled, hall⟩ :=
    foldl_labelStep draft o.instructions #[] hbranch htable
  have hinstructions : (bare draft o).instructions = labelled := by
    have hlist : (labelInstructions draft 0 (o.branches.flatMap (·.targets)).length
        o.instructions).toList = labelled := by
      rw [labelInstructions_eq, hlabelled]
      rfl
    rw [← hlist]
    simp [bare, Listing.instructions, Function.comp_def]
  have hpoints : (bare draft o).points = List.replicate ((bare draft o).size + 1) ∅ := by
    rw [List.replicate_succ', Listing.points]
    congr 1
    simp [bare, Listing.size, List.map_const', Function.comp_def]
  refine ⟨hinstructions ▸ hall, ?_, ?_⟩
  · rw [Listing.marks, hpoints]
    exact attachments_replicate rfl _ _
  · rw [Listing.debugItems_eq, hpoints]
    exact attachments_replicate rfl _ _

private theorem forall_mem_zipIdx_places (h : o.WellFormed) :
    ∀ p ∈ o.places.zipIdx, p.1 ≤ (bare draft o).size := by
  intro p hp
  have hlength : (bare draft o).size = o.instructions.length := by
    rw [← Listing.length_instructions]
    exact (bare_spec draft o).1.length_eq.symm
  rw [hlength]
  exact h.places _ (List.fst_mem_of_mem_zipIdx hp)

private theorem marked_spec (draft : Nat) (h : o.WellFormed) :
    List.Forall₂ (LabelledFor draft o.places) o.instructions (marked draft o).instructions ∧
      (marked draft o).issued = o.places.length ∧ (marked draft o).debugItems = [] ∧
      (marked draft o).marks.Perm (o.places.zipIdx.map fun p => (p.1, ⟨draft, p.2⟩)) := by
  obtain ⟨hbare, hmarks, hitems⟩ := bare_spec draft o
  obtain ⟨hinstructions, hissued, hitems', hmarks'⟩ :=
    Listing.markAll_spec (l := bare draft o) (forall_mem_zipIdx_places h)
  rw [hmarks, List.append_nil] at hmarks'
  exact ⟨hinstructions.symm ▸ hbare, hissued, hitems'.trans hitems, hmarks'⟩

private theorem size_marked (h : o.WellFormed) : (marked draft o).size = o.instructions.length := by
  rw [← Listing.length_instructions]
  exact (marked_spec draft h).1.length_eq.symm

/-- A label stands at a place of the outline, the one under its number. -/
private theorem mem_marks_marked_iff (h : o.WellFormed) {k : Nat} {label : Label} :
    (k, label) ∈ (marked draft o).marks ↔
      label.draft = draft ∧ o.places[label.number]? = some k := by
  rw [(marked_spec draft h).2.2.2.mem_iff, List.mem_map]
  constructor
  · rintro ⟨p, hp, heq⟩
    obtain ⟨rfl, rfl⟩ := Prod.mk.inj heq
    exact ⟨rfl, List.mem_zipIdx_iff_getElem?.1 hp⟩
  · rintro ⟨rfl, hk⟩
    exact ⟨(k, label.number), List.mem_zipIdx_iff_getElem?.2 hk, rfl⟩

private theorem sound_marked (h : o.WellFormed) : (marked draft o).Sound draft := by
  obtain ⟨hlabelled, hissued, -, hmarks⟩ := marked_spec draft h
  have hmem : ∀ {label : Label}, label ∈ (marked draft o).labels →
      (marked draft o).Issued draft label := by
    intro label hlabel
    obtain ⟨k, hk⟩ := Listing.exists_mem_marks hlabel
    obtain ⟨hdraft, hplace⟩ := (mem_marks_marked_iff h).1 hk
    refine ⟨hdraft, ?_⟩
    rw [hissued]
    exact (List.getElem?_eq_some_iff.1 hplace).1
  refine ⟨⟨fun j hj => ?_, fun j hj label hlabel => ?_, fun label => hmem, ?_⟩, ?_⟩
  · obtain ⟨i, hi, hshape, -⟩ := forall₂_exists_left hlabelled hj
    rw [← Instruction.valid_shape_iff, hshape, Instruction.valid_shape_iff]
    exact h.valid i hi
  · obtain ⟨i, -, -, htargets⟩ := forall₂_exists_left hlabelled hj
    obtain ⟨t, -, hdraft, hplace⟩ := forall₂_exists_left htargets hlabel
    refine ⟨hdraft, ?_⟩
    rw [hissued]
    exact (List.getElem?_eq_some_iff.1 hplace).1
  · -- the numbers of the labels are all different
    refine (hmarks.map Prod.snd).nodup_iff.2 ?_
    rw [List.map_map]
    have hnumbers : (o.places.zipIdx.map Prod.snd).Nodup := by
      rw [List.zipIdx_map_snd]
      exact List.nodup_range'
    have hcomp : o.places.zipIdx.map (Prod.snd ∘ fun p => (p.1, (⟨draft, p.2⟩ : Label))) =
        (o.places.zipIdx.map Prod.snd).map (Label.mk draft) := by
      rw [List.map_map]
      rfl
    rw [hcomp]
    exact hnumbers.map fun m n hmn => (Label.mk.inj hmn).2
  · intro label hlabel
    rw [Listing.Issued, hissued] at hlabel
    exact Listing.mem_labels_of_mem_marks ((mem_marks_marked_iff h).2
      ⟨hlabel.1, List.getElem?_eq_getElem hlabel.2⟩)

private theorem sameButItems_ofOutline (draft : Nat) (h : o.WellFormed) :
    (ofOutline draft o).listing.SameButItems (marked draft o) := by
  rw [listing_ofOutline]
  refine Listing.sameButItems_pinAll fun m hm => ?_
  rw [size_marked h]
  exact h.items m hm

/-- The instructions of the draft are the labelled ones. -/
theorem instructions_ofOutline (draft : Nat) (h : o.WellFormed) :
    (ofOutline draft o).listing.instructions =
      (labelInstructions draft 0 (o.branches.flatMap (·.targets)).length
        o.instructions).toList := by
  rw [(sameButItems_ofOutline draft h).instructions, marked,
    (Listing.markAll_spec (l := bare draft o) (forall_mem_zipIdx_places h)).1]
  simp [bare, Listing.instructions, Function.comp_def]

theorem size_ofOutline (draft : Nat) (h : o.WellFormed) :
    (ofOutline draft o).listing.size = o.instructions.length :=
  (sameButItems_ofOutline draft h).size.trans (size_marked h)

/-- A label of the draft stands at the place which has its number. -/
theorem locate_ofOutline (h : o.WellFormed) {label : Label} {k : Nat} :
    (ofOutline draft o).locate label = .ok k ↔
      label.draft = draft ∧ o.places[label.number]? = some k := by
  have hsame := sameButItems_ofOutline draft h
  rw [locate_eq_ok_iff]
  constructor
  · rintro ⟨hlabel, hk⟩
    rw [(hsame.coherent (sound_marked h).toCoherent).locate?_eq_some_iff hlabel, hsame.marks,
      mem_marks_marked_iff h] at hk
    exact hk
  · rintro ⟨hlabel, hk⟩
    refine ⟨hlabel, ?_⟩
    rw [(hsame.coherent (sound_marked h).toCoherent).locate?_eq_some_iff hlabel, hsame.marks,
      mem_marks_marked_iff h]
    exact ⟨hlabel, hk⟩

/-- The handlers of the draft are those of the outline. -/
private theorem tries_ofOutline (draft : Nat) (o : Outline) :
    List.Forall₂ (LabelledTryFor draft o.places) o.tries (ofOutline draft o).tries.toList := by
  -- the places of the handlers are the last ones of the outline, with nothing after them
  refine labelTries_spec ⟨[], ?_⟩
  rw [List.append_nil, Outline.places, ← List.length_append, List.drop_left]

/-- A draft that spells out an outline is sound. -/
theorem sound_ofOutline (h : o.WellFormed) : (ofOutline draft o).Sound := by
  have hsame := sameButItems_ofOutline draft h
  have hissued : (ofOutline draft o).listing.issued = o.places.length :=
    hsame.issued.trans (marked_spec draft h).2.1
  refine ⟨hsame.sound (sound_marked h), fun entry hentry label hlabel => ?_, fun hclean => ?_⟩
  · obtain ⟨entry', -, -, hplaces⟩ := forall₂_exists_left (tries_ofOutline draft o) hentry
    obtain ⟨t, -, hdraft, hplace⟩ := forall₂_exists_left hplaces hlabel
    refine ⟨hdraft, ?_⟩
    rw [hissued]
    exact (List.getElem?_eq_some_iff.1 hplace).1
  · by_cases hempty : o.instructions.isEmpty = true
    · have hnone : (ofOutline draft o).listing.instructions = [] := by
        have hlength := (marked_spec draft h).1.length_eq
        rw [List.isEmpty_iff.1 hempty] at hlength
        rw [hsame.instructions]
        exact List.eq_nil_of_length_eq_zero hlength.symm
      have howners : (ofOutline draft o).owners? = some [] := if_pos hempty
      exact legal_of_instructions_eq_nil hnone howners
    · have howners : (ofOutline draft o).owners? = none := if_neg hempty
      simp [needsRelaxation, howners] at hclean

/-- The outline can be read off the draft again, if its debug items are in order. -/
theorem outline_ofOutline (h : o.WellFormed)
    (hsorted : o.debugItems.Pairwise fun m m' => m.1 ≤ m'.1) :
    (ofOutline draft o).outline = .ok o := by
  have hsame := sameButItems_ofOutline draft h
  obtain ⟨hlabelled, -, hitems, -⟩ := marked_spec draft h
  have hlocate : ∀ {targets labels}, LabelsFor draft o.places targets labels →
      List.Forall₂ (fun label t => (ofOutline draft o).locate label = .ok t) labels targets := by
    intro targets labels htargets
    exact htargets.flip.imp fun label t hlabel => (locate_ofOutline h).2 hlabel
  have hinstructions : (ofOutline draft o).listing.instructions.mapM
      (fun i => i.mapTargetsM (ofOutline draft o).locate) = .ok o.instructions := by
    rw [mapM_eq_ok_iff, hsame.instructions]
    refine hlabelled.flip.imp fun j i hij => ?_
    exact Instruction.mapTargetsM_eq_ok_iff.2 ⟨hij.1.symm, hlocate hij.2⟩
  have htries : (ofOutline draft o).tries.toList.mapM
      (fun entry => entry.mapM (ofOutline draft o).locate) = .ok o.tries := by
    rw [mapM_eq_ok_iff]
    refine (tries_ofOutline draft o).flip.imp fun entry' entry hentry => ?_
    exact TryEntry.mapM_eq_ok_iff.2 ⟨hentry.1.symm, hlocate hentry.2⟩
  have hdebug : (ofOutline draft o).listing.debugItems = o.debugItems := by
    rw [listing_ofOutline, Listing.debugItems_pinAll, hitems, List.nil_append]
    · intro m hm
      rw [size_marked h]
      exact h.items m hm
    · rw [hitems]
      exact hsorted
  unfold outline
  refine bind_eq_ok_iff.2 ⟨o.instructions, hinstructions, ?_⟩
  refine bind_eq_ok_iff.2 ⟨o.tries, htries, ?_⟩
  rw [hdebug]
  rfl

end Draft

end Dalvik
