import Dalvik.Proofs.Draft.Steps
import Dalvik.Assembler

/-!
# Assembled drafts

While a method is assembled, names may be used before they are placed, so the listing is coherent but
need not be sound.  `Assembler.Sound` is what holds at any time: every label has a name of its own,
and a label stands somewhere exactly if its name is marked as placed.  When a method is finished, all
names have been placed, and the draft is sound.
-/

namespace Dalvik

namespace Assembler

/-- What has been assembled so far makes sense. -/
structure Sound (s : Assembler) : Prop where
  /-- The code and the labels that have been placed are in order. -/
  listing : s.draft.listing.Coherent s.draft.id
  /-- There is a name for every label. -/
  names : s.names.size = s.draft.listing.issued
  /-- No two labels share a name. -/
  distinct : ∀ (m n : Nat) (x y : NamedLabel), s.names[m]? = some x → s.names[n]? = some y → x.name = y.name → m = n
  /-- The names that are marked are those of the labels that stand somewhere. -/
  placed : ∀ (n : Nat) (x : NamedLabel), s.names[n]? = some x →
    (x.placed = true ↔ ⟨s.draft.id, n⟩ ∈ s.draft.listing.labels)
  /-- The handlers name labels of the draft. -/
  tries : ∀ entry ∈ s.draft.tries.toList, ∀ label ∈ entry.places,
    s.draft.listing.Issued s.draft.id label
  /-- Only a draft without code counts as relaxed. -/
  clean : s.draft.needsRelaxation = false →
    s.draft.listing.instructions = [] ∧ s.draft.owners? = some []

variable {α β : Type} {s : Assembler}

theorem sound_new (id : Nat) (registers : UInt16) : (new id registers).Sound where
  listing :=
    { valid := fun i hi => absurd hi List.not_mem_nil
      targets := fun i hi => absurd hi List.not_mem_nil
      own := fun label hlabel => absurd hlabel List.not_mem_nil
      nodup := List.nodup_nil }
  names := rfl
  distinct m n x y hx := by simp [new] at hx
  placed n x hx := by simp [new] at hx
  tries entry hentry := absurd hentry List.not_mem_nil
  clean _ := ⟨rfl, rfl⟩

/-- The assembler in which an action ends, whether it succeeds or fails. -/
def after (action : AssemblerM α) (s : Assembler) : Assembler :=
  match action s with
  | .ok _ s' => s'
  | .error _ s' => s'

/-- An action that leaves everything in order. -/
def Keeps (action : AssemblerM α) : Prop := ∀ s, s.Sound → (after action s).Sound

theorem Keeps.bind {action : AssemblerM α} {rest : α → AssemblerM β} (h : Keeps action)
    (hrest : ∀ a, Keeps (rest a)) : Keeps (action >>= rest) := by
  intro s hs
  have haction := h s hs
  rw [after] at haction
  cases hok : action s with
  | error e s' =>
    rw [hok] at haction
    rw [after, run_bind_of_error hok]
    exact haction
  | ok a s' =>
    rw [hok] at haction
    rw [after, run_bind_of_ok hok, ← after]
    exact hrest a s' haction

/-! ### Names -/

/-- Asking for the label of a name always gives one, issuing it if need be. -/
theorem exists_label_eq_ok (hs : s.Sound) (name : String) :
    ∃ s' n x, label name s = .ok ⟨s'.draft.id, n⟩ s' ∧ s'.Sound ∧ s'.names[n]? = some x ∧
      x.name = name := by
  cases hfind : s.names.findIdx? (·.name = name) with
  | some n =>
    obtain ⟨hn, hname, -⟩ := Array.findIdx?_eq_some_iff_getElem.1 hfind
    refine ⟨s, n, s.names[n], ?_, hs, Array.getElem?_eq_getElem hn, by simpa using hname⟩
    rw [label, run_get_bind, hfind]
    rfl
  | none =>
    have hfresh : ∀ (n : Nat) (x : NamedLabel), s.names[n]? = some x → x.name ≠ name := by
      intro n x hx
      simpa using Array.findIdx?_eq_none_iff.1 hfind x (Array.mem_of_getElem? hx)
    have hnames : ∀ (n : Nat) (x : NamedLabel), (s.names.push ⟨name, false⟩)[n]? = some x →
        s.names[n]? = some x ∨ (n = s.names.size ∧ x = ⟨name, false⟩) := by
      intro n x hx
      rw [Array.getElem?_push] at hx
      split at hx
      · next hn => exact Or.inr ⟨hn, (Option.some.inj hx).symm⟩
      · exact Or.inl hx
    refine ⟨{ draft := { s.draft with listing := s.draft.listing.issue }
              names := s.names.push ⟨name, false⟩ },
      s.names.size, ⟨name, false⟩, ?_, ?_, by simp, rfl⟩
    · rw [hs.names]
      rw [label, run_get_bind, hfind]
      rfl
    · refine ⟨hs.listing.issue, ?_, ?_, ?_, ?_, hs.clean⟩
      · simp [hs.names, Listing.issued_issue]
      · intro m n x y hx hy hxy
        rcases hnames m x hx with hx | ⟨rfl, rfl⟩ <;> rcases hnames n y hy with hy | ⟨rfl, rfl⟩
        · exact hs.distinct m n x y hx hy hxy
        · exact absurd hxy (hfresh m x hx)
        · exact absurd hxy.symm (hfresh n y hy)
        · rfl
      · intro n x hx
        rcases hnames n x hx with hx | ⟨rfl, rfl⟩
        · exact hs.placed n x hx
        · constructor
          · intro h
            simp at h
          · intro hmem
            have hissued := (hs.listing.own _ hmem).2
            rw [← hs.names] at hissued
            exact absurd hissued (Nat.lt_irrefl _)
      · intro entry hentry label hlabel
        obtain ⟨hdraft, hnumber⟩ := hs.tries entry hentry label hlabel
        exact ⟨hdraft, Nat.lt_succ_of_lt hnumber⟩

theorem keeps_label (name : String) : Keeps (label name) := by
  intro s hs
  obtain ⟨s', n, x, hok, hs', -⟩ := exists_label_eq_ok hs name
  rw [after, hok]
  exact hs'

/-- Placing a name marks it and places its label, unless it has been placed before. -/
theorem keeps_place (name : String) : Keeps (place name) := by
  intro s hs
  obtain ⟨s', n, x, hok, hs', hx, hname⟩ := exists_label_eq_ok hs name
  by_cases htwice : s'.names.any (fun n => n.name = name && n.placed) = true
  · have hafter : after (place name) s = s' := by
      rw [after, place, run_bind_of_ok hok, run_get_bind, if_pos htwice]
      rfl
    rw [hafter]
    exact hs'
  · have hafter : after (place name) s =
        { draft := { s'.draft with
            listing := s'.draft.listing.mark s'.draft.size ⟨s'.draft.id, n⟩ }
          names := s'.names.map fun n =>
            if n.name = name then { n with placed := true } else n } := by
      rw [after, place, run_bind_of_ok hok, run_get_bind, if_neg htwice, run_modify_bind]
      rfl
    rw [hafter]
    have hnotplaced : x.placed = false := by
      rw [Array.any_eq_true'] at htwice
      rw [← Bool.not_eq_true]
      exact fun h => htwice ⟨x, Array.mem_of_getElem? hx, by simp [hname, h]⟩
    have hn : n < s'.names.size := (Array.getElem?_eq_some_iff.1 hx).1
    have hissued : s'.draft.listing.Issued s'.draft.id ⟨s'.draft.id, n⟩ := ⟨rfl, hs'.names ▸ hn⟩
    have hnew : (⟨s'.draft.id, n⟩ : Label) ∉ s'.draft.listing.labels := by
      intro hmem
      have hplaced := (hs'.placed n x hx).2 hmem
      simp [hnotplaced] at hplaced
    have hsize : s'.draft.size ≤ s'.draft.listing.size := Nat.le_refl _
    refine ⟨hs'.listing.mark hsize hissued hnew, ?_, ?_, ?_, ?_, ?_⟩
    · simpa using hs'.names
    · intro m m' y y' hy hy' hyy'
      rw [Array.getElem?_map] at hy hy'
      obtain ⟨z, hz, rfl⟩ := Option.map_eq_some_iff.1 hy
      obtain ⟨z', hz', rfl⟩ := Option.map_eq_some_iff.1 hy'
      refine hs'.distinct m m' z z' hz hz' ?_
      have hkeep : ∀ z : NamedLabel,
          (if z.name = name then { z with placed := true } else z).name = z.name := by
        intro z
        split <;> rfl
      rwa [hkeep, hkeep] at hyy'
    · intro m y hy
      rw [Array.getElem?_map] at hy
      obtain ⟨z, hz, rfl⟩ := Option.map_eq_some_iff.1 hy
      rw [(Listing.labels_mark_perm hsize _).mem_iff, List.mem_cons]
      by_cases hsame : z.name = name
      · obtain rfl := hs'.distinct m n z x hz hx (hsame.trans hname.symm)
        simp [hsame]
      · have hne : m ≠ n := by
          rintro rfl
          obtain rfl := Option.some.inj (hz.symm.trans hx)
          exact hsame hname
        rw [if_neg hsame, hs'.placed m z hz]
        simp [hne]
    · intro entry hentry label hlabel
      rw [Listing.Issued, Listing.issued_mark]
      exact hs'.tries entry hentry label hlabel
    · intro hclean
      rw [Listing.instructions_mark]
      exact hs'.clean hclean

/-! ### Edits -/

theorem after_edit (action : DraftM α) (s : Assembler) :
    after (edit action) s = ⟨Draft.after action s.draft, s.names⟩ := by
  simp only [after, edit, Draft.after]
  cases action s.draft <;> rfl

/-- An edit that issues and places no label keeps the names as they are. -/
theorem Sound.edit (hs : s.Sound) {d : Draft} (hid : d.id = s.draft.id)
    (hlisting : d.listing.Coherent d.id) (hlabels : d.listing.labels = s.draft.listing.labels)
    (hissued : d.listing.issued = s.draft.listing.issued) (htries : d.tries = s.draft.tries)
    (hclean : d.needsRelaxation = false → d.listing.instructions = [] ∧ d.owners? = some []) :
    Sound ⟨d, s.names⟩ where
  listing := hlisting
  names := hs.names.trans hissued.symm
  distinct := hs.distinct
  placed n x hx := by
    rw [hs.placed n x hx, hlabels, hid]
  tries entry hentry label hlabel := by
    rw [Listing.Issued, hid, hissued]
    rw [htries] at hentry
    exact hs.tries entry hentry label hlabel
  clean := hclean

theorem keeps_add (i : Instruction Label) : Keeps (add i) := by
  intro s hs
  rw [add, after_edit]
  rcases Draft.after_append i s.draft with hsame | ⟨hvalid, htargets, hafter⟩
  · rw [hsame]
    exact hs
  · rw [hafter]
    refine hs.edit rfl (hs.listing.insertAt (Nat.le_refl _) hvalid htargets)
      (Listing.labels_insertAt _ _ _) (Listing.issued_insertAt _ _ _) rfl fun hclean => ?_
    simp [Draft.withListing, Draft.needsRelaxation] at hclean

theorem keeps_addTry (entry : TryEntry Label) : Keeps (edit (Draft.addTry entry)) := by
  intro s hs
  rw [after_edit]
  rcases Draft.after_addTry entry s.draft with hsame | ⟨hentry, hafter⟩
  · rw [hsame]
    exact hs
  · rw [hafter]
    refine ⟨hs.listing, hs.names, hs.distinct, hs.placed, ?_, hs.clean⟩
    intro other hother label hlabel
    rw [Array.toList_push, List.mem_append, List.mem_singleton] at hother
    rcases hother with hold | rfl
    · exact hs.tries other hold label hlabel
    · exact hentry label hlabel

theorem keeps_addDebugItem (item : DebugItem) : Keeps (addDebugItem item) := by
  intro s hs
  have hedit : after (addDebugItem item) s =
      ⟨Draft.after (Draft.addDebugItem s.draft.size item) s.draft, s.names⟩ :=
    after_edit (Draft.addDebugItem s.draft.size item) s
  rw [hedit]
  rcases Draft.after_addDebugItem s.draft.size item s.draft with hsame | ⟨hsize, hafter⟩
  · rw [hsame]
    exact hs
  · have hpin := Listing.sameButItems_pin hsize item
    rw [hafter]
    refine hs.edit rfl (hpin.coherent hs.listing) hpin.labels hpin.issued rfl fun hclean => ?_
    rw [hpin.instructions]
    exact hs.clean hclean

theorem keeps_addCatch (type? : Option UInt32) (start stop handler : String) :
    Keeps (addCatch type? start stop handler) :=
  (keeps_label start).bind fun _ => (keeps_label stop).bind fun _ =>
    (keeps_label handler).bind fun _ => keeps_addTry _

/-! ### Assembling step by step -/

/-- What can be done while a method is assembled. -/
inductive Action where
  | label (name : String)
  | place (name : String)
  | add (i : Instruction Label)
  | addCatch (type? : Option UInt32) (start stop handler : String)
  | addDebugItem (item : DebugItem)
  | addLine (line : UInt32)

/-- The assembler in which an action ends, whether it succeeds or fails. -/
def Action.next (s : Assembler) : Action → Assembler
  | label name => after (Assembler.label name) s
  | place name => after (Assembler.place name) s
  | add i => after (Assembler.add i) s
  | addCatch type? start stop handler => after (Assembler.addCatch type? start stop handler) s
  | addDebugItem item => after (Assembler.addDebugItem item) s
  | addLine line => after (Assembler.addLine line) s

/-- The states in which a method can be while it is assembled. -/
inductive Reachable : Assembler → Prop
  /-- Nothing has been assembled yet. -/
  | new (id : Nat) (registers : UInt16) : Reachable (.new id registers)
  /-- Something has been added, or tried to be. -/
  | next {s : Assembler} (h : Reachable s) (action : Action) : Reachable (action.next s)

/-- Whatever has been assembled makes sense. -/
theorem Reachable.sound (h : s.Reachable) : s.Sound := by
  induction h with
  | new id registers => exact sound_new id registers
  | @next s _ action ih =>
    cases action with
    | label name => exact keeps_label name s ih
    | place name => exact keeps_place name s ih
    | add i => exact keeps_add i s ih
    | addCatch type? start stop handler => exact keeps_addCatch type? start stop handler s ih
    | addDebugItem item => exact keeps_addDebugItem item s ih
    | addLine line => exact keeps_addDebugItem (.line line) s ih

/-- When a method is finished, all names have been placed. -/
theorem placed_of_build {d : Draft} (hok : s.build = .ok d) :
    s.draft = d ∧ ∀ x ∈ s.names.toList, x.placed = true := by
  unfold build at hok
  split at hok
  · next hunplaced =>
    refine ⟨Except.ok.inj hok, fun x hx => ?_⟩
    by_contra hplaced
    have hmem : x.name ∈ s.unplaced := by
      rw [unplaced, List.mem_mergeSort]
      refine List.mem_map_of_mem (List.mem_filter.2 ⟨hx, ?_⟩)
      simpa using hplaced
    rw [hunplaced] at hmem
    exact List.not_mem_nil hmem
  · simp at hok

/-- A finished draft is sound. -/
theorem Sound.build (hs : s.Sound) {d : Draft} (hok : s.build = .ok d) : d.Sound := by
  obtain ⟨rfl, hplaced⟩ := placed_of_build hok
  refine ⟨⟨hs.listing, fun label hlabel => ?_⟩, hs.tries, fun hclean => ?_⟩
  · obtain ⟨draft, number⟩ := label
    obtain ⟨rfl, hnumber⟩ := hlabel
    have hn : number < s.names.size := hs.names.symm ▸ hnumber
    exact (hs.placed number _ (Array.getElem?_eq_getElem hn)).1
      (hplaced _ (Array.getElem_mem_toList hn))
  · obtain ⟨hempty, howners⟩ := hs.clean hclean
    exact Draft.legal_of_instructions_eq_nil hempty howners

end Assembler

end Dalvik
