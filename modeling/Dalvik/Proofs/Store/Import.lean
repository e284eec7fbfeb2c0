import Dalvik.Proofs.Store.Simulation
import Dalvik.Proofs.Draft.Import
import Dalvik.Store.OfOutline

/-!
# Stores that spell out an outline

A store of a finished method starts with cells that have nothing in them.  Labels are placed before
the instructions are filled in, and only then are the cells laid out.  Since where labels stand does
not depend on the instructions, what is carried along meanwhile is a listing of plain `nop`s with
the same points.  In the end the store refines the draft that spells out the outline
(`Store.refines_ofOutline`).
-/

namespace Dalvik

namespace Listing

variable {l l' : Listing} {draft k : Nat}

/-- Past the end there is nothing but the end. -/
theorem modifyPoint_min (l : Listing) (k : Nat) (f : Point → Point) :
    l.modifyPoint k f = l.modifyPoint (min k l.size) f := by
  rw [modifyPoint, modifyPoint, size]
  by_cases hk : k < l.slots.size
  · rw [Nat.min_eq_left (Nat.le_of_lt hk)]
  · rw [Nat.min_eq_right (Nat.le_of_not_lt hk), if_neg hk, if_neg (Nat.lt_irrefl _)]

theorem points_modifyPoint_congr (h : l'.points = l.points) (k : Nat) (f : Point → Point) :
    (l'.modifyPoint k f).points = (l.modifyPoint k f).points := by
  have hsize : l'.size = l.size := by
    have hlength := congrArg List.length h
    rw [length_points, length_points] at hlength
    exact Nat.succ.inj hlength
  rw [modifyPoint_min l', modifyPoint_min l, points_modifyPoint l' (Nat.min_le_right _ _),
    points_modifyPoint l (Nat.min_le_right _ _), h, hsize]

theorem points_markAll_congr (h : l'.points = l.points) (draft : Nat) (places : List (Nat × Nat)) :
    (l'.markAll draft places).points = (l.markAll draft places).points := by
  induction places generalizing l l' with
  | nil => exact h
  | cons p rest ih => exact ih (points_modifyPoint_congr h p.1 _)

theorem points_pinAll_congr (h : l'.points = l.points) (items : List (Nat × DebugItem)) :
    (l'.pinAll items).points = (l.pinAll items).points := by
  induction items generalizing l l' with
  | nil => exact h
  | cons m rest ih => exact ih (points_modifyPoint_congr h m.1 _)

@[simp] theorem issued_markAll (l : Listing) (draft : Nat) (places : List (Nat × Nat)) :
    (l.markAll draft places).issued = l.issued := by
  induction places generalizing l with
  | nil => rfl
  | cons p rest ih => exact (ih _).trans (issued_mark l p.1 _)

@[simp] theorem issued_pinAll (l : Listing) (items : List (Nat × DebugItem)) :
    (l.pinAll items).issued = l.issued := by
  induction items generalizing l with
  | nil => rfl
  | cons m rest ih => exact (ih _).trans (issued_modifyPoint l m.1 _)

/-- Issues labels for some places in order. -/
def issueAll (l : Listing) (draft : Nat) (places : List Nat) : Listing :=
  { l with issued := l.issued + places.length }.markAll draft (places.zipIdx l.issued)

/-- Labels can be placed before others are issued. -/
theorem mark_withIssued (l : Listing) (n k : Nat) (label : Label) :
    { l with issued := n }.mark k label = { l.mark k label with issued := n } := by
  rw [mark, mark, modifyPoint, modifyPoint]
  dsimp only
  split <;> rfl

theorem issueAll_cons (l : Listing) (draft k : Nat) (rest : List Nat) :
    l.issueAll draft (k :: rest) =
      (l.issue.mark k (l.nextLabel draft)).issueAll draft rest := by
  have hmark : l.issue.mark k (l.nextLabel draft) =
      { l.mark k (l.nextLabel draft) with issued := l.issued + 1 } := mark_withIssued _ _ _ _
  rw [issueAll, List.zipIdx_cons, markAll_cons, mark_withIssued, issueAll, hmark, List.length_cons,
    Nat.add_right_comm, Nat.add_assoc]
  rfl

theorem issueAll_append (l : Listing) (draft : Nat) (places rest : List Nat) :
    l.issueAll draft (places ++ rest) = (l.issueAll draft places).issueAll draft rest := by
  induction places generalizing l with
  | nil => rfl
  | cons k places ih => rw [List.cons_append, issueAll_cons, ih, issueAll_cons]

/-- A listing of plain `nop`s. -/
def nops (count : Nat) : Listing := { slots := Array.replicate count ⟨.nop, ∅⟩ }

@[simp] theorem size_nops (count : Nat) : (nops count).size = count := by simp [nops, size]

theorem points_nops (count : Nat) : (nops count).points = List.replicate (count + 1) ∅ := by
  rw [List.replicate_succ', points]
  simp [nops]

theorem coherent_nops (count draft : Nat) : (nops count).Coherent draft := by
  have hcode : (nops count).instructions = List.replicate count .nop := by simp [nops, instructions]
  have hlabels : (nops count).labels = [] := by
    rw [labels, marks, points_nops, attachments_replicate rfl, List.map_nil]
  refine ⟨fun i hi => ?_, fun i hi label hlabel => ?_, fun label hlabel => ?_, ?_⟩
  · rw [hcode] at hi
    rw [List.eq_of_mem_replicate hi]
    exact Instruction.valid_nop
  · rw [hcode] at hi
    rw [List.eq_of_mem_replicate hi] at hlabel
    exact absurd hlabel List.not_mem_nil
  · rw [hlabels] at hlabel
    exact absurd hlabel List.not_mem_nil
  · rw [hlabels]
    exact List.nodup_nil

end Listing

namespace Store

variable {s s' : Store} {l l' : Listing} {o : Outline} {code : List (Instruction Label)}

/-! ### Cells with nothing in them -/

theorem exact_empty (id : Nat) (registers : UInt16) (dirty : Bool) :
    Exact { id, registers, dirty } := by
  refine ⟨List.nodup_nil, fun h => ?_⟩
  constructor
  · intro hlive
    simp [Arena.Live, Arena.get?, EmptyCollection.emptyCollection] at hlive
  · intro hmem
    exact absurd hmem List.not_mem_nil

/-- Blank cells are added behind the others. -/
theorem Exact.foldl_addBlank (ks : List Nat) (hs : s.Exact) :
    ∃ arena order, ks.foldl addBlank s = { s with arena := arena, order := order } ∧
      (ks.foldl addBlank s).Exact ∧
      (ks.foldl addBlank s).cells = s.cells ++ ks.map (⟨·, 0, none, ∅⟩) := by
  induction ks generalizing s with
  | nil => exact ⟨_, _, rfl, hs, (List.append_nil _).symm⟩
  | cons k ks ih =>
    obtain ⟨hexact, hcells⟩ := hs.alloc_push ⟨k, 0, none, ∅⟩
    obtain ⟨arena, order, hstore, hexact', hcells'⟩ := ih hexact
    refine ⟨arena, order, hstore, hexact', hcells'.trans ?_⟩
    rw [hcells, List.append_assoc, List.map_cons, List.singleton_append]

/-- A blank store carries a listing with nothing attached. -/
theorem blank_spec (id : Nat) (registers : UInt16) (count : Nat) :
    ∃ arena order, blank id registers count =
        { id, registers, arena, order, dirty := 0 < count } ∧
      (blank id registers count).Carries (.nops count) ∧
      (blank id registers count).cells.map (·.instruction?) = List.replicate (count + 1) none := by
  obtain ⟨arena, order, hstore, hexact, hcells⟩ :=
    (exact_empty id registers (0 < count)).foldl_addBlank (List.range (count + 1))
  have hblank : (blank id registers count).cells =
      (List.range (count + 1)).map (⟨·, 0, none, ∅⟩) := hcells
  refine ⟨arena, order, hstore, ⟨hexact, ?_, ?_, fun n hn => absurd hn (Nat.not_lt_zero n)⟩, ?_⟩
  · rw [hblank, Listing.points_nops, List.map_map, List.eq_replicate_iff]
    simp
  · have hplaces : (blank id registers count).places = #[] := by
      rw [blank, hstore]
    rw [hplaces]
    rfl
  · rw [hblank, List.map_map, List.eq_replicate_iff]
    simp

/-- A new store refines a new draft. -/
theorem refines_new (id : Nat) (registers : UInt16) :
    (new id registers).Refines (Draft.new id registers) := by
  obtain ⟨-, -, -, hcarries, -⟩ := blank_spec id registers 0
  exact
    { id := rfl
      registers := rfl
      tries := rfl
      dirty := rfl
      tracks := { hcarries with instructions := rfl, laid := rfl }
      coherent := Listing.coherent_nops 0 id
      live := fun r hr => absurd hr List.not_mem_nil
      owners := fun owners howners => by
        obtain rfl := Option.some.inj howners
        exact .nil }

/-! ### Labels and items -/

/-- Issuing labels for some places. -/
theorem Carries.issueLabelsAt {places : List Nat} (h : s.Carries l) (hl : l.Coherent s.id)
    (hplaces : ∀ k ∈ places, k ≤ l.size) :
    ∃ arena table,
      s.issueLabelsAt places = { s with arena := arena, places := table } ∧
        (s.issueLabelsAt places).SameCode s ∧
        (s.issueLabelsAt places).Carries (l.issueAll s.id places) ∧
        (l.issueAll s.id places).Coherent s.id := by
  induction places generalizing s l with
  | nil => exact ⟨_, _, rfl, .refl s, h, hl⟩
  | cons k rest ih =>
    have hk := hplaces k List.mem_cons_self
    obtain ⟨hlabel, hcarries⟩ := h.issueLabelAt hl hk
    have hcoherent : (l.issue.mark k (l.nextLabel s.id)).Coherent s.id :=
      hl.issue.mark hk (l.issued_nextLabel s.id) hl.nextLabel_notMem
    obtain ⟨arena, table, hstore⟩ := s.issueLabelAt_eq k
    have hid : (s.issueLabelAt k).2.id = s.id := by rw [hstore]
    have hsize : (l.issue.mark k (l.nextLabel s.id)).size = l.size := Listing.size_mark _ _ _
    obtain ⟨arena', table', hstore', hsame', hcarries', hcoherent'⟩ := ih hcarries
      (hid ▸ hcoherent) fun j hj => hsize ▸ hplaces j (List.mem_cons_of_mem k hj)
    rw [hid, ← Listing.issueAll_cons] at hcarries' hcoherent'
    refine ⟨arena', table', ?_, hsame'.trans (h.exact.sameCode_issueLabelAt k), hcarries',
      hcoherent'⟩
    have hstep : s.issueLabelsAt (k :: rest) = (s.issueLabelAt k).2.issueLabelsAt rest := rfl
    rw [hstep, hstore', hstore]

/-- Pinning debug items. -/
theorem Carries.pinItems {items : List (Nat × DebugItem)} (h : s.Carries l) (hl : l.Coherent s.id)
    (hitems : ∀ m ∈ items, m.1 ≤ l.size) :
    ∃ arena,
      items.foldl (fun s (index, item) => s.pinItem index item) s = { s with arena := arena } ∧
      (items.foldl (fun s (index, item) => s.pinItem index item) s).SameCode s ∧
      (items.foldl (fun s (index, item) => s.pinItem index item) s).Carries (l.pinAll items) := by
  induction items generalizing s l with
  | nil => exact ⟨_, rfl, .refl s, h⟩
  | cons m rest ih =>
    obtain ⟨k, item⟩ := m
    have hk := hitems (k, item) List.mem_cons_self
    have hpin := Listing.sameButItems_pin hk item
    have hcarries : (s.pinItem k item).Carries (l.pin k item) := h.modifyItems hl hk fun _ => rfl
    obtain ⟨arena, hstore⟩ := Exact.modifyCell_eq s k (·.modifyPoint fun point =>
      { point with items := point.items.push item })
    have hid : (s.pinItem k item).id = s.id := by rw [pinItem, hstore]
    obtain ⟨arena', hstore', hsame', hcarries'⟩ := ih hcarries (hid ▸ hpin.coherent hl)
      fun m hm => hpin.size ▸ hitems m (List.mem_cons_of_mem _ hm)
    refine ⟨arena', ?_, hsame'.trans (h.exact.sameCode_modifyCell k _), hcarries'⟩
    rw [List.foldl_cons, hstore', pinItem, hstore]

/-! ### Instructions -/

/-- Filling in instructions one behind the other fills them in. -/
theorem foldl_set_zipIdx {α : Type} (xs : List α) (front back : List (Option α)) :
    (xs.zipIdx front.length).foldl (fun ys (x, k) => ys.set k (some x))
        (front ++ List.replicate xs.length none ++ back) =
      front ++ xs.map some ++ back := by
  induction xs generalizing front with
  | nil => rfl
  | cons x rest ih =>
    have hset : (front ++ List.replicate (rest.length + 1) none ++ back).set front.length (some x) =
        (front ++ [some x]) ++ List.replicate rest.length none ++ back := by
      rw [List.replicate_succ, List.append_assoc, List.set_append_right _ _ (Nat.le_refl _),
        Nat.sub_self]
      simp
    have hrest := ih (front ++ [some x])
    rw [← hset, List.length_append, List.length_singleton] at hrest
    rw [List.zipIdx_cons, List.foldl_cons, List.length_cons, List.map_cons]
    exact hrest.trans (by simp)

/-- Filling in instructions changes nothing but the instructions. -/
theorem Exact.foldl_withInstruction (entries : List (Instruction Label × Nat)) (hs : s.Exact) :
    ∃ arena, entries.foldl (fun s (i, k) => s.modifyCell k (·.withInstruction (some i))) s =
        { s with arena := arena } ∧
      (entries.foldl (fun s (i, k) => s.modifyCell k (·.withInstruction (some i))) s).Exact ∧
      (entries.foldl (fun s (i, k) => s.modifyCell k (·.withInstruction (some i))) s).cells.map
          (·.point) = s.cells.map (·.point) ∧
      (entries.foldl (fun s (i, k) => s.modifyCell k (·.withInstruction (some i))) s).cells.map
          (·.instruction?) = entries.foldl (fun ys (i, k) => ys.set k (some i))
            (s.cells.map (·.instruction?)) := by
  induction entries generalizing s with
  | nil => exact ⟨_, rfl, hs, rfl, rfl⟩
  | cons entry rest ih =>
    obtain ⟨i, k⟩ := entry
    obtain ⟨arena, hstore⟩ := modifyCell_eq s k (·.withInstruction (some i))
    obtain ⟨arena', hstore', hexact, hpoints, hcode⟩ :=
      ih (hs.modifyCell k (·.withInstruction (some i)))
    rw [hs.cells_modifyCell, Cell.map_point_withInstruction] at hpoints
    rw [hs.cells_modifyCell, Cell.map_instruction?_withInstruction] at hcode
    refine ⟨arena', ?_, hexact, hpoints, hcode⟩
    rw [List.foldl_cons, hstore', hstore]

/-- Cells that are laid out and hold some code, and that carry a listing. -/
structure Holds (s : Store) (code : List (Instruction Label)) (l : Listing) : Prop where
  /-- What is attached is as in the listing. -/
  carries : s.Carries l
  /-- The listing makes sense. -/
  coherent : l.Coherent s.id
  /-- The cells hold the code, and the end holds nothing. -/
  code : s.cells.map (·.instruction?) = code.map some ++ [none]
  /-- The cells are where they belong. -/
  laid : Cell.LaidOut s.cells

/-- Filling in as many instructions as there are positions, and laying out the cells. -/
theorem Carries.fill (h : s.Carries l) (hl : l.Coherent s.id)
    (hcode : s.cells.map (·.instruction?) = List.replicate (code.length + 1) none) :
    ∃ arena, (s.fill code).reindexFrom 0 = { s with arena := arena } ∧
      ((s.fill code).reindexFrom 0).Holds code l := by
  obtain ⟨arena, hstore, hexact, hpoints, hfilled⟩ := h.exact.foldl_withInstruction code.zipIdx
  have hset := foldl_set_zipIdx code [] [none]
  rw [List.nil_append, List.nil_append, ← List.replicate_succ', List.length_nil, ← hcode,
    ← hfilled] at hset
  have hcells : ((s.fill code).reindexFrom 0).cells = Cell.lay 0 0 (s.fill code).cells :=
    hexact.cells_reindexFrom (Nat.zero_le _) rfl
  have hfill : s.fill code = { s with arena := arena } := hstore
  have hframe : ∃ arena, (s.fill code).reindexFrom 0 = { s with arena := arena } :=
    ⟨_, by rw [hfill]; rfl⟩
  obtain ⟨arena', hstore'⟩ := hframe
  refine ⟨arena', hstore', h.of_same (hexact.reindexFrom 0) ?_ ?_ ?_ ?_, ?_, ?_, ?_⟩
  · rw [hcells, Cell.map_lay fun _ _ _ => rfl]
    exact hpoints
  · rw [hstore']
  · rw [hstore']
  · rw [hstore']
  · rw [hstore']
    exact hl
  · rw [hcells, Cell.map_lay fun _ _ _ => rfl]
    exact hset
  · rw [hcells]
    exact Cell.laidOut_lay _

namespace Holds

theorem size (h : s.Holds code l) : l.size = code.length := by
  have hlength := congrArg List.length h.code
  rw [List.length_map, length_cells, h.carries.size_order, List.length_append, List.length_map]
    at hlength
  exact Nat.succ.inj hlength

theorem of_sameCode (h : s.Holds code l) (hsame : s'.SameCode s) (hcarries : s'.Carries l')
    (hcoherent : l'.Coherent s'.id) : s'.Holds code l' :=
  ⟨hcarries, hcoherent, hsame.instructions.trans h.code, hsame.laid h.laid⟩

theorem withTries (h : s.Holds code l) (tries : Array (TryEntry Label)) :
    Holds { s with tries := tries } code l :=
  h.of_sameCode (.of_cells_eq rfl)
    (h.carries.of_same (h.carries.exact.congr rfl fun _ => Iff.rfl) rfl rfl rfl rfl) h.coherent

theorem issueLabelsAt (h : s.Holds code l) {places : List Nat}
    (hplaces : ∀ k ∈ places, k ≤ code.length) :
    ∃ arena table, s.issueLabelsAt places = { s with arena := arena, places := table } ∧
      (s.issueLabelsAt places).Holds code (l.issueAll s.id places) := by
  obtain ⟨arena, table, hstore, hsame, hcarries, hcoherent⟩ :=
    h.carries.issueLabelsAt h.coherent fun k hk => h.size.symm ▸ hplaces k hk
  refine ⟨arena, table, hstore, h.of_sameCode hsame hcarries ?_⟩
  rw [hstore]
  exact hcoherent

theorem pinItems (h : s.Holds code l) {items : List (Nat × DebugItem)}
    (hitems : ∀ m ∈ items, m.1 ≤ code.length) :
    ∃ arena,
      items.foldl (fun s (index, item) => s.pinItem index item) s = { s with arena := arena } ∧
      (items.foldl (fun s (index, item) => s.pinItem index item) s).Holds code
        (l.pinAll items) := by
  have hle : ∀ m ∈ items, m.1 ≤ l.size := fun m hm => h.size.symm ▸ hitems m hm
  obtain ⟨arena, hstore, hsame, hcarries⟩ := h.carries.pinItems h.coherent hle
  refine ⟨arena, hstore, h.of_sameCode hsame hcarries ?_⟩
  rw [hstore]
  exact (Listing.sameButItems_pinAll hle).coherent h.coherent

/-- What holds the code of a listing, and carries the same points, tracks it. -/
theorem tracks (h : s.Holds code l) (hcode : l'.instructions = code)
    (hpoints : l'.points = l.points) (hissued : l'.issued = l.issued) : s.Tracks l' where
  toCarries := h.carries.of_points_eq hpoints hissued
  instructions := hcode ▸ h.code
  laid := h.laid

end Holds

/-- In the draft that spells out an outline the same is attached as in plain `nop`s to which it has
been attached one by one. -/
theorem points_ofOutline (id : Nat) (h : o.WellFormed) : (Draft.ofOutline id o).listing.points =
    (((Listing.nops o.instructions.length).issueAll id o.places).pinAll o.debugItems).points := by
  have hlength := Draft.size_ofOutline id h
  rw [← Listing.length_instructions, Draft.instructions_ofOutline id h] at hlength
  refine Listing.points_pinAll_congr (Listing.points_markAll_congr ?_ id _) _
  have hnops : Listing.points { Listing.nops o.instructions.length with
      issued := (Listing.nops o.instructions.length).issued + o.places.length } =
      List.replicate (o.instructions.length + 1) ∅ := Listing.points_nops _
  rw [hnops, List.replicate_succ', Listing.points, ← hlength]
  simp [List.map_const', Function.comp_def]

/-- As many labels are issued for an outline as it mentions places. -/
theorem issued_ofOutline (id : Nat) (o : Outline) : (Draft.ofOutline id o).listing.issued =
    (((Listing.nops o.instructions.length).issueAll id o.places).pinAll o.debugItems).issued := by
  rw [Draft.ofOutline, Listing.issued_pinAll, Listing.issueAll, Listing.issued_markAll]
  exact (Listing.issued_pinAll _ _).trans
    ((Listing.issued_markAll _ _ _).trans (Nat.zero_add _).symm)

/-- The store that spells out an outline holds the code of the draft that does. -/
theorem ofOutline_spec (id : Nat) (h : o.WellFormed) :
    ∃ arena order places, ofOutline id o =
        { id, registers := o.registers, arena, order, places,
          tries := (Draft.ofOutline id o).tries, dirty := 0 < o.instructions.length } ∧
      (ofOutline id o).Holds (Draft.ofOutline id o).listing.instructions
        (((Listing.nops o.instructions.length).issueAll id o.places).pinAll o.debugItems) := by
  have hcode := Draft.instructions_ofOutline id h
  have hlength := Draft.size_ofOutline id h
  rw [← Listing.length_instructions] at hlength
  have hfront : ∀ k ∈ o.branches.flatMap (·.targets) ++ o.payloads.flatMap (·.targets),
      k ≤ (Listing.nops o.instructions.length).size := fun k hk =>
    (Listing.size_nops _).symm ▸ h.places k (List.mem_append_left _ hk)
  have hback : ∀ k ∈ o.tries.flatMap (·.places),
      k ≤ (Draft.ofOutline id o).listing.instructions.length := fun k hk =>
    hlength.symm ▸ h.places k (List.mem_append_right _ hk)
  have hstore : ofOutline id o = o.debugItems.foldl (fun s (index, item) => s.pinItem index item)
      { ((((blank id o.registers o.instructions.length).issueLabelsAt
          (o.branches.flatMap (·.targets) ++ o.payloads.flatMap (·.targets))).fill
          (Draft.ofOutline id o).listing.instructions).reindexFrom 0).issueLabelsAt
            (o.tries.flatMap (·.places)) with
        tries := (Draft.ofOutline id o).tries } := by
    rw [hcode]
    rfl
  -- the cells are added, and the labels in the code placed
  obtain ⟨arena₀, order, hblank, hcarries₀, hempty⟩ :=
    blank_spec id o.registers o.instructions.length
  generalize blank id o.registers o.instructions.length = s₀ at *
  have hid₀ : s₀.id = id := by rw [hblank]
  obtain ⟨arena₁, table₁, hplaced, hsame₁, hcarries₁, hcoherent₁⟩ :=
    hcarries₀.issueLabelsAt (Listing.coherent_nops _ _) hfront
  generalize s₀.issueLabelsAt (o.branches.flatMap (·.targets) ++ o.payloads.flatMap (·.targets)) =
    s₁ at *
  have hid₁ : s₁.id = id := by rw [hplaced, hid₀]
  rw [hid₀] at hcarries₁ hcoherent₁
  -- the instructions are filled in, and the cells laid out
  obtain ⟨arena₂, hfilled, hholds₂⟩ := hcarries₁.fill (hid₁.symm ▸ hcoherent₁)
    (by rw [hsame₁.instructions, hempty, hlength])
  generalize (s₁.fill (Draft.ofOutline id o).listing.instructions).reindexFrom 0 = s₂ at *
  have hid₂ : s₂.id = id := by rw [hfilled, hid₁]
  -- the labels of the handlers are placed, and the debug items pinned
  obtain ⟨arena₃, table₃, hhandled, hholds₃⟩ := hholds₂.issueLabelsAt hback
  obtain ⟨arena₄, hpinned, hholds₄⟩ :=
    (hholds₃.withTries (Draft.ofOutline id o).tries).pinItems fun m hm =>
      hlength.symm ▸ h.items m hm
  rw [hid₂, ← Listing.issueAll_append] at hholds₄
  rw [← hstore] at hpinned hholds₄
  refine ⟨arena₄, order, table₃, ?_, hholds₄⟩
  rw [hpinned, hhandled, hfilled, hplaced, hblank]

/-- The store that spells out an outline refines the draft that does. -/
theorem refines_ofOutline (id : Nat) (h : o.WellFormed) :
    (ofOutline id o).Refines (Draft.ofOutline id o) := by
  obtain ⟨arena, order, places, hstore, hholds⟩ := ofOutline_spec id h
  exact
    { id := by rw [hstore]; rfl
      registers := by rw [hstore]; rfl
      tries := by rw [hstore]
      dirty := by
        have hdirty : (Draft.ofOutline id o).needsRelaxation =
            (if o.instructions.isEmpty then some [] else none : Option Owners).isNone := rfl
        rw [hstore, hdirty]
        cases o.instructions with
        | nil => rfl
        | cons i rest => simp
      tracks := hholds.tracks rfl (points_ofOutline id h) (issued_ofOutline id o)
      coherent := (Draft.sound_ofOutline h).listing.toCoherent
      live := by
        rw [hstore]
        exact fun r hr => absurd hr List.not_mem_nil
      owners := fun owners howners => by
        have hnone : (if o.instructions.isEmpty then some [] else none) = some owners := howners
        split at hnone
        · obtain rfl := Option.some.inj hnone
          rw [hstore]
          exact .nil
        · cases hnone }

end Store

end Dalvik
