import Dalvik.Layout.Cursor
import Dalvik.Method
import Dalvik.Proofs.Layout

/-!
# What an offset is

If all elements of a layout have some width, an offset is either where an element starts, or
strictly within one element, or at or past the end (`Layout.Fits`), and looking it up tells which
(`Layout.partitioned_ofList`).

The lookup searches for the offset among those of the elements.  Nothing more is asked of the search
than that it either comes upon the offset, or tells where it would have to be inserted
(`Layout.Finds`); in this case the element in front of that place is the one around the offset.  The
functions in `Layout.Strict` get stuck, with `none`, if there is no place in front, and if the
offsets grow out of 64 bits.
-/

namespace Dalvik

namespace Layout

variable {α : Type} [HasWidth α] {elems : List α} {offset : Nat} {hit : Hit α}

/-! ### Searching -/

/-- What a search for an offset may answer. -/
inductive Finds (l : Layout α) (offset : Nat) : Except Nat Nat → Prop where
  /-- It has come upon an element with this offset. -/
  | found {k : Nat} {elem : α} (h : l.get? k = some (offset, elem)) : Finds l offset (.ok k)
  /-- The offset belongs behind all lower ones and in front of all higher ones. -/
  | missing {n : Nat} (hn : n ≤ l.size)
      (hbefore : ∀ k < n, ∀ entry, l.get? k = some entry → entry.1 < offset)
      (hbehind : ∀ k ≥ n, ∀ entry, l.get? k = some entry → offset < entry.1) :
      Finds l offset (.error n)

omit [HasWidth α] in
/-- Bisection answers with the last element that starts by the offset, or with the place behind. -/
def search (l : Layout α) (offset : Nat) : Except Nat Nat :=
  match bisect (l.startsBy offset) 0 l.size with
  | 0 => .error 0
  | index + 1 => if l.offset index = offset then .ok index else .error (index + 1)

theorem get?_ofList (elems : List α) (k : Nat) :
    (ofList elems).get? k = elems[k]?.map fun elem => (start elems k, elem) :=
  getElem?_entries elems k

theorem offset_ofList_of_lt {k : Nat} (hk : k < elems.length) :
    (ofList elems).offset k = start elems k := by
  rw [Layout.offset, getElem?_entries, List.getElem?_eq_getElem hk]
  rfl

/-- Up to some position all elements start by an offset, and from there on none does. -/
theorem exists_turn (elems : List α) (offset : Nat) : ∃ n ≤ elems.length,
    (∀ k < n, start elems k ≤ offset) ∧ (n < elems.length → offset < start elems n) := by
  rcases Nat.lt_or_ge offset (start elems elems.length) with hlt | hge
  · obtain ⟨k, elem, hcontains⟩ := exists_contains hlt
    exact ⟨k + 1, (List.getElem?_eq_some_iff.1 hcontains.elem).1,
      fun j hj => Nat.le_trans (start_mono elems (Nat.le_of_lt_succ hj)) hcontains.start_le,
      fun _ => hcontains.lt_start_succ⟩
  · exact ⟨elems.length, Nat.le_refl _,
      fun k hk => Nat.le_trans (start_mono elems (Nat.le_of_lt hk)) hge,
      fun hlt => absurd hlt (Nat.lt_irrefl _)⟩

/-- Bisection is a search. -/
theorem finds_search (elems : List α) (offset : Nat) :
    Finds (ofList elems) offset ((ofList elems).search offset) := by
  obtain ⟨n, hn, hbefore, hbehind⟩ := exists_turn elems offset
  have habove : ∀ k ≥ n, ∀ entry, (ofList elems).get? k = some entry → offset < entry.1 := by
    intro k hk entry hentry
    rw [get?_ofList, Option.map_eq_some_iff] at hentry
    obtain ⟨elem, helem, rfl⟩ := hentry
    have hlt := (List.getElem?_eq_some_iff.1 helem).1
    exact Nat.lt_of_lt_of_le (hbehind (Nat.lt_of_le_of_lt hk hlt)) (start_mono elems hk)
  rw [search, bisect_startsBy hn hbefore hbehind]
  cases n with
  | zero => exact .missing (Nat.zero_le _) (fun k hk => absurd hk (Nat.not_lt_zero k)) habove
  | succ last =>
    dsimp only
    rw [offset_ofList_of_lt hn]
    split
    · next heq =>
      have hlast : (ofList elems).get? last = some (offset, elems[last]) := by
        rw [get?_ofList, List.getElem?_eq_getElem hn, Option.map_some, heq]
      exact .found hlast
    · next hne =>
      have hlast : start elems last < offset :=
        Nat.lt_of_le_of_ne (hbefore last (Nat.lt_succ_self last)) hne
      refine .missing (by rwa [size_ofList]) (fun k hk entry hentry => ?_) habove
      rw [get?_ofList, Option.map_eq_some_iff] at hentry
      obtain ⟨elem, -, rfl⟩ := hentry
      exact Nat.lt_of_le_of_lt (start_mono elems (Nat.le_of_lt_succ hk)) hlast

/-! ### Getting stuck -/

namespace Strict

/-- Places an element behind all others. -/
def push (l : Layout α) (elem : α) : Option (Layout α) :=
  if l.width + HasWidth.width elem < 2 ^ 64 then some (l.push elem) else none

/-- Places the elements of a list one behind the other. -/
def ofList (elems : List α) : Option (Layout α) := elems.foldlM push empty

omit [HasWidth α] in
/-- The place in front of another one. -/
def before : Nat → Option Nat
  | 0 => none
  | index + 1 => some index

omit [HasWidth α] in
/-- What is found at an offset for which a search has given an answer. -/
def locate (l : Layout α) (offset : Nat) : (answer : Except Nat Nat) → Option (Hit α)
  | .ok index => (l.get? index).map fun (_, elem) => .start index elem
  | .error insertAt =>
    if l.width ≤ offset then some .past else (before insertAt).map .inside

end Strict

theorem foldlM_strict_push (l : Layout α) (elems : List α) (h : l.width < 2 ^ 64) :
    elems.foldlM Strict.push l =
      if l.width + start elems elems.length < 2 ^ 64 then some (elems.foldl push l) else none := by
  induction elems generalizing l with
  | nil => exact (if_pos h).symm
  | cons elem rest ih =>
    rw [List.foldlM_cons, List.foldl_cons, List.length_cons, start_cons_succ, Strict.push,
      ← Nat.add_assoc]
    split
    · next hfits =>
      rw [Option.bind_eq_bind, Option.bind_some, ih (l.push elem) hfits, width_push]
    · next hfits =>
      exact (if_neg fun hlt => hfits (Nat.lt_of_le_of_lt (Nat.le_add_right _ _) hlt)).symm

/-- Pushing gets stuck only if the elements take up more room than 64 bits count. -/
theorem strict_ofList (elems : List α) : Strict.ofList elems =
    if start elems elems.length < 2 ^ 64 then some (ofList elems) else none := by
  rw [Strict.ofList, foldlM_strict_push empty elems (Nat.two_pow_pos 64), ofList]
  simp [empty]

/-! ### Looking up -/

/-- What an offset is among elements that are one behind the other. -/
inductive Fits (elems : List α) (offset : Nat) : Hit α → Prop where
  /-- It is the room that the elements in front of one take up. -/
  | start {k : Nat} {elem : α} (helem : elems[k]? = some elem)
      (hstart : offset = Layout.start elems k) : Fits elems offset (.start k elem)
  /-- It is strictly between the offset of an element and its end. -/
  | inside {k : Nat} {elem : α} (helem : elems[k]? = some elem)
      (hlt : Layout.start elems k < offset)
      (hlt' : offset < Layout.start elems k + HasWidth.width elem) : Fits elems offset (.inside k)
  /-- It is at or past the end of all elements. -/
  | past (hle : Layout.start elems elems.length ≤ offset) : Fits elems offset .past

section

variable (hpos : ∀ elem ∈ elems, 0 < HasWidth.width elem)

include hpos

theorem locate_eq_iff_fits : (ofList elems).locate offset = hit ↔ Fits elems offset hit := by
  cases hit with
  | start k elem =>
    rw [locate_eq_start_iff hpos]
    exact ⟨fun ⟨helem, hstart⟩ => .start helem hstart.symm,
      fun | .start helem hstart => ⟨helem, hstart.symm⟩⟩
  | inside k =>
    rw [locate_eq_inside_iff hpos]
    constructor
    · rintro ⟨hk, hlt, hlt'⟩
      have helem := List.getElem?_eq_getElem hk
      rw [start_succ helem] at hlt'
      exact .inside helem hlt hlt'
    · intro h
      cases h with
      | inside helem hlt hlt' =>
        rw [start_succ helem]
        exact ⟨(List.getElem?_eq_some_iff.1 helem).1, hlt, hlt'⟩
  | past =>
    rw [locate_eq_past_iff hpos]
    exact ⟨.past, fun | .past hle => hle⟩

/-- Whatever a search answers, looking up an offset does not get stuck. -/
theorem strict_locate {answer : Except Nat Nat} (h : Finds (ofList elems) offset answer) :
    Strict.locate (ofList elems) offset answer = some ((ofList elems).locate offset) := by
  cases h with
  | found h =>
    rw [Strict.locate, h, Option.map_some, Option.some_inj, eq_comm, locate_eq_start_iff hpos]
    rw [get?_ofList, Option.map_eq_some_iff] at h
    obtain ⟨_, helem, heq⟩ := h
    cases heq
    exact ⟨helem, rfl⟩
  | missing hn hbefore hbehind =>
    rename_i n
    rw [Strict.locate, width_ofList]
    split
    · next hle => rw [Option.some_inj, eq_comm, locate_eq_past_iff hpos]; exact hle
    · next hlt =>
      rw [size_ofList] at hn
      cases n with
      | zero =>
        -- the first element starts at 0, which is not greater than any offset
        obtain ⟨k, elem, hcontains⟩ := exists_contains (Nat.lt_of_not_le hlt)
        have habove := hbehind k (Nat.zero_le k) (start elems k, elem) (by
          rw [get?_ofList, hcontains.elem, Option.map_some])
        exact absurd hcontains.start_le (Nat.not_le.2 habove)
      | succ k =>
        have hbelow := hbefore k (Nat.lt_succ_self k) (start elems k, elems[k]) (by
          rw [get?_ofList, List.getElem?_eq_getElem hn, Option.map_some])
        have habove : offset < start elems (k + 1) := by
          rcases Nat.lt_or_ge (k + 1) elems.length with hk | hk
          · exact hbehind (k + 1) (Nat.le_refl _) (start elems (k + 1), elems[k + 1]) (by
              rw [get?_ofList, List.getElem?_eq_getElem hk, Option.map_some])
          · rw [start_of_length_le hk]
            exact Nat.lt_of_not_le hlt
        rw [Strict.before, Option.map_some, Option.some_inj, eq_comm, locate_eq_inside_iff hpos]
        exact ⟨hn, hbelow, habove⟩

end

/-! ### Layouts that were built by pushing -/

/-- The elements of a list are one behind the other in a layout, and every offset is told apart. -/
structure Partitioned (elems : List α) (l : Layout α) : Prop where
  /-- The offset of an entry is the sum of the widths in front of it. -/
  get?_eq : ∀ k, l.get? k =
    elems[k]?.map fun elem => (((elems.take k).map HasWidth.width).sum, elem)
  /-- The next element goes behind all of them. -/
  width_eq : l.width = (elems.map HasWidth.width).sum
  /-- Machine words can count the room, or else pushing has got stuck. -/
  pushed : Strict.ofList elems = if l.width < 2 ^ 64 then some l else none
  /-- An offset is one thing only. -/
  unique : ∀ offset, ∃! hit, Fits elems offset hit
  /-- This is what looking it up reports. -/
  locate_eq_iff : ∀ offset hit, l.locate offset = hit ↔ Fits elems offset hit
  /-- There is always something to be reported. -/
  strict_locate_eq : ∀ offset, (∃ answer, Finds l offset answer) ∧
    ∀ answer, Finds l offset answer → Strict.locate l offset answer = some (l.locate offset)
  /-- The elements in order. -/
  forward : l.cursor.collect .front =
    elems.zipIdx.map fun (elem, k) => (((elems.take k).map HasWidth.width).sum, k, elem)
  /-- Backwards come the same elements. -/
  backward : l.cursor.collect .back = (l.cursor.collect .front).reverse

/-- Layouts that are built by pushing elements that have some width, one after the other. -/
theorem partitioned_ofList (elems : List α) (hpos : ∀ elem ∈ elems, 0 < HasWidth.width elem) :
    Partitioned elems (elems.foldl push empty) where
  get?_eq := get?_ofList elems
  width_eq := by
    have h := width_ofList elems
    rwa [start, List.take_length] at h
  pushed := by
    rw [strict_ofList, ← width_ofList]
    rfl
  unique offset := ⟨_, (locate_eq_iff_fits hpos).1 rfl,
    fun _ hhit => ((locate_eq_iff_fits hpos).2 hhit).symm⟩
  locate_eq_iff _ _ := locate_eq_iff_fits hpos
  strict_locate_eq offset := ⟨⟨_, finds_search elems offset⟩, fun _ => strict_locate hpos⟩
  forward := by
    rw [Cursor.collect_front, left_cursor, toList, ← ofList, (toList_entries elems).1]
    refine List.ext_getElem? fun k => ?_
    cases h : elems[k]? <;> simp [h, start]
  backward := by rw [Cursor.collect_back, Cursor.collect_front]

/-- Elements that are one, three and two units wide. -/
theorem partitioned_ofList_goto :
    let code : List (Instruction Int32) := [.nop, .goto .long 0, .op .const16 (.f21s 0 7)]
    let l := code.foldl push empty
    (∀ i ∈ code, 0 < HasWidth.width i) ∧ Partitioned code l ∧ l.width = 6 ∧
      l.locate 4 = .start 2 (.op .const16 (.f21s 0 7)) ∧ l.locate 5 = .inside 2 ∧
      l.locate 6 = .past := by
  intro code l
  have hpos : ∀ i ∈ code, 0 < HasWidth.width i := fun i _ => i.units_pos
  have h : Partitioned code l := partitioned_ofList code hpos
  refine ⟨hpos, h, h.width_eq, ?_, ?_, ?_⟩
  · exact (h.locate_eq_iff 4 _).2 (.start rfl rfl)
  · exact (h.locate_eq_iff 5 _).2 (.inside rfl (by decide) (by decide))
  · exact (h.locate_eq_iff 6 _).2 (.past (by decide))

end Layout

end Dalvik
