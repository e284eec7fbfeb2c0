import Dalvik.Layout
import Mathlib.Algebra.BigOperators.Group.List.Basic
import Mathlib.Algebra.GroupWithZero.Nat
import Mathlib.Data.List.Induction

/-!
# What is where in a layout

The offset of an element is the room taken up by the elements in front of it (`Layout.start`).  If all
elements have some width, then at every offset an element starts, or the offset is strictly within one
element, or the elements end there or before, and looking it up tells which of these is the case
(`Layout.locate_eq_start_iff`, `Layout.locate_eq_inside_iff`, `Layout.locate_eq_past_iff`).
-/

namespace Dalvik

namespace Layout

variable {α : Type} [HasWidth α] {elems : List α} {elem : α} {k k' offset : Nat}

/-! ### The elements in front -/

/-- The room taken up by the elements in front of a position; positions past the last one are at the
end. -/
def start (elems : List α) (k : Nat) : Nat := ((elems.take k).map HasWidth.width).sum

@[simp] theorem start_zero (elems : List α) : start elems 0 = 0 := rfl

@[simp] theorem start_cons_succ (elem : α) (elems : List α) (k : Nat) :
    start (elem :: elems) (k + 1) = HasWidth.width elem + start elems k := by
  simp [start]

/-- An element ends where the next one starts. -/
theorem start_succ (h : elems[k]? = some elem) :
    start elems (k + 1) = start elems k + HasWidth.width elem := by
  simp [start, List.take_add_one, h]

theorem start_of_length_le (h : elems.length ≤ k) : start elems k = start elems elems.length := by
  rw [start, start, List.take_of_length_le h, List.take_length]

/-- Whatever comes behind does not matter. -/
theorem start_append_of_le (rest : List α) (h : k ≤ elems.length) :
    start (elems ++ rest) k = start elems k := by
  rw [start, start, List.take_append_of_le_length h]

theorem start_mono (elems : List α) (h : k ≤ k') : start elems k ≤ start elems k' := by
  obtain ⟨n, rfl⟩ := Nat.exists_eq_add_of_le h
  simp [start, List.take_add]

/-! ### The elements of a layout -/

theorem ofList_concat (elems : List α) (elem : α) :
    ofList (elems ++ [elem]) = (ofList elems).push elem := by
  simp [ofList]

/-- A layout holds the elements with the room in front of them, and its width is that of all. -/
theorem toList_entries (elems : List α) :
    (ofList elems).entries.toList = elems.zipIdx.map (fun p => (start elems p.2, p.1)) ∧
      (ofList elems).width = start elems elems.length := by
  induction elems using List.reverseRecOn with
  | nil => exact ⟨rfl, rfl⟩
  | append_singleton elems elem ih =>
    obtain ⟨hentries, hwidth⟩ := ih
    have hlast : (elems ++ [elem])[elems.length]? = some elem := by simp
    have hend := start_succ hlast
    rw [start_append_of_le [elem] (Nat.le_refl _)] at hend
    have hold : ∀ p ∈ elems.zipIdx,
        (start (elems ++ [elem]) p.2, p.1) = (start elems p.2, p.1) := by
      intro p hp
      have hlt : p.2 < elems.length := by simpa using List.snd_lt_of_mem_zipIdx hp
      rw [start_append_of_le [elem] (Nat.le_of_lt hlt)]
    rw [ofList_concat, width_push, hwidth]
    refine ⟨?_, ?_⟩
    · rw [push, Array.toList_push, hentries, hwidth, List.zipIdx_append, List.map_append,
        List.map_congr_left hold]
      simp [start_append_of_le]
    · rw [List.length_append, List.length_singleton, hend]

theorem width_ofList (elems : List α) : (ofList elems).width = start elems elems.length :=
  (toList_entries elems).2

theorem getElem?_entries (elems : List α) (k : Nat) :
    (ofList elems).entries[k]? = elems[k]?.map fun elem => (start elems k, elem) := by
  rw [← Array.getElem?_toList, (toList_entries elems).1, List.getElem?_map, List.getElem?_zipIdx]
  cases elems[k]? <;> simp

theorem size_ofList (elems : List α) : (ofList elems).size = elems.length := by
  rw [size, ← Array.length_toList, (toList_entries elems).1, List.length_map, List.length_zipIdx]

/-! ### Looking up offsets -/

/-- The element at a position takes up the room at an offset. -/
structure Contains (elems : List α) (offset k : Nat) (elem : α) : Prop where
  elem : elems[k]? = some elem
  start_le : start elems k ≤ offset
  lt_start_succ : offset < start elems (k + 1)

/-- All room up to the end is taken up. -/
theorem exists_contains (h : offset < start elems elems.length) :
    ∃ k elem, Contains elems offset k elem := by
  induction elems generalizing offset with
  | nil => exact absurd h (Nat.not_lt_zero _)
  | cons first rest ih =>
    rcases Nat.lt_or_ge offset (HasWidth.width first) with hlt | hge
    · exact ⟨0, first, rfl, Nat.zero_le _, by simpa using hlt⟩
    · rw [List.length_cons, start_cons_succ] at h
      have hrest : offset - HasWidth.width first < start rest rest.length := by omega
      obtain ⟨k, elem, helem, hle, hlt⟩ := ih hrest
      refine ⟨k + 1, elem, helem, ?_, ?_⟩
      · rw [start_cons_succ]
        omega
      · rw [start_cons_succ]
        omega

/-- Bisection counts the elements that start at the offset or before. -/
theorem bisect_startsBy {n : Nat} (hn : n ≤ elems.length) (hbefore : ∀ k < n, start elems k ≤ offset)
    (hbehind : n < elems.length → offset < start elems n) :
    bisect ((ofList elems).startsBy offset) 0 (ofList elems).size = n := by
  have hstarts : ∀ {k}, k < elems.length →
      (ofList elems).startsBy offset k = decide (start elems k ≤ offset) := by
    intro k hk
    rw [startsBy, getElem?_entries, List.getElem?_eq_getElem hk]
    rfl
  rw [size_ofList]
  refine bisect_eq (Nat.zero_le _) hn (fun k _ hk => ?_) fun k hk hlt => ?_
  · rw [hstarts (by omega), decide_eq_true_eq]
    exact hbefore k hk
  · rw [hstarts hlt, decide_eq_false_iff_not, Nat.not_le]
    exact Nat.lt_of_lt_of_le (hbehind (by omega)) (start_mono elems hk)

/-- An element is found at all offsets at which it takes up room. -/
theorem Contains.locate_eq (h : Contains elems offset k elem) : (ofList elems).locate offset =
    if start elems k = offset then .start k elem else .inside k := by
  have hlt : k < elems.length := (List.getElem?_eq_some_iff.1 h.elem).1
  have hbisect := bisect_startsBy hlt
    (fun j hj => Nat.le_trans (start_mono elems (Nat.le_of_lt_succ hj)) h.start_le)
    fun _ => h.lt_start_succ
  have hwidth : offset < (ofList elems).width := by
    rw [width_ofList]
    exact Nat.lt_of_lt_of_le h.lt_start_succ (start_mono elems hlt)
  rw [locate, hbisect]
  dsimp only
  rw [getElem?_entries, h.elem, Option.map_some]
  dsimp only
  rw [if_neg (Nat.not_le.2 hwidth)]

section

variable (hpos : ∀ elem ∈ elems, 0 < HasWidth.width elem)

include hpos

theorem lt_start_succ (h : elems[k]? = some elem) : start elems k < start elems (k + 1) := by
  have hwidth := hpos elem (List.mem_of_getElem? h)
  rw [start_succ h]
  omega

theorem locate_eq_past_iff : (ofList elems).locate offset = .past ↔
    start elems elems.length ≤ offset := by
  constructor
  · intro h
    refine Nat.le_of_not_lt fun hlt => ?_
    obtain ⟨k, elem, hcontains⟩ := exists_contains hlt
    rw [hcontains.locate_eq] at h
    split at h <;> cases h
  · intro h
    have hbisect := bisect_startsBy (Nat.le_refl _)
      (fun k hk => Nat.le_trans (start_mono elems (Nat.le_of_lt hk)) h)
      fun hlt => absurd hlt (Nat.lt_irrefl _)
    rw [locate, hbisect]
    cases hlength : elems.length with
    | zero => rfl
    | succ k =>
      -- the last element starts before its end
      have hk : k < elems.length := by omega
      have hend := lt_start_succ hpos (List.getElem?_eq_getElem hk)
      rw [hlength] at h
      dsimp only
      rw [getElem?_entries, List.getElem?_eq_getElem hk, Option.map_some]
      dsimp only
      rw [if_neg (by omega), if_pos]
      rwa [width_ofList, hlength]

/-- What is found at an offset is the element that takes up the room there. -/
theorem exists_contains_of_locate (h : (ofList elems).locate offset ≠ .past) :
    ∃ k elem, Contains elems offset k elem ∧ (ofList elems).locate offset =
      if start elems k = offset then .start k elem else .inside k := by
  rw [ne_eq, locate_eq_past_iff hpos, Nat.not_le] at h
  obtain ⟨k, elem, hcontains⟩ := exists_contains h
  exact ⟨k, elem, hcontains, hcontains.locate_eq⟩

theorem locate_eq_start_iff : (ofList elems).locate offset = .start k elem ↔
    elems[k]? = some elem ∧ start elems k = offset := by
  constructor
  · intro h
    have hne : (ofList elems).locate offset ≠ .past := by
      rw [h]
      nofun
    obtain ⟨k', elem', hcontains, hlocate⟩ := exists_contains_of_locate hpos hne
    rw [h] at hlocate
    split at hlocate <;> cases hlocate
    exact ⟨hcontains.elem, ‹_›⟩
  · rintro ⟨helem, rfl⟩
    have hcontains : Contains elems (start elems k) k elem :=
      ⟨helem, Nat.le_refl _, lt_start_succ hpos helem⟩
    rw [hcontains.locate_eq, if_pos rfl]

theorem locate_eq_inside_iff : (ofList elems).locate offset = .inside k ↔
    k < elems.length ∧ start elems k < offset ∧ offset < start elems (k + 1) := by
  constructor
  · intro h
    have hne : (ofList elems).locate offset ≠ .past := by
      rw [h]
      nofun
    obtain ⟨k', elem', hcontains, hlocate⟩ := exists_contains_of_locate hpos hne
    rw [h] at hlocate
    split at hlocate <;> cases hlocate
    exact ⟨(List.getElem?_eq_some_iff.1 hcontains.elem).1,
      Nat.lt_of_le_of_ne hcontains.start_le ‹_›, hcontains.lt_start_succ⟩
  · rintro ⟨hk, hlt, hlt'⟩
    have hcontains : Contains elems offset k elems[k] :=
      ⟨List.getElem?_eq_getElem hk, Nat.le_of_lt hlt, hlt'⟩
    rw [hcontains.locate_eq, if_neg (Nat.ne_of_lt hlt)]

end

end Layout

end Dalvik
