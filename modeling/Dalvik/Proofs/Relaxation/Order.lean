import Dalvik.Proofs.Relaxation.Settling
import Mathlib.Data.List.Sort

/-!
# The order of the owners

Owners are found in the order of the switches, and repairs keep them in that order.  As a linked
listing determines which owners there are, it determines the whole list of them; hence finding the
owners once more after any number of repairs finds what the repairs have made of them
(`Bound.Linked.findOwners_eq`).
-/

namespace Dalvik

namespace Owners

variable {owners owners' : Owners}

/-- The owners are listed in the order of the switches. -/
def Sorted (owners : Owners) : Prop := owners.Pairwise fun o o' => o.switch < o'.switch

/-- In order, the owners are determined by which they are. -/
theorem Sorted.eq_of_mem_iff (h : owners.Sorted) (h' : owners'.Sorted)
    (hmem : ∀ o, o ∈ owners ↔ o ∈ owners') : owners = owners' := by
  have : Std.Antisymm fun o o' : Owner => o.switch < o'.switch :=
    ⟨fun o o' hlt hgt => absurd hlt (Nat.lt_asymm hgt)⟩
  have : Std.Irrefl fun o o' : Owner => o.switch < o'.switch := ⟨fun o => Nat.lt_irrefl o.switch⟩
  exact List.Pairwise.eq_of_mem_iff h h' hmem

theorem Sorted.insertAt (h : owners.Sorted) (k : Nat) : (owners.insertAt k).Sorted := by
  rw [insertAt_eq, Sorted, List.pairwise_map]
  refine h.imp fun {o o'} hlt => ?_
  change shiftUp k o.switch < shiftUp k o'.switch
  unfold shiftUp
  split <;> split <;> omega

/-- Those that mention what is removed are gone, and the others stay in order. -/
theorem Sorted.removeAt (h : owners.Sorted) (k : Nat) : (owners.removeAt k).Sorted := by
  rw [Owners.removeAt, Sorted, List.pairwise_map]
  refine (h.filter _).imp_of_mem fun {o o'} ho ho' hlt => ?_
  obtain ⟨-, hne⟩ := List.mem_filter.1 ho
  obtain ⟨-, hne'⟩ := List.mem_filter.1 ho'
  simp only [ne_eq, Bool.and_eq_true, decide_eq_true_eq] at hne hne'
  dsimp only
  split <;> split <;> omega

/-- A switch behind all the others goes behind them. -/
theorem Sorted.append (h : owners.Sorted) {o : Owner} (hbehind : ∀ o' ∈ owners, o'.switch < o.switch) :
    (owners ++ [o]).Sorted :=
  List.pairwise_append.2 ⟨h, List.pairwise_singleton _ _, fun o' ho' o'' ho'' => by
    obtain rfl := List.mem_singleton.1 ho''
    exact hbehind o' ho'⟩

end Owners

namespace Listing

variable {l : Listing} {locate : Label → Except Error Nat} {owners owners' : Owners} {n : Nat}

/-- The owner that is found for a table is the switch at hand. -/
theorem switch_of_findTable {switch target : Nat} {opcode : Opcode} {o : Owner}
    (h : l.findTable owners switch opcode target = .ok o) : o.switch = switch := by
  unfold findTable at h
  dsimp only at h
  split at h
  · cases h
  · split at h
    · split at h
      · cases h
      · split at h
        · cases h
        · rw [← Except.ok.inj h]
    · cases h

/-- One step leaves the owners as they are, or adds the switch at hand behind them. -/
theorem bindStep_eq_ok {i : Instruction Label}
    (h : l.bindStep locate owners (i, n) = .ok owners') :
    owners' = owners ∨ ∃ table, owners' = owners ++ [⟨table, n⟩] := by
  rw [bindStep] at h
  dsimp only at h
  split at h
  · exact .inl (pure_eq_ok_iff.1 h).symm
  · obtain ⟨target, -, hfound⟩ := bind_eq_ok_iff.1 h
    obtain ⟨o, hfind, howners⟩ := bind_eq_ok_iff.1 hfound
    obtain ⟨table, switch⟩ := o
    obtain rfl : switch = n := switch_of_findTable hfind
    exact .inr ⟨table, (pure_eq_ok_iff.1 howners).symm⟩

private theorem sorted_of_foldlM (rest : List (Instruction Label)) (h : owners.Sorted)
    (hbefore : ∀ o ∈ owners, o.switch < n)
    (hok : (rest.zipIdx n).foldlM (l.bindStep locate) owners = .ok owners') : owners'.Sorted := by
  induction rest generalizing n owners with
  | nil =>
    obtain rfl := pure_eq_ok_iff.1 hok
    exact h
  | cons i rest ih =>
    rw [List.zipIdx_cons, List.foldlM_cons] at hok
    obtain ⟨owners₁, hstep, hrest⟩ := bind_eq_ok_iff.1 hok
    rcases bindStep_eq_ok hstep with rfl | ⟨table, rfl⟩
    · exact ih h (fun o ho => Nat.lt_succ_of_lt (hbefore o ho)) hrest
    · refine ih (h.append hbefore) (fun o ho => ?_) hrest
      rcases List.mem_append.1 ho with ho | ho
      · exact Nat.lt_succ_of_lt (hbefore o ho)
      · obtain rfl := List.mem_singleton.1 ho
        exact Nat.lt_succ_self n

/-- Owners are found in the order of the switches. -/
theorem sorted_findOwners (hok : l.findOwners locate = .ok owners) : owners.Sorted :=
  sorted_of_foldlM l.instructions .nil (fun _ ho => absurd ho List.not_mem_nil) hok

end Listing

namespace Bound

variable {b b' : Bound} {locate : Label → Except Error Nat}

/-- Repairs keep the order. -/
theorem Mends.sorted (h : b.Mends b') (hb : b.owners.Sorted) : b'.owners.Sorted := by
  cases h with
  | widen => exact hb
  | drop => exact hb.removeAt _
  | closeGap => exact hb.removeAt _
  | openGap => exact hb.insertAt _

theorem sorted_of_mends (h : Relation.ReflTransGen Mends b b') (hb : b.owners.Sorted) :
    b'.owners.Sorted := by
  induction h with
  | refl => exact hb
  | tail _ hmends ih => exact hmends.sorted ih

/-- In a linked listing, the owners that are found are the ones it has. -/
theorem Linked.findOwners_eq (h : b.Linked) (hsorted : b.owners.Sorted)
    (hlocate : ∀ label k, locate label = .ok k → b.listing.locate? label = some k)
    (hplaced : ∀ i ∈ b.listing.instructions, ∀ label ∈ i.switchTarget?, ∀ k,
      b.listing.locate? label = some k → locate label = .ok k) :
    b.listing.findOwners locate = .ok b.owners := by
  obtain ⟨owners, howners⟩ : ∃ owners, b.listing.findOwners locate = .ok owners := by
    refine Listing.exists_findOwners_eq_ok hplaced (fun k i label hi hlabel => ?_)
      fun table switch switch' => h.switch_unique
    obtain ⟨o, ho, rfl⟩ := h.covers k i label hi hlabel
    exact ⟨o.table, h.reaches o ho⟩
  have hlinked := Listing.linked_of_findOwners hlocate howners
  have hsame : owners = b.owners := by
    refine (Listing.sorted_findOwners howners).eq_of_mem_iff hsorted fun o => ?_
    exact hlinked.mem_owners_iff.trans h.mem_owners_iff.symm
  rw [howners, hsame]

end Bound

end Dalvik
