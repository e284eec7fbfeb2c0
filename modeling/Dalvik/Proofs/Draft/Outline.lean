import Dalvik.Proofs.Draft.Import
import Dalvik.Proofs.Outline.Spelling
import Dalvik.Draft.Read

/-!
# The outline of a draft

The outline of a draft replaces every label by the position at which it stands
(`Draft.outline_eq_ok_iff`).  It has the shape of the draft, the same switches reach the same tables,
and if the draft is sound it is well-formed, with its debug items front to back.

A draft is turned into a method in three steps: it is relaxed, its outline is taken, and the outline
is spelled out (`Draft.toMethod_eq_ok_iff`).
-/

namespace Dalvik

/-- The debug items of a listing are listed front to back. -/
theorem Listing.pairwise_debugItems (l : Listing) :
    l.debugItems.Pairwise fun m m' => m.1 ≤ m'.1 := by
  rw [debugItems_eq]
  exact pairwise_attachments _ _ _

theorem Listing.le_size_of_mem_debugItems {l : Listing} {m : Nat × DebugItem}
    (hm : m ∈ l.debugItems) : m.1 ≤ l.size := by
  rw [debugItems_eq] at hm
  obtain ⟨-, p, hp, -⟩ := mem_attachments.1 hm
  have hlt := (List.getElem?_eq_some_iff.1 hp).1
  rw [length_points] at hlt
  omega

namespace Draft

variable {α : Type} {d d' : Draft} {o : Outline}

theorem require_eq_ok_iff {x : Except Error α} {a : α} :
    require x d = .ok a d' ↔ x = .ok a ∧ d = d' := by
  cases x with
  | error e =>
    change EStateM.Result.error e d = .ok a d' ↔ _
    simp
  | ok b =>
    change EStateM.Result.ok b d = .ok a d' ↔ _
    simp

/-- Relaxing succeeds with the relaxed draft. -/
theorem relax_eq_ok_iff : relax d = .ok () d' ↔ d.relaxed = .ok d' := by
  unfold relax
  simp only [run_bind_eq_ok_iff, run_get_eq_ok_iff, require_eq_ok_iff, run_set_eq_ok_iff]
  constructor
  · rintro ⟨_, _, ⟨rfl, rfl⟩, _, _, ⟨hok, rfl⟩, rfl⟩
    exact hok
  · intro hok
    exact ⟨d, d, ⟨rfl, rfl⟩, d', d, ⟨hok, rfl⟩, rfl⟩

/-- A draft becomes a method if it can be relaxed and its outline can then be spelled out. -/
theorem toMethod_eq_ok_iff {m : Method} : toMethod d = .ok m d' ↔
    d.relaxed = .ok d' ∧ ∃ o, d'.outline = .ok o ∧ o.toMethod (d'.owners?.getD []).of? = .ok m := by
  unfold toMethod
  simp only [run_bind_eq_ok_iff, run_get_eq_ok_iff, require_eq_ok_iff]
  constructor
  · rintro ⟨_, _, hok, _, _, ⟨rfl, rfl⟩, o, _, ⟨ho, rfl⟩, hm, rfl⟩
    exact ⟨relax_eq_ok_iff.1 hok, o, ho, hm⟩
  · rintro ⟨hok, o, ho, hm⟩
    exact ⟨(), d', relax_eq_ok_iff.2 hok, d', d', ⟨rfl, rfl⟩, o, d', ⟨ho, rfl⟩, hm, rfl⟩

/-! ### What an outline says -/

/-- What has to succeed for a draft to have an outline, and what the outline then is. -/
theorem outline_eq_ok_iff : d.outline = .ok o ↔
    List.Forall₂ (fun i j => i.mapTargetsM d.locate = .ok j) d.listing.instructions o.instructions ∧
      List.Forall₂ (fun e e' => e.mapM d.locate = .ok e') d.tries.toList o.tries ∧
      o.debugItems = d.listing.debugItems ∧ o.registers = d.registers := by
  constructor
  · intro h
    obtain ⟨instructions, hinstructions, h⟩ := bind_eq_ok_iff.1 h
    obtain ⟨tries, htries, h⟩ := bind_eq_ok_iff.1 h
    obtain rfl := pure_eq_ok_iff.1 h
    exact ⟨mapM_eq_ok_iff.1 hinstructions, mapM_eq_ok_iff.1 htries, rfl, rfl⟩
  · rintro ⟨hinstructions, htries, hitems, hregisters⟩
    obtain ⟨registers, instructions, tries, items⟩ := o
    obtain rfl : items = d.listing.debugItems := hitems
    obtain rfl : registers = d.registers := hregisters
    unfold outline
    exact bind_eq_ok_iff.2 ⟨_, mapM_eq_ok_iff.2 hinstructions,
      bind_eq_ok_iff.2 ⟨_, mapM_eq_ok_iff.2 htries, rfl⟩⟩

/-- An outline has the shape of the draft. -/
theorem shape_of_outline (h : d.outline = .ok o) :
    o.instructions.map Instruction.shape = d.listing.instructions.map Instruction.shape := by
  rw [← List.forall₂_eq_eq_eq, List.forall₂_map_left_iff, List.forall₂_map_right_iff]
  exact (outline_eq_ok_iff.1 h).1.flip.imp fun j i hij =>
    (Instruction.mapTargetsM_eq_ok_iff.1 hij).1

theorem length_of_outline (h : d.outline = .ok o) : o.instructions.length = d.listing.size := by
  rw [Code.length_eq_of_shape_eq (shape_of_outline h), Listing.length_instructions]

/-- Every label is replaced by its position. -/
theorem targets_of_outline (h : d.outline = .ok o) {k : Nat} {i : Instruction Label}
    {j : Instruction Nat} (hi : d.listing.instructions[k]? = some i)
    (hj : o.instructions[k]? = some j) :
    List.Forall₂ (fun label p => d.locate label = .ok p) i.targets j.targets := by
  have hmap := (forall₂_iff_getElem?.1 (outline_eq_ok_iff.1 h).1).2 k i j hi hj
  exact (Instruction.mapTargetsM_eq_ok_iff.1 hmap).2

/-- In an outline the same switches reach the same tables. -/
theorem reaches_iff_of_outline (h : d.outline = .ok o) {switch table : Nat} :
    d.listing.Reaches switch table ↔
      Code.Reaches (fun _ p => some p) o.instructions switch table := by
  have hlocate : ∀ i ∈ d.listing.instructions[switch]?, ∀ j ∈ o.instructions[switch]?,
      ∀ label ∈ i.switchTarget?, ∀ p ∈ j.switchTarget?,
      d.listing.locate? label = some p := by
    intro i hi j hj label hlabel p hp
    have htargets := targets_of_outline h hi hj
    rw [Instruction.targets_of_switchTarget? hlabel, Instruction.targets_of_switchTarget? hp]
      at htargets
    exact (locate_eq_ok_iff.1 (List.forall₂_cons.1 htargets).1).2
  constructor
  · intro hr
    refine hr.of_shape_eq (shape_of_outline h) fun i hi j hj label hlabel p hp => ?_
    exact (hlocate i hi j hj label hlabel p hp).symm
  · intro hr
    refine hr.of_shape_eq (shape_of_outline h).symm fun j hj i hi p hp label hlabel => ?_
    exact hlocate i hi j hj label hlabel p hp

/-- The outline of a sound draft is well-formed. -/
theorem Sound.wellFormed_outline (hd : d.Sound) (h : d.outline = .ok o) : o.WellFormed := by
  obtain ⟨hinstructions, htries, hitems, -⟩ := outline_eq_ok_iff.1 h
  have hle : ∀ {label k}, d.locate label = .ok k → k ≤ o.instructions.length := by
    intro label k hk
    obtain ⟨hlabel, hk'⟩ := locate_eq_ok_iff.1 hk
    rw [length_of_outline h]
    exact hd.listing.locate?_le_size hlabel hk'
  refine ⟨fun j hj => ?_, fun k hk => ?_, fun m hm => ?_⟩
  · obtain ⟨i, hi, hij⟩ := forall₂_exists_left hinstructions hj
    rw [← Instruction.valid_shape_iff, (Instruction.mapTargetsM_eq_ok_iff.1 hij).1,
      Instruction.valid_shape_iff]
    exact hd.listing.valid i hi
  · rcases Outline.mem_places_iff.1 hk with ⟨j, hj, hk⟩ | ⟨entry, hentry, hk⟩
    · obtain ⟨i, -, hij⟩ := forall₂_exists_left hinstructions hj
      obtain ⟨label, -, hlabel⟩ :=
        forall₂_exists_left (Instruction.mapTargetsM_eq_ok_iff.1 hij).2 hk
      exact hle hlabel
    · obtain ⟨entry', -, hmap⟩ := forall₂_exists_left htries hentry
      obtain ⟨label, -, hlabel⟩ := forall₂_exists_left (TryEntry.mapM_eq_ok_iff.1 hmap).2 hk
      exact hle hlabel
  · rw [hitems] at hm
    rw [length_of_outline h]
    exact Listing.le_size_of_mem_debugItems hm

end Draft

end Dalvik
