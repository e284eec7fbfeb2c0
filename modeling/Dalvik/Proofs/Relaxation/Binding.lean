import Dalvik.Proofs.Listing.Coherence
import Dalvik.Proofs.Outcome
import Dalvik.Listing.Relaxation

/-!
# Binding switches to their tables

Before anything is repaired, every switch of a listing is bound to the table that it reaches.
`Bound.Linked` says that this went well: the owners are exactly the pairs of a table and the switch
that reaches it, and no switch is without a table.  Binding succeeds just when every switch reaches a
table and no table is reached twice, and then its outcome is linked.

The three ways of editing a listing during relaxation keep it linked.
-/

namespace Dalvik

namespace Owners

/-- Renumbering renumbers the owners, if it does not take another table for the one looked up. -/
theorem of?_map {owners : Owners} {f : Nat → Nat} {table : Nat}
    (hf : ∀ o ∈ owners, f o.table = f table → o.table = table) :
    of? (owners.map fun o => ⟨f o.table, f o.switch⟩) (f table) = (owners.of? table).map f := by
  induction owners with
  | nil => rfl
  | cons o rest ih =>
    have hrest := ih fun o' ho' => hf o' (List.mem_cons_of_mem o ho')
    rcases Decidable.eq_or_ne o.table table with heq | hne
    · simp [of?, heq]
    · have hne' : f o.table ≠ f table := fun h => hne (hf o List.mem_cons_self h)
      simpa [of?, hne, hne'] using hrest

theorem insertAt_eq (owners : Owners) (k : Nat) :
    owners.insertAt k = owners.map fun o => ⟨shiftUp k o.table, shiftUp k o.switch⟩ := rfl

theorem of?_insertAt (owners : Owners) (k table : Nat) :
    (owners.insertAt k).of? (shiftUp k table) = (owners.of? table).map (shiftUp k) := by
  rw [insertAt_eq]
  exact of?_map fun o _ h => shiftUp_injective k h

/-- If neither a table nor its switch is removed, all owners are kept. -/
theorem removeAt_eq {owners : Owners} {k : Nat}
    (h : ∀ o ∈ owners, o.table ≠ k ∧ o.switch ≠ k) :
    owners.removeAt k = owners.map fun o => ⟨shiftDown k o.table, shiftDown k o.switch⟩ := by
  have hfilter : owners.filter (fun o => o.table ≠ k && o.switch ≠ k) = owners := by
    rw [List.filter_eq_self]
    intro o ho
    simp [h o ho]
  rw [removeAt, hfilter]
  rfl

theorem of?_removeAt {owners : Owners} {k table : Nat}
    (h : ∀ o ∈ owners, o.table ≠ k ∧ o.switch ≠ k) (htable : table ≠ k) :
    (owners.removeAt k).of? (shiftDown k table) = (owners.of? table).map (shiftDown k) := by
  rw [removeAt_eq h]
  exact of?_map fun o ho heq => shiftDown_inj (h o ho).1 htable heq

theorem of?_eq_none_iff {owners : Owners} {table : Nat} :
    owners.of? table = none ↔ table ∉ owners.map (·.table) := by
  simp only [of?, Option.map_eq_none_iff, List.find?_eq_none, List.mem_map, not_exists, not_and,
    decide_eq_true_eq]

theorem of?_isSome_iff {owners : Owners} {table : Nat} :
    (owners.of? table).isSome = true ↔ ∃ o ∈ owners, o.table = table := by
  rw [Option.isSome_iff_ne_none, ne_eq, of?_eq_none_iff, not_not, List.mem_map]

/-- If no table has two owners, looking up a table gives its owner. -/
theorem of?_eq_some_iff {owners : Owners} (hnodup : (owners.map (·.table)).Nodup)
    {table switch : Nat} : owners.of? table = some switch ↔ ⟨table, switch⟩ ∈ owners := by
  constructor
  · intro h
    obtain ⟨o, ho, rfl⟩ := Option.map_eq_some_iff.1 h
    have htable : o.table = table := by simpa using List.find?_some ho
    rw [← htable]
    exact List.mem_of_find?_eq_some ho
  · intro h
    obtain ⟨o, ho⟩ : ∃ o, owners.find? (·.table = table) = some o := by
      rw [← Option.isSome_iff_exists, List.find?_isSome]
      exact ⟨_, h, by simp⟩
    have htable : o.table = table := by simpa using List.find?_some ho
    have heq : o = ⟨table, switch⟩ :=
      List.inj_on_of_nodup_map hnodup (List.mem_of_find?_eq_some ho) h htable
    rw [of?, ho, heq]
    rfl

end Owners

namespace Bound

/-- The owners of the tables are exactly the switches that reach them, and every switch reaches a
table. -/
structure Linked (b : Bound) : Prop where
  /-- The owner of a table reaches it. -/
  reaches : ∀ o ∈ b.owners, b.listing.Reaches o.switch o.table
  /-- Every switch owns a table. -/
  covers : ∀ k i label, b.listing.instructions[k]? = some i → i.switchTarget? = some label →
    ∃ o ∈ b.owners, o.switch = k
  /-- No table has two owners. -/
  nodup : (b.owners.map (·.table)).Nodup

namespace Linked

variable {b : Bound}

theorem mem_owners_iff (h : b.Linked) {table switch : Nat} :
    ⟨table, switch⟩ ∈ b.owners ↔ b.listing.Reaches switch table := by
  constructor
  · intro hmem
    exact h.reaches _ hmem
  · intro hr
    obtain ⟨i, label, hi, hlabel⟩ := hr.switchTarget?
    obtain ⟨o, ho, rfl⟩ := h.covers switch i label hi hlabel
    obtain rfl : o.table = table := (h.reaches o ho).unique hr
    exact ho

theorem of?_eq_some_iff (h : b.Linked) {table switch : Nat} :
    b.owners.of? table = some switch ↔ b.listing.Reaches switch table := by
  rw [Owners.of?_eq_some_iff h.nodup, h.mem_owners_iff]

theorem of?_isSome_iff (h : b.Linked) {table : Nat} :
    (b.owners.of? table).isSome = true ↔ ∃ switch, b.listing.Reaches switch table := by
  rw [Option.isSome_iff_exists]
  exact exists_congr fun switch => h.of?_eq_some_iff

/-- A nop is nobody's table. -/
theorem of?_of_nop (h : b.Linked) {k : Nat} (hnop : b.listing.instructions[k]? = some .nop) :
    b.owners.of? k = none := by
  rw [Owners.of?_eq_none_iff, List.mem_map]
  rintro ⟨o, ho, rfl⟩
  exact (h.reaches o ho).not_nop hnop

/-- A table is reached by one switch only. -/
theorem switch_unique (h : b.Linked) {table switch switch' : Nat}
    (hr : b.listing.Reaches switch table) (hr' : b.listing.Reaches switch' table) :
    switch = switch' := by
  have h₁ := h.of?_eq_some_iff.2 hr
  have h₂ := h.of?_eq_some_iff.2 hr'
  exact Option.some.inj (h₁.symm.trans h₂)

end Linked

end Bound

/-! ### Finding the tables -/

namespace Listing

variable {l : Listing} {draft : Nat}

/-- A switch whose label stands at `target` reaches the table of its kind to which only `nop`s lead
from there. -/
theorem reaches_iff_nopsUpTo {switch target table : Nat} {i : Instruction Label} {label : Label}
    (hi : l.instructions[switch]? = some i) (hlabel : i.switchTarget? = some label)
    (htarget : l.locate? label = some target) : l.Reaches switch table ↔
      Code.NopsUpTo l.instructions target table ∧
        ∃ p, l.instructions[table]? = some (.data p) ∧ p.opcode = i.opcode.table := by
  constructor
  · rintro ⟨j, hj, label', hlabel', target', htarget', hrun, p, hp, hpayload, hkind⟩
    obtain rfl := Option.some.inj (hi.symm.trans hj)
    obtain rfl := Option.some.inj (hlabel.symm.trans hlabel')
    obtain rfl := Option.some.inj (htarget.symm.trans htarget')
    obtain ⟨q, rfl⟩ := Instruction.isPayload_iff.1 hpayload
    exact ⟨hrun, q, hp, hkind⟩
  · rintro ⟨hrun, p, hp, hkind⟩
    exact ⟨i, hi, label, hlabel, target, htarget, hrun, .data p, hp, rfl, hkind⟩

/-- Only `nop`s lead to data exactly if skipping `nop`s ends there. -/
theorem nopsUpTo_data_iff {start stop : Nat} (hstart : start ≤ l.instructions.length)
    {p : Payload Label} (hp : l.instructions[stop]? = some (.data p)) :
    Code.NopsUpTo l.instructions start stop ↔
      skipNops start (l.instructions.drop start) = stop := by
  refine Code.nopsUpTo_iff_skipNops hstart ?_
  rw [hp]
  simp [Instruction.nop]

/-- Finding the table of a switch succeeds exactly if the switch reaches one that is still free. -/
theorem findTable_eq_ok_iff {owners : Owners} {switch target : Nat} {i : Instruction Label}
    {label : Label} (hi : l.instructions[switch]? = some i) (hlabel : i.switchTarget? = some label)
    (htarget : l.locate? label = some target) {o : Owner} :
    l.findTable owners switch i.opcode target = .ok o ↔
      o.switch = switch ∧ l.Reaches switch o.table ∧ owners.of? o.table = none := by
  rw [reaches_iff_nopsUpTo hi hlabel htarget]
  unfold findTable
  split
  · next hend =>
    -- past the end there is no table to be reached
    constructor
    · intro h
      simp at h
    · rintro ⟨-, ⟨hrun, p, hp, -⟩, -⟩
      have := (List.getElem?_eq_some_iff.1 hp).1
      rw [length_instructions] at this
      exact absurd (Nat.lt_of_le_of_lt (Nat.le_trans hend hrun.1) this) (Nat.lt_irrefl _)
  · next hend =>
    have hstart : target ≤ l.instructions.length := by
      rw [length_instructions]
      omega
    simp only [← getElem?_instructions]
    split
    · next payload hpayload =>
      have hrun := (nopsUpTo_data_iff hstart hpayload).2 rfl
      have honly : ∀ table p, Code.NopsUpTo l.instructions target table →
          l.instructions[table]? = some (.data p) →
          table = skipNops target (l.instructions.drop target) ∧ p = payload := by
        intro table p hrun' hp
        have htable := (nopsUpTo_data_iff hstart hp).1 hrun'
        rw [← htable, hpayload] at hp
        exact ⟨htable.symm, by simpa using hp.symm⟩
      obtain ⟨table, switch'⟩ := o
      split
      · next hkind =>
        constructor
        · intro h
          simp at h
        · rintro ⟨-, ⟨hrun', p, hp, hkind'⟩, -⟩
          obtain ⟨-, rfl⟩ := honly table p hrun' hp
          exact absurd hkind' hkind
      · next hkind =>
        split
        · next htaken =>
          constructor
          · intro h
            simp at h
          · rintro ⟨-, ⟨hrun', p, hp, -⟩, hfree⟩
            obtain ⟨rfl, -⟩ := honly table p hrun' hp
            rw [hfree] at htaken
            simp at htaken
        · next htaken =>
          constructor
          · intro h
            obtain ⟨rfl, rfl⟩ := Owner.mk.inj (Except.ok.inj h)
            exact ⟨rfl, ⟨hrun, payload, hpayload, not_not.1 hkind⟩, by simpa using htaken⟩
          · rintro ⟨rfl, ⟨hrun', p, hp, -⟩, -⟩
            obtain ⟨rfl, -⟩ := honly table p hrun' hp
            rfl
    · next hno =>
      constructor
      · intro h
        simp at h
      · rintro ⟨-, ⟨hrun, p, hp, -⟩, -⟩
        rw [← (nopsUpTo_data_iff hstart hp).1 hrun] at hp
        exact absurd hp (hno p)

/-- What is known once the switches in front of position `n` have found their tables. -/
structure BoundUpTo (l : Listing) (n : Nat) (owners : Owners) : Prop where
  reaches : ∀ o ∈ owners, l.Reaches o.switch o.table
  before : ∀ o ∈ owners, o.switch < n
  covers : ∀ k < n, ∀ i label, l.instructions[k]? = some i → i.switchTarget? = some label →
    ∃ o ∈ owners, o.switch = k
  nodup : (owners.map (·.table)).Nodup

theorem BoundUpTo.zero (l : Listing) : l.BoundUpTo 0 [] where
  reaches _ ho := absurd ho List.not_mem_nil
  before _ ho := absurd ho List.not_mem_nil
  covers _ hk := absurd hk (Nat.not_lt_zero _)
  nodup := List.nodup_nil

/-- Whatever is no switch leaves the owners as they are. -/
theorem BoundUpTo.skip {n : Nat} {owners : Owners} (h : l.BoundUpTo n owners) {i : Instruction Label}
    (hi : l.instructions[n]? = some i) (hno : i.switchTarget? = none) :
    l.BoundUpTo (n + 1) owners where
  reaches := h.reaches
  before o ho := Nat.lt_succ_of_lt (h.before o ho)
  covers k hk j label hj hlabel := by
    rcases Nat.lt_succ_iff_lt_or_eq.1 hk with hlt | rfl
    · exact h.covers k hlt j label hj hlabel
    · obtain rfl := Option.some.inj (hi.symm.trans hj)
      simp [hno] at hlabel
  nodup := h.nodup

/-- A switch adds itself as the owner of a table that was free. -/
theorem BoundUpTo.add {n table : Nat} {owners : Owners} (h : l.BoundUpTo n owners)
    (hr : l.Reaches n table) (hfree : owners.of? table = none) :
    l.BoundUpTo (n + 1) (owners ++ [⟨table, n⟩]) where
  reaches o ho := by
    rcases List.mem_append.1 ho with ho | ho
    · exact h.reaches o ho
    · obtain rfl := List.mem_singleton.1 ho
      exact hr
  before o ho := by
    rcases List.mem_append.1 ho with ho | ho
    · exact Nat.lt_succ_of_lt (h.before o ho)
    · obtain rfl := List.mem_singleton.1 ho
      exact Nat.lt_succ_self n
  covers k hk j label hj hlabel := by
    rcases Nat.lt_succ_iff_lt_or_eq.1 hk with hlt | rfl
    · obtain ⟨o, ho, rfl⟩ := h.covers k hlt j label hj hlabel
      exact ⟨o, List.mem_append_left _ ho, rfl⟩
    · exact ⟨⟨table, k⟩, List.mem_append_right _ (List.mem_singleton_self _), rfl⟩
  nodup := by
    rw [List.map_append, List.nodup_append]
    refine ⟨h.nodup, List.nodup_singleton _, ?_⟩
    rintro t ht u hu rfl
    obtain rfl : t = table := by simpa using hu
    exact Owners.of?_eq_none_iff.1 hfree ht

/-- The step by which `findOwners` goes through the instructions. -/
def bindStep (l : Listing) (locate : Label → Except Error Nat) (owners : Owners)
    (entry : Instruction Label × Nat) : Except Error Owners :=
  match entry.1.switchTarget? with
  | none => return owners
  | some label => do
    let owner ← l.findTable owners entry.2 entry.1.opcode (← locate label)
    return owners ++ [owner]

/-- One step leaves the next switch with a table. -/
theorem BoundUpTo.bindStep {locate : Label → Except Error Nat}
    (hlocate : ∀ label k, locate label = .ok k → l.locate? label = some k) {n : Nat}
    {owners owners' : Owners} (h : l.BoundUpTo n owners) {i : Instruction Label}
    (hi : l.instructions[n]? = some i) (hok : l.bindStep locate owners (i, n) = .ok owners') :
    l.BoundUpTo (n + 1) owners' := by
  rw [Listing.bindStep] at hok
  dsimp only at hok
  split at hok
  · next hswitch =>
    obtain rfl := pure_eq_ok_iff.1 hok
    exact h.skip hi hswitch
  · next label hswitch =>
    obtain ⟨target, htarget, hok⟩ := bind_eq_ok_iff.1 hok
    obtain ⟨o, hfind, hok⟩ := bind_eq_ok_iff.1 hok
    obtain rfl := pure_eq_ok_iff.1 hok
    obtain ⟨hn, hr, hfree⟩ :=
      (findTable_eq_ok_iff hi hswitch (hlocate label target htarget)).1 hfind
    obtain ⟨table, switch⟩ := o
    obtain rfl : switch = n := hn
    exact h.add hr hfree

private theorem boundUpTo_of_foldlM {locate : Label → Except Error Nat}
    (hlocate : ∀ label k, locate label = .ok k → l.locate? label = some k)
    (rest : List (Instruction Label)) {n : Nat} (hrest : l.instructions.drop n = rest)
    {owners owners' : Owners} (h : l.BoundUpTo n owners)
    (hok : (rest.zipIdx n).foldlM (l.bindStep locate) owners = .ok owners') :
    l.BoundUpTo (n + rest.length) owners' := by
  induction rest generalizing n owners with
  | nil =>
    obtain rfl : owners = owners' := by simpa [pure, Except.pure] using hok
    exact h
  | cons i rest ih =>
    have hi : l.instructions[n]? = some i := by rw [← List.head?_drop, hrest, List.head?_cons]
    have hdrop : l.instructions.drop (n + 1) = rest := by
      rw [← List.tail_drop, hrest, List.tail_cons]
    have hlen : n + (i :: rest).length = n + 1 + rest.length := by
      rw [List.length_cons]
      omega
    rw [List.zipIdx_cons, List.foldlM_cons] at hok
    obtain ⟨owners₁, hstep, hok⟩ := bind_eq_ok_iff.1 hok
    rw [hlen]
    exact ih hdrop (h.bindStep hlocate hi hstep) hok

/-- Owners that have been found are linked. -/
theorem linked_of_findOwners {locate : Label → Except Error Nat}
    (hlocate : ∀ label k, locate label = .ok k → l.locate? label = some k) {owners : Owners}
    (hok : l.findOwners locate = .ok owners) : Bound.Linked ⟨l, owners⟩ := by
  have h := boundUpTo_of_foldlM hlocate l.instructions (n := 0) rfl (BoundUpTo.zero l) hok
  refine ⟨h.reaches, fun k i label hi hlabel => ?_, h.nodup⟩
  refine h.covers k ?_ i label hi hlabel
  rw [Nat.zero_add]
  exact (List.getElem?_eq_some_iff.1 hi).1

private theorem exists_foldlM_eq_ok {locate : Label → Except Error Nat}
    (hlocate : ∀ i ∈ l.instructions, ∀ label ∈ i.switchTarget?, ∀ k,
      l.locate? label = some k → locate label = .ok k)
    (htotal : ∀ k i label, l.instructions[k]? = some i → i.switchTarget? = some label →
      ∃ table, l.Reaches k table)
    (honce : ∀ table switch switch', l.Reaches switch table → l.Reaches switch' table →
      switch = switch')
    (rest : List (Instruction Label)) {n : Nat} (hrest : l.instructions.drop n = rest)
    {owners : Owners} (h : l.BoundUpTo n owners) :
    ∃ owners', (rest.zipIdx n).foldlM (l.bindStep locate) owners = .ok owners' := by
  induction rest generalizing n owners with
  | nil => exact ⟨owners, rfl⟩
  | cons i rest ih =>
    have hi : l.instructions[n]? = some i := by rw [← List.head?_drop, hrest, List.head?_cons]
    have hdrop : l.instructions.drop (n + 1) = rest := by
      rw [← List.tail_drop, hrest, List.tail_cons]
    rw [List.zipIdx_cons, List.foldlM_cons]
    cases hswitch : i.switchTarget? with
    | none =>
      have hstep : l.bindStep locate owners (i, n) = .ok owners := by simp [bindStep, hswitch, pure,
        Except.pure]
      rw [hstep]
      exact ih hdrop (h.skip hi hswitch)
    | some label =>
      obtain ⟨table, hr⟩ := htotal n i label hi hswitch
      obtain ⟨target, htarget⟩ : ∃ target, l.locate? label = some target := by
        obtain ⟨j, hj, label', hlabel', target, htarget, -⟩ := hr
        obtain rfl := Option.some.inj (hi.symm.trans hj)
        obtain rfl := Option.some.inj (hswitch.symm.trans hlabel')
        exact ⟨target, htarget⟩
      -- an earlier owner of the table would be a second switch that reaches it
      have hfree : owners.of? table = none := by
        rw [Owners.of?_eq_none_iff, List.mem_map]
        rintro ⟨o, ho, rfl⟩
        have hsame := honce o.table o.switch n (h.reaches o ho) hr
        exact absurd (h.before o ho) (by omega)
      have hfind : l.findTable owners n i.opcode target = .ok ⟨table, n⟩ :=
        (findTable_eq_ok_iff hi hswitch htarget).2 ⟨rfl, hr, hfree⟩
      have hlocate' := hlocate i (List.mem_of_getElem? hi) label hswitch target htarget
      have hstep : l.bindStep locate owners (i, n) = .ok (owners ++ [⟨table, n⟩]) := by
        simp [bindStep, hswitch, hlocate', hfind, bind, Except.bind, pure,
          Except.pure]
      rw [hstep]
      exact ih hdrop (h.add hr hfree)

/-- If every switch reaches a table and no table is reached twice, the owners are found. -/
theorem exists_findOwners_eq_ok {locate : Label → Except Error Nat}
    (hlocate : ∀ i ∈ l.instructions, ∀ label ∈ i.switchTarget?, ∀ k,
      l.locate? label = some k → locate label = .ok k)
    (htotal : ∀ k i label, l.instructions[k]? = some i → i.switchTarget? = some label →
      ∃ table, l.Reaches k table)
    (honce : ∀ table switch switch', l.Reaches switch table → l.Reaches switch' table →
      switch = switch') :
    ∃ owners, l.findOwners locate = .ok owners :=
  exists_foldlM_eq_ok hlocate htotal honce l.instructions (n := 0) rfl (BoundUpTo.zero l)

end Listing

/-! ### Edits keep a listing linked -/

namespace Bound

variable {b : Bound} {draft : Nat}

/-- To see that a renumbered listing is linked, it is enough that the renumbering tells the tables
apart, that what was reached is still reached, and that no switch comes from nowhere. -/
theorem Linked.renumber (h : b.Linked) {l' : Listing} {f : Nat → Nat}
    (hinj : ∀ o ∈ b.owners, ∀ o' ∈ b.owners, f o.table = f o'.table → o.table = o'.table)
    (hreaches : ∀ o ∈ b.owners, l'.Reaches (f o.switch) (f o.table))
    (hswitch : ∀ k i label, l'.instructions[k]? = some i → i.switchTarget? = some label →
      ∃ j, f j = k ∧ b.listing.instructions[j]? = some i) :
    Linked ⟨l', b.owners.map fun o => ⟨f o.table, f o.switch⟩⟩ where
  reaches o' ho' := by
    obtain ⟨o, ho, rfl⟩ := List.mem_map.1 ho'
    exact hreaches o ho
  covers k i label hi hlabel := by
    obtain ⟨j, rfl, hj⟩ := hswitch k i label hi hlabel
    obtain ⟨o, ho, rfl⟩ := h.covers j i label hj hlabel
    exact ⟨_, List.mem_map.2 ⟨o, ho, rfl⟩, rfl⟩
  nodup := by
    rw [List.map_map]
    have hcomp : b.owners.map ((·.table) ∘ fun o => (⟨f o.table, f o.switch⟩ : Owner)) =
        (b.owners.map (·.table)).map f := by simp
    rw [hcomp]
    refine h.nodup.map_on ?_
    intro x hx y hy hxy
    obtain ⟨o, ho, rfl⟩ := List.mem_map.1 hx
    obtain ⟨o', ho', rfl⟩ := List.mem_map.1 hy
    exact hinj o ho o' ho' hxy

theorem Linked.insertAt_nop (h : b.Linked) (hcoherent : b.listing.Coherent draft) {k : Nat}
    (hk : k < b.listing.size) : (b.insertAt k .nop).Linked := by
  refine h.renumber (f := shiftUp k) (fun o _ o' _ heq => shiftUp_injective k heq)
    (fun o ho => (h.reaches o ho).insertAt_nop hcoherent hk) fun j i label hi hlabel => ?_
  rw [Listing.instructions_insertAt _ (Nat.le_of_lt hk)] at hi
  rcases Nat.lt_trichotomy j k with hlt | rfl | hgt
  · rw [List.getElem?_insertIdx_of_lt hlt] at hi
    exact ⟨j, shiftUp_of_lt hlt, hi⟩
  · -- the new position holds no switch
    rw [List.getElem?_insertIdx_self, if_pos (by simpa using Nat.le_of_lt hk)] at hi
    obtain rfl := Option.some.inj hi
    simp [Instruction.switchTarget?, Instruction.nop] at hlabel
  · rw [List.getElem?_insertIdx_of_gt hgt] at hi
    exact ⟨j - 1, by rw [shiftUp_of_le (by omega)]; omega, hi⟩

/-- What is neither a switch nor the table of one does not occur among the owners. -/
theorem Linked.owners_ne (h : b.Linked) {k : Nat} {i : Instruction Label}
    (hi : b.listing.instructions[k]? = some i) (hno : i.switchTarget? = none)
    (hfree : b.owners.of? k = none) : ∀ o ∈ b.owners, o.table ≠ k ∧ o.switch ≠ k := by
  intro o ho
  constructor
  · rintro rfl
    exact Owners.of?_eq_none_iff.1 hfree (List.mem_map_of_mem ho)
  · exact (h.reaches o ho).switch_ne hi hno

/-- An instruction that is neither a switch nor the table of one can be removed. -/
theorem Linked.removeAt (h : b.Linked) (hcoherent : b.listing.Coherent draft) {k : Nat}
    {i : Instruction Label} (hi : b.listing.instructions[k]? = some i)
    (hno : i.switchTarget? = none) (hfree : b.owners.of? k = none) : (b.removeAt k).Linked := by
  have hk : k < b.listing.size := by
    simpa using (List.getElem?_eq_some_iff.1 hi).1
  have hne := h.owners_ne hi hno hfree
  have howners : b.removeAt k = ⟨b.listing.removeAt k,
      b.owners.map fun o => ⟨shiftDown k o.table, shiftDown k o.switch⟩⟩ := by
    rw [Bound.removeAt, Owners.removeAt_eq hne]
  rw [howners]
  refine h.renumber (f := shiftDown k)
    (fun o ho o' ho' heq => shiftDown_inj (hne o ho).1 (hne o' ho').1 heq)
    (fun o ho => (h.reaches o ho).removeAt hcoherent hk (hne o ho).2 (hne o ho).1)
    fun j i' label hi' hlabel => ?_
  rw [Listing.instructions_removeAt] at hi'
  rcases Nat.lt_or_ge j k with hlt | hge
  · rw [List.getElem?_eraseIdx_of_lt hlt] at hi'
    exact ⟨j, shiftDown_of_le (Nat.le_of_lt hlt), hi'⟩
  · rw [List.getElem?_eraseIdx_of_ge hge] at hi'
    exact ⟨j + 1, by rw [shiftDown_of_lt (by omega)]; rfl, hi'⟩

/-- A jump can be exchanged for another one. -/
theorem Linked.replaceAt_goto (h : b.Linked) (hcoherent : b.listing.Coherent draft) {k : Nat}
    {opcode : Opcode} {reach reach' : Reach} {label : Label}
    (hi : b.listing.instructions[k]? = some (.op opcode (.jump reach label)))
    (hcoherent' : (b.listing.replaceAt k (.goto reach' label)).Coherent draft) :
    (b.replaceAt k (.goto reach' label)).Linked := by
  have hnop : b.listing.instructions[k]? ≠ some .nop := by
    rw [hi]
    simp [Instruction.nop]
  refine ⟨fun o ho => ?_, fun j i label' hj hlabel' => ?_, h.nodup⟩
  · have hr := h.reaches o ho
    exact hr.replaceAt hnop (hr.switch_ne hi rfl) (hr.table_ne hi rfl) hcoherent hcoherent'
  · have hlist : (b.listing.instructions.set k (.goto reach' label))[j]? = some i := by
      rw [← Listing.instructions_replaceAt]
      exact hj
    rcases Decidable.eq_or_ne k j with rfl | hne
    · rw [List.getElem?_set_self (List.getElem?_eq_some_iff.1 hi).1] at hlist
      obtain rfl := Option.some.inj hlist
      simp [Instruction.goto, Instruction.switchTarget?] at hlabel'
    · rw [List.getElem?_set_ne hne] at hlist
      exact h.covers j i label' hlist hlabel'

end Bound

end Dalvik
