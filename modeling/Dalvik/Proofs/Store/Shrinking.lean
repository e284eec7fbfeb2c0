import Dalvik.Proofs.Store.Idempotence
import Dalvik.Proofs.Store.Stages
import Dalvik.Proofs.Store.Widening

/-!
# How far jumps had to go

A jump gets a longer form only when it falls short of its target, and it keeps that form even if it
would not need it any more.  It does need it in the end if no cell between it and its target has been
removed (`Store.needs_of_relax`): what is left takes up no less room and is in the same order, hence
the target is no nearer (`Store.Becomes.farther`).  But a nop or the table of no switch may be removed
later on, and then the target can come within reach of a shorter form (`Store.exists_not_needs`).
-/

namespace Dalvik

namespace Reach

/-- No shorter form crosses an offset. -/
def Needs : Reach → Int → Prop
  | byte, _ => True
  | word, offset => offset < -128 ∨ 127 < offset
  | long, offset => offset < -32768 ∨ 32767 < offset

instance (r : Reach) (offset : Int) : Decidable (r.Needs offset) := by
  cases r <;> unfold Needs <;> infer_instance

/-- The shortest form that crosses an offset is needed for it. -/
theorem needs_least (offset : Int) : (least offset).Needs offset := by
  unfold least
  split
  · trivial
  · next hbyte =>
    simp only [fits, Bool.and_eq_true, decide_eq_true_eq] at hbyte
    split
    · simp only [Needs]
      omega
    · next hword =>
      simp only [fits, Bool.and_eq_true, decide_eq_true_eq] at hword
      simp only [Needs]
      omega

/-- What is needed for an offset is needed for any that is farther on the same side. -/
theorem Needs.farther {r : Reach} {near far : Int} (h : r.Needs near)
    (hfar : 0 ≤ near ∧ near ≤ far ∨ far ≤ near ∧ near ≤ 0) : r.Needs far := by
  cases r with
  | byte => trivial
  | _ =>
    simp only [Needs] at h ⊢
    omega

end Reach

namespace Store

variable {s s' r : Store} {d d' : Draft} {label : Label} {j k n m p q : Nat} {g : Handle}

/-! ### Distances -/

/-- Number of code units from the cell at a position to the place of a label. -/
def offsetTo? (s : Store) (k : Nat) (label : Label) : Option Int := do
  let c ← s.cell? k
  let stop ← (s.cellOf label).toOption
  return (stop.address : Int) - c.address

/-- A cell is between the one at a position and the place of a label. -/
def Between (s : Store) (k : Nat) (label : Label) (g : Handle) : Prop :=
  ∃ q n, s.labelIndex label = .ok q ∧ min k q ≤ n ∧ n < max k q ∧ s.order[n]? = some g

/-- The instruction in a cell ends where the next one starts. -/
theorem Refines.address_succ (h : s.Refines d) (hg : s.order[n]? = some g) :
    Code.address d.listing.instructions (n + 1) =
      Code.address d.listing.instructions n + (s.arena.get g).units := by
  rw [Cell.units, h.instruction?_get hg]
  cases hi : d.listing.instructions[n]? with
  | none =>
    have hlength := List.getElem?_eq_none_iff.1 hi
    rw [Code.address_of_length_le hlength, Code.address_of_length_le (Nat.le_succ_of_le hlength)]
    rfl
  | some i => exact Code.address_succ hi

/-- If all cells from one position up to another are left, these positions have not come nearer. -/
theorem Becomes.address_add_le (h : s.Becomes s') (hs : s.Refines d) (hs' : s'.Refines d')
    (hjk : s.SameAhead s' j k) (hnm : s.SameAhead s' n m) (hjn : j ≤ n) (hkm : k ≤ m)
    (hleft : ∀ i g, j ≤ i → i < n → s.order[i]? = some g → g ∈ s'.order)
    (hn : n ≤ s.order.size) :
    Code.address d.listing.instructions n + Code.address d'.listing.instructions k ≤
      Code.address d'.listing.instructions m + Code.address d.listing.instructions j := by
  induction n, hjn using Nat.le_induction generalizing m with
  | base =>
    have hmono := Code.address_mono d'.listing.instructions hkm
    omega
  | succ n hjn ih =>
    have hg : s.order[n]? = some s.order[n] := Array.getElem?_eq_getElem hn
    generalize s.order[n] = g at hg
    have hmem := hleft n g hjn (Nat.lt_succ_self n) hg
    obtain ⟨x, hx⟩ := Array.mem_iff_getElem?.1 hmem
    have hkx : k ≤ x := Nat.le_of_not_lt fun hlt => absurd ((hjk hg hx).2 hlt) (by omega)
    have hxm : x + 1 ≤ m := (hnm hg hx).1 (Nat.lt_succ_self n)
    have hrest := ih (h.order hg hx) hkx
      (fun i g hji hin => hleft i g hji (Nat.lt_succ_of_lt hin)) (Nat.le_of_succ_le hn)
    have hunits := h.units_le (Array.mem_of_getElem? hg) hmem
    have hmono := Code.address_mono d'.listing.instructions hxm
    rw [hs'.address_succ hx] at hmono
    rw [hs.address_succ hg]
    omega

/-- How far a label is, by the addresses of the listing. -/
theorem Refines.offsetTo?_eq_some_iff (h : s.Refines d) {offset : Int} :
    s.offsetTo? k label = some offset ↔ k ≤ d.listing.size ∧ ∃ q, s.labelIndex label = .ok q ∧
      (Code.address d.listing.instructions q : Int) - Code.address d.listing.instructions k =
        offset := by
  rw [offsetTo?, h.cellOf_eq, h.labelIndex_eq]
  rcases Nat.lt_or_ge d.listing.size k with hlt | hk
  · rw [h.tracks.cell?_eq_none hlt]
    constructor
    · intro hnone
      cases hnone
    · rintro ⟨hk, -⟩
      omega
  · rw [h.tracks.cell?_eq hk]
    cases d.locate label with
    | error e =>
      constructor
      · intro hnone
        cases hnone
      · rintro ⟨-, q, hq, -⟩
        cases hq
    | ok q =>
      constructor
      · intro hoffset
        exact ⟨hk, q, rfl, Option.some.inj hoffset⟩
      · rintro ⟨-, q', hq, hoffset⟩
        cases hq
        exact congrArg some hoffset

/-- If all cells between the one at a position and the place of a label are left, the label has not
come nearer. -/
theorem Becomes.farther (h : s.Becomes s') (hs : s.Refines d) (hs' : s'.Refines d')
    (hj : s.order[j]? = some g) (hk : s'.order[k]? = some g)
    (hleft : ∀ g, s.Between j label g → g ∈ s'.order) {near far : Int}
    (hnear : s.offsetTo? j label = some near) (hfar : s'.offsetTo? k label = some far) :
    0 ≤ near ∧ near ≤ far ∨ far ≤ near ∧ near ≤ 0 := by
  obtain ⟨hjsize, q, hq, rfl⟩ := hs.offsetTo?_eq_some_iff.1 hnear
  obtain ⟨-, p, hp, rfl⟩ := hs'.offsetTo?_eq_some_iff.1 hfar
  obtain ⟨p', hp', hqp⟩ := h.labels hq
  obtain rfl := Except.ok.inj (hp.symm.trans hp')
  have hjk : s.SameAhead s' j k := h.order hj hk
  have hqsize : q ≤ d.listing.size := by
    rw [hs.labelIndex_eq] at hq
    obtain ⟨hlabel, hlocate⟩ := Draft.locate_eq_ok_iff.1 hq
    exact hs.coherent.locate?_le_size hlabel hlocate
  have hsize := hs.tracks.size_order
  rcases Nat.lt_or_ge j q with hlt | hge
  · left
    have hkp : k < p := (hqp hj hk).1 hlt
    have hdistance := h.address_add_le hs hs' hjk hqp (Nat.le_of_lt hlt) (Nat.le_of_lt hkp)
      (fun n g hjn hnq hg => hleft g ⟨q, n, hq, by omega, by omega, hg⟩) (by omega)
    have hmono := Code.address_mono d.listing.instructions (Nat.le_of_lt hlt)
    omega
  · right
    have hpk : p ≤ k := Nat.le_of_not_lt fun hlt => absurd ((hqp hj hk).2 hlt) (by omega)
    have hdistance := h.address_add_le hs hs' hqp hjk hge hpk
      (fun n g hqn hnj hg => hleft g ⟨q, n, hq, by omega, by omega, hg⟩) (by omega)
    have hmono := Code.address_mono d.listing.instructions hge
    omega

/-! ### Tracing a jump back -/

/-- What is in a cell is in the code. -/
theorem Refines.exists_of_instruction? (h : s.Refines d) {i : Instruction Label}
    (hi : (s.arena.get g).instruction? = some i) :
    ∃ j : Nat, s.order[j]? = some g ∧ d.listing.instructions[j]? = some i := by
  have hlive : s.arena.Live g := by
    unfold Arena.Live
    unfold Arena.get at hi
    cases hcell : s.arena.get? g with
    | some c => rfl
    | none =>
      rw [hcell] at hi
      cases hi
  have hmem := Array.mem_toList_iff.1 ((h.tracks.exact.live g).1 hlive)
  obtain ⟨j, hj⟩ := Array.mem_iff_getElem?.1 hmem
  refine ⟨j, hj, ?_⟩
  rw [← h.instruction?_get hj, hi]

/-- A jump gets a longer form at a stage at which it needs it. -/
theorem Stage.Keeps.needs_of_widens {w : Stage} {reach : Reach} (h : w.Keeps d)
    (hw : w.Widens g reach label) :
    ∃ offset, w.store.offsetTo? w.index label = some offset ∧ reach.Needs offset := by
  obtain ⟨b, hfollows, hb⟩ := h
  have hindex : w.index < b.listing.size := lt_of_lt_of_eq hw.inside hfollows.refines.tracks_size
  have haction := Except.ok.inj ((hfollows.repairAt_eq hb.ready hindex).symm.trans hw.needs)
  have hdiagnosis := b.diagnosis hindex
  rw [haction] at hdiagnosis
  cases hdiagnosis with
  | @far o r _ _ stop hi hstop hwider _ =>
    have hissued := hb.listing.targets _ (List.mem_of_getElem? hi) label
      (List.mem_singleton_self label)
    rw [hb.listing.toCoherent.address?_survey hissued.1] at hstop
    obtain ⟨q, hq, rfl⟩ := Option.map_eq_some_iff.1 hstop
    have hlocate : (d.withListing b.listing).locate label = .ok q :=
      Draft.locate_eq_ok_iff.2 ⟨hissued.1, hq⟩
    refine ⟨_, hfollows.refines.offsetTo?_eq_some_iff.2 ⟨Nat.le_of_lt hindex, q, ?_, rfl⟩, ?_⟩
    · rw [hfollows.refines.labelIndex_eq, hlocate]
    · rw [hwider]
      exact Reach.needs_least _

/-- At a later stage it needs the form that it got, if none of the cells that were between it and its
target has been removed. -/
theorem Stage.Keeps.needs_of_steps {w w' : Stage} {reach : Reach} (h : w.Keeps d)
    (hw : w.Widens g reach label) (hsteps : Relation.ReflTransGen Stage.Next w w')
    (hk : w'.store.order[k]? = some g) :
    ∃ near far, w.store.offsetTo? w.index label = some near ∧ reach.Needs near ∧
      w'.store.offsetTo? k label = some far ∧
        ((∀ g', w.store.Between w.index label g' → w.store.Removable g' → g' ∈ w'.store.order) →
          reach.Needs far) := by
  obtain ⟨near, hnear, hneeds⟩ := h.needs_of_widens hw
  obtain ⟨hbecomes, b', hfollows', -⟩ := h.steps hsteps
  obtain ⟨b, hfollows, -⟩ := h
  obtain ⟨-, q, hq, -⟩ := hfollows.refines.offsetTo?_eq_some_iff.1 hnear
  obtain ⟨p, hp, -⟩ := hbecomes.labels hq
  have hsize := (hfollows'.refines.tracks.get_eq hk).1
  have hfar := hfollows'.refines.offsetTo?_eq_some_iff.2 ⟨hsize, p, hp, rfl⟩
  refine ⟨near, _, hnear, hneeds, hfar, fun hleft => hneeds.farther ?_⟩
  have hall : ∀ g', w.store.Between w.index label g' → g' ∈ w'.store.order := by
    intro g' hbetween
    by_contra hnone
    have hmem : g' ∈ w.store.order := by
      obtain ⟨-, n, -, -, -, hn⟩ := hbetween
      exact Array.mem_of_getElem? hn
    exact hnone (hleft g' hbetween (hbecomes.gone g' hmem hnone))
  exact hbecomes.farther hfollows.refines hfollows'.refines hw.here hk hall hnear hfar

/-- If no jump of a reachable store has a longer form, every jump of the relaxed store that has one
got it at a stage at which it needed it.  It needs it in the end as well, unless a nop or the table of
no switch that was then between it and its target has been removed. -/
theorem needs_of_relax (h : s.Reachable)
    (hshort : ∀ i ∈ s.instructions, i.opcode ≠ .goto16 ∧ i.opcode ≠ .goto32)
    (hok : relax s = .ok ⟨⟩ r) {i : Instruction Label} (hi : r.instruction? k = some i)
    (hlong : i.opcode = .goto16 ∨ i.opcode = .goto32) :
    ∃ (reach : Reach) (label : Label) (g : Handle) (w : Stage) (near far : Int),
      i = .goto reach label ∧ r.order[k]? = some g ∧ s.Passes r w ∧ w.Widens g reach label ∧
        w.store.offsetTo? w.index label = some near ∧ reach.Needs near ∧
          r.offsetTo? k label = some far ∧
            ((∀ g', w.store.Between w.index label g' → w.store.Removable g' → g' ∈ r.order) →
              reach.Needs far) := by
  obtain ⟨d, hd, hrefines⟩ := h.exists_refines
  have hnone : i ∉ s.instructions := fun hmem => by
    obtain ⟨hword, hdouble⟩ := hshort i hmem
    exact hlong.elim hword hdouble
  cases howners? : d.owners? with
  | some owners =>
    -- a relaxed store stays as it is
    rw [relax, run_get_bind, hrefines.dirty_eq_false_iff.2 ⟨owners, howners?⟩] at hok
    cases hok
    rw [hrefines.tracks.instruction?_eq, ← Listing.getElem?_instructions] at hi
    rw [hrefines.tracks.instructions_eq] at hnone
    exact absurd (List.mem_of_getElem? hi) hnone
  | none =>
    have hdirty := hrefines.dirty_eq_true_iff.2 howners?
    obtain ⟨-, first, last, hbind, hsettle, rfl⟩ := (relax_eq_ok_iff hdirty).1 hok
    obtain ⟨owners, -, hfirst, hfollows, hbound⟩ :=
      hrefines.exists_follows_of_bindTables hd.sound howners? hbind
    have hstages := hfollows.stages_of_settle hbound hsettle
    have hkeeps : Stage.Keeps ⟨first, 0, false⟩ d := ⟨_, hfollows, hbound⟩
    obtain ⟨-, b, hlast, hb⟩ := hkeeps.steps hstages
    -- the instruction is a jump in some cell
    obtain ⟨reach, hreach⟩ : ∃ reach : Reach, i.opcode = reach.goto :=
      hlong.elim (⟨.word, ·⟩) (⟨.long, ·⟩)
    change (last.order[k]?.map last.arena.get).bind (·.instruction?) = some i at hi
    obtain ⟨c, hc, hci⟩ := Option.bind_eq_some_iff.1 hi
    obtain ⟨g, hg, rfl⟩ := Option.map_eq_some_iff.1 hc
    obtain ⟨n, -, hn⟩ := hlast.refines.exists_of_instruction? hci
    obtain ⟨label, rfl⟩ :=
      Instruction.eq_goto_of_opcode (hb.listing.valid i (List.mem_of_getElem? hn)) hreach
    -- it has not been there from the beginning
    rcases Stage.exists_widens hstages hci with hbegin | ⟨w, hbefore, hwidens, hafter⟩
    · obtain ⟨m, -, hm⟩ := hfirst.exists_of_instruction? hbegin
      rw [hrefines.tracks.instructions_eq] at hnone
      exact absurd (List.mem_of_getElem? hm) hnone
    · obtain ⟨near, far, hnear, hneeds, hfar, hleft⟩ :=
        (hkeeps.steps hbefore).2.needs_of_steps hwidens hafter hg
      exact ⟨reach, label, g, w, near, far, rfl, hg, ⟨first, last, hbind, hbefore, hafter, rfl⟩,
        hwidens, hnear, hneeds, hfar, hleft⟩

/-- A jump over 130 code units gets the medium form, and has 132 code units to go in the end. -/
theorem needs_of_relax_stretch :
    stretch.Reachable ∧
      (∀ i ∈ stretch.instructions, i.opcode ≠ .goto16 ∧ i.opcode ≠ .goto32) ∧
        ∃ r, relax stretch = .ok ⟨⟩ r ∧ r.instruction? 0 = some (.goto .word ⟨0, 0⟩) ∧
          r.offsetTo? 0 ⟨0, 0⟩ = some 132 ∧
            ∃ (reach : Reach) (label : Label) (g : Handle) (w : Stage) (near far : Int),
              Instruction.goto .word (⟨0, 0⟩ : Label) = .goto reach label ∧ r.order[0]? = some g ∧
                stretch.Passes r w ∧ w.Widens g reach label ∧
                  w.store.offsetTo? w.index label = some near ∧ reach.Needs near ∧
                    r.offsetTo? 0 label = some far ∧
                      ((∀ g', w.store.Between w.index label g' → w.store.Removable g' →
                        g' ∈ r.order) → reach.Needs far) := by
  have hstretch : stretch.Reachable := (Reachable.new 0 2).run _
  have hshort : ∀ i ∈ stretch.instructions, i.opcode ≠ .goto16 ∧ i.opcode ≠ .goto32 := by
    decide +kernel
  obtain ⟨⟨⟩, r, hr⟩ := exists_of_succeeds (x := relax) (s := stretch) (by decide +kernel)
  have hjump : (stateAfter relax stretch).instruction? 0 = some (.goto .word ⟨0, 0⟩) := by
    decide +kernel
  have hoffset : (stateAfter relax stretch).offsetTo? 0 ⟨0, 0⟩ = some 132 := by decide +kernel
  rw [stateAfter, hr] at hjump hoffset
  exact ⟨hstretch, hshort, r, hr, hjump, hoffset,
    needs_of_relax hstretch hshort hr hjump (.inl rfl)⟩

/-- A short jump over the table of no switch, which takes up 128 code units. -/
def hollow : Store :=
  (new 0 1).run [.append (.op .returnVoid .f10x), .labelAt 0,
    .insert 0 (.data (.packed 0 (List.replicate 62 ⟨0, 0⟩))), .insert 0 (.goto .byte ⟨0, 0⟩)]

/-- The jump gets the medium form before the table is removed, and keeps it although only two code
units are left to go. -/
theorem exists_not_needs :
    hollow.Reachable ∧ (∀ i ∈ hollow.instructions, i.opcode ≠ .goto16 ∧ i.opcode ≠ .goto32) ∧
      ∃ r, relax hollow = .ok ⟨⟩ r ∧ r.instruction? 0 = some (.goto .word ⟨0, 0⟩) ∧
        r.offsetTo? 0 ⟨0, 0⟩ = some 2 ∧ ¬ Reach.word.Needs 2 := by
  have hhollow : hollow.Reachable := (Reachable.new 0 1).run _
  obtain ⟨⟨⟩, r, hr⟩ := exists_of_succeeds (x := relax) (s := hollow) (by decide +kernel)
  have hjump : (stateAfter relax hollow).instruction? 0 = some (.goto .word ⟨0, 0⟩) := by
    decide +kernel
  have hoffset : (stateAfter relax hollow).offsetTo? 0 ⟨0, 0⟩ = some 2 := by decide +kernel
  rw [stateAfter, hr] at hjump hoffset
  exact ⟨hhollow, by decide +kernel, r, hr, hjump, hoffset, by decide⟩

end Store

end Dalvik
