import Dalvik.Proofs.Draft.Faults
import Dalvik.Proofs.Draft.RoundTrip
import Dalvik.Proofs.Relaxation.Likeness

/-!
# Drafts with the same outline

What is exported depends on the outline of a draft and on nothing else (`Draft.finished_of_outline`).
Drafts with the same outline differ in their labels, and in whether they are known to be relaxed.
Labels do not matter, since drafts that are alike are relaxed alike.  Nor does it matter whether a draft
needs relaxation: one that does not is legal, and relaxing it all the same finds the owners that it
has and nothing to repair (`Draft.Sound.exists_relaxed_forced`).
-/

namespace Dalvik

namespace TryEntry

variable {τ σ ρ ε : Type} {R : τ → σ → Prop} {x : TryEntry τ} {y : TryEntry σ}

/-- Two handlers catch the same, and the places that they mention correspond. -/
structure Alike (R : τ → σ → Prop) (x : TryEntry τ) (y : TryEntry σ) : Prop where
  /-- The same type is caught. -/
  type : y.type? = x.type?
  /-- The places correspond. -/
  places : List.Forall₂ R x.places y.places

/-- Handlers that are alike become the same when the places do. -/
theorem Alike.mapM_eq {f : τ → Except ε ρ} {g : σ → Except ε ρ} (h : Alike R x y)
    (hfg : ∀ t u, R t u → ∃ p, f t = .ok p ∧ g u = .ok p) :
    ∃ z, x.mapM f = .ok z ∧ y.mapM g = .ok z := by
  obtain ⟨htype, hplaces⟩ := h
  simp only [TryEntry.places, List.forall₂_cons] at hplaces
  obtain ⟨start, hstart, hstart'⟩ := hfg _ _ hplaces.1
  obtain ⟨stop, hstop, hstop'⟩ := hfg _ _ hplaces.2.1
  obtain ⟨handler, hhandler, hhandler'⟩ := hfg _ _ hplaces.2.2.1
  refine ⟨⟨start, stop, x.type?, handler⟩, mapM_eq_ok_iff.2 ⟨rfl, ?_⟩,
    mapM_eq_ok_iff.2 ⟨htype.symm, ?_⟩⟩
  · exact .cons hstart (.cons hstop (.cons hhandler .nil))
  · exact .cons hstart' (.cons hstop' (.cons hhandler' .nil))

end TryEntry

namespace Draft

variable {d d' e e' : Draft} {R : Label → Label → Prop} {o : Outline}

/-! ### Drafts that are alike -/

/-- Two drafts differ in nothing but their labels and in what is known about their tables.  Labels that
are related by `R` correspond. -/
structure Alike (R : Label → Label → Prop) (d e : Draft) : Prop where
  /-- The number of registers is the same. -/
  registers : e.registers = d.registers
  /-- The instructions are alike. -/
  code : List.Forall₂ (Instruction.Alike R) d.listing.instructions e.listing.instructions
  /-- Labels that correspond stand at the same position. -/
  places : ∀ t u, R t u → ∃ k, d.locate t = .ok k ∧ e.locate u = .ok k
  /-- The debug items are the same. -/
  items : e.listing.debugItems = d.listing.debugItems
  /-- The handlers are alike. -/
  tries : List.Forall₂ (TryEntry.Alike R) d.tries.toList e.tries.toList

/-- Drafts that are alike have the same outline. -/
theorem Alike.exists_outline (h : Alike R d e) : ∃ o, d.outline = .ok o ∧ e.outline = .ok o := by
  obtain ⟨instructions, hd, he⟩ := exists_mapM_eq_ok_of_forall₂
    (h.code.imp fun _ _ hij => hij.mapTargetsM_eq h.places)
  obtain ⟨tries, hd', he'⟩ := exists_mapM_eq_ok_of_forall₂
    (h.tries.imp fun _ _ hxy => hxy.mapM_eq h.places)
  rw [mapM_eq_ok_iff] at hd he hd' he'
  exact ⟨⟨d.registers, instructions, tries, d.listing.debugItems⟩,
    outline_eq_ok_iff.2 ⟨hd, hd', rfl, rfl⟩,
    outline_eq_ok_iff.2 ⟨he, he', h.items.symm, h.registers.symm⟩⟩

/-- Drafts with the same outline are alike, labels that stand at the same position corresponding. -/
theorem alike_of_outline (hd : d.outline = .ok o) (he : e.outline = .ok o) :
    Alike (fun t u => ∃ k, d.locate t = .ok k ∧ e.locate u = .ok k) d e := by
  obtain ⟨hcode, htries, hitems, hregisters⟩ := outline_eq_ok_iff.1 hd
  obtain ⟨hcode', htries', hitems', hregisters'⟩ := outline_eq_ok_iff.1 he
  refine ⟨hregisters'.symm.trans hregisters, ?_, fun _ _ h => h, hitems'.symm.trans hitems, ?_⟩
  · refine (forall₂_of_convert hcode hcode').imp fun i j ⟨x, hi, hj⟩ => ?_
    obtain ⟨hshape, htargets⟩ := Instruction.mapTargetsM_eq_ok_iff.1 hi
    obtain ⟨hshape', htargets'⟩ := Instruction.mapTargetsM_eq_ok_iff.1 hj
    exact ⟨hshape'.symm.trans hshape, forall₂_of_convert htargets htargets'⟩
  · refine (forall₂_of_convert htries htries').imp fun x y ⟨z, hx, hy⟩ => ?_
    obtain ⟨htype, hplaces⟩ := TryEntry.mapM_eq_ok_iff.1 hx
    obtain ⟨htype', hplaces'⟩ := TryEntry.mapM_eq_ok_iff.1 hy
    exact ⟨htype'.symm.trans htype, forall₂_of_convert hplaces hplaces'⟩

/-- A draft that is sound has an outline. -/
theorem Sound.exists_outline (h : d.Sound) : ∃ o, d.outline = .ok o := by
  have halike : Alike (fun t u => t = u ∧ d.listing.Issued d.id t) d d := by
    refine ⟨rfl, List.forall₂_same.2 fun i hi => ⟨rfl, List.forall₂_same.2 fun t ht => ⟨rfl, ?_⟩⟩,
      ?_, rfl, List.forall₂_same.2 fun x hx => ⟨rfl, List.forall₂_same.2 fun t ht => ⟨rfl, ?_⟩⟩⟩
    · exact h.listing.targets i hi t ht
    · rintro t _ ⟨rfl, ht⟩
      obtain ⟨k, hk⟩ := h.exists_locate_eq_ok ht
      exact ⟨k, hk, hk⟩
    · exact h.tries x hx t ht
  obtain ⟨o, ho, -⟩ := halike.exists_outline
  exact ⟨o, ho⟩

/-! ### Relaxing drafts that are alike -/

/-- Drafts that are alike and need relaxation are relaxed alike, or fail with the same error. -/
theorem Alike.relaxed (h : Alike R d e) (hd : d.Sound) (he : e.Sound) (hnone : d.owners? = none)
    (hnone' : e.owners? = none) :
    (∃ x, d.relaxed = .error x ∧ e.relaxed = .error x) ∨
      ∃ d' e', d.relaxed = .ok d' ∧ e.relaxed = .ok e' ∧ Alike R d' e' ∧
        e'.owners? = d'.owners? := by
  have hR : ∀ t u, R t u → t.draft = d.id ∧ u.draft = e.id := by
    intro t u htu
    obtain ⟨k, ht, hu⟩ := h.places t u htu
    exact ⟨(locate_eq_ok_iff.1 ht).1, (locate_eq_ok_iff.1 hu).1⟩
  have hfind : e.listing.findOwners e.locate = d.listing.findOwners d.locate := by
    refine Listing.findOwners_of_alike h.code fun t u htu => ?_
    obtain ⟨k, ht, hu⟩ := h.places t u htu
    rw [ht, hu]
  rw [hd.relaxed_eq hnone, he.relaxed_eq hnone', hfind]
  cases howners : d.listing.findOwners d.locate with
  | error x => exact Or.inl ⟨x, rfl, rfl⟩
  | ok owners =>
    have hbound := hd.bound howners
    have hbound' := he.bound (hfind.trans howners)
    have halike : Bound.Alike R ⟨d.listing, owners⟩ ⟨e.listing, owners⟩ := by
      refine ⟨h.code, fun t u htu => ?_, h.items, rfl⟩
      obtain ⟨k, ht, hu⟩ := h.places t u htu
      rw [(locate_eq_ok_iff.1 ht).2, (locate_eq_ok_iff.1 hu).2]
    have hsettle := halike.settle hbound hbound' hR
    refine Or.inr ⟨_, _, rfl, rfl, ⟨h.registers, hsettle.code, fun t u htu => ?_, hsettle.items,
      h.tries⟩, congrArg some hsettle.owners⟩
    -- no label is lost
    obtain ⟨ht, hu⟩ := hR t u htu
    obtain ⟨k, hk, -⟩ := h.places t u htu
    have hmark := (hd.listing.locate?_eq_some_iff ht).1 (locate_eq_ok_iff.1 hk).2
    have hissued := hd.listing.own t (Listing.mem_labels_of_mem_marks hmark)
    rw [Listing.Issued, ← Bound.issued_of_mends (Bound.mends_settle hbound)] at hissued
    obtain ⟨k', hk'⟩ := (Bound.sound_settle hbound).listing.exists_locate? hissued
    exact ⟨k', locate_eq_ok_iff.2 ⟨ht, hk'⟩,
      locate_eq_ok_iff.2 ⟨hu, (hsettle.places t u htu).trans hk'⟩⟩

/-! ### Relaxing what is relaxed -/

/-- Relaxing a draft that does not need it finds the owners that it has, and nothing to repair. -/
theorem Sound.exists_relaxed_forced (h : d.Sound) {owners : Owners}
    (howners : d.owners? = some owners) :
    ∃ owners', Draft.relaxed { d with owners? := none } = .ok { d with owners? := some owners' } ∧
      owners'.of? = owners.of? := by
  have hlegal := h.legal (by rw [needsRelaxation, howners]; rfl)
  obtain ⟨known, hknown, hreaches⟩ := hlegal.owners
  obtain rfl := Option.some.inj (howners.symm.trans hknown)
  obtain ⟨owners', hfind⟩ : ∃ owners', d.listing.findOwners d.locate = .ok owners' := by
    refine Listing.exists_findOwners_eq_ok (fun i hi label hlabel p hp => ?_)
      (fun k i label hi hlabel => ?_) fun table switch switch' hr hr' => ?_
    · obtain ⟨k, hk, rfl⟩ := List.mem_iff_getElem.1 hi
      exact locate_eq_ok_iff.2
        ⟨h.listing.draft_of_switchTarget? (List.getElem?_eq_getElem hk) hlabel, hp⟩
    · obtain ⟨o, a, rfl, hswitch⟩ := Instruction.switchTarget?_eq_some_iff.1 hlabel
      rw [Listing.getElem?_instructions] at hi
      exact hlegal.bound k _ hi hswitch
    · exact Option.some.inj (((hreaches table switch).2 hr).symm.trans
        ((hreaches table switch').2 hr'))
  have hbound := h.bound hfind
  have hof : owners'.of? = owners.of? := by
    funext table
    refine Option.ext fun switch => ?_
    rw [hbound.linked.of?_eq_some_iff, hreaches]
  have hsettled : Bound.Settled ⟨d.listing, owners'⟩ := by
    refine Bound.settled_of_forall (fun k p hi => ?_) fun k o r label stop hi hstop => ?_
    · rw [Listing.getElem?_instructions] at hi
      refine ⟨hlegal.aligned k p hi, fun htable => ?_⟩
      obtain ⟨switch, hswitch⟩ := (hlegal.owned k p hi htable).exists
      rw [hof, (hreaches k switch).2 hswitch]
      rfl
    · rw [Instruction.eq_goto_of_valid (h.listing.valid _ (List.mem_of_getElem? hi))] at hi
      obtain ⟨stop', hstop', hfits⟩ := hlegal.exists_fits hi h.listing
      obtain ⟨hlabel, hplace⟩ := locate_eq_ok_iff.1 hstop'
      rw [h.listing.address?_survey hlabel, hplace, Option.map_some] at hstop
      obtain rfl := Option.some.inj hstop
      exact hfits
  obtain ⟨o, ho⟩ := h.forced.exists_outline
  exact ⟨owners', relaxed_of_settled rfl ho hfind hsettled, hof⟩

/-! ### Exporting -/

/-- What a draft is exported to. -/
def finished (d : Draft) : Except Error Method := do
  let d' ← d.relaxed
  (← d'.outline).toMethod (d'.owners?.getD []).of?

/-- What comes of an action that starts with a check. -/
theorem outcome_require_bind {α β : Type} (x : Except Error α) (f : α → DraftM β) (d : Draft) :
    outcome (require x >>= f) d = x >>= fun a => outcome (f a) d := by
  cases x <;> rfl

theorem outcome_toMethod (d : Draft) : outcome toMethod d = d.finished := by
  rw [finished]
  cases hrelaxed : d.relaxed with
  | error x =>
    rw [outcome, toMethod, run_bind_of_error (relax_eq_error_iff.2 ⟨hrelaxed, rfl⟩)]
    rfl
  | ok d' =>
    rw [outcome, toMethod, run_bind_of_ok (relax_eq_ok_iff.2 hrelaxed), run_get_bind]
    refine (outcome_require_bind d'.outline _ d').trans (congrArg _ (funext fun o => ?_))
    cases o.toMethod (d'.owners?.getD []).of? <;> rfl

/-- It makes no difference whether a draft is known to be relaxed. -/
theorem Sound.finished_forced (h : d.Sound) :
    Draft.finished { d with owners? := none } = d.finished := by
  cases howners : d.owners? with
  | none =>
    have hsame : { d with owners? := none } = d := by rw [← howners]
    rw [hsame]
  | some owners =>
    obtain ⟨owners', hrelaxed, hof⟩ := h.exists_relaxed_forced howners
    rw [finished, finished, hrelaxed, relaxed_of_owners?_eq_some howners]
    change (d.outline >>= fun o => o.toMethod owners'.of?) =
      d.outline >>= fun o => o.toMethod (d.owners?.getD []).of?
    rw [howners, hof]
    rfl

/-- Drafts with the same outline are exported to the same. -/
theorem finished_of_outline (hd : d.Sound) (he : e.Sound) (ho : d.outline = .ok o)
    (ho' : e.outline = .ok o) : d.finished = e.finished := by
  rw [← hd.finished_forced, ← he.finished_forced]
  have halike := alike_of_outline (d := { d with owners? := none }) (e := { e with owners? := none })
    ho ho'
  rcases halike.relaxed hd.forced he.forced rfl rfl with
    ⟨x, hx, hx'⟩ | ⟨d', e', hd', he', halike', howners⟩
  · rw [finished, finished, hx, hx']
  · obtain ⟨o', hout, hout'⟩ := halike'.exists_outline
    rw [finished, finished, hd', he']
    change (d'.outline >>= _) = (e'.outline >>= _)
    rw [hout, hout', howners]

end Draft

end Dalvik
