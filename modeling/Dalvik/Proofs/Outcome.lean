import Mathlib.Data.List.Forall2

/-!
# Outcomes

A computation that can fail succeeds if all its steps do.  The laws here turn the success of a
sequence of steps into facts about the single steps, and back.
-/

namespace Dalvik

variable {ε α β γ : Type}

/-- A sequence of two steps succeeds if both do. -/
theorem bind_eq_ok_iff {x : Except ε α} {f : α → Except ε β} {b : β} :
    x >>= f = .ok b ↔ ∃ a, x = .ok a ∧ f a = .ok b := by
  cases x with
  | error e => simp [bind, Except.bind]
  | ok a => simp [bind, Except.bind]

/-- It fails because the first one does or because the second one does after it. -/
theorem bind_eq_error_iff {x : Except ε α} {f : α → Except ε β} {e : ε} :
    x >>= f = .error e ↔ x = .error e ∨ ∃ a, x = .ok a ∧ f a = .error e := by
  cases x with
  | error e' => simp [bind, Except.bind]
  | ok a => simp [bind, Except.bind]

/-- A step after which nothing can fail fails if the step does. -/
theorem bind_pure_eq_error_iff {x : Except ε α} {f : α → β} {e : ε} :
    (x >>= fun a => pure (f a)) = .error e ↔ x = .error e := by
  cases x with
  | error e' => simp [bind, Except.bind]
  | ok a => simp [bind, Except.bind, pure, Except.pure]

@[simp] theorem pure_eq_ok_iff {a b : α} : (pure a : Except ε α) = .ok b ↔ a = b := by
  simp [pure, Except.pure]

/-- A check that nothing is kept of succeeds if it does. -/
theorem discard_eq_ok_iff {x : Except ε α} : discard x = .ok () ↔ ∃ a, x = .ok a := by
  cases x with
  | error e =>
    constructor
    · intro h
      cases h
    · rintro ⟨a, ha⟩
      cases ha
  | ok a => exact ⟨fun _ => ⟨a, rfl⟩, fun _ => rfl⟩

/-- A check of every element of a list succeeds if all checks do. -/
theorem forM_eq_ok_iff {f : α → Except ε Unit} {xs : List α} :
    xs.forM f = .ok () ↔ ∀ x ∈ xs, f x = .ok () := by
  induction xs with
  | nil => simp [pure, Except.pure]
  | cons x xs ih =>
    change (f x >>= fun _ => xs.forM f) = .ok () ↔ _
    rw [bind_eq_ok_iff, List.forall_mem_cons, ← ih]
    constructor
    · rintro ⟨⟨⟩, hx, hxs⟩
      exact ⟨hx, hxs⟩
    · rintro ⟨hx, hxs⟩
      exact ⟨(), hx, hxs⟩

/-- It fails with the error of one of them. -/
theorem exists_of_forM_eq_error {f : α → Except ε Unit} {xs : List α} {e : ε}
    (h : xs.forM f = .error e) : ∃ x ∈ xs, f x = .error e := by
  induction xs with
  | nil => cases h
  | cons x rest ih =>
    rcases bind_eq_error_iff.1 h with hx | ⟨-, -, hrest⟩
    · exact ⟨x, List.mem_cons_self, hx⟩
    · obtain ⟨y, hy, herror⟩ := ih hrest
      exact ⟨y, List.mem_cons_of_mem x hy, herror⟩

/-- Converting every element of a list succeeds if all conversions do. -/
theorem mapM_eq_ok_iff {f : α → Except ε β} {xs : List α} {ys : List β} :
    xs.mapM f = .ok ys ↔ List.Forall₂ (fun x y => f x = .ok y) xs ys := by
  induction xs generalizing ys with
  | nil =>
    rw [List.mapM_nil, pure_eq_ok_iff, List.forall₂_nil_left_iff]
    exact eq_comm
  | cons x xs ih =>
    rw [List.mapM_cons, bind_eq_ok_iff, List.forall₂_cons_left_iff]
    constructor
    · rintro ⟨y, hy, h⟩
      obtain ⟨rest, hrest, hys⟩ := bind_eq_ok_iff.1 h
      exact ⟨y, rest, hy, ih.1 hrest, (pure_eq_ok_iff.1 hys).symm⟩
    · rintro ⟨y, rest, hy, hrest, rfl⟩
      exact ⟨y, hy, bind_eq_ok_iff.2 ⟨rest, ih.2 hrest, rfl⟩⟩

/-- If every element of a list can be converted, so can the list. -/
theorem exists_mapM_eq_ok {f : α → Except ε β} {xs : List α} (h : ∀ x ∈ xs, ∃ y, f x = .ok y) :
    ∃ ys, xs.mapM f = .ok ys := by
  induction xs with
  | nil => exact ⟨[], rfl⟩
  | cons x xs ih =>
    obtain ⟨y, hy⟩ := h x List.mem_cons_self
    obtain ⟨ys, hys⟩ := ih fun x' hx' => h x' (List.mem_cons_of_mem x hx')
    exact ⟨y :: ys, mapM_eq_ok_iff.2 (.cons hy (mapM_eq_ok_iff.1 hys))⟩

/-- Converting the elements of a list fails with the error of the first element that cannot be
converted. -/
theorem mapM_eq_error_iff {f : α → Except ε β} {xs : List α} {e : ε} :
    xs.mapM f = .error e ↔
      ∃ (k : Nat) (x : α), xs[k]? = some x ∧ f x = .error e ∧
        ∀ j < k, ∀ y ∈ xs[j]?, ∃ z, f y = .ok z := by
  induction xs with
  | nil =>
    constructor
    · intro h
      cases h
    · rintro ⟨k, x, hx, -⟩
      cases hx
  | cons x xs ih =>
    rw [List.mapM_cons]
    cases hx : f x with
    | error e' =>
      constructor
      · intro h
        cases h
        exact ⟨0, x, rfl, hx, fun j hj => absurd hj (Nat.not_lt_zero j)⟩
      · rintro ⟨k, y, hy, herror, hbefore⟩
        cases k with
        | zero =>
          cases hy
          rw [Except.error.inj (hx.symm.trans herror)]
          rfl
        | succ k =>
          obtain ⟨z, hz⟩ := hbefore 0 (Nat.succ_pos k) x rfl
          cases hx.symm.trans hz
    | ok z =>
      have hrest : (Except.ok z >>= fun z => xs.mapM f >>= fun zs => pure (z :: zs)) = .error e ↔
          xs.mapM f = .error e := bind_pure_eq_error_iff
      rw [hrest, ih]
      constructor
      · rintro ⟨k, y, hy, herror, hbefore⟩
        refine ⟨k + 1, y, hy, herror, fun j hj y' hy' => ?_⟩
        cases j with
        | zero =>
          cases hy'
          exact ⟨z, hx⟩
        | succ j => exact hbefore j (Nat.lt_of_succ_lt_succ hj) y' hy'
      · rintro ⟨k, y, hy, herror, hbefore⟩
        cases k with
        | zero =>
          cases hy
          cases hx.symm.trans herror
        | succ k =>
          exact ⟨k, y, hy, herror, fun j hj y' hy' => hbefore (j + 1) (Nat.succ_lt_succ hj) y' hy'⟩

/-- Whatever is the same about every element and what it is converted to is the same about the
lists. -/
theorem exists_mapM_eq_ok_and_map_eq {f : α → Except ε β} {g : β → γ} {h : α → γ} {xs : List α}
    (hxs : ∀ x ∈ xs, ∃ y, f x = .ok y ∧ g y = h x) :
    ∃ ys, xs.mapM f = .ok ys ∧ ys.map g = xs.map h := by
  obtain ⟨ys, hys⟩ := exists_mapM_eq_ok fun x hx => (hxs x hx).imp fun _ hy => hy.1
  refine ⟨ys, hys, ?_⟩
  have hall := mapM_eq_ok_iff.1 hys
  clear hys
  induction hall with
  | nil => rfl
  | @cons x y xs ys hxy _ ih =>
    obtain ⟨⟨y', hy', heq⟩, hrest⟩ := List.forall_mem_cons.1 hxs
    obtain rfl := Except.ok.inj (hxy.symm.trans hy')
    rw [List.map_cons, List.map_cons, heq, ih hrest]

/-- Whatever is on the right of two related lists has a counterpart on the left. -/
theorem forall₂_exists_left {R : α → β → Prop} {xs : List α} {ys : List β}
    (h : List.Forall₂ R xs ys) {y : β} (hy : y ∈ ys) : ∃ x ∈ xs, R x y := by
  obtain ⟨k, hk, rfl⟩ := List.mem_iff_getElem.1 hy
  exact ⟨_, List.getElem_mem (h.length_eq ▸ hk), h.get (h.length_eq ▸ hk) hk⟩

/-- Two lists are related if they are as long as each other and related position by position. -/
theorem forall₂_iff_getElem? {R : α → β → Prop} {xs : List α} {ys : List β} :
    List.Forall₂ R xs ys ↔
      xs.length = ys.length ∧ ∀ (k : Nat) x y, xs[k]? = some x → ys[k]? = some y → R x y := by
  rw [List.forall₂_iff_get]
  refine and_congr_right fun _ => ⟨fun h k x y hx hy => ?_, fun h k hx hy => ?_⟩
  · obtain ⟨hkx, rfl⟩ := List.getElem?_eq_some_iff.1 hx
    obtain ⟨hky, rfl⟩ := List.getElem?_eq_some_iff.1 hy
    exact h k hkx hky
  · exact h k _ _ (List.getElem?_eq_getElem hx) (List.getElem?_eq_getElem hy)

/-- What elements convert to is determined. -/
theorem forall₂_ok_unique {f : α → Except ε β} {xs : List α} {ys ys' : List β}
    (h : List.Forall₂ (fun x y => f x = .ok y) xs ys)
    (h' : List.Forall₂ (fun x y => f x = .ok y) xs ys') : ys = ys' := by
  rw [← mapM_eq_ok_iff] at h h'
  exact Except.ok.inj (h.symm.trans h')

/-- A conversion after another one converts what came out of the first. -/
theorem mapM_bind_of_forall₂ {f : α → Except ε β} (g : β → Except ε γ) {xs : List α} {ys : List β}
    (h : List.Forall₂ (fun x y => f x = .ok y) xs ys) :
    xs.mapM (fun x => f x >>= g) = ys.mapM g := by
  induction h with
  | nil => rfl
  | cons hx _ ih =>
    rw [List.mapM_cons, List.mapM_cons, ih, hx]
    rfl

/-! ### Actions on a state -/

section Actions

variable {σ : Type} {s s' : σ}

/-- After an action that succeeds, the next one starts in the state where it ends. -/
theorem run_bind_of_ok {x : EStateM ε σ α} {a : α} (h : x s = .ok a s') (f : α → EStateM ε σ β) :
    (x >>= f) s = f a s' := by
  simp only [bind, EStateM.bind, h]

/-- After an action that fails nothing else is done. -/
theorem run_bind_of_error {x : EStateM ε σ α} {e : ε} (h : x s = .error e s')
    (f : α → EStateM ε σ β) : (x >>= f) s = .error e s' := by
  simp only [bind, EStateM.bind, h]

/-- An action of which nothing is kept ends where the action ends. -/
theorem run_discard_of_ok {x : EStateM ε σ α} {a : α} (h : x s = .ok a s') :
    (discard x : EStateM ε σ PUnit) s = .ok ⟨⟩ s' := by
  change EStateM.map (fun _ => PUnit.unit) x s = _
  rw [EStateM.map, h]

/-- It succeeds if the action does. -/
theorem run_discard_eq_ok_iff {x : EStateM ε σ α} :
    (discard x : EStateM ε σ PUnit) s = .ok ⟨⟩ s' ↔ ∃ a, x s = .ok a s' := by
  constructor
  · intro h
    change EStateM.map (fun _ => PUnit.unit) x s = _ at h
    rw [EStateM.map] at h
    cases hx : x s with
    | ok a s₁ =>
      rw [hx] at h
      cases h
      exact ⟨a, rfl⟩
    | error e s₁ =>
      rw [hx] at h
      cases h
  · rintro ⟨a, ha⟩
    exact run_discard_of_ok ha

/-- Two actions in a row succeed if both do. -/
theorem run_bind_eq_ok_iff {x : EStateM ε σ α} {f : α → EStateM ε σ β} {b : β} :
    (x >>= f) s = .ok b s' ↔ ∃ a s₁, x s = .ok a s₁ ∧ f a s₁ = .ok b s' := by
  cases hx : x s with
  | error e s₁ => simp [run_bind_of_error hx]
  | ok a s₁ => simp [run_bind_of_ok hx]

theorem run_get_bind (f : σ → EStateM ε σ α) (s : σ) : (get >>= f) s = f s s := rfl

theorem run_modify_bind (g : σ → σ) (f : PUnit → EStateM ε σ α) (s : σ) :
    (modify g >>= f) s = f ⟨⟩ (g s) := rfl

theorem run_get_eq_ok_iff {a : σ} : (get : EStateM ε σ σ) s = .ok a s' ↔ a = s ∧ s' = s := by
  change EStateM.Result.ok s s = .ok a s' ↔ _
  simp [eq_comm]

theorem run_set_eq_ok_iff {a : σ} {u : PUnit} :
    (set a : EStateM ε σ PUnit) s = .ok u s' ↔ s' = a := by
  change EStateM.Result.ok _ a = .ok u s' ↔ _
  simp [eq_comm]

/-! ### Actions on different states -/

variable {τ : Type} {t : τ} {R : σ → τ → Prop}

/-- Two actions have come to the same outcome, and the states in which they ended are related. -/
inductive Agree (R : σ → τ → Prop) : EStateM.Result ε σ α → EStateM.Result ε τ α → Prop
  /-- Both have succeeded. -/
  | ok {s : σ} {t : τ} (a : α) (h : R s t) : Agree R (.ok a s) (.ok a t)
  /-- Both have failed. -/
  | error {s : σ} {t : τ} (e : ε) (h : R s t) : Agree R (.error e s) (.error e t)

/-- From related states, one action comes to the same outcome as the other. -/
def Simulates (R : σ → τ → Prop) (x : EStateM ε σ α) (y : EStateM ε τ α) : Prop :=
  ∀ s t, R s t → Agree R (x s) (y t)

/-- The state in which an action ends, whether it succeeds or fails. -/
def stateAfter (action : EStateM ε σ α) (s : σ) : σ :=
  match action s with
  | .ok _ s' => s'
  | .error _ s' => s'

/-- What an action comes to, whatever becomes of the state. -/
def outcome (action : EStateM ε σ α) (s : σ) : Except ε α :=
  match action s with
  | .ok a _ => .ok a
  | .error e _ => .error e

/-- Whether an action succeeds. -/
def succeeds (action : EStateM ε σ α) (s : σ) : Bool :=
  match action s with
  | .ok _ _ => true
  | .error _ _ => false

theorem exists_of_succeeds {x : EStateM ε σ α} (h : succeeds x s = true) :
    ∃ a s', x s = .ok a s' := by
  rw [succeeds] at h
  cases hx : x s with
  | ok a s' => exact ⟨a, s', rfl⟩
  | error e s' =>
    rw [hx] at h
    cases h

theorem exists_of_fails {x : EStateM ε σ α} (h : succeeds x s = false) :
    ∃ e s', x s = .error e s' := by
  rw [succeeds] at h
  cases hx : x s with
  | ok a s' =>
    rw [hx] at h
    cases h
  | error e s' => exact ⟨e, s', rfl⟩

/-- The states in which agreeing actions end are related. -/
theorem Agree.stateAfter {x : EStateM ε σ α} {y : EStateM ε τ α} (h : Agree R (x s) (y t)) :
    R (stateAfter x s) (stateAfter y t) := by
  rw [Dalvik.stateAfter, Dalvik.stateAfter]
  generalize x s = r at h
  generalize y t = r' at h
  cases h with
  | ok a h => exact h
  | error e h => exact h

/-- Actions that agree come to the same. -/
theorem Agree.outcome_eq {x : EStateM ε σ α} {y : EStateM ε τ α} (h : Agree R (x s) (y t)) :
    outcome x s = outcome y t := by
  rw [outcome, outcome]
  generalize x s = r at h
  generalize y t = r' at h
  cases h with
  | ok a _ => rfl
  | error e _ => rfl

/-- An action that agrees with one that succeeds gives the same. -/
theorem Agree.exists_of_ok {r : EStateM.Result ε σ α} {r' : EStateM.Result ε τ α} {a : α}
    (h : Agree R r r') (hr : r = .ok a s) : ∃ t, r' = .ok a t ∧ R s t := by
  cases h with
  | ok b h =>
    cases hr
    exact ⟨_, rfl, h⟩
  | error e h => cases hr

/-- Actions in a row agree if each of them does. -/
theorem Agree.bind {x : EStateM ε σ α} {y : EStateM ε τ α} {f : α → EStateM ε σ β}
    {g : α → EStateM ε τ β} (h : Agree R (x s) (y t)) (hrest : ∀ a, Simulates R (f a) (g a)) :
    Agree R ((x >>= f) s) ((y >>= g) t) := by
  generalize hx : x s = r at h
  generalize hy : y t = r' at h
  cases h with
  | ok a h =>
    rw [run_bind_of_ok hx, run_bind_of_ok hy]
    exact hrest a _ _ h
  | error e h =>
    rw [run_bind_of_error hx, run_bind_of_error hy]
    exact .error e h

/-- Actions still agree if nothing of what they give is kept. -/
theorem Agree.discard {x : EStateM ε σ α} {y : EStateM ε τ α} (h : Agree R (x s) (y t)) :
    Agree R ((discard x : EStateM ε σ PUnit) s) ((discard y : EStateM ε τ PUnit) t) := by
  change Agree R (EStateM.map (fun _ => PUnit.unit) x s) (EStateM.map (fun _ => PUnit.unit) y t)
  rw [EStateM.map, EStateM.map]
  generalize x s = r at h
  generalize y t = r' at h
  cases h with
  | ok a h => exact .ok _ h
  | error e h => exact .error e h

/-- Repeated actions agree if each of them does. -/
theorem simulates_forM {f : β → EStateM ε σ PUnit} {g : β → EStateM ε τ PUnit}
    (hfg : ∀ b, Simulates R (f b) (g b)) (bs : List β) : Simulates R (bs.forM f) (bs.forM g) := by
  induction bs with
  | nil => exact fun _ _ h => .ok _ h
  | cons b rest ih => exact fun s t h => (hfg b s t h).bind fun _ => ih

/-- If one action agrees with a second and this with a third, the first agrees with the third. -/
theorem Agree.trans {ρ : Type} {S : τ → ρ → Prop} {r : EStateM.Result ε σ α}
    {r' : EStateM.Result ε τ α} {r'' : EStateM.Result ε ρ α} (h : Agree R r r')
    (h' : Agree S r' r'') : Agree (fun s u => ∃ t, R s t ∧ S t u) r r'' := by
  cases h with
  | ok a h =>
    cases h' with
    | ok _ h' => exact .ok a ⟨_, h, h'⟩
  | error e h =>
    cases h' with
    | error _ h' => exact .error e ⟨_, h, h'⟩

/-- What a sequence of actions answers, errors included, and the state in which it ends. -/
def transcript (act : β → EStateM ε σ α) : List β → σ → List (Except ε α) × σ
  | [], s => ([], s)
  | b :: rest, s =>
    match act b s with
    | .ok a s' => (.ok a :: (transcript act rest s').1, (transcript act rest s').2)
    | .error e s' => (.error e :: (transcript act rest s').1, (transcript act rest s').2)

theorem transcript_cons (act : β → EStateM ε σ α) (b : β) (rest : List β) (s : σ) :
    transcript act (b :: rest) s =
      (outcome (act b) s :: (transcript act rest (stateAfter (act b) s)).1,
        (transcript act rest (stateAfter (act b) s)).2) := by
  rw [transcript, outcome, stateAfter]
  cases act b s <;> rfl

/-- If single actions agree, so do sequences of them. -/
theorem transcript_of_simulates {x : β → EStateM ε σ α} {y : β → EStateM ε τ α}
    (hxy : ∀ b, Simulates R (x b) (y b)) (bs : List β) (h : R s t) :
    (transcript x bs s).1 = (transcript y bs t).1 ∧
      R (transcript x bs s).2 (transcript y bs t).2 := by
  induction bs generalizing s t with
  | nil => exact ⟨rfl, h⟩
  | cons b rest ih =>
    have hstep := hxy b s t h
    rw [transcript, transcript]
    generalize x b s = r at hstep
    generalize y b t = r' at hstep
    cases hstep with
    | ok a h =>
      obtain ⟨hanswers, hend⟩ := ih h
      exact ⟨congrArg _ hanswers, hend⟩
    | error e h =>
      obtain ⟨hanswers, hend⟩ := ih h
      exact ⟨congrArg _ hanswers, hend⟩

end Actions

end Dalvik
