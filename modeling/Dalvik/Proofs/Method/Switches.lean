import Dalvik.Proofs.Method.Lookup
import Dalvik.Proofs.Outline.Covering

/-!
# To which switch a table belongs

To find the switch of a table one goes back over `nop`s.  The nearest position at which any switch
points decides, and there the first such switch (`Method.switchAddress?_eq_some_iff`).  This holds for
every method, however little sense its code makes.
-/

namespace Dalvik

/-- What is found under a key in a list from which some elements are left out belongs to the first
element that gives an entry with this key. -/
theorem lookup_filterMap_eq_some_iff {α β : Type} {f : α → Option (Nat × β)} {xs : List α} {p : Nat}
    {b : β} : (xs.filterMap f).lookup p = some b ↔
      ∃ (k : Nat) (x : α), xs[k]? = some x ∧ f x = some (p, b) ∧
        ∀ j < k, ∀ y ∈ xs[j]?, ∀ c, f y ≠ some (p, c) := by
  induction xs with
  | nil =>
    constructor
    · intro h
      cases h
    · rintro ⟨k, x, hx, -⟩
      cases hx
  | cons x rest ih =>
    -- if the first element does not give an entry with the key, it does not matter
    have hskip : (∀ c, f x ≠ some (p, c)) → ((∃ (k : Nat) (y : α), (x :: rest)[k]? = some y ∧
        f y = some (p, b) ∧ ∀ j < k, ∀ z ∈ (x :: rest)[j]?, ∀ c, f z ≠ some (p, c)) ↔
        (rest.filterMap f).lookup p = some b) := by
      intro hx
      rw [ih]
      constructor
      · rintro ⟨k, y, hy, hfy, hbefore⟩
        cases k with
        | zero =>
          cases hy
          exact absurd hfy (hx b)
        | succ k =>
          exact ⟨k, y, hy, hfy, fun j hj z hz => hbefore (j + 1) (Nat.succ_lt_succ hj) z hz⟩
      · rintro ⟨k, y, hy, hfy, hbefore⟩
        refine ⟨k + 1, y, hy, hfy, fun j hj z hz => ?_⟩
        cases j with
        | zero =>
          cases hz
          exact hx
        | succ j => exact hbefore j (Nat.lt_of_succ_lt_succ hj) z hz
    cases hfx : f x with
    | none =>
      rw [List.filterMap_cons_none hfx, hskip fun c => by simp [hfx]]
    | some entry =>
      obtain ⟨q, c⟩ := entry
      rw [List.filterMap_cons_some hfx]
      by_cases hq : p = q
      · subst hq
        rw [List.lookup_cons_self, Option.some.injEq]
        constructor
        · rintro rfl
          exact ⟨0, x, rfl, hfx, fun j hj => absurd hj (Nat.not_lt_zero j)⟩
        · rintro ⟨k, y, hy, hfy, hbefore⟩
          cases k with
          | zero =>
            cases hy
            rw [hfx] at hfy
            exact (Prod.mk.inj (Option.some.inj hfy)).2
          | succ k => exact absurd hfx (hbefore 0 (Nat.succ_pos k) x rfl c)
      · have hne : ∀ c', f x ≠ some (p, c') := by
          intro c' hc'
          rw [hfx] at hc'
          exact hq (Prod.mk.inj (Option.some.inj hc')).1.symm
        rw [hskip hne, List.lookup_cons, beq_false_of_ne hq]

theorem lookup_filterMap_eq_none_iff {α β : Type} {f : α → Option (Nat × β)} {xs : List α} {p : Nat} :
    (xs.filterMap f).lookup p = none ↔ ∀ x ∈ xs, ∀ b, f x ≠ some (p, b) := by
  rw [List.lookup_eq_none_iff]
  constructor
  · intro h x hx b hfx
    have hne := h (p, b) (List.mem_filterMap.2 ⟨x, hx, hfx⟩)
    simp at hne
  · rintro h ⟨q, b⟩ hmem
    obtain ⟨x, hx, hfx⟩ := List.mem_filterMap.1 hmem
    rw [bne_iff_ne]
    rintro rfl
    exact h x hx b hfx

namespace Method

variable {m : Method} {switch table p a : Nat} {i : Instruction Int32}

/-- The instruction at `switch` is a switch, and its first target is within the instruction at position
`p`, or `p` is the end, and the target is there or behind. -/
def PointsAt (m : Method) (switch p : Nat) : Prop :=
  ∃ i t, m.instructions[switch]? = some i ∧ i.isPayload = false ∧ i.opcode.isSwitch = true ∧
    i.targets.head? = some t ∧
      Code.Covers m.instructions (Code.address m.instructions switch + t.toInt) p

/-- From `table` one gets to the switch at `switch` by going back over `nop`s: it points at the nearest
position at which any switch points, and is the first that does. -/
def Finds (m : Method) (table switch : Nat) : Prop :=
  ∃ p, Code.NopsUpTo m.instructions p table ∧ m.PointsAt switch p ∧
    (∀ other < switch, ¬ m.PointsAt other p) ∧
      ∀ q ≤ table, p < q → ∀ other, ¬ m.PointsAt other q

/-- What an instruction contributes to the list of positions at which switches point. -/
def switchEntry (m : Method) (entry : Nat × Instruction Int32) : Option (Nat × Nat) :=
  if entry.2.isPayload || !entry.2.opcode.isSwitch then none
  else do
    let offset ← entry.2.targets.head?
    let position ← (m.coverage.position (entry.1 + offset.toInt)).toOption
    return (position, entry.1)

theorem switchTargets_eq (m : Method) :
    m.switchTargets m.coverage = m.code.entries.toList.filterMap m.switchEntry := rfl

/-- An instruction contributes the position at which it points. -/
theorem switchEntry_eq_some_iff (hi : m.instructions[switch]? = some i) :
    m.switchEntry (Code.address m.instructions switch, i) = some (p, a) ↔
      m.PointsAt switch p ∧ Code.address m.instructions switch = a := by
  have hpoints : m.PointsAt switch p ↔ i.isPayload = false ∧ i.opcode.isSwitch = true ∧
      ∃ t, i.targets.head? = some t ∧
        Code.Covers m.instructions (Code.address m.instructions switch + t.toInt) p := by
    constructor
    · rintro ⟨i', t, hi', hno, hswitch, ht, hcovers⟩
      obtain rfl := Option.some.inj (hi.symm.trans hi')
      exact ⟨hno, hswitch, t, ht, hcovers⟩
    · rintro ⟨hno, hswitch, t, ht, hcovers⟩
      exact ⟨i, t, hi, hno, hswitch, ht, hcovers⟩
  rw [hpoints]
  unfold switchEntry
  dsimp only
  cases hno : i.isPayload with
  | true => simp
  | false =>
    cases hswitch : i.opcode.isSwitch with
    | false => simp
    | true =>
      cases ht : i.targets.head? with
      | none => simp
      | some t =>
        simp only [Bool.not_true, Bool.or_self, Bool.false_eq_true, if_false, Option.bind_eq_bind,
          Option.bind_some, Option.some.injEq, exists_eq_left', true_and]
        cases hposition : m.coverage.position (Code.address m.instructions switch + t.toInt) with
        | error e =>
          have hnone : ¬ Code.Covers m.instructions
              (Code.address m.instructions switch + t.toInt) p := by
            rw [← Coverage.position_eq_ok_iff]
            intro hok
            cases hposition.symm.trans hok
          simp [Except.toOption, hnone]
        | ok q =>
          have hcovers := Coverage.position_eq_ok_iff.1 hposition
          have hpq : Code.Covers m.instructions (Code.address m.instructions switch + t.toInt) p ↔
              q = p := ⟨hcovers.unique, fun h => h ▸ hcovers⟩
          simp [Except.toOption, hpq]

variable (hcode : m.code = .ofList m.instructions)

include hcode

theorem getElem?_entries {k : Nat} {entry : Nat × Instruction Int32} :
    m.code.entries.toList[k]? = some entry ↔
      m.instructions[k]? = some entry.2 ∧ Code.address m.instructions k = entry.1 := by
  rw [entries_eq hcode, List.getElem?_map, List.getElem?_zipIdx, Nat.zero_add]
  obtain ⟨a, i⟩ := entry
  cases m.instructions[k]? with
  | none => simp
  | some j => simp [and_comm]

/-- What is listed for a position is the address of the first switch that points there. -/
theorem lookup_switchTargets_eq_some_iff :
    (m.switchTargets m.coverage).lookup p = some a ↔ ∃ switch, m.PointsAt switch p ∧
      (∀ other < switch, ¬ m.PointsAt other p) ∧ Code.address m.instructions switch = a := by
  rw [switchTargets_eq, lookup_filterMap_eq_some_iff]
  constructor
  · rintro ⟨k, ⟨a', i⟩, hk, hentry, hbefore⟩
    obtain ⟨hi, rfl⟩ := (getElem?_entries hcode).1 hk
    obtain ⟨hpoints, ha⟩ := (switchEntry_eq_some_iff hi).1 hentry
    refine ⟨k, hpoints, fun j hj hpoints' => ?_, ha⟩
    obtain ⟨i', -, hi', -⟩ := id hpoints'
    exact hbefore j hj _ ((getElem?_entries hcode).2 ⟨hi', rfl⟩) _
      ((switchEntry_eq_some_iff hi').2 ⟨hpoints', rfl⟩)
  · rintro ⟨k, hpoints, hfirst, ha⟩
    obtain ⟨i, -, hi, -⟩ := id hpoints
    refine ⟨k, (Code.address m.instructions k, i), (getElem?_entries hcode).2 ⟨hi, rfl⟩,
      (switchEntry_eq_some_iff hi).2 ⟨hpoints, ha⟩, fun j hj entry hentry c hc => ?_⟩
    obtain ⟨a', i'⟩ := entry
    obtain ⟨hi', rfl⟩ := (getElem?_entries hcode).1 hentry
    exact hfirst j hj ((switchEntry_eq_some_iff hi').1 hc).1

theorem lookup_switchTargets_eq_none_iff :
    (m.switchTargets m.coverage).lookup p = none ↔ ∀ switch, ¬ m.PointsAt switch p := by
  rw [switchTargets_eq, lookup_filterMap_eq_none_iff]
  constructor
  · intro h switch hpoints
    obtain ⟨i, -, hi, -⟩ := id hpoints
    exact h _ (List.mem_of_getElem? ((getElem?_entries hcode).2 ⟨hi, rfl⟩)) _
      ((switchEntry_eq_some_iff hi).2 ⟨hpoints, rfl⟩)
  · intro h entry hentry b hb
    obtain ⟨k, hk⟩ := List.getElem?_of_mem hentry
    obtain ⟨a', i'⟩ := entry
    obtain ⟨hi', rfl⟩ := (getElem?_entries hcode).1 hk
    exact h k ((switchEntry_eq_some_iff hi').1 hb).1

omit hcode in
/-- A switch that points at the position itself is found there. -/
theorem finds_iff_of_pointsAt {other : Nat} (hother : m.PointsAt other table) :
    m.Finds table switch ↔ m.PointsAt switch table ∧ ∀ j < switch, ¬ m.PointsAt j table := by
  constructor
  · rintro ⟨p, ⟨hle, -⟩, hpoints, hfirst, hnearest⟩
    rcases Nat.lt_or_ge p table with hlt | hge
    · exact absurd hother (hnearest table (Nat.le_refl _) hlt other)
    · obtain rfl := Nat.le_antisymm hle hge
      exact ⟨hpoints, hfirst⟩
  · rintro ⟨hpoints, hfirst⟩
    refine ⟨table, Code.nopsUpTo_self _ _, hpoints, hfirst, fun q hq hlt => ?_⟩
    exact absurd hq (Nat.not_le_of_lt hlt)

omit hcode in
/-- If no switch points at the position itself, one goes back over a `nop`. -/
theorem finds_succ_iff (hnone : ∀ other, ¬ m.PointsAt other (table + 1)) :
    m.Finds (table + 1) switch ↔ m.instructions[table]? = some .nop ∧ m.Finds table switch := by
  constructor
  · rintro ⟨p, ⟨hle, hnops⟩, hpoints, hfirst, hnearest⟩
    have hp : p ≤ table := by
      rcases Nat.lt_or_ge table p with hlt | hge
      · obtain rfl : p = table + 1 := Nat.le_antisymm hle hlt
        exact absurd hpoints (hnone switch)
      · exact hge
    exact ⟨hnops table (Nat.lt_succ_self _) hp, p,
      ⟨hp, fun k hk => hnops k (Nat.lt_succ_of_lt hk)⟩, hpoints, hfirst,
      fun q hq => hnearest q (Nat.le_succ_of_le hq)⟩
  · rintro ⟨hnop, p, ⟨hle, hnops⟩, hpoints, hfirst, hnearest⟩
    refine ⟨p, ⟨Nat.le_succ_of_le hle, fun k hk hpk => ?_⟩, hpoints, hfirst, fun q hq hpq => ?_⟩
    · rcases Nat.lt_succ_iff_lt_or_eq.1 hk with hlt | rfl
      · exact hnops k hlt hpk
      · exact hnop
    · rcases Nat.lt_or_ge table q with hlt | hge
      · obtain rfl : q = table + 1 := Nat.le_antisymm hq hlt
        exact hnone
      · exact hnearest q hge hpq

/-- Going back from a position, one gets to the first of the switches that point at the nearest position
at which any of them points. -/
theorem switchAddress?_eq_some_iff :
    m.switchAddress? (m.switchTargets m.coverage) table = some a ↔
      ∃ switch, m.Finds table switch ∧ Code.address m.instructions switch = a := by
  induction table with
  | zero =>
    unfold switchAddress?
    cases hlookup : (m.switchTargets m.coverage).lookup 0 with
    | none =>
      have hnone := (lookup_switchTargets_eq_none_iff hcode).1 hlookup
      refine iff_of_false (by simp) ?_
      rintro ⟨switch, ⟨p, ⟨hle, -⟩, hpoints, -⟩, -⟩
      obtain rfl := Nat.le_zero.1 hle
      exact hnone switch hpoints
    | some a' =>
      obtain ⟨other, hother, -⟩ := (lookup_switchTargets_eq_some_iff hcode).1 hlookup
      simp only [finds_iff_of_pointsAt hother, and_assoc]
      rw [← hlookup, lookup_switchTargets_eq_some_iff hcode]
  | succ table ih =>
    unfold switchAddress?
    cases hlookup : (m.switchTargets m.coverage).lookup (table + 1) with
    | none =>
      simp only [finds_succ_iff ((lookup_switchTargets_eq_none_iff hcode).1 hlookup)]
      have hget : m.code.get? table = m.instructions[table]?.map fun i =>
          (Code.address m.instructions table, i) := by
        rw [Layout.get?, hcode, Layout.getElem?_entries_ofList]
      rw [hget]
      cases hi : m.instructions[table]? with
      | none => simp
      | some i =>
        simp only [Option.map_some, Option.some.injEq]
        by_cases hnop : i.isNop = true
        · rw [if_pos hnop, ih]
          simp [Instruction.isNop_iff.1 hnop]
        · rw [if_neg hnop]
          have hne : i ≠ .nop := fun h => hnop (Instruction.isNop_iff.2 h)
          simp [hne]
    | some a' =>
      obtain ⟨other, hother, -⟩ := (lookup_switchTargets_eq_some_iff hcode).1 hlookup
      simp only [finds_iff_of_pointsAt hother, and_assoc]
      rw [← hlookup, lookup_switchTargets_eq_some_iff hcode]

end Method

end Dalvik
