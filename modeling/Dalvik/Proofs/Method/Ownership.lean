import Dalvik.Proofs.Method.Meaning

/-!
# Going back and going forward

In a finished method the switch of a table is found by going back from the table
(`Method.switchAddress?`), in code with labels by going forward from the switch (`Code.Reaches`).
Going back, the nearest position at which any switch points decides; going forward, every switch counts.
The two agree if every switch reaches a table and no table is reached twice (`Method.finds_iff_reaches`),
since whatever points in between would reach the table as well.
-/

namespace Dalvik

namespace Method

variable {σ : Type} {m : Method} {switch table p : Nat} {i : Instruction Int32}

/-- What points at a position is a switch, and the address to which its target leads is covered by this
position. -/
theorem Spelled.pointsAt_iff {locate : σ → Option Nat} {j : Instruction σ}
    (h : m.Spelled (fun a t => ∃ q, Code.Covers m.instructions a q ∧ locate t = some q) switch i j)
    (hi : m.instructions[switch]? = some i) (hj : j.Valid) :
    m.PointsAt switch p ↔ ∃ t ∈ j.switchTarget?, locate t = some p := by
  obtain ⟨hshape, htargets⟩ := h
  have hpayload : j.isPayload = i.isPayload := by
    rw [← Instruction.isPayload_shape, hshape, Instruction.isPayload_shape]
  have hopcode : j.opcode = i.opcode := by
    rw [← Instruction.opcode_shape, hshape, Instruction.opcode_shape]
  -- the only target of a switch is counted from the switch
  have htarget : ∀ t ∈ j.switchTarget?, ∃ offset q, i.targets = [offset] ∧
      Code.Covers m.instructions (Code.address m.instructions switch + offset.toInt) q ∧
        locate t = some q := by
    intro t ht
    rw [Instruction.targets_of_switchTarget? ht] at htargets
    obtain ⟨offset, hoffset⟩ := List.length_eq_one_iff.1 htargets.length_eq
    rw [hoffset] at htargets
    obtain ⟨a, hleads, q, hcovers, hq⟩ := (List.forall₂_cons.1 htargets).1
    have hno : i.isPayload = false := hpayload ▸ Instruction.isPayload_of_switchTarget? ht
    cases hleads with
    | branch => exact ⟨offset, q, hoffset, hcovers, hq⟩
    | table payload => cases hno.symm.trans payload
    | orphan payload => cases hno.symm.trans payload
  constructor
  · rintro ⟨i', offset, hi', -, hswitch, hoffset, hcovers⟩
    obtain rfl := Option.some.inj (hi.symm.trans hi')
    obtain ⟨t, ht⟩ := Instruction.exists_switchTarget? hj (hopcode ▸ hswitch)
    obtain ⟨offset', q, htargets', hcovers', hq⟩ := htarget t ht
    rw [htargets', List.head?_cons] at hoffset
    obtain rfl := Option.some.inj hoffset
    exact ⟨t, ht, hq.trans (congrArg some (hcovers'.unique hcovers))⟩
  · rintro ⟨t, ht, hp⟩
    obtain ⟨offset, q, htargets', hcovers, hq⟩ := htarget t ht
    obtain rfl := Option.some.inj (hq.symm.trans hp)
    have hswitch : j.opcode.isSwitch = true := by
      obtain ⟨o, a, rfl, ho⟩ := Instruction.switchTarget?_eq_some_iff.1 ht
      exact ho
    exact ⟨i, offset, hi, hpayload ▸ Instruction.isPayload_of_switchTarget? ht, hopcode ▸ hswitch,
      by rw [htargets', List.head?_cons], hcovers⟩

section

variable {code : List (Instruction σ)} {locate : Nat → σ → Option Nat}
  (hpoints : ∀ switch p, m.PointsAt switch p ↔
    ∃ j ∈ code[switch]?, ∃ t ∈ j.switchTarget?, locate switch t = some p)

include hpoints

/-- No switch points at two positions. -/
theorem pointsAt_unique {q : Nat} (h : m.PointsAt switch p) (h' : m.PointsAt switch q) : p = q := by
  obtain ⟨j, hj, t, ht, hp⟩ := (hpoints switch p).1 h
  obtain ⟨j', hj', t', ht', hq⟩ := (hpoints switch q).1 h'
  obtain rfl := Option.mem_unique hj hj'
  obtain rfl := Option.mem_unique ht ht'
  exact Option.some.inj (hp.symm.trans hq)

variable (hshape : code.map Instruction.shape = m.instructions.map Instruction.shape)

include hshape

/-- A switch points in front of the table that it reaches, with nothing but `nop`s in between. -/
theorem exists_pointsAt_of_reaches (h : Code.Reaches locate code switch table) :
    ∃ p, m.PointsAt switch p ∧ Code.NopsUpTo m.instructions p table := by
  obtain ⟨j, hj, t, ht, target, htarget, ⟨hle, hnops⟩, -⟩ := h
  refine ⟨target, (hpoints switch target).2 ⟨j, hj, t, ht, htarget⟩, hle, fun k hk hstart => ?_⟩
  exact Code.getElem?_eq_nop_of_shape_eq hshape.symm (hnops k hk hstart)

variable (htotal : ∀ switch, ∀ j ∈ code[switch]?, ∀ t ∈ j.switchTarget?,
    ∃ table, Code.Reaches locate code switch table)

include htotal

/-- If every switch reaches a table, then one that points in front of a table, with nothing but `nop`s in
between, reaches this table. -/
theorem reaches_of_pointsAt {payload : Payload Int32}
    (htable : m.instructions[table]? = some (.data payload)) (h : m.PointsAt switch p)
    (hrun : Code.NopsUpTo m.instructions p table) : Code.Reaches locate code switch table := by
  obtain ⟨j, hj, t, ht, -⟩ := (hpoints switch p).1 h
  obtain ⟨table', hreaches⟩ := htotal switch j hj t ht
  obtain ⟨q, hq, hrun'⟩ := exists_pointsAt_of_reaches hpoints hshape hreaches
  obtain rfl := pointsAt_unique hpoints h hq
  have hstop : m.instructions[table]? ≠ some .nop := by
    rw [htable]
    simp [Instruction.nop]
  have hstop' : m.instructions[table']? ≠ some .nop := by
    intro hnop
    exact hreaches.not_nop (Code.getElem?_eq_nop_of_shape_eq hshape hnop)
  rwa [hrun.unique hstop hrun' hstop']

/-- If moreover no table is reached twice, going back from a table leads to the switch that reaches
it. -/
theorem finds_iff_reaches (honce : ∀ table switch switch', Code.Reaches locate code switch table →
      Code.Reaches locate code switch' table → switch = switch')
    {payload : Payload Int32} (htable : m.instructions[table]? = some (.data payload)) :
    m.Finds table switch ↔ Code.Reaches locate code switch table := by
  constructor
  · rintro ⟨p, hrun, hpoint, -⟩
    exact reaches_of_pointsAt hpoints hshape htotal htable hpoint hrun
  · intro hreaches
    obtain ⟨p, hpoint, hrun⟩ := exists_pointsAt_of_reaches hpoints hshape hreaches
    -- another switch that points there or behind would reach the table, too
    have honly : ∀ q ≤ table, p ≤ q → ∀ other, m.PointsAt other q → other = switch := by
      intro q hq hpq other hother
      refine honce table other switch ?_ hreaches
      exact reaches_of_pointsAt hpoints hshape htotal htable hother
        ⟨hq, fun k hk hqk => hrun.2 k hk (Nat.le_trans hpq hqk)⟩
    refine ⟨p, hrun, hpoint, fun other hlt hother => ?_, fun q hq hlt other hother => ?_⟩
    · exact absurd (honly p hrun.1 (Nat.le_refl p) other hother) (Nat.ne_of_lt hlt)
    · obtain rfl := honly q hq (Nat.le_of_lt hlt) other hother
      exact absurd (pointsAt_unique hpoints hpoint hother) (Nat.ne_of_lt hlt)

end

end Method

end Dalvik
