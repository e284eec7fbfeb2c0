import Dalvik.Proofs.Relaxation.Settling
import Dalvik.Proofs.Instruction.Formats

/-!
# Relaxation comes to an end

A sweep is a loop that goes on as long as its cursor has not passed the end of the listing
(`Bound.Cursor.Runs`).  It adds and removes instructions while it goes, but no round ever makes the
distance from the cursor to the end longer: there are as many rounds as there were instructions.

Relaxation is a loop of sweeps that goes on until one of them changes nothing (`Bound.Sweeps`).  The
first sweep leaves the listing tidy, the last one changes nothing, and each one in between makes some
jump longer, which can happen twice to a short jump and once to one of medium length
(`Bound.exists_sweeps`).
-/

namespace Dalvik

namespace Bound

/-! ### One sweep -/

/-- Where a sweep stands. -/
structure Cursor where
  /-- The listing as repaired so far. -/
  bound : Bound
  /-- The position to look at next. -/
  index : Nat
  /-- Whether anything has been repaired. -/
  changed : Bool

namespace Cursor

/-- The cursor after one round of the loop. -/
def advance (c : Cursor) : Cursor :=
  let action := c.bound.repairAt c.bound.listing.survey c.index
  let (repaired, next) := c.bound.repair c.index action
  ⟨repaired, next, c.changed || action ≠ .keep⟩

/-- From `c` on, the loop ends after a number of rounds at the given cursor.  It goes on as long as the
cursor stands at an instruction. -/
inductive Runs : Cursor → Nat → Cursor → Prop
  /-- The cursor has passed the last instruction. -/
  | stop {c : Cursor} (h : c.bound.listing.size ≤ c.index) : Runs c 0 c
  /-- There is an instruction to look at. -/
  | round {c c' : Cursor} {n : Nat} (h : c.index < c.bound.listing.size)
      (rest : Runs c.advance n c') : Runs c (n + 1) c'

/-- A loop ends in one way only. -/
theorem Runs.unique {c c₁ c₂ : Cursor} {n₁ n₂ : Nat} (h₁ : c.Runs n₁ c₁) (h₂ : c.Runs n₂ c₂) :
    n₁ = n₂ ∧ c₁ = c₂ := by
  induction h₁ generalizing n₂ with
  | stop hend =>
    cases h₂ with
    | stop => exact ⟨rfl, rfl⟩
    | round hlt => exact absurd hlt (Nat.not_lt_of_ge hend)
  | round hlt _ ih =>
    cases h₂ with
    | stop hend => exact absurd hlt (Nat.not_lt_of_ge hend)
    | round _ hrest =>
      obtain ⟨rfl, rfl⟩ := ih hrest
      exact ⟨rfl, rfl⟩

end Cursor

variable {b b' : Bound} {draft : Nat}

/-- Whatever the cursor meets on its way, the loop looks at every instruction that is left, once, and
does to the listing what `sweepFrom` says. -/
theorem runs_sweepFrom (left : Nat) {index : Nat} (changed : Bool)
    (hsize : b.listing.size = index + left) :
    (Cursor.mk b index changed).Runs left
      ⟨(b.sweepFrom b.listing.survey left index).1,
        (b.sweepFrom b.listing.survey left index).1.listing.size,
        changed || (b.sweepFrom b.listing.survey left index).2⟩ := by
  induction left generalizing b index changed with
  | zero =>
    rw [Nat.add_zero] at hsize
    rw [sweepFrom, hsize, Bool.or_false]
    exact .stop (Nat.le_of_eq hsize)
  | succ left ih =>
    have hindex : index < b.listing.size := by omega
    refine .round hindex ?_
    -- a repair leaves one instruction fewer to look at
    have hleft := (b.diagnosis hindex).size_repair hsize
    have hrest := ih (changed || b.repairAt b.listing.survey index ≠ .keep) hleft
    by_cases hkeep : b.repairAt b.listing.survey index = .keep
    · rw [sweepFrom_of_keep hkeep]
      simpa [Cursor.advance, hkeep, repair] using hrest
    · rw [sweepFrom_of_ne_keep hkeep]
      simpa [Cursor.advance, hkeep] using hrest

/-- A sweep takes as many rounds as there are instructions. -/
theorem runs_sweep (b : Bound) : (Cursor.mk b 0 false).Runs b.listing.size
    ⟨b.sweep.1, b.sweep.1.listing.size, b.sweep.2⟩ := by
  have hruns := runs_sweepFrom (b := b) b.listing.size false (Nat.zero_add b.listing.size).symm
  rwa [Bool.false_or] at hruns

/-! ### All sweeps -/

/-- Sweeping `b` until a sweep changes nothing takes a number of sweeps and ends in the given
listing. -/
inductive Sweeps : Bound → Nat → Bound → Prop
  /-- A sweep that changes nothing is the last one. -/
  | last {b : Bound} {c : Cursor} {rounds : Nat} (h : (Cursor.mk b 0 false).Runs rounds c)
      (hsame : c.changed = false) : Sweeps b 1 c.bound
  /-- After a sweep that changes something comes another one. -/
  | again {b b' : Bound} {c : Cursor} {rounds n : Nat} (h : (Cursor.mk b 0 false).Runs rounds c)
      (hchanged : c.changed = true) (rest : Sweeps c.bound n b') : Sweeps b (n + 1) b'

theorem sweeps_of_sweep_eq_false (h : b.sweep.2 = false) : Sweeps b 1 b.sweep.1 :=
  .last b.runs_sweep h

theorem sweeps_of_sweep_eq_true {n : Nat} (h : b.sweep.2 = true) (rest : Sweeps b.sweep.1 n b') :
    Sweeps b (n + 1) b' :=
  .again b.runs_sweep h rest

/-- Sweeping ends in one way only. -/
theorem Sweeps.unique {b₁ b₂ : Bound} {n₁ n₂ : Nat} (h₁ : Sweeps b n₁ b₁) (h₂ : Sweeps b n₂ b₂) :
    n₁ = n₂ ∧ b₁ = b₂ := by
  induction h₁ generalizing n₂ with
  | last hruns hsame =>
    cases h₂ with
    | last hruns' _ =>
      obtain ⟨-, rfl⟩ := hruns.unique hruns'
      exact ⟨rfl, rfl⟩
    | again hruns' hchanged' _ =>
      obtain ⟨-, rfl⟩ := hruns.unique hruns'
      rw [hsame] at hchanged'
      cases hchanged'
  | again hruns hchanged _ ih =>
    cases h₂ with
    | last hruns' hsame' =>
      obtain ⟨-, rfl⟩ := hruns.unique hruns'
      rw [hchanged] at hsame'
      cases hsame'
    | again hruns' _ hrest' =>
      obtain ⟨-, rfl⟩ := hruns.unique hruns'
      obtain ⟨rfl, rfl⟩ := ih hrest'
      exact ⟨rfl, rfl⟩

/-- A tidy listing takes no more sweeps than its jumps can get longer, and one to see that nothing is
left to do. -/
theorem exists_sweeps_of_tidy (hb : b.Sound draft) (htidy : b.Tidy) :
    ∃ n b', n ≤ b.slack + 1 ∧ Sweeps b n b' := by
  induction hslack : b.slack using Nat.strongRecOn generalizing b with
  | ind slack ih =>
    cases hchanged : b.sweep.2 with
    | false => exact ⟨1, b.sweep.1, Nat.le_add_left 1 slack, sweeps_of_sweep_eq_false hchanged⟩
    | true =>
      -- in a tidy listing a sweep can only begin by making a jump longer
      have hless : b.sweep.1.slack < b.slack :=
        slack_sweepFrom_lt _ hb.ready htidy (Nat.zero_add _).symm hchanged
      rw [hslack] at hless
      obtain ⟨hchain, htidy'⟩ := mends_sweep hb.ready
      obtain ⟨n, b', hn, hsweeps⟩ := ih _ hless (sound_of_mends hchain hb) htidy' rfl
      exact ⟨n + 1, b', by omega, sweeps_of_sweep_eq_true hchanged hsweeps⟩

/-- Any listing takes one sweep more, to become tidy. -/
theorem exists_sweeps (hb : b.Sound draft) : ∃ n b', n ≤ b.slack + 2 ∧ Sweeps b n b' := by
  cases hchanged : b.sweep.2 with
  | false => exact ⟨1, b.sweep.1, by omega, sweeps_of_sweep_eq_false hchanged⟩
  | true =>
    obtain ⟨hchain, htidy⟩ := mends_sweep hb.ready
    obtain ⟨n, b', hn, hsweeps⟩ := exists_sweeps_of_tidy (sound_of_mends hchain hb) htidy
    have hslack := slack_le_of_mends hchain
    exact ⟨n + 1, b', by omega, sweeps_of_sweep_eq_true hchanged hsweeps⟩

/-- If sweeping ends within a limit, that is where the limited number of sweeps leads. -/
theorem Sweeps.settleWithin_eq {n limit : Nat} (h : Sweeps b n b') (hlimit : n ≤ limit) :
    b.settleWithin limit = b' := by
  induction h generalizing limit with
  | @last b c rounds hruns hsame =>
    obtain ⟨limit, rfl⟩ := Nat.exists_eq_add_of_le' hlimit
    obtain ⟨-, rfl⟩ := hruns.unique b.runs_sweep
    have hsame' : b.sweep.2 = false := hsame
    rw [settleWithin_succ, hsame', if_neg Bool.false_ne_true]
  | @again b b' c rounds n hruns hchanged _ ih =>
    obtain ⟨limit, rfl⟩ := Nat.exists_eq_add_of_le' (Nat.le_trans (Nat.le_add_left 1 n) hlimit)
    obtain ⟨-, rfl⟩ := hruns.unique b.runs_sweep
    rw [settleWithin_succ, if_pos hchanged]
    exact ih (by omega)

/-- In a listing of valid instructions, jumps are told by their opcodes. -/
theorem countJumps_eq (h : ∀ i ∈ b.listing.instructions, i.Valid) (r : Reach) :
    b.countJumps r = b.listing.instructions.countP (·.opcode = r.goto) := by
  refine List.countP_congr fun i hi => ?_
  constructor
  · intro hjump
    split at hjump
    · next o r' label =>
      rw [Instruction.eq_goto_of_valid (h _ hi), of_decide_eq_true hjump]
      exact decide_eq_true rfl
    · cases hjump
  · intro hopcode
    obtain ⟨label, rfl⟩ := Instruction.eq_goto_of_opcode (h _ hi) (of_decide_eq_true hopcode)
    exact decide_eq_true rfl

end Bound

end Dalvik
