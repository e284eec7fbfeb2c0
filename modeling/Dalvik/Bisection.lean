/-!
# Bisection

Search in a sequence of yes-or-no answers that starts with "yes" and turns to "no" at most once.
-/

namespace Dalvik

/-- The first position from `low` on and before `high` at which `holds` fails, or `high` if there is
none, provided that it never holds again after it has failed. -/
def bisect (holds : Nat → Bool) (low high : Nat) : Nat :=
  if low < high then
    let middle := (low + high) / 2
    if holds middle then bisect holds (middle + 1) high else bisect holds low middle
  else low
termination_by high - low

/-- The answer lies within the bounds. -/
theorem bisect_mem (holds : Nat → Bool) {low high : Nat} (h : low ≤ high) :
    low ≤ bisect holds low high ∧ bisect holds low high ≤ high := by
  fun_induction bisect holds low high <;> grind

/-- If the answer is "yes" at first, it turns later. -/
theorem lt_bisect {holds : Nat → Bool} {low high : Nat} (h : low < high) (hlow : holds low = true) :
    low < bisect holds low high := by
  fun_induction bisect holds low high with
  | case1 low high hlt middle hmiddle ih =>
    have hle : middle + 1 ≤ high := by omega
    exact Nat.lt_of_lt_of_le (by omega) (bisect_mem holds hle).1
  | case2 low high hlt middle hmiddle ih =>
    have hne : low ≠ middle := fun heq => hmiddle (heq ▸ hlow)
    exact ih (by omega) hlow
  | case3 low high hge => exact absurd h hge

/-- Bisection finds where the answer turns. -/
theorem bisect_eq {holds : Nat → Bool} {low high n : Nat} (hlow : low ≤ n) (hhigh : n ≤ high)
    (hbefore : ∀ k, low ≤ k → k < n → holds k = true)
    (hbehind : ∀ k, n ≤ k → k < high → holds k = false) : bisect holds low high = n := by
  fun_induction bisect holds low high with
  | case1 low high hlt middle hmiddle ih =>
    -- the answer is still "yes" in the middle
    have hn : middle < n := Nat.lt_of_not_le fun hle => by
      rw [hbehind middle hle (by omega)] at hmiddle
      cases hmiddle
    exact ih (by omega) hhigh (fun k _ => hbefore k (by omega)) hbehind
  | case2 low high hlt middle hmiddle ih =>
    have hn : n ≤ middle := Nat.le_of_not_lt fun hlt =>
      hmiddle (hbefore middle (by omega) hlt)
    exact ih hlow hn hbefore fun k hk hlt => hbehind k hk (by omega)
  | case3 low high hge => omega

end Dalvik
