/-!
# Searching by halves

Where the numbers that pass a test come first, the first one that fails is found by looking at the
middle of what is left.
-/

namespace SourceModel

/-- The first number from `lo` on that fails a test, or `hi`, provided that no number behind one
that fails passes. Each round leaves one half. -/
def searchPoint (test : Nat → Bool) (lo hi : Nat) : Nat :=
  if lo < hi then
    let mid := (lo + hi) / 2
    if test mid then searchPoint test (mid + 1) hi else searchPoint test lo mid
  else lo
termination_by hi - lo

theorem searchPoint_eq {test : Nat → Bool} {lo hi point : Nat} (hlo : lo ≤ point)
    (hhi : point ≤ hi) (hfront : ∀ i, i < point → test i = true)
    (hbehind : ∀ i, point ≤ i → i < hi → test i = false) : searchPoint test lo hi = point := by
  induction lo, hi using searchPoint.induct test with
  | case1 lo hi hlt mid hmid ih =>
    have hpoint : mid < point := by
      refine Nat.lt_of_not_le fun hle => ?_
      rw [hbehind mid hle (by omega)] at hmid
      cases hmid
    rw [searchPoint, if_pos hlt, if_pos hmid]
    exact ih hpoint hhi hbehind
  | case2 lo hi hlt mid hmid ih =>
    have hpoint : point ≤ mid := Nat.le_of_not_lt fun hlt' => hmid (hfront mid hlt')
    rw [searchPoint, if_pos hlt, if_neg hmid]
    exact ih hlo hpoint fun i hi' hlt' => hbehind i hi' (by omega)
  | case3 lo hi hlt =>
    rw [searchPoint, if_neg hlt]
    omega

end SourceModel
