import Mathlib

/-! # Binary64 arithmetic of the amounts `parse_git_output` adds up

Python's `float` is an IEEE 754 double. `parse_git_output` reads amounts that are never
negative, multiplies them by a power of two and adds them up, so a double here is not
negative: `fin mag` is the double `mag / 2^1074`, and `inf` is infinity. Each operation rounds
its exact result to the nearest double, ties to even, at the unit `2^p` of the result's binade;
a result that rounds to `2^1024` or more is infinity.
-/

namespace GitCdn

/-- A double that is not negative: `fin mag` is `mag / 2^1074`. -/
inductive Float64 where
  | fin (mag : Nat)
  | inf
  deriving Repr, DecidableEq

namespace Float64

/-- The number of bits of `n`, counted within `fuel` halvings. -/
def bits : Nat → Nat → Nat
  | 0, _ => 0
  | fuel + 1, n => if n = 0 then 0 else bits fuel (n / 2) + 1

/-- `a / d` to the nearest whole number, ties to even. -/
def rne (a d : Nat) : Nat :=
  if 2 * (a % d) < d then a / d else if d < 2 * (a % d) then a / d + 1
  else if a / d % 2 = 0 then a / d else a / d + 1

/-- The unit exponent of the binade of `a / d`: the least `p` with `a / d < 2^(p + 53)`, so a
significand at that unit has 53 bits at most. -/
def ulpExp (a d : Nat) : Nat := bits (a / d) (a / d) - 53

/-- The double nearest `a / (d * 2^1074)`. -/
def round (a d : Nat) : Float64 :=
  if rne a (d * 2 ^ ulpExp a d) * 2 ^ ulpExp a d < 2 ^ 2098 then
    fin (rne a (d * 2 ^ ulpExp a d) * 2 ^ ulpExp a d)
  else inf

/-- The double of a whole number `n`, exact for `n ≤ 2^53`. -/
def ofNat (n : Nat) : Float64 := fin (n * 2 ^ 1074)

/-- `x + y`. -/
def add : Float64 → Float64 → Float64
  | fin a, fin b => round (a + b) 1
  | _, _ => inf

/-- `x * c` for a whole number `c` that is itself a double, as Python multiplies a `float` by
an `int`. -/
def mulNat (x : Float64) (c : Nat) : Float64 :=
  match x with
  | fin a => round (a * c) 1
  | inf => inf

theorem bits_lt_iff : ∀ (fuel n : Nat), n ≤ fuel → ∀ k, n < 2 ^ k ↔ bits fuel n ≤ k
  | 0, n, hn, k => by simp [bits, show n = 0 by omega, Nat.pos_pow_of_pos]
  | fuel + 1, n, hn, k => by
    by_cases h0 : n = 0
    · simp [bits, h0, Nat.pos_pow_of_pos]
    rw [bits, if_neg h0]
    cases k with
    | zero => simp; omega
    | succ k =>
      rw [Nat.pow_succ, ← Nat.div_lt_iff_lt_mul (by decide), bits_lt_iff fuel (n / 2) (by omega) k]
      omega

/-- A value of at most 53 significant bits is its own rounding. -/
theorem round_exact {m q d : Nat} (hm : m < 2 ^ 53) (hd : 0 < d) (hlt : m * 2 ^ q < 2 ^ 2098) :
    round (m * 2 ^ q * d) d = fin (m * 2 ^ q) := by
  have hdiv : m * 2 ^ q * d / d = m * 2 ^ q := Nat.mul_div_cancel _ hd
  -- the unit of the binade is at most `2^q`, so it divides the value
  have hp : ulpExp (m * 2 ^ q * d) d ≤ q := by
    have := (bits_lt_iff _ _ le_rfl (q + 53)).mp (by
      calc m * 2 ^ q < 2 ^ 53 * 2 ^ q := Nat.mul_lt_mul_of_pos_right hm (Nat.two_pow_pos q)
        _ = 2 ^ (q + 53) := by rw [← Nat.pow_add, Nat.add_comm])
    unfold ulpExp; rw [hdiv]; omega
  unfold round
  generalize ulpExp (m * 2 ^ q * d) d = p at hp ⊢
  have hdvd : 2 ^ p ∣ m * 2 ^ q := Nat.dvd_trans (Nat.pow_dvd_pow 2 hp) (Nat.dvd_mul_left _ m)
  have hrne : rne (m * 2 ^ q * d) (d * 2 ^ p) = m * 2 ^ q / 2 ^ p := by
    rw [Nat.mul_comm (m * 2 ^ q) d, rne, Nat.mul_mod_mul_left, Nat.mod_eq_zero_of_dvd hdvd,
      Nat.mul_div_mul_left _ _ hd, if_pos (by simp [Nat.pos_pow_of_pos, hd])]
  rw [hrne, Nat.div_mul_cancel hdvd, if_pos hlt]

set_option exponentiation.threshold 2100 in
theorem round_ofNat {n d : Nat} (hn : n ≤ 2 ^ 53) (hd : 0 < d) :
    round (n * 2 ^ 1074 * d) d = ofNat n := by
  unfold ofNat
  rcases Nat.lt_or_ge n (2 ^ 53) with h | h
  · have hlt : n * 2 ^ 1074 < 2 ^ 1024 * 2 ^ 1074 := Nat.mul_lt_mul_of_pos_right
      (Nat.lt_trans h (Nat.pow_lt_pow_right (by decide) (by decide))) (Nat.two_pow_pos 1074)
    rw [← Nat.pow_add] at hlt
    exact @round_exact n 1074 d h hd hlt
  · obtain rfl : n = 2 ^ 53 := by omega
    have := @round_exact (2 ^ 52) 1075 d (Nat.pow_lt_pow_right (by decide) (by decide)) hd
      (by rw [← Nat.pow_add]; exact Nat.pow_lt_pow_right (by decide) (by decide))
    rwa [← Nat.pow_add, show 52 + 1075 = 53 + 1074 from rfl, Nat.pow_add] at this

theorem add_ofNat {a b : Nat} (h : a + b ≤ 2 ^ 53) : (ofNat a).add (ofNat b) = ofNat (a + b) := by
  have := @round_ofNat (a + b) 1 h (by decide)
  rw [Nat.mul_one, Nat.add_mul] at this
  exact this

theorem mulNat_ofNat {a c : Nat} (h : a * c ≤ 2 ^ 53) : (ofNat a).mulNat c = ofNat (a * c) := by
  have := @round_ofNat (a * c) 1 h (by decide)
  rw [Nat.mul_one, Nat.mul_right_comm] at this
  exact this

end Float64

end GitCdn
