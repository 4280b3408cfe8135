import Mathlib.Algebra.Group.Nat.Defs
import Mathlib.Data.Nat.Basic

/-!
# Whole numbers as doubles

A double has a significand of 53 bits, so of the whole numbers beyond `2 ^ 53` it
holds only some.  A sum is the nearest of those it holds, and of two that are
equally near the one with the even significand.
-/

namespace OrcState.Foundation.Double

def Exact (n : Nat) : Prop := ∃ m q, m < 2 ^ 53 ∧ n = m * 2 ^ q

def unit (n : Nat) : Nat := 2 ^ (n.log2 - 52)

def round (n : Nat) : Nat :=
  let down := n / unit n
  let rest := n % unit n
  if 2 * rest < unit n ∨ 2 * rest = unit n ∧ down % 2 = 0 then down * unit n
  else (down + 1) * unit n

theorem unit_pos (n : Nat) : 0 < unit n := Nat.two_pow_pos _

theorem log2_le {n d : Nat} (h : n ≤ d) : n.log2 ≤ d.log2 := by
  by_cases hn : n = 0
  · simp [hn]
  · have hd : d ≠ 0 := by omega
    exact (Nat.le_log2 hd).mpr (Nat.le_trans (Nat.log2_self_le hn) h)

theorem Exact.unit_dvd {n d : Nat} (h : Exact d) (hlog : n.log2 ≤ d.log2) :
    unit n ∣ d := by
  obtain ⟨m, q, hm, rfl⟩ := h
  by_cases hd : m * 2 ^ q = 0
  · simp [hd]
  refine Nat.dvd_trans (Nat.pow_dvd_pow 2 ?_) (Nat.dvd_mul_left (2 ^ q) m)
  have hbound : m * 2 ^ q < 2 ^ (53 + q) := by
    rw [Nat.pow_add]
    exact Nat.mul_lt_mul_of_pos_right hm (Nat.two_pow_pos q)
  have hlast : (m * 2 ^ q).log2 < 53 + q := (Nat.log2_lt hd).mpr hbound
  omega

theorem round_of_dvd {n : Nat} (h : unit n ∣ n) : round n = n := by
  have hrest : n % unit n = 0 := Nat.mod_eq_zero_of_dvd h
  have hhalf : 2 * 0 < unit n := unit_pos n
  simp only [round, hrest, hhalf, true_or, if_true]
  exact Nat.div_mul_cancel h

theorem round_of_exact {n : Nat} (h : Exact n) : round n = n :=
  round_of_dvd (h.unit_dvd (Nat.le_refl _))

theorem exact_of_lt {n : Nat} (h : n < 2 ^ 53) : Exact n := ⟨n, 0, h, by simp⟩

/-- What a double holds is not passed by rounding a smaller number. -/
theorem round_le {n d : Nat} (h : Exact d) (hle : n ≤ d) : round n ≤ d := by
  obtain ⟨k, rfl⟩ := h.unit_dvd (log2_le hle)
  by_cases hrest : n % unit n = 0
  · rw [round_of_dvd (Nat.dvd_of_mod_eq_zero hrest)]
    exact hle
  have hsplit := Nat.div_add_mod n (unit n)
  have hbelow : unit n * (n / unit n) < unit n * k := by omega
  have hdown : n / unit n + 1 ≤ k := Nat.lt_of_mul_lt_mul_left hbelow
  have hup : (n / unit n + 1) * unit n ≤ unit n * k := by
    rw [Nat.mul_comm]
    exact Nat.mul_le_mul_left _ hdown
  simp only [round]
  split
  · rw [Nat.mul_comm]
    exact Nat.le_of_lt hbelow
  · exact hup

/-- What a double holds is not passed by rounding a larger number. -/
theorem le_round {n d : Nat} (h : Exact d) (hle : d ≤ n) : d ≤ round n := by
  have hdown : n / unit n * unit n ≤ round n := by
    simp only [round]
    split
    · exact Nat.le_refl _
    · exact Nat.mul_le_mul_right _ (Nat.le_succ _)
  refine Nat.le_trans ?_ hdown
  by_contra hlt
  rw [Nat.not_le] at hlt
  have hn : n ≠ 0 := by
    rintro rfl
    omega
  -- The leading bit of `n` is a multiple of the unit, and `d` is above it.
  have hlead : unit n ∣ 2 ^ n.log2 := Nat.pow_dvd_pow 2 (by omega)
  have hlog : n.log2 ≤ d.log2 := by
    refine (Nat.le_log2 (by omega)).mpr (Nat.le_trans ?_ (Nat.le_of_lt hlt))
    obtain ⟨k, hk⟩ := hlead
    rw [hk, Nat.mul_comm]
    refine Nat.mul_le_mul_right _ ((Nat.le_div_iff_mul_le (unit_pos n)).mpr ?_)
    rw [Nat.mul_comm, ← hk]
    exact Nat.log2_self_le hn
  obtain ⟨k, rfl⟩ := h.unit_dvd hlog
  have hk : k ≤ n / unit n :=
    (Nat.le_div_iff_mul_le (unit_pos n)).mpr (by rwa [Nat.mul_comm])
  have hback := Nat.mul_le_mul_right (unit n) hk
  rw [Nat.mul_comm (unit n) k] at hlt
  omega

theorem div_unit_lt (n : Nat) : n / unit n < 2 ^ 53 := by
  rw [Nat.div_lt_iff_lt_mul (unit_pos n), unit, ← Nat.pow_add]
  refine Nat.lt_of_lt_of_le Nat.lt_log2_self (Nat.pow_le_pow_right (by omega) ?_)
  omega

theorem exact_round (n : Nat) : Exact (round n) := by
  have hdown := div_unit_lt n
  simp only [round]
  split
  · exact ⟨_, _, hdown, rfl⟩
  by_cases hcarry : n / unit n + 1 < 2 ^ 53
  · exact ⟨_, _, hcarry, rfl⟩
  -- The significand overflows into the next power of two.
  · have hfull : n / unit n + 1 = 2 ^ 53 := by omega
    refine ⟨1, 53 + (n.log2 - 52), by omega, ?_⟩
    rw [hfull, unit, Nat.one_mul, Nat.pow_add]

structure Whole where
  value : Nat
  exact : Exact value
  deriving DecidableEq

def Whole.ofNat (n : Nat) (h : n < 2 ^ 53) : Whole := ⟨n, exact_of_lt h⟩

/-- `Math.max(a, b) + 1`. -/
def Whole.afterBoth (a b : Whole) : Whole :=
  ⟨round (max a.value b.value + 1), exact_round _⟩

end OrcState.Foundation.Double
