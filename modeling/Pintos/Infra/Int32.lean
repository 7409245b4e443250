import Mathlib.Algebra.Group.Int.Defs
import Mathlib.Algebra.Group.Nat.Defs

/-!
# 32 bit の符号付き整数

C の `int` の演算を、数学の整数で計算してから 32 bit に折り返す形で書く。
GCC の 32 bit 環境の値の範囲と同じで、溢れは 2 の補数で折り返す。
-/

namespace Pintos.Infra

/-- `x` を `[-2^31, 2^31)` に折り返した値。 -/
def int32 (x : Int) : Int := x.bmod (2 ^ 32)

theorem int32_of_range {x : Int} (h : -2 ^ 31 ≤ x ∧ x < 2 ^ 31) : int32 x = x := by
  unfold int32
  rw [Int.bmod_def]
  split <;> omega

theorem int32_of_ge {x : Int} (h : 2 ^ 31 ≤ x ∧ x < 2 ^ 31 + 2 ^ 32) : int32 x = x - 2 ^ 32 := by
  unfold int32
  rw [Int.bmod_def]
  split <;> omega

theorem int32_of_lt_neg {x : Int} (h : -2 ^ 31 - 2 ^ 32 ≤ x ∧ x < -2 ^ 31) :
    int32 x = x + 2 ^ 32 := by
  unfold int32
  rw [Int.bmod_def]
  split <;> omega

theorem int32_lt (x : Int) : int32 x < 2 ^ 31 := by
  unfold int32
  rw [Int.bmod_def]
  omega

end Pintos.Infra
