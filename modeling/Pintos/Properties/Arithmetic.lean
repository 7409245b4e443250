import Mathlib.Tactic.Linarith
import Mathlib.Tactic.Ring
import Pintos.Lib.Arithmetic

/-!
# 64 bit の除算の正しさ

除数が 32 bit を超える分岐は、上の 32 bit だけの除数 `c` で商を見積もる。`c` は `d` より小さいが
差は小さいので、見積もりは正しい商か、それより 1 大きい。
-/

namespace Pintos

variable {n d q : Nat}

theorem divl_of_lt (hd : 0 < d) (h : n < d * 2 ^ 32) : divl n d = some (n / d) := by
  refine if_neg ?_
  rintro (h0 | hbig)
  · omega
  · exact Nat.not_lt.mpr hbig (Nat.div_lt_of_lt_mul h)

/-! ## 正規化 -/

/-- `x` を `s` bit 左に寄せたもので、溢れていない。 -/
def Shifted (x₀ : Nat) (s : Nat × Nat) : Prop := s.2 = x₀ * 2 ^ s.1 ∧ s.2 < 2 ^ 32

/-- 上の `2w` bit のどれかが立っていれば、一段の後は上の `w` bit のどれかが立つ。 -/
theorem nlzStep_shifted (bound w : Nat) {x₀ : Nat} {s : Nat × Nat} (hbound : bound + 1 = 2 ^ (32 - w))
    (hw : w ≤ 32) (h : Shifted x₀ s) (hlow : 2 ^ (32 - w) ≤ s.2 * 2 ^ w) :
    Shifted x₀ (nlzStep bound w s) ∧ bound + 1 ≤ (nlzStep bound w s).2 ∧
      (nlzStep bound w s).1 ≤ s.1 + w := by
  obtain ⟨hx, hlt⟩ := h
  unfold nlzStep
  split
  · next hle =>
    have hfit : s.2 * 2 ^ w < 2 ^ 32 := by
      calc s.2 * 2 ^ w < 2 ^ (32 - w) * 2 ^ w :=
            Nat.mul_lt_mul_of_pos_right (by omega) (Nat.two_pow_pos w)
        _ = 2 ^ 32 := by rw [← Nat.pow_add, Nat.sub_add_cancel hw]
    refine ⟨⟨?_, Nat.mod_lt _ (by decide)⟩, ?_, Nat.le_refl _⟩
    · show s.2 * 2 ^ w % 2 ^ 32 = x₀ * 2 ^ (s.1 + w)
      rw [Nat.mod_eq_of_lt hfit, hx, Nat.pow_add, Nat.mul_assoc]
    · show bound + 1 ≤ s.2 * 2 ^ w % 2 ^ 32
      rw [Nat.mod_eq_of_lt hfit, hbound]
      exact hlow
  · next hgt => exact ⟨⟨hx, hlt⟩, by omega, Nat.le_add_right _ _⟩

/-- **`nlz` だけ左に寄せると、最上位の bit が立つ。** -/
theorem nlz_spec {x : Nat} (hpos : 0 < x) (hlt : x < 2 ^ 32) :
    2 ^ 31 ≤ x * 2 ^ nlz x ∧ x * 2 ^ nlz x < 2 ^ 32 ∧ nlz x ≤ 31 := by
  have h0 : Shifted x (0, x) := ⟨(Nat.mul_one x).symm, hlt⟩
  obtain ⟨h1, l1, b1⟩ := nlzStep_shifted 0x0000FFFF 16 rfl (by decide) h0
    (by show 2 ^ 16 ≤ x * 2 ^ 16; omega)
  obtain ⟨h2, l2, b2⟩ := nlzStep_shifted 0x00FFFFFF 8 rfl (by decide) h1 (by omega)
  obtain ⟨h3, l3, b3⟩ := nlzStep_shifted 0x0FFFFFFF 4 rfl (by decide) h2 (by omega)
  obtain ⟨h4, l4, b4⟩ := nlzStep_shifted 0x3FFFFFFF 2 rfl (by decide) h3 (by omega)
  obtain ⟨h5, l5, b5⟩ := nlzStep_shifted 0x7FFFFFFF 1 rfl (by decide) h4 (by omega)
  have hx : _ = x * 2 ^ nlz x := h5.1
  rw [← hx]
  refine ⟨by omega, h5.2, Nat.le_trans b5 ?_⟩
  omega

/-! ## 見積もり -/

/-- **小さめの除数で割ると、商は同じか 1 大きい。** -/
theorem div_le_div_succ {c : Nat} (hc : 0 < c) (hle : c ≤ d) (h : n * (d - c) < c * d) :
    n / d ≤ n / c ∧ n / c ≤ n / d + 1 := by
  refine ⟨Nat.div_le_div_left hle hc, Nat.le_of_lt_succ ((Nat.div_lt_iff_lt_mul hc).mpr ?_)⟩
  have hd : 0 < d := Nat.lt_of_lt_of_le hc hle
  have hrem : n < (n / d + 1) * d := by
    rw [Nat.mul_comm]
    exact Nat.lt_mul_div_succ n hd
  obtain ⟨e, rfl⟩ := Nat.exists_eq_add_of_le hle
  rw [Nat.add_sub_cancel_left] at h
  generalize n / (c + e) = t at hrem ⊢
  refine Nat.lt_of_mul_lt_mul_right (a := c + e) ?_
  calc n * (c + e) = c * n + n * e := by ring
    _ < c * ((t + 1) * (c + e)) + c * (c + e) :=
        Nat.add_lt_add (Nat.mul_lt_mul_of_pos_left hrem hc) h
    _ = (t + 1).succ * c * (c + e) := by rw [Nat.succ_eq_add_one]; ring

theorem four_mul_pred_le (x : Nat) : 4 * (x - 1) ≤ x * x := by
  rcases x with _ | _ | x
  · decide
  · decide
  · rw [Nat.add_sub_cancel]
    nlinarith

/-- 上の桁だけを残した除数は、どの 64 bit の `n` でも差が足りる。 -/
theorem mul_mod_lt {x : Nat} (hn : n < 2 ^ 64) (hx : 0 < x) (hv : 2 ^ 31 ≤ d / x) :
    n * (d - d / x * x) < d / x * x * d := by
  have hmod : d - d / x * x = d % x := by
    have hsplit := Nat.div_add_mod' d x
    omega
  have hlt : d % x + 1 ≤ x := Nat.mod_lt d hx
  have hc : 2 ^ 31 * x ≤ d / x * x := Nat.mul_le_mul_right x hv
  have hd : 2 ^ 31 * x ≤ d := Nat.le_trans hc (Nat.div_mul_le_self d x)
  have hsquare : 2 ^ 64 * (d % x) ≤ d / x * x * d := by
    calc 2 ^ 64 * (d % x) ≤ 2 ^ 62 * (4 * (x - 1)) := by omega
      _ ≤ 2 ^ 62 * (x * x) := Nat.mul_le_mul_left _ (four_mul_pred_le x)
      _ = 2 ^ 31 * x * (2 ^ 31 * x) := by ring
      _ ≤ d / x * x * d := Nat.mul_le_mul hc hd
  rw [hmod]
  rcases Nat.eq_zero_or_pos (d % x) with hzero | hpos
  · rw [hzero, Nat.mul_zero]
    exact Nat.mul_pos (by omega) (by omega)
  · exact Nat.lt_of_lt_of_le (Nat.mul_lt_mul_of_pos_right hn hpos) hsquare

/-! ## 符号なしの商 -/

theorem udiv64Small_eq (hn : n < 2 ^ 64) (hpos : 0 < d) (hd : d < 2 ^ 32) :
    udiv64Small n d = some (n / d) := by
  have hn1 : n / 2 ^ 32 % 2 ^ 32 = n / 2 ^ 32 := Nat.mod_eq_of_lt (by omega)
  have hn0 : n % 2 ^ 32 < 2 ^ 32 := Nat.mod_lt _ (by decide)
  have hsplit : n = 2 ^ 32 * (n / 2 ^ 32) + n % 2 ^ 32 := (Nat.div_add_mod n (2 ^ 32)).symm
  unfold udiv64Small
  simp only [hn1, Nat.mod_eq_of_lt hd]
  generalize n / 2 ^ 32 = n1 at *
  generalize n % 2 ^ 32 = n0 at *
  have hr : n1 % d < d := Nat.mod_lt _ hpos
  have hfit : 2 ^ 32 * (n1 % d) + n0 < d * 2 ^ 32 := by omega
  rw [if_neg (by omega), Nat.mod_eq_of_lt (by omega), divl_of_lt hpos hfit, Option.map_some]
  have hdiv : n / d = (2 ^ 32 * (n1 % d) + n0) / d + 2 ^ 32 * (n1 / d) := by
    rw [← Nat.add_mul_div_left _ _ hpos, hsplit]
    congr 1
    calc 2 ^ 32 * n1 + n0 = 2 ^ 32 * (d * (n1 / d) + n1 % d) + n0 := by rw [Nat.div_add_mod]
      _ = 2 ^ 32 * (n1 % d) + n0 + d * (2 ^ 32 * (n1 / d)) := by ring
  rw [← hdiv, Nat.mod_eq_of_lt (Nat.lt_of_le_of_lt (Nat.div_le_self n d) hn)]

/-- 見積もりが正しい商か 1 大きければ、最後の比較で正しい商になる。 -/
theorem correct_quotient (hn : n < 2 ^ 64) (hd : 0 < d) (hle : d ≤ n) (h : n / d ≤ q)
    (h' : q ≤ n / d + 1) :
    (if (n + (2 ^ 64 - (q + (2 ^ 64 - 1)) % 2 ^ 64 * d % 2 ^ 64)) % 2 ^ 64 < d
      then (q + (2 ^ 64 - 1)) % 2 ^ 64 else q) = n / d := by
  have hpos : 0 < n / d := Nat.div_pos hle hd
  have hq : q ≤ 2 ^ 64 := Nat.le_trans h' (Nat.lt_of_le_of_lt (Nat.div_le_self n d) hn)
  have hpred : (q + (2 ^ 64 - 1)) % 2 ^ 64 = q - 1 := by omega
  have hsplit : n / d * d + n % d = n := Nat.div_add_mod' n d
  have hmod : n % d < d := Nat.mod_lt n hd
  rw [hpred]
  obtain rfl | rfl : q = n / d ∨ q = n / d + 1 := by omega
  · have hmul : (n / d - 1) * d + d = n / d * d := by
      rw [← Nat.succ_mul, Nat.succ_eq_add_one, Nat.sub_add_cancel hpos]
    rw [Nat.mod_eq_of_lt (by omega : (n / d - 1) * d < 2 ^ 64), if_neg (by omega)]
  · rw [Nat.add_sub_cancel, Nat.mod_eq_of_lt (by omega : n / d * d < 2 ^ 64), if_pos (by omega)]

theorem udiv64Large_eq (hn : n < 2 ^ 64) (hd : 2 ^ 32 ≤ d) (hle : d ≤ n) :
    udiv64Large n d = some (n / d) := by
  have hd1 : d / 2 ^ 32 % 2 ^ 32 = d / 2 ^ 32 := Nat.mod_eq_of_lt (by omega)
  obtain ⟨hlow, hhigh, hs⟩ := nlz_spec (x := d / 2 ^ 32) (by omega) (by omega)
  unfold udiv64Large
  simp only [hd1]
  generalize nlz (d / 2 ^ 32) = s at *
  have hpow : 2 ^ s * 2 ^ (32 - s) = 2 ^ 32 := by rw [← Nat.pow_add]; congr 1; omega
  have hhalf : 2 * 2 ^ (31 - s) = 2 ^ (32 - s) := by rw [← Nat.pow_succ']; congr 1; omega
  have hS : 0 < 2 ^ s := Nat.two_pow_pos s
  have hx : 0 < 2 ^ (32 - s) := Nat.two_pow_pos _
  generalize 2 ^ (31 - s) = p at *
  generalize 2 ^ (32 - s) = x at *
  generalize 2 ^ s = S at *
  -- 左に寄せた除数の上の 32 bit は、除数から下の桁を落としたものである
  have hbelow : d < 2 ^ 32 * x := by
    have hd1x : d / 2 ^ 32 < x := by
      refine Nat.lt_of_mul_lt_mul_left (a := S) ?_
      rw [hpow, Nat.mul_comm]
      exact hhigh
    omega
  have hfit : d * S < 2 ^ 64 := by
    calc d * S < 2 ^ 32 * x * S := Nat.mul_lt_mul_of_pos_right hbelow hS
      _ = 2 ^ 32 * (S * x) := by ring
      _ = 2 ^ 64 := by rw [hpow]; norm_num
  have hv : d * S / 2 ^ 32 = d / x := by
    rw [← hpow, Nat.mul_comm S x, Nat.mul_div_mul_right d x hS]
  have hvlow : 2 ^ 31 ≤ d / x := by
    refine (Nat.le_div_iff_mul_le hx).mpr ?_
    calc 2 ^ 31 * x ≤ d / 2 ^ 32 * S * x := Nat.mul_le_mul_right x hlow
      _ = d / 2 ^ 32 * (S * x) := Nat.mul_assoc ..
      _ ≤ d := by rw [hpow]; exact Nat.div_mul_le_self d _
  have hvhigh : d / x < 2 ^ 32 := (Nat.div_lt_iff_lt_mul hx).mpr hbelow
  have hq : n / 2 / (d / x) / p = n / (d / x * x) := by
    rw [Nat.div_div_eq_div_mul, Nat.div_div_eq_div_mul, ← hhalf]
    congr 1
    ring
  rw [Nat.mod_eq_of_lt hfit, hv, Nat.mod_eq_of_lt hvhigh, divl_of_lt (by omega) (by omega),
    Option.map_some, hq]
  obtain ⟨hge, hsucc⟩ := div_le_div_succ (Nat.mul_pos (by omega) hx) (Nat.div_mul_le_self d x)
    (mul_mod_lt hn hx hvlow)
  rw [correct_quotient hn (by omega) hle hge hsucc]

theorem udiv64_eq (hn : n < 2 ^ 64) (hpos : 0 < d) : udiv64 n d = some (n / d) := by
  unfold udiv64
  split
  · exact udiv64Small_eq hn hpos (by omega)
  · split
    · next hlt => rw [Nat.div_eq_of_lt hlt]
    · next hge => exact udiv64Large_eq hn (by omega) (by omega)

/-! ## 符号つきの商 -/

theorem int64_of_range {x : Int} (h : -2 ^ 63 ≤ x ∧ x < 2 ^ 63) : int64 x = x := by
  unfold int64
  rw [Int.bmod_def]
  split <;> omega

theorem uint64_abs {x : Int} (h : -2 ^ 63 ≤ x ∧ x < 2 ^ 63) :
    (if 0 ≤ x then uint64 x else uint64 (-uint64 x)) = x.natAbs := by
  unfold uint64
  split <;> omega

theorem tdiv_eq_natAbs (n d : Int) :
    n.tdiv d = if (n < 0) = (d < 0) then ((n.natAbs / d.natAbs : Nat) : Int)
      else -((n.natAbs / d.natAbs : Nat) : Int) := by
  obtain ⟨a, rfl | rfl⟩ := Int.eq_nat_or_neg n <;> obtain ⟨b, rfl | rfl⟩ := Int.eq_nat_or_neg d
  all_goals
    simp only [Int.neg_tdiv, Int.tdiv_neg, Int.neg_neg, ← Int.ofNat_tdiv, Int.natAbs_neg,
      Int.natAbs_natCast]
  · rw [if_pos (by simp; omega)]
  · rcases Nat.eq_zero_or_pos b with rfl | hb
    · simp
    · rw [if_neg (by simp; omega)]
  · rcases Nat.eq_zero_or_pos a with rfl | ha
    · simp
    · rw [if_neg (by simp; omega)]
  · rcases Nat.eq_zero_or_pos a with rfl | ha
    · simp
    · rcases Nat.eq_zero_or_pos b with rfl | hb
      · simp
      · rw [if_pos (by simp; omega)]

/--
**`sdiv64` は零へ切り捨てた商を返す。**

`-2 ^ 63` を 1 で割るときは、商の絶対値を `int64_t` に入れるところと符号を変えるところの
二か所で折り返して、正しい値に戻る。
-/
theorem sdiv64_eq {n d : Int} (hn : -2 ^ 63 ≤ n ∧ n < 2 ^ 63) (hd : -2 ^ 63 ≤ d ∧ d < 2 ^ 63)
    (h0 : d ≠ 0) (hmin : ¬(n = -2 ^ 63 ∧ d = -1)) : sdiv64 n d = some (n.tdiv d) := by
  have hq : n.natAbs / d.natAbs ≤ n.natAbs := Nat.div_le_self ..
  have hhalf : d.natAbs ≠ 1 → n.natAbs / d.natAbs ≤ n.natAbs / 2 := fun h1 =>
    Nat.div_le_div_left (by omega) (by decide)
  unfold sdiv64
  simp only [uint64_abs hn, uint64_abs hd]
  rw [udiv64_eq (by omega) (by omega), Option.map_some, tdiv_eq_natAbs]
  generalize n.natAbs / d.natAbs = q at hq hhalf ⊢
  refine congrArg some ?_
  split
  · next hsign =>
    have hiff : n < 0 ↔ d < 0 := iff_of_eq hsign
    exact int64_of_range ⟨by omega, by omega⟩
  · unfold int64
    simp only [Int.bmod_def]
    split <;> split <;> omega

/-! ## 剰余 -/

/-- **`umod64` は剰余の下の 32 bit を返す。** -/
theorem umod64_eq (hn : n < 2 ^ 64) (hpos : 0 < d) : umod64 n d = some (n % d % 2 ^ 32) := by
  unfold umod64
  have hsplit : d * (n / d) + n % d = n := Nat.div_add_mod n d
  rw [udiv64_eq hn hpos, Option.map_some, Nat.mod_eq_of_lt (by omega : d * (n / d) < 2 ^ 64)]
  congr 2
  omega

/-- **`smod64` は剰余を `int32_t` に縮めて返す。** -/
theorem smod64_eq {n d : Int} (hn : -2 ^ 63 ≤ n ∧ n < 2 ^ 63) (hd : -2 ^ 63 ≤ d ∧ d < 2 ^ 63)
    (h0 : d ≠ 0) (hmin : ¬(n = -2 ^ 63 ∧ d = -1)) :
    smod64 n d = some ((n.tmod d).bmod (2 ^ 32)) := by
  have hsplit : d * n.tdiv d + n.tmod d = n := Int.mul_tdiv_add_tmod n d
  have habs : (n.tmod d).natAbs ≤ n.natAbs := by
    rw [Int.natAbs_tmod]
    exact Nat.mod_le ..
  have hsign : (0 ≤ n → 0 ≤ n.tmod d) ∧ (n ≤ 0 → n.tmod d ≤ 0) := by
    refine ⟨Int.tmod_nonneg d, fun h => ?_⟩
    have hneg := Int.tmod_nonneg d (a := -n) (by omega)
    rw [Int.neg_tmod] at hneg
    omega
  unfold smod64
  rw [sdiv64_eq hn hd h0 hmin, Option.map_some, int64_of_range (x := d * n.tdiv d) (by omega),
    int64_of_range (by omega)]
  congr 2
  omega

/-! ## 全体 -/

/--
**商の正しさ。**

符号なしではどの 64 bit の値でも `divl` が trap せず商の床になり、符号つきでは
`(-2 ^ 63, -1)` を除いて零へ切り捨てた商になる。
-/
theorem div64_correct :
    (∀ n d : Nat, n < 2 ^ 64 → d < 2 ^ 64 → d ≠ 0 → udiv64 n d = some (n / d)) ∧
    (∀ n d : Int, -2 ^ 63 ≤ n ∧ n < 2 ^ 63 → -2 ^ 63 ≤ d ∧ d < 2 ^ 63 → d ≠ 0 →
      ¬(n = -2 ^ 63 ∧ d = -1) → sdiv64 n d = some (n.tdiv d)) :=
  ⟨fun _ _ hn _ h0 => udiv64_eq hn (Nat.pos_of_ne_zero h0),
    fun _ _ hn hd h0 hmin => sdiv64_eq hn hd h0 hmin⟩

theorem div64_correct_edge :
    udiv64 (2 ^ 64 - 1) (2 ^ 63 + 1) = some 1 ∧ sdiv64 (-2 ^ 63) 1 = some (-2 ^ 63) :=
  ⟨(div64_correct.1 (2 ^ 64 - 1) (2 ^ 63 + 1) (by decide) (by decide) (by decide)).trans
      (by decide),
    (div64_correct.2 (-2 ^ 63) 1 (by decide) (by decide) (by decide) (by decide)).trans
      (by decide)⟩

/--
**剰余が正しい条件。**

`umod64` と `smod64` は剰余を 32 bit に縮めて返すので、`__umoddi3` は剰余が `2 ^ 32` より小さい
とき、`__moddi3` は剰余が `int32_t` に収まるときだけ正しい。商に除数を掛けて剰余を足すと元に
戻るのも、ちょうどそのときである。
-/
theorem mod64_correct_iff (n d : Nat) (m e : Int) :
    (n < 2 ^ 64 → d < 2 ^ 64 → d ≠ 0 →
      ∃ q r, udivdi3 n d = some q ∧ umoddi3 n d = some r ∧
        (r = n % d ↔ n % d < 2 ^ 32) ∧ (q * d + r = n ↔ n % d < 2 ^ 32)) ∧
    (-2 ^ 63 ≤ m ∧ m < 2 ^ 63 → -2 ^ 63 ≤ e ∧ e < 2 ^ 63 → e ≠ 0 → ¬(m = -2 ^ 63 ∧ e = -1) →
      ∃ q r, divdi3 m e = some q ∧ moddi3 m e = some r ∧
        (r = m.tmod e ↔ -2 ^ 31 ≤ m.tmod e ∧ m.tmod e < 2 ^ 31) ∧
        (q * e + r = m ↔ -2 ^ 31 ≤ m.tmod e ∧ m.tmod e < 2 ^ 31)) := by
  constructor
  · intro hn _ h0
    have hpos := Nat.pos_of_ne_zero h0
    have hsplit : n / d * d + n % d = n := Nat.div_add_mod' n d
    refine ⟨_, _, udiv64_eq hn hpos, umod64_eq hn hpos, ?_, ?_⟩
    · omega
    · omega
  · intro hm he h0 hmin
    have hsplit : m.tdiv e * e + m.tmod e = m := Int.tdiv_mul_add_tmod m e
    have hnarrow : (m.tmod e).bmod (2 ^ 32) = m.tmod e ↔
        -2 ^ 31 ≤ m.tmod e ∧ m.tmod e < 2 ^ 31 := by
      rw [Int.bmod_def]
      split <;> omega
    refine ⟨_, _, sdiv64_eq hm he h0 hmin, smod64_eq hm he h0 hmin, hnarrow, ?_⟩
    rw [← hnarrow]
    omega

theorem mod64_correct_iff_small :
    (∃ r, umoddi3 7 3 = some r ∧ r = 7 % 3) ∧
      ∃ r, moddi3 (-7) 3 = some r ∧ r = (-7 : Int).tmod 3 := by
  obtain ⟨hu, hs⟩ := mod64_correct_iff 7 3 (-7) 3
  obtain ⟨_, r, -, hr, hiff, -⟩ := hu (by decide) (by decide) (by decide)
  obtain ⟨_, r', -, hr', hiff', -⟩ := hs (by decide) (by decide) (by decide) (by decide)
  exact ⟨⟨r, hr, hiff.mpr (by decide)⟩, ⟨r', hr', hiff'.mpr (by decide)⟩⟩

/-- `2 ^ 32` を `2 ^ 32 + 1` で割った剰余は 0 になり、`2 ^ 31` を `2 ^ 31 + 1` で割った剰余は負になる。 -/
theorem mod64_narrowed :
    umoddi3 (2 ^ 32) (2 ^ 32 + 1) = some 0 ∧ (2 ^ 32) % (2 ^ 32 + 1) = 2 ^ 32 ∧
    moddi3 (2 ^ 31) (2 ^ 31 + 1) = some (-2 ^ 31) ∧ (2 ^ 31 : Int).tmod (2 ^ 31 + 1) = 2 ^ 31 := by
  refine ⟨?_, by decide, ?_, by decide⟩
  · exact (umod64_eq (by decide) (by decide)).trans (by decide)
  · exact (smod64_eq (by decide) (by decide) (by decide) (by decide)).trans (by decide)

end Pintos
