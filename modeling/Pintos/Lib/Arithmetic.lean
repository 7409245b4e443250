import Pintos.Infra.Int32

/-!
# 64 bit の除算（`lib/arithmetic.c`）

`uint64_t` と `uint32_t` は折り返しを明示した `Nat`、`int64_t` は折り返しを明示した `Int` で
表す。32 bit の `divl` が除算例外を起こす場合と、零での除算は `none` になる。
-/

namespace Pintos

/-- `x` を `[-2^63, 2^63)` に折り返した値。 -/
def int64 (x : Int) : Int := x.bmod (2 ^ 64)

/-- `(uint64_t) x`。 -/
def uint64 (x : Int) : Nat := (x % 2 ^ 64).toNat

/-- `divl`。商が 32 bit に収まらなければ trap する。 -/
def divl (n d : Nat) : Option Nat :=
  if d = 0 ∨ 2 ^ 32 ≤ n / d then none else some (n / d)

/-- `nlz` の一つの `if`。`x` が `bound` 以下なら `w` bit 左に寄せる。 -/
def nlzStep (bound w : Nat) (s : Nat × Nat) : Nat × Nat :=
  if s.2 ≤ bound then (s.1 + w, s.2 * 2 ^ w % 2 ^ 32) else s

/-- `nlz`。最後の `if` は `x` を動かさないが、`x` はもう読まれない。 -/
def nlz (x : Nat) : Nat :=
  let s := nlzStep 0x0000FFFF 16 (0, x)
  let s := nlzStep 0x00FFFFFF 8 s
  let s := nlzStep 0x0FFFFFFF 4 s
  let s := nlzStep 0x3FFFFFFF 2 s
  let s := nlzStep 0x7FFFFFFF 1 s
  s.1

/-- `udiv64` の、除数が 32 bit の分岐。 -/
def udiv64Small (n d : Nat) : Option Nat :=
  let b := 2 ^ 32
  let n1 := n / 2 ^ 32 % 2 ^ 32
  let n0 := n % 2 ^ 32
  let d0 := d % 2 ^ 32
  if d0 = 0 then none
  else (divl ((b * (n1 % d0) + n0) % 2 ^ 64) d0).map fun q => (q + b * (n1 / d0)) % 2 ^ 64

/-- `udiv64` の、除数が 32 bit を超え、商が零でない分岐。 -/
def udiv64Large (n d : Nat) : Option Nat :=
  let d1 := d / 2 ^ 32 % 2 ^ 32
  let s := nlz d1
  (divl (n / 2) (d * 2 ^ s % 2 ^ 64 / 2 ^ 32 % 2 ^ 32)).map fun q =>
    let q := q / 2 ^ (31 - s)
    let q1 := (q + (2 ^ 64 - 1)) % 2 ^ 64
    -- `n - (q - 1) * d` も `uint64_t` で計算する
    if (n + (2 ^ 64 - q1 * d % 2 ^ 64)) % 2 ^ 64 < d then q1 else q

/-- `udiv64`。 -/
def udiv64 (n d : Nat) : Option Nat :=
  if d / 2 ^ 32 = 0 then udiv64Small n d
  else if n < d then some 0
  else udiv64Large n d

/-- `umod64`。返り値は `uint32_t` である。 -/
def umod64 (n d : Nat) : Option Nat :=
  (udiv64 n d).map fun q => (n + (2 ^ 64 - d * q % 2 ^ 64)) % 2 ^ 64 % 2 ^ 32

/-- `sdiv64`。 -/
def sdiv64 (n d : Int) : Option Int :=
  let nAbs := if 0 ≤ n then uint64 n else uint64 (-uint64 n)
  let dAbs := if 0 ≤ d then uint64 d else uint64 (-uint64 d)
  (udiv64 nAbs dAbs).map fun (qAbs : Nat) =>
    if (n < 0) = (d < 0) then int64 qAbs else int64 (-int64 qAbs)

/-- `smod64`。返り値は `int32_t` である。 -/
def smod64 (n d : Int) : Option Int :=
  (sdiv64 n d).map fun q => (int64 (n - int64 (d * q))).bmod (2 ^ 32)

/-! ## GCC が呼ぶ関数 -/

/-- `__divdi3`。 -/
def divdi3 (n d : Int) : Option Int := sdiv64 n d

/-- `__moddi3`。 -/
def moddi3 (n d : Int) : Option Int := smod64 n d

/-- `__udivdi3`。 -/
def udivdi3 (n d : Nat) : Option Nat := udiv64 n d

/-- `__umoddi3`。 -/
def umoddi3 (n d : Nat) : Option Nat := umod64 n d

end Pintos
