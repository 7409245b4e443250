import Mathlib.Logic.Function.Basic
import Pintos.Infra.Int32

/-!
# 乱数（`lib/random.c`）

RC4 の状態は `uint8_t` の配列 `s` と、二つの添え字である。
`uint8_t` は `Nat` で表し、足し算のたびに 256 で割った余りを取る。
-/

namespace Pintos

structure Random where
  s : Nat → Nat
  i : Nat
  j : Nat
  inited : Bool

/-- `swap_byte (s + a, s + b)`。 -/
def swapByte (s : Nat → Nat) (a b : Nat) : Nat → Nat :=
  Function.update (Function.update s a (s b)) b (s a)

/-- `seedp[i % sizeof seed]`。 -/
def seedByte (seed i : Nat) : Nat := seed / 256 ^ (i % 4) % 256

/-- `random_init` の二つ目の loop の、残り `n` 周。 -/
def keySchedule (seed : Nat) : (n i : Nat) → (Nat → Nat) → (j : Nat) → Nat → Nat
  | 0, _, s, _ => s
  | n + 1, i, s, j =>
    let j' := (j + s i + seedByte seed i) % 256
    keySchedule seed n (i + 1) (swapByte s i j') j'

def randomInit (seed : Nat) : Random where
  s := keySchedule seed 256 0 id 0
  i := 0
  j := 0
  inited := true

/-- `random_bytes` の loop の一周。 -/
def randomByte (r : Random) : Nat × Random :=
  let i := (r.i + 1) % 256
  let j := (r.j + r.s i) % 256
  let s := swapByte r.s i j
  (s ((s i + s j) % 256), { r with s, i, j })

def randomByteLoop : Nat → Random → List Nat × Random
  | 0, r => ([], r)
  | size + 1, r =>
    let (b, r) := randomByte r
    let (bs, r) := randomByteLoop size r
    (b :: bs, r)

def randomBytes (size : Nat) (r : Random) : List Nat × Random :=
  randomByteLoop size (if r.inited then r else randomInit 0)

def randomUlong (r : Random) : Nat × Random :=
  let (bs, r) := randomBytes 4 r
  (bs.foldr (fun b n => b + 256 * n) 0, r)

/-! ## 呼び出しの列 -/

inductive RandomCall
  | bytes (size : Nat)
  | ulong
deriving DecidableEq

inductive RandomResult
  | bytes (bs : List Nat)
  | ulong (n : Nat)
deriving DecidableEq

def RandomCall.run (r : Random) : RandomCall → RandomResult × Random
  | .bytes size => ((.bytes (randomBytes size r).1), (randomBytes size r).2)
  | .ulong => (.ulong (randomUlong r).1, (randomUlong r).2)

/-- 呼び出しの列が返す値の列。 -/
def randomResults : List RandomCall → Random → List RandomResult
  | [], _ => []
  | c :: cs, r => (c.run r).1 :: randomResults cs (c.run r).2

end Pintos
