import Pintos.Infra.Int32

/-!
# 固定小数点演算（`threads/thread.c` の `fixed_point_operation`）

`fixed_point_t` は下位 14 bit を小数部とする `int` である。
`FP_ADD` などの macro はすべて `fixed_point_operation` の一つの分岐なので、
ここでも `FixedPointOp` で分岐する一つの関数として書く。

右 shift は算術 shift なので負の無限大への丸め、`/` は零への切り捨てである。
-/

namespace Pintos

open Infra

def fpShiftAmount : Nat := 14

/-- `fixed_point_op_t`。 -/
inductive FixedPointOp
  | add
  | sub
  | mulInt
  | divInt
  | mul
  | div
  | addInt
  | subInt
  | intPart
  | round
  | const
deriving DecidableEq

def fixedPointOperation (op : FixedPointOp) (A B C : Int) : Int :=
  match op with
  | .add => int32 (A + C)
  | .sub => int32 (A - C)
  | .mulInt => int32 (A * B)
  | .divInt => int32 (A.tdiv B)
  -- 積と左 shift は int64_t で計算してから int に縮める
  | .mul => int32 ((A * C) >>> fpShiftAmount)
  | .div => int32 ((A * 2 ^ fpShiftAmount).tdiv C)
  | .addInt => int32 (A + int32 (B * 2 ^ fpShiftAmount))
  | .subInt => int32 (A - int32 (B * 2 ^ fpShiftAmount))
  | .intPart => A >>> fpShiftAmount
  | .round =>
    if 0 ≤ A then int32 (A + 2 ^ (fpShiftAmount - 1)) >>> fpShiftAmount
    else int32 (A - 2 ^ (fpShiftAmount - 1)) >>> fpShiftAmount
  | .const => int32 (A * 2 ^ fpShiftAmount)

def fpAdd (A C : Int) : Int := fixedPointOperation .add A 0 C
def fpSub (A C : Int) : Int := fixedPointOperation .sub A 0 C
def fpMulInt (A B : Int) : Int := fixedPointOperation .mulInt A B 0
def fpDivInt (A B : Int) : Int := fixedPointOperation .divInt A B 0
def fpMul (A C : Int) : Int := fixedPointOperation .mul A 0 C
def fpDiv (A C : Int) : Int := fixedPointOperation .div A 0 C
def fpAddInt (A B : Int) : Int := fixedPointOperation .addInt A B 0
def fpSubInt (A B : Int) : Int := fixedPointOperation .subInt A B 0
def fpIntPart (A : Int) : Int := fixedPointOperation .intPart A 0 0
def fpRound (A : Int) : Int := fixedPointOperation .round A 0 0
def fpConst (x : Int) : Int := fixedPointOperation .const x 0 0

end Pintos
