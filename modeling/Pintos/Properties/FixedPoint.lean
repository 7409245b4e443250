import Pintos.Threads.Thread

/-!
# 溢れない固定小数点演算

`fixed_point_operation` の途中で計算する `int` が、どれも 32 bit に収まる演算だけを通す
`checkedOperation`。溢れるか零で割る演算は `none` になる。

`calculate_load_avg` などの式を、演算を引数に取る形（`loadAvgWith` など）に書き直しておくと、
`fixedPointOperation` を渡せば source の式、`checkedOperation` を渡せば溢れの検査になる。
-/

namespace Pintos

open Infra

/-! ## 範囲 -/

def InInt32 (x : Int) : Prop := -2 ^ 31 ≤ x ∧ x < 2 ^ 31

instance (x : Int) : Decidable (InInt32 x) := inferInstanceAs (Decidable (_ ∧ _))

theorem int32_of_inInt32 {x : Int} (h : InInt32 x) : int32 x = x := int32_of_range h

theorem fpShift_eq (x : Int) : x >>> fpShiftAmount = x / 2 ^ 14 := Int.shiftRight_eq_div_pow x 14

/-! ## 検査つきの演算 -/

namespace FixedPointOp

/-- 途中で計算する `int`。 -/
def intermediates (op : FixedPointOp) (A B C : Int) : List Int :=
  match op with
  | add => [A + C]
  | sub => [A - C]
  | mulInt => [A * B]
  | divInt => [A.tdiv B]
  | mul => [(A * C) >>> fpShiftAmount]
  | div => [(A * 2 ^ fpShiftAmount).tdiv C]
  | addInt => [B * 2 ^ fpShiftAmount, A + B * 2 ^ fpShiftAmount]
  | subInt => [B * 2 ^ fpShiftAmount, A - B * 2 ^ fpShiftAmount]
  | intPart => [A >>> fpShiftAmount]
  | round =>
    if 0 ≤ A then [A + 2 ^ (fpShiftAmount - 1)] else [A - 2 ^ (fpShiftAmount - 1)]
  | const => [A * 2 ^ fpShiftAmount]

def divisor (op : FixedPointOp) (B C : Int) : Int :=
  match op with
  | divInt => B
  | div => C
  | _ => 1

/-- 零で割らず、どの `int` も溢れない。 -/
def Safe (op : FixedPointOp) (A B C : Int) : Prop :=
  op.divisor B C ≠ 0 ∧ ∀ x ∈ op.intermediates A B C, InInt32 x

instance (op : FixedPointOp) (A B C : Int) : Decidable (op.Safe A B C) :=
  inferInstanceAs (Decidable (_ ∧ _))

end FixedPointOp

def checkedOperation (op : FixedPointOp) (A B C : Int) : Option Int :=
  if op.Safe A B C then some (fixedPointOperation op A B C) else none

theorem checkedOperation_eq {op : FixedPointOp} {A B C x : Int} (h : op.Safe A B C)
    (hx : fixedPointOperation op A B C = x) : checkedOperation op A B C = some x := by
  rw [checkedOperation, if_pos h, hx]

/-! ## 演算ごとの値 -/

section

variable {A B C : Int}

theorem checked_add (h : InInt32 (A + C)) : checkedOperation .add A 0 C = some (A + C) :=
  checkedOperation_eq ⟨Int.one_ne_zero, List.forall_mem_singleton.mpr h⟩ (int32_of_inInt32 h)

theorem checked_sub (h : InInt32 (A - C)) : checkedOperation .sub A 0 C = some (A - C) :=
  checkedOperation_eq ⟨Int.one_ne_zero, List.forall_mem_singleton.mpr h⟩ (int32_of_inInt32 h)

theorem checked_mulInt (h : InInt32 (A * B)) : checkedOperation .mulInt A B 0 = some (A * B) :=
  checkedOperation_eq ⟨Int.one_ne_zero, List.forall_mem_singleton.mpr h⟩ (int32_of_inInt32 h)

theorem checked_divInt (hB : B ≠ 0) (h : InInt32 (A.tdiv B)) :
    checkedOperation .divInt A B 0 = some (A.tdiv B) :=
  checkedOperation_eq ⟨hB, List.forall_mem_singleton.mpr h⟩ (int32_of_inInt32 h)

theorem checked_mul (h : InInt32 (A * C / 2 ^ 14)) :
    checkedOperation .mul A 0 C = some (A * C / 2 ^ 14) := by
  rw [← fpShift_eq] at h ⊢
  exact checkedOperation_eq ⟨Int.one_ne_zero, List.forall_mem_singleton.mpr h⟩ (int32_of_inInt32 h)

theorem checked_div (hC : C ≠ 0) (h : InInt32 ((A * 2 ^ 14).tdiv C)) :
    checkedOperation .div A 0 C = some ((A * 2 ^ 14).tdiv C) :=
  checkedOperation_eq ⟨hC, List.forall_mem_singleton.mpr h⟩ (int32_of_inInt32 h)

theorem checked_addInt (hB : InInt32 (B * 2 ^ 14)) (h : InInt32 (A + B * 2 ^ 14)) :
    checkedOperation .addInt A B 0 = some (A + B * 2 ^ 14) := by
  refine checkedOperation_eq ⟨Int.one_ne_zero, ?_⟩ ?_
  · exact List.forall_mem_cons.mpr ⟨hB, List.forall_mem_singleton.mpr h⟩
  · show int32 (A + int32 (B * 2 ^ 14)) = _
    rw [int32_of_inInt32 hB, int32_of_inInt32 h]

theorem checked_subInt (hB : InInt32 (B * 2 ^ 14)) (h : InInt32 (A - B * 2 ^ 14)) :
    checkedOperation .subInt A B 0 = some (A - B * 2 ^ 14) := by
  refine checkedOperation_eq ⟨Int.one_ne_zero, ?_⟩ ?_
  · exact List.forall_mem_cons.mpr ⟨hB, List.forall_mem_singleton.mpr h⟩
  · show int32 (A - int32 (B * 2 ^ 14)) = _
    rw [int32_of_inInt32 hB, int32_of_inInt32 h]

theorem checked_intPart (h : InInt32 (A / 2 ^ 14)) :
    checkedOperation .intPart A 0 0 = some (A / 2 ^ 14) := by
  rw [← fpShift_eq] at h ⊢
  exact checkedOperation_eq ⟨Int.one_ne_zero, List.forall_mem_singleton.mpr h⟩ rfl

theorem checked_const (h : InInt32 (A * 2 ^ 14)) :
    checkedOperation .const A 0 0 = some (A * 2 ^ 14) :=
  checkedOperation_eq ⟨Int.one_ne_zero, List.forall_mem_singleton.mpr h⟩ (int32_of_inInt32 h)

end

/-! ## 演算を引数に取る式 -/

section

variable {m : Type → Type} [Monad m] (op : FixedPointOp → Int → Int → Int → m Int)

def loadAvgWith (loadAvg readyThreads : Int) : m Int := do
  let coef1 ← op .divInt (← op .const 59 0 0) 60 0
  let coef2 ← op .divInt (← op .const 1 0 0) 60 0
  let term1 ← op .mul coef1 0 loadAvg
  let term2 ← op .mulInt coef2 readyThreads 0
  op .add term1 0 term2

/-- `calculate_recent_cpu` の係数 `(2 * load_avg) / (2 * load_avg + 1)`。 -/
def decayWith (loadAvg : Int) : m Int := do
  let coef1 ← op .mulInt loadAvg 2 0
  let coef2 ← op .addInt coef1 1 0
  op .div coef1 0 coef2

def recentCpuWith (loadAvg recentCpu nice : Int) : m Int := do
  let coefficient ← decayWith op loadAvg
  let decayed ← op .mul coefficient 0 recentCpu
  op .addInt decayed nice 0

/-- `calculate_priority` の、`PRI_MAX` と `PRI_MIN` に収める前の式。`t->nice * 2` も `int` の積である。 -/
def priorityWith (recentCpu nice : Int) : m Int := do
  let temp1 ← op .divInt recentCpu 4 0
  let temp2 ← op .sub (← op .const priMax 0 0) 0 temp1
  let twice ← op .mulInt nice 2 0
  let temp3 ← op .subInt temp2 twice 0
  op .intPart temp3 0 0

end

/-! ## source の式 -/

/-- 溢れを検査しない演算。 -/
def plainOperation (op : FixedPointOp) (A B C : Int) : Id Int := fixedPointOperation op A B C

def loadAvgStep (loadAvg readyThreads : Int) : Int :=
  Id.run (loadAvgWith plainOperation loadAvg readyThreads)

def recentCpuStep (loadAvg recentCpu nice : Int) : Int :=
  Id.run (recentCpuWith plainOperation loadAvg recentCpu nice)

def rawPriority (recentCpu nice : Int) : Int := Id.run (priorityWith plainOperation recentCpu nice)

theorem calculateLoadAvg_eq (k : Kernel) :
    calculateLoadAvg k = { k with loadAvg := loadAvgStep k.loadAvg (readyThreads k) } := by
  unfold calculateLoadAvg loadAvgStep
  rfl

theorem mlfqsPriority_eq (recentCpu nice : Int) :
    mlfqsPriority recentCpu nice = max priMin (min priMax (rawPriority recentCpu nice)) := by
  show (let p := rawPriority recentCpu nice
    let p := if p > priMax then priMax else p
    if p < priMin then priMin else p) = _
  dsimp only
  unfold priMax priMin
  split <;> split <;> omega

/-! ## 検査を通った式の値は、source の式の値である -/

theorem plainOperation_of_checked {op : FixedPointOp} {A B C x : Int}
    (h : checkedOperation op A B C = some x) : plainOperation op A B C = x := by
  unfold checkedOperation at h
  split at h
  · exact Option.some.inj h
  · cases h

theorem loadAvgStep_of_checked {loadAvg ready x : Int}
    (h : loadAvgWith checkedOperation loadAvg ready = some x) : loadAvgStep loadAvg ready = x := by
  simp only [loadAvgWith, Option.bind_eq_bind, Option.bind_eq_some_iff] at h
  obtain ⟨a, ha, b, hb, c, hc, d, hd, e, he, f, hf, hx⟩ := h
  simp only [loadAvgStep, loadAvgWith, plainOperation_of_checked ha, plainOperation_of_checked hb,
    plainOperation_of_checked hc, plainOperation_of_checked hd, plainOperation_of_checked he,
    plainOperation_of_checked hf, plainOperation_of_checked hx, Id.run, bind]

theorem recentCpuStep_of_checked {loadAvg recentCpu nice x : Int}
    (h : recentCpuWith checkedOperation loadAvg recentCpu nice = some x) :
    recentCpuStep loadAvg recentCpu nice = x := by
  simp only [recentCpuWith, decayWith, Option.bind_eq_bind, Option.bind_eq_some_iff] at h
  obtain ⟨c, ⟨a, ha, b, hb, hc⟩, d, hd, hx⟩ := h
  simp only [recentCpuStep, recentCpuWith, decayWith, plainOperation_of_checked ha,
    plainOperation_of_checked hb, plainOperation_of_checked hc, plainOperation_of_checked hd,
    plainOperation_of_checked hx, Id.run, bind]

theorem rawPriority_of_checked {recentCpu nice x : Int}
    (h : priorityWith checkedOperation recentCpu nice = some x) : rawPriority recentCpu nice = x := by
  simp only [priorityWith, Option.bind_eq_bind, Option.bind_eq_some_iff] at h
  obtain ⟨a, ha, b, hb, c, hc, d, hd, e, he, hx⟩ := h
  simp only [rawPriority, priorityWith, plainOperation_of_checked ha, plainOperation_of_checked hb,
    plainOperation_of_checked hc, plainOperation_of_checked hd, plainOperation_of_checked he,
    plainOperation_of_checked hx, Id.run, bind]

theorem tdiv_eq_ite (a b : Int) : a.tdiv b = if 0 ≤ a then a / b else -(-a / b) := by
  split
  · next ha => exact Int.tdiv_eq_ediv_of_nonneg ha
  · next ha =>
    rw [← Int.neg_neg a, Int.neg_tdiv, Int.tdiv_eq_ediv_of_nonneg (by omega), Int.neg_neg]

/-- **`recent_cpu` がどの 32 bit の値でも、`calculate_priority` のどの演算も溢れない。** -/
theorem priorityWith_eq {recentCpu nice : Int} (hr : InInt32 recentCpu)
    (hn : -20 ≤ nice ∧ nice ≤ 20) :
    priorityWith checkedOperation recentCpu nice =
      some ((priMax * 2 ^ 14 - recentCpu.tdiv 4 - nice * 2 * 2 ^ 14) / 2 ^ 14) := by
  obtain ⟨hr1, hr2⟩ := hr
  obtain ⟨hn1, hn2⟩ := hn
  have hquot : -2 ^ 29 ≤ recentCpu.tdiv 4 ∧ recentCpu.tdiv 4 ≤ 2 ^ 29 := by
    rw [tdiv_eq_ite]
    split <;> omega
  have h1 := checked_divInt (A := recentCpu) (B := 4) (by decide) (by unfold InInt32; omega)
  generalize recentCpu.tdiv 4 = q at hquot h1 ⊢
  have h2 := checked_const (A := priMax) (by decide)
  have h3 := checked_sub (A := priMax * 2 ^ 14) (C := q) (by unfold InInt32 priMax; omega)
  have h4 := checked_mulInt (A := nice) (B := 2) (by unfold InInt32; omega)
  have h5 := checked_subInt (A := priMax * 2 ^ 14 - q) (B := nice * 2) (by unfold InInt32; omega)
    (by unfold InInt32 priMax; omega)
  have h6 := checked_intPart (A := priMax * 2 ^ 14 - q - nice * 2 * 2 ^ 14)
    (by unfold InInt32 priMax; omega)
  unfold priorityWith
  simp only [Option.bind_eq_bind]
  rw [h1, Option.bind_some, h2, Option.bind_some, h3, Option.bind_some, h4, Option.bind_some, h5,
    Option.bind_some, h6]

end Pintos
