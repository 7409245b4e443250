import Mathlib.Data.Rat.Floor
import Pintos.Infra.Except
import Pintos.Properties.FixedPoint
import Pintos.Threads.Machine

/-!
# MLFQS の丸め

`FP_ROUND` は、負の値では半分を引いてから**算術** shift する。算術 shift は床への丸めなので、
負の値はほとんどの場合に一つ小さくなる。100 倍も 32 bit で計算する。
-/

namespace Pintos

open Infra

/-! ## 100 倍して丸めた値 -/

/-- `v` が、固定小数点の値 `x` の 100 倍から 1/2 以内にある。 -/
def Nearest (v x : Int) : Prop := |(v : ℚ) - 100 * (x / 2 ^ 14)| ≤ 1 / 2

theorem nearest_iff {v x : Int} :
    Nearest v x ↔ -2 ^ 14 ≤ 2 * (v * 2 ^ 14 - 100 * x) ∧ 2 * (v * 2 ^ 14 - 100 * x) ≤ 2 ^ 14 := by
  have hdiff : (v : ℚ) - 100 * (x / 2 ^ 14) = ((2 * (v * 2 ^ 14 - 100 * x) : Int) : ℚ) / 2 ^ 15 := by
    push_cast
    ring
  unfold Nearest
  rw [hdiff, abs_le, le_div_iff₀ (by norm_num), div_le_iff₀ (by norm_num)]
  constructor
  · rintro ⟨h1, h2⟩
    constructor
    · have h : ((-2 ^ 14 : Int) : ℚ) ≤ ((2 * (v * 2 ^ 14 - 100 * x) : Int) : ℚ) := by
        refine le_trans (le_of_eq ?_) h1
        norm_num
      exact Int.cast_le.mp h
    · have h : ((2 * (v * 2 ^ 14 - 100 * x) : Int) : ℚ) ≤ ((2 ^ 14 : Int) : ℚ) := by
        refine le_trans h2 (le_of_eq ?_)
        norm_num
      exact Int.cast_le.mp h
  · rintro ⟨h1, h2⟩
    have h1' : ((-2 ^ 14 : Int) : ℚ) ≤ _ := Int.cast_le.mpr h1
    have h2' : _ ≤ ((2 ^ 14 : Int) : ℚ) := Int.cast_le.mpr h2
    constructor
    · refine le_trans (le_of_eq ?_) h1'
      norm_num
    · refine le_trans h2' (le_of_eq ?_)
      norm_num

theorem fpRound_fpMulInt (x : Int) :
    fpRound (fpMulInt x 100) =
      if 0 ≤ int32 (x * 100) then int32 (int32 (x * 100) + 2 ^ 13) / 2 ^ 14
      else int32 (int32 (x * 100) - 2 ^ 13) / 2 ^ 14 := by
  show (if 0 ≤ int32 (x * 100) then int32 (int32 (x * 100) + 2 ^ 13) >>> fpShiftAmount
    else int32 (int32 (x * 100) - 2 ^ 13) >>> fpShiftAmount) = _
  rw [fpShift_eq, fpShift_eq]

/--
最も近い整数になる `recent_cpu`。

負の値では、100 倍がちょうど半分になるときだけ正しい。最後の区間では、100 倍が溢れて正になり、
半分を足すともう一度溢れて戻る。
-/
def RoundsNearest (recentCpu : Int) : Prop :=
  (0 ≤ recentCpu ∧ recentCpu ≤ 21474754) ∨
  (-21474836 ≤ recentCpu ∧ recentCpu < 0 ∧ recentCpu % 4096 = 2048) ∨
  (-21474918 ≤ recentCpu ∧ recentCpu ≤ -21474837)

instance (recentCpu : Int) : Decidable (RoundsNearest recentCpu) :=
  inferInstanceAs (Decidable (_ ∨ _))

theorem int32_spec (x : Int) : ∃ p, int32 x = x - 2 ^ 32 * p ∧ InInt32 (int32 x) := by
  refine ⟨(x - int32 x) / 2 ^ 32, ?_, ?_⟩
  · unfold int32
    rw [Int.bmod_def]
    split <;> omega
  · unfold InInt32 int32
    rw [Int.bmod_def]
    split <;> omega

/-- **`FP_ROUND` が最も近い整数を返す条件。** -/
theorem nearest_fpRound_iff (x : Int) : Nearest (fpRound (fpMulInt x 100)) x ↔ RoundsNearest x := by
  obtain ⟨p, hA, hlo, hhi⟩ := int32_spec (x * 100)
  rw [nearest_iff, fpRound_fpMulInt]
  unfold RoundsNearest
  generalize int32 (x * 100) = A at hA hlo hhi ⊢
  split
  · next hpos =>
    rcases Int.lt_or_le (A + 2 ^ 13) (2 ^ 31) with hfit | hover
    · -- 溢れなければ `A` に最も近い整数なので、100 倍が溢れないときだけ正しい
      rw [int32_of_inInt32 ⟨by omega, hfit⟩]
      generalize hv : (A + 2 ^ 13) / 2 ^ 14 = v
      constructor
      · intro hnear
        obtain rfl : p = 0 := by omega
        omega
      · intro hx
        obtain rfl : p = 0 := by omega
        omega
    · rw [int32_of_ge ⟨by omega, by omega⟩, show (A + 2 ^ 13 - 2 ^ 32) / 2 ^ 14 = -131072 by omega]
      constructor
      · intro hnear
        obtain rfl : p = -1 := by omega
        omega
      · intro hx
        obtain rfl | rfl : p = 0 ∨ p = -1 := by omega
        · omega
        · omega
  · next hneg =>
    rcases Int.lt_or_le (A - 2 ^ 13) (-2 ^ 31) with hover | hfit
    · rw [int32_of_lt_neg ⟨by omega, by omega⟩, show (A - 2 ^ 13 + 2 ^ 32) / 2 ^ 14 = 131071 by omega]
      constructor
      · intro hnear
        obtain rfl : p = 1 := by omega
        omega
      · intro hx
        obtain rfl | rfl : p = 0 ∨ p = -1 := by omega
        · omega
        · omega
    · rw [int32_of_inInt32 ⟨hfit, by omega⟩]
      generalize hv : (A - 2 ^ 13) / 2 ^ 14 = v
      constructor
      · intro hnear
        obtain rfl : p = 0 := by omega
        -- 半分を引いてから床に丸めるので、ちょうど半分のときだけ正しい
        have hhalf : v * 2 ^ 14 = 100 * x - 2 ^ 13 := by omega
        omega
      · intro hx
        obtain rfl : p = 0 := by omega
        omega

variable {k k' : Kernel} {v : Int}

theorem intrSetLevel_intrDisable (h : k.inExternalIntr = false) :
    intrSetLevel k.intrLevel (intrDisable k) = .ok k := by
  cases hl : k.intrLevel with
  | on =>
    show (if k.inExternalIntr then _ else _) = _
    rw [h]
    exact congrArg Except.ok (by rw [intrDisable, ← hl])
  | off => exact congrArg Except.ok (by rw [intrDisable, intrDisable, ← hl])

theorem threadGetLoadAvg_eq (h : threadGetLoadAvg k = .ok (v, k')) :
    v = fpRound (fpMulInt k.loadAvg 100) := by
  obtain ⟨_, -, hv⟩ := map_eq_ok.mp h
  exact (congrArg Prod.fst hv).symm

theorem threadGetRecentCpu_eq (h : threadGetRecentCpu k = .ok (v, k')) :
    v = fpRound (fpMulInt k.curThread.recentCpu 100) := by
  obtain ⟨-, h⟩ := guard_eq_ok.mp h
  obtain ⟨_, -, hv⟩ := map_eq_ok.mp h
  exact (congrArg Prod.fst hv).symm

theorem threadGetLoadAvg_ok (hintr : k.inExternalIntr = false) :
    threadGetLoadAvg k = .ok (fpRound (fpMulInt k.loadAvg 100), k) := by
  rw [threadGetLoadAvg, intrSetLevel_intrDisable hintr]
  rfl

theorem threadGetRecentCpu_ok (hintr : k.inExternalIntr = false)
    (hrun : k.curThread.status = .running) :
    threadGetRecentCpu k = .ok (fpRound (fpMulInt k.curThread.recentCpu 100), k) := by
  rw [threadGetRecentCpu, if_neg (not_not.mpr hrun), intrSetLevel_intrDisable hintr]
  rfl

/--
**`load_avg` はいつも最も近い整数に丸められ、`recent_cpu` は `RoundsNearest` のときだけである。**

どちらも thread の中から呼べば必ず戻り、状態を変えない。
-/
theorem threadGet_nearest (k : Kernel) (hload : 0 ≤ k.loadAvg ∧ k.loadAvg ≤ 500 * 2 ^ 14) :
    (∀ v k', threadGetLoadAvg k = .ok (v, k') → Nearest v k.loadAvg) ∧
    (∀ v k', threadGetRecentCpu k = .ok (v, k') →
      (Nearest v k.curThread.recentCpu ↔ RoundsNearest k.curThread.recentCpu)) ∧
    (k.inExternalIntr = false → k.curThread.status = .running →
      (∃ v, threadGetLoadAvg k = .ok (v, k)) ∧ ∃ v, threadGetRecentCpu k = .ok (v, k)) := by
  refine ⟨fun v k' h => ?_, fun v k' h => ?_, fun hintr hrun =>
    ⟨⟨_, threadGetLoadAvg_ok hintr⟩, ⟨_, threadGetRecentCpu_ok hintr hrun⟩⟩⟩
  · rw [threadGetLoadAvg_eq h, nearest_fpRound_iff]
    exact .inl ⟨hload.1, by omega⟩
  · rw [threadGetRecentCpu_eq h, nearest_fpRound_iff]

/-- `recent_cpu` が `-1 / 2 ^ 14` の最初の thread。 -/
def slightlyNegative : Kernel :=
  (boot .mlfqs false fun _ => 0).modify 0 fun th => { th with recentCpu := -1 }

/-- `load_avg` が 0.75、`recent_cpu` が `x / 2 ^ 14` の最初の thread。 -/
def readoutAt (x : Int) : Kernel :=
  { (boot .mlfqs false fun _ => 0).modify 0 fun th => { th with recentCpu := x } with
    loadAvg := 12345 }

/-- 負の値で最も近い整数になるのは、ちょうど半分のときである。 -/
theorem threadGet_nearest_signs :
    (threadGetLoadAvg (readoutAt 20000) = .ok (75, readoutAt 20000) ∧ Nearest 75 12345) ∧
    (threadGetRecentCpu (readoutAt 20000) = .ok (122, readoutAt 20000) ∧ Nearest 122 20000) ∧
    (threadGetRecentCpu (readoutAt (-2048)) = .ok (-13, readoutAt (-2048)) ∧
      Nearest (-13) (-2048)) ∧
    threadGetRecentCpu (readoutAt (-2000)) = .ok (-13, readoutAt (-2000)) ∧
      ¬ Nearest (-13) (-2000) := by
  have hload {v : Int} (hv : fpRound (fpMulInt 12345 100) = v) (x : Int) :
      threadGetLoadAvg (readoutAt x) = .ok (v, readoutAt x) := hv ▸ threadGetLoadAvg_ok rfl
  have hcpu {x v : Int} (hv : fpRound (fpMulInt x 100) = v) :
      threadGetRecentCpu (readoutAt x) = .ok (v, readoutAt x) ∧ (Nearest v x ↔ RoundsNearest x) := by
    have hread : threadGetRecentCpu (readoutAt x) = .ok (v, readoutAt x) :=
      hv ▸ threadGetRecentCpu_ok rfl rfl
    have hrange : (0 : Int) ≤ 12345 ∧ (12345 : Int) ≤ 500 * 2 ^ 14 := by decide
    exact ⟨hread, (threadGet_nearest (readoutAt x) hrange).2.1 v _ hread⟩
  have hpos := hcpu (x := 20000) (v := 122) (by decide)
  have hhalf := hcpu (x := -2048) (v := -13) (by decide)
  have hneg := hcpu (x := -2000) (v := -13) (by decide)
  have h75 := hload (v := 75) (by decide) 20000
  exact ⟨⟨h75, (threadGet_nearest (readoutAt 20000) (by decide)).1 75 _ h75⟩,
    ⟨hpos.1, hpos.2.mpr (by decide)⟩, ⟨hhalf.1, hhalf.2.mpr (by decide)⟩,
    hneg.1, mt hneg.2.mp (by decide)⟩

/-- -100 / 2 ^ 14 の丸めは 0 ではなく -1 になる。 -/
theorem threadGetRecentCpu_not_nearest :
    |slightlyNegative.curThread.recentCpu| ≤ (240 * 500 + 120) * 2 ^ 14 ∧
      threadGetRecentCpu slightlyNegative = .ok (-1, slightlyNegative) ∧
      ¬ Nearest (-1) slightlyNegative.curThread.recentCpu := by
  have hcpu : slightlyNegative.curThread.recentCpu = -1 := by decide
  have hread := threadGetRecentCpu_ok (k := slightlyNegative) rfl (by decide)
  rw [hcpu] at hread ⊢
  have hround : fpRound (fpMulInt (-1) 100) = -1 := by decide
  rw [hround] at hread
  refine ⟨by decide, hread, ?_⟩
  have hiff := nearest_fpRound_iff (-1)
  rw [hround] at hiff
  rw [hiff]
  decide

/-! ## `calculate_priority` -/

def exactPriority (recentCpu nice : Int) : ℚ := priMax - (recentCpu / 2 ^ 14) / 4 - 2 * nice

def clampPriority (p : Int) : Int := max priMin (min priMax p)

theorem floor_exactPriority (recentCpu nice : Int) :
    ⌊exactPriority recentCpu nice⌋
      = (priMax * 2 ^ 16 - recentCpu - nice * 2 * 2 ^ 16) / 2 ^ 16 := by
  have hexact : exactPriority recentCpu nice
      = ((priMax * 2 ^ 16 - recentCpu - nice * 2 * 2 ^ 16 : Int) : ℚ) / ((2 ^ 16 : Nat) : ℚ) := by
    unfold exactPriority
    push_cast
    ring
  rw [hexact, Rat.floor_intCast_div_natCast]
  rfl

theorem mlfqsPriority_eq_clamp {recentCpu nice : Int} (hr : InInt32 recentCpu)
    (hn : -20 ≤ nice ∧ nice ≤ 20) :
    mlfqsPriority recentCpu nice
      = clampPriority ((priMax * 2 ^ 14 - recentCpu.tdiv 4 - nice * 2 * 2 ^ 14) / 2 ^ 14) := by
  rw [mlfqsPriority_eq, rawPriority_of_checked (priorityWith_eq hr hn)]
  rfl

theorem clampPriority_mono {p q : Int} (h : p ≤ q) : clampPriority p ≤ clampPriority q := by
  unfold clampPriority
  omega

theorem clampPriority_le_succ {p q : Int} (h : q ≤ p + 1) :
    clampPriority q ≤ clampPriority p + 1 := by
  unfold clampPriority
  omega

/-- `recent_cpu / 4` は零へ切り捨てるので、正では大きくなり、零以下では床と同じになる。 -/
theorem rawPriority_bounds (recentCpu nice : Int) :
    let raw := (priMax * 2 ^ 14 - recentCpu.tdiv 4 - nice * 2 * 2 ^ 14) / 2 ^ 14
    let exact := (priMax * 2 ^ 16 - recentCpu - nice * 2 * 2 ^ 16) / 2 ^ 16
    (recentCpu ≤ 0 → raw = exact) ∧ exact ≤ raw ∧ raw ≤ exact + 1 := by
  intro raw exact
  have hdiv := tdiv_eq_ite recentCpu 4
  unfold raw exact priMax
  split at hdiv
  · rw [hdiv]
    omega
  · rw [hdiv]
    omega

/--
**`calculate_priority` の値。**

どの 32 bit の `recent_cpu` でも溢れず、`PRI_MIN` から `PRI_MAX` の間にあり、`recent_cpu` にも
`nice` にも単調に減る。`recent_cpu ≤ 0` では正確な値の床に等しく、正では高々 1 大きい。
-/
theorem calculatePriority_spec {k : Kernel} {t : ThreadId} {recentCpu nice : Int}
    (ht : k.idleThread ≠ some t) (hcpu : (k.thread t).recentCpu = recentCpu)
    (hnice : (k.thread t).nice = nice) (hr : InInt32 recentCpu) (hn : -20 ≤ nice ∧ nice ≤ 20) :
    ((calculatePriority t k).thread t).priority = mlfqsPriority recentCpu nice ∧
    (priorityWith checkedOperation recentCpu nice).isSome ∧
    priMin ≤ mlfqsPriority recentCpu nice ∧ mlfqsPriority recentCpu nice ≤ priMax ∧
    (∀ r, InInt32 r → recentCpu ≤ r → mlfqsPriority r nice ≤ mlfqsPriority recentCpu nice) ∧
    (∀ n, -20 ≤ n ∧ n ≤ 20 → nice ≤ n →
      mlfqsPriority recentCpu n ≤ mlfqsPriority recentCpu nice) ∧
    (recentCpu ≤ 0 →
      mlfqsPriority recentCpu nice = clampPriority ⌊exactPriority recentCpu nice⌋) ∧
    (0 < recentCpu →
      clampPriority ⌊exactPriority recentCpu nice⌋ ≤ mlfqsPriority recentCpu nice ∧
      mlfqsPriority recentCpu nice ≤ clampPriority ⌊exactPriority recentCpu nice⌋ + 1) := by
  obtain ⟨hexact, hle, hsucc⟩ := rawPriority_bounds recentCpu nice
  refine ⟨?_, ?_, ?_, ?_, fun r hr' hrle => ?_, fun n hn' hnle => ?_, fun hneg => ?_, fun _ => ?_⟩
  · rw [calculatePriority, if_neg ht, Kernel.modify_thread_self, hcpu, hnice]
  · rw [priorityWith_eq hr hn]
    rfl
  · rw [mlfqsPriority_eq]
    exact le_max_left ..
  · rw [mlfqsPriority_eq]
    exact max_le (by decide) (min_le_left ..)
  · rw [mlfqsPriority_eq_clamp hr hn, mlfqsPriority_eq_clamp hr' hn]
    refine clampPriority_mono (Int.ediv_le_ediv (by decide) ?_)
    have hdiv : recentCpu.tdiv 4 ≤ r.tdiv 4 := by
      rw [tdiv_eq_ite, tdiv_eq_ite]
      split <;> split <;> omega
    omega
  · rw [mlfqsPriority_eq_clamp hr hn, mlfqsPriority_eq_clamp hr hn']
    exact clampPriority_mono (Int.ediv_le_ediv (by decide) (by omega))
  · rw [mlfqsPriority_eq_clamp hr hn, floor_exactPriority, hexact hneg]
  · rw [mlfqsPriority_eq_clamp hr hn, floor_exactPriority]
    exact ⟨clampPriority_mono hle, clampPriority_le_succ hsucc⟩

theorem calculatePriority_spec_negative :
    ((calculatePriority 0 slightlyNegative).thread 0).priority = mlfqsPriority (-1) 0 ∧
      mlfqsPriority (-1) 0 = clampPriority ⌊exactPriority (-1) 0⌋ := by
  have h := calculatePriority_spec (k := slightlyNegative) (t := 0) (by decide)
    (show _ = -1 by decide) (show _ = 0 by decide) (by decide) (by decide)
  exact ⟨h.1, h.2.2.2.2.2.2.1 (by decide)⟩

end Pintos
