import Mathlib.Tactic.Linarith
import Pintos.Properties.FixedPoint
import Pintos.Threads.Machine

/-!
# `load_avg` の誤差

`calculate_load_avg` は 1 秒ごとに、二つの係数と積の三か所で切り捨てる。
係数は `59/60` が `16110 / 2^14`、`1/60` が `273 / 2^14` になる。

正確な値との差 `e` は一度の更新で `59/60 * e + (N + 1)` 以下になるので、
何秒続けても `60 * (N + 1)` を超えない。
-/

namespace Pintos

/-! ## 一度の更新 -/

section

variable {N : Nat} {loadAvg : Int} {ready : Nat}

def loadAvgValue (loadAvg ready : Int) : Int := 16110 * loadAvg / 2 ^ 14 + 273 * ready

theorem loadAvgValue_range (h0 : 0 ≤ loadAvg) (hle : loadAvg ≤ N * 2 ^ 14) (hr : ready ≤ N) :
    0 ≤ loadAvgValue loadAvg ready ∧ loadAvgValue loadAvg ready ≤ N * 2 ^ 14 := by
  unfold loadAvgValue
  constructor <;> omega

/-- **範囲の中では、`calculate_load_avg` のどの演算も溢れない。** -/
theorem loadAvgWith_checked (hN : N * 2 ^ 14 < 2 ^ 31) (h0 : 0 ≤ loadAvg)
    (hle : loadAvg ≤ N * 2 ^ 14) (hr : ready ≤ N) :
    loadAvgWith checkedOperation loadAvg ready = some (loadAvgValue loadAvg ready) := by
  have hsum := loadAvgValue_range h0 hle hr
  unfold loadAvgValue at hsum
  have h59 : checkedOperation .divInt (59 * 2 ^ 14) 60 0 = some 16110 :=
    (checked_divInt (by decide) (by decide)).trans (congrArg some (by decide))
  have h1 : checkedOperation .divInt (1 * 2 ^ 14) 60 0 = some 273 :=
    (checked_divInt (by decide) (by decide)).trans (congrArg some (by decide))
  have hmul : InInt32 (16110 * loadAvg / 2 ^ 14) := by
    unfold InInt32
    omega
  have hint : InInt32 (273 * (ready : Int)) := by
    unfold InInt32
    omega
  have hadd : InInt32 (16110 * loadAvg / 2 ^ 14 + 273 * ready) := by
    unfold InInt32
    omega
  have hc59 := checked_const (by decide : InInt32 (59 * 2 ^ 14))
  have hc1 := checked_const (by decide : InInt32 (1 * 2 ^ 14))
  unfold loadAvgWith
  simp only [Option.bind_eq_bind]
  rw [hc59, Option.bind_some, h59, Option.bind_some, hc1, Option.bind_some, h1, Option.bind_some,
    checked_mul hmul, Option.bind_some, checked_mulInt hint, Option.bind_some, checked_add hadd,
    loadAvgValue]

end

/-! ## 履歴 -/

/-- 前の秒の `load_avg` を持つ状態 `k` で `calculate_load_avg` を呼んだ後の `load_avg`。 -/
def nextLoadAvg (loadAvg : Int) (k : Kernel) : Int :=
  (calculateLoadAvg { k with loadAvg := loadAvg }).loadAvg

/-- 一秒ごとの状態の履歴の後の `load_avg`。 -/
def loadAvgAfter (history : List Kernel) : Int := history.foldl nextLoadAvg 0

/-- どの演算も溢れなかったときの `load_avg`。 -/
def loadAvgChecked (history : List Kernel) : Option Int :=
  history.foldlM (fun loadAvg k => loadAvgWith checkedOperation loadAvg (readyThreads k)) 0

/-- 一度の更新の正確な値。`2^14` 倍してある。 -/
def exactStep (loadAvg : ℚ) (k : Kernel) : ℚ :=
  59 / 60 * loadAvg + 1 / 60 * (readyThreads k * 2 ^ 14)

/-- `load_avg = (59/60) * load_avg + (1/60) * ready_threads` の正確な値。 -/
def exactLoadAvg (history : List Kernel) : ℚ := history.foldl exactStep 0

/-- 固定小数点の値 `loadAvg` と、正確な値 `x` の関係。 -/
structure Tracks (N : Nat) (loadAvg : Int) (x : ℚ) : Prop where
  nonneg : 0 ≤ loadAvg
  le : loadAvg ≤ N * 2 ^ 14
  below : (loadAvg : ℚ) ≤ x
  close : x ≤ loadAvg + 60 * (N + 1)

theorem Tracks.zero (N : Nat) : Tracks N 0 0 where
  nonneg := Int.le_refl 0
  le := by omega
  below := by norm_num
  close := by
    have : (0 : ℚ) ≤ N := Nat.cast_nonneg N
    norm_num
    linarith

theorem floor_bounds (loadAvg : Int) :
    (16110 * loadAvg / 2 ^ 14 : Int) * (2 ^ 14 : ℚ) ≤ 16110 * loadAvg ∧
    (16110 * loadAvg : ℚ) < ((16110 * loadAvg / 2 ^ 14 : Int) + 1) * 2 ^ 14 := by
  have hle : (16110 * loadAvg / 2 ^ 14) * 2 ^ 14 ≤ 16110 * loadAvg := by omega
  have hlt : 16110 * loadAvg < (16110 * loadAvg / 2 ^ 14 + 1) * 2 ^ 14 := by omega
  exact ⟨by exact_mod_cast hle, by exact_mod_cast hlt⟩

theorem Tracks.step {N : Nat} {loadAvg : Int} {x : ℚ} (h : Tracks N loadAvg x) {k : Kernel}
    (hr : readyThreads k ≤ N) :
    Tracks N (loadAvgValue loadAvg (readyThreads k)) (exactStep x k) := by
  obtain ⟨h0, hle⟩ := loadAvgValue_range h.nonneg h.le hr
  obtain ⟨hfloor, hceil⟩ := floor_bounds loadAvg
  have hr0 : (0 : ℚ) ≤ readyThreads k := Nat.cast_nonneg _
  have hrN : (readyThreads k : ℚ) ≤ N := by exact_mod_cast hr
  have hL0 : (0 : ℚ) ≤ loadAvg := by exact_mod_cast h.nonneg
  have hLN : (loadAvg : ℚ) ≤ N * 2 ^ 14 := by exact_mod_cast h.le
  have hbelow := h.below
  have hclose := h.close
  have hcast : ((loadAvgValue loadAvg (readyThreads k) : Int) : ℚ) =
      (16110 * loadAvg / 2 ^ 14 : Int) + 273 * readyThreads k := by
    unfold loadAvgValue
    push_cast
    rfl
  refine ⟨h0, hle, ?_, ?_⟩
  · rw [hcast, exactStep]
    linarith
  · -- 差は `59/60` 倍され、係数と積の切り捨てで `N + 1` まで増える
    rw [hcast, exactStep]
    linarith

theorem foldl_tracks {N : Nat} (hN : N * 2 ^ 14 < 2 ^ 31) (history : List Kernel) :
    ∀ {loadAvg : Int} {x : ℚ}, Tracks N loadAvg x → (∀ k ∈ history, readyThreads k ≤ N) →
      Tracks N (history.foldl nextLoadAvg loadAvg) (history.foldl exactStep x) ∧
      history.foldlM (fun loadAvg k => loadAvgWith checkedOperation loadAvg (readyThreads k))
        loadAvg = some (history.foldl nextLoadAvg loadAvg) := by
  induction history with
  | nil => exact fun h _ => ⟨h, rfl⟩
  | cons k history ih =>
    intro loadAvg x h hr
    have hready := hr k List.mem_cons_self
    have hcheck := loadAvgWith_checked hN h.nonneg h.le hready
    have hstep : nextLoadAvg loadAvg k = loadAvgValue loadAvg (readyThreads k) := by
      rw [nextLoadAvg, calculateLoadAvg_eq]
      exact loadAvgStep_of_checked hcheck
    rw [List.foldl_cons, List.foldl_cons, List.foldlM_cons, hcheck, hstep]
    exact ih (h.step hready) fun r hm => hr r (List.mem_cons_of_mem _ hm)

/--
**固定小数点の `load_avg` は、正確な値から `60 * (N + 1)` 単位しか下に外れない。**

`ready_threads` が `N` 以下のどの履歴でも、

* `load_avg` は 0 以上 `N` 以下（`2^14` 倍して）である
* どの 32 bit の演算も溢れない
* 正確な値を超えず、下回るのは `60 * (N + 1)` 単位までである
-/
theorem loadAvg_tracks_exact (N : Nat) (hN : N * 2 ^ 14 < 2 ^ 31) (history : List Kernel)
    (h : ∀ k ∈ history, readyThreads k ≤ N) :
    (0 ≤ loadAvgAfter history ∧ loadAvgAfter history ≤ N * 2 ^ 14) ∧
    loadAvgChecked history = some (loadAvgAfter history) ∧
    (loadAvgAfter history : ℚ) ≤ exactLoadAvg history ∧
    exactLoadAvg history - 60 * (N + 1) ≤ loadAvgAfter history := by
  obtain ⟨ht, hcheck⟩ := foldl_tracks hN history (Tracks.zero N) h
  exact ⟨⟨ht.nonneg, ht.le⟩, hcheck, ht.below, sub_le_iff_le_add.mpr ht.close⟩

/-- 三秒の間に 1、3、2 個の thread が数えられた。 -/
theorem loadAvg_tracks_exact_three :
    let history := [[], [2, 3], [2]].map fun ready =>
      { threadInit .mlfqs false (fun _ => 0) with readyList := ready }
    history.map readyThreads = [1, 3, 2] ∧ loadAvgAfter history = 1614 ∧
    loadAvgChecked history = some (loadAvgAfter history) ∧
    (loadAvgAfter history : ℚ) ≤ exactLoadAvg history := by
  intro history
  have h := loadAvg_tracks_exact 3 (by decide) history (by decide)
  exact ⟨by decide, by decide, h.2.1, h.2.2.1⟩

end Pintos
