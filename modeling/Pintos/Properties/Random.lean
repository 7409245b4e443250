import Pintos.Infra.Except
import Pintos.Threads.Init

/-!
# 乱数の再現

`parse_options` の最後の `random_init (rtc_get_time ())` は、`-rs` で作った状態を捨てる。
だから乱数の列は時刻だけで決まり、`-rs` の値にはよらない。

時刻が違えば列も違うことは、二つの時刻の最初の byte を計算して示す。
-/

namespace Pintos

open Infra

/-! ## 計算

`keySchedule` をそのまま計算すると、256 周ぶんの式が入れ子になる。
数を先に値にしてから次に進む形 `forced` で計算する。
-/

/-- `n` を値にしてから `f` に渡す。 -/
def forced {α : Type} (n : Nat) (f : Nat → α) : α := Nat.rec (f 0) (fun m _ => f (m + 1)) n

@[simp] theorem forced_eq {α : Type} (n : Nat) (f : Nat → α) : forced n f = f n := by
  cases n with
  | zero => rfl
  | succ n => rfl

def keyScheduleForced (seed : Nat) : (n i : Nat) → (Nat → Nat) → (j : Nat) → Nat → Nat
  | 0, _, s, _ => s
  | n + 1, i, s, j =>
    forced (s i) fun a => forced ((j + a + seedByte seed i) % 256) fun j' =>
      forced (s j') fun b =>
        keyScheduleForced seed n (i + 1) (Function.update (Function.update s i b) j' a) j'

theorem keyScheduleForced_eq (seed n i : Nat) (s : Nat → Nat) (j : Nat) :
    keyScheduleForced seed n i s j = keySchedule seed n i s j := by
  induction n generalizing i s j with
  | zero => rfl
  | succ n ih => simp only [keyScheduleForced, keySchedule, forced_eq, ih, swapByte]

def randomInitForced (seed : Nat) : Random where
  s := keyScheduleForced seed 256 0 id 0
  i := 0
  j := 0
  inited := true

theorem randomInitForced_eq (seed : Nat) : randomInitForced seed = randomInit seed := by
  unfold randomInitForced randomInit
  rw [keyScheduleForced_eq]

theorem randomByte_ne : (randomByte (randomInit 2678400)).1 ≠ (randomByte (randomInit 2678401)).1 := by
  rw [← randomInitForced_eq, ← randomInitForced_eq]
  decide +kernel

/-! ## `parse_options` -/

variable {build : Build} {rtc : Nat} {argv argv₁ argv₂ rest : List (List Char)}
  {o o' : BootOptions}

/-- **`parse_options` の後の乱数の状態は、時刻だけで決まる。** -/
theorem parseOptions_random (h : parseOptions build rtc argv o = .ok (rest, o')) :
    o'.random = randomInit rtc := by
  obtain ⟨r, -, hr⟩ := map_eq_ok.mp h
  cases hr
  rfl

/-- `parse_options` が戻る引数。 -/
def Accepted (build : Build) (argv : List (List Char)) : Prop :=
  ∃ r, parseLoop build argv bootDefaults = .ok r

theorem Accepted.parse (h : Accepted build argv) (rtc : Nat) :
    ∃ rest o, parseOptions build rtc argv bootDefaults = .ok (rest, o) := by
  obtain ⟨r, hr⟩ := h
  exact ⟨_, _, by rw [parseOptions, hr]; rfl⟩

/--
**二つの起動が、時刻によらず同じ乱数の列を返す。**

`random_bytes` と `random_ulong` の、どんな呼び出しの列についても言う。
-/
def Reproducible (build : Build) (argv₁ argv₂ : List (List Char)) : Prop :=
  ∀ rtc₁ rtc₂ rest₁ rest₂ o₁ o₂,
    parseOptions build rtc₁ argv₁ bootDefaults = .ok (rest₁, o₁) →
    parseOptions build rtc₂ argv₂ bootDefaults = .ok (rest₂, o₂) →
    ∀ calls, randomResults calls o₁.random = randomResults calls o₂.random

theorem randomResults_ne : ∃ calls,
    randomResults calls (randomInit 2678400) ≠ randomResults calls (randomInit 2678401) := by
  refine ⟨[.bytes 1], fun h => randomByte_ne ?_⟩
  simpa [randomResults, RandomCall.run, randomBytes, randomByteLoop, randomInit] using h

/--
**乱数の列が再現するのは、どちらかの起動が `parse_options` から戻らないときに限る。**

`-rs` の有無も、その値も、位置も関係しない。二つの起動の引数は同じでもよい。
-/
theorem reproducible_iff (build : Build) (argv₁ argv₂ : List (List Char)) :
    Reproducible build argv₁ argv₂ ↔ ¬ (Accepted build argv₁ ∧ Accepted build argv₂) := by
  constructor
  · rintro h ⟨h₁, h₂⟩
    obtain ⟨rest₁, o₁, hp₁⟩ := h₁.parse 2678400
    obtain ⟨rest₂, o₂, hp₂⟩ := h₂.parse 2678401
    obtain ⟨calls, hne⟩ := randomResults_ne
    have heq := h _ _ rest₁ rest₂ o₁ o₂ hp₁ hp₂ calls
    rw [parseOptions_random hp₁, parseOptions_random hp₂] at heq
    exact hne heq
  · intro h rtc₁ rtc₂ rest₁ rest₂ o₁ o₂ hp₁ hp₂
    obtain ⟨r₁, hr₁, -⟩ := map_eq_ok.mp hp₁
    obtain ⟨r₂, hr₂, -⟩ := map_eq_ok.mp hp₂
    exact absurd ⟨⟨r₁, hr₁⟩, ⟨r₂, hr₂⟩⟩ h

/--
**`-q -rs=7` の二つの起動が違う乱数を返す。**
時刻は、時計が 1970 年 1 月 1 日の 0 時 0 分 0 秒と 1 秒を指すときに `rtc_get_time` が返す値である。
-/
theorem exists_seeded_boots_differ : ∃ build rest₁ rest₂ o₁ o₂ calls,
    parseOptions build 2678400 ["-q".toList, "-rs=7".toList] bootDefaults = .ok (rest₁, o₁) ∧
    parseOptions build 2678401 ["-q".toList, "-rs=7".toList] bootDefaults = .ok (rest₂, o₂) ∧
    randomResults calls o₁.random ≠ randomResults calls o₂.random := by
  have haccept : Accepted ⟨true, false, true⟩ ["-q".toList, "-rs=7".toList] := ⟨_, rfl⟩
  obtain ⟨rest₁, o₁, hp₁⟩ := haccept.parse 2678400
  obtain ⟨rest₂, o₂, hp₂⟩ := haccept.parse 2678401
  obtain ⟨calls, hne⟩ := randomResults_ne
  refine ⟨_, rest₁, rest₂, o₁, o₂, calls, hp₁, hp₂, ?_⟩
  rwa [parseOptions_random hp₁, parseOptions_random hp₂]

end Pintos
