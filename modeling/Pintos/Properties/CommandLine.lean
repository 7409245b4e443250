import Pintos.Threads.Init

/-!
# command line の読み取り

`read_command_line` の検査は byte の pointer だけを見る。`argv` の長さは、引数が少なくとも 2 byte を
占めると見込んだものである。空の引数は 1 byte しか占めないので、`argv` の外に書くことがある。
最後の引数が領域の中で終わるかどうかも調べない。
-/

namespace Pintos

open Infra

/-! ## 一つの引数 -/

variable {s : List UInt8}

theorem strnlen_append_nul (hs : 0 ∉ s) (post : List UInt8) {n : Nat} (hn : s.length < n)
    : strnlen (s ++ 0 :: post) n = s.length := by
  induction s generalizing n with
  | nil =>
    cases n with
    | zero => rfl
    | succ n => simp [strnlen]
  | cons c s ih =>
    have hc : ¬c = 0 := fun h => hs (h ▸ List.mem_cons_self)
    cases n with
    | zero => exact absurd hn (Nat.not_lt_zero _)
    | succ n =>
      rw [List.cons_append, strnlen, if_neg hc, ih (fun h => hs (List.mem_cons_of_mem _ h))
        (Nat.lt_of_succ_lt_succ hn), List.length_cons]

theorem strnlen_append (hs : 0 ∉ s) (post : List UInt8) :
    strnlen (s ++ post) s.length = s.length := by
  induction s with
  | nil => simp [strnlen]
  | cons c s ih =>
    have hc : ¬c = 0 := fun h => hs (h ▸ List.mem_cons_self)
    rw [List.cons_append, List.length_cons, strnlen, if_neg hc,
      ih fun h => hs (List.mem_cons_of_mem _ h)]

section

variable {mem a post : List UInt8} {p i n : Nat} {argv : Argv}

theorem readArgs_terminated (hs : 0 ∉ s) (hmem : mem.drop p = s ++ 0 :: a ++ post)
    (hlen : (s ++ 0 :: a).length = loaderArgsLen - p) : readArgs mem (n + 1) i p argv
        = readArgs mem n (i + 1) (p + s.length + 1) (argv.write i (some p)) ∧
      mem.drop (p + s.length + 1) = a ++ post ∧
      a.length = loaderArgsLen - (p + s.length + 1) := by
  rw [List.length_append, List.length_cons] at hlen
  have hstr : strnlen (mem.drop p) (loaderArgsLen - p) = s.length := by
    rw [hmem, List.append_assoc]
    exact strnlen_append_nul hs _ (by omega)
  refine ⟨?_, ?_, by omega⟩
  · rw [readArgs, if_neg (by omega), hstr]
  · rw [Nat.add_assoc, ← List.drop_drop, hmem, List.append_assoc, List.drop_append]
    simp

/-- 領域の中で終わらない引数を読むと、pointer は領域を越える。 -/
theorem readArgs_unterminated (ha : 0 ∉ a) (hne : a ≠ []) (hmem : mem.drop p = a ++ post)
    (hlen : a.length = loaderArgsLen - p) :
    readArgs mem (n + 1) i p argv
      = readArgs mem n (i + 1) (loaderArgsLen + 1) (argv.write i (some p)) := by
  have hpos := List.length_pos_iff.mpr hne
  have hstr : strnlen (mem.drop p) (loaderArgsLen - p) = a.length := by
    rw [hmem, ← hlen]
    exact strnlen_append ha post
  rw [readArgs, if_neg (by omega), hstr, hlen, show p + (loaderArgsLen - p) = loaderArgsLen by omega]

/-! ## PANIC -/

theorem readArgs_past (hp : loaderArgsLen ≤ p) :
    (readArgs mem n i p argv).1 = true ↔ 0 < n := by
  cases n with
  | zero => simp [readArgs]
  | succ n => simp [readArgs, hp]

/-- **PANIC するのは、残りの領域がないか、最後の byte を除いた NUL の数が足りないときである。** -/
theorem readArgs_panics_iff (n i : Nat) (argv : Argv) (hmem : mem.drop p = a ++ post)
    (hlen : a.length = loaderArgsLen - p) :
    (readArgs mem n i p argv).1 = true ↔ 0 < n ∧ (a = [] ∨ a.dropLast.count 0 + 1 < n) := by
  induction n generalizing a p i argv with
  | zero => simp [readArgs]
  | succ n ih =>
    by_cases hnil : a = []
    · have hp : loaderArgsLen ≤ p := by
        rw [hnil, List.length_nil] at hlen
        omega
      simp [readArgs_past hp, hnil]
    by_cases hnul : 0 ∈ a
    · obtain ⟨s, a', rfl, hs⟩ := List.eq_append_cons_of_mem hnul
      obtain ⟨hstep, hmem', hlen'⟩ := readArgs_terminated hs hmem hlen
      rw [hstep, ih _ _ hmem' hlen']
      by_cases hlast : a' = []
      · have hcount : s.count 0 = 0 := List.count_eq_zero.mpr hs
        simp [hlast, hcount]
      · rw [List.dropLast_append_of_ne_nil (List.cons_ne_nil _ _), List.dropLast_cons_of_ne_nil hlast,
          List.count_append, List.count_eq_zero.mpr hs, List.count_cons_self, Nat.zero_add]
        simp only [hnil, hlast, false_or]
        omega
    · have hcount : a.dropLast.count 0 = 0 :=
        List.count_eq_zero.mpr fun h => hnul (List.dropLast_subset a h)
      rw [readArgs_unterminated hnul hnil hmem hlen, readArgs_past (Nat.le_succ _), hcount]
      simp [hnil]

/-! ## 並んだ引数 -/

/-- 引数を NUL で終えて並べた byte の列。 -/
def argBytes (strings : List (List UInt8)) : List UInt8 := strings.flatMap (· ++ [0])

/-- NUL の数が足りれば、どの引数も領域の中で終わり、`argv` はその始まりを順に指す。 -/
theorem readArgs_ok (i : Nat) (argv : Argv) (hmem : mem.drop p = a ++ post)
    (hlen : a.length = loaderArgsLen - p) (hn : n ≤ a.count 0) :
    ∃ strings tail, strings.length = n ∧ (∀ s ∈ strings, 0 ∉ s) ∧
      a = argBytes strings ++ tail ∧
      ∃ argv', readArgs mem n i p argv = (false, argv') ∧
        argv'.written = argv.written ++ (List.range' i n).map (fun k : Nat => (k : Int)) ∧
        (∀ k : Nat, k < i → argv'.entry k = argv.entry k) ∧
        ∀ k < n, argv'.entry ((i + k : Nat) : Int)
          = some (p + (argBytes (strings.take k)).length) := by
  induction n generalizing a p i argv with
  | zero => exact ⟨[], a, rfl, by simp, rfl, argv, rfl, by simp, fun _ _ => rfl, by simp⟩
  | succ n ih =>
    have hnul : (0 : UInt8) ∈ a := List.count_pos_iff.mp (by omega)
    obtain ⟨s, a', rfl, hs⟩ := List.eq_append_cons_of_mem hnul
    obtain ⟨hstep, hmem', hlen'⟩ := readArgs_terminated hs hmem hlen
    have hn' : n ≤ a'.count 0 := by
      rw [List.count_append, List.count_eq_zero.mpr hs, List.count_cons_self] at hn
      omega
    obtain ⟨strings, tail, hcnt, hclean, rfl, argv', hrun, hwritten, hbefore, hentry⟩ :=
      ih _ _ hmem' hlen' hn'
    refine ⟨s :: strings, tail, by rw [List.length_cons, hcnt], ?_, by simp [argBytes], argv',
      hstep.trans hrun, ?_, ?_, ?_⟩
    · intro t ht
      rcases List.mem_cons.mp ht with rfl | ht
      · exact hs
      · exact hclean t ht
    · rw [hwritten, List.range'_succ]
      simp [Argv.write]
    · intro k hk
      have hne : ¬(k : Int) = i := by omega
      rw [hbefore k (by omega), Argv.write]
      exact if_neg hne
    · intro k hk
      cases k with
      | zero =>
        -- 後の書き込みは、この添え字に触れない
        rw [Nat.add_zero, hbefore i (by omega), Argv.write]
        simp [argBytes]
      | succ k =>
        have hnext := hentry k (by omega)
        rw [show i + 1 + k = i + (k + 1) by omega] at hnext
        rw [hnext]
        simp [argBytes]
        omega

end

/-! ## 全体 -/

/-- `argv` の中だけに書き、`argv[argc]` は NULL で、`argv[i]` は領域の中に続けて置かれた、NUL で終わる
`i` 番目の文字列の始まりである。 -/
structure ArgvSound (area : List UInt8) (argc : Int) (argv : Argv) : Prop where
  inside : ∀ k ∈ argv.written, 0 ≤ k ∧ k < argvLen
  null : argc ∈ argv.written ∧ argv.entry argc = none
  strings : ∃ strings tail, (strings.length : Int) = argc ∧ (∀ s ∈ strings, 0 ∉ s) ∧
    area = argBytes strings ++ tail ∧
    ∀ k < strings.length, argv.entry k = some (argBytes (strings.take k)).length

theorem length_le_count_argBytes (strings : List (List UInt8)) (tail : List UInt8) :
    strings.length ≤ (argBytes strings ++ tail).count 0 := by
  induction strings with
  | nil => exact Nat.zero_le _
  | cons s strings ih =>
    have hcons : argBytes (s :: strings) ++ tail = s ++ 0 :: (argBytes strings ++ tail) := by
      simp [argBytes]
    rw [hcons, List.count_append, List.count_cons_self, List.length_cons]
    omega

theorem readCommandLine_panicked (argCnt : Nat) (mem : List UInt8) :
    (readCommandLine argCnt mem).panicked
      = (readArgs mem (int32 argCnt).toNat 0 0 ⟨fun _ => none, []⟩).1 := by
  unfold readCommandLine
  cases h : (readArgs mem (int32 argCnt).toNat 0 0 ⟨fun _ => none, []⟩).1 with
  | true => simp only [h, if_true]
  | false => simp only [h, Bool.false_eq_true, if_false]

theorem readCommandLine_argv {argCnt : Nat} {mem : List UInt8} {argv : Argv}
    (h : readArgs mem (int32 argCnt).toNat 0 0 ⟨fun _ => none, []⟩ = (false, argv)) :
    (readCommandLine argCnt mem).argv = argv.write (int32 argCnt) none := by
  unfold readCommandLine
  simp only [h, Bool.false_eq_true, if_false]

theorem argvSound_of_le_count {area : List UInt8} (harea : area.length = loaderArgsLen)
    (rest : List UInt8) {argCnt : Nat} (hlt : argCnt < argvLen) (hle : argCnt ≤ area.count 0) :
    ArgvSound area (int32 argCnt) (readCommandLine argCnt (area ++ rest)).argv := by
  have hmax : argvLen = 65 := rfl
  have hargc : int32 argCnt = argCnt := int32_of_range ⟨by omega, by omega⟩
  obtain ⟨strings, tail, hcnt, hclean, hbytes, argv, hrun, hwritten, -, hentry⟩ :=
    readArgs_ok 0 ⟨fun _ => none, []⟩ (List.drop_zero (l := area ++ rest)) harea hle
  rw [readCommandLine_argv (by rwa [hargc, Int.toNat_natCast]), hargc]
  refine ⟨?_, ⟨by simp [Argv.write], by simp [Argv.write]⟩, strings, tail, by rw [hcnt], hclean,
    hbytes, ?_⟩
  · intro k hk
    simp only [Argv.write, hwritten, List.nil_append, List.mem_append, List.mem_map,
      List.mem_range'_1, List.mem_singleton] at hk
    rcases hk with ⟨j, hj, rfl⟩ | rfl <;> omega
  · intro k hk
    have hne : ¬(k : Int) = argCnt := by omega
    have hk' := hentry k (by omega)
    rw [Nat.zero_add, Nat.zero_add] at hk'
    exact (if_neg hne).trans hk'

/-- **`read_command_line` が約束を守るのは、引数の数を `int` と見て、NUL の数に対して PANIC するほど多い
か、`argv` の長さより小さく領域の NUL の数を越えないときである。** -/
theorem readCommandLine_sound_iff {area : List UInt8} (harea : area.length = loaderArgsLen)
    (rest : List UInt8) {argCnt : Nat} (hcnt : argCnt < 2 ^ 32) :
    ((readCommandLine argCnt (area ++ rest)).panicked = true ∨
        ArgvSound area (int32 argCnt) (readCommandLine argCnt (area ++ rest)).argv) ↔
      argCnt < 2 ^ 31 ∧ ((area.take 127).count 0 + 1 < argCnt ∨
        argCnt < argvLen ∧ argCnt ≤ area.count 0) := by
  have hmem : (area ++ rest).drop 0 = area ++ rest := List.drop_zero
  have hpanics := readArgs_panics_iff (int32 argCnt).toNat 0 ⟨fun _ => none, []⟩ hmem harea
  have hne : area ≠ [] := List.ne_nil_of_length_pos (harea ▸ by decide)
  have htake : area.dropLast = area.take 127 := by
    rw [List.dropLast_eq_take, harea]
    rfl
  rw [← readCommandLine_panicked, htake] at hpanics
  simp only [hne, false_or] at hpanics
  rw [hpanics]
  rcases Nat.lt_or_ge argCnt (2 ^ 31) with hsmall | hbig
  · rw [int32_of_range ⟨by omega, by omega⟩, Int.toNat_natCast]
    constructor
    · rintro (⟨-, hmany⟩ | hsound)
      · exact ⟨hsmall, .inl hmany⟩
      · obtain ⟨strings, tail, hlen, -, hbytes, -⟩ := hsound.strings
        have hbound := (hsound.inside _ hsound.null.1).2
        have hcount := length_le_count_argBytes strings tail
        rw [← hbytes] at hcount
        exact ⟨hsmall, .inr ⟨by omega, by omega⟩⟩
    · rintro ⟨-, hmany | ⟨hlt, hle⟩⟩
      · exact .inl ⟨by omega, hmany⟩
      · have hsound := argvSound_of_le_count harea rest hlt hle
        rw [int32_of_range ⟨by omega, by omega⟩] at hsound
        exact .inr hsound
  · -- `int` では負の数なので、for は回らず、`argv` の前に NULL を書く
    have hneg : int32 argCnt < 0 := by
      rw [int32_of_ge ⟨by omega, by omega⟩]
      omega
    constructor
    · rintro (⟨hpos, -⟩ | hsound)
      · omega
      · have hbound := (hsound.inside _ hsound.null.1).1
        omega
    · rintro ⟨hsmall, -⟩
      omega

/-- 空の引数が 65 個あると、65 個の要素を持つ `argv` の外に NULL を書く。 -/
theorem readCommandLine_writes_outside :
    ¬((readCommandLine 65 (List.replicate 128 0)).panicked = true ∨
      ArgvSound (List.replicate 128 0) 65 (readCommandLine 65 (List.replicate 128 0)).argv) := by
  have hwritten : (65 : Int) ∈ (readCommandLine 65 (List.replicate 128 0)).argv.written := by
    decide +kernel
  have hquiet : (readCommandLine 65 (List.replicate 128 0)).panicked = false := by
    decide +kernel
  rintro (hpanic | hsound)
  · rw [hquiet] at hpanic
    cases hpanic
  · exact absurd (hsound.inside _ hwritten).2 (by decide)

/-- `"-q"` という一つの引数は読める。 -/
theorem readCommandLine_sound_iff_one :
    (readCommandLine 1 (0x2d :: 0x71 :: List.replicate 126 0 ++ [])).panicked = true ∨
      ArgvSound (0x2d :: 0x71 :: List.replicate 126 0) (int32 1)
        (readCommandLine 1 (0x2d :: 0x71 :: List.replicate 126 0 ++ [])).argv :=
  (readCommandLine_sound_iff (by simp [loaderArgsLen]) [] (by decide)).mpr
    ⟨by decide, .inr ⟨by decide, by decide +kernel⟩⟩

end Pintos
