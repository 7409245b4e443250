import Pintos.Properties.MallocRun

/-!
# 渡された block の大きさ

`malloc (size)` の block が `size` byte 以上であるのは、`size + sizeof *a` が折り返さないときに
限る。折り返すと page の個数が 1 になり、4084 byte の block が渡される。
`calloc (a, b)` は積の折り返しを因数との比較で見つけるが、積が二つの因数より大きいまま
折り返す場合を通してしまう。
-/

namespace Pintos.Malloc

open Infra

section

variable {h h' : Heap} {live : List Nat} {r : Option Nat} {p : Nat}

theorem classSize_le {d : Nat} (hd : d < 7) : classSize d ≤ 1024 := by
  have h : ∀ d < 7, classSize d ≤ 1024 := by decide
  exact h d hd

theorem le_bigPageCnt_iff {size : Nat} (hsize : size < 2 ^ 32) (hpos : 0 < bigPageCnt size) :
    size ≤ pgSize * bigPageCnt size - arenaSize ↔ size < 2 ^ 32 - 11 := by
  have hcnt : bigPageCnt size = (size + 12 + 4096 - 1) % 2 ^ 32 / 4096 := rfl
  have hpg : pgSize = 4096 := rfl
  have harena : arenaSize = 12 := rfl
  rw [hpg, harena]
  omega

theorem malloc_capacity {size : Nat} (hs : Sound h live) (hsize : size < 2 ^ 32)
    (hm : malloc size r h = .ok (some p, h')) :
    ∃ n, blockSize p h' = .ok n ∧ n < 2 ^ 32 ∧ (size ≤ n ↔ size < 2 ^ 32 - 11) := by
  obtain ⟨p', h₁, hm', hs', -, hsome⟩ := malloc_ok hs size r
  rw [hm] at hm'
  cases hm'
  have hc := hs'.core
  rcases hsome p rfl with ⟨d, hle, page, i, ha, hi, rfl⟩ | ⟨page, hbig, rfl⟩
  · have hd := classSize_le ha.lt
    refine ⟨classSize d, ha.blockSize hc.config (hc.page_ne_zero ha.held) hi, by omega, ?_⟩
    exact ⟨fun _ => by omega, fun _ => hle⟩
  · obtain ⟨hpage, hpos, hend⟩ := hc.pages _ hbig.held
    simp only at hpage hpos hend
    refine ⟨_, hbig.blockSize (hc.page_ne_zero hbig.held) hpos (by omega), ?_,
      le_bigPageCnt_iff hsize hpos⟩
    have hpg : pgSize = 4096 := rfl
    rw [hpg]
    omega

theorem calloc_eq_some {a b : Nat} (hm : calloc a b r h = .ok (some p, h')) :
    ∃ h₁, malloc (a * b % 2 ^ 32) r h = .ok (some p, h₁) ∧
      h' = h₁.memset p 0 (a * b % 2 ^ 32) := by
  simp only [calloc] at hm
  split at hm
  · cases hm
  · obtain ⟨⟨q, h₁⟩, hmalloc, heq⟩ := map_eq_ok.mp hm
    cases q with
    | none => cases heq
    | some q =>
      cases heq
      exact ⟨h₁, hmalloc, rfl⟩

theorem calloc_capacity {a b : Nat} (hs : Sound h live)
    (hm : calloc a b r h = .ok (some p, h')) :
    (∃ n, blockSize p h' = .ok n ∧ a * b ≤ n ∧ ∀ k < a * b, h'.mem (p + k) = 0) ↔
      a * b < 2 ^ 32 - 11 := by
  obtain ⟨h₁, hmalloc, rfl⟩ := calloc_eq_some hm
  obtain ⟨n, hn, hlt, hiff⟩ := malloc_capacity hs (Nat.mod_lt _ (by decide)) hmalloc
  constructor
  · rintro ⟨m, hm', hle, -⟩
    -- `memset` は block の大きさを変えない
    have hsame : blockSize p h₁ = .ok m := hm'
    rw [hn] at hsame
    cases hsame
    have hmod : a * b % 2 ^ 32 = a * b := Nat.mod_eq_of_lt (by omega)
    rw [hmod] at hiff
    exact hiff.mp hle
  · intro hprod
    have hmod : a * b % 2 ^ 32 = a * b := Nat.mod_eq_of_lt (by omega)
    rw [hmod] at hiff ⊢
    refine ⟨n, hn, hiff.mpr hprod, fun k hk => ?_⟩
    exact if_pos ⟨Nat.le_add_right p k, Nat.add_lt_add_left hk p⟩

end

/-- **要求した大きさが守られる条件。** どの呼び出しの列の後でも、`malloc` の block が足りるのは
`size` が `2 ^ 32 - 11` 未満のとき、`calloc` の block が足りて 0 で埋まっているのは
数学の積が `2 ^ 32 - 11` 未満のときに限る。 -/
theorem malloc_calloc_size_iff {u : HeapUse} (hr : Reachable mallocSystem u) :
    (∀ (size : BitVec 32) r p h', malloc size.toNat r u.heap = .ok (some p, h') →
      ((∃ n, blockSize p h' = .ok n ∧ size.toNat ≤ n) ↔ size.toNat < 2 ^ 32 - 11)) ∧
    ∀ (a b : BitVec 32) r p h', calloc a.toNat b.toNat r u.heap = .ok (some p, h') →
      ((∃ n, blockSize p h' = .ok n ∧ a.toNat * b.toNat ≤ n ∧
        ∀ k < a.toNat * b.toNat, h'.mem (p + k) = 0) ↔ a.toNat * b.toNat < 2 ^ 32 - 11) := by
  have hs := sound_of_reachable hr
  refine ⟨fun size r p h' hm => ?_, fun a b r p h' hm => calloc_capacity hs hm⟩
  obtain ⟨n, hn, -, hiff⟩ := malloc_capacity hs size.isLt hm
  constructor
  · rintro ⟨m, hm', hle⟩
    rw [hn] at hm'
    cases hm'
    exact hiff.mp hle
  · exact fun hlt => ⟨n, hn, hiff.mpr hlt⟩

theorem exists_heap_of_any {x : Except MallocPanic (Option Nat × Heap)} {p n : Nat}
    (hx : x.toOption.any (fun y => y.1 = some p ∧ (blockSize p y.2).toOption = some n) = true) :
    ∃ h', x = .ok (some p, h') ∧ blockSize p h' = .ok n := by
  obtain ⟨⟨q, h'⟩, hxy, hy⟩ := (Option.any_eq_true _ _).mp hx
  obtain ⟨rfl, hn⟩ : q = some p ∧ (blockSize p h').toOption = some n := of_decide_eq_true hy
  exact ⟨h', toOption_eq_some.mp hxy, toOption_eq_some.mp hn⟩

/-- `malloc` と `free` の後の heap。`calloc` は返された block をもう一度渡す。 -/
theorem malloc_calloc_size_iff_reused : ∃ u, Reachable mallocSystem u ∧ u.live = [4108] ∧
    (∃ h', malloc (5000#32).toNat (some 3) u.heap = .ok (some 12300, h') ∧
      ∃ n, blockSize 12300 h' = .ok n ∧ (5000#32).toNat ≤ n) ∧
    ∃ h', calloc (30#32).toNat (20#32).toNat none u.heap = .ok (some 5132, h') ∧
      ∃ n, blockSize 5132 h' = .ok n ∧ (30#32).toNat * (20#32).toNat ≤ n ∧
        ∀ k < (30#32).toNat * (20#32).toNat, h'.mem (5132 + k) = 0 := by
  obtain ⟨u, hr, hu⟩ := exists_reachable_of_run
    [.malloc 1000 (some 1), .malloc 1000 none, .free (some 5132)] bootHeap_reachable
    (p := fun u => u.live = [4108] ∧
      ((malloc (5000#32).toNat (some 3) u.heap).toOption.any fun y =>
        y.1 = some 12300 ∧ (blockSize 12300 y.2).toOption = some 8180) = true ∧
      ((calloc (30#32).toNat (20#32).toNat none u.heap).toOption.any fun y =>
        y.1 = some 5132 ∧ (blockSize 5132 y.2).toOption = some 1024) = true) (by decide +kernel)
  obtain ⟨hlive, hmalloc, hcalloc⟩ := of_decide_eq_true hu
  obtain ⟨h₁, hm, -⟩ := exists_heap_of_any hmalloc
  obtain ⟨h₂, hc, -⟩ := exists_heap_of_any hcalloc
  exact ⟨u, hr, hlive, ⟨h₁, hm, ((malloc_calloc_size_iff hr).1 _ _ _ _ hm).mpr (by decide)⟩,
    h₂, hc, ((malloc_calloc_size_iff hr).2 _ _ _ _ _ hc).mpr (by decide)⟩

/-- `malloc (0xffffffff)` は 4084 byte の block を、`calloc (65537, 65537)` は 135156 byte の
block を返す。 -/
theorem exists_malloc_calloc_short : ∃ u, Reachable mallocSystem u ∧
    (∃ h', malloc (0xffffffff#32).toNat (some 1) u.heap = .ok (some 4108, h') ∧
      blockSize 4108 h' = .ok 4084 ∧ 4084 < (0xffffffff#32).toNat) ∧
    ∃ h', calloc (65537#32).toNat (65537#32).toNat (some 1) u.heap = .ok (some 4108, h') ∧
      blockSize 4108 h' = .ok 135156 ∧ 135156 < (65537#32).toNat * (65537#32).toNat := by
  obtain ⟨h₁, hm, hn⟩ : ∃ h', malloc (0xffffffff#32).toNat (some 1) bootHeap =
      .ok (some 4108, h') ∧ blockSize 4108 h' = .ok 4084 :=
    exists_heap_of_any (by decide +kernel)
  obtain ⟨h₂, hm', hn'⟩ : ∃ h', calloc (65537#32).toNat (65537#32).toNat (some 1) bootHeap =
      .ok (some 4108, h') ∧ blockSize 4108 h' = .ok 135156 :=
    exists_heap_of_any (by decide +kernel)
  exact ⟨⟨bootHeap, []⟩, bootHeap_reachable, ⟨h₁, hm, hn, by decide⟩, ⟨h₂, hm', hn', by decide⟩⟩

end Pintos.Malloc
