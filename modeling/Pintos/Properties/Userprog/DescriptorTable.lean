import Pintos.Properties.Userprog.Descriptor

/-!
# 表の外に出るとき

`open` は `next_fd` を `FDT_MAX` と比べずに `fdt[next_fd]` に書く。
fd は使い回されないので、127 回目の `open` は、閉じた fd があっても表の外に書く。
そのほかに表の外に出る system call は無い。開いていない fd は `exit(-1)` で終わる。
-/

namespace Pintos.Userprog

open Infra Function

variable {s : Tasks} {p : Pid}

/-- **system call が表の外に出ない。** -/
def InTable (s : Tasks) (p : Pid) (c : Call) : Prop := ∀ k, s.call p c ≠ .error (.outOfBounds k)

theorem inTable_iff_fits (h : TasksInv s) (hp : p ∈ s.live) (c : Call) :
    InTable s p c ↔ Fits s p c := by
  have ho := call_outcome h hp c
  unfold InTable
  generalize s.call p c = r at ho ⊢
  cases ho with
  | panic _ e hfits | plain _ v fs' hfits | exit _ hfits => exact iff_of_true nofun hfits
  | commandLine | closed | spawned | exited => exact iff_of_true nofun trivial
  | opened name f fs' hlt => exact iff_of_true nofun fun _ => hlt
  | full name hle hfound =>
    exact iff_of_false (fun hin => hin _ rfl) fun hfits => Nat.not_lt.mpr hle (hfits hfound)

theorem sysOpen_result (h : TasksInv s) (hp : p ∈ s.live) {name : CString} {fd : Int} {s' : Tasks}
    (he : s.call p (.sysOpen name) = .ok (fd, s')) :
    fd = -1 ∧ s'.task = s.task ∨
    ∃ (i : Fin fdtMax) (f : FileId) (fs₁ : Fs), fd = i ∧ 2 ≤ i.val ∧ (s.task p).fdt i = none ∧
      filesysOpen name s.fs = .ok (some f, fs₁) ∧ f ∉ s.fs.files ∧ (s'.task p).fdt i = some f := by
  have ho := call_outcome h hp (.sysOpen name)
  rw [he] at ho
  have hb := h.bounded p hp
  cases ho with
  | plain _ _ fs' hfits hopen => exact .inl ⟨hopen name rfl, rfl⟩
  | opened _ f fs' hlt hfound hs hk hnew =>
    obtain ⟨fs₁, hfound⟩ := hfound
    refine .inr ⟨⟨_, hlt⟩, f, fs₁, rfl, hb.ge, hb.empty _ (.inr (Nat.le_refl _)), hfound, hnew, ?_⟩
    show (update s.task p _ p).fdt _ = _
    rw [update_self]
    exact update_self ..

/-- 表の fd が指す file を変えるのは、その fd の `close` と `process_exit` だけである。 -/
theorem call_fdt (h : TasksInv s) {q : Pid} (hq : q ∈ s.live) (hp : p ∈ s.live) {c : Call} {v : Int}
    {s' : Tasks} (he : s.call q c = .ok (v, s')) {i : Fin fdtMax} {f : FileId}
    (hi : (s.task p).fdt i = some f) :
    (s'.task p).fdt i = some f ∨ q = p ∧ (c = .close i ∨ c = .processExit) := by
  have ho := call_outcome h hq c
  rw [he] at ho
  have hother : ∀ {t fs'}, p ≠ q → ((s.setTask q t fs').task p).fdt i = some f := by
    intro t fs' hne
    show (update s.task q t p).fdt i = some f
    rw [update_of_ne hne]
    exact hi
  by_cases hne : p = q
  · subst hne
    cases ho with
    | plain _ _ fs' => exact .inl hi
    | opened name g fs' hlt =>
      -- `open` は空いている添字に置く
      refine .inl ?_
      have hne : i ≠ ⟨_, hlt⟩ := by
        rintro rfl
        rw [(h.bounded p hp).empty _ (.inr (Nat.le_refl _))] at hi
        cases hi
      show (update s.task p _ p).fdt i = some f
      rw [update_self]
      exact (update_of_ne hne ..).trans hi
    | closed j g fs' hj =>
      by_cases hij : i = j
      · subst hij
        exact .inr ⟨rfl, .inl rfl⟩
      · refine .inl ?_
        show (update s.task p _ p).fdt i = some f
        rw [update_self]
        exact (update_of_ne hij ..).trans hi
    | spawned cmd =>
      refine .inl ?_
      show (update s.task s.nextPid _ p).fdt i = some f
      rw [update_of_ne (Nat.ne_of_lt (h.lt p hp))]
      exact hi
    | exited => exact .inr ⟨rfl, .inr rfl⟩
  · refine .inl ?_
    cases ho with
    | plain _ _ fs' => exact hi
    | opened | closed => exact hother hne
    | exited t' fs' => exact (hother hne : ((s.setTask q t' fs').task p).fdt i = some f)
    | spawned cmd =>
      show (update s.task s.nextPid _ p).fdt i = some f
      rw [update_of_ne (Nat.ne_of_lt (h.lt p hp))]
      exact hi

/--
**system call が表の外に出ないのは、`Fits` のときに限る。**

それまでの system call が表の外に出ていなければ、どの process でも次が成り立つ。

* `next_fd` は `FDT_MAX` を超えず、使っていない添字は空である
* 次の system call が表の外に出ないことは、`Fits` と同じである
* `open` が返す fd は 2 以上 `FDT_MAX` 未満で、空いていて、新しく開いた file を指す
* その file は、fd を閉じるか process が終わるまで変わらない
-/
theorem descriptor_table (h : Reachable tasks s) (hp : p ∈ s.live) :
    (s.task p).Bounded ∧
    (∀ c, InTable s p c ↔ Fits s p c) ∧
    (∀ name fd s', s.call p (.sysOpen name) = .ok (fd, s') →
      fd = -1 ∧ s'.task = s.task ∨
      ∃ (i : Fin fdtMax) (f : FileId) (fs₁ : Fs), fd = i ∧ 2 ≤ i.val ∧ (s.task p).fdt i = none ∧
        filesysOpen name s.fs = .ok (some f, fs₁) ∧ f ∉ s.fs.files ∧ (s'.task p).fdt i = some f) ∧
    ∀ q ∈ s.live, ∀ c v s', s.call q c = .ok (v, s') → ∀ i f, (s.task p).fdt i = some f →
      (s'.task p).fdt i = some f ∨ q = p ∧ (c = .close i ∨ c = .processExit) := by
  have hinv := reachable_tasksInv h
  exact ⟨hinv.bounded p hp, inTable_iff_fits hinv hp, fun _ _ _ he => sysOpen_result hinv hp he,
    fun q hq _ _ _ he _ _ hi => call_fdt hinv hq hp he hi⟩

/-- file を一つ作って二度開いた process。 -/
theorem descriptor_table_twice : ∃ s, Reachable tasks s ∧ 0 ∈ s.live ∧ (s.task 0).nextFd = 4 ∧
    (s.task 0).Bounded ∧ (InTable s 0 (.close 3) ↔ Fits s 0 (.close 3)) := by
  obtain ⟨s, h, hp⟩ := exists_reachable_of_calls 8 (by decide)
    [(0, .create ⟨[97], by decide⟩ 1), (0, .sysOpen ⟨[97], by decide⟩),
      (0, .sysOpen ⟨[97], by decide⟩)]
    (p := fun s => 0 ∈ s.live ∧ (s.task 0).nextFd = 4) (by decide +kernel)
  obtain ⟨hlive, hfd⟩ := of_decide_eq_true hp
  have ht := descriptor_table h hlive
  exact ⟨s, h, hlive, hfd, ht.1, ht.2.1 _⟩

/-- **127 回目の `open` は `fdt[128]` に書く。** -/
theorem exists_open_out_of_table : ∃ s, Reachable tasks s ∧ 0 ∈ s.live ∧
    s.call 0 (.sysOpen ⟨[97], by decide⟩) = .error (.outOfBounds 128) ∧
    ¬ InTable s 0 (.sysOpen ⟨[97], by decide⟩) := by
  obtain ⟨s, h, hp⟩ := exists_reachable_of_calls 8 (by decide)
    ((0, .create ⟨[97], by decide⟩ 1) :: List.replicate 126 (0, .sysOpen ⟨[97], by decide⟩))
    (p := fun s => 0 ∈ s.live ∧
      failure? (s.call 0 (.sysOpen ⟨[97], by decide⟩)) = some (.outOfBounds 128)) (by decide +kernel)
  obtain ⟨hlive, hcall⟩ := of_decide_eq_true hp
  have he := failure?_eq_some.mp hcall
  exact ⟨s, h, hlive, he, fun hin => hin 128 he⟩

end Pintos.Userprog
