import Pintos.Properties.Userprog.Descriptor

/-!
# 実行中の file への書き込み

`load` は開いた file を `exec_file` に置くが、`file_deny_write` は comment になっている。
書き込みを禁じるのは、process が自分の名前の file を `open` したときだけである。
そこで実行中の file への書き込みが 0 byte になるのは、
その inode の file のどれかが書き込みを禁じているときに限る（長さが足りないときを除く）。
-/

namespace Pintos.Userprog

open Infra

variable {s : Tasks} {p q : Pid} {fs : Fs} {f : FileId} {i : Fin fdtMax}

def Denied (fs : Fs) (j : InodeId) : Prop :=
  ∃ g ∈ fs.files, (fs.file g).inode = j ∧ (fs.file g).denyWrite = true

theorem denyWriteCnt_ne_zero_iff (h : Sound fs) {j : InodeId} (hj : j ∈ fs.openInodes) :
    (fs.inode j).denyWriteCnt ≠ 0 ↔ Denied fs j := by
  have hpos : 0 < fs.denyRefs j ↔ Denied fs j := by
    unfold Fs.denyRefs Denied
    rw [List.countP_pos_iff]
    simp only [decide_eq_true_eq]
  rw [h.files.deny j hj, ← hpos]
  omega

theorem Task.Bounded.two_le {t : Task} (h : t.Bounded) (hi : t.fdt i = some f) : 2 ≤ i.val := by
  by_contra hlt
  rw [h.empty i (by omega)] at hi
  cases hi

/-- **`write` が書く byte 数。** 禁じられていれば 0、そうでなければ file の終わりまでである。 -/
theorem write_eq (h : TasksInv s) (hp : p ∈ s.live) (hi : (s.task p).fdt i = some f)
    (buffer : List UInt8) :
    (Denied s.fs (s.fs.file f).inode → ∃ s', s.call p (.write i buffer) = .ok (0, s')) ∧
    (¬ Denied s.fs (s.fs.file f).inode → ∃ s', s.call p (.write i buffer) =
        .ok ((min buffer.length
          ((s.fs.inode (s.fs.file f).inode).data.length - (s.fs.file f).pos) : Nat), s') ∧
      s'.fs.device = s.fs.device.store (s.fs.inode (s.fs.file f).inode).data.start (s.fs.file f).pos
        (buffer.take (min buffer.length
          ((s.fs.inode (s.fs.file f).inode).data.length - (s.fs.file f).pos)))) := by
  have hf := h.handles p hp (.fd i) f hi
  have hopen := h.sound.files.isOpen f hf.1
  have hne : (i : Int) ≠ 1 := by
    have := (h.bounded p hp).two_le hi
    omega
  rw [← denyWriteCnt_ne_zero_iff h.sound hopen, not_not, Tasks.call, Tasks.write, if_neg hne,
    (h.bounded p hp).opened_eq, Task.file?_fin, hi]
  simp only [Except.bind, fileWrite]
  refine ⟨fun hd => ?_, fun hd => ?_⟩
  · rw [inodeWriteAt_denied hd]
    exact ⟨_, rfl⟩
  · rw [inodeWriteAt_eq hd (h.sound.fits hf.1)]
    exact ⟨_, rfl, rfl⟩

/--
**実行中の file への書き込みが 0 byte になるのは、誰かが書き込みを禁じているときに限る。**

* 実行中の file の inode への `write` が 0 を返すのは、その inode の file のどれかが
  書き込みを禁じているか、書く byte が無いか、位置が file の終わりを過ぎているときである
* 誰も禁じていなければ、`write` は file の終わりまで書く
* `load` が開いた file は、書き込みを禁じていない
-/
theorem write_executable (h : Reachable tasks s) :
    (∀ q ∈ s.live, ∀ e, (s.task q).execFile = some e → ∀ p ∈ s.live, ∀ i f,
      (s.task p).fdt i = some f → (s.fs.file f).inode = (s.fs.file e).inode → ∀ buffer,
      ∃ (n : Nat) (s' : Tasks), s.call p (.write i buffer) = .ok ((n : Int), s') ∧
        (n = 0 ↔ Denied s.fs (s.fs.file e).inode ∨ buffer = [] ∨
          (s.fs.inode (s.fs.file e).inode).data.length ≤ (s.fs.file f).pos)) ∧
    (∀ p ∈ s.live, ∀ i f, (s.task p).fdt i = some f → ¬ Denied s.fs (s.fs.file f).inode → ∀ buffer,
      ∃ s', s.call p (.write i buffer) =
          .ok ((min buffer.length
            ((s.fs.inode (s.fs.file f).inode).data.length - (s.fs.file f).pos) : Nat), s') ∧
        s'.fs.device = s.fs.device.store (s.fs.inode (s.fs.file f).inode).data.start
          (s.fs.file f).pos (buffer.take (min buffer.length
            ((s.fs.inode (s.fs.file f).inode).data.length - (s.fs.file f).pos)))) ∧
    ∀ q ∈ s.live, ∀ e, (s.task q).execFile = some e → (s.fs.file e).denyWrite = false := by
  have hinv := reachable_tasksInv h
  refine ⟨fun q hq e he p hp i f hi hsame buffer => ?_,
    fun p hp i f hi hd buffer => (write_eq hinv hp hi buffer).2 hd, hinv.allowed⟩
  obtain ⟨hdenied, hfree⟩ := write_eq hinv hp hi buffer
  rw [hsame] at hdenied hfree
  by_cases hd : Denied s.fs (s.fs.file e).inode
  · obtain ⟨s', hcall⟩ := hdenied hd
    exact ⟨0, s', hcall, iff_of_true rfl (.inl hd)⟩
  · obtain ⟨s', hcall, -⟩ := hfree hd
    refine ⟨_, s', hcall, ?_⟩
    rw [← List.length_eq_zero_iff]
    simp only [hd, false_or]
    omega

/-- program header の無い ELF の header。`load` の検査を通る。 -/
def elfHeader : List UInt8 :=
  [127, 69, 76, 70, 1, 1, 1, 0, 0, 0, 0, 0, 0, 0, 0, 0, 2, 0, 3, 0, 1, 0, 0, 0, 0, 128, 4, 8,
    52, 0, 0, 0, 0, 0, 0, 0, 0, 0, 0, 0, 52, 0, 32, 0, 0, 0, 0, 0, 0, 0, 0, 0]

/-- 実行できる file を置く。`fd` は `open` が返す fd である。 -/
def install (name : CString) (fd : Int) : List (Pid × Call) :=
  [(0, .create name elfHeader.length), (0, .sysOpen name), (0, .write fd elfHeader), (0, .close fd)]

/-- pid 1 は `"b"` を、pid 2 は `"a"` を実行し、pid 1 が `"a"` を開く。 -/
def runningCalls : List (Pid × Call) :=
  install ⟨[97], by decide⟩ 2 ++ install ⟨[98], by decide⟩ 3 ++
    [(0, .exec ⟨[98], by decide⟩), (1, .exec ⟨[97], by decide⟩), (1, .sysOpen ⟨[97], by decide⟩)]

/-- 実行中の process が自分の名前の file を開いていれば、書き込みは 0 byte である。 -/
theorem write_executable_denied : ∃ s, Reachable tasks s ∧ 2 ∈ s.live ∧
    ∃ s', s.call 1 (.write 2 [7]) = .ok (0, s') := by
  obtain ⟨s, h, hp⟩ := exists_reachable_of_calls 16 (by decide)
    (runningCalls.concat (2, .sysOpen ⟨[97], by decide⟩))
    (p := fun s : Tasks => decide (1 ∈ s.live ∧ 2 ∈ s.live) &&
      (s.task 2).execFile.any fun e => ((s.task 1).fdt ⟨2, (by decide : 2 < fdtMax)⟩).any fun f =>
        decide ((s.fs.file f).inode = (s.fs.file e).inode) &&
        s.fs.files.any fun g => decide ((s.fs.file g).inode = (s.fs.file e).inode) &&
          (s.fs.file g).denyWrite) (by decide +kernel)
  simp only [Bool.and_eq_true, decide_eq_true_eq, Option.any_eq_true, List.any_eq_true] at hp
  obtain ⟨⟨hp, hq⟩, e, he, f, hf, hsame, g, hg, hgi, hgd⟩ := hp
  obtain ⟨n, s', hcall, hn⟩ :=
    (write_executable h).1 2 hq e he 1 hp ⟨2, by decide⟩ f hf hsame [7]
  rw [hn.mpr (.inl ⟨g, hg, hgi, hgd⟩)] at hcall
  exact ⟨s, h, hq, s', hcall⟩

/-- **実行中の file に 1 byte 書ける。** pid 2 の `exec_file` と同じ inode に、pid 1 が書く。 -/
theorem exists_write_running : ∃ s e f, Reachable tasks s ∧ 2 ∈ s.live ∧
    (s.task 2).execFile = some e ∧ (s.task 1).fdt ⟨2, by decide⟩ = some f ∧
    (s.fs.file f).inode = (s.fs.file e).inode ∧ ∃ s', s.call 1 (.write 2 [7]) = .ok (1, s') := by
  obtain ⟨s, h, hp⟩ := exists_reachable_of_calls 16 (by decide) runningCalls
    (p := fun s : Tasks => decide (2 ∈ s.live) &&
      ((s.task 2).execFile.any fun e => ((s.task 1).fdt ⟨2, (by decide : 2 < fdtMax)⟩).any fun f =>
        decide ((s.fs.file f).inode = (s.fs.file e).inode)) &&
      (s.call 1 (.write 2 [7])).toOption.any fun r : Int × Tasks => decide (r.1 = 1))
    (by decide +kernel)
  simp only [Bool.and_eq_true, decide_eq_true_eq, Option.any_eq_true] at hp
  obtain ⟨⟨hq, e, he, f, hf, hsame⟩, r, hr, hone⟩ := hp
  refine ⟨s, e, f, h, hq, he, hf, hsame, r.2, ?_⟩
  rw [toOption_eq_some.mp hr, ← hone]

end Pintos.Userprog
