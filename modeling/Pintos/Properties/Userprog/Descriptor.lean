import Pintos.Properties.Filesys.Handles
import Pintos.Userprog.Descriptor

/-!
# 表の不変量

どの process の表も `next_fd` までしか使われず、表と `exec_file` に置いた file は
どれも開いていて、二つの場所に同じ file は無い（`TasksInv`）。

system call がどう終わるかを `Outcome` に並べる。表の外に出るのは、表が一杯のときの `open` だけである。
-/

namespace Pintos.Userprog

open Infra Function

variable {s : Tasks} {p q : Pid} {t t' : Task} {fs fs' : Fs} {f g : FileId} {fd : Int} {c : Call}

/-! ## 一つの表 -/

/-- `next_fd` は 2 から `FDT_MAX` までで、表の残りは空いている。 -/
structure Task.Bounded (t : Task) : Prop where
  ge : 2 ≤ t.nextFd
  le : t.nextFd ≤ fdtMax
  empty : ∀ i : Fin fdtMax, i.val < 2 ∨ t.nextFd ≤ i.val → t.fdt i = none

theorem Task.bounded_init (name : List UInt8) : (Task.init name).Bounded :=
  ⟨Nat.le_refl 2, (by decide : 2 ≤ fdtMax), fun _ _ => rfl⟩

theorem Task.file?_eq_some (h : t.file? fd = some f) :
    ∃ i : Fin fdtMax, (i : Int) = fd ∧ t.fdt i = some f := by
  unfold Task.file? at h
  split at h
  · next hfd => exact ⟨⟨fd.toNat, hfd.2⟩, Int.toNat_of_nonneg hfd.1, h⟩
  · cases h

theorem Task.file?_fin (t : Task) (i : Fin fdtMax) : t.file? i = t.fdt i := by
  unfold Task.file?
  rw [dif_pos ⟨Int.natCast_nonneg _, by rw [Int.toNat_natCast]; exact i.isLt⟩]
  rfl

theorem Task.slot_fin (t : Task) (i : Fin fdtMax) : t.slot i = .ok (t.fdt i) := by
  unfold Task.slot
  rw [dif_pos ⟨Int.natCast_nonneg _, by rw [Int.toNat_natCast]; exact i.isLt⟩]
  rfl

theorem Task.setSlot_fin (t : Task) (i : Fin fdtMax) (o : Option FileId) :
    t.setSlot i o = .ok { t with fdt := update t.fdt i o } := by
  unfold Task.setSlot
  rw [dif_pos ⟨Int.natCast_nonneg _, by rw [Int.toNat_natCast]; exact i.isLt⟩]
  rfl

namespace Task.Bounded

/-- **`next_fd` が `FDT_MAX` を超えなければ、検査は表の外を読まない。** -/
theorem opened_eq (h : t.Bounded) (fd : Int) : t.opened fd = .ok (t.file? fd) := by
  have hle := h.le
  unfold Task.opened
  split
  · next hfd =>
    have hlt : fd.toNat < fdtMax := by omega
    obtain ⟨i, rfl⟩ : ∃ i : Fin fdtMax, (i : Int) = fd :=
      ⟨⟨fd.toNat, hlt⟩, Int.toNat_of_nonneg (by omega)⟩
    rw [t.slot_fin, t.file?_fin]
  · next hfd =>
    cases hf : t.file? fd with
    | none => rfl
    | some f =>
      obtain ⟨i, rfl, hi⟩ := Task.file?_eq_some hf
      rw [h.empty i (by omega)] at hi
      cases hi

theorem validateFd_eq (h : t.Bounded) (fd : Int) :
    t.validateFd fd = match t.file? fd with | some f => .ok f | none => .error (.exit (-1)) := by
  unfold Task.validateFd
  rw [h.opened_eq]
  rfl

theorem push (h : t.Bounded) (hlt : t.nextFd < fdtMax) (f : FileId) :
    Task.Bounded
      { t with fdt := update t.fdt ⟨t.nextFd, hlt⟩ (some f), nextFd := t.nextFd + 1 } where
  ge := Nat.le_succ_of_le h.ge
  le := hlt
  empty i hi := by
    have hge := h.ge
    have hne : i ≠ ⟨t.nextFd, hlt⟩ := by
      rintro rfl
      dsimp only at hi
      omega
    exact (update_of_ne hne ..).trans (h.empty i (by dsimp only at hi; omega))

theorem clear (h : t.Bounded) (i : Fin fdtMax) :
    Task.Bounded { t with fdt := update t.fdt i none } where
  ge := h.ge
  le := h.le
  empty j hj := by
    by_cases hji : j = i
    · rw [hji]
      exact update_self ..
    · exact (update_of_ne hji ..).trans (h.empty j hj)

end Task.Bounded

/-! ## 持ち主 -/

/-- process が file を置く場所。 -/
inductive Slot
  | exec
  | fd (i : Fin fdtMax)

def Task.get (t : Task) : Slot → Option FileId
  | .exec => t.execFile
  | .fd i => t.fdt i

structure TasksInv (s : Tasks) : Prop where
  sound : Sound s.fs
  nodup : s.live.Nodup
  lt : ∀ p ∈ s.live, p < s.nextPid
  bounded : ∀ p ∈ s.live, (s.task p).Bounded
  handles : ∀ p ∈ s.live, ∀ a f, (s.task p).get a = some f → s.fs.handles f
  inj : ∀ p ∈ s.live, ∀ q ∈ s.live, ∀ a b f, (s.task p).get a = some f →
    (s.task q).get b = some f → p = q ∧ a = b
  /-- `load` が開いた file は、書き込みを禁じていない。 -/
  allowed : ∀ p ∈ s.live, ∀ f, (s.task p).execFile = some f → (s.fs.file f).denyWrite = false

namespace TasksInv

/-- どの場所の file も、前から同じ場所にあって残っているか、新しく置いたもの（`P`）である。 -/
theorem of_new {s' : Tasks} {P : Pid → Slot → FileId → Prop} (h : TasksInv s) (hs : Sound s'.fs)
    (hnd : s'.live.Nodup) (hlt : ∀ q ∈ s'.live, q < s'.nextPid)
    (hb : ∀ q ∈ s'.live, (s'.task q).Bounded)
    (hcases : ∀ q ∈ s'.live, ∀ a g, (s'.task q).get a = some g →
      (q ∈ s.live ∧ (s.task q).get a = some g ∧ Keeps s.fs s'.fs g) ∨ P q a g)
    (hnew : ∀ q a g, P q a g → g ∉ s.fs.files ∧ s'.fs.handles g ∧
      (a = .exec → (s'.fs.file g).denyWrite = false))
    (hunique : ∀ q r a b g, P q a g → P r b g → q = r ∧ a = b) : TasksInv s' := by
  refine ⟨hs, hnd, hlt, hb, fun q hq a g hg => ?_, fun q hq r hr a b g ha hb => ?_,
    fun q hq g hg => ?_⟩
  · rcases hcases q hq a g hg with ⟨hq, hold, hkeep⟩ | hn
    · exact (hkeep (h.handles q hq a g hold)).1
    · exact (hnew q a g hn).2.1
  · rcases hcases q hq a g ha with ⟨hq, hold, -⟩ | hn
    · rcases hcases r hr b g hb with ⟨hr, hold', -⟩ | hn'
      · exact h.inj q hq r hr a b g hold hold'
      · exact absurd (h.handles q hq a g hold).1 (hnew r b g hn').1
    · rcases hcases r hr b g hb with ⟨hr, hold', -⟩ | hn'
      · exact absurd (h.handles r hr b g hold').1 (hnew q a g hn).1
      · exact hunique q r a b g hn hn'
  · rcases hcases q hq .exec g hg with ⟨hq, hold, hkeep⟩ | hn
    · exact (hkeep (h.handles q hq .exec g hold)).2.2.trans (h.allowed q hq g hold)
    · exact (hnew q .exec g hn).2.2 rfl

theorem setFs (h : TasksInv s) (hs : Sound fs') (hk : ∀ g, Keeps s.fs fs' g) :
    TasksInv { s with fs := fs' } :=
  h.of_new (P := fun _ _ _ => False) hs h.nodup h.lt h.bounded
    (fun _ hq _ g hg => .inl ⟨hq, hg, hk g⟩) nofun nofun

theorem setTask (h : TasksInv s) (hp : p ∈ s.live) (hs : Sound fs') (hb : t'.Bounded)
    (new : Option (Fin fdtMax × FileId))
    (hnew : ∀ i g, new = some (i, g) → g ∉ s.fs.files ∧ fs'.handles g)
    (hother : ∀ q ∈ s.live, q ≠ p → ∀ a g, (s.task q).get a = some g → Keeps s.fs fs' g)
    (hown : ∀ a g, t'.get a = some g → (s.task p).get a = some g ∧ Keeps s.fs fs' g ∨
      ∃ i, a = .fd i ∧ new = some (i, g)) : TasksInv (s.setTask p t' fs') := by
  refine h.of_new (P := fun q a g => q = p ∧ ∃ i, a = .fd i ∧ new = some (i, g)) hs h.nodup h.lt
    (fun q hq => ?_) (fun q hq a g hg => ?_) ?_ ?_
  · by_cases hqp : q = p
    · subst hqp
      have hself : (s.setTask q t' fs').task q = t' := update_self ..
      rw [hself]
      exact hb
    · have hsame : (s.setTask p t' fs').task q = s.task q := update_of_ne hqp ..
      rw [hsame]
      exact h.bounded q hq
  · by_cases hqp : q = p
    · subst hqp
      have hself : (s.setTask q t' fs').task q = t' := update_self ..
      rw [hself] at hg
      exact (hown a g hg).imp (fun hold => ⟨hq, hold⟩) fun hn => ⟨rfl, hn⟩
    · have hsame : (s.setTask p t' fs').task q = s.task q := update_of_ne hqp ..
      rw [hsame] at hg
      exact .inl ⟨hq, hg, hother q hq hqp a g hg⟩
  · rintro q a g ⟨-, i, rfl, hn⟩
    exact ⟨(hnew i g hn).1, (hnew i g hn).2, nofun⟩
  · rintro q r a b g ⟨rfl, i, rfl, hn⟩ ⟨rfl, j, rfl, hn'⟩
    cases hn.symm.trans hn'
    exact ⟨rfl, rfl⟩

theorem spawn (h : TasksInv s) (hs : Sound fs') (hk : ∀ g, Keeps s.fs fs' g) (hb : t'.Bounded)
    (hfdt : ∀ i, t'.fdt i = none)
    (hexec : ∀ f, t'.execFile = some f →
      f ∉ s.fs.files ∧ fs'.handles f ∧ (fs'.file f).denyWrite = false) :
    TasksInv (s.spawn t' fs') := by
  have hold : ∀ q ∈ s.live, (s.spawn t' fs').task q = s.task q := fun q hq =>
    update_of_ne (Nat.ne_of_lt (h.lt q hq)) ..
  have hself : (s.spawn t' fs').task s.nextPid = t' := update_self ..
  have hget : ∀ {a g}, t'.get a = some g → a = .exec ∧ t'.execFile = some g := by
    intro a g hg
    cases a with
    | exec => exact ⟨rfl, hg⟩
    | fd i => exact nomatch (hfdt i).symm.trans hg
  refine h.of_new (P := fun q a g => q = s.nextPid ∧ a = .exec ∧ t'.execFile = some g) hs ?_
    (fun q hq => ?_) (fun q hq => ?_) (fun q hq a g hg => ?_) ?_ ?_
  · refine List.nodup_append.mpr ⟨h.nodup, List.nodup_singleton _, ?_⟩
    rintro q hq r hr rfl
    exact Nat.lt_irrefl _ (List.mem_singleton.mp hr ▸ h.lt q hq)
  · rcases List.mem_append.mp hq with hq | hq
    · exact Nat.lt_succ_of_lt (h.lt q hq)
    · rw [List.mem_singleton.mp hq]
      exact Nat.lt_succ_self _
  · rcases List.mem_append.mp hq with hq | hq
    · rw [hold q hq]
      exact h.bounded q hq
    · rw [List.mem_singleton.mp hq, hself]
      exact hb
  · rcases List.mem_append.mp hq with hq | hq
    · rw [hold q hq] at hg
      exact .inl ⟨hq, hg, hk g⟩
    · rw [List.mem_singleton.mp hq, hself] at hg
      exact .inr ⟨List.mem_singleton.mp hq, hget hg⟩
  · rintro q a g ⟨-, rfl, hg⟩
    obtain ⟨hn, hf, hd⟩ := hexec g hg
    exact ⟨hn, hf, fun _ => hd⟩
  · rintro q r a b g ⟨rfl, rfl, -⟩ ⟨rfl, rfl, -⟩
    exact ⟨rfl, rfl⟩

theorem erase (h : TasksInv s) (hs : Sound fs')
    (hother : ∀ q ∈ s.live, q ≠ p → ∀ a g, (s.task q).get a = some g → Keeps s.fs fs' g) :
    TasksInv { s.setTask p t' fs' with live := s.live.erase p } := by
  have hlive : ∀ {q}, q ∈ s.live.erase p → q ∈ s.live ∧ q ≠ p := fun hq =>
    (h.nodup.mem_erase_iff.mp hq).symm
  have htask : ∀ {q}, q ∈ s.live.erase p → (s.setTask p t' fs').task q = s.task q := fun hq =>
    update_of_ne (hlive hq).2 ..
  refine h.of_new (P := fun _ _ _ => False) hs (h.nodup.erase p) (fun q hq => h.lt q (hlive hq).1)
    (fun q hq => (htask hq).symm ▸ h.bounded q (hlive hq).1) (fun q hq a g hg => .inl ?_) nofun nofun
  have hg : (s.task q).get a = some g := htask hq ▸ hg
  exact ⟨(hlive hq).1, hg, hother q (hlive hq).1 (hlive hq).2 a g hg⟩

end TasksInv

/-! ## `process_exit` の for -/

/-- **表の中だけを閉じて回る。** 回った範囲の file はすべて閉じ、表に無い file は閉じない。 -/
theorem closeFrom_ok (n : Nat) {k : Nat} (hn : k + n ≤ fdtMax) (hs : Sound fs)
    (hh : ∀ i f, t.fdt i = some f → fs.handles f)
    (hinj : ∀ i j f, t.fdt i = some f → t.fdt j = some f → i = j) :
    ∃ t' fs', Tasks.closeFrom n k t fs = .ok (t', fs') ∧ Sound fs' ∧ fs'.files ⊆ fs.files ∧
      (∀ i f, t.fdt i = some f → k ≤ i.val → i.val < k + n → f ∉ fs'.files) ∧
      ∀ g, (∀ i, t.fdt i ≠ some g) → Keeps fs fs' g := by
  induction n generalizing k t fs with
  | zero =>
    exact ⟨t, fs, rfl, hs, List.Subset.refl _, fun _ _ _ hge hlt => absurd hge (Nat.not_le.mpr hlt),
      fun g _ => Keeps.refl fs g⟩
  | succ n ih =>
    have hk : k < fdtMax := by omega
    have hslot := t.slot_fin ⟨k, hk⟩
    rw [Tasks.closeFrom, hslot]
    cases hf : t.fdt ⟨k, hk⟩ with
    | none =>
      obtain ⟨t', fs', he', hs', hsub, hclosed, hkeep⟩ := ih (k := k + 1) (by omega) hs hh hinj
      refine ⟨t', fs', he', hs', hsub, fun i f hi hge hlt => hclosed i f hi ?_ (by omega), hkeep⟩
      refine Nat.lt_of_le_of_ne hge fun hik => ?_
      rw [show i = ⟨k, hk⟩ from Fin.ext hik.symm, hf] at hi
      cases hi
    | some f =>
      obtain ⟨fs₁, he, hs₁, hfiles, hkeep⟩ := hs.fileClose_spec (hh _ f hf)
      -- 閉じた file は表のほかの場所には無い
      have hold : ∀ {i g}, update t.fdt ⟨k, hk⟩ none i = some g →
          t.fdt i = some g ∧ g ≠ f := by
        intro i g hg
        by_cases hi : i = ⟨k, hk⟩
        · rw [hi, update_self] at hg
          cases hg
        · rw [update_of_ne hi] at hg
          refine ⟨hg, ?_⟩
          rintro rfl
          exact hi (hinj i _ g hg hf)
      obtain ⟨t', fs', he', hs', hsub, hclosed, hkeep'⟩ :=
        ih (k := k + 1) (t := { t with fdt := update t.fdt ⟨k, hk⟩ none }) (by omega) hs₁
          (fun i g hg => (hkeep g (hold hg).2 (hh i g (hold hg).1)).1)
          fun i j g hi hj => hinj i j g (hold hi).1 (hold hj).1
      rw [hfiles] at hsub
      refine ⟨t', fs', ?_, hs', fun g hg => List.mem_of_mem_erase (hsub hg), fun i g hi hge hlt => ?_,
        fun g hg => ?_⟩
      · simp only [Except.bind, he, onFs]
        rw [t.setSlot_fin ⟨k, hk⟩ none]
        exact he'
      · by_cases hik : i = ⟨k, hk⟩
        · rw [hik, hf] at hi
          cases hi
          exact fun hg => hs.files.nodup.not_mem_erase (hsub hg)
        · have hne : i.val ≠ k := fun hv => hik (Fin.ext hv)
          exact hclosed i g ((update_of_ne hik ..).trans hi) (by omega) (by omega)
      · have hne : g ≠ f := fun he => hg _ (he ▸ hf)
        exact (hkeep g hne).trans (hkeep' g fun i hi => hg i (hold hi).1)

/-! ## system call の終わり方 -/

/-- 表の外に出ない system call。`open` は、file を開けるなら表に空きがある。 -/
def Fits (s : Tasks) (p : Pid) : Call → Prop
  | .sysOpen name =>
    (∃ f fs', filesysOpen name s.fs = .ok (some f, fs')) → (s.task p).nextFd < fdtMax
  | _ => True

inductive Outcome (s : Tasks) (p : Pid) : Call → Except Fault (Int × Tasks) → Prop
  | panic (c : Call) (e : FsPanic) (hfits : Fits s p c) : Outcome s p c (.error (.panic e))
  | commandLine (cmd : CString) : Outcome s p (.exec cmd) (.error .commandLine)
  /-- どの表も変わらない。 -/
  | plain (c : Call) (v : Int) (fs' : Fs) (hfits : Fits s p c)
      (hopen : ∀ name, c = .sysOpen name → v = -1) (hs : Sound fs') (hk : ∀ g, Keeps s.fs fs' g) :
      Outcome s p c (.ok (v, { s with fs := fs' }))
  | opened (name : CString) (f : FileId) (fs' : Fs) (hlt : (s.task p).nextFd < fdtMax)
      (hfound : ∃ fs₁, filesysOpen name s.fs = .ok (some f, fs₁)) (hs : Sound fs')
      (hk : ∀ g, g ≠ f → Keeps s.fs fs' g) (hnew : f ∉ s.fs.files) (hf : fs'.handles f) :
      Outcome s p (.sysOpen name) (.ok ((s.task p).nextFd, s.setTask p
        { s.task p with
          fdt := update (s.task p).fdt ⟨(s.task p).nextFd, hlt⟩ (some f)
          nextFd := (s.task p).nextFd + 1 } fs'))
  | full (name : CString) (hle : fdtMax ≤ (s.task p).nextFd)
      (hfound : ∃ f fs', filesysOpen name s.fs = .ok (some f, fs')) :
      Outcome s p (.sysOpen name) (.error (.outOfBounds (s.task p).nextFd))
  | closed (i : Fin fdtMax) (f : FileId) (fs' : Fs) (hi : (s.task p).fdt i = some f) (hs : Sound fs')
      (hk : ∀ g, g ≠ f → Keeps s.fs fs' g) :
      Outcome s p (.close i) (.ok (0, s.setTask p
        { s.task p with fdt := update (s.task p).fdt i none } fs'))
  /-- `validate_fd` が、開いていない fd で `exit(-1)` を呼んだ。 -/
  | exit (c : Call) (hfits : Fits s p c) : Outcome s p c (.error (.exit (-1)))
  | spawned (cmd : CString) (name : List UInt8) (o : Option FileId) (fs' : Fs) (hs : Sound fs')
      (hk : ∀ g, Keeps s.fs fs' g)
      (ho : ∀ f, o = some f → f ∉ s.fs.files ∧ fs'.handles f ∧ (fs'.file f).denyWrite = false) :
      Outcome s p (.exec cmd)
        (.ok (s.nextPid, s.spawn { Task.init name with execFile := o } fs'))
  | exited (t' : Task) (fs' : Fs) (hs : Sound fs')
      (hk : ∀ g, (∀ a, (s.task p).get a ≠ some g) → Keeps s.fs fs' g) :
      Outcome s p .processExit (.ok (0, { s.setTask p t' fs' with live := s.live.erase p }))

section

variable (h : TasksInv s) (hp : p ∈ s.live)
include h hp

omit hp in
theorem sysOpen_outcome (name : CString) : Outcome s p (.sysOpen name) (s.sysOpen p name) := by
  unfold Tasks.sysOpen
  dsimp only
  rcases h.sound.filesysOpen_spec name with ⟨fs', he, hs, hk⟩ | ⟨f, fs', he, hs, hk, hnew, hf, -⟩
  · rw [he]
    refine .plain _ _ fs' ?_ (fun _ _ => rfl) hs hk
    rintro ⟨f, fs'', he'⟩
    cases he.symm.trans he'
  · rw [he]
    -- 名前が thread の名前なら、書き込みを禁じる
    have hdeny : ∃ fs₂, (if name.val = (s.task p).name then onFs (fileDenyWrite f fs') else .ok fs') =
        .ok fs₂ ∧ Sound fs₂ ∧ fs₂.handles f ∧ ∀ g, g ≠ f → Keeps s.fs fs₂ g := by
      split
      · obtain ⟨fs₂, he₂, hs₂, hf₂, hk₂⟩ := hs.fileDenyWrite_spec hf
        exact ⟨fs₂, by rw [he₂]; rfl, hs₂, hf₂, fun g hne => (hk g).trans (hk₂ g hne)⟩
      · exact ⟨fs', rfl, hs, hf, fun g _ => hk g⟩
    obtain ⟨fs₂, he₂, hs₂, hf₂, hk₂⟩ := hdeny
    simp only [onFs, Except.bind] at he₂ ⊢
    rw [he₂]
    by_cases hlt : (s.task p).nextFd < fdtMax
    · have hset := (s.task p).setSlot_fin ⟨_, hlt⟩ (some f)
      dsimp only at hset ⊢
      rw [hset]
      exact .opened name f fs₂ hlt ⟨fs', he⟩ hs₂ hk₂ hnew hf₂
    · have hset : (s.task p).setSlot (s.task p).nextFd (some f) =
          .error (.outOfBounds (s.task p).nextFd) := dif_neg fun hfd => hlt (by omega)
      dsimp only
      rw [hset]
      exact .full name (Nat.not_lt.mp hlt) ⟨f, fs', he⟩

theorem close_outcome (fd : Int) : Outcome s p (.close fd) (s.close p fd) := by
  unfold Tasks.close
  dsimp only
  rw [(h.bounded p hp).validateFd_eq]
  cases hf : (s.task p).file? fd with
  | none => exact .exit _ trivial
  | some f =>
    obtain ⟨i, rfl, hi⟩ := Task.file?_eq_some hf
    -- `exec_file` は表の file とは別に開いてある
    have hexec : (s.task p).execFile ≠ some f := fun he =>
      nomatch (h.inj p hp p hp .exec (.fd i) f he hi).2
    obtain ⟨fs', he, hs, -, hk⟩ := h.sound.fileClose_spec (h.handles p hp (.fd i) f hi)
    simp only [Except.bind, if_neg hexec, he, onFs, (s.task p).setSlot_fin i none, Except.map]
    exact .closed i f fs' hi hs hk

theorem read_outcome (fd : Int) (size : Nat) (typed : List UInt8) :
    Outcome s p (.read fd size typed) (s.read p fd size typed) := by
  unfold Tasks.read
  split
  · exact .plain _ _ s.fs trivial nofun h.sound (Keeps.refl s.fs)
  · rw [(h.bounded p hp).opened_eq]
    cases hf : (s.task p).file? fd with
    | none => exact .plain _ _ s.fs trivial nofun h.sound (Keeps.refl s.fs)
    | some f =>
      obtain ⟨i, -, hi⟩ := Task.file?_eq_some hf
      obtain ⟨bytes, fs', he, hs, hk⟩ := h.sound.fileRead_spec (h.handles p hp (.fd i) f hi) size
      simp only [Except.bind, he, onFs, Except.map]
      exact .plain _ _ fs' trivial nofun hs hk

theorem write_outcome (fd : Int) (buffer : List UInt8) :
    Outcome s p (.write fd buffer) (s.write p fd buffer) := by
  unfold Tasks.write
  split
  · exact .plain _ _ s.fs trivial nofun h.sound (Keeps.refl s.fs)
  · rw [(h.bounded p hp).opened_eq]
    cases hf : (s.task p).file? fd with
    | none => exact .plain _ _ s.fs trivial nofun h.sound (Keeps.refl s.fs)
    | some f =>
      obtain ⟨i, -, hi⟩ := Task.file?_eq_some hf
      obtain ⟨n, fs', he, hs, hk⟩ := h.sound.fileWrite_spec (h.handles p hp (.fd i) f hi) buffer
      simp only [Except.bind, he, onFs, Except.map]
      exact .plain _ _ fs' trivial nofun hs hk

theorem seek_outcome (fd position : Int) : Outcome s p (.seek fd position) (s.seek p fd position) := by
  unfold Tasks.seek
  rw [(h.bounded p hp).validateFd_eq]
  cases hf : (s.task p).file? fd with
  | none => exact .exit _ trivial
  | some f =>
    rcases h.sound.fileSeek_spec (f := f) (int32 position) with he | ⟨fs', he, hs, hk⟩
    · simp only [Except.bind, he, onFs, Except.map]
      exact .panic _ _ trivial
    · simp only [Except.bind, he, onFs, Except.map]
      exact .plain _ _ fs' trivial nofun hs hk

theorem query_outcome {c : Call} (fd : Int) (hc : ∀ name, c ≠ .sysOpen name)
    (hfits : Fits s p c) (value : FileId → Int) :
    Outcome s p c (((s.task p).validateFd fd).map fun f => (value f, s)) := by
  rw [(h.bounded p hp).validateFd_eq]
  cases hf : (s.task p).file? fd with
  | none => exact .exit _ hfits
  | some f =>
    exact .plain _ _ s.fs hfits (fun name hn => absurd hn (hc name)) h.sound (Keeps.refl s.fs)

omit hp in
theorem exec_outcome (cmd : CString) : Outcome s p (.exec cmd) (s.exec cmd) := by
  unfold Tasks.exec
  split
  · exact .commandLine cmd
  · dsimp only
    split
    · exact .spawned cmd _ none s.fs h.sound (Keeps.refl s.fs) nofun
    · rcases h.sound.filesysOpen_spec (programName cmd) with
        ⟨fs', he, hs, hk⟩ | ⟨f, fs', he, hs, hk, hnew, hf, hd⟩
      · rw [he]
        exact .spawned cmd _ none fs' hs hk nofun
      · rw [he]
        refine .spawned cmd _ (some f) fs' hs hk fun g hg => ?_
        cases hg
        exact ⟨hnew, hf, hd⟩

/-- **`process_exit` は必ず終わり、process の file をすべて閉じる。** -/
theorem processExit_spec : ∃ t' fs',
    s.call p .processExit = .ok (0, { s.setTask p t' fs' with live := s.live.erase p }) ∧ Sound fs' ∧
      (∀ a f, (s.task p).get a = some f → f ∉ fs'.files) ∧
      ∀ g, (∀ a, (s.task p).get a ≠ some g) → Keeps s.fs fs' g := by
  -- 先に `exec_file` を閉じる
  have hexec : ∃ fs₁, Tasks.closeExec (s.task p) s.fs = .ok fs₁ ∧ Sound fs₁ ∧
      fs₁.files ⊆ s.fs.files ∧ (∀ f, (s.task p).execFile = some f → f ∉ fs₁.files) ∧
      ∀ g, (s.task p).execFile ≠ some g → Keeps s.fs fs₁ g := by
    unfold Tasks.closeExec
    cases he : (s.task p).execFile with
    | none =>
      exact ⟨s.fs, rfl, h.sound, List.Subset.refl _, nofun, fun g _ => Keeps.refl s.fs g⟩
    | some f =>
      obtain ⟨fs₁, hc, hs₁, hfiles, hk₁⟩ := h.sound.fileClose_spec (h.handles p hp .exec f he)
      refine ⟨fs₁, by simp only [onFs, hc], hs₁, fun g hg => ?_, fun g hg => ?_, fun g hg => hk₁ g ?_⟩
      · rw [hfiles] at hg
        exact List.mem_of_mem_erase hg
      · cases hg
        rw [hfiles]
        exact h.sound.files.nodup.not_mem_erase
      · rintro rfl
        exact hg rfl
  obtain ⟨fs₁, hc, hs₁, hsub₁, hclosed₁, hk₁⟩ := hexec
  have hb := h.bounded p hp
  obtain ⟨t', fs', he, hs, hsub, hclosed, hk⟩ := closeFrom_ok (t := { s.task p with execFile := none })
    ((s.task p).nextFd - 2) (k := 2) (by have := hb.ge; have := hb.le; omega) hs₁
    (fun i f hf => (hk₁ f (fun hx => nomatch (h.inj p hp p hp .exec (.fd i) f hx hf).2)
      (h.handles p hp (.fd i) f hf)).1)
    fun i j f hi hj => Slot.fd.inj (h.inj p hp p hp (.fd i) (.fd j) f hi hj).2
  refine ⟨t', fs', ?_, hs, fun a f ha => ?_, fun g hg =>
    (hk₁ g (hg .exec)).trans (hk g fun i => hg (.fd i))⟩
  · unfold Tasks.call Tasks.processExit
    dsimp only
    rw [hc]
    simp only [Except.bind, he, Except.map]
  · cases a with
    | exec => exact fun hf => hclosed₁ f ha (hsub hf)
    | fd i =>
      have hge := hb.ge
      have hrange : 2 ≤ i.val ∧ i.val < (s.task p).nextFd := by
        by_contra hout
        exact nomatch (hb.empty i (by omega)).symm.trans ha
      exact hclosed i f ha hrange.1 (by omega)

/-- **どの system call も、どれかの終わり方をする。** -/
theorem call_outcome (c : Call) : Outcome s p c (s.call p c) := by
  cases c with
  | create name initialSize =>
    rw [Tasks.call]
    rcases h.sound.filesysCreate_spec name initialSize with he | ⟨b, fs', he, hs, hk⟩
    · rw [he]
      exact .panic _ _ trivial
    · rw [he]
      exact .plain _ _ fs' trivial nofun hs hk
  | remove name =>
    rw [Tasks.call]
    obtain ⟨b, fs', he, hs, hk⟩ := h.sound.filesysRemove_spec name
    rw [he]
    exact .plain _ _ fs' trivial nofun hs hk
  | sysOpen name => exact sysOpen_outcome h name
  | close fd => exact close_outcome h hp fd
  | read fd size typed => exact read_outcome h hp fd size typed
  | write fd buffer => exact write_outcome h hp fd buffer
  | filesize fd => exact query_outcome (c := .filesize fd) h hp fd nofun trivial _
  | seek fd position => exact seek_outcome h hp fd position
  | tell fd => exact query_outcome (c := .tell fd) h hp fd nofun trivial _
  | exec cmd => exact exec_outcome h cmd
  | processExit =>
    obtain ⟨t', fs', he, hs, -, hk⟩ := processExit_spec h hp
    rw [he]
    exact .exited t' fs' hs hk

end

/-! ## 実行全体 -/

theorem TasksInv.call {v : Int} {s' : Tasks} (h : TasksInv s) (hp : p ∈ s.live)
    (he : s.call p c = .ok (v, s')) : TasksInv s' := by
  have ho := call_outcome h hp c
  rw [he] at ho
  cases ho with
  | plain _ _ fs' hfits hopen hs hk => exact h.setFs hs hk
  | opened name f fs' hlt hfound hs hk hnew hf =>
    refine h.setTask hp hs ((h.bounded p hp).push hlt f) (some (⟨_, hlt⟩, f)) (fun i g hg => ?_)
      (fun q hq _ a g hg => hk g ?_) fun a g hg => ?_
    · cases hg
      exact ⟨hnew, hf⟩
    · rintro rfl
      exact hnew (h.handles q hq a g hg).1
    · have hold : (s.task p).get a = some g → (s.task p).get a = some g ∧ Keeps s.fs fs' g := by
        refine fun hget => ⟨hget, hk g ?_⟩
        rintro rfl
        exact hnew (h.handles p hp a g hget).1
      cases a with
      | exec => exact .inl (hold hg)
      | fd i =>
        have hg : update (s.task p).fdt ⟨_, hlt⟩ (some f) i = some g := hg
        by_cases hi : i = ⟨_, hlt⟩
        · rw [hi, update_self] at hg
          cases hg
          exact .inr ⟨_, congrArg Slot.fd hi, rfl⟩
        · rw [update_of_ne hi] at hg
          exact .inl (hold hg)
  | closed i f fs' hi hs hk =>
    refine h.setTask hp hs ((h.bounded p hp).clear i) none nofun (fun q hq hne a g hg => hk g ?_)
      fun a g hg => .inl ?_
    · rintro rfl
      exact hne (h.inj q hq p hp a (.fd i) g hg hi).1
    · have hold : (s.task p).get a = some g → a ≠ .fd i →
          (s.task p).get a = some g ∧ Keeps s.fs fs' g := by
        refine fun hget hne => ⟨hget, hk g ?_⟩
        rintro rfl
        exact hne (h.inj p hp p hp a (.fd i) g hget hi).2
      cases a with
      | exec => exact hold hg nofun
      | fd j =>
        have hg : update (s.task p).fdt i none j = some g := hg
        by_cases hj : j = i
        · rw [hj, update_self] at hg
          cases hg
        · rw [update_of_ne hj] at hg
          exact hold hg fun he => hj (Slot.fd.inj he)
  | spawned cmd name o fs' hs hk ho =>
    exact h.spawn hs hk { Task.bounded_init name with } (fun _ => rfl) ho
  | exited t' fs' hs hk =>
    refine h.erase hs fun q hq hne a g hg => hk g fun b hb => ?_
    exact hne (h.inj q hq p hp a b g hg hb).1

theorem TasksInv.exited (h : TasksInv s) (hp : p ∈ s.live) :
    TasksInv (s.setTask p { s.task p with exited := true } s.fs) := by
  refine h.setTask hp h.sound ⟨(h.bounded p hp).ge, (h.bounded p hp).le, (h.bounded p hp).empty⟩ none
    nofun (fun _ _ _ _ g _ => Keeps.refl s.fs g) fun a g hg => .inl ⟨?_, Keeps.refl s.fs g⟩
  cases a <;> exact hg

theorem Tasks.IsBooted.inv (h : s.IsBooted) : TasksInv s := by
  obtain ⟨hfs, hlive, htask, hpid⟩ := h
  have hget : ∀ p ∈ s.live, s.task p = Task.init [109, 97, 105, 110] ∧ p = 0 := by
    intro p hp
    rw [hlive] at hp
    obtain rfl := List.mem_singleton.mp hp
    exact ⟨htask, rfl⟩
  have hnone : ∀ p ∈ s.live, ∀ a, (s.task p).get a = none := by
    intro p hp a
    rw [(hget p hp).1]
    cases a <;> rfl
  refine ⟨IsFormatted.sound hfs, ?_, fun p hp => ?_, fun p hp => ?_, fun p hp a f hf => ?_,
    fun p hp q hq a b f ha => ?_, fun p hp f hf => ?_⟩
  · rw [hlive]
    exact List.nodup_singleton 0
  · rw [(hget p hp).2, hpid]
    exact Nat.one_pos
  · rw [(hget p hp).1]
    exact Task.bounded_init _
  · rw [hnone p hp a] at hf
    cases hf
  · rw [hnone p hp a] at ha
    cases ha
  · exact nomatch (hnone p hp .exec).symm.trans hf

theorem reachable_tasksInv (h : Reachable tasks s) : TasksInv s := by
  refine Reachable.invariant (I := TasksInv) (fun _ hi => Tasks.IsBooted.inv hi)
    (fun s e s' hs hstep => ?_) h
  have hstep : taskStep s e = some s' := hstep
  unfold taskStep at hstep
  split at hstep
  · next hp =>
    split at hstep
    · next r hr =>
      cases hstep
      exact hs.call hp.1 hr
    · cases hstep
      exact hs.exited hp.1
    · cases hstep
  · cases hstep

theorem exists_reachable_of_calls (size : Nat) (hsize : size < 2 ^ 32) (calls : List (Pid × Call))
    {p : Tasks → Bool}
    (h : (match filesysInit true (freeMapInit size (fun _ _ => 0) fun _ => false) with
      | .ok fs => (runEvents taskStep
          { fs := fs, task := fun _ => Task.init [109, 97, 105, 110], live := [0], nextPid := 1 }
          calls).any p
      | .error _ => false) = true) : ∃ s, Reachable tasks s ∧ p s = true := by
  split at h
  · next fs hf =>
    have hinit : tasks.init
        { fs := fs, task := fun _ => Task.init [109, 97, 105, 110], live := [0], nextPid := 1 } :=
      ⟨⟨size, _, _, hsize, hf⟩, rfl, rfl, rfl⟩
    exact exists_reachable_of_run calls (ReachableIf.init hinit) h
  · cases h

end Pintos.Userprog
