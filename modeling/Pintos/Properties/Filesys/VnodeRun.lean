import Pintos.Properties.Filesys.VnodeStep

/-!
# inode を直に使う実行

inode の作成を加えて、一歩の補題（`VInv.run`）をまとめる。
format したばかりの状態は不変量を満たすので、到達する状態はすべて満たす。
-/

namespace Pintos

open Infra Spec

variable {v v' : Vnodes} {fs fs' : Fs} {L : Nat → Prop} {refs : InodeId → Nat} {s : Nat} {op : VOp}

/-! ## inode を作る -/

/-- 作られた inode。中身は 0 で、使っていなかった sector だけを使う。 -/
structure Allocated (L : Nat → Prop) (refs : InodeId → Nat) (fs : Fs) (s : Nat) (fs' : Fs) : Prop where
  volume : Volume (fun t => t = s ∨ L t) refs fs'
  new : ¬ L s
  frame : Frame fs fs'
  inode : fs'.inode = fs.inode
  openInodes : fs'.openInodes = fs.openInodes
  untouched : Untouched (fun x => fs.freeMap.bits x = false) fs fs'
  empty : Represents fs' s (.empty (fs'.slotsAt s))

theorem Volume.allocateInode_cases (h : Volume L refs fs) {length : Int} (hlt : length < 2 ^ 31) :
    (length < 0 ∧
      allocateInode (fun sector => inodeCreate sector length) fs = .error .inodeCreateLength) ∨
    (∃ fs' m, allocateInode (fun sector => inodeCreate sector length) fs = .ok (none, fs') ∧
      Volume L refs fs' ∧ MapChanged m fs fs') ∨
    ∃ s fs', allocateInode (fun sector => inodeCreate sector length) fs = .ok (some s, fs') ∧
      (fs'.diskInode s).length = length.toNat ∧ Allocated L refs fs s fs' := by
  unfold allocateInode
  rw [freeMapAllocate_eq fun f hf => h.mapOk hf]
  simp only [Except.bind]
  cases hscan : fs.freeMap.scan 0 1 false with
  | none =>
    have hsame : MapChanged fs.freeMap fs fs :=
      ⟨Frame.refl fs, rfl, rfl, fun _ => Untouched.of_eq rfl, rfl, rfl⟩
    exact .inr (.inl ⟨fs, fs.freeMap, rfl, h, hsame⟩)
  | some s =>
    obtain ⟨hv₁, hc⟩ := h.claim hscan
    have hm := h.mapChanged (Bitmap.fill_bitCnt fs.freeMap s 1 true)
    by_cases hneg : length < 0
    · exact .inl ⟨hneg, by simp only [inodeCreate, if_pos hneg]⟩
    have hlen := Int.not_lt.mp hneg
    simp only []
    rw [inodeCreate_eq (fun f hf => hv₁.mapOk hf) hv₁.extents.map_cnt hc.lt hlen]
    right
    cases hscan₁ : (fs.saveMap (fs.freeMap.fill s 1 true)).freeMap.scan 0 (bytesToSectors length)
        false with
    | none =>
      obtain ⟨fs', he, hv, hm'⟩ := hv₁.releaseClaimed hc
      exact .inl ⟨fs', _, by simp [he, Except.map], hv, hm.trans hm'⟩
    | some start =>
      obtain ⟨hv₂, hfresh⟩ := hv₁.withInode hc hscan₁ hlen hlt
      obtain ⟨-, -, hbits⟩ := Bitmap.scan_eq_some hscan
      obtain ⟨-, -, hbits₁⟩ := Bitmap.scan_eq_some hscan₁
      have hfree : ∀ x, (fs.freeMap.fill s 1 true).bits x = false → fs.freeMap.bits x = false := by
        intro x hx
        simp only [Bitmap.fill] at hx
        split at hx
        · cases hx
        · exact hx
      have hnode := hv₁.withInode_diskInode hc hscan₁ hlen hlt
      refine .inr ⟨s, _, by simp, by rw [hnode], hv₂.add hfresh, ?_, hm.frame.trans (frame_withInode ..),
        rfl, rfl, ?_, represents_empty fun k hk => ?_⟩
      · intro hs
        exact hc.free s (hs) (mem_sectorsAt_self _ s)
      · exact (hm.untouched _).trans (hv₁.untouched_withInode hc hscan₁
          (hbits s (Nat.le_refl _) (Nat.lt_succ_self _)) hfree)
      · refine inUse_of_zero hfresh.length_lt (fun x hx o ho => if_pos ⟨?_, ho⟩) hk
        rw [hnode, mem_extent] at hx
        simpa [Int.toNat_of_nonneg hlen] using hx

/-! ## 作成の一歩 -/

theorem MapChanged.effect {m : Bitmap} (hm : MapChanged m v.fs fs') (op : VOp) :
    Effect op v { v with fs := fs' } :=
  Effect.of_same (hm.untouched _) (fun _ => by rw [hm.inode]) hm.openInodes

theorem Allocated.effect (ha : Allocated L refs v.fs s fs') (op : VOp) (live dirs : List Nat) :
    Effect op v { v with fs := fs', live := live, dirs := dirs } :=
  Effect.of_same (ha.untouched.mono fun _ hx => .inl hx) (fun _ => by rw [ha.inode]) ha.openInodes

namespace VInv

variable (h : VInv v)
include h

theorem of_map {m : Bitmap} (hm : MapChanged m v.fs fs') (hv : Volume (· ∈ v.live) v.refs fs') :
    VInv { v with fs := fs' } := by
  have hrefs : Vnodes.refs { v with fs := fs' } = v.refs := refs_frame hm.frame rfl
  refine h.of_frame hm.frame (hrefs ▸ hv) (fun _ hd => hd) h.dirs_live fun d hd => ?_
  obtain ⟨m, hr⟩ := h.names d hd
  exact ⟨m, h.represents_of_untouched (hm.untouched fun _ => False) hd (fun _ _ hf => hf) hr⟩

theorem allocated (ha : Allocated (· ∈ v.live) v.refs v.fs s fs') :
    VInv { v with fs := fs', live := s :: v.live } := by
  have hrefs : Vnodes.refs { v with fs := fs', live := s :: v.live } = v.refs :=
    refs_frame ha.frame rfl
  refine h.of_frame ha.frame ?_ (fun _ hd => hd) (fun d hd => List.mem_cons_of_mem _ (h.dirs_live d hd))
    fun d hd => ?_
  · rw [hrefs]
    exact ha.volume.congr fun t => List.mem_cons
  · obtain ⟨m, hr⟩ := h.names d hd
    refine ⟨m, h.represents_of_untouched ha.untouched hd (fun x hx hfree => ?_) hr⟩
    exact h.volume.extents.not_mem_of_free (h.dirs_live d hd) hfree hx

theorem allocatedDir (ha : Allocated (· ∈ v.live) v.refs v.fs s fs') :
    VInv { v with fs := fs', live := s :: v.live, dirs := s :: v.dirs } := by
  have hv := h.allocated ha
  refine ⟨hv.volume, hv.files, ?_, ?_, ?_, ?_⟩
  · intro d hd
    exact (List.mem_cons.mp hd).elim (fun he => he ▸ List.mem_cons_self) (hv.dirs_live d)
  · intro hd
    rcases List.mem_cons.mp hd with he | hd
    · exact ha.new (he ▸ h.volume.extents.map_live)
    · exact h.dirs_ne hd
  · -- 開いた file の inode は前からあり、新しい sector のものではない
    intro f hf hd
    rcases List.mem_cons.mp hd with he | hd
    · have hf : f ∈ v.fs.files := ha.frame.files ▸ hf
      refine ha.new (he ▸ ?_)
      simp only [ha.inode, ha.frame.file]
      exact h.volume.table.live _ (h.files.isOpen f hf)
    · exact hv.plain f hf hd
  · intro d hd
    rcases List.mem_cons.mp hd with rfl | hd
    · exact ⟨_, ha.empty⟩
    · exact hv.names d hd

/-! ## どの操作も不変量を保つ -/

/--
**約束を守った操作は、不変量を保つ。**

止まるのは、大きさや位置が負の場合だけである。
-/
theorem run (hcall : op.callable v) :
    (∃ p, op.run v = .error p ∧ (p = .inodeCreateLength ∨ p = .fileSeekPos)) ∨
    ∃ v', op.run v = .ok v' ∧ VInv v' ∧ Effect op v v' := by
  cases op with
  | inodeCreate length =>
    rcases h.volume.allocateInode_cases (int32_lt length) with
      ⟨-, he⟩ | ⟨fs', m, he, hv, hm⟩ | ⟨s, fs', he, -, ha⟩
    · exact .inl ⟨_, by rw [VOp.run, he]; rfl, .inl rfl⟩
    · exact .inr ⟨_, by rw [VOp.run, he]; rfl, h.of_map hm hv, hm.effect _⟩
    · exact .inr ⟨_, by rw [VOp.run, he]; rfl, h.allocated ha, ha.effect _ _ _⟩
  | dirCreate entryCnt =>
    have hdir : (fun sector => Pintos.dirCreate sector entryCnt) =
        fun sector => Pintos.inodeCreate sector (int32 (entryCnt * dirEntrySize : Nat)) := rfl
    rcases h.volume.allocateInode_cases (int32_lt (entryCnt * dirEntrySize : Nat)) with
      ⟨-, he⟩ | ⟨fs', m, he, hv, hm⟩ | ⟨s, fs', he, -, ha⟩
    · exact .inl ⟨_, by rw [VOp.run, hdir, he]; rfl, .inl rfl⟩
    · exact .inr ⟨_, by rw [VOp.run, hdir, he]; rfl, h.of_map hm hv, hm.effect _⟩
    · exact .inr ⟨_, by rw [VOp.run, hdir, he]; rfl, h.allocatedDir ha,
        ha.effect _ _ _⟩
  | inodeOpen sector =>
    obtain ⟨i, fs', he, hv, ho⟩ := h.volume.openInode hcall
    exact .inr ⟨_, by rw [VOp.run, he]; rfl, h.opened hv ho, h.effect_opened ho _ _⟩
  | inodeReopen i =>
    exact .inr ⟨_, rfl, h.reopen hcall, h.effect_opened (.shared hcall rfl rfl) _ _⟩
  | inodeRemove i =>
    refine .inr ⟨_, rfl, h.remove hcall, Effect.of_same (Untouched.of_eq rfl) (fun j => ?_) rfl⟩
    exact modifyInode_field v.fs Inode.sector (f := fun node => { node with removed := true }) rfl j
  | inodeClose i =>
    obtain ⟨fs', he, hv, heff⟩ := h.inodeClose_ok hcall
    exact .inr ⟨_, by rw [VOp.run, he]; rfl, hv, heff⟩
  | inodeWriteAt i buffer offset =>
    obtain ⟨n, fs', he, hv, -, hinode, hopen, -, -, hunt⟩ :=
      h.inodeWriteAt_ok hcall.1 hcall.2 buffer offset
    exact .inr ⟨_, by rw [VOp.run, he]; rfl, hv,
      Effect.of_same (hunt.mono fun x hx => .inr ⟨_, rfl, hx⟩) (fun _ => by rw [hinode]) hopen⟩
  | fileOpen i =>
    exact .inr ⟨_, rfl, h.fileOpen hcall.1 hcall.2,
      Effect.of_same (Untouched.of_eq rfl) (fun _ => rfl) rfl⟩
  | fileReopen f =>
    refine .inr ⟨_, rfl, h.fileReopen hcall, Effect.of_same (Untouched.of_eq rfl) (fun j => ?_) rfl⟩
    exact modifyInode_field v.fs Inode.sector
      (f := fun node => { node with openCnt := node.openCnt + 1 }) rfl j
  | fileRead f size =>
    obtain ⟨bytes, fs', he, hv, hdev, hinode, hopen⟩ := h.fileRead_ok hcall.1 size
    exact .inr ⟨_, by rw [VOp.run, he]; rfl, hv,
      Effect.of_same (Untouched.of_eq hdev) (fun _ => by rw [hinode]) hopen⟩
  | fileWrite f buffer =>
    obtain ⟨n, fs', he, hv, hinode, hopen, hunt⟩ := h.fileWrite_ok hcall buffer
    exact .inr ⟨_, by rw [VOp.run, he]; rfl, hv,
      Effect.of_same (hunt.mono fun x hx => .inr ⟨_, rfl, hx⟩) (fun _ => by rw [hinode]) hopen⟩
  | fileSeek f newPos =>
    by_cases hneg : int32 newPos < 0
    · exact .inl ⟨_, by rw [VOp.run, fileSeek, if_pos hneg]; rfl, .inr rfl⟩
    · exact .inr ⟨_, by rw [VOp.run, fileSeek, if_neg hneg]; rfl, h.modifyFile rfl rfl,
        Effect.of_same (Untouched.of_eq rfl) (fun _ => rfl) rfl⟩
  | fileDenyWrite f =>
    exact .inr ⟨_, by rw [VOp.run, h.files.fileDenyWrite_eq h.refs_le hcall.1]; rfl,
      h.setDeny hcall true, effect_setDeny v f true _⟩
  | fileAllowWrite f =>
    exact .inr ⟨_, by rw [VOp.run, h.files.fileAllowWrite_eq h.refs_le hcall.1]; rfl,
      h.setDeny hcall false, effect_setDeny v f false _⟩
  | fileClose f =>
    obtain ⟨fs', he, hv, heff⟩ := h.fileClose_ok hcall
    exact .inr ⟨_, by rw [VOp.run, he]; rfl, hv, heff⟩
  | dirAdd dir name sector =>
    obtain ⟨m, hm⟩ := h.names _ hcall.1.2
    obtain ⟨fs', he, -, hv, heff⟩ := h.dirAdd_ok hcall.1 hm name hcall.2
    exact .inr ⟨_, by rw [VOp.run, he]; rfl, hv, heff⟩
  | dirRemove dir name =>
    obtain ⟨m, hm⟩ := h.names _ hcall.1.2
    obtain ⟨fs', he, -, hv, heff⟩ := h.dirRemove_ok hcall.1 hm name hcall.2
    exact .inr ⟨_, by rw [VOp.run, he]; rfl, hv, heff⟩
  | dirLookup dir name =>
    obtain ⟨m, hm⟩ := h.names _ hcall.1.2
    obtain ⟨o, fs', he, hv, -, -, heff⟩ := h.dirLookup_ok hcall.1 hm name hcall.2
    exact .inr ⟨_, by rw [VOp.run, he]; rfl, hv, heff⟩

end VInv

/-! ## 到達する状態 -/

/-- **format したばかりの状態。** root directory は空で、呼ぶ側は参照を持たない。 -/
theorem Vnodes.IsFormatted.vinv (h : v.IsFormatted) : VInv v := by
  obtain ⟨hfs, hlive, hdirs, hheld⟩ := h
  obtain ⟨s₀, s₁, i, f, hf⟩ := hfs.formatted
  have ho := hf.toMapOpen
  have hrefs : v.refs = v.fs.fileRefs := by
    funext j
    simp [Vnodes.refs, hheld]
  have hiff : ∀ t, v.fs.Live t ↔ t ∈ v.live := by
    intro t
    rw [hf.live_iff, hlive]
    simp
  refine ⟨?_, ho.fileTable, ?_, ?_, ?_, ?_⟩
  · have hv : Volume v.fs.Live v.fs.fileRefs v.fs := ⟨hf.extents, ho.table, hf.saved⟩
    rw [hrefs]
    exact hv.congr fun t => (hiff t).symm
  · intro d hd
    rw [hdirs, List.mem_singleton] at hd
    rw [hd, hlive]
    simp
  · rw [hdirs]
    decide
  · intro g hg hd
    rw [ho.files, List.mem_singleton] at hg
    rw [hg, ho.file, ho.inode, hdirs, List.mem_singleton] at hd
    exact absurd (show freeMapSector = rootDirSector from hd) (by decide)
  · intro d hd
    rw [hdirs, List.mem_singleton] at hd
    subst hd
    refine ⟨_, represents_empty fun k hk => ?_⟩
    refine inUse_of_zero (hf.extents.length_lt _ (live_rootDir v.fs)) (fun x hx o ho => ?_) hk
    rw [hf.root_extent, List.mem_singleton] at hx
    rw [hx]
    exact hf.zero o ho

theorem VInv.step (h : VInv v) (hs : vnodeStep v op = some v') : op.callable v ∧ VInv v' ∧
    Effect op v v' := by
  unfold vnodeStep at hs
  split at hs
  · next hcall =>
    rcases h.run hcall with ⟨p, he, -⟩ | ⟨v₁, he, hv₁, heff⟩
    · rw [he] at hs
      cases hs
    · rw [he] at hs
      rw [← Option.some.inj hs]
      exact ⟨hcall, hv₁, heff⟩
  · cases hs

theorem reachable_vinv (h : Reachable vnodeLayer v) : VInv v :=
  Reachable.invariant (I := VInv) (fun _ hi => Vnodes.IsFormatted.vinv hi)
    (fun _ _ _ hv hs => (hv.step hs).2.1) h

theorem exists_reachable_of_vnodes (step : Vnodes → VOp → Option Vnodes) (size : Nat)
    (hsize : size < 2 ^ 32) (ops : List VOp) {p : Vnodes → Bool}
    (h : (match filesysInit true (freeMapInit size (fun _ _ => 0) fun _ => false) with
      | .ok fs =>
        (runEvents step ⟨fs, [freeMapSector, rootDirSector], [rootDirSector], fun _ => 0⟩ ops).any p
      | .error _ => false) = true) :
    ∃ v, Reachable (System.ofFun Vnodes.IsFormatted step) v ∧ p v = true := by
  split at h
  · next fs hf =>
    have hinit : (System.ofFun Vnodes.IsFormatted step).init
        ⟨fs, [freeMapSector, rootDirSector], [rootDirSector], fun _ => 0⟩ :=
      ⟨⟨size, _, _, hsize, hf⟩, rfl, rfl, rfl⟩
    exact exists_reachable_of_run ops (ReachableIf.init hinit) h
  · cases h

end Pintos
