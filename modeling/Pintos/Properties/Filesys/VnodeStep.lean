import Pintos.Properties.Filesys.Vnode

/-!
# inode を直に使う操作の一歩

どの操作も、約束を守って呼べば不変量を保つ。止まるのは大きさや位置が負の場合だけである。
-/

namespace Pintos

open Infra Spec Function

variable {v v' : Vnodes} {fs fs' : Fs} {i dir : InodeId} {f : FileId} {s : Nat} {op : VOp}

/-! ## 変わらないもの -/

theorem closed_fs (v : Vnodes) (i : InodeId) (fs : Fs) : (v.closed i fs).fs = fs := by
  unfold Vnodes.closed
  split <;> rfl

theorem closed_with (v : Vnodes) (i : InodeId) (fs fs' : Fs) :
    v.closed i fs = { v.closed i fs' with fs := fs } := by
  unfold Vnodes.closed
  split <;> rfl

theorem closed_held (v : Vnodes) (i : InodeId) (fs : Fs) : (v.closed i fs).held = v.held := by
  unfold Vnodes.closed
  split <;> rfl

theorem Effect.of_same (hunt : Untouched (op.writes v) v.fs v'.fs)
    (hsec : ∀ i, (v'.fs.inode i).sector = (v.fs.inode i).sector)
    (hopen : v'.fs.openInodes = v.fs.openInodes) : Effect op v v' :=
  ⟨hunt, fun j _ => hsec j, fun _ hj => .inl (hopen ▸ hj)⟩

theorem effect_setDeny (v : Vnodes) (f : FileId) (b : Bool) (op : VOp) :
    Effect op v { v with fs := v.fs.setDeny f b } := by
  refine Effect.of_same (Untouched.of_eq (setDeny_device ..)) (fun j => ?_) (setDeny_openInodes ..)
  obtain ⟨n, hn⟩ := setDeny_inode v.fs f b j
  simp only [hn]

theorem refs_setDeny (v : Vnodes) (f : FileId) (b : Bool) :
    Vnodes.refs { v with fs := v.fs.setDeny f b } = v.refs := by
  unfold Vnodes.refs
  simp only [setDeny_fileRefs]

theorem unlinked_fs (v : Vnodes) (dir : InodeId) (name : CString) (fs : Fs) :
    (v.unlinked dir name fs).fs = fs := by
  unfold Vnodes.unlinked
  split
  · rfl
  · split <;> rfl

theorem unlinked_held (v : Vnodes) (dir : InodeId) (name : CString) (fs : Fs) :
    (v.unlinked dir name fs).held = v.held := by
  unfold Vnodes.unlinked
  split
  · rfl
  · split <;> rfl

theorem refs_fileOpen (h : OpenFiles v.fs) (hi : 0 < v.held i) :
    Vnodes.refs { v with fs := (fileOpen i v.fs).2, held := v.drop i } = v.refs := by
  funext j
  unfold Vnodes.refs Vnodes.drop
  simp only [h.fileRefs_fileOpen]
  by_cases hj : j = i
  · subst hj
    rw [update_self, update_self]
    omega
  · rw [update_of_ne hj, update_of_ne hj]

theorem refs_closeFile (hf : f ∈ v.fs.files) {n : Nat}
    (hc : Closed (v.fs.file f).inode n v.fs fs') :
    (fun j => Fs.fileRefs { fs' with files := fs'.files.erase f } j + v.held j) =
      update v.refs (v.fs.file f).inode (v.refs (v.fs.file f).inode - 1) := by
  have hpos : 0 < v.fs.fileRefs (v.fs.file f).inode :=
    List.countP_pos_iff.mpr ⟨f, hf, decide_eq_true rfl⟩
  funext j
  rw [hc.fileRefs_erase hf]
  unfold Vnodes.refs
  by_cases hj : j = (v.fs.file f).inode
  · subst hj
    rw [update_self, update_self]
    omega
  · rw [update_of_ne hj, update_of_ne hj]

theorem drop_hold (v : Vnodes) (i : InodeId) (fs : Fs) :
    Vnodes.drop { v with fs := fs, held := v.hold i } i = v.held := by
  unfold Vnodes.drop Vnodes.hold
  simp only [update_self, Nat.add_sub_cancel, update_idem, update_eq_self]

theorem hold_pos (v : Vnodes) (i : InodeId) : 0 < v.hold i i := by
  unfold Vnodes.hold
  rw [update_self]
  exact Nat.succ_pos _

namespace VInv

/-! ## inode の参照を閉じる -/

section closes

variable (h : VInv v)
include h

theorem inodeClose_ok (hi : 0 < v.held i) :
    ∃ fs', inodeClose i v.fs = .ok fs' ∧ VInv { v.closed i fs' with held := v.drop i } ∧
      Effect (.inodeClose i) v { v.closed i fs' with held := v.drop i } := by
  have hopen := h.isOpen_of_held hi
  have hmap : v.refs i = 1 → (v.fs.inode i).sector ≠ freeMapSector := by
    intro hone hs
    have := h.map_fileRefs hopen hs
    unfold Vnodes.refs at hone
    omega
  obtain ⟨fs', he, hv, hc, hunt, hfree⟩ := h.closeInode hopen hmap
  have hfs := closed_fs v i fs'
  have hrefs : Vnodes.refs { v.closed i fs' with held := v.drop i } = _ :=
    refs_drop hi (by rw [hfs]; exact hc.frame) rfl
  obtain ⟨hdirs, hlive⟩ := h.closed_dirs hopen fs'
  refine ⟨fs', he, h.of_frame (by rw [hfs]; exact hc.frame) ?_ hdirs hlive fun d hd => ?_,
    h.effect_closed (.inl rfl) rfl hc hunt hfree ?_ ?_ ?_ ?_⟩
  · rw [hrefs]
    simp only [hfs]
    exact hv
  · simp only [hfs]
    exact h.closed_names hopen hunt d hd
  all_goals simp only [hfs]

end closes

/-! ## 開いた file -/

section files

variable (h : VInv v)
include h

theorem setDeny (hf : v.fs.handles f) (b : Bool) : VInv { v with fs := v.fs.setDeny f b } := by
  refine ⟨?_, h.files.setDeny hf.1 b, h.dirs_live, h.dirs_ne, ?_, fun d hd => ?_⟩
  · rw [refs_setDeny]
    exact h.volume.setDeny (h.files.isOpen f hf.1) (h.files.handle f hf) b
  · intro g hg
    simp only [setDeny_files] at hg
    obtain ⟨n, hn⟩ := setDeny_inode v.fs f b (v.fs.file g).inode
    simp only [setDeny_fileInode, hn]
    exact h.plain g hg
  · obtain ⟨m, hm⟩ := h.names d hd
    exact ⟨m, hm.of_device (setDeny_device ..)⟩

theorem modifyFile {g : File → File} (hg : (g (v.fs.file f)).inode = (v.fs.file f).inode)
    (hd : (g (v.fs.file f)).denyWrite = (v.fs.file f).denyWrite) :
    VInv { v with fs := v.fs.modifyFile f g } := by
  have hinode := modifyFile_field v.fs File.inode hg
  refine ⟨?_, h.files.modifyFile hg hd, h.dirs_live, h.dirs_ne, ?_, fun d hd => ?_⟩
  · rw [refs_modifyFile hg]
    exact h.volume.modifyFile hg
  · intro f' hf'
    simp only [hinode]
    exact h.plain f' hf'
  · obtain ⟨m, hm⟩ := h.names d hd
    exact ⟨m, hm.of_device rfl⟩

theorem fileOpen (hi : 0 < v.held i) (hplain : v.isPlain i) :
    VInv { v with fs := (Pintos.fileOpen i v.fs).2, held := v.drop i } := by
  refine ⟨?_, h.files.fileOpen (h.isOpen_of_held hi) hplain.1, h.dirs_live, h.dirs_ne, ?_,
    fun d hd => ?_⟩
  · rw [refs_fileOpen h.files.toOpenFiles hi]
    exact h.volume.of_files fun f hf =>
      congrArg File.inode (h.files.fileOpen_file i (h.files.mapFile f hf))
  · intro f hf
    rcases List.mem_cons.mp hf with rfl | hf
    · simp only [fileOpen_new]
      exact hplain.2
    · simp only [h.files.fileOpen_file i hf]
      exact h.plain f hf
  · obtain ⟨m, hm⟩ := h.names d hd
    exact ⟨m, hm.of_device rfl⟩

theorem reopen (hi : i ∈ v.fs.openInodes) :
    VInv { v with fs := inodeReopen i v.fs, held := v.hold i } :=
  h.opened (h.volume.reopen hi) (.shared hi rfl rfl)

theorem fileReopen (hf : v.fs.handles f) :
    VInv { v with fs := (Pintos.fileReopen f v.fs).2 } := by
  have hi := h.files.isOpen f hf.1
  have hr := h.reopen hi
  have hplain : v.isPlain (v.fs.file f).inode := ⟨h.files.handle f hf, h.plain f hf.1⟩
  have hplain' : Vnodes.isPlain { v with fs := inodeReopen (v.fs.file f).inode v.fs,
                                         held := v.hold (v.fs.file f).inode }
      (v.fs.file f).inode := by
    unfold Vnodes.isPlain inodeReopen at *
    simp only [modifyInode_self]
    exact hplain
  -- 足した参照はそのまま file のものになる
  have hopen := hr.fileOpen (hold_pos v _) hplain'
  rw [drop_hold] at hopen
  exact hopen

theorem closeFile (hf : v.fs.handles f) (hd : (v.fs.file f).denyWrite = false) :
    ∃ fs', inodeClose (v.fs.file f).inode v.fs = .ok fs' ∧
      VInv (v.closed (v.fs.file f).inode { fs' with files := fs'.files.erase f }) ∧
      Effect (.fileClose f) v
        (v.closed (v.fs.file f).inode { fs' with files := fs'.files.erase f }) := by
  have hopen := h.files.isOpen f hf.1
  obtain ⟨fs', he, hv, hc, hunt, hfree⟩ := h.closeInode hopen fun _ => h.files.handle f hf
  obtain ⟨hdirs, hlive⟩ := h.closed_dirs hopen fs'
  have hcount := refs_closeFile hf.1 hc
  have hsub : ∀ j ∈ fs'.openInodes, j ∈ v.fs.openInodes := by
    intro j hj
    rw [hc.openInodes] at hj
    split at hj
    · exact List.mem_of_mem_erase hj
    · exact hj
  have hkept : ∀ f' ∈ v.fs.files.erase f, (v.fs.file f').inode ∈ fs'.openInodes := by
    intro f' hf'
    refine (hv.table.refs_pos _).mp ?_
    rw [← hcount]
    refine Nat.lt_of_lt_of_le ?_ (Nat.le_add_right ..)
    refine List.countP_pos_iff.mpr ⟨f', ?_, ?_⟩
    · rw [hc.frame.files]
      exact hf'
    · show decide ((fs'.file f').inode = (v.fs.file f').inode) = true
      rw [hc.frame.file]
      exact decide_eq_true rfl
  refine ⟨fs', he, ?_, ?_⟩
  · rw [closed_with v _ _ fs']
    refine ⟨?_, h.files.closed hd hc hkept hsub hf, hlive, fun hm => h.dirs_ne (hdirs _ hm), ?_, ?_⟩
    · have hrefs : Vnodes.refs { v.closed (v.fs.file f).inode fs' with
          fs := { fs' with files := fs'.files.erase f } } =
          update v.refs (v.fs.file f).inode (v.refs (v.fs.file f).inode - 1) := by
        rw [← hcount]
        funext j
        unfold Vnodes.refs
        simp only [closed_held]
      rw [hrefs]
      exact hv.of_files fun _ _ => rfl
    · intro f' hf' hm
      have hf' : f' ∈ fs'.files.erase f := hf'
      rw [hc.frame.files] at hf'
      have hmem := List.mem_of_mem_erase hf'
      simp only [hc.frame.file, hc.frame.sector _ (h.volume.table.lt _ (h.files.isOpen f' hmem))] at hm
      exact h.plain f' hmem (hdirs _ hm)
    · intro d hd
      obtain ⟨m, hm⟩ := h.closed_names hopen hunt d hd
      exact ⟨m, hm.of_device rfl⟩
  · refine h.effect_closed (.inr ⟨f, rfl, rfl⟩) rfl hc hunt hfree ?_ ?_ ?_ ?_
    all_goals rw [closed_fs]

theorem fileClose_ok (hf : v.fs.handles f) :
    ∃ fs', fileClose f v.fs = .ok fs' ∧ VInv (v.closed (v.fs.file f).inode fs') ∧
      Effect (.fileClose f) v (v.closed (v.fs.file f).inode fs') := by
  have hs := h.setDeny hf false
  have hinode := setDeny_fileInode v.fs f false f
  obtain ⟨fs', he, hv, heff⟩ := hs.closeFile ((setDeny_handles v.fs f false f).mpr hf)
    (by simp only [setDeny_file, modifyFile_self])
  -- `deny_write` を外しても、参照の数と削除の印は変わらない
  have hclosed : ∀ fs, Vnodes.closed { v with fs := v.fs.setDeny f false } (v.fs.file f).inode fs =
      v.closed (v.fs.file f).inode fs := by
    obtain ⟨n, hn⟩ := setDeny_inode v.fs f false (v.fs.file f).inode
    intro fs
    unfold Vnodes.closed Vnodes.forget
    simp only [hn]
  simp only [hinode, hclosed] at he hv heff
  refine ⟨_, ?_, hv, ?_, ?_, ?_⟩
  · unfold fileClose
    rw [h.files.fileAllowWrite_eq h.refs_le hf.1]
    simp only [Except.bind, hinode, he, Except.map]
  · have h₁ : Untouched (VOp.writes (.fileClose f) v) v.fs (v.fs.setDeny f false) :=
      Untouched.of_eq (setDeny_device ..)
    refine h₁.trans (heff.untouched.mono fun x hx => ?_)
    unfold VOp.writes at hx ⊢
    simp only [setDeny_freeMap] at hx
    exact hx.imp_right fun ⟨s, hs, _⟩ => nomatch hs
  · intro j hj
    rw [heff.sector j (by simp only [setDeny_openInodes]; exact hj)]
    obtain ⟨n, hn⟩ := setDeny_inode v.fs f false j
    simp only [hn]
  · intro j hj
    refine (heff.kept j (by simp only [setDeny_openInodes]; exact hj)).imp_right ?_
    obtain ⟨n, hn⟩ := setDeny_inode v.fs f false j
    rintro ⟨hc, hr, hbits⟩
    rw [refs_setDeny] at hr
    refine ⟨?_, hr, ?_⟩
    · rcases hc with hc | ⟨g, hg, hgi⟩
      · exact .inl hc
      · exact .inr ⟨g, hg, by rw [← hgi, setDeny_fileInode]⟩
    · simp only [hn] at hbits
      rw [sectorsAt_of_device (setDeny_device ..)] at hbits
      exact hbits

end files

/-! ## 中身を書く -/

section stores

variable (h : VInv v)
include h

theorem of_device {d : Block} {W : Nat → Prop}
    (hv : Volume (· ∈ v.live) v.refs { v.fs with device := d })
    (hunt : Untouched W v.fs { v.fs with device := d })
    (hW : ∀ s ∈ v.dirs, ∀ x ∈ v.fs.sectorsAt s, ¬ W x) :
    VInv { v with fs := { v.fs with device := d } } := by
  refine ⟨hv, ⟨{ h.files with }, h.files.mapFile, h.files.handle⟩, h.dirs_live, h.dirs_ne, h.plain,
    fun s hs => ?_⟩
  obtain ⟨m, hm⟩ := h.names s hs
  exact ⟨m, h.represents_of_untouched hunt hs (hW s hs) hm⟩

theorem inodeWriteAt_ok (hi : i ∈ v.fs.openInodes) (hplain : v.isPlain i) (buffer : List UInt8)
    (offset : Nat) :
    ∃ n fs', inodeWriteAt i buffer offset v.fs = .ok (n, fs') ∧ VInv { v with fs := fs' } ∧
      fs'.file = v.fs.file ∧ fs'.inode = v.fs.inode ∧ fs'.openInodes = v.fs.openInodes ∧
      fs'.files = v.fs.files ∧ fs'.freeMapFile = v.fs.freeMapFile ∧
      Untouched (· ∈ (v.fs.diskInode (v.fs.inode i).sector).extent) v.fs fs' := by
  have hlive := h.volume.table.live i hi
  have hdata := h.volume.table.data i hi
  by_cases hd : (v.fs.inode i).denyWriteCnt = 0
  · rw [inodeWriteAt_eq hd (by rw [hdata]; exact h.volume.extents.fits hlive), hdata]
    have hle : (buffer.take (min buffer.length
        ((v.fs.diskInode (v.fs.inode i).sector).length - offset))).length ≤
        (v.fs.diskInode (v.fs.inode i).sector).length - offset := by
      rw [List.length_take]
      omega
    have hunt := h.volume.untouched_store hlive hle
    refine ⟨_, _, rfl, h.of_device (h.volume.store hlive hle hplain.1) hunt fun s hs x hx hm => ?_,
      rfl, rfl, rfl, rfl, rfl, hunt⟩
    refine h.volume.extents.disjoint s _ (h.dirs_live s hs) hlive ?_ x hx (mem_sectorsAt_of_extent hm)
    rintro rfl
    exact hplain.2 hs
  · rw [inodeWriteAt_denied hd]
    exact ⟨_, _, rfl, h, rfl, rfl, rfl, rfl, rfl, Untouched.of_eq rfl⟩

theorem fileWrite_ok (hf : v.fs.handles f) (buffer : List UInt8) :
    ∃ n fs', fileWrite f buffer v.fs = .ok (n, fs') ∧ VInv { v with fs := fs' } ∧
      fs'.inode = v.fs.inode ∧ fs'.openInodes = v.fs.openInodes ∧
      Untouched (· ∈ (v.fs.diskInode (v.fs.inode (v.fs.file f).inode).sector).extent) v.fs fs' := by
  obtain ⟨n, fs', he, hv, hfile, hinode, hopen, -, -, hunt⟩ := h.inodeWriteAt_ok
    (h.files.isOpen f hf.1) ⟨h.files.handle f hf, h.plain f hf.1⟩ buffer (v.fs.file f).pos
  unfold fileWrite
  rw [he]
  exact ⟨n, _, rfl, hv.modifyFile rfl rfl, hinode, hopen, hunt.node, hunt.data⟩

theorem fileRead_ok (hf : f ∈ v.fs.files) (size : Nat) :
    ∃ bytes fs', fileRead f size v.fs = .ok (bytes, fs') ∧ VInv { v with fs := fs' } ∧
      fs'.device = v.fs.device ∧ fs'.inode = v.fs.inode ∧ fs'.openInodes = v.fs.openInodes := by
  have hi := h.files.isOpen f hf
  unfold fileRead
  rw [inodeReadAt_eq]
  · exact ⟨_, _, rfl, h.modifyFile rfl rfl, rfl, rfl, rfl⟩
  · rw [h.volume.table.data _ hi]
    exact h.volume.extents.fits (h.volume.table.live _ hi)

end stores

/-! ## directory -/

section dirs

variable (h : VInv v)
include h

/-- file は directory を指さないので、directory への書き込みは禁じられない。 -/
theorem isDir (hd : v.isDir dir) : IsDir v.fs dir (v.fs.inode dir).sector := by
  refine h.volume.isDir hd.1 rfl ?_
  rw [h.files.deny dir hd.1]
  have hzero : v.fs.denyRefs dir = 0 := by
    refine List.countP_eq_zero.mpr fun f hf hc => ?_
    simp only [decide_eq_true_eq] at hc
    exact h.plain f hf (hc.1 ▸ hd.2)
  rw [hzero]
  rfl

theorem dir_ne (hd : v.isDir dir) : (v.fs.inode dir).sector ≠ freeMapSector := by
  intro he
  exact h.dirs_ne (he ▸ hd.2)

theorem putEntry (hd : v.isDir dir) {k : Nat} {e : DirEntry}
    (hm : ∃ m, Represents (v.fs.putEntry (v.fs.inode dir).sector k e) (v.fs.inode dir).sector m) :
    VInv { v with fs := v.fs.putEntry (v.fs.inode dir).sector k e } := by
  have hlive := h.dirs_live _ hd.2
  have hunt := h.volume.untouched_putEntry hlive k e
  refine h.of_frame (frame_putEntry ..) (h.volume.putEntry hlive (h.dir_ne hd) k e) (fun _ hs => hs)
    h.dirs_live fun s hs => ?_
  by_cases hsd : s = (v.fs.inode dir).sector
  · rw [hsd]
    exact hm
  · obtain ⟨m, hr⟩ := h.names s hs
    refine ⟨m, h.represents_of_untouched hunt hs (fun x hx hm => ?_) hr⟩
    exact h.volume.extents.disjoint s _ (h.dirs_live s hs) hlive hsd x hx (mem_sectorsAt_of_extent hm)

variable {m : NameMap (List UInt8) Nat}

theorem dirAdd_ok (hd : v.isDir dir) (hm : Represents v.fs (v.fs.inode dir).sector m)
    (name : CString) {t : Nat} (ht : t < 2 ^ 32) :
    ∃ fs', dirAdd dir name t v.fs = .ok ((m.add validName name.val t).1, fs') ∧
      Represents fs' (v.fs.inode dir).sector (m.add validName name.val t).2 ∧
      VInv { v with fs := fs' } ∧ Effect (.dirAdd dir name t) v { v with fs := fs' } := by
  obtain ⟨k, e, -, ⟨he, hr⟩ | ⟨he, hr⟩⟩ := (h.isDir hd).dirAdd_represents hm name ht
  · exact ⟨v.fs, he, hr, h, Effect.of_same (Untouched.of_eq rfl) (fun _ => rfl) rfl⟩
  · refine ⟨_, he, hr, h.putEntry hd ⟨_, hr⟩, Effect.of_same ?_ (fun _ => rfl) rfl⟩
    exact (h.volume.untouched_putEntry (h.dirs_live _ hd.2) k e).mono fun x hx =>
      Or.inr ⟨_, rfl, hx⟩

theorem target_eq (hd : v.isDir dir) (hm : Represents v.fs (v.fs.inode dir).sector m)
    (name : CString) : v.target dir name = m.lookup name.val := by
  unfold Vnodes.target
  rw [(h.isDir hd).lookup_eq]
  cases hf : (List.range (v.fs.slotsAt (v.fs.inode dir).sector)).find?
      (v.fs.nameAt (v.fs.inode dir).sector name) with
  | none => exact (hm.find_eq_none hf).symm
  | some k => exact (hm.find_eq_some hf).2.2.2.symm

theorem dirLookup_ok (hd : v.isDir dir) (hm : Represents v.fs (v.fs.inode dir).sector m)
    (name : CString) (hlive : ∀ s, v.target dir name = some s → s ∈ v.live) :
    ∃ o fs', dirLookup dir name v.fs = .ok (o, fs') ∧
      VInv { v with fs := fs', held := o.elim v.held v.hold } ∧ fs'.device = v.fs.device ∧
      o.map (fun i => (fs'.inode i).sector) = m.lookup name.val ∧
      Effect (.dirLookup dir name) v { v with fs := fs', held := o.elim v.held v.hold } := by
  rw [h.target_eq hd hm] at hlive
  unfold dirLookup
  rw [(h.isDir hd).lookup_eq]
  simp only [Except.bind]
  cases hf : (List.range (v.fs.slotsAt (v.fs.inode dir).sector)).find?
      (v.fs.nameAt (v.fs.inode dir).sector name) with
  | none =>
    exact ⟨none, v.fs, rfl, h, rfl, (hm.find_eq_none hf).symm,
      Effect.of_same (Untouched.of_eq rfl) (fun _ => rfl) rfl⟩
  | some k =>
    obtain ⟨-, -, -, hl⟩ := hm.find_eq_some hf
    obtain ⟨i, fs', he, hv, ho⟩ := h.volume.openInode (hlive _ hl)
    refine ⟨some i, fs', ?_, h.opened hv ho, ho.device, ?_, h.effect_opened ho _ _⟩
    · simp only [Option.map_some, he, Except.map]
    · rw [hl, Option.map_some, ho.sector]

theorem clearEntry (hd : v.isDir dir) {k : Nat} {name : CString}
    (hm : Represents v.fs (v.fs.inode dir).sector m) (hk : k < v.fs.slotsAt (v.fs.inode dir).sector)
    (hu : (v.fs.entryAt (v.fs.inode dir).sector k).inUse = true)
    (hname : cstr (v.fs.entryAt (v.fs.inode dir).sector k).name = name.val) :
    let e : DirEntry := { v.fs.entryAt (v.fs.inode dir).sector k with inUse := false }
    let fs' := v.fs.putEntry (v.fs.inode dir).sector k e
    inodeWriteAt dir e.toBytes (dirEntrySize * k) v.fs = .ok (dirEntrySize, fs') ∧
      Represents fs' (v.fs.inode dir).sector (m.remove name.val).2 ∧ VInv { v with fs := fs' } := by
  intro e fs'
  have hdir := h.isDir hd
  have hr := hm.clearEntry hdir.length_lt hdir.not_self hk hu hname
  refine ⟨?_, hr, h.putEntry hd ⟨_, hr⟩⟩
  rw [hdir.writeEntry_eq (storable_entryAt v.fs _ k).cleared, (min_entry_eq _ k).mpr hk]

/-- 消した名前の inode を閉じた後の状態。開いていなかった inode は、ここで無くなる。 -/
theorem unlinked_eq {name : CString} {t : Nat} (ht : v.target dir name = some t)
    {fs₁ fs₂ : Fs} (ho : Opened t v.fs i fs₁) {w : Vnodes} (hw : VInv w)
    (hfs : w = { v with fs := inodeRemove i fs₂, held := v.hold i }) (hi : i ∈ w.fs.openInodes)
    (hrefs : w.refs i = v.refs i + 1) (hsec : (fs₂.inode i).sector = t) (fs' : Fs) :
    { w.closed i fs' with held := w.drop i } = v.unlinked dir name fs' := by
  have hrem : (w.fs.inode i).removed = true := by
    rw [hfs]
    simp only [inodeRemove, modifyInode_self]
  have hws : (w.fs.inode i).sector = t := by
    rw [hfs]
    simp only [inodeRemove, modifyInode_self, hsec]
  have hdrop : w.drop i = v.held := by
    rw [hfs]
    exact drop_hold ..
  have hlast : w.refs i = 1 ↔
      ¬ (v.fs.openInodes.any fun j => (v.fs.inode j).sector = t) = true := by
    have hpos := h.volume.table.refs_pos i
    rw [hrefs, List.any_eq_true]
    cases ho with
    | shared hi' hs _ =>
      have := hpos.mpr hi'
      exact ⟨fun hone => by omega, fun hno => absurd ⟨i, hi', decide_eq_true hs⟩ hno⟩
    | fresh hnew hi' _ =>
      have hnot : i ∉ v.fs.openInodes := by
        intro hm
        exact Nat.lt_irrefl _ (hi' ▸ h.volume.table.lt i hm)
      have := mt hpos.mp hnot
      constructor
      · rintro - ⟨j, hj, hs⟩
        exact hnew j hj (of_decide_eq_true hs)
      · intro _
        omega
  rw [hw.closed_eq hi, hdrop]
  unfold Vnodes.unlinked
  simp only [ht]
  by_cases hany : (v.fs.openInodes.any fun j => (v.fs.inode j).sector = t) = true
  · rw [if_neg fun hc => hlast.mp hc.1 hany, if_pos hany, hfs]
  · rw [if_pos ⟨hlast.mpr hany, hrem⟩, if_neg hany, hws, hfs]
    rfl

theorem dirRemove_ok (hd : v.isDir dir) (hm : Represents v.fs (v.fs.inode dir).sector m)
    (name : CString) (hlive : ∀ s, v.target dir name = some s → s ∈ v.live) :
    ∃ fs', dirRemove dir name v.fs = .ok ((m.remove name.val).1, fs') ∧
      Represents fs' (v.fs.inode dir).sector (m.remove name.val).2 ∧
      VInv (v.unlinked dir name fs') ∧
      Effect (.dirRemove dir name) v (v.unlinked dir name fs') := by
  have hdir := h.isDir hd
  have htarget := h.target_eq hd hm name
  unfold dirRemove
  rw [hdir.lookup_eq]
  simp only [Except.bind]
  cases hf : (List.range (v.fs.slotsAt (v.fs.inode dir).sector)).find?
      (v.fs.nameAt (v.fs.inode dir).sector name) with
  | none =>
    have hl := hm.find_eq_none hf
    rw [m.remove_of_not_mem (m.lookup_eq_none.mp hl)]
    have hun : v.unlinked dir name v.fs = v := by
      unfold Vnodes.unlinked
      rw [htarget, hl]
    refine ⟨v.fs, rfl, hm, ?_⟩
    rw [hun]
    exact ⟨h, Effect.of_same (Untouched.of_eq rfl) (fun _ => rfl) rfl⟩
  | some k =>
    obtain ⟨hk, hu, hname, hl⟩ := hm.find_eq_some hf
    have ht := htarget.trans hl
    obtain ⟨r, fs₁, he₁, hv₁, ho⟩ := h.volume.openInode (hlive _ ht)
    have hw₁ := h.opened hv₁ ho
    have hsec₁ : (fs₁.inode dir).sector = (v.fs.inode dir).sector :=
      ho.frame.sector dir (h.volume.table.lt dir hd.1)
    have hd₁ : Vnodes.isDir { v with fs := fs₁, held := v.hold r } dir :=
      ⟨ho.mem_openInodes.mpr (.inr hd.1), by rw [hsec₁]; exact hd.2⟩
    have hdir₁ := hw₁.isDir hd₁
    simp only [hsec₁] at hdir₁
    have hentry : fs₁.entryAt (v.fs.inode dir).sector k = v.fs.entryAt (v.fs.inode dir).sector k :=
      entryAt_of_device ho.device ..
    have hslots : fs₁.slotsAt (v.fs.inode dir).sector = v.fs.slotsAt (v.fs.inode dir).sector := by
      unfold Fs.slotsAt
      rw [diskInode_of_device ho.device]
    have hname₁ : cstr (fs₁.entryAt (fs₁.inode dir).sector k).name = name.val := by
      rw [hsec₁, hentry, hname]
    obtain ⟨hwrite, hr₂, hw₂⟩ := hw₁.clearEntry hd₁ (m := m)
      (by simp only [hsec₁]; exact hm.of_device ho.device) (by simp only [hsec₁, hslots]; exact hk)
      (by simp only [hsec₁, hentry]; exact hu) hname₁
    simp only [hsec₁, hentry] at hwrite hr₂ hw₂
    have hmem : r ∈ fs₁.openInodes := ho.isOpen
    have hw₃ := hw₂.remove (i := r) hmem
    obtain ⟨fs', he', hw', heff⟩ := hw₃.inodeClose_ok (i := r) (hold_pos v r)
    have hrefs := congrFun (refs_hold v ho.frame r) r
    rw [update_self] at hrefs
    rw [h.unlinked_eq ht ho hw₃ rfl hmem hrefs ho.sector fs'] at hw' heff
    have hun : (v.unlinked dir name fs').fs = fs' := unlinked_fs ..
    refine ⟨fs', ?_, ?_, hw', ?_, ?_, ?_⟩
    · rw [m.remove_of_mem (m.mem_keys.mpr ⟨_, m.lookup_eq_some.mp hl⟩)]
      simp only [Option.map_some, he₁, hwrite, ne_eq, not_true_eq_false, if_false, he', Except.map]
    · have huntouched := heff.untouched
      rw [hun] at huntouched
      exact hw₃.represents_of_untouched huntouched hd.2
        (hw₃.not_writes (by simp [VOp.sector?]) (h.dirs_live _ hd.2) (fun t ht => nomatch ht))
        (hr₂.of_device rfl)
    · have hput := hw₁.volume.untouched_putEntry (h.dirs_live _ hd.2) k
        { v.fs.entryAt (v.fs.inode dir).sector k with inUse := false }
      refine (Untouched.of_eq ho.device).trans (.trans (hput.mono fun x hx => .inr ⟨_, rfl, ?_⟩)
        (.trans ?_ (heff.untouched.mono ?_)))
      · rw [diskInode_of_device ho.device] at hx
        exact hx
      · exact Untouched.of_eq rfl
      · rintro x (hx | ⟨t, ht, -⟩)
        · exact .inl (ho.freeMap ▸ hx)
        · cases ht
    · intro j hj
      rw [heff.sector j (ho.mem_openInodes.mpr (.inr hj))]
      refine Eq.trans ?_ (ho.frame.sector j (h.volume.table.lt j hj))
      exact modifyInode_field (fs₁.putEntry ..) Inode.sector (i := r)
        (f := fun node => { node with removed := true }) rfl j
    · -- 前から開いていた inode なら、閉じるのは最後の参照でない
      intro j hj
      refine (heff.kept j (ho.mem_openInodes.mpr (.inr hj))).imp_right ?_
      rintro ⟨hc, hone, -⟩
      obtain rfl : j = r := by
        rcases hc with hc | ⟨g, hg, -⟩
        · exact (VOp.inodeClose.inj hc).symm
        · cases hg
      have hpos := (h.volume.table.refs_pos j).mpr hj
      have hone : v.refs j + 1 = 1 := hrefs.symm.trans hone
      omega

end dirs

end VInv

end Pintos
