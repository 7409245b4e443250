import Pintos.Properties.Filesys.InodeRefs

/-!
# directory は有限写像である

`dir_create` で作った directory は、名前から sector への写像を表す。容量は、中身に収まる entry の数である。
`dir_add`・`dir_remove`・`dir_lookup` は写像の操作と同じ結果を返し、後の directory は操作の後の写像を表す。

`dir_remove` と `dir_lookup` は見つけた sector の inode を開く。
その sector に inode があることは、`dir_add` を呼ぶ側の約束である。
-/

namespace Pintos

open Infra Spec

variable {v v' : Vnodes} {fs fs' : Fs} {dir : InodeId} {d s : Nat} {op : VOp}
  {m : NameMap (List UInt8) Nat}

/-- sector `d` の directory の中身に触れない操作は、表す写像を変えない。 -/
theorem VInv.represents_run (h : VInv v) (hcall : op.callable v) (he : op.run v = .ok v')
    (hd : d ∈ v.dirs) (hw : op.sector? v ≠ some d) (hm : Represents v.fs d m) :
    Represents v'.fs d m := by
  rcases h.run hcall with ⟨p, he', -⟩ | ⟨v₁, he', -, heff⟩
  · rw [he] at he'
    cases he'
  · obtain rfl : v' = v₁ := Except.ok.inj (he.symm.trans he')
    exact h.represents_of_untouched heff.untouched hd
      (h.not_writes hw (h.dirs_live d hd) (h.sector_live hcall)) hm

theorem VInv.dirCreate_empty (h : VInv v) {entryCnt : Nat}
    (he : allocateInode (fun sector => dirCreate sector entryCnt) v.fs = .ok (some s, fs')) :
    Represents fs' s (.empty (fs'.slotsAt s)) ∧
      (fs'.diskInode s).length = (int32 (entryCnt * dirEntrySize : Nat)).toNat := by
  have he' : allocateInode
      (fun sector => inodeCreate sector (int32 (entryCnt * dirEntrySize : Nat))) v.fs =
      .ok (some s, fs') := he
  rcases h.volume.allocateInode_cases (int32_lt (entryCnt * dirEntrySize : Nat)) with
    ⟨-, hc⟩ | ⟨fs₁, m, hc, -⟩ | ⟨t, fs₁, hc, hlen, ha⟩
  · rw [he'] at hc
    cases hc
  · rw [he'] at hc
    cases hc
  · rw [he'] at hc
    cases hc
    exact ⟨ha.empty, hlen⟩

/-- 開いた directory `dir` は写像 `m` として働く。 -/
structure ActsAs (v : Vnodes) (dir : InodeId) (m : NameMap (List UInt8) Nat) : Prop where
  represents : Represents v.fs (v.fs.inode dir).sector m
  /-- 容量は、中身に丸ごと収まる entry の数である。 -/
  capacity : m.capacity = (v.fs.inode dir).data.length / dirEntrySize
  add : ∀ name t, t < 2 ^ 32 → ∃ fs',
    dirAdd dir name t v.fs = .ok ((m.add validName name.val t).1, fs') ∧
    Represents fs' (v.fs.inode dir).sector (m.add validName name.val t).2
  remove : ∀ name, (∀ t, m.lookup name.val = some t → t ∈ v.live) → ∃ fs',
    dirRemove dir name v.fs = .ok ((m.remove name.val).1, fs') ∧
    Represents fs' (v.fs.inode dir).sector (m.remove name.val).2
  lookup : ∀ name, (∀ t, m.lookup name.val = some t → t ∈ v.live) → ∃ o fs',
    dirLookup dir name v.fs = .ok (o, fs') ∧
    o.map (fun i => (fs'.inode i).sector) = m.lookup name.val ∧
    Represents fs' (v.fs.inode dir).sector m
  /-- `dir_readdir` を終わりまで呼べば、どの名前もちょうど一度返る。 -/
  readdir : ∃ names, listNames dir v.fs (m.capacity + 1) 0 = .ok names ∧ names.Nodup ∧
    ∀ name, name ∈ names ↔ name ∈ m.keys
  /-- 使われている entry の名前は重ならない。 -/
  unique : ∀ j k, j < m.capacity → k < m.capacity →
    (v.fs.entryAt (v.fs.inode dir).sector j).inUse = true →
    (v.fs.entryAt (v.fs.inode dir).sector k).inUse = true →
    cstr (v.fs.entryAt (v.fs.inode dir).sector j).name =
      cstr (v.fs.entryAt (v.fs.inode dir).sector k).name → j = k
  /-- この directory に書かない操作は、写像を変えない。 -/
  frame : ∀ (op : VOp) v', op.callable v → op.run v = .ok v' →
    op.sector? v ≠ some (v.fs.inode dir).sector → Represents v'.fs (v.fs.inode dir).sector m

theorem VInv.actsAs (h : VInv v) (hd : v.isDir dir) : ∃ m, ActsAs v dir m := by
  obtain ⟨m, hm⟩ := h.names _ hd.2
  have htarget := h.target_eq hd hm
  refine ⟨m, hm, ?_, fun name t ht => ?_, fun name hlive => ?_, fun name hlive => ?_, ?_, ?_, ?_⟩
  · rw [hm.capacity, h.volume.table.data dir hd.1]
    rfl
  · obtain ⟨fs', he, hr, -⟩ := h.dirAdd_ok hd hm name ht
    exact ⟨fs', he, hr⟩
  · obtain ⟨fs', he, hr, -⟩ := h.dirRemove_ok hd hm name (by rw [htarget]; exact hlive)
    exact ⟨fs', he, hr⟩
  · obtain ⟨o, fs', he, -, hdev, ho, -⟩ := h.dirLookup_ok hd hm name (by rw [htarget]; exact hlive)
    exact ⟨o, fs', he, ho, hm.of_device hdev⟩
  · obtain ⟨names, he, hperm⟩ := (h.isDir hd).listNames_represents hm
    rw [hm.capacity]
    exact ⟨names, he, hperm.nodup_iff.mpr m.nodup, fun name => hperm.mem_iff⟩
  · intro j k hj hk
    rw [hm.capacity] at hj hk
    exact hm.unique hj hk
  · intro op v' hcall he hw
    exact h.represents_run hcall he hd.2 hw hm

/--
**開いた directory は写像として働く。** 作ったばかりの directory は空の写像を表す。

到達するどの状態でも成り立つので、操作を並べた結果は、写像の操作を同じ順に並べたものと一致する。
-/
theorem reachable_directory_map (h : Reachable vnodeLayer v) :
    (∀ dir, v.isDir dir → ∃ m, ActsAs v dir m) ∧
    ∀ entryCnt s fs', allocateInode (fun sector => dirCreate sector entryCnt) v.fs =
        .ok (some s, fs') →
      Represents fs' s (.empty ((int32 (entryCnt * dirEntrySize : Nat)).toNat / dirEntrySize)) := by
  have hv := reachable_vinv h
  refine ⟨fun dir hd => hv.actsAs hd, fun entryCnt s fs' he => ?_⟩
  obtain ⟨hempty, hlen⟩ := hv.dirCreate_empty he
  have hslots : fs'.slotsAt s = (int32 (entryCnt * dirEntrySize : Nat)).toNat / dirEntrySize := by
    unfold Fs.slotsAt
    rw [hlen]
  rw [← hslots]
  exact hempty

/-- 二つ入る directory に名前を一つ足す。 -/
theorem reachable_directory_map_added : ∃ v m, Reachable vnodeLayer v ∧ ActsAs v 2 m ∧
    m.capacity = 2 ∧ m.lookup [97] = some 6 := by
  obtain ⟨v, hv, hp⟩ := exists_reachable_of_vnodes vnodeStep 16 (by decide)
    [.dirCreate 2, .inodeCreate 1, .inodeOpen 4, .dirAdd 2 ⟨[97], by decide⟩ 6]
    (p := fun v => v.isDir 2 ∧ (v.fs.inode 2).data.length = 40 ∧
      v.target 2 ⟨[97], by decide⟩ = some 6) (by decide +kernel)
  obtain ⟨hd, hlen, htarget⟩ := of_decide_eq_true hp
  obtain ⟨m, hm⟩ := (reachable_directory_map hv).1 2 hd
  refine ⟨v, m, hv, hm, ?_, ?_⟩
  · rw [hm.capacity, hlen]
    rfl
  · rw [← htarget]
    exact ((reachable_vinv hv).target_eq hd hm.represents ⟨[97], by decide⟩).symm

/--
**一つの sector に二つの名前を付けると、二つ目の `dir_remove` が止まる。**
一つ目の `dir_remove` が inode の sector を返し、二つ目はその sector をもう一度返そうとする。
-/
theorem exists_dirRemove_panic : ∃ v m, Reachable vnodeLayer v ∧ v.isDir 2 ∧
    Represents v.fs (v.fs.inode 2).sector m ∧ m.lookup [98] = some 6 ∧
    dirRemove 2 ⟨[98], by decide⟩ v.fs = .error .freeMapRelease := by
  obtain ⟨v, hv, hp⟩ := exists_reachable_of_vnodes vnodeStep 16 (by decide)
    [.dirCreate 2, .inodeCreate 1, .inodeOpen 4, .dirAdd 2 ⟨[97], by decide⟩ 6,
      .dirAdd 2 ⟨[98], by decide⟩ 6, .dirRemove 2 ⟨[97], by decide⟩]
    (p := fun v => v.isDir 2 ∧ v.target 2 ⟨[98], by decide⟩ = some 6 ∧
      failure? (dirRemove 2 ⟨[98], by decide⟩ v.fs) = some .freeMapRelease) (by decide +kernel)
  obtain ⟨hd, htarget, hfail⟩ := of_decide_eq_true hp
  obtain ⟨m, hm⟩ := (reachable_vinv hv).names _ hd.2
  refine ⟨v, m, hv, hd, hm, ?_, failure?_eq_some.mp hfail⟩
  rw [← htarget]
  exact ((reachable_vinv hv).target_eq hd hm ⟨[98], by decide⟩).symm

end Pintos
