import Pintos.Properties.Filesys.VnodeRun

/-!
# inode の参照と、遅らせた削除

`open_inodes` には一つの sector に一つの `struct inode` しかなく、`open_cnt` は参照の数に等しい。
削除の印を付けても、最後の参照が閉じられるまで sector は使用中のままで、中身も変わらない。

参照は、呼ぶ側が持つもの（`held`）と、開いた file が持つものとの和（`Vnodes.refs`）である。
-/

namespace Pintos

open Infra

variable {v v' : Vnodes} {fs fs' : Fs} {i : InodeId} {s : Nat} {op : VOp}

/-- 操作の前に開いていた inode に起きること。 -/
inductive Afterwards (op : VOp) (v v' : Vnodes) (i : InodeId) : Prop
  /-- 表に残る。この inode に書く操作でなければ、読める中身は変わらない。 -/
  | kept (hopen : i ∈ v'.fs.openInodes)
      (hsector : (v'.fs.inode i).sector = (v.fs.inode i).sector)
      (hdata : (v'.fs.inode i).data = (v.fs.inode i).data)
      (hread : (v.fs.inode i).sector ≠ freeMapSector →
        op.sector? v ≠ some (v.fs.inode i).sector → ∀ size offset,
          inodeReadAt i size offset v'.fs = inodeReadAt i size offset v.fs)
  /-- 最後の参照が閉じられて、表から外れる。sector は、削除されていれば空き、そうでなければ残る。 -/
  | closed (hleft : i ∉ v'.fs.openInodes) (hclose : op.closes v i) (hlast : v.refs i = 1)
      (hbits : ∀ x ∈ v.fs.sectorsAt (v.fs.inode i).sector,
        v'.fs.freeMap.bits x = !(v.fs.inode i).removed)

namespace VInv

theorem fits (h : VInv v) (hi : i ∈ v.fs.openInodes) : (v.fs.inode i).data.Fits v.fs.device := by
  rw [h.volume.table.data i hi]
  exact h.volume.extents.fits (h.volume.table.live i hi)

theorem inodeOpen_eq (h : VInv v) (hi : i ∈ v.fs.openInodes) :
    inodeOpen (v.fs.inode i).sector v.fs = .ok (i, inodeReopen i v.fs) := by
  unfold inodeOpen
  cases hf : v.fs.openInodes.find? fun j => (v.fs.inode j).sector = (v.fs.inode i).sector with
  | none => simpa using List.find?_eq_none.mp hf i hi
  | some j =>
    have hs : (v.fs.inode j).sector = (v.fs.inode i).sector := by simpa using List.find?_some hf
    obtain rfl := h.volume.table.inj j (List.mem_of_find?_eq_some hf) i hi hs
    rfl

theorem sector_live (h : VInv v) (hcall : op.callable v) (t : Nat) (ht : op.sector? v = some t) :
    t ∈ v.live := by
  cases op with
  | inodeWriteAt i buffer offset =>
    cases ht
    exact h.volume.table.live i hcall.1
  | fileWrite f buffer =>
    cases ht
    exact h.volume.table.live _ (h.files.isOpen f hcall.1)
  | dirAdd | dirRemove =>
    cases ht
    exact h.dirs_live _ hcall.1.2
  | _ => cases ht

theorem inodeReadAt_congr (h : VInv v) (h' : VInv v') (hi : i ∈ v.fs.openInodes)
    (hi' : i ∈ v'.fs.openInodes) (hdata : (v'.fs.inode i).data = (v.fs.inode i).data)
    (hsame : ∀ x ∈ v.fs.sectorsAt (v.fs.inode i).sector,
      v'.fs.device.data x = v.fs.device.data x) (size offset : Nat) :
    inodeReadAt i size offset v'.fs = inodeReadAt i size offset v.fs := by
  rw [inodeReadAt_eq (h.fits hi), inodeReadAt_eq (h'.fits hi'), hdata]
  congr 1
  refine List.map_congr_left fun k hk => ?_
  have hk := List.mem_range.mp hk
  have hlive := h.volume.table.live i hi
  rw [h.volume.table.data i hi] at hk ⊢
  have hmem := byte_mem_extent (h.volume.extents.length_lt _ hlive)
    (show offset + k < (v.fs.diskInode (v.fs.inode i).sector).length by omega)
  unfold InodeDisk.byteAt
  exact congrFun (hsame _ (mem_sectorsAt_of_extent hmem)) _

theorem inodeWriteAt_read (h : VInv v) (hi : i ∈ v.fs.openInodes)
    (hd : (v.fs.inode i).denyWriteCnt = 0) (buffer : List UInt8) (offset : Nat) :
    ∃ fs', inodeWriteAt i buffer offset v.fs =
        .ok (min buffer.length ((v.fs.inode i).data.length - offset), fs') ∧
      inodeReadAt i buffer.length offset fs' =
        .ok (buffer.take (min buffer.length ((v.fs.inode i).data.length - offset))) := by
  refine ⟨_, inodeWriteAt_eq hd (h.fits hi) buffer offset, (inodeReadAt_eq ?_ _ _).trans ?_⟩
  · exact h.fits hi
  · have hlen : (buffer.take (min buffer.length ((v.fs.inode i).data.length - offset))).length =
        min buffer.length ((v.fs.inode i).data.length - offset) := by
      rw [List.length_take]
      omega
    congr 1
    refine Eq.trans (List.map_congr_left fun k hk => ?_) (map_range_getD hlen)
    have hk := List.mem_range.mp hk
    rw [byteAt_store, patch_of_mem (Nat.le_add_right ..) (by rw [hlen]; exact Nat.add_lt_add_left hk _),
      Nat.add_sub_cancel_left]

theorem afterwards (h : VInv v) (hcall : op.callable v) (h' : VInv v') (heff : Effect op v v')
    (hi : i ∈ v.fs.openInodes) : Afterwards op v v' i := by
  have hsec := heff.sector i hi
  have hlive := h.volume.table.live i hi
  by_cases hi' : i ∈ v'.fs.openInodes
  · have hnode : v'.fs.diskInode (v.fs.inode i).sector = v.fs.diskInode (v.fs.inode i).sector := by
      refine diskInode_congr (heff.untouched.data _ ?_
        (h.volume.extents.not_mem_extent hlive h.volume.extents.map_live))
      rintro (hfree | ⟨t, ht, hm⟩)
      · exact h.volume.extents.not_mem_of_free hlive hfree (mem_sectorsAt_self ..)
      · exact h.volume.extents.not_mem_extent hlive (h.sector_live hcall t ht) hm
    have hdata : (v'.fs.inode i).data = (v.fs.inode i).data := by
      rw [h.volume.table.data i hi, h'.volume.table.data i hi', hsec, hnode]
    refine .kept hi' hsec hdata fun hne hw => ?_
    exact h.inodeReadAt_congr h' hi hi' hdata
      (h.data_eq heff.untouched hlive hne (h.not_writes hw hlive (h.sector_live hcall)))
  · obtain ⟨hclose, hlast, hbits⟩ := (heff.kept i hi).resolve_left hi'
    exact .closed hi' hclose hlast hbits

end VInv

/--
**inode の表。**

一つの sector に一つの `struct inode` があり、`open_cnt` は参照の数で、参照の在る inode だけが表にある。
開いている inode の sector は使用中で、もう一度開けば同じ `struct inode` が返り、書いた byte は読み戻せる。

どの操作も `free_map_release` の `ASSERT` で止まることがなく、開いていた inode は、
最後の参照が閉じられるまで表に残って中身を保つ。
-/
theorem reachable_inode_refs (h : Reachable vnodeLayer v) :
    (∀ i ∈ v.fs.openInodes, ∀ j ∈ v.fs.openInodes,
      (v.fs.inode i).sector = (v.fs.inode j).sector → i = j) ∧
    (∀ i, i ∈ v.fs.openInodes ↔ 0 < v.refs i) ∧
    (∀ i ∈ v.fs.openInodes,
      (v.fs.inode i).openCnt = v.refs i ∧
      inodeOpen (v.fs.inode i).sector v.fs = .ok (i, inodeReopen i v.fs) ∧
      (∀ x ∈ v.fs.sectorsAt (v.fs.inode i).sector, v.fs.freeMap.bits x = true) ∧
      ((v.fs.inode i).denyWriteCnt = 0 → ∀ buffer offset, ∃ fs',
        inodeWriteAt i buffer offset v.fs =
          .ok (min buffer.length ((v.fs.inode i).data.length - offset), fs') ∧
        inodeReadAt i buffer.length offset fs' =
          .ok (buffer.take (min buffer.length ((v.fs.inode i).data.length - offset))))) ∧
    ∀ op : VOp, op.callable v →
      (∃ p, op.run v = .error p ∧ (p = .inodeCreateLength ∨ p = .fileSeekPos)) ∨
      ∃ v', op.run v = .ok v' ∧ ∀ i ∈ v.fs.openInodes, Afterwards op v v' i := by
  have hv := reachable_vinv h
  have ht := hv.volume.table
  refine ⟨ht.inj, fun i => (ht.refs_pos i).symm, fun i hi => ⟨ht.refs_eq i hi, hv.inodeOpen_eq hi,
    fun x hx => (hv.volume.extents.inside _ (ht.live i hi) x hx).2, hv.inodeWriteAt_read hi⟩,
    fun op hcall => ?_⟩
  refine (hv.run hcall).imp_right fun ⟨v', he, hv', heff⟩ => ?_
  exact ⟨v', he, fun i hi => hv.afterwards hcall hv' heff hi⟩

/-- 削除した inode は、参照が二つ残る間は表にあり、同じ sector を開けばそれが返る。 -/
theorem reachable_inode_refs_removed : ∃ v, Reachable vnodeLayer v ∧ (v.fs.inode 2).removed = true ∧
    (v.fs.inode 2).openCnt = 2 ∧ inodeOpen 4 v.fs = .ok (2, inodeReopen 2 v.fs) := by
  obtain ⟨v, hv, hp⟩ := exists_reachable_of_vnodes vnodeStep 8 (by decide)
    [.inodeCreate 1, .inodeOpen 4, .inodeReopen 2, .inodeRemove 2, .inodeWriteAt 2 [7] 0]
    (p := fun v => 2 ∈ v.fs.openInodes ∧ (v.fs.inode 2).sector = 4 ∧ (v.fs.inode 2).removed = true ∧
      v.refs 2 = 2) (by decide +kernel)
  obtain ⟨hopen, hsec, hrem, hrefs⟩ := of_decide_eq_true hp
  obtain ⟨-, -, hi, -⟩ := reachable_inode_refs hv
  obtain ⟨hcnt, hsame, -⟩ := hi 2 hopen
  rw [hsec] at hsame
  rw [hrefs] at hcnt
  exact ⟨v, hv, hrem, hcnt, hsame⟩

end Pintos
