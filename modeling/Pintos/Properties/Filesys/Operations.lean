import Pintos.Properties.Filesys.Ownership

/-!
# 名前での操作と不変量

`filesys_create`・`filesys_open`・`filesys_remove` は、どれも root directory を開き、
仕事をして、閉じる。途中の参照は `refs` に足して数える。

作りかけの file は、entry を書けば root directory の file になり、
書けなければ inode の sector だけを返す。
削除では entry を消すのと inode に印を付けるのを合わせて、持ち主が
「root directory の file」から「削除されたが開いている file」に移る。
-/

namespace Pintos

open Infra Function

variable {fs fs' : Fs} {refs : InodeId → Nat} {dir i : InodeId} {s k : Nat} {e : DirEntry}

/-! ## 開いた root directory -/

/-- `dir` は開いている root directory の inode である。 -/
structure IsRoot (fs : Fs) (dir : InodeId) : Prop where
  isOpen : dir ∈ fs.openInodes
  sector : (fs.inode dir).sector = rootDirSector

theorem Core.isDir (h : Core refs fs) (hr : IsRoot fs dir) : IsDir fs dir rootDirSector :=
  h.volume.isDir hr.isOpen hr.sector (h.root_deny dir hr.isOpen hr.sector)

theorem IsRoot.frame {refs' : InodeId → Nat} (hr : IsRoot fs dir) (h : Core refs fs)
    (h' : Core refs' fs') (hpos : 0 < refs' dir) (hf : Frame fs fs') : IsRoot fs' dir :=
  ⟨(h'.table.refs_pos dir).mp hpos,
    (hf.sector dir (h.table.lt dir hr.isOpen)).trans hr.sector⟩

theorem IsRoot.not_removed (hr : IsRoot fs dir) (h : Core refs fs) :
    (fs.inode dir).removed = false := by
  by_contra hne
  have ho : fs.HasOwner (.removed dir) := ⟨hr.isOpen, by simpa using hne⟩
  cases h.owner_inj (.removed dir) .rootDir ho trivial hr.sector

theorem Core.closeRoot (h : Core refs fs) (hr : IsRoot fs dir) :
    ∃ fs', inodeClose dir fs = .ok fs' ∧ Core (update refs dir (refs dir - 1)) fs' ∧
      Frame fs fs' ∧ fs'.device = fs.device ∧ fs'.freeMap = fs.freeMap := by
  obtain ⟨fs', he, hcore, hc, -, hsame⟩ := h.closeInode hr.isOpen (by rw [hr.sector]; decide)
  exact ⟨fs', he, hcore, hc.frame, hsame (hr.not_removed h)⟩

theorem update_update_sub (refs : InodeId → Nat) (i : InodeId) :
    update (update refs i (refs i + 1)) i
      (update refs i (refs i + 1) i - 1) = refs := by
  rw [update_self, Nat.add_sub_cancel, update_idem, update_eq_self]

/-! ## entry を書く -/

section putEntry

variable (h : Core refs fs)
include h

theorem Core.putEntry_rootEntry (he : e.Storable) {j : Nat} (hj : j < rootSlots) :
    (fs.putEntry rootDirSector k e).rootEntry j = if j = k then e else fs.rootEntry j := by
  refine putEntry_entryAt h.root_length_lt h.root_not_self he ?_
  rw [h.slotsAt_root]
  exact hj

theorem Core.putEntry_root (k : Nat) (e : DirEntry) :
    (fs.putEntry rootDirSector k e).device.data rootDirSector = fs.device.data rootDirSector :=
  putEntry_data h.root_length_lt k e h.root_not_self

end putEntry

section addEntry

variable (h : Core refs fs) (hk : k < rootSlots) (hu : (fs.rootEntry k).inUse = false)
  (he : e.Storable)

include h hk he in
theorem Core.hasOwner_putEntry (heu : e.inUse = true) (o : Owner) :
    (fs.putEntry rootDirSector k e).HasOwner o ↔ o = .named k ∨ fs.HasOwner o := by
  cases o with
  | freeMap | rootDir => simp [Fs.HasOwner]
  | named j =>
    simp only [Fs.HasOwner, Owner.named.injEq]
    by_cases hj : j < rootSlots
    · rw [h.putEntry_rootEntry he hj]
      by_cases hjk : j = k
      · subst hjk
        simp [hk, heu]
      · simp [hjk]
    · have hjk : j ≠ k := by
        rintro rfl
        exact hj hk
      simp [hj, hjk]
  | removed j => simp [Fs.HasOwner, Fs.putEntry]

include h hu he in
theorem Core.sectorOf_putEntry {o : Owner} (ho : fs.HasOwner o) :
    (fs.putEntry rootDirSector k e).sectorOf o = fs.sectorOf o := by
  cases o with
  | named j =>
    have hj : j ≠ k := by
      rintro rfl
      rw [Fs.HasOwner, hu] at ho
      cases ho.2
    simp only [Fs.sectorOf, h.putEntry_rootEntry he ho.1, if_neg hj]
  | _ => rfl

include h hk hu he in
theorem Core.addEntry (hf : Fresh fs.Live fs e.inodeSector) (heu : e.inUse = true) :
    Core refs (fs.putEntry rootDirSector k e) := by
  have hown := h.hasOwner_putEntry hk he heu
  have hsec : ∀ o, fs.HasOwner o → (fs.putEntry rootDirSector k e).sectorOf o = fs.sectorOf o :=
    fun _ ho => h.sectorOf_putEntry hu he ho
  have hsec₀ : (fs.putEntry rootDirSector k e).sectorOf (.named k) = e.inodeSector := by
    simp only [Fs.sectorOf, h.putEntry_rootEntry he hk, if_pos]
  have hlive : ∀ t, (fs.putEntry rootDirSector k e).Live t ↔ t = e.inodeSector ∨ fs.Live t := by
    intro t
    constructor
    · rintro ⟨o, ho, rfl⟩
      rcases (hown o).mp ho with rfl | ho
      · exact .inl hsec₀
      · exact .inr ⟨o, ho, (hsec o ho).symm⟩
    · rintro (rfl | ⟨o, ho, rfl⟩)
      · exact ⟨.named k, (hown _).mpr (.inl rfl), hsec₀⟩
      · exact ⟨o, (hown o).mpr (.inr ho), hsec o ho⟩
  refine ⟨((h.volume.add hf).putEntry (.inr (live_rootDir fs)) (by decide) k e).congr hlive, ?_,
    ?_, h.root_deny⟩
  · rw [diskInode_congr (h.putEntry_root k e)]
    exact h.root_length
  · intro o o' ho ho' heq
    rcases (hown o).mp ho with rfl | ho <;> rcases (hown o').mp ho' with rfl | ho'
    · rfl
    · rw [hsec₀, hsec o' ho'] at heq
      exact absurd (heq ▸ ho'.live) hf.not_live
    · rw [hsec₀, hsec o ho] at heq
      exact absurd (heq ▸ ho.live) hf.not_live
    · rw [hsec o ho, hsec o' ho'] at heq
      exact h.owner_inj o o' ho ho' heq

end addEntry

/-- root directory の長さは entry の大きさの倍数なので、一杯のときは何も書かれない。 -/
theorem Core.putEntry_full (h : Core refs fs) (hk : rootSlots ≤ k) (e : DirEntry) :
    fs.putEntry rootDirSector k e = fs := by
  have hmin : min dirEntrySize ((fs.diskInode rootDirSector).length - dirEntrySize * k) = 0 := by
    rw [h.root_length]
    unfold dirEntrySize rootSlots at *
    omega
  unfold Fs.putEntry
  rw [hmin, List.take_zero, store_nil]

theorem Core.dirAdd_cases (h : Core refs fs) (hr : IsRoot fs dir) (name : CString)
    (hs : s < 2 ^ 32) :
    dirAdd dir name s fs = .ok (false, fs) ∨
    ∃ k e, k < rootSlots ∧ (fs.rootEntry k).inUse = false ∧ e.Storable ∧ e.inodeSector = s ∧
      e.inUse = true ∧ dirAdd dir name s fs = .ok (true, fs.putEntry rootDirSector k e) := by
  obtain ⟨e, he, hes, heu, -, heq⟩ := (h.isDir hr).dirAdd_eq name hs
  rw [heq, h.slotsAt_root]
  split
  · exact .inl rfl
  · by_cases hlt : fs.freeSlot rootDirSector 0 rootSlots < rootSlots
    · exact .inr ⟨_, e, hlt, inUse_freeSlot hlt, he, hes, heu, by rw [decide_eq_true hlt]⟩
    · left
      rw [decide_eq_false hlt, h.putEntry_full (Nat.not_lt.mp hlt)]

/-! ## 作る -/

section create

variable {start : Nat} {length : Int}

theorem Core.withInode_root (h : Core refs fs) (hc : Claimed fs.Live fs s)
    (hscan : fs.freeMap.scan 0 (bytesToSectors length) false = some start) :
    ∀ x ∈ fs.sectorsAt rootDirSector,
      (fs.withInode s start length).device.data x = fs.device.data x :=
  fun _ hx => h.volume.withInode_sector hc hscan (live_rootDir fs) (by decide) hx

theorem Core.withInode (h : Core refs fs) (hc : Claimed fs.Live fs s)
    (hscan : fs.freeMap.scan 0 (bytesToSectors length) false = some start) (hlen : 0 ≤ length)
    (hlt : length < 2 ^ 31) :
    Core refs (fs.withInode s start length) ∧
      Fresh (fs.withInode s start length).Live (fs.withInode s start length) s := by
  have hroot := h.withInode_root hc hscan
  have hown : ∀ o, ((fs.withInode s start length).HasOwner o ↔ fs.HasOwner o) ∧
      (fs.HasOwner o → (fs.withInode s start length).sectorOf o = fs.sectorOf o) :=
    h.owner_congr (fun _ => Iff.rfl) (fun _ _ => rfl) hroot
  obtain ⟨hv, hf⟩ := h.volume.withInode hc hscan hlen hlt
  refine ⟨h.of_device hv hroot, { hf with disjoint := fun t ht => hf.disjoint t ?_ }⟩
  exact (live_congr hown t).mp ht

theorem Claimed.ne_zero (hc : Claimed fs.Live fs s) : s ≠ 0 := by
  rintro rfl
  exact hc.free _ (live_freeMap fs) (mem_sectorsAt_self fs _)

/-- 取った sector `s` を返した後の free map。data の sector は返さない。 -/
def mapLeft (map : Bitmap) (s : Nat) (length : Int) : Bitmap :=
  match map.scan 0 (bytesToSectors length) false with
  | none => map.fill s 1 false
  | some start => (map.fill start (bytesToSectors length) true).fill s 1 false

def Fs.rootData (fs : Fs) (x : Nat) : Prop := x ∈ (fs.diskInode rootDirSector).extent

/-- **inode の sector を取った後の `filesys_create`。** 失敗しても root directory は変わらない。 -/
theorem Core.createAt_ok (h : Core refs fs) (hr : IsRoot fs dir) (hc : Claimed fs.Live fs s)
    (name : CString) (hlen : 0 ≤ length) (hlt : length < 2 ^ 31) {W : Nat → Prop} (hs : W s)
    (hW : ∀ x, fs.freeMap.bits x = false → W x) (hWr : ∀ x, fs.rootData x → W x) :
    ∃ b fs', createAt dir name length (some s) fs = .ok (b, fs') ∧ Core refs fs' ∧ Frame fs fs' ∧
      Untouched W fs fs' ∧ (b = false →
        (∀ x ∈ fs.sectorsAt rootDirSector, fs'.device.data x = fs.device.data x) ∧
        fs'.freeMap = mapLeft fs.freeMap s length) := by
  have hne := hc.ne_zero
  simp only [createAt, mapLeft]
  rw [inodeCreate_eq (fun f hf => h.volume.mapOk hf) h.extents.map_cnt hc.lt hlen]
  cases hscan : fs.freeMap.scan 0 (bytesToSectors length) false with
  | none =>
    obtain ⟨fs', he, hcore, hm⟩ := h.releaseClaimed hc
    refine ⟨false, fs', ?_, hcore, hm.frame, hm.untouched W,
      fun _ => ⟨fun _ hx => h.root_of_map hm hx, hm.freeMap⟩⟩
    simp [Except.bind, Except.map, hne, he]
  | some start =>
    obtain ⟨hcore₁, hfresh⟩ := h.withInode hc hscan hlen hlt
    have hunt₁ := h.volume.untouched_withInode hc hscan hs hW
    have hframe₁ := frame_withInode fs s start length
    have hr₁ : IsRoot (fs.withInode s start length) dir := ⟨hr.isOpen, hr.sector⟩
    have hroot := h.withInode_root hc hscan
    have hnode := diskInode_congr (hroot _ (mem_sectorsAt_self fs _))
    have hs32 : s < 2 ^ 32 := hc.lt.trans h.extents.size_lt
    rcases hcore₁.dirAdd_cases hr₁ name hs32 with hadd | ⟨k, e, hk, hu, he, hes, heu, hadd⟩
    · obtain ⟨fs', he, hcore, hm⟩ := hcore₁.releaseClaimed hfresh.claimed
      refine ⟨false, fs', ?_, hcore, hframe₁.trans hm.frame, hunt₁.trans (hm.untouched W), fun _ =>
        ⟨fun x hx => ?_, hm.freeMap⟩⟩
      · simp [Except.bind, Except.map, hadd, hne, he]
      · rw [hcore₁.root_of_map hm, hroot x hx]
        rw [sectorsAt_congr (hroot _ (mem_sectorsAt_self fs _))]
        exact hx
    · have hput := hcore₁.volume.untouched_putEntry (live_rootDir _) k e
      have hfresh' : Fresh (fs.withInode s start length).Live (fs.withInode s start length)
          e.inodeSector := by
        rw [hes]
        exact hfresh
      refine ⟨true, _, ?_, hcore₁.addEntry hk hu he hfresh' heu,
        hframe₁.trans (frame_putEntry _ _ k e), hunt₁.trans (hput.mono fun x hx => hWr x ?_),
        fun hf => nomatch hf⟩
      · simp [Except.bind, hadd]
      · rw [hnode] at hx
        exact hx

/-- 失敗した `filesys_create` の後の free map。 -/
def mapAfterFailure (map : Bitmap) (length : Int) : Bitmap :=
  match map.scan 0 1 false with
  | none => map
  | some s => mapLeft (map.fill s 1 true) s length

theorem createAt_neg (hlen : length < 0) (dir : InodeId) (name : CString) (s : Nat) (fs : Fs) :
    createAt dir name length (some s) fs = .error .inodeCreateLength := by
  simp only [createAt, inodeCreate, if_pos hlen]
  rfl

/--
**`filesys_create` は不変量を保つ。**

止まるのは、inode の sector を取れて、大きさが負の場合だけである。
前から使われていた sector は、free map の file と root directory のほかは変わらない。
-/
theorem Core.filesysCreate_cases (h : Core refs fs) (name : CString) (hlt : length < 2 ^ 31) :
    (length < 0 ∧ filesysCreate name length fs = .error .inodeCreateLength) ∨
    ∃ b fs', filesysCreate name length fs = .ok (b, fs') ∧ Core refs fs' ∧ Frame fs fs' ∧
      Untouched (fun x => fs.freeMap.bits x = false ∨ fs.rootData x) fs fs' ∧ (b = false →
        (∀ x ∈ fs.sectorsAt rootDirSector, fs'.device.data x = fs.device.data x) ∧
        fs'.freeMap = mapAfterFailure fs.freeMap length) := by
  obtain ⟨r, fs₁, he₁, hcore₁, ho⟩ := h.openInode (live_rootDir fs)
  have hdev := ho.device
  have hr : IsRoot fs₁ r := ⟨ho.isOpen, ho.sector⟩
  unfold filesysCreate mapAfterFailure
  rw [he₁]
  simp only [Except.bind]
  rw [freeMapAllocate_eq fun f hf => hcore₁.volume.mapOk hf, ← ho.freeMap]
  cases hscan : fs₁.freeMap.scan 0 1 false with
  | none =>
    obtain ⟨fs', he, hcore, hframe, hdev', hmap'⟩ := hcore₁.closeRoot hr
    rw [update_update_sub] at hcore
    refine .inr ⟨false, fs', ?_, hcore, ho.frame.trans hframe,
      Untouched.of_eq (hdev'.trans hdev), fun _ => ⟨fun x _ => by rw [hdev', hdev], hmap'⟩⟩
    simp [createAt, he, Except.map]
  | some s =>
    obtain ⟨hcore₂, hc⟩ := hcore₁.claim hscan
    by_cases hneg : length < 0
    · simp [createAt_neg hneg, hneg]
    have hm := hcore₁.volume.mapChanged (Bitmap.fill_bitCnt fs₁.freeMap s 1 true)
    have hr₂ : IsRoot (fs₁.saveMap (fs₁.freeMap.fill s 1 true)) r := ⟨hr.isOpen, hr.sector⟩
    obtain ⟨-, -, hbits⟩ := Bitmap.scan_eq_some hscan
    have hfree : ∀ x, (fs₁.freeMap.fill s 1 true).bits x = false → fs₁.freeMap.bits x = false := by
      intro x hx
      simp only [Bitmap.fill] at hx
      split at hx
      · cases hx
      · exact hx
    have hnode₁ : fs₁.diskInode rootDirSector = fs.diskInode rootDirSector :=
      diskInode_of_device hdev _
    have hsec₁ : fs₁.sectorsAt rootDirSector = fs.sectorsAt rootDirSector :=
      sectorsAt_of_device hdev _
    have hroot₂ := hcore₁.root_of_map hm (mem_sectorsAt_self fs₁ _)
    have hnode₂ := (diskInode_congr hroot₂).trans hnode₁
    have hsec₂ := (sectorsAt_congr hroot₂).trans hsec₁
    obtain ⟨b, fs₃, he₃, hcore₃, hframe₃, hunt₃, hfail⟩ :=
      hcore₂.createAt_ok hr₂ hc name (Int.not_lt.mp hneg) hlt
        (W := fun x => fs₁.freeMap.bits x = false ∨ fs.rootData x)
        (.inl (hbits s (Nat.le_refl _) (Nat.lt_succ_self _))) (fun x hx => .inl (hfree x hx))
        (fun x hx => .inr (by unfold Fs.rootData at hx ⊢; rwa [hnode₂] at hx))
    have hr₃ : IsRoot fs₃ r := hr₂.frame hcore₂ hcore₃ (by simp) hframe₃
    obtain ⟨fs', he, hcore, hframe, hdev', hmap'⟩ := hcore₃.closeRoot hr₃
    rw [update_update_sub] at hcore
    refine .inr ⟨b, fs', ?_, hcore, ((ho.frame.trans hm.frame).trans hframe₃).trans hframe, ?_,
      fun hb => ⟨fun x hx => ?_, ?_⟩⟩
    · simp [he₃, he, Except.map]
    · have h₁ : Untouched (fun x => fs₁.freeMap.bits x = false ∨ fs.rootData x) fs fs₁ :=
        Untouched.of_eq hdev
      exact ((h₁.trans (hm.untouched _)).trans hunt₃).trans (Untouched.of_eq hdev')
    · have hx₁ : x ∈ fs₁.sectorsAt rootDirSector := hsec₁.symm.subst (motive := (x ∈ ·)) hx
      have hx₂ : x ∈ (fs₁.saveMap (fs₁.freeMap.fill s 1 true)).sectorsAt rootDirSector :=
        hsec₂.symm.subst (motive := (x ∈ ·)) hx
      rw [hdev', (hfail hb).1 x hx₂, hcore₁.root_of_map hm hx₁, hdev]
    · rw [hmap', (hfail hb).2]
      rfl

end create

/-! ## 開く -/

theorem Core.hasOwner_of_find (h : Core refs fs) {name : CString}
    (hf : (List.range (fs.slotsAt rootDirSector)).find? (fs.nameAt rootDirSector name) = some k) :
    fs.HasOwner (.named k) := by
  rw [h.slotsAt_root] at hf
  have hk := List.mem_range.mp (List.mem_of_find?_eq_some hf)
  have hn := List.find?_some hf
  simp only [Fs.nameAt, decide_eq_true_eq] at hn
  exact ⟨hk, hn.1⟩

theorem Core.openNamed (h : Core refs fs) (hr : IsRoot fs dir) (ho : fs.HasOwner (.named k)) :
    ∃ i fs', inodeOpen (fs.rootEntry k).inodeSector fs = .ok (i, fs') ∧
      Core (update refs i (refs i + 1)) fs' ∧ i ≠ dir ∧ IsRoot fs' dir ∧
      Opened (fs.rootEntry k).inodeSector fs i fs' := by
  obtain ⟨i, fs', he, hcore, hop⟩ := h.openInode ho.live
  have hpos : 0 < update refs i (refs i + 1) dir := by
    by_cases hd : dir = i
    · subst hd
      simp
    · rw [update_of_ne hd]
      exact (h.table.refs_pos dir).mpr hr.isOpen
  have hr' : IsRoot fs' dir := hr.frame h hcore hpos hop.frame
  refine ⟨i, fs', he, hcore, ?_, hr', hop⟩
  rintro rfl
  exact (h.named_sector_ne ho).2 (hop.sector.symm.trans hr'.sector)

/-- **`filesys_open` は、何も変えずに失敗するか、名前の付いた file への参照を一つ増やす。** -/
theorem Core.filesysOpen_cases (h : Core refs fs) (name : CString) :
    (∃ fs', filesysOpen name fs = .ok (none, fs') ∧ Core refs fs' ∧ Frame fs fs' ∧
      fs'.device = fs.device ∧ fs'.freeMap = fs.freeMap) ∨
    ∃ i fs', filesysOpen name fs = .ok (some (fileOpen i fs').1, (fileOpen i fs').2) ∧
      Core (update refs i (refs i + 1)) fs' ∧ i ∈ fs'.openInodes ∧
      (fs'.inode i).sector ≠ freeMapSector ∧ (fs'.inode i).sector ≠ rootDirSector ∧
      Frame fs fs' ∧ fs'.device = fs.device ∧ fs'.freeMap = fs.freeMap := by
  obtain ⟨r, fs₁, he₁, hcore₁, ho₁⟩ := h.openInode (live_rootDir fs)
  have hr : IsRoot fs₁ r := ⟨ho₁.isOpen, ho₁.sector⟩
  unfold filesysOpen dirLookup
  rw [he₁]
  simp only [Except.bind]
  rw [(hcore₁.isDir hr).lookup_eq]
  cases hfind : (List.range (fs₁.slotsAt rootDirSector)).find? (fs₁.nameAt rootDirSector name) with
  | none =>
    obtain ⟨fs', he, hcore, hframe, hdev', hmap'⟩ := hcore₁.closeRoot hr
    rw [update_update_sub] at hcore
    refine .inl ⟨fs', ?_, hcore, ho₁.frame.trans hframe, hdev'.trans ho₁.device,
      hmap'.trans ho₁.freeMap⟩
    simp [he, Except.map]
  | some k =>
    have ho := hcore₁.hasOwner_of_find hfind
    obtain ⟨i, fs₂, he₂, hcore₂, hne, hr₂, hop⟩ := hcore₁.openNamed hr ho
    obtain ⟨fs', he, hcore, hframe, hdev', hmap'⟩ := hcore₂.closeRoot hr₂
    rw [update_of_ne hne, update_of_ne hne.symm, update_self,
      Nat.add_sub_cancel, update_comm hne, update_idem,
      update_eq_self] at hcore
    have hsec' : (fs'.inode i).sector = (fs₁.rootEntry k).inodeSector :=
      (hframe.sector i (hcore₂.table.lt i hop.isOpen)).trans hop.sector
    obtain ⟨hne₀, hne₁⟩ := hcore₁.named_sector_ne ho
    refine .inr ⟨i, fs', ?_, hcore, (hcore.table.refs_pos i).mp (by simp), hsec' ▸ hne₀,
      hsec' ▸ hne₁, (ho₁.frame.trans hop.frame).trans hframe, ?_, ?_⟩
    · rw [rootEntry_eq] at he₂
      simp [he₂, he, Except.map]
    · rw [hdev', hop.device, ho₁.device]
    · rw [hmap', hop.freeMap, ho₁.freeMap]

/-! ## 消す -/

/-- root directory の `k` 番目の entry を消し、その inode `i` に削除の印を付けた状態。 -/
def Fs.clearEntry (fs : Fs) (k : Nat) (i : InodeId) : Fs :=
  inodeRemove i (fs.putEntry rootDirSector k { fs.rootEntry k with inUse := false })

/-- entry を消した後の持ち主が、前は何であったか。 -/
def Owner.before (k : Nat) (i : InodeId) (o : Owner) : Owner :=
  if o = .removed i then .named k else o

section clearEntry

theorem storable_cleared (fs : Fs) (k : Nat) :
    DirEntry.Storable { fs.rootEntry k with inUse := false } :=
  (storable_entryAt fs rootDirSector k).cleared

theorem clearEntry_field {β : Type} (g : Inode → β)
    (h : ∀ node b, g { node with removed := b } = g node) (fs : Fs) (k : Nat) (i j : InodeId) :
    g ((fs.clearEntry k i).inode j) = g (fs.inode j) := by
  unfold Fs.clearEntry inodeRemove
  exact modifyInode_field _ g (h _ _) j

theorem clearEntry_sector (fs : Fs) (k : Nat) (i j : InodeId) :
    ((fs.clearEntry k i).inode j).sector = (fs.inode j).sector :=
  clearEntry_field Inode.sector (fun _ _ => rfl) fs k i j

theorem frame_clearEntry (fs : Fs) (k : Nat) (i : InodeId) : Frame fs (fs.clearEntry k i) :=
  ⟨rfl, rfl, rfl, rfl, Nat.le_refl _, fun j _ => clearEntry_sector fs k i j,
    fun j _ => clearEntry_field Inode.denyWriteCnt (fun _ _ => rfl) fs k i j,
    fun _ hj => .inl hj⟩

variable (h : Core refs fs) (hk : k < rootSlots) (hi : i ∈ fs.openInodes)
include h

theorem Core.clearEntry_rootEntry {j : Nat} (hj : j < rootSlots) :
    (fs.clearEntry k i).rootEntry j =
      if j = k then { fs.rootEntry k with inUse := false } else fs.rootEntry j :=
  h.putEntry_rootEntry (storable_cleared fs k) hj

theorem Core.untouched_clearEntry (k : Nat) (i : InodeId) :
    Untouched fs.rootData fs (fs.clearEntry k i) :=
  ⟨(h.volume.untouched_putEntry (live_rootDir fs) k _).node,
    (h.volume.untouched_putEntry (live_rootDir fs) k _).data⟩

include hi

theorem Core.hasOwner_clearEntry (o : Owner) :
    (fs.clearEntry k i).HasOwner o ↔ o = .removed i ∨ o ≠ .named k ∧ fs.HasOwner o := by
  cases o with
  | freeMap | rootDir => simp [Fs.HasOwner]
  | named j =>
    simp only [Fs.HasOwner, reduceCtorEq, false_or, ne_eq, Owner.named.injEq]
    by_cases hj : j < rootSlots
    · rw [h.clearEntry_rootEntry hj]
      by_cases hjk : j = k
      · simp [hjk]
      · simp [hjk]
    · simp [hj]
  | removed j =>
    simp only [Fs.HasOwner, Fs.clearEntry, inodeRemove, Owner.removed.injEq]
    by_cases hj : j = i
    · subst hj
      rw [modifyInode_self]
      exact iff_of_true ⟨hi, rfl⟩ (.inl rfl)
    · rw [modifyInode_of_ne hj]
      simp [hj, Fs.putEntry, Fs.modifyInode]

variable (hu : (fs.rootEntry k).inUse = true)
  (hsec : (fs.inode i).sector = (fs.rootEntry k).inodeSector)
include hk hu hsec

theorem Core.before_clearEntry {o : Owner} (ho : (fs.clearEntry k i).HasOwner o) :
    fs.HasOwner (o.before k i) ∧ (fs.clearEntry k i).sectorOf o = fs.sectorOf (o.before k i) := by
  unfold Owner.before
  by_cases hoi : o = .removed i
  · subst hoi
    rw [if_pos rfl]
    exact ⟨⟨hk, hu⟩, (clearEntry_sector fs k i i).trans hsec⟩
  · rw [if_neg hoi]
    obtain ⟨hne, ho⟩ := ((h.hasOwner_clearEntry hi o).mp ho).resolve_left hoi
    refine ⟨ho, ?_⟩
    cases o with
    | named j =>
      have hj : j ≠ k := fun hj => hne (by rw [hj])
      simp only [Fs.sectorOf, h.clearEntry_rootEntry ho.1, if_neg hj]
    | removed j => exact clearEntry_sector fs k i j
    | _ => rfl

theorem Core.live_clearEntry (t : Nat) : (fs.clearEntry k i).Live t ↔ fs.Live t := by
  constructor
  · rintro ⟨o, ho, rfl⟩
    obtain ⟨ho', hs⟩ := h.before_clearEntry hk hi hu hsec ho
    exact ⟨_, ho', hs.symm⟩
  · rintro ⟨o, ho, rfl⟩
    by_cases hok : o = .named k
    · subst hok
      exact ⟨.removed i, (h.hasOwner_clearEntry hi _).mpr (.inl rfl),
        (clearEntry_sector fs k i i).trans hsec⟩
    · have ho' := (h.hasOwner_clearEntry (k := k) hi o).mpr (.inr ⟨hok, ho⟩)
      refine ⟨o, ho', ?_⟩
      rw [(h.before_clearEntry hk hi hu hsec ho').2]
      unfold Owner.before
      split
      · next hoi => subst hoi; exact hsec.symm
      · rfl

/-- **entry を消すと、持ち主が入れ替わるだけで、sector は誰かのもののままである。** -/
theorem Core.clearEntry : Core refs (fs.clearEntry k i) := by
  have hown := h.hasOwner_clearEntry (k := k) hi
  have hv : Volume fs.Live refs (fs.clearEntry k i) :=
    (h.volume.putEntry (live_rootDir fs) (by decide) k _).remove hi
  refine h.of_volume (h.putEntry_root k _) ?_ (Owner.before k i)
    (fun _ ho => h.before_clearEntry hk hi hu hsec ho) ?_
    (hv.congr (h.live_clearEntry hk hi hu hsec))
  · intro j hj hs
    rw [clearEntry_sector] at hs
    rw [clearEntry_field Inode.denyWriteCnt (fun _ _ => rfl)]
    exact h.root_deny j hj hs
  · intro o o' ho ho' he
    unfold Owner.before at he
    by_cases hoi : o = .removed i <;> by_cases hoi' : o' = .removed i
    · rw [hoi, hoi']
    · rw [if_pos hoi, if_neg hoi'] at he
      exact absurd he.symm (((hown o').mp ho').resolve_left hoi').1
    · rw [if_neg hoi, if_pos hoi'] at he
      exact absurd he (((hown o).mp ho).resolve_left hoi).1
    · rw [if_neg hoi, if_neg hoi'] at he
      exact he

end clearEntry

theorem Core.dirRemove_ok (h : Core refs fs) (hr : IsRoot fs dir) (name : CString) :
    ∃ b fs', dirRemove dir name fs = .ok (b, fs') ∧ Core refs fs' ∧ Frame fs fs' ∧
      Untouched fs.rootData fs fs' := by
  unfold dirRemove
  rw [(h.isDir hr).lookup_eq]
  simp only [Except.bind]
  cases hfind : (List.range (fs.slotsAt rootDirSector)).find? (fs.nameAt rootDirSector name) with
  | none => exact ⟨false, fs, rfl, h, Frame.refl fs, Untouched.of_eq rfl⟩
  | some k =>
    have ho := h.hasOwner_of_find hfind
    obtain ⟨i, fs₁, he₁, hcore₁, hne, hr₁, hop⟩ := h.openNamed hr ho
    have hentry : fs₁.rootEntry k = fs.rootEntry k := entryAt_of_device hop.device _ k
    have hu : (fs₁.rootEntry k).inUse = true := by rw [hentry]; exact ho.2
    have hsec : (fs₁.inode i).sector = (fs₁.rootEntry k).inodeSector :=
      hop.sector.trans (by rw [hentry])
    have hcore₂ := hcore₁.clearEntry ho.1 hop.isOpen hu hsec
    have hsec₂ : ((fs₁.clearEntry k i).inode i).sector ≠ freeMapSector := by
      rw [clearEntry_sector, hop.sector]
      exact (h.named_sector_ne ho).1
    obtain ⟨fs', he, hcore, hc, hunt, -⟩ := hcore₂.closeInode hop.isOpen hsec₂
    rw [update_update_sub] at hcore
    have hwrite := (hcore₁.isDir hr₁).writeEntry_eq (storable_cleared fs₁ k) k
    have hfull := (min_entry_eq (fs₁.diskInode rootDirSector).length k).mpr
      (by rw [hcore₁.root_length]; exact ho.1)
    rw [hfull, hentry, rootEntry_eq] at hwrite
    rw [rootEntry_eq] at he₁
    refine ⟨true, fs', ?_, hcore, (hop.frame.trans (frame_clearEntry fs₁ k i)).trans hc.frame, ?_⟩
    · simp only [Option.map_some, he₁, hwrite]
      unfold Fs.clearEntry at he
      rw [hentry, rootEntry_eq] at he
      simp [he, Except.map]
    · have h₁ : Untouched fs.rootData fs fs₁ := Untouched.of_eq hop.device
      have h₂ := hcore₁.untouched_clearEntry k i
      refine (h₁.trans (h₂.mono fun x hx => ?_)).trans (hunt _)
      unfold Fs.rootData at hx ⊢
      rwa [diskInode_of_device hop.device] at hx

theorem Core.filesysRemove_ok (h : Core refs fs) (name : CString) :
    ∃ b fs', filesysRemove name fs = .ok (b, fs') ∧ Core refs fs' ∧ Frame fs fs' ∧
      Untouched fs.rootData fs fs' := by
  obtain ⟨r, fs₁, he₁, hcore₁, hop⟩ := h.openInode (live_rootDir fs)
  have hr : IsRoot fs₁ r := ⟨hop.isOpen, hop.sector⟩
  obtain ⟨b, fs₂, he₂, hcore₂, hframe₂, hunt₂⟩ := hcore₁.dirRemove_ok hr name
  have hr₂ : IsRoot fs₂ r := hr.frame hcore₁ hcore₂ (by simp) hframe₂
  obtain ⟨fs', he, hcore, hframe, hdev', -⟩ := hcore₂.closeRoot hr₂
  rw [update_update_sub] at hcore
  refine ⟨b, fs', ?_, hcore, (hop.frame.trans hframe₂).trans hframe, ?_⟩
  · unfold filesysRemove
    simp [he₁, he₂, he, Except.bind, Except.map]
  · have h₁ : Untouched fs.rootData fs fs₁ := Untouched.of_eq hop.device
    refine (h₁.trans (hunt₂.mono fun x hx => ?_)).trans (Untouched.of_eq hdev')
    unfold Fs.rootData at hx ⊢
    rwa [diskInode_of_device hop.device] at hx

end Pintos
