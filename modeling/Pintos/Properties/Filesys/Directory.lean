import Pintos.Properties.Filesys.OpenInodes

/-!
# directory の読み書き

開いた directory を通した `lookup` と `dir_add` を、entry の並び `entryAt` の上の操作として書き直す。

directory の長さは entry の大きさの倍数とは限らない。余りの byte は entry にならず、
一杯の directory への `dir_add` はそこに書くだけで失敗する。

`lookup` と空き entry 探しは、どちらも entry を前から順に読む loop である。
どちらも `List.find?` に等しいことを、残りの entry の数についての帰納法で示す。
-/

namespace Pintos

open Infra

/-! ## entry の byte の並び -/

variable {bytes : List UInt8}

/-- disk に書いて読み戻せる entry。 -/
structure DirEntry.Storable (e : DirEntry) : Prop where
  sector : e.inodeSector < 2 ^ 32
  name : e.name.length = nameMax + 1

namespace DirEntry

variable {e : DirEntry}

theorem Storable.length_toBytes (h : e.Storable) : e.toBytes.length = dirEntrySize := by
  simp [toBytes, h.name, nameMax, dirEntrySize]

theorem Storable.ofBytes_toBytes (h : e.Storable) : ofBytes e.toBytes = e := by
  obtain ⟨sector, name, inUse⟩ := e
  have hname : name.length = 15 := h.name
  have hlast : ((le32 sector ++ name ++ [if inUse then 1 else 0]).getD 19 0) =
      (if inUse then 1 else 0 : UInt8) := by
    rw [List.getD_eq_getElem?_getD, List.getElem?_append_right (by simp [hname])]
    simp [hname]
  unfold toBytes ofBytes
  simp only [hlast, DirEntry.mk.injEq]
  refine ⟨ofLe32_le32 h.sector, ?_, ?_⟩
  · rw [List.append_assoc, List.drop_left' (length_le32 _), List.take_left' h.name]
  · cases inUse <;> decide

theorem storable_ofBytes (h : bytes.length = dirEntrySize) : (ofBytes bytes).Storable := by
  refine ⟨?_, ?_⟩
  · have hlt := fun k => (bytes.getD k 0).toNat_lt
    have h₀ := hlt 0; have h₁ := hlt 1; have h₂ := hlt 2; have h₃ := hlt 3
    simp only [ofBytes, ofLe32]
    omega
  · simp [ofBytes, h, nameMax, dirEntrySize]

theorem Storable.cleared (h : e.Storable) : DirEntry.Storable { e with inUse := false } :=
  ⟨h.sector, h.name⟩

end DirEntry

/-! ### 名前 -/

theorem length_strlcpyName {dst src : List UInt8} (h : dst.length = nameMax + 1) :
    (strlcpyName dst src).length = nameMax + 1 := by
  simp only [strlcpyName, List.length_append, List.length_take, List.length_cons, List.length_drop, h]
  omega

theorem cstr_strlcpyName (dst : List UInt8) {name : CString} (h : name.val.length ≤ nameMax) :
    cstr (strlcpyName dst name.val) = name.val := by
  have hne : ∀ b ∈ name.val, (decide (b ≠ 0)) = true := by
    intro b hb
    exact decide_eq_true fun he => name.property (he ▸ hb)
  unfold cstr strlcpyName
  rw [List.take_of_length_le h, List.takeWhile_append_of_pos hne]
  simp

variable {fs fs' : Fs} {L : Nat → Prop} {refs : InodeId → Nat} {dir : InodeId} {s k : Nat}
  {e : DirEntry}

/-! ## entry の並び -/

namespace Fs

variable (fs : Fs)

def entryAt (s k : Nat) : DirEntry :=
  DirEntry.ofBytes ((List.range dirEntrySize).map fun j =>
    (fs.diskInode s).byteAt fs.device (dirEntrySize * k + j))

def slotsAt (s : Nat) : Nat := (fs.diskInode s).length / dirEntrySize

def nameAt (s : Nat) (name : CString) (k : Nat) : Bool :=
  (fs.entryAt s k).inUse ∧ name.val = cstr (fs.entryAt s k).name

/-- `k` から `n` 個のうち、空いている最初の entry の番号。無ければ `k + n` である。 -/
def freeSlot (s k n : Nat) : Nat :=
  ((List.range' k n).find? fun j => !(fs.entryAt s j).inUse).getD (k + n)

/-- `k` 番目の entry を書き換えた状態。directory の終わりを超える分は書かれない。 -/
def putEntry (s k : Nat) (e : DirEntry) : Fs :=
  { fs with
    device := fs.device.store (fs.diskInode s).start (dirEntrySize * k)
      (e.toBytes.take (min dirEntrySize ((fs.diskInode s).length - dirEntrySize * k))) }

end Fs

theorem storable_entryAt (fs : Fs) (s k : Nat) : (fs.entryAt s k).Storable :=
  DirEntry.storable_ofBytes (by simp)

theorem entryAt_congr (hlen : (fs.diskInode s).length < 2 ^ 31)
    (hdata : ∀ x ∈ fs.sectorsAt s, fs'.device.data x = fs.device.data x)
    (hk : k < fs.slotsAt s) : fs'.entryAt s k = fs.entryAt s k := by
  unfold Fs.entryAt
  rw [diskInode_congr (hdata s (mem_sectorsAt_self fs s))]
  congr 1
  refine List.map_congr_left fun j hj => ?_
  have hj : j < dirEntrySize := List.mem_range.mp hj
  have hpos : dirEntrySize * k + j < (fs.diskInode s).length := by
    unfold Fs.slotsAt dirEntrySize at *
    omega
  exact congrFun (hdata _ (mem_sectorsAt_of_extent (byte_mem_extent hlen hpos))) _

theorem slotsAt_congr (h : fs'.device.data s = fs.device.data s) : fs'.slotsAt s = fs.slotsAt s := by
  unfold Fs.slotsAt
  rw [diskInode_congr h]

theorem entryAt_of_device (h : fs'.device = fs.device) (s k : Nat) :
    fs'.entryAt s k = fs.entryAt s k := by
  unfold Fs.entryAt Fs.diskInode
  rw [h]

/-! ## 開いた directory -/

/-- `dir` は sector `s` の directory を開いた inode で、書き込みは禁じられていない。 -/
structure IsDir (fs : Fs) (dir : InodeId) (s : Nat) : Prop where
  data : (fs.inode dir).data = fs.diskInode s
  deny : (fs.inode dir).denyWriteCnt = 0
  length_lt : (fs.diskInode s).length < 2 ^ 31
  not_self : s ∉ (fs.diskInode s).extent
  fits : (fs.diskInode s).Fits fs.device

theorem Volume.isDir (h : Volume L refs fs) (hopen : dir ∈ fs.openInodes)
    (hsec : (fs.inode dir).sector = s) (hdeny : (fs.inode dir).denyWriteCnt = 0) :
    IsDir fs dir s := by
  have hlive := h.table.live dir hopen
  have hdata := h.table.data dir hopen
  rw [hsec] at hlive hdata
  exact ⟨hdata, hdeny, h.extents.length_lt s hlive, h.extents.not_self s hlive,
    h.extents.fits hlive⟩

theorem min_entry_eq (length k : Nat) : min dirEntrySize (length - dirEntrySize * k) = dirEntrySize ↔
    k < length / dirEntrySize := by
  unfold dirEntrySize
  omega

namespace IsDir

variable (h : IsDir fs dir s)
include h

theorem readEntry_eq (k : Nat) : readEntry dir (dirEntrySize * k) fs =
    .ok (if k < fs.slotsAt s then some (fs.entryAt s k) else none) := by
  unfold readEntry
  rw [inodeReadAt_eq (by rw [h.data]; exact h.fits), h.data]
  simp only [Except.map, List.length_map, List.length_range, min_entry_eq]
  unfold Fs.slotsAt
  split
  · next hk =>
    rw [(min_entry_eq _ k).mpr hk]
    rfl
  · rfl

/-! ### 探す -/

theorem lookupLoop_eq (name : CString) : ∀ (n : Nat) {fuel k : Nat}, k + n = fs.slotsAt s →
    n < fuel → lookupLoop dir name fs fuel (dirEntrySize * k) =
      .ok (((List.range' k n).find? (fs.nameAt s name)).map fun j =>
        (fs.entryAt s j, dirEntrySize * j))
  | n, 0, k, _, hf => absurd hf (Nat.not_lt_zero n)
  | 0, fuel + 1, k, hk, _ => by
    rw [lookupLoop, h.readEntry_eq, if_neg (by omega)]
    rfl
  | n + 1, fuel + 1, k, hk, hf => by
    rw [lookupLoop, h.readEntry_eq, if_pos (by omega)]
    simp only [Except.bind]
    rw [List.range'_succ, List.find?_cons]
    by_cases hm : fs.nameAt s name k = true
    · rw [hm, if_pos (by simpa [Fs.nameAt] using hm)]
      rfl
    · rw [Bool.eq_false_iff.mpr hm, if_neg (by simpa [Fs.nameAt] using hm), ← Nat.mul_succ]
      exact lookupLoop_eq name n (by omega) (by omega)

theorem slots_lt_fuel : fs.slotsAt s < (fs.inode dir).data.length + 1 := by
  rw [h.data]
  exact Nat.lt_succ_of_le (Nat.div_le_self ..)

theorem lookup_eq (name : CString) : lookup dir name fs =
    .ok (((List.range (fs.slotsAt s)).find? (fs.nameAt s name)).map fun j =>
      (fs.entryAt s j, dirEntrySize * j)) := by
  unfold lookup
  rw [List.range_eq_range']
  exact h.lookupLoop_eq name (fs.slotsAt s) (k := 0) (Nat.zero_add _) h.slots_lt_fuel

/-! ### 空いた entry -/

theorem slotLoop_eq : ∀ (n : Nat) {fuel k : Nat} {e : DirEntry}, k + n = fs.slotsAt s → n < fuel →
    e.Storable → ∃ e', e'.Storable ∧
      slotLoop dir fs fuel e (dirEntrySize * k) = .ok (e', dirEntrySize * fs.freeSlot s k n)
  | n, 0, k, _, _, hf, _ => absurd hf (Nat.not_lt_zero n)
  | 0, fuel + 1, k, e, hk, _, he => by
    refine ⟨e, he, ?_⟩
    rw [slotLoop, h.readEntry_eq, if_neg (by omega)]
    rfl
  | n + 1, fuel + 1, k, e, hk, hf, he => by
    rw [slotLoop, h.readEntry_eq, if_pos (by omega)]
    simp only [Except.bind, Fs.freeSlot]
    rw [List.range'_succ, List.find?_cons]
    cases hu : (fs.entryAt s k).inUse with
    | true =>
      obtain ⟨e', he', heq⟩ := slotLoop_eq n (k := k + 1) (e := fs.entryAt s k) (by omega)
        (Nat.lt_of_succ_lt_succ hf) (storable_entryAt fs s k)
      refine ⟨e', he', ?_⟩
      rw [if_pos rfl, ← Nat.mul_succ, heq, Fs.freeSlot, Nat.add_right_comm]
      rfl
    | false => exact ⟨fs.entryAt s k, storable_entryAt fs s k, by simp⟩

end IsDir

theorem inUse_freeSlot {n : Nat} (h : fs.freeSlot s 0 n < n) :
    (fs.entryAt s (fs.freeSlot s 0 n)).inUse = false := by
  unfold Fs.freeSlot at *
  cases hf : (List.range' 0 n).find? fun j => !(fs.entryAt s j).inUse with
  | none =>
    rw [hf] at h
    simp at h
  | some j => simpa using List.find?_some hf

theorem freeSlot_lt_iff {n : Nat} :
    fs.freeSlot s 0 n < n ↔ ∃ j < n, (fs.entryAt s j).inUse = false := by
  refine ⟨fun h => ⟨_, h, inUse_freeSlot h⟩, ?_⟩
  rintro ⟨j, hj, hu⟩
  unfold Fs.freeSlot
  cases hf : (List.range' 0 n).find? fun j => !(fs.entryAt s j).inUse with
  | none =>
    have := List.find?_eq_none.mp hf j (List.mem_range'_1.mpr ⟨Nat.zero_le _, by omega⟩)
    simp [hu] at this
  | some i =>
    have := (List.mem_range'_1.mp (List.mem_of_find?_eq_some hf)).2
    simp only [Option.getD_some]
    omega

/-! ## 書く -/

theorem map_range_getD {n : Nat} (h : bytes.length = n) :
    ((List.range n).map fun o => bytes.getD o 0) = bytes := by
  subst h
  refine List.ext_getElem (by simp) fun o h₁ h₂ => ?_
  simp [List.getD_eq_getElem?_getD, List.getElem?_eq_getElem h₂]

theorem store_data_eq {data : InodeDisk} {device : Block} (hlen : data.length < 2 ^ 31)
    {offset : Nat} (hle : bytes.length ≤ data.length - offset) {x : Nat} (hx : x ∉ data.extent)
    : (device.store data.start offset bytes).data x = device.data x := by
  cases bytes with
  | nil => rw [store_nil]
  | cons b bytes =>
    refine store_data_of_not_mem_extent hlen ?_ hx
    rw [List.length_cons] at hle ⊢
    omega

theorem length_take_entry (e : DirEntry) (length offset : Nat) :
    (e.toBytes.take (min dirEntrySize (length - offset))).length ≤ length - offset := by
  rw [List.length_take]
  omega

theorem putEntry_data (hlen : (fs.diskInode s).length < 2 ^ 31) (k : Nat) (e : DirEntry) {x : Nat}
    (hx : x ∉ (fs.diskInode s).extent) : (fs.putEntry s k e).device.data x = fs.device.data x :=
  store_data_eq hlen (length_take_entry e _ _) hx

theorem putEntry_entryAt (hlen : (fs.diskInode s).length < 2 ^ 31)
    (hself : s ∉ (fs.diskInode s).extent) (he : e.Storable) {j : Nat} (hj : j < fs.slotsAt s) :
    (fs.putEntry s k e).entryAt s j = if j = k then e else fs.entryAt s j := by
  unfold Fs.entryAt
  rw [diskInode_congr (putEntry_data hlen k e hself)]
  simp only [Fs.putEntry, byteAt_store]
  split
  · next hjk =>
    subst hjk
    rw [(min_entry_eq _ j).mpr hj, List.take_of_length_le (Nat.le_of_eq he.length_toBytes)]
    have hbytes : ∀ o ∈ List.range dirEntrySize,
        patch ((fs.diskInode s).byteAt fs.device (dirEntrySize * j + o))
          (dirEntrySize * j) e.toBytes (dirEntrySize * j + o) = e.toBytes.getD o 0 := by
      intro o ho
      rw [patch_of_mem (Nat.le_add_right ..)
        (by rw [he.length_toBytes]; exact Nat.add_lt_add_left (List.mem_range.mp ho) _),
        Nat.add_sub_cancel_left]
    rw [List.map_congr_left hbytes, map_range_getD he.length_toBytes, he.ofBytes_toBytes]
  · next hjk =>
    congr 1
    refine List.map_congr_left fun o ho => patch_of_not_mem ?_
    have ho := List.mem_range.mp ho
    rw [List.length_take, he.length_toBytes]
    unfold dirEntrySize at *
    omega

theorem putEntry_slotsAt (hlen : (fs.diskInode s).length < 2 ^ 31)
    (hself : s ∉ (fs.diskInode s).extent) (k : Nat) (e : DirEntry) :
    (fs.putEntry s k e).slotsAt s = fs.slotsAt s :=
  slotsAt_congr (putEntry_data hlen k e hself)

theorem frame_putEntry (fs : Fs) (s k : Nat) (e : DirEntry) : Frame fs (fs.putEntry s k e) :=
  ⟨rfl, rfl, rfl, rfl, Nat.le_refl _, fun _ _ => rfl, fun _ _ => rfl, fun _ hj => .inl hj⟩

namespace IsDir

variable (h : IsDir fs dir s)
include h

theorem writeEntry_eq (he : e.Storable) (k : Nat) :
    inodeWriteAt dir e.toBytes (dirEntrySize * k) fs =
      .ok (min dirEntrySize ((fs.diskInode s).length - dirEntrySize * k), fs.putEntry s k e) := by
  rw [inodeWriteAt_eq h.deny (by rw [h.data]; exact h.fits), h.data, he.length_toBytes]
  rfl

/--
`dir_add` は、名前が正しく、まだ無ければ、空いた最初の entry を書く。

空きが無ければ、entry にならない余りに書いて失敗する。
-/
theorem dirAdd_eq (name : CString) {t : Nat} (ht : t < 2 ^ 32) :
    ∃ e : DirEntry, e.Storable ∧ e.inodeSector = t ∧ e.inUse = true ∧
      (name.val.length ≤ nameMax → cstr e.name = name.val) ∧
      dirAdd dir name t fs = .ok (
        if name.val = [] ∨ name.val.length > nameMax ∨
            ((List.range (fs.slotsAt s)).find? (fs.nameAt s name)).isSome then (false, fs)
        else (decide (fs.freeSlot s 0 (fs.slotsAt s) < fs.slotsAt s),
          fs.putEntry s (fs.freeSlot s 0 (fs.slotsAt s)) e)) := by
  have hinit : DirEntry.Storable ⟨0, List.replicate (nameMax + 1) 0, false⟩ := ⟨by decide, by simp⟩
  obtain ⟨e', he', heq⟩ := h.slotLoop_eq (fs.slotsAt s) (k := 0) (Nat.zero_add _)
    h.slots_lt_fuel hinit
  rw [Nat.mul_zero] at heq
  have he : DirEntry.Storable ⟨t, strlcpyName e'.name name.val, true⟩ :=
    ⟨ht, length_strlcpyName he'.name⟩
  refine ⟨_, he, rfl, rfl, fun hlen => cstr_strlcpyName _ hlen, ?_⟩
  unfold dirAdd
  by_cases hbad : name.val = [] ∨ name.val.length > nameMax
  · rw [if_pos hbad, if_pos (hbad.imp_right Or.inl)]
  rw [if_neg hbad, h.lookup_eq]
  simp only [Except.bind]
  cases hfind : (List.range (fs.slotsAt s)).find? (fs.nameAt s name) with
  | some j => simp
  | none =>
    simp only [Option.isSome_none, Bool.false_eq_true, or_false, hbad, if_false, Option.map_none]
    rw [heq]
    simp only []
    rw [h.writeEntry_eq he]
    simp only [Except.map, min_entry_eq]
    rfl

end IsDir

end Pintos
