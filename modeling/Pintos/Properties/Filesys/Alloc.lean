import Pintos.Properties.Filesys.ReadWrite

/-!
# sector の割り当て

free map と inode の作成が、止まらずに何をするかを式にしておく。
free map の file に書けること（`MapOk`）は、後で不変量から出す。
-/

namespace Pintos

open Infra

variable {fs : Fs}

/-! ## free map を書く -/

/-- free map の file `f` に全体を書ける。 -/
structure MapOk (fs : Fs) (f : FileId) : Prop where
  deny : (fs.inode (fs.file f).inode).denyWriteCnt = 0
  length : (fs.inode (fs.file f).inode).data.length = Bitmap.byteCnt fs.freeMap.bitCnt
  fits : (fs.inode (fs.file f).inode).data.Fits fs.device

/-- free map を file に書いた後の装置。file が無い間は変わらない。 -/
def Fs.savedDevice (fs : Fs) : Block :=
  match fs.freeMapFile with
  | none => fs.device
  | some f => fs.device.store (fs.inode (fs.file f).inode).data.start 0 fs.freeMap.toBytes

/-- free map を `map` にして、file にも書いた状態。 -/
def Fs.saveMap (fs : Fs) (map : Bitmap) : Fs :=
  { fs with freeMap := map, device := { fs with freeMap := map }.savedDevice }

theorem bitmapWrite_eq {f : FileId} (h : MapOk fs f) : bitmapWrite f fs =
    .ok (true, { fs with
      device := fs.device.store (fs.inode (fs.file f).inode).data.start 0 fs.freeMap.toBytes }) := by
  have hlen : min fs.freeMap.toBytes.length ((fs.inode (fs.file f).inode).data.length - 0) =
      Bitmap.byteCnt fs.freeMap.bitCnt := by
    rw [Bitmap.length_toBytes, h.length, Nat.sub_zero, Nat.min_self]
  unfold bitmapWrite
  rw [inodeWriteAt_eq h.deny h.fits, hlen]
  simp only [Except.map, Bitmap.fileSize, decide_true, Except.ok.injEq, Prod.mk.injEq, true_and]
  rw [List.take_of_length_le (Nat.le_of_eq fs.freeMap.length_toBytes)]

theorem freeMapAllocate_eq (h : ∀ f, fs.freeMapFile = some f → MapOk fs f) (cnt : Nat) :
    freeMapAllocate cnt fs = .ok (match fs.freeMap.scan 0 cnt false with
      | none => (none, fs)
      | some sector => (some sector, fs.saveMap (fs.freeMap.fill sector cnt true))) := by
  unfold freeMapAllocate
  rw [Bitmap.scanAndFlip_eq]
  cases fs.freeMap.scan 0 cnt false with
  | none => rfl
  | some sector =>
    simp only [Option.map_some, Bool.not_false]
    split
    · next hf =>
      unfold Fs.saveMap Fs.savedDevice
      simp only [hf]
    · next f hf =>
      have hok := h f hf
      have hok' : MapOk { fs with freeMap := fs.freeMap.fill sector cnt true } f :=
        ⟨hok.deny, hok.length, hok.fits⟩
      rw [bitmapWrite_eq hok']
      unfold Fs.saveMap Fs.savedDevice
      simp only [hf]
      rfl

theorem freeMapRelease_eq {sector cnt : Nat} (hle : sector + cnt ≤ fs.freeMap.bitCnt)
    (hall : ∀ i, sector ≤ i → i < sector + cnt → fs.freeMap.bits i = true) {f : FileId}
    (hf : fs.freeMapFile = some f) (h : MapOk fs f) :
    freeMapRelease sector cnt fs = .ok (fs.saveMap (fs.freeMap.fill sector cnt false)) := by
  have h' : MapOk { fs with freeMap := fs.freeMap.fill sector cnt false } f :=
    ⟨h.deny, h.length, h.fits⟩
  have hsome : orPanic .freeMapNull fs.freeMapFile = .ok f := by rw [hf]; rfl
  unfold freeMapRelease
  rw [Bitmap.all_eq_some_true.mpr ⟨hle, hall⟩, Bitmap.setMultiple_of_le hle, hsome]
  simp only [orPanic, Except.bind, Bool.not_true, Bool.false_eq_true, if_false]
  rw [bitmapWrite_eq h']
  unfold Fs.saveMap Fs.savedDevice
  simp only [hf]
  rfl

/-! ## inode を作る -/

def Block.zeroed (device : Block) (start n : Nat) : Block where
  size := device.size
  data s o := if (start ≤ s ∧ s < start + n) ∧ o < blockSectorSize then 0 else device.data s o

theorem zeroSectors_eq : ∀ (n : Nat) {start : Nat} {device : Block}, start + n ≤ device.size →
    zeroSectors start n device = .ok (device.zeroed start n)
  | 0, start, device, _ => by
    rw [zeroSectors]
    congr 1
    refine Block.ext rfl (funext fun s => funext fun o => ?_)
    show device.data s o =
      if (start ≤ s ∧ s < start + 0) ∧ o < blockSectorSize then 0 else device.data s o
    rw [if_neg (by omega)]
  | n + 1, start, device, h => by
    rw [zeroSectors, Block.write_of_lt (by omega)]
    simp only [Except.bind]
    rw [zeroSectors_eq n (by rw [Block.put_size]; omega)]
    unfold Block.zeroed Block.put
    congr 2
    funext s o
    dsimp only
    by_cases ho : o < blockSectorSize
    · by_cases hs : s = start
      · rw [if_neg (by omega), if_pos ⟨hs, ho⟩, if_pos (by omega)]
      · rw [if_neg (c := s = start ∧ o < blockSectorSize) fun h => hs h.1]
        congr 1
        simp only [eq_iff_iff]
        omega
    · rw [if_neg fun h => ho h.2, if_neg fun h => ho h.2, if_neg fun h => ho h.2]

theorem zeroed_data_of_not_mem {device : Block} {start n x : Nat}
    (h : ¬ (start ≤ x ∧ x < start + n)) : (device.zeroed start n).data x = device.data x := by
  funext o
  exact if_neg fun hc => h hc.1

/-- inode を作った後の状態。data の sector は `start` からである。 -/
def Fs.withInode (fs : Fs) (sector start : Nat) (length : Int) : Fs :=
  let fs₁ := fs.saveMap (fs.freeMap.fill start (bytesToSectors length) true)
  { fs₁ with
    device := (fs₁.device.put sector (InodeDisk.toSector ⟨start, length.toNat⟩)).zeroed start
      (bytesToSectors length) }

@[simp] theorem savedDevice_size (fs : Fs) : fs.savedDevice.size = fs.device.size := by
  unfold Fs.savedDevice
  split <;> rfl

@[simp] theorem saveMap_size (fs : Fs) (m : Bitmap) : (fs.saveMap m).device.size = fs.device.size :=
  savedDevice_size _

theorem inodeCreate_eq (h : ∀ f, fs.freeMapFile = some f → MapOk fs f)
    (hcnt : fs.freeMap.bitCnt = fs.device.size) {sector : Nat} (hs : sector < fs.device.size)
    {length : Int} (hlen : 0 ≤ length) :
    inodeCreate sector length fs =
      .ok (match fs.freeMap.scan 0 (bytesToSectors length) false with
        | none => (false, fs)
        | some start => (true, fs.withInode sector start length)) := by
  unfold inodeCreate
  rw [if_neg (by omega)]
  simp only []
  rw [freeMapAllocate_eq h]
  cases hscan : fs.freeMap.scan 0 (bytesToSectors length) false with
  | none => rfl
  | some start =>
    obtain ⟨-, hle, -⟩ := Bitmap.scan_eq_some hscan
    simp only [Except.bind]
    rw [Block.write_of_lt (by rw [saveMap_size]; exact hs)]
    simp only []
    rw [zeroSectors_eq _ (by rw [Block.put_size, saveMap_size]; omega)]
    rfl

end Pintos
