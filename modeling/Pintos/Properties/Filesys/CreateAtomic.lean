import Pintos.Properties.Filesys.Format

/-!
# 失敗した `filesys_create`

`filesys_create` は失敗すると、取った inode の sector を返す。
しかし data の sector は `inode_create` の中で取られており、`dir_add` が失敗しても返されない。
失敗の前後で free map が変わらないのは、data の sector が要らないか、取れなかった場合だけである。
-/

namespace Pintos

open Infra

variable {fs fs' : Fs} {length : Int}

/-- inode の sector と data の sector の両方が取れる。 -/
def roomFor (map : Bitmap) (length : Int) : Bool :=
  match map.scan 0 1 false with
  | none => false
  | some s => ((map.fill s 1 true).scan 0 (bytesToSectors length) false).isSome

theorem fill_fill_of_free {map : Bitmap} {s : Nat} (h : map.bits s = false) :
    (map.fill s 1 true).fill s 1 false = map := by
  obtain ⟨cnt, bits⟩ := map
  simp only [Bitmap.fill, Bitmap.mk.injEq, true_and]
  funext x
  split
  · next hx =>
    obtain rfl : x = s := by omega
    exact h.symm
  · rfl

theorem fill_zero (map : Bitmap) (start : Nat) (value : Bool) : map.fill start 0 value = map := by
  obtain ⟨cnt, bits⟩ := map
  simp only [Bitmap.fill, Bitmap.mk.injEq, true_and]
  funext x
  rw [if_neg (by omega)]

/-- 失敗した後も free map が元のままなのは、data の sector を取らなかったときである。 -/
theorem mapAfterFailure_eq_iff (map : Bitmap) (length : Int) :
    mapAfterFailure map length = map ↔ bytesToSectors length = 0 ∨ roomFor map length = false := by
  unfold mapAfterFailure roomFor mapLeft
  cases hs : map.scan 0 1 false with
  | none => simp
  | some s =>
    obtain ⟨-, -, hbits⟩ := Bitmap.scan_eq_some hs
    have hfree := hbits s (Nat.le_refl _) (Nat.lt_succ_self _)
    simp only []
    cases hd : (map.fill s 1 true).scan 0 (bytesToSectors length) false with
    | none => simp [fill_fill_of_free hfree]
    | some start =>
      obtain ⟨-, -, hrange⟩ := Bitmap.scan_eq_some hd
      simp only [Option.isSome_some, Bool.true_eq_false, or_false]
      constructor
      · -- 取った data の先頭の bit は、取る前は 0 で、返されずに 1 のまま残る
        intro he
        by_contra hcnt
        have hstart := hrange start (Nat.le_refl _) (by omega)
        have hbit := congrFun (congrArg Bitmap.bits he) start
        simp only [Bitmap.fill] at hstart hbit
        split at hstart
        · cases hstart
        · next hne =>
          rw [if_neg hne, if_pos (by omega), hstart] at hbit
          cases hbit
      · intro hcnt
        rw [hcnt, fill_zero, fill_fill_of_free hfree]

/--
**失敗した `filesys_create` が何も変えないのは、data の sector を取らなかった場合に限る。**

失敗の前後で root directory の sector は変わらない。
free map が変わらないのは、大きさから決まる data の sector が無いか、
inode の sector か data の sector が取れなかった場合であり、それ以外では data の sector が漏れる。
-/
theorem filesysCreate_false_iff (h : Reachable fileSystem fs) (name : CString)
    (hlen : 0 ≤ length) (hlt : length < 2 ^ 31)
    (he : filesysCreate name length fs = .ok (false, fs')) :
    (fs'.freeMap = fs.freeMap ∧
      ∀ x ∈ fs.sectorsAt rootDirSector, fs'.device.data x = fs.device.data x) ↔
    (bytesToSectors length = 0 ∨ roomFor fs.freeMap length = false) := by
  rcases (reachable_sound h).core.filesysCreate_cases name hlt with
    ⟨hneg, -⟩ | ⟨b, fs₁, he₁, -, -, -, hfail⟩
  · omega
  · obtain ⟨rfl, rfl⟩ := Prod.mk.inj (Except.ok.inj (he₁.symm.trans he))
    obtain ⟨hroot, hmap⟩ := hfail rfl
    rw [hmap, mapAfterFailure_eq_iff]
    exact and_iff_left hroot

/-- 大きさ 0 の file を同じ名前で二度作ると、二度目は失敗して何も変えない。 -/
theorem filesysCreate_false_iff_empty :
    ∃ fs fs', Reachable fileSystem fs ∧
      filesysCreate ⟨[97], by decide⟩ 0 fs = .ok (false, fs') ∧ fs'.freeMap = fs.freeMap ∧
      ∀ x ∈ fs.sectorsAt rootDirSector, fs'.device.data x = fs.device.data x := by
  obtain ⟨fs, hr, hp⟩ := exists_reachable_of_format fsStep 8 (by decide)
    [.filesysCreate ⟨[97], by decide⟩ 0]
    (p := fun fs => (filesysCreate ⟨[97], by decide⟩ 0 fs).toOption.any fun r => !r.1)
    (by decide +kernel)
  obtain ⟨⟨b, fs'⟩, he, hb⟩ := (Option.any_eq_true _ _).mp hp
  obtain rfl : b = false := by simpa using hb
  have he := toOption_eq_some.mp he
  exact ⟨fs, fs', hr, he,
    (filesysCreate_false_iff hr _ (by decide) (by decide) he).mpr (.inl (by decide))⟩

/-- 1 byte の file を同じ名前で二度作ると、二度目は失敗するが data の sector が使用中のまま残る。 -/
theorem exists_filesysCreate_leak :
    ∃ fs fs', Reachable fileSystem fs ∧
      filesysCreate ⟨[97], by decide⟩ 1 fs = .ok (false, fs') ∧
      fs.freeMap.bits 7 = false ∧ fs'.freeMap.bits 7 = true := by
  obtain ⟨fs, hr, hp⟩ := exists_reachable_of_format fsStep 8 (by decide)
    [.filesysCreate ⟨[97], by decide⟩ 1]
    (p := fun fs => (filesysCreate ⟨[97], by decide⟩ 1 fs).toOption.any fun r =>
      !r.1 && (!fs.freeMap.bits 7 && r.2.freeMap.bits 7)) (by decide +kernel)
  obtain ⟨⟨b, fs'⟩, he, hb⟩ := (Option.any_eq_true _ _).mp hp
  simp only [Bool.and_eq_true, Bool.not_eq_true'] at hb
  obtain ⟨rfl, hbits⟩ := hb
  exact ⟨fs, fs', hr, toOption_eq_some.mp he, hbits⟩

end Pintos
