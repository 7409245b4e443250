import Pintos.Userprog.Load
import Pintos.Properties.Filesys.Contents

/-!
# segment の読み込み

`validate_segment` の検査は、32 bit の桁あふれを間接にしか見ない。通った header では、
`page_offset + p_memsz` は `p_vaddr + p_memsz` を越えないので、page の計算はどれも
桁あふれしない（`Accepted`）。

while の一周は page を一つ写像する。残りの page 数についての帰納法で、写像した番地、
page の中身、成功する条件をまとめて言う（`loadPages_spec`）。
-/

namespace Pintos.Loader

open Infra Function

/-! ## header の計算 -/

theorem toNat_pgSize : (4096 : Word).toNat = 4096 := rfl

theorem toNat_and_pgMask (x : Word) : (x &&& pgMask).toNat = x.toNat % 4096 := by
  rw [BitVec.toNat_and]
  exact Nat.and_two_pow_sub_one_eq_mod x.toNat 12

theorem and_not_add_and (x m : Word) : (x &&& ~~~m) + (x &&& m) = x := by
  have hdisj : (x &&& ~~~m) &&& (x &&& m) = 0 := by
    ext i hi
    cases hm : m[i] <;> simp [hm]
  rw [BitVec.add_eq_or_of_and_eq_zero _ _ hdisj]
  ext i hi
  cases hm : m[i] <;> simp [hm]

theorem toNat_and_not_pgMask (x : Word) :
    (x &&& ~~~pgMask).toNat = x.toNat - x.toNat % 4096 := by
  have hadd := congrArg BitVec.toNat (and_not_add_and x pgMask)
  have hle : (x &&& ~~~pgMask).toNat ≤ x.toNat := by
    rw [BitVec.toNat_and]
    exact Nat.and_le_left
  rw [BitVec.toNat_add, toNat_and_pgMask] at hadd
  have hx := x.isLt
  omega

/-- 検査を通った header。 -/
structure Accepted (phdr : Phdr) (fileLength : Nat) : Prop where
  samePageOffset : phdr.pOffset.toNat % 4096 = phdr.pVaddr.toNat % 4096
  offset : phdr.pOffset.toNat ≤ fileLength
  filesz : phdr.pFilesz.toNat ≤ phdr.pMemsz.toNat
  memsz : 0 < phdr.pMemsz.toNat
  stop : phdr.pVaddr.toNat + phdr.pMemsz.toNat < physBase
  start : pgSize ≤ phdr.pVaddr.toNat

theorem accepted_of_validateSegment {phdr : Phdr} {fileLength : Nat} (hlen : fileLength < 2 ^ 31)
    (h : validateSegment phdr fileLength = true) : Accepted phdr fileLength := by
  simp only [validateSegment, Bool.if_false_left, Bool.and_eq_true, Bool.not_eq_true',
    decide_eq_false_iff_not, Bool.if_true_right, Bool.or_false, isUserVaddr, ne_eq,
    Decidable.not_not] at h
  obtain ⟨hpage, hoffset, hfilesz, hmemsz, hstart, hstop, hwrap, hfirst⟩ := h
  have hmask := congrArg BitVec.toNat hpage
  rw [toNat_and_pgMask, toNat_and_pgMask] at hmask
  have hphys : physBase < 2 ^ 32 := by decide
  refine ⟨hmask, ?_, ?_, ?_, ?_, ?_⟩
  · have := BitVec.le_def.mp (BitVec.not_lt.mp hoffset)
    rw [BitVec.toNat_ofNat] at this
    omega
  · exact BitVec.le_def.mp (BitVec.not_lt.mp hfilesz)
  · bv_omega
  · bv_omega
  · simp only [pgSize]
    bv_omega

def Phdr.pageCount (phdr : Phdr) : Nat :=
  ((phdr.pVaddr &&& pgMask).toNat + phdr.pMemsz.toNat + (pgSize - 1)) / pgSize

/-- `read_bytes`、`zero_bytes`、`upage` の計算のどれも桁あふれしない。 -/
structure NoWrap (phdr : Phdr) : Prop where
  readBytes : ((phdr.pVaddr &&& pgMask) + phdr.pFilesz).toNat
    = (phdr.pVaddr &&& pgMask).toNat + phdr.pFilesz.toNat
  memBytes : ((phdr.pVaddr &&& pgMask) + phdr.pMemsz).toNat
    = (phdr.pVaddr &&& pgMask).toNat + phdr.pMemsz.toNat
  rounding : ((phdr.pVaddr &&& pgMask) + phdr.pMemsz + 4096).toNat
    = ((phdr.pVaddr &&& pgMask) + phdr.pMemsz).toNat + 4096
  zeroBytes : phdr.segment.readBytes ≤ roundUp ((phdr.pVaddr &&& pgMask) + phdr.pMemsz) 4096
  total : (phdr.segment.readBytes + phdr.segment.zeroBytes).toNat
    = phdr.segment.readBytes.toNat + phdr.segment.zeroBytes.toNat
  upage : ∀ k < phdr.pageCount, (phdr.segment.upage + BitVec.ofNat 32 (4096 * k) + 4096).toNat
    = phdr.segment.upage.toNat + 4096 * (k + 1)

section

variable {phdr : Phdr} {fileLength : Nat} (h : Accepted phdr fileLength)

include h

theorem Accepted.toNat_readBytes :
    phdr.segment.readBytes.toNat = phdr.pVaddr.toNat % 4096 + phdr.pFilesz.toNat := by
  have hstop := h.stop
  have hfilesz := h.filesz
  simp only [physBase] at hstop
  simp only [Phdr.segment, BitVec.toNat_add, toNat_and_pgMask]
  omega

theorem Accepted.toNat_roundUp :
    (roundUp ((phdr.pVaddr &&& pgMask) + phdr.pMemsz) 4096).toNat = 4096 * phdr.pageCount := by
  have hstop := h.stop
  have hmask := toNat_and_pgMask phdr.pVaddr
  simp only [physBase] at hstop
  simp only [roundUp, Phdr.pageCount, pgSize, BitVec.toNat_mul, BitVec.toNat_udiv,
    BitVec.toNat_sub, BitVec.toNat_add, toNat_pgSize, show (1 : Word).toNat = 1 from rfl]
  omega

omit h in
theorem Phdr.toNat_upage :
    phdr.segment.upage.toNat = phdr.pVaddr.toNat - phdr.pVaddr.toNat % 4096 :=
  toNat_and_not_pgMask _

theorem Accepted.upage_le :
    phdr.segment.upage.toNat + 4096 * phdr.pageCount ≤ physBase := by
  have hstop := h.stop
  have hmask := toNat_and_pgMask phdr.pVaddr
  simp only [physBase] at hstop ⊢
  simp only [Phdr.toNat_upage, Phdr.pageCount, pgSize]
  omega

theorem Accepted.readBytes_le :
    phdr.segment.readBytes ≤ roundUp ((phdr.pVaddr &&& pgMask) + phdr.pMemsz) 4096 := by
  have hfilesz := h.filesz
  have hmask := toNat_and_pgMask phdr.pVaddr
  rw [BitVec.le_def, h.toNat_roundUp, h.toNat_readBytes]
  simp only [Phdr.pageCount, pgSize]
  omega

theorem Accepted.total :
    phdr.segment.readBytes.toNat + phdr.segment.zeroBytes.toNat = 4096 * phdr.pageCount := by
  have hle := h.readBytes_le
  have hsub : phdr.segment.zeroBytes.toNat
      = (roundUp ((phdr.pVaddr &&& pgMask) + phdr.pMemsz) 4096).toNat
        - phdr.segment.readBytes.toNat := BitVec.toNat_sub_of_le hle
  rw [BitVec.le_def, h.toNat_roundUp] at hle
  rw [hsub, h.toNat_roundUp]
  omega

theorem Accepted.noWrap : NoWrap phdr := by
  have hstop := h.stop
  have hfilesz := h.filesz
  have htop := h.upage_le
  have htotal := h.total
  have hmask := toNat_and_pgMask phdr.pVaddr
  simp only [physBase] at hstop htop
  have hmem : ((phdr.pVaddr &&& pgMask) + phdr.pMemsz).toNat
      = (phdr.pVaddr &&& pgMask).toNat + phdr.pMemsz.toNat := by
    rw [BitVec.toNat_add]
    omega
  refine ⟨?_, hmem, ?_, h.readBytes_le, ?_, fun k hk => ?_⟩
  · rw [BitVec.toNat_add]
    omega
  · rw [BitVec.toNat_add, hmem, toNat_pgSize]
    omega
  · rw [BitVec.toNat_add]
    omega
  · simp only [BitVec.toNat_add, BitVec.toNat_ofNat, toNat_pgSize]
    omega

theorem Accepted.ofs (hlen : fileLength < 2 ^ 31) :
    phdr.segment.ofs = (phdr.pOffset.toNat - phdr.pOffset.toNat % 4096 : Nat) := by
  have hoffset := h.offset
  have hpage := toNat_and_not_pgMask phdr.pOffset
  show (phdr.pOffset &&& ~~~pgMask).toInt = _
  rw [BitVec.toInt_eq_toNat_of_lt (by omega), hpage]

end

/-! ## while の一周 -/

section

variable {supply : Supply} {f : FileId} {data : InodeDisk}

/-- `upage` から `n` 枚の page を割り当てて写像できる。 -/
def Loadable (supply : Supply) (space : Nat → Option Page) (upage : Word) (n : Nat) : Prop :=
  ∀ k < n, supply.palloc (upage + BitVec.ofNat 32 (4096 * k)) = true ∧
    space (pgNo upage.toNat + k) = none ∧
    supply.setPage (upage + BitVec.ofNat 32 (4096 * k)) = true

/-- `n` 枚の page を読む while が、`st` から始めて残すもの。 -/
structure PagesLoaded (supply : Supply) (data : InodeDisk) (n : Nat) (readBytes upage : Word)
    (pos : Nat) (st : LoadState) (ok : Bool) (st' : LoadState) : Prop where
  installed : ∃ m ≤ n, (ok = true → m = n) ∧
    st'.installed
      = st.installed ++ (List.range m).map fun k => upage + BitVec.ofNat 32 (4096 * k)
  ok_iff : ok = true ↔
    readBytes.toNat ≤ data.length - pos ∧ Loadable supply st.space upage n
  bytes : ok = true → ∀ i < 4096 * n, userByte st'.space (upage.toNat + i) =
    some (if i < readBytes.toNat then data.byteAt st.fs.device (pos + i) else 0)
  frame : ∀ p, p < pgNo upage.toNat ∨ pgNo upage.toNat + n ≤ p → st'.space p = st.space p

theorem getElem?_filled (g : Nat → UInt8) {r i : Nat} (hi : i < 4096) (hr : r ≤ 4096) :
    ((List.range r).map g ++ List.replicate (4096 - r) 0)[i]? = some (if i < r then g i else 0) := by
  by_cases hlt : i < r
  · rw [List.getElem?_append_left (by simpa using hlt), if_pos hlt]
    simp [hlt]
  · rw [List.getElem?_append_right (by simpa using hlt), if_neg hlt]
    exact List.getElem?_replicate_of_lt (by simp only [List.length_map, List.length_range]; omega)

theorem add_ofNat_succ (upage : Word) (k : Nat) :
    upage + 4096 + BitVec.ofNat 32 (4096 * k) = upage + BitVec.ofNat 32 (4096 * (k + 1)) := by
  rw [Nat.mul_succ, BitVec.ofNat_add, BitVec.add_comm (BitVec.ofNat 32 (4096 * k)),
    ← BitVec.add_assoc]
  rfl

theorem pgNo_add_pgSize (va : Nat) : pgNo (va + 4096) = pgNo va + 1 :=
  Nat.add_div_right va (by decide)

theorem loadable_succ {space : Nat → Option Page} {upage : Word} {n : Nat} (page : Page)
    (hnext : (upage + 4096).toNat = upage.toNat + 4096) :
    Loadable supply space upage (n + 1) ↔
      (supply.palloc upage = true ∧ space (pgNo upage.toNat) = none ∧
        supply.setPage upage = true) ∧
      Loadable supply (update space (pgNo upage.toNat) (some page)) (upage + 4096) n := by
  have hother : ∀ k, update space (pgNo upage.toNat) (some page)
      (pgNo (upage + 4096).toNat + k) = space (pgNo upage.toNat + (k + 1)) := by
    intro k
    rw [hnext, pgNo_add_pgSize, update_of_ne (by omega), Nat.add_assoc, Nat.add_comm 1]
  constructor
  · intro h
    refine ⟨by simpa using h 0 (Nat.succ_pos n), fun k hk => ?_⟩
    rw [add_ofNat_succ, hother]
    exact h (k + 1) (Nat.succ_lt_succ hk)
  · rintro ⟨hfirst, hrest⟩ k hk
    cases k with
    | zero => simpa using hfirst
    | succ k =>
      have hk := hrest k (Nat.lt_of_succ_lt_succ hk)
      rwa [add_ofNat_succ, hother] at hk

variable {n pos : Nat} {readBytes upage : Word} {st st' : LoadState} {ok : Bool}

theorem PagesLoaded.failed (hspace : st'.space = st.space) (hinst : st'.installed = st.installed)
    (hnot : ¬(readBytes.toNat ≤ data.length - pos ∧ Loadable supply st.space upage n)) :
    PagesLoaded supply data n readBytes upage pos st false st' where
  installed := ⟨0, Nat.zero_le _, by simp, by simp [hinst]⟩
  ok_iff := by simpa using hnot
  bytes := by simp
  frame _ _ := by rw [hspace]

@[simps] def LoadState.mapped (st : LoadState) (fs : Fs) (upage : Word) (page : Page) : LoadState :=
  ⟨fs, update st.space (pgNo upage.toNat) (some page), st.installed ++ [upage]⟩

theorem PagesLoaded.cons {r : Nat} {rest : Word} {fs : Fs} {page : Page}
    (h : PagesLoaded supply data n rest (upage + 4096) (pos + r) (st.mapped fs upage page) ok st')
    (hr : r = min readBytes.toNat 4096) (hrest : rest.toNat = readBytes.toNat - r)
    (halign : upage.toNat % 4096 = 0) (hnext : (upage + 4096).toNat = upage.toNat + 4096)
    (hread : r ≤ data.length - pos) (hpalloc : supply.palloc upage = true)
    (hnone : st.space (pgNo upage.toNat) = none) (hset : supply.setPage upage = true)
    (hpage : ∀ i < 4096, page.bytes[i]?
      = some (if i < r then data.byteAt st.fs.device (pos + i) else 0))
    (hdevice : fs.device = st.fs.device) :
    PagesLoaded supply data (n + 1) readBytes upage pos st ok st' where
  installed := by
    obtain ⟨m, hm, hok, heq⟩ := h.installed
    refine ⟨m + 1, by omega, fun h => by rw [hok h], ?_⟩
    rw [heq, List.range_succ_eq_map, List.map_cons, List.map_map]
    simp only [LoadState.mapped_installed, Function.comp_def, add_ofNat_succ, List.append_assoc]
    simp
  ok_iff := by
    rw [h.ok_iff, loadable_succ page hnext, hrest]
    constructor
    · rintro ⟨hlen, hload⟩
      exact ⟨by omega, ⟨hpalloc, hnone, hset⟩, hload⟩
    · rintro ⟨hlen, -, hload⟩
      exact ⟨by omega, hload⟩
  bytes hok i hi := by
    by_cases hfirst : i < 4096
    · -- 一枚目の page は、残りの page に触れられない。
      have hno : pgNo (upage.toNat + i) = pgNo upage.toNat := by simp only [pgNo, pgSize]; omega
      have hofs : pgOfs (upage.toNat + i) = i := by simp only [pgOfs, pgSize]; omega
      have hkeep := h.frame (pgNo upage.toNat) (.inl (by rw [hnext, pgNo_add_pgSize]; omega))
      rw [LoadState.mapped_space, update_self] at hkeep
      have hlt : i < r ↔ i < readBytes.toNat := by omega
      simp only [userByte, hno, hofs, hkeep, Option.bind_some, hpage i hfirst, hlt]
    · have hbyte := h.bytes hok (i - 4096) (by omega)
      rw [hnext, show upage.toNat + 4096 + (i - 4096) = upage.toNat + i by omega, hrest,
        LoadState.mapped_fs, hdevice] at hbyte
      rw [hbyte]
      by_cases hlt : i < readBytes.toNat
      · rw [if_pos (by omega), if_pos hlt, show pos + r + (i - 4096) = pos + i by omega]
      · rw [if_neg (by omega), if_neg hlt]
  frame p hp := by
    rw [h.frame p (by rw [hnext, pgNo_add_pgSize]; omega), LoadState.mapped_space,
      update_of_ne (by omega)]

theorem installPage_eq (fs : Fs) (page : Page) :
    installPage supply upage page { st with fs } =
      if st.space (pgNo upage.toNat) = none ∧ supply.setPage upage = true then
        some (st.mapped fs upage page)
      else none := by
  simp only [installPage, Bool.and_eq_true, Option.isNone_iff_eq_none]
  rfl

/-- **page を読む while。** 残りの page 数についての帰納法による。 -/
theorem loadPages_spec (supply : Supply) (writable : Bool) {fuel : Nat} {zeroBytes : Word}
    (hsum : readBytes.toNat + zeroBytes.toNat = 4096 * n)
    (halign : upage.toNat % 4096 = 0) (htop : upage.toNat + 4096 * n ≤ physBase)
    (hfile : FileAt st.fs f data pos) (hfuel : n < fuel) :
    ∃ ok st', loadPages supply f writable fuel readBytes zeroBytes upage st = .ok (ok, st') ∧
      PagesLoaded supply data n readBytes upage pos st ok st' := by
  induction n generalizing fuel readBytes zeroBytes upage st pos with
  | zero =>
    obtain ⟨fuel, rfl⟩ : ∃ m, fuel = m + 1 := ⟨fuel - 1, by omega⟩
    have hdone : ¬(readBytes > 0 ∨ zeroBytes > 0) := by bv_omega
    refine ⟨true, st, by rw [loadPages, if_neg hdone], ⟨0, Nat.le_refl _, fun _ => rfl, by simp⟩,
      ?_, fun _ i hi => absurd hi (by omega), fun _ _ => rfl⟩
    exact ⟨fun _ => ⟨by omega, fun k hk => absurd hk (by omega)⟩, fun _ => rfl⟩
  | succ n ih =>
    obtain ⟨fuel, rfl⟩ : ∃ m, fuel = m + 1 := ⟨fuel - 1, by omega⟩
    have hmore : readBytes > 0 ∨ zeroBytes > 0 := by bv_omega
    have hnext : (upage + 4096).toNat = upage.toNat + 4096 := by
      simp only [physBase] at htop
      bv_omega
    rw [loadPages, if_pos hmore]
    extract_lets pageReadBytes pageZeroBytes
    have hr : pageReadBytes.toNat = min readBytes.toNat 4096 := by
      simp only [pageReadBytes, BitVec.lt_def, toNat_pgSize]
      split
      · omega
      · rw [toNat_pgSize]; omega
    have hz : pageZeroBytes.toNat = 4096 - pageReadBytes.toNat := by
      simp only [pageZeroBytes]
      bv_omega
    have hfirst : Loadable supply st.space upage (n + 1) → supply.palloc upage = true ∧
        st.space (pgNo upage.toNat) = none ∧ supply.setPage upage = true := fun h => by
      simpa using h 0 (Nat.succ_pos n)
    by_cases hpalloc : supply.palloc upage = true
    · rw [if_neg (by simp [hpalloc]), hfile.read pageReadBytes.toNat rfl]
      simp only [List.length_map, List.length_range, installPage_eq]
      by_cases hshort : pageReadBytes.toNat ≤ data.length - pos
      · rw [Nat.min_eq_left hshort, if_neg (by simp)]
        by_cases hinst : st.space (pgNo upage.toNat) = none ∧ supply.setPage upage = true
        · rw [if_pos hinst]
          dsimp only
          generalize hpage : Page.mk _ writable = page
          have hsum' : (readBytes - pageReadBytes).toNat + (zeroBytes - pageZeroBytes).toNat
              = 4096 * n := by bv_omega
          have hrest : (readBytes - pageReadBytes).toNat
              = readBytes.toNat - pageReadBytes.toNat := by bv_omega
          have halign' : (upage + 4096).toNat % 4096 = 0 := by omega
          obtain ⟨ok, st', hrun, hloaded⟩ := ih hsum' halign' (by omega)
            (show FileAt (st.mapped (st.fs.advance f pageReadBytes.toNat) upage page).fs f data _
              from hfile.advance pageReadBytes.toNat) (Nat.lt_of_succ_lt_succ hfuel)
          refine ⟨ok, st', hrun, hloaded.cons hr hrest halign hnext hshort hpalloc hinst.1 hinst.2
            (fun i hi => ?_) rfl⟩
          rw [← hpage, hz]
          exact getElem?_filled _ hi (by omega)
        · rw [if_neg hinst]
          exact ⟨false, _, rfl, .failed rfl rfl fun h => hinst (hfirst h.2).2⟩
      · rw [if_pos (by omega)]
        exact ⟨false, _, rfl, .failed rfl rfl fun h => hshort (by omega)⟩
    · rw [if_pos (by simpa using hpalloc)]
      exact ⟨false, _, rfl, .failed rfl rfl fun h => hpalloc (hfirst h.2).1⟩

def seekTo (fs : Fs) (f : FileId) (p : Nat) : Fs :=
  fs.modifyFile f fun file => { file with pos := p }

theorem fileSeek_ofNat (fs : Fs) (f : FileId) (p : Nat) : fileSeek f p fs = .ok (seekTo fs f p) := rfl

theorem fileAt_seekTo {fs : Fs} (h : FileAt fs f data pos) (p : Nat) :
    FileAt (seekTo fs f p) f data p :=
  ⟨by simpa [seekTo, Fs.modifyFile] using h.inode, by simp [seekTo, Fs.modifyFile],
    h.fits⟩

/-- 検査を通った header では、`load_segment` の assertion はどれも成り立ち、while は終わる。 -/
theorem loadSegment_spec (supply : Supply) (space : Nat → Option Page) {phdr : Phdr} {fs : Fs}
    {fuel : Nat} (h : Accepted phdr data.length) (hlen : data.length < 2 ^ 31)
    (hfile : FileAt fs f data pos)
    (hfuel : phdr.pageCount < fuel) :
    ∃ ok st', loadSegment supply f phdr.segment fuel ⟨fs, space, []⟩ = .ok (ok, st') ∧
      PagesLoaded supply data phdr.pageCount phdr.segment.readBytes phdr.segment.upage
        (phdr.pOffset.toNat - phdr.pOffset.toNat % 4096) ⟨fs, space, []⟩ ok st' := by
  have htotal := h.total
  have hupage : phdr.segment.upage.toNat % 4096 = 0 := by rw [Phdr.toNat_upage]; omega
  have hbytes : (phdr.segment.readBytes + phdr.segment.zeroBytes) % 4096 = 0 := by
    have hsum := h.noWrap.total
    rw [BitVec.toNat_eq, BitVec.toNat_umod, toNat_pgSize, hsum, htotal]
    exact Nat.mul_mod_right ..
  have hofs := h.ofs hlen
  have halign : phdr.segment.ofs.tmod pgSize = 0 := by
    rw [hofs, ← Int.ofNat_tmod]
    simp only [pgSize]
    omega
  obtain ⟨ok, st', hrun, hloaded⟩ := loadPages_spec supply phdr.segment.writable htotal hupage
    h.upage_le (show FileAt (LoadState.mk (seekTo fs f (phdr.pOffset.toNat - phdr.pOffset.toNat % 4096))
      space []).fs f data _ from fileAt_seekTo hfile _) hfuel
  refine ⟨ok, st', ?_, hloaded.installed, hloaded.ok_iff, hloaded.bytes, hloaded.frame⟩
  rw [loadSegment, if_neg (by simpa using hbytes), if_neg (by simpa [pgOfs, pgSize] using hupage),
    if_neg (by simpa using halign), hofs, fileSeek_ofNat]
  exact hrun

end

/--
**検査を通った segment の読み込み。**

page の計算は桁あふれせず、`load_segment` の assertion は成り立ち、while は終わる。写像する
page は `[PGSIZE, PHYS_BASE)` にあり、成功すればその数は `⌈(page_offset + p_memsz) / PGSIZE⌉`
で、`p_vaddr` から `p_filesz` byte は file の `p_offset` からの byte、その後は最後の page の
終わりまで 0 である。成功するのは、file が足りて、どの page も割り当てて写像できたときである。
-/
theorem loadSegment_of_validateSegment (supply : Supply) (f : FileId) (fs : Fs)
    (space : Nat → Option Page) (phdr : Phdr) (fuel : Nat)
    (hfits : (fs.inode (fs.file f).inode).data.Fits fs.device)
    (hlen : fileLength f fs < 2 ^ 31) (hvalid : validateSegment phdr (fileLength f fs) = true)
    (hfuel : phdr.pageCount < fuel) :
    NoWrap phdr ∧
    ∃ ok st', loadSegment supply f phdr.segment fuel ⟨fs, space, []⟩ = .ok (ok, st') ∧
      (∀ upage ∈ st'.installed, pgSize ≤ upage.toNat ∧ upage.toNat < physBase) ∧
      (ok = true ↔ phdr.pOffset.toNat + phdr.pFilesz.toNat ≤ fileLength f fs ∧
        Loadable supply space phdr.segment.upage phdr.pageCount) ∧
      (ok = true → st'.installed.length = phdr.pageCount ∧
        (∀ i < phdr.pFilesz.toNat, userByte st'.space (phdr.pVaddr.toNat + i) =
          some ((fs.inode (fs.file f).inode).data.byteAt fs.device (phdr.pOffset.toNat + i))) ∧
        ∀ va, phdr.pVaddr.toNat + phdr.pFilesz.toNat ≤ va →
          va < phdr.segment.upage.toNat + pgSize * phdr.pageCount →
          userByte st'.space va = some 0) := by
  have haccept := accepted_of_validateSegment hlen hvalid
  have hread := haccept.toNat_readBytes
  have hupage : phdr.segment.upage.toNat = phdr.pVaddr.toNat - phdr.pVaddr.toNat % 4096 :=
    Phdr.toNat_upage
  have htop := haccept.upage_le
  have hstart := haccept.start
  have hpage := haccept.samePageOffset
  have hoffset := haccept.offset
  have htotal := haccept.total
  obtain ⟨ok, st', hrun, hloaded⟩ := loadSegment_spec supply space haccept hlen
    ⟨rfl, rfl, hfits⟩ hfuel
  refine ⟨haccept.noWrap, ok, st', hrun, ?_, ?_, fun hok => ⟨?_, ?_, ?_⟩⟩
  · intro upage hmem
    obtain ⟨m, hm, -, heq⟩ := hloaded.installed
    rw [heq, List.nil_append] at hmem
    obtain ⟨k, hk, rfl⟩ := List.mem_map.mp hmem
    have hlt := List.mem_range.mp hk
    simp only [pgSize, physBase] at hstart htop ⊢
    rw [BitVec.toNat_add, BitVec.toNat_ofNat]
    omega
  · rw [hloaded.ok_iff, hread]
    show _ ≤ fileLength f fs - _ ∧ _ ↔ _
    refine and_congr_left fun _ => ?_
    omega
  · obtain ⟨m, -, hm, heq⟩ := hloaded.installed
    rw [heq, hm hok]
    simp
  · intro i hi
    have hbyte := hloaded.bytes hok (phdr.pVaddr.toNat % 4096 + i) (by omega)
    rw [if_pos (by omega)] at hbyte
    rw [show phdr.pVaddr.toNat + i
      = phdr.segment.upage.toNat + (phdr.pVaddr.toNat % 4096 + i) by omega, hbyte]
    rw [show phdr.pOffset.toNat - phdr.pOffset.toNat % 4096 + (phdr.pVaddr.toNat % 4096 + i)
      = phdr.pOffset.toNat + i by omega]
  · intro va hle hlt
    simp only [pgSize] at hlt
    have hbyte := hloaded.bytes hok (va - phdr.segment.upage.toNat) (by omega)
    rw [if_neg (by omega), show phdr.segment.upage.toNat + (va - phdr.segment.upage.toNat) = va
      by omega] at hbyte
    exact hbyte

/-- 二枚の page にまたがる segment。 -/
theorem loadSegment_of_validateSegment_two :
    ∃ st', loadSegment ⟨fun _ => true, fun _ => true⟩ 0
        (Phdr.segment ⟨100, 0x08048064, 50, 5000, 6⟩) 3 ⟨oneFile, fun _ => none, []⟩
        = .ok (true, st') ∧
      st'.installed.length = 2 ∧ userByte st'.space 0x08048096 = some 0 := by
  obtain ⟨-, ok, st', hrun, -, hok, hloaded⟩ :=
    loadSegment_of_validateSegment ⟨fun _ => true, fun _ => true⟩ 0 oneFile (fun _ => none)
      ⟨100, 0x08048064, 50, 5000, 6⟩ 3
      (fun pos (hpos : pos < 700) => show 1 + pos / 512 < 4 by omega)
      (by decide) (by decide) (by decide)
  obtain rfl : ok = true := hok.mpr ⟨by decide, fun _ _ => ⟨rfl, rfl, rfl⟩⟩
  obtain ⟨hcount, -, hzero⟩ := hloaded rfl
  exact ⟨st', hrun, hcount, hzero _ (by decide) (by decide)⟩

end Pintos.Loader
