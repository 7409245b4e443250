import Pintos.Filesys.Directory
import Pintos.Filesys.Fsutil
import Pintos.Properties.Ustar

/-!
# archive の往復

`fsutil_append` で足した file は、`fsutil_extract` で同じ順に取り出される。

書く側と読む側は、装置の上の archive の形 `Archive` で出会う。
-/

namespace Pintos

variable {d d' : Block} {s n : Nat}

/-! ## sector -/

/-- 中身の先頭の sector。足りないところは 0 で埋まる。 -/
def headSector (content : List UInt8) : List UInt8 :=
  content.take (sectorChunk content.length) ++
    List.replicate (blockSectorSize - sectorChunk content.length) 0

theorem sectorChunk_le (size : Nat) :
    sectorChunk size ≤ blockSectorSize ∧ sectorChunk size ≤ size := by
  unfold sectorChunk
  split <;> omega

theorem length_headSector (content : List UInt8) :
    (headSector content).length = blockSectorSize := by
  have h := sectorChunk_le content.length
  simp only [headSector, List.length_append, List.length_take, List.length_replicate]
  omega

theorem take_headSector (content : List UInt8) :
    (headSector content).take (sectorChunk content.length)
      = content.take (sectorChunk content.length) := by
  have h := sectorChunk_le content.length
  rw [headSector, List.take_append_of_le_length (by rw [List.length_take]; omega), List.take_take,
    Nat.min_self]

def SameBelow (d d' : Block) (s : Nat) : Prop := ∀ t, t < s → readSector d' t = readSector d t

/-- **sector に書くと、そこからは書いた byte が読め、ほかの sector は変わらない。** -/
theorem writeSector_ok (bytes : List UInt8) (hs : s < d.size)
    (hlen : bytes.length = blockSectorSize) :
    ∃ d', writeSector d s bytes = .ok d' ∧ d'.size = d.size ∧ readSector d' s = .ok bytes ∧
      ∀ t, t ≠ s → readSector d' t = readSector d t := by
  refine ⟨d.put s fun o => bytes.getD o 0, by rw [writeSector, Block.write_of_lt hs]; rfl, rfl, ?_,
    fun t ht => ?_⟩
  · rw [readSector, Block.read_of_lt (by exact hs)]
    refine congrArg Except.ok (List.ext_getElem (by simp [hlen]) fun i hi hi' => ?_)
    rw [List.getElem_map, List.getElem_range, Block.put_data_self (by simpa using hi),
      List.getD_eq_getElem _ _ hi']
  · simp only [readSector, Block.read, Block.put_size, Block.put_data_of_ne ht]

/-! ## archive の形 -/

/-- `s` から `s'` の手前まで、中身の sector が並ぶ。 -/
inductive DataAt (d : Block) : (s : Nat) → List UInt8 → (s' : Nat) → Prop
  | nil {s : Nat} : DataAt d s [] s
  | chunk {s s' : Nat} {content : List UInt8} : content ≠ [] →
      readSector d s = .ok (headSector content) →
      DataAt d (s + 1) (content.drop (sectorChunk content.length)) s' → DataAt d s content s'

/-- `s` から file が並び、`n` に終わりの印がある。 -/
inductive Archive (d : Block) : (s : Nat) → List ArchiveFile → (n : Nat) → Prop
  | nil {s : Nat} : readSector d s = .ok zeroSector → Archive d s [] s
  | file {s s' n : Nat} {file : ArchiveFile} {files : List ArchiveFile} {header : List UInt8} :
      ustarMakeHeader file.name.val .regular file.content.length = some header →
      readSector d s = .ok header → DataAt d (s + 1) file.content s' →
      Archive d s' files n → Archive d s (file :: files) n

theorem DataAt.le {content : List UInt8} {s' : Nat} (h : DataAt d s content s') : s ≤ s' := by
  induction h with
  | nil => exact Nat.le_refl _
  | chunk _ _ _ ih => omega

theorem DataAt.of_sameBelow {content : List UInt8} {s' : Nat} (h : DataAt d s content s')
    (hsame : SameBelow d d' s') : DataAt d' s content s' := by
  induction h with
  | nil => exact .nil
  | chunk hne hread hrest ih =>
    have hle := hrest.le
    exact .chunk hne ((hsame _ (by omega)).trans hread) (ih hsame)

/-! ## 書く側 -/

def dataSectors (size : Nat) : Nat := (size + (blockSectorSize - 1)) / blockSectorSize

def archiveSectors (files : List ArchiveFile) : Nat :=
  (files.map fun file => 1 + dataSectors file.content.length).sum

theorem dataSectors_pos {size : Nat} (h : 0 < size) :
    dataSectors size = dataSectors (size - sectorChunk size) + 1 := by
  unfold dataSectors sectorChunk blockSectorSize
  split <;> omega

/-- **中身を写す loop は、中身の sector を並べる。** -/
theorem appendData_ok (content : List UInt8) (hfit : s + dataSectors content.length ≤ d.size) :
    ∃ d', appendData d s content = .ok (d', s + dataSectors content.length) ∧ d'.size = d.size ∧
      SameBelow d d' s ∧ DataAt d' s content (s + dataSectors content.length) := by
  fun_induction appendData d s content with
  | case1 d s => exact ⟨d, rfl, rfl, fun _ _ => rfl, .nil⟩
  | case2 d s content h hge =>
    have hpos := dataSectors_pos (List.length_pos_iff.mpr h)
    omega
  | case3 d s content h chunkSize hlt buffer panic hwrite =>
    obtain ⟨d', hok, -⟩ := writeSector_ok (headSector content) (Nat.lt_of_not_le hlt)
      (length_headSector content)
    exact absurd (hwrite.symm.trans hok) (by simp)
  | case4 d s content h chunkSize hlt buffer d₁ hwrite ih =>
    have hpos : dataSectors content.length = dataSectors (content.length - chunkSize) + 1 :=
      dataSectors_pos (List.length_pos_iff.mpr h)
    obtain ⟨d', hok, hsize, hread, hother⟩ := writeSector_ok (headSector content)
      (Nat.lt_of_not_le hlt) (length_headSector content)
    obtain rfl : d₁ = d' := Except.ok.inj (hwrite.symm.trans hok)
    rw [List.length_drop] at ih
    obtain ⟨d₂, happ, hsize₂, hsame, hdata⟩ := ih (by omega)
    rw [show s + 1 + dataSectors (content.length - chunkSize) = s + dataSectors content.length by
      omega] at happ hdata
    refine ⟨d₂, happ, hsize₂.trans hsize, fun t ht => ?_, .chunk h ?_ hdata⟩
    · rw [hsame t (by omega), hother t (by omega)]
    · rw [hsame s (by omega), hread]

/-- **一つの file を足す。** `s` から file が並び、その後に終わりの印がある。 -/
theorem fsutilAppend_ok {file : ArchiveFile}
    (hname : (stripAntisocialPrefixes file.name.val).length ≤ 99)
    (hfit : s + (1 + dataSectors file.content.length) + 2 ≤ d.size) :
    ∃ d' header, fsutilAppend file d s
        = .ok (d', s + (1 + dataSectors file.content.length)) ∧
      ustarMakeHeader file.name.val .regular file.content.length = some header ∧
      d'.size = d.size ∧ SameBelow d d' s ∧ readSector d' s = .ok header ∧
      DataAt d' (s + 1) file.content (s + (1 + dataSectors file.content.length)) ∧
      readSector d' (s + (1 + dataSectors file.content.length)) = .ok zeroSector := by
  obtain ⟨header, hmake, hlen, -⟩ :=
    ustarParseHeader_ustarMakeHeader file.name.property hname file.length_lt
  generalize hend : s + (1 + dataSectors file.content.length) = e at *
  obtain ⟨d₁, hwrite₁, hsize₁, hread₁, hother₁⟩ :=
    writeSector_ok (d := d) (s := s) header (by omega) hlen
  obtain ⟨d₂, happ, hsize₂, hsame₂, hdata⟩ := appendData_ok (d := d₁) (s := s + 1) file.content
    (by omega)
  rw [show s + 1 + dataSectors file.content.length = e by omega] at happ hdata
  have hzero : zeroSector.length = blockSectorSize := List.length_replicate
  obtain ⟨d₃, hwrite₃, hsize₃, hread₃, hother₃⟩ :=
    writeSector_ok (d := d₂) (s := e) _ (by omega) hzero
  obtain ⟨d₄, hwrite₄, hsize₄, -, hother₄⟩ :=
    writeSector_ok (d := d₃) (s := e + 1) _ (by omega) hzero
  -- 終わりの印を書いても、その前の sector は変わらない
  have hbelow : SameBelow d₂ d₄ e := fun t ht => by
    rw [hother₄ t (by omega), hother₃ t (by omega)]
  refine ⟨d₄, header, ?_, hmake, by omega, fun t ht => ?_, ?_, hdata.of_sameBelow hbelow, ?_⟩
  · rw [fsutilAppend, hmake]
    show (writeSector d s header).bind _ = _
    rw [hwrite₁]
    show (appendData d₁ (s + 1) file.content).bind _ = _
    rw [happ]
    show (writeSector d₂ e zeroSector).bind _ = _
    rw [hwrite₃]
    show (writeSector d₃ (e + 1) zeroSector).bind _ = _
    rw [hwrite₄]
    rfl
  · rw [hbelow t (by omega), hsame₂ t (by omega), hother₁ t (by omega)]
  · rw [hbelow s (by omega), hsame₂ s (by omega), hread₁]
  · rw [hother₄ e (by omega), hread₃]

/-- **file の列を足すと、装置は archive の形になる。** -/
theorem fsutilAppends_ok (files : List ArchiveFile)
    (hname : ∀ file ∈ files, (stripAntisocialPrefixes file.name.val).length ≤ 99)
    (hfit : s + archiveSectors files + 2 ≤ d.size)
    (hempty : files = [] → readSector d s = .ok zeroSector) :
    ∃ d', fsutilAppends files d s = .ok (d', s + archiveSectors files) ∧ SameBelow d d' s ∧
      Archive d' s files (s + archiveSectors files) := by
  induction files generalizing d s with
  | nil => exact ⟨d, rfl, fun _ _ => rfl, .nil (hempty rfl)⟩
  | cons file files ih =>
    have hcons : archiveSectors (file :: files)
        = 1 + dataSectors file.content.length + archiveSectors files := by
      simp [archiveSectors]
    rw [hcons, ← Nat.add_assoc] at hfit ⊢
    obtain ⟨d₁, header, happ, hmake, hsize, hsame, hread, hdata, hzero⟩ :=
      fsutilAppend_ok (d := d) (s := s) (hname file List.mem_cons_self) (by omega)
    obtain ⟨d₂, happs, hsame₂, harchive⟩ :=
      ih (fun f hf => hname f (List.mem_cons_of_mem _ hf)) (hsize ▸ hfit) (fun _ => hzero)
    refine ⟨d₂, ?_, fun t ht => ?_, .file hmake ?_ (hdata.of_sameBelow hsame₂) harchive⟩
    · show (fsutilAppend file d s).bind _ = _
      rw [happ]
      exact happs
    · rw [hsame₂ t (by omega), hsame t ht]
    · rw [hsame₂ s (by omega), hread]

/-! ## 読む側 -/

/-- 中身を 512 byte ずつ file system に書く。archive を読まない。 -/
def putData (target : Target) (put : Extracted) (fileName : List UInt8)
    (content written : List UInt8) : Except UtilPanic (List UInt8) :=
  if content = [] then .ok written
  else
    let chunk := content.take (sectorChunk content.length)
    if !target.fileWrite put fileName written chunk then
      .error (.writeFailed fileName content.length)
    else
      putData target put fileName (content.drop (sectorChunk content.length)) (written ++ chunk)
termination_by content.length
decreasing_by
  have hpos := List.length_pos_iff.mpr ‹content ≠ []›
  have hchunk := sectorChunk_pos hpos
  rw [List.length_drop]
  omega

/-- file を順に file system に置く。`fsutil_extract` が archive から取り出すべきものである。 -/
def putAll (target : Target) : (files put : Extracted) → Except UtilPanic Extracted
  | [], put => .ok put
  | (fileName, content) :: files, put =>
    if !target.filesysCreate put fileName content.length then .error (.createFailed fileName)
    else if !target.filesysOpen put fileName content.length then .error (.openFailed fileName)
    else do
      let bytes ← putData target put fileName content []
      putAll target files (put ++ [(fileName, bytes)])

/-- どの file も受け取る file system。 -/
structure Target.Accepting (target : Target) : Prop where
  create : ∀ put fileName size, target.filesysCreate put fileName size = true
  opens : ∀ put fileName size, target.filesysOpen put fileName size = true
  write : ∀ put fileName written chunk, target.fileWrite put fileName written chunk = true

variable {target : Target} {put : Extracted} {fileName : List UInt8}

theorem putData_of_accepting (h : target.Accepting) (content written : List UInt8) :
    putData target put fileName content written = .ok (written ++ content) := by
  fun_induction putData target put fileName content written with
  | case1 written => rw [List.append_nil]
  | case2 content written hne chunk hfail => simp [h.write] at hfail
  | case3 content written hne chunk hok ih =>
    rw [ih, List.append_assoc, List.take_append_drop]

theorem putAll_of_accepting (h : target.Accepting) (files put : Extracted) :
    putAll target files put = .ok (put ++ files) := by
  induction files generalizing put with
  | nil => rw [putAll, List.append_nil]
  | cons file files ih =>
    obtain ⟨fileName, content⟩ := file
    simp only [putAll, h.create, h.opens, Bool.not_true, Bool.false_eq_true, if_false,
      putData_of_accepting h, List.nil_append]
    show putAll target files _ = _
    rw [ih, List.append_assoc, List.singleton_append]

/-- **並んだ sector から、中身がそのまま書かれる。** -/
theorem extractData_eq {content written : List UInt8} {s' : Nat} (h : DataAt d s content s') :
    extractData target put fileName d s content.length written
      = (putData target put fileName content written).map (·, s') := by
  induction h generalizing written with
  | nil =>
    rw [extractData, putData]
    rfl
  | @chunk s s' content hne hread hrest ih =>
    rw [extractData, if_pos (List.length_pos_iff.mpr hne), putData, if_neg hne]
    simp only [hread, take_headSector]
    split
    · rfl
    · rw [← List.length_drop]
      exact ih

theorem ustarParseHeader_zeroSector : ustarParseHeader zeroSector = .ok ⟨none, .eof, 0⟩ := by
  have hall : zeroSector.all (· == 0) = true := by
    rw [zeroSector, List.all_replicate]
    rfl
  unfold ustarParseHeader
  rw [if_pos hall]

/-- **archive の形の装置から、file の列が順に置かれ、終わりの印で止まる。** -/
theorem extractLoop_eq (target : Target) (put : Extracted) {files : List ArchiveFile}
    {fuel : Nat} (h : Archive d s files n)
    (hname : ∀ file ∈ files, (stripAntisocialPrefixes file.name.val).length ≤ 99)
    (hfuel : files.length < fuel) :
    extractLoop target d fuel s put
      = (putAll target (files.map fun file =>
          (stripAntisocialPrefixes file.name.val, file.content)) put).map (·, n + 1) := by
  induction h generalizing fuel put with
  | nil hread =>
    obtain ⟨fuel, rfl⟩ := Nat.exists_eq_succ_of_ne_zero (Nat.ne_of_gt hfuel)
    simp only [extractLoop, hread, bind, Except.bind, ustarParseHeader_zeroSector]
    rfl
  | @file s s' n file files header hmake hread hdata hrest ih =>
    obtain ⟨fuel, rfl⟩ := Nat.exists_eq_succ_of_ne_zero (Nat.ne_zero_of_lt hfuel)
    obtain ⟨header', hmake', -, hparse⟩ := ustarParseHeader_ustarMakeHeader file.name.property
      (hname file List.mem_cons_self) file.length_lt
    obtain rfl : header = header' := Option.some.inj (hmake.symm.trans hmake')
    simp only [extractLoop, hread, bind, Except.bind, hparse, Option.getD_some]
    rw [List.map_cons, putAll]
    split
    · rfl
    · split
      · rfl
      · rw [extractData_eq hdata]
        cases putData target put (stripAntisocialPrefixes file.name.val) file.content [] with
        | error panic => rfl
        | ok bytes =>
          exact ih _ (fun f hf => hname f (List.mem_cons_of_mem _ hf))
            (Nat.lt_of_succ_lt_succ hfuel)

/-! ## 往復 -/

/--
**archive の往復。**

装置に収まる file の列を足した後の装置で loop を回すと、接頭辞を除いた名前と元の中身が同じ順に
file system に置かれ、終わりの印で止まる。file system がどれも受け取るなら、取り出した列は元の
列である。

何も足さないときの装置は書かれていないので、先頭の sector が 0 であるとする。
-/
theorem archive_roundtrip (files : List ArchiveFile) (d : Block)
    (hname : ∀ file ∈ files, file.name.val.length ≤ nameMax)
    (hfit : archiveSectors files + 2 ≤ d.size)
    (hempty : files = [] → readSector d 0 = .ok zeroSector) :
    ∃ d' n, fsutilAppends files d 0 = .ok (d', n) ∧ Archive d' 0 files n ∧
      ∀ target fuel, files.length < fuel →
        extractLoop target d' fuel 0 []
            = (putAll target (files.map fun file =>
                (stripAntisocialPrefixes file.name.val, file.content)) []).map (·, n + 1) ∧
        (target.Accepting → extractLoop target d' fuel 0 []
            = .ok (files.map fun file =>
                (stripAntisocialPrefixes file.name.val, file.content), n + 1)) := by
  have hlen : ∀ file ∈ files, (stripAntisocialPrefixes file.name.val).length ≤ 99 := fun f hf =>
    length_stripAntisocialPrefixes (by decide) (Nat.le_trans (hname f hf) (by decide))
  obtain ⟨d', happ, -, harchive⟩ := fsutilAppends_ok (s := 0) files hlen (by omega) hempty
  refine ⟨d', _, happ, harchive, fun target fuel hfuel => ?_⟩
  have hloop := extractLoop_eq target [] harchive hlen hfuel
  refine ⟨hloop, fun haccept => ?_⟩
  rw [hloop, putAll_of_accepting haccept]
  rfl

/-- 空の file と 1 byte の file。 -/
theorem archive_roundtrip_two :
    let files : List ArchiveFile :=
      [⟨⟨[0x61], by decide⟩, [], by decide⟩, ⟨⟨[0x2f, 0x62], by decide⟩, [7], by decide⟩]
    ∃ d' n, fsutilAppends files ⟨5, fun _ _ => 0⟩ 0 = .ok (d', n) ∧ ∀ target : Target,
      target.Accepting → extractLoop target d' 3 0 []
        = .ok ([([0x61], []), ([0x62], [7])], n + 1) := by
  intro files
  obtain ⟨d', n, happ, -, h⟩ := archive_roundtrip files ⟨5, fun _ _ => 0⟩ (by decide) (by decide)
    (fun h => absurd h (List.cons_ne_nil _ _))
  have ha : stripAntisocialPrefixes [0x61] = [0x61] := by
    rw [stripAntisocialPrefixes, stripLoop_of_not (by decide)]
    rfl
  have hb : stripAntisocialPrefixes [0x2f, 0x62] = [0x62] := by
    rw [stripAntisocialPrefixes, stripLoop, dif_pos (by decide), stripLoop_of_not (by decide)]
    rfl
  refine ⟨d', n, happ, fun target haccept => ?_⟩
  rw [(h target 3 (by decide)).2 haccept]
  simp only [files, List.map_cons, List.map_nil, ha, hb]

end Pintos
