import Pintos.Properties.Filesys.Directory
import Pintos.Spec.NameMap

/-!
# directory と名前の写像

使われている entry を並べた列 `bindings` を、名前から sector への有限写像と見る。
`dir_add` は空いた entry を一つ埋め、`dir_remove` は一つ空けるので、`bindings` は
並びの入れ替えを除いて、写像に組を足したり除いたりしたものになる。
-/

namespace Pintos

open Infra Spec

/-! ## 番号の付いた枠 -/

section slots

variable {β : Type} {f g : Nat → Option β} {n k : Nat} {b : β}

theorem filterMap_range_perm (hk : k < n) (hf : f k = none) (hg : g k = some b)
    (hother : ∀ j < n, j ≠ k → g j = f j) :
    ((List.range n).filterMap g).Perm (b :: (List.range n).filterMap f) := by
  have hperm := List.perm_cons_erase (List.mem_range.mpr hk)
  refine (hperm.filterMap g).trans ?_
  rw [List.filterMap_cons_some hg]
  refine List.Perm.cons b ?_
  have hrest : ((List.range n).erase k).filterMap g = ((List.range n).erase k).filterMap f := by
    refine List.filterMap_congr fun j hj => ?_
    obtain ⟨hne, hj⟩ := List.nodup_range.mem_erase_iff.mp hj
    exact hother j (List.mem_range.mp hj) hne
  rw [hrest]
  refine ((hperm.filterMap f).trans ?_).symm
  rw [List.filterMap_cons_none hf]

theorem length_filterMap_lt (n : Nat) (f : Nat → Option β) :
    ((List.range n).filterMap f).length < n ↔ ∃ j < n, f j = none := by
  induction n with
  | zero => simp
  | succ n ih =>
    have hle : ((List.range n).filterMap f).length ≤ n :=
      (List.length_filterMap_le ..).trans_eq List.length_range
    rw [List.range_succ, List.filterMap_append, List.length_append]
    cases hf : f n with
    | none =>
      simp only [List.filterMap_cons_none hf, List.filterMap_nil, List.length_nil]
      exact iff_of_true (by omega) ⟨n, Nat.lt_succ_self n, hf⟩
    | some b =>
      simp only [List.filterMap_cons_some hf, List.filterMap_nil, List.length_singleton,
        Nat.add_lt_add_iff_right, ih]
      constructor
      · rintro ⟨j, hj, hn⟩
        exact ⟨j, Nat.lt_succ_of_lt hj, hn⟩
      · rintro ⟨j, hj, hn⟩
        refine ⟨j, Nat.lt_of_le_of_ne (Nat.le_of_lt_succ hj) ?_, hn⟩
        rintro rfl
        rw [hf] at hn
        cases hn

end slots

/-! ## 名前と sector の組 -/

namespace Fs

variable (fs : Fs)

/-- 使われている entry の、名前と sector。 -/
def binding (s k : Nat) : Option (List UInt8 × Nat) :=
  if (fs.entryAt s k).inUse then
    some (cstr (fs.entryAt s k).name, (fs.entryAt s k).inodeSector)
  else none

def bindings (s : Nat) : List (List UInt8 × Nat) :=
  (List.range (fs.slotsAt s)).filterMap (fs.binding s)

end Fs

def validName (name : List UInt8) : Bool := name ≠ [] ∧ name.length ≤ nameMax

/-- directory は写像 `m` を表す。 -/
structure Represents (fs : Fs) (s : Nat) (m : NameMap (List UInt8) Nat) : Prop where
  capacity : m.capacity = fs.slotsAt s
  perm : (fs.bindings s).Perm m.entries
  valid : ∀ name ∈ m.keys, validName name = true

variable {fs fs' : Fs} {s k : Nat} {dir : InodeId} {m : NameMap (List UInt8) Nat} {name : CString}
  {e : DirEntry} {p : List UInt8 × Nat}

theorem binding_eq_some : fs.binding s k = some p ↔
    (fs.entryAt s k).inUse = true ∧ cstr (fs.entryAt s k).name = p.1 ∧
      (fs.entryAt s k).inodeSector = p.2 := by
  unfold Fs.binding
  split
  · next h => simp [h, Prod.ext_iff]
  · next h => simp [h]

theorem binding_eq_none : fs.binding s k = none ↔ (fs.entryAt s k).inUse = false := by
  unfold Fs.binding
  split
  · next h => simp [h]
  · next h => simp [h]

theorem nameAt_iff : fs.nameAt s name k = true ↔
    fs.binding s k = some (name.val, (fs.entryAt s k).inodeSector) := by
  unfold Fs.nameAt
  rw [binding_eq_some, decide_eq_true_eq]
  exact and_congr_right fun _ => ⟨fun hn => ⟨hn.symm, rfl⟩, fun hn => hn.1.symm⟩

theorem putEntry_bindings (hlen : (fs.diskInode s).length < 2 ^ 31)
    (hself : s ∉ (fs.diskInode s).extent) (hk : k < fs.slotsAt s) (hu : (fs.entryAt s k).inUse = false)
    (he : e.Storable) (heu : e.inUse = true) :
    ((fs.putEntry s k e).bindings s).Perm ((cstr e.name, e.inodeSector) :: fs.bindings s) := by
  unfold Fs.bindings
  rw [putEntry_slotsAt hlen hself]
  refine filterMap_range_perm hk (binding_eq_none.mpr hu) ?_ fun j hj hne => ?_
  · unfold Fs.binding
    rw [putEntry_entryAt hlen hself he hk, if_pos rfl, if_pos heu]
  · unfold Fs.binding
    rw [putEntry_entryAt hlen hself he hj, if_neg hne]

theorem inUse_of_zero (hlen : (fs.diskInode s).length < 2 ^ 31)
    (hzero : ∀ x ∈ (fs.diskInode s).extent, ∀ o < blockSectorSize, fs.device.data x o = 0)
    (hk : k < fs.slotsAt s) : (fs.entryAt s k).inUse = false := by
  have hpos : dirEntrySize * k + 19 < (fs.diskInode s).length := by
    unfold Fs.slotsAt dirEntrySize at *
    omega
  have hbyte : (fs.diskInode s).byteAt fs.device (dirEntrySize * k + 19) = 0 :=
    hzero _ (byte_mem_extent hlen hpos) _ (Nat.mod_lt _ (by decide))
  unfold Fs.entryAt DirEntry.ofBytes
  rw [List.getD_eq_getElem?_getD]
  simp [dirEntrySize] at hbyte ⊢
  exact hbyte

theorem represents_empty (h : ∀ k < fs.slotsAt s, (fs.entryAt s k).inUse = false) :
    Represents fs s (.empty (fs.slotsAt s)) := by
  refine ⟨rfl, ?_, fun name hn => nomatch hn⟩
  have hnil : fs.bindings s = [] := by
    refine List.filterMap_eq_nil_iff.mpr fun k hk => ?_
    exact binding_eq_none.mpr (h k (List.mem_range.mp hk))
  rw [hnil]
  exact List.Perm.refl _

namespace Represents

variable (h : Represents fs s m)
include h

theorem congr (hlen : (fs.diskInode s).length < 2 ^ 31)
    (hdata : ∀ x ∈ fs.sectorsAt s, fs'.device.data x = fs.device.data x) : Represents fs' s m := by
  have hslots : fs'.slotsAt s = fs.slotsAt s := slotsAt_congr (hdata s (mem_sectorsAt_self fs s))
  have hbind : fs'.bindings s = fs.bindings s := by
    unfold Fs.bindings
    rw [hslots]
    refine List.filterMap_congr fun k hk => ?_
    unfold Fs.binding
    rw [entryAt_congr hlen hdata (List.mem_range.mp hk)]
  exact ⟨h.capacity.trans hslots.symm, hbind ▸ h.perm, h.valid⟩

theorem of_device (hdev : fs'.device = fs.device) : Represents fs' s m := by
  have hbind : fs'.bindings s = fs.bindings s := by
    unfold Fs.bindings Fs.slotsAt Fs.binding
    simp only [diskInode_of_device hdev, entryAt_of_device hdev]
  have hslots : fs'.slotsAt s = fs.slotsAt s := by
    unfold Fs.slotsAt
    rw [diskInode_of_device hdev]
  exact ⟨h.capacity.trans hslots.symm, hbind ▸ h.perm, h.valid⟩

theorem mem_entries : p ∈ m.entries ↔ ∃ k < fs.slotsAt s, fs.binding s k = some p :=
  h.perm.mem_iff.symm.trans (by simp [Fs.bindings])

theorem unique {j : Nat} (hj : j < fs.slotsAt s) (hk : k < fs.slotsAt s)
    (hju : (fs.entryAt s j).inUse = true) (hku : (fs.entryAt s k).inUse = true)
    (hname : cstr (fs.entryAt s j).name = cstr (fs.entryAt s k).name) : j = k := by
  -- 二つの枠が同じ名前なら、その名前は列に二度現れる
  by_contra hne
  have hnodup : ((fs.bindings s).map Prod.fst).Nodup := (h.perm.map Prod.fst).nodup_iff.mpr m.nodup
  have hsub : [j, k].Subperm (List.range (fs.slotsAt s)) := by
    refine List.subperm_of_subset (by simpa using hne) fun x hx => ?_
    rcases List.mem_cons.mp hx with rfl | hx
    · exact List.mem_range.mpr hj
    · rw [List.mem_singleton.mp hx]
      exact List.mem_range.mpr hk
  obtain ⟨l, hl, hsl⟩ := hsub
  have hcons : ([j, k].filterMap (fs.binding s)).map Prod.fst =
      [cstr (fs.entryAt s j).name, cstr (fs.entryAt s k).name] := by
    simp [Fs.binding, hju, hku]
  have hperm : ((l.filterMap (fs.binding s)).map Prod.fst).Nodup :=
    hnodup.sublist ((hsl.filterMap _).map Prod.fst)
  rw [((hl.filterMap _).map Prod.fst).nodup_iff, hcons, hname] at hperm
  simp at hperm

/-! ### 探す -/

theorem find_eq_some (hf : (List.range (fs.slotsAt s)).find? (fs.nameAt s name) = some k) :
    k < fs.slotsAt s ∧ (fs.entryAt s k).inUse = true ∧ cstr (fs.entryAt s k).name = name.val ∧
      m.lookup name.val = some (fs.entryAt s k).inodeSector := by
  have hk := List.mem_range.mp (List.mem_of_find?_eq_some hf)
  have hb := nameAt_iff.mp (List.find?_some hf)
  obtain ⟨hu, hn, -⟩ := binding_eq_some.mp hb
  exact ⟨hk, hu, hn, m.lookup_eq_some.mpr (h.mem_entries.mpr ⟨k, hk, hb⟩)⟩

theorem find_eq_none (hf : (List.range (fs.slotsAt s)).find? (fs.nameAt s name) = none) :
    m.lookup name.val = none := by
  rw [m.lookup_eq_none, m.mem_keys]
  rintro ⟨a, ha⟩
  obtain ⟨k, hk, hb⟩ := h.mem_entries.mp ha
  refine List.find?_eq_none.mp hf k (List.mem_range.mpr hk) (nameAt_iff.mpr ?_)
  rw [hb, (binding_eq_some.mp hb).2.2]

theorem find_isSome : ((List.range (fs.slotsAt s)).find? (fs.nameAt s name)).isSome = true ↔
    name.val ∈ m.keys := by
  cases hf : (List.range (fs.slotsAt s)).find? (fs.nameAt s name) with
  | none => simpa using m.lookup_eq_none.mp (h.find_eq_none hf)
  | some k =>
    obtain ⟨-, -, -, hl⟩ := h.find_eq_some hf
    simp only [Option.isSome_some, true_iff, m.mem_keys]
    exact ⟨_, m.lookup_eq_some.mp hl⟩

theorem freeSlot_lt : fs.freeSlot s 0 (fs.slotsAt s) < fs.slotsAt s ↔
    m.entries.length < m.capacity := by
  rw [freeSlot_lt_iff, h.capacity, ← h.perm.length_eq]
  unfold Fs.bindings
  rw [length_filterMap_lt]
  simp only [binding_eq_none]

/-! ### 足す -/

variable (hlen : (fs.diskInode s).length < 2 ^ 31) (hself : s ∉ (fs.diskInode s).extent)
include hlen hself

theorem putEntry_tail (he : e.Storable) (hk : fs.slotsAt s ≤ k) :
    Represents (fs.putEntry s k e) s m := by
  have hslots := putEntry_slotsAt hlen hself k e
  have hbind : (fs.putEntry s k e).bindings s = fs.bindings s := by
    unfold Fs.bindings
    rw [hslots]
    refine List.filterMap_congr fun j hj => ?_
    have hj := List.mem_range.mp hj
    unfold Fs.binding
    rw [putEntry_entryAt hlen hself he hj, if_neg (show ¬ j = k by omega)]
  exact ⟨h.capacity.trans hslots.symm, hbind ▸ h.perm, h.valid⟩

theorem clearEntry (hk : k < fs.slotsAt s) (hu : (fs.entryAt s k).inUse = true)
    (hname : cstr (fs.entryAt s k).name = name.val) :
    Represents (fs.putEntry s k { fs.entryAt s k with inUse := false }) s (m.remove name.val).2 := by
  have he := (storable_entryAt fs s k).cleared
  have hslots := putEntry_slotsAt hlen hself k { fs.entryAt s k with inUse := false }
  refine ⟨h.capacity.trans hslots.symm, ?_, ?_⟩
  · have hold : fs.binding s k = some (name.val, (fs.entryAt s k).inodeSector) :=
      binding_eq_some.mpr ⟨hu, hname, rfl⟩
    have hother : ∀ j < fs.slotsAt s, j ≠ k → fs.binding s j =
        (fs.putEntry s k { fs.entryAt s k with inUse := false }).binding s j := by
      intro j hj hne
      unfold Fs.binding
      rw [putEntry_entryAt hlen hself he hj, if_neg hne]
    have hnew : (fs.putEntry s k { fs.entryAt s k with inUse := false }).binding s k = none := by
      unfold Fs.binding
      rw [putEntry_entryAt hlen hself he hk, if_pos rfl, if_neg (by simp)]
    have hperm := filterMap_range_perm hk hnew hold hother
    rw [← hslots] at hperm
    have hall : m.entries.Perm ((name.val, (fs.entryAt s k).inodeSector) ::
        (fs.putEntry s k { fs.entryAt s k with inUse := false }).bindings s) := by
      refine h.perm.symm.trans ?_
      unfold Fs.bindings
      rw [← hslots]
      exact hperm
    -- 除いた組のほかに、同じ名前の組は無い
    have hnodup := (hall.map Prod.fst).nodup_iff.mp m.nodup
    rw [List.map_cons, List.nodup_cons] at hnodup
    have hkeep : ((fs.putEntry s k { fs.entryAt s k with inUse := false }).bindings s).filter
        (fun p => decide (p.1 ≠ name.val)) =
        (fs.putEntry s k { fs.entryAt s k with inUse := false }).bindings s := by
      refine List.filter_eq_self.mpr fun p hp => decide_eq_true fun hpn => hnodup.1 ?_
      exact List.mem_map.mpr ⟨p, hp, hpn⟩
    have hfilter := hall.filter fun p => decide (p.1 ≠ name.val)
    rw [List.filter_cons_of_neg (by simp), hkeep] at hfilter
    exact hfilter.symm
  · intro n hn
    refine h.valid n ?_
    obtain ⟨a, ha⟩ := (m.remove name.val).2.mem_keys.mp hn
    exact m.mem_keys.mpr ⟨a, List.mem_of_mem_filter ha⟩

end Represents

/-- **`dir_add` は、写像に組を足す。** -/
theorem IsDir.dirAdd_represents (hd : IsDir fs dir s) (h : Represents fs s m) (name : CString)
    {t : Nat} (ht : t < 2 ^ 32) :
    ∃ k e, e.Storable ∧ (dirAdd dir name t fs = .ok ((m.add validName name.val t).1, fs) ∧
        Represents fs s (m.add validName name.val t).2 ∨
      dirAdd dir name t fs = .ok ((m.add validName name.val t).1, fs.putEntry s k e) ∧
        Represents (fs.putEntry s k e) s (m.add validName name.val t).2) := by
  obtain ⟨e, he, hes, heu, hen, heq⟩ := hd.dirAdd_eq name ht
  refine ⟨fs.freeSlot s 0 (fs.slotsAt s), e, he, ?_⟩
  rw [heq]
  unfold NameMap.add
  by_cases hbad : name.val = [] ∨ name.val.length > nameMax ∨
      ((List.range (fs.slotsAt s)).find? (fs.nameAt s name)).isSome = true
  · left
    rw [if_pos hbad, dif_neg]
    · exact ⟨rfl, h⟩
    · rintro ⟨hvalid, hnew, -⟩
      simp only [validName, decide_eq_true_eq] at hvalid
      rw [h.find_isSome] at hbad
      rcases hbad with hb | hb | hb
      · exact hvalid.1 hb
      · exact absurd hvalid.2 (Nat.not_le.mpr hb)
      · exact hnew hb
  · right
    rw [if_neg hbad]
    simp only [not_or, h.find_isSome, Nat.not_lt] at hbad
    obtain ⟨hne, hle, hnew⟩ := hbad
    have hvalid : validName name.val = true := decide_eq_true ⟨hne, hle⟩
    by_cases hlt : fs.freeSlot s 0 (fs.slotsAt s) < fs.slotsAt s
    · have hcap := h.freeSlot_lt.mp hlt
      rw [dif_pos ⟨hvalid, hnew, hcap⟩, decide_eq_true hlt]
      refine ⟨rfl, h.capacity.trans (putEntry_slotsAt hd.length_lt hd.not_self _ e).symm, ?_, ?_⟩
      · refine (putEntry_bindings hd.length_lt hd.not_self hlt (inUse_freeSlot hlt) he heu).trans ?_
        rw [hen hle, hes]
        exact h.perm.cons _
      · intro n hn
        rcases List.mem_cons.mp hn with rfl | hn
        · exact hvalid
        · exact h.valid n hn
    · rw [dif_neg fun hc => hlt (h.freeSlot_lt.mpr hc.2.2), decide_eq_false hlt]
      exact ⟨rfl, h.putEntry_tail hd.length_lt hd.not_self he (Nat.not_lt.mp hlt)⟩

/-! ## 名前を並べる -/

/-- `fsutil_ls` の while。`dir_readdir` が失敗するまで名前を集める。 -/
def listNames (dir : InodeId) (fs : Fs) : (fuel pos : Nat) → Except FsPanic (List (List UInt8))
  | 0, _ => .ok []
  | fuel + 1, pos =>
    (dirReaddir dir pos fs).bind fun
      | (none, _) => .ok []
      | (some name, pos') => (listNames dir fs fuel pos').map (name :: ·)

namespace IsDir

variable (hd : IsDir fs dir s)
include hd

theorem readdirLoop_eq (n : Nat) : ∀ {fuel k : Nat}, k + n = fs.slotsAt s → n < fuel →
    readdirLoop dir fs fuel (dirEntrySize * k) =
      .ok (match (List.range' k n).find? fun j => (fs.entryAt s j).inUse with
        | none => (none, dirEntrySize * fs.slotsAt s)
        | some j => (some ((cstr (fs.entryAt s j).name).take nameMax), dirEntrySize * (j + 1))) := by
  induction n with
  | zero =>
    intro fuel k hk hf
    obtain ⟨fuel, rfl⟩ := Nat.exists_eq_succ_of_ne_zero (Nat.ne_of_gt hf)
    rw [readdirLoop, hd.readEntry_eq, if_neg (by omega), ← hk]
    rfl
  | succ n ih =>
    intro fuel k hk hf
    obtain ⟨fuel, rfl⟩ := Nat.exists_eq_succ_of_ne_zero (Nat.ne_of_gt (Nat.zero_lt_of_lt hf))
    rw [readdirLoop, hd.readEntry_eq, if_pos (by omega), List.range'_succ, List.find?_cons]
    simp only [Except.bind]
    cases hu : (fs.entryAt s k).inUse with
    | true => rfl
    | false =>
      rw [if_neg (by simp), ← Nat.mul_succ]
      exact ih (by omega) (by omega)

theorem dirReaddir_eq (hk : k ≤ fs.slotsAt s) : dirReaddir dir (dirEntrySize * k) fs =
    .ok (match (List.range' k (fs.slotsAt s - k)).find? fun j => (fs.entryAt s j).inUse with
      | none => (none, dirEntrySize * fs.slotsAt s)
      | some j => (some ((cstr (fs.entryAt s j).name).take nameMax), dirEntrySize * (j + 1))) := by
  have := hd.slots_lt_fuel
  exact hd.readdirLoop_eq _ (by omega) (by omega)

theorem listNames_eq (n : Nat) : ∀ fuel k : Nat, k + n = fs.slotsAt s → n < fuel →
    listNames dir fs fuel (dirEntrySize * k) =
      .ok (((List.range' k n).filterMap (fs.binding s)).map fun p => p.1.take nameMax) := by
  induction n with
  | zero =>
    intro fuel k hk hf
    obtain ⟨fuel, rfl⟩ := Nat.exists_eq_succ_of_ne_zero (Nat.ne_of_gt hf)
    rw [listNames, hd.dirReaddir_eq (by omega), show fs.slotsAt s - k = 0 by omega]
    rfl
  | succ n ih =>
    intro fuel k hk hf
    obtain ⟨fuel, rfl⟩ := Nat.exists_eq_succ_of_ne_zero (Nat.ne_of_gt (Nat.zero_lt_of_lt hf))
    have hrange : List.range' k (fs.slotsAt s - k) = k :: List.range' (k + 1) n := by
      rw [show fs.slotsAt s - k = n + 1 by omega, List.range'_succ]
    rw [listNames, hd.dirReaddir_eq (by omega), hrange, List.find?_cons, List.range'_succ]
    cases hu : (fs.entryAt s k).inUse with
    | true =>
      have hb : fs.binding s k = some (cstr (fs.entryAt s k).name, (fs.entryAt s k).inodeSector) :=
        binding_eq_some.mpr ⟨hu, rfl, rfl⟩
      simp only [Except.bind, List.filterMap_cons_some hb, List.map_cons]
      rw [ih fuel (k + 1) (by omega) (by omega)]
      rfl
    | false =>
      -- 空いた entry は飛ばすので、次の entry から読むのと同じである
      rw [List.filterMap_cons_none (binding_eq_none.mpr hu),
        ← ih (fuel + 1) (k + 1) (by omega) (by omega), listNames,
        hd.dirReaddir_eq (by omega), show fs.slotsAt s - (k + 1) = n by omega]

/-- **`dir_readdir` を繰り返すと、写像の名前がちょうど一度ずつ得られる。** -/
theorem listNames_represents (h : Represents fs s m) :
    ∃ names, listNames dir fs (fs.slotsAt s + 1) 0 = .ok names ∧ names.Perm m.keys := by
  have heq := hd.listNames_eq (fs.slotsAt s) (fs.slotsAt s + 1) 0 (Nat.zero_add _) (Nat.lt_succ_self _)
  rw [Nat.mul_zero] at heq
  refine ⟨_, heq, ?_⟩
  rw [← List.range_eq_range']
  have hkeys : ((fs.bindings s).map fun p => p.1.take nameMax) = (fs.bindings s).map Prod.fst := by
    refine List.map_congr_left fun p hp => List.take_of_length_le ?_
    have hvalid := h.valid p.1 (m.mem_keys.mpr ⟨p.2, h.perm.mem_iff.mp hp⟩)
    simp only [validName, decide_eq_true_eq] at hvalid
    exact hvalid.2
  exact hkeys ▸ h.perm.map Prod.fst

end IsDir

end Pintos
