import Mathlib.Algebra.BigOperators.Group.Finset.Basic
import Pintos.Devices.Partition
import Pintos.Infra.Except

/-!
# partition の scan

`read_partition_table` は、どの深さでも sector 0 の表を読む。拡張 partition の表は読まれず、
MBR の entry がその sector から数え直される。
-/

namespace Pintos

open Infra Relation

/-! ## あるべき scan -/

namespace Block

/-- `sector` の表の空でない entry。装置の外や、署名の無い sector には無い。 -/
def entries (b : Block) (sector : Nat) : List PartitionTableEntry :=
  let pt := PartitionTable.ofSector (b.data sector)
  if sector < b.size ∧ pt.signature = 0xaa55 then pt.partitions.filter (!·.isEmpty) else []

def extended (b : Block) (sector : Nat) : List PartitionTableEntry :=
  (b.entries sector).filter (·.isExtended)

/-- 拡張 entry を一つ辿る。表は sector と `primary_extended_sector` で表す。 -/
def Link (b : Block) (v w : Nat × Nat) : Prop := ∃ e ∈ b.extended v.1, w = e.next v.1 v.2

def Acyclic (b : Block) : Prop :=
  ∀ v, ReflTransGen b.Link (0, 0) v → ¬ TransGen b.Link v v

open Classical in
/-- MBR から鎖を辿って着く sector。 -/
noncomputable def tables (b : Block) : Finset Nat :=
  {s ∈ Finset.range (2 ^ 32) | ∃ p, ReflTransGen b.Link (0, 0) (s, p)}

end Block

/-- entry の並びのうち拡張でないものを、`sector` から数えた partition。 -/
def partitionsAt (es : List PartitionTableEntry) (sector : Nat) : List Partition :=
  (es.filter (!·.isExtended)).map (·.partition sector)

/-- 呼び出しは 1 から順に番号を持ち、辿った表の partition の一つずつに一度ずつである。 -/
def ListsPartitions (b : Block) (calls : List (Partition × Nat)) : Prop :=
  calls.map Prod.snd = List.range' 1 calls.length ∧
    (calls.map Prod.fst : Multiset Partition) = ∑ s ∈ b.tables, ↑(partitionsAt (b.entries s) s)

/-- memory が足りれば scan は終わり、鎖に輪が無ければ partition を正しく挙げる。 -/
def ScanCorrect (b : Block) : Prop :=
  ∃ k calls, (∀ n, k ≤ n → partitionScan n b = some calls) ∧
    (b.Acyclic → ListsPartitions b calls)

/-! ## 一段 -/

variable {b : Block} {n sector primary : Nat} {s s' : PartitionScan}

/-- 空でない entry の一つ。拡張 entry なら `read` に進む。 -/
def visit (read : Nat → Nat → PartitionScan → Option PartitionScan) (sector primary : Nat)
    (s : PartitionScan) (e : PartitionTableEntry) : Option PartitionScan :=
  if e.isExtended then read (e.next sector primary).1 (e.next sector primary).2 s
  else some (s.foundPartition (e.partition sector))

theorem readPartitionTable_past (h : b.size ≤ sector) :
    readPartitionTable b n sector primary s = some s := by
  cases n with
  | zero => exact if_pos h
  | succ n => exact if_pos h

theorem foldlM_filter_isEmpty {f : PartitionScan → PartitionTableEntry → Option PartitionScan} :
    ∀ (es : List PartitionTableEntry) (s : PartitionScan),
      es.foldlM (fun s e => if e.isEmpty then some s else f s e) s =
        (es.filter (!·.isEmpty)).foldlM f s
  | [], _ => rfl
  | e :: es, s => by
    rw [List.foldlM_cons, List.filter_cons]
    cases e.isEmpty with
    | true => exact foldlM_filter_isEmpty es s
    | false =>
      show (f s e).bind _ = (f s e).bind _
      exact congrArg _ (funext (foldlM_filter_isEmpty es))

/-- **装置の中のどの sector でも、MBR の entry が順に調べられる。** -/
theorem readPartitionTable_succ (h : sector < b.size) :
    readPartitionTable b (n + 1) sector primary s =
      (b.entries 0).foldlM (visit (readPartitionTable b n) sector primary) s := by
  have hpos : 0 < b.size := Nat.zero_lt_of_lt h
  rw [readPartitionTable, if_neg (Nat.not_le.mpr h), Block.read_of_lt hpos, Block.entries]
  show (if _ then some s else _) = _
  by_cases hsig : (PartitionTable.ofSector (b.data 0)).signature = 0xaa55
  · rw [if_neg (not_not_intro hsig), if_pos ⟨hpos, hsig⟩]
    exact foldlM_filter_isEmpty _ s
  · rw [if_pos hsig, if_neg fun hc => hsig hc.2]
    rfl

theorem foldlM_visit {read : Nat → Nat → PartitionScan → Option PartitionScan}
    {g : PartitionTableEntry → List Partition} :
    ∀ {es : List PartitionTableEntry} {s : PartitionScan},
      (∀ e ∈ es, ∀ s, visit read sector primary s e =
        some ((g e).foldl PartitionScan.foundPartition s)) →
      es.foldlM (visit read sector primary) s =
        some ((es.flatMap g).foldl PartitionScan.foundPartition s)
  | [], _, _ => rfl
  | e :: es, s, h => by
    rw [List.foldlM_cons, h e List.mem_cons_self, List.flatMap_cons, List.foldl_append]
    exact foldlM_visit fun e he => h e (List.mem_cons_of_mem _ he)

/-! ## 終わらない scan -/

theorem isSome_of_foldlM {α β : Type} {f : β → α → Option β} {a : α} :
    ∀ {l : List α} {s s' : β}, l.foldlM f s = some s' → a ∈ l → ∃ s₁ s₂, f s₁ a = some s₂
  | x :: l, s, s', h, ha => by
    rw [List.foldlM_cons] at h
    obtain ⟨s₁, hx, hl⟩ := Option.bind_eq_some_iff.mp h
    cases ha with
    | head => exact ⟨s, s₁, hx⟩
    | tail _ ha => exact isSome_of_foldlM hl ha

theorem readPartitionTable_next (h : readPartitionTable b n sector primary s = some s')
    (hlt : sector < b.size) {e : PartitionTableEntry} (he : e ∈ b.extended 0) :
    ∃ m s₁ s₂, n = m + 1 ∧
      readPartitionTable b m (e.next sector primary).1 (e.next sector primary).2 s₁ = some s₂ := by
  obtain ⟨hmem, hext⟩ := List.mem_filter.mp he
  cases n with
  | zero =>
    rw [readPartitionTable, if_neg (Nat.not_le.mpr hlt)] at h
    cases h
  | succ m =>
    rw [readPartitionTable_succ hlt] at h
    obtain ⟨s₁, s₂, hv⟩ := isSome_of_foldlM h hmem
    rw [visit, if_pos hext] at hv
    exact ⟨m, s₁, s₂, rfl, hv⟩

/-- **MBR の拡張 entry の offset の和が装置の中にあれば、scan は終わらない。** -/
theorem readPartitionTable_loops {x y : PartitionTableEntry} (hx : x ∈ b.extended 0)
    (hy : y ∈ b.extended 0) (hxlt : x.offset < b.size)
    (hlt : (y.offset + x.offset) % 2 ^ 32 < b.size) :
    ∀ {n sector primary s s'}, sector < b.size → (sector ≠ 0 → primary = x.offset) →
      readPartitionTable b n sector primary s ≠ some s'
  | n, sector, primary, s, s', hs, hp, h => by
    -- sector 0 からは `x` の表へ、他の表からは和の sector へ進み、どちらも装置の中である
    by_cases h0 : sector = 0
    · obtain ⟨m, s₁, s₂, rfl, hm⟩ := readPartitionTable_next h hs hx
      rw [PartitionTableEntry.next, if_pos h0] at hm
      exact readPartitionTable_loops hx hy hxlt hlt hxlt (fun _ => rfl) hm
    · obtain ⟨m, s₁, s₂, rfl, hm⟩ := readPartitionTable_next h hs hy
      rw [PartitionTableEntry.next, if_neg h0, hp h0] at hm
      exact readPartitionTable_loops hx hy hxlt hlt hlt (fun _ => rfl) hm
termination_by n => n

/-! ## 終わる scan -/

/-- MBR の拡張 entry の offset の和が、どれも装置の外にある。 -/
def SumsPastEnd (b : Block) : Prop :=
  ∀ x ∈ b.extended 0, ∀ y ∈ b.extended 0, x.offset < b.size →
    b.size ≤ (y.offset + x.offset) % 2 ^ 32

/-- MBR の拡張 entry から数えた、MBR の partition。 -/
def repeated (b : Block) (x : PartitionTableEntry) : List Partition :=
  if x.offset < b.size then partitionsAt (b.entries 0) x.offset else []

theorem flatMap_partitionsAt (sector : Nat) : ∀ es : List PartitionTableEntry,
    es.flatMap (fun e => if e.isExtended then [] else [e.partition sector]) =
      partitionsAt es sector
  | [] => rfl
  | e :: es => by
    rw [List.flatMap_cons, flatMap_partitionsAt sector es, partitionsAt, partitionsAt,
      List.filter_cons]
    cases e.isExtended <;> rfl

/-- 拡張 entry の表では、MBR の partition が数え直され、その先は装置の外になる。 -/
theorem readPartitionTable_extended (h : SumsPastEnd b) {x : PartitionTableEntry}
    (hx : x ∈ b.extended 0) :
    readPartitionTable b (n + 1) x.offset x.offset s =
      some ((repeated b x).foldl PartitionScan.foundPartition s) := by
  by_cases hlt : x.offset < b.size
  · have h0 : x.offset ≠ 0 := fun h0 => by
      have hsum := h x hx x hx hlt
      rw [h0] at hsum hlt
      exact absurd hlt (Nat.not_lt.mpr hsum)
    rw [readPartitionTable_succ hlt, repeated, if_pos hlt, ← flatMap_partitionsAt]
    refine foldlM_visit fun e he s => ?_
    cases hext : e.isExtended with
    | false => rw [visit, hext]; rfl
    | true =>
      have hpast := h x hx e (List.mem_filter.mpr ⟨he, hext⟩) hlt
      rw [visit, hext, if_pos rfl, PartitionTableEntry.next, if_neg h0]
      exact readPartitionTable_past hpast
  · rw [readPartitionTable_past (Nat.not_lt.mp hlt), repeated, if_neg hlt]
    rfl

def scanned (b : Block) : List Partition :=
  (b.entries 0).flatMap fun e => if e.isExtended then repeated b e else [e.partition 0]

theorem foldl_foundPartition : ∀ (ps : List Partition) (s : PartitionScan),
    (ps.foldl PartitionScan.foundPartition s).found = s.found ++ ps.zipIdx (s.partNr + 1)
  | [], s => (List.append_nil _).symm
  | p :: ps, s => by
    rw [List.foldl_cons, foldl_foundPartition ps, PartitionScan.foundPartition,
      List.zipIdx_cons, List.append_assoc]
    rfl

theorem partitionScan_returns (h : SumsPastEnd b) (n : Nat) :
    partitionScan (n + 2) b = some ((scanned b).zipIdx 1) := by
  have hread : readPartitionTable b (n + 2) 0 0 ⟨0, []⟩ =
      some ((scanned b).foldl PartitionScan.foundPartition ⟨0, []⟩) := by
    by_cases hpos : 0 < b.size
    · rw [readPartitionTable_succ hpos]
      refine foldlM_visit fun e he s => ?_
      cases hext : e.isExtended with
      | false => rw [visit, hext]; rfl
      | true =>
        rw [visit, hext]
        exact readPartitionTable_extended h (List.mem_filter.mpr ⟨he, hext⟩)
    · have hnil : b.entries 0 = [] := if_neg fun hc => hpos hc.1
      rw [readPartitionTable_past (Nat.not_lt.mp hpos), scanned, hnil]
      rfl
  rw [partitionScan, hread, Option.map_some, foldl_foundPartition]
  rfl

/-! ## あるべき scan と合う条件 -/

theorem flatMap_perm (g : PartitionTableEntry → List Partition) :
    ∀ es : List PartitionTableEntry,
      (es.flatMap fun e => if e.isExtended then g e else [e.partition 0]).Perm
        (partitionsAt es 0 ++ (es.filter (·.isExtended)).flatMap g)
  | [] => .refl _
  | e :: es => by
    have ih := flatMap_perm g es
    rw [List.flatMap_cons, partitionsAt, List.filter_cons, List.filter_cons]
    cases e.isExtended with
    | false => exact ih.cons _
    | true =>
      refine (ih.append_left (g e)).trans ?_
      show (g e ++ (_ ++ _)).Perm (_ ++ (g e ++ _))
      rw [← List.append_assoc, ← List.append_assoc]
      exact List.perm_append_comm.append_right _

open Classical in
theorem zero_mem_tables (b : Block) : 0 ∈ b.tables :=
  Finset.mem_filter.mpr ⟨Finset.mem_range.mpr (Nat.two_pow_pos 32), 0, .refl⟩

/-- **拡張 partition の表の partition が、MBR の partition を数え直したものと重複も込めて合う。** -/
def MirrorsMbr (b : Block) : Prop :=
  (((b.extended 0).flatMap (repeated b) : List Partition) : Multiset Partition) =
    ∑ s ∈ b.tables.erase 0, ↑(partitionsAt (b.entries s) s)

theorem listsPartitions_iff : ListsPartitions b ((scanned b).zipIdx 1) ↔ MirrorsMbr b := by
  have hnr : ((scanned b).zipIdx 1).map Prod.snd =
      List.range' 1 ((scanned b).zipIdx 1).length := by
    rw [List.zipIdx_map_snd, List.length_zipIdx]
  have hfound : (scanned b : Multiset Partition) =
      ↑(partitionsAt (b.entries 0) 0) + ↑((b.extended 0).flatMap (repeated b)) := by
    rw [Multiset.coe_add]
    exact Multiset.coe_eq_coe.mpr (flatMap_perm (repeated b) _)
  rw [ListsPartitions, and_iff_right hnr, List.zipIdx_map_fst, hfound,
    ← Finset.add_sum_erase _ _ (zero_mem_tables b), add_right_inj, MirrorsMbr]

/--
**scan が正しいのは、MBR の拡張 entry の offset の和がどれも装置の外にあり、鎖に輪が無ければ
拡張 partition の表が MBR の写しであるときに限る。**

拡張 partition の無い装置はこれを満たす。
-/
theorem partitionScan_correct_iff (b : Block) :
    ScanCorrect b ↔ SumsPastEnd b ∧ (b.Acyclic → MirrorsMbr b) := by
  constructor
  · rintro ⟨k, calls, hscan, hlists⟩
    have hsums : SumsPastEnd b := by
      intro x hx y hy hxlt
      by_contra hlt
      obtain ⟨s, hs, -⟩ := Option.map_eq_some_iff.mp (hscan k (Nat.le_refl k))
      exact readPartitionTable_loops hx hy hxlt (Nat.not_le.mp hlt) (Nat.zero_lt_of_lt hxlt)
        (fun h => absurd rfl h) hs
    refine ⟨hsums, fun hacyclic => ?_⟩
    have hcalls := (hscan (k + 2) (Nat.le_add_right k 2)).symm.trans (partitionScan_returns hsums k)
    exact listsPartitions_iff.mp (Option.some.inj hcalls ▸ hlists hacyclic)
  · rintro ⟨hsums, hmirror⟩
    refine ⟨2, _, fun n hn => ?_, fun hacyclic => listsPartitions_iff.mpr (hmirror hacyclic)⟩
    obtain ⟨m, rfl⟩ := Nat.exists_eq_add_of_le' hn
    exact partitionScan_returns hsums m

/-- sector 1 に拡張 partition の空の表がある、4 sector の装置。 -/
def extendedDisk : Block where
  size := 4
  data s o :=
    if o = 510 then 0x55 else if o = 511 then 0xaa
    else if s = 0 ∧ o = 450 then 0x05 else if s = 0 ∧ (o = 454 ∨ o = 458) then 1 else 0

/-- **拡張 partition が一つある装置で、scan は終わらない。** -/
theorem partitionScan_loops : ¬ ∃ n calls, partitionScan n extendedDisk = some calls := by
  rintro ⟨n, calls, hscan⟩
  have hx : ⟨0x05, 1, 1⟩ ∈ extendedDisk.extended 0 := by decide +kernel
  obtain ⟨s, hs, -⟩ := Option.map_eq_some_iff.mp hscan
  refine readPartitionTable_loops hx hx (by decide) (by decide) (by decide) ?_ hs
  exact fun h => absurd rfl h

end Pintos
