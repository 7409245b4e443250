import Pintos.Filesys.Block
import Pintos.Infra.Bytes

/-!
# partition の表を読む（`devices/partition.c`）

`none` は `PANIC` である。`buffers` は、呼び出しの途中で同時に持てる `struct partition_table` の
個数で、`malloc` はそれを超えると `NULL` を返す。表は戻るときに `free` されるので、
入れ子の深さだけが `buffers` を使う。

sector の番号は 32 bit で、加算は折り返す。表示だけをする `printf` は省く。
-/

namespace Pintos

open Infra

/-- `struct partition_table_entry`。scan が読まない field は省く。 -/
structure PartitionTableEntry where
  type : UInt8
  offset : Nat
  size : Nat
deriving DecidableEq

structure PartitionTable where
  partitions : List PartitionTableEntry
  signature : Nat

def PartitionTable.ofSector (buf : Nat → UInt8) : PartitionTable where
  partitions := (List.range 4).map fun i =>
    let word o := ofLe32 (buf (446 + 16 * i + o)) (buf (446 + 16 * i + o + 1))
      (buf (446 + 16 * i + o + 2)) (buf (446 + 16 * i + o + 3))
    { type := buf (446 + 16 * i + 4), offset := word 8, size := word 12 }
  signature := (buf 510).toNat + 2 ^ 8 * (buf 511).toNat

namespace PartitionTableEntry

def isEmpty (e : PartitionTableEntry) : Bool := e.size = 0 || e.type = 0

def isExtended (e : PartitionTableEntry) : Bool :=
  e.type = 0x05 || e.type = 0x0f || e.type = 0x85 || e.type = 0xc5

/-- 拡張 entry が指す表の sector と、その表の `primary_extended_sector`。 -/
def next (e : PartitionTableEntry) (sector primary : Nat) : Nat × Nat :=
  if sector = 0 then (e.offset, e.offset) else ((e.offset + primary) % 2 ^ 32, primary)

end PartitionTableEntry

/-- `found_partition` に渡す `part_type`、`start`、`size`。 -/
structure Partition where
  type : UInt8
  start : Nat
  size : Nat
deriving DecidableEq

/-- `sector` の表にある entry の partition。 -/
def PartitionTableEntry.partition (sector : Nat) (e : PartitionTableEntry) : Partition where
  type := e.type
  start := (e.offset + sector) % 2 ^ 32
  size := e.size

/-- `*part_nr` と、それまでの `found_partition` の呼び出し。 -/
structure PartitionScan where
  partNr : Nat
  found : List (Partition × Nat)

/-- `++*part_nr` と `found_partition`。 -/
def PartitionScan.foundPartition (s : PartitionScan) (p : Partition) : PartitionScan where
  partNr := s.partNr + 1
  found := s.found ++ [(p, s.partNr + 1)]

/-- `read_partition_table`。どの深さでも `block_read` の sector は 0 である。 -/
def readPartitionTable (block : Block) :
    (buffers sector primary : Nat) → PartitionScan → Option PartitionScan
  | 0, sector, _, s => if block.size ≤ sector then some s else none
  | buffers + 1, sector, primary, s =>
    if block.size ≤ sector then some s
    else do
      let pt := PartitionTable.ofSector (← (block.read 0).toOption)
      if pt.signature ≠ 0xaa55 then some s
      else
        pt.partitions.foldlM (fun s e =>
          if e.isEmpty then some s
          else if e.isExtended then
            let (sector, primary) := e.next sector primary
            readPartitionTable block buffers sector primary s
          else some (s.foundPartition (e.partition sector))) s

/-- `partition_scan` が行う `found_partition` の呼び出し。 -/
def partitionScan (buffers : Nat) (block : Block) : Option (List (Partition × Nat)) :=
  (readPartitionTable block buffers 0 0 ⟨0, []⟩).map PartitionScan.found

end Pintos
