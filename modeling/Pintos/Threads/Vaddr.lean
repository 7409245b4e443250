import Pintos.Infra.Int32

/-!
# 仮想番地（`threads/vaddr.h`）

番地は 32 bit の数で、`Nat` で表す。`ASSERT` が偽になることは `none` で表す。
-/

namespace Pintos

def pgSize : Nat := 4096

def pgOfs (va : Nat) : Nat := va % pgSize

def pgNo (va : Nat) : Nat := va / pgSize

def physBase : Nat := 0xc0000000

def isUserVaddr (va : Nat) : Bool := va < physBase

def isKernelVaddr (va : Nat) : Bool := physBase ≤ va

def ptov (paddr : Nat) : Option Nat :=
  if paddr < physBase then some ((paddr + physBase) % 2 ^ 32) else none

def vtop (va : Nat) : Option Nat :=
  if isKernelVaddr va then some (va - physBase) else none

@[simp] theorem pgNo_pgSize_mul (n : Nat) : pgNo (pgSize * n) = n :=
  Nat.mul_div_cancel_left n (by decide)

@[simp] theorem pgOfs_pgSize_mul (n : Nat) : pgOfs (pgSize * n) = 0 := Nat.mul_mod_right ..

theorem pgSize_mul_pgNo {va : Nat} (h : pgOfs va = 0) : pgSize * pgNo va = va :=
  Nat.mul_div_cancel' (Nat.dvd_of_mod_eq_zero h)

end Pintos
