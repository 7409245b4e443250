import Pintos.Threads.Thread

/-!
# semaphore と lock（`threads/synch.c`）

`sema_down` の while は、先頭から一周する `semaDownLoop` で表す。
値が 0 なら `waiters` に入り、続きとして自分自身を積んで block する。
起こされた thread は while の先頭に戻って値を見直す。

`value` は `unsigned` なので `2^32` で一周する。
-/

namespace Pintos

open Function

namespace Kernel

/-- semaphore `s` を書き換える。 -/
@[simps] def setSema (k : Kernel) (s : SemaId) (v : Semaphore) : Kernel :=
  { k with sema := update k.sema s v }

end Kernel

/-- `sema_down` の後に続く code。lock の semaphore なら、呼んだ `lock_acquire` が holder を書く。 -/
def afterDown : SemaId → List Code
  | .lock l => [.lockSetHolder l]
  | _ => []

/-- `sema->value--` と、その後の `intr_set_level (old_level)`。 -/
def semaDecrement (s : SemaId) (old : IntrLevel) (k : Kernel) : Except Panic Kernel :=
  intrSetLevel old
    ((k.setSema s { k.sema s with value := (k.sema s).value - 1 }).push (afterDown s))

/-- `sema_down` の while の一周。 -/
def semaDownLoop (s : SemaId) (old : IntrLevel) (k : Kernel) : Except Panic Kernel :=
  if (k.sema s).value = 0 then
    threadBlock
      ((k.push [.semaDownLoop s old]).setSema s
        { k.sema s with
          waiters := listInsertOrdered k.cmpPriority k.cur (k.sema s).waiters })
  else semaDecrement s old k

def semaDown (s : SemaId) (k : Kernel) : Except Panic Kernel :=
  if k.inExternalIntr then .error .semaDownContext
  else semaDownLoop s k.intrLevel (intrDisable k)

def semaTryDown (s : SemaId) (k : Kernel) : Except Panic Kernel :=
  if (k.sema s).value > 0 then semaDecrement s k.intrLevel (intrDisable k)
  else intrSetLevel k.intrLevel (intrDisable k)

/-- `sema_up` の前半。`waiters` の先頭を起こす。 -/
def semaWake (s : SemaId) (k : Kernel) : Except Panic Kernel :=
  match (k.sema s).waiters with
  | [] => .ok k
  | t :: ts => threadUnblock t (k.setSema s { k.sema s with waiters := ts })

/-- `sema->value++`。 -/
def semaIncrement (s : SemaId) (k : Kernel) : Kernel :=
  k.setSema s { k.sema s with value := ((k.sema s).value + 1) % 2 ^ 32 }

def semaUp (s : SemaId) (k : Kernel) : Except Panic Kernel :=
  (semaWake s (intrDisable k)).bind fun k₁ => testMaxPriority k.intrLevel (semaIncrement s k₁)

/-! ## lock -/

def lockHeldByCurrentThread (l : LockId) (k : Kernel) : Bool := k.holder l = some k.cur

def lockAcquire (l : LockId) (k : Kernel) : Except Panic Kernel :=
  if k.inExternalIntr then .error .lockAcquireContext
  else if lockHeldByCurrentThread l k then .error .lockAcquireHeld
  else semaDown (.lock l) k

def lockTryAcquire (l : LockId) (k : Kernel) : Except Panic Kernel :=
  if lockHeldByCurrentThread l k then .error .lockTryAcquireHeld
  else semaTryDown (.lock l) k

/-- `lock->holder = thread_current ()`。 -/
def lockSetHolder (l : LockId) (k : Kernel) : Kernel :=
  { k with holder := update k.holder l (some k.cur) }

/-- `lock_release`。holder を消した後の `sema_up` は、間に割り込みが入りうるので積んでおく。 -/
def lockRelease (l : LockId) (k : Kernel) : Except Panic Kernel :=
  if lockHeldByCurrentThread l k then
    .ok ({ k with holder := update k.holder l none }.push [.semaUp (.lock l)])
  else .error .lockReleaseHeld

end Pintos
