import Pintos.Threads.Machine

/-!
# `init_thread` の途中

`init_thread` は、実行中の thread の `nice` と `recent_cpu` を写してから、割り込みを禁止して
新しい thread を `all_list` に入れる。写してから入れるまでの間は割り込みが許可されているので、
timer 割り込みが入りうる。`Machine` の `threadCreate` はこの間を一歩にまとめている。
ここでは写すところ（`copy`）と入れるところ（`insert`）を別の一歩にする。

`nice` を書き換えるのはその thread だけなので、`nice` と `recent_cpu` を写す間は分けなくてよい。
priority の計算は写した値だけを読む。
-/

namespace Pintos

open Infra Function

/-- 記録 `th` の thread を `all_list` に加えた状態。 -/
def Kernel.enlisted (k : Kernel) (th : Thread) : Kernel :=
  { k with
    thread := update k.thread k.nextThread th
    nextThread := k.nextThread + 1
    allList := k.allList ++ [k.nextThread] }

theorem enlisted_self (k : Kernel) (th : Thread) : (k.enlisted th).thread k.nextThread = th :=
  update_self ..

theorem enlisted_of_ne {k : Kernel} {th : Thread} {t : ThreadId} (h : t ≠ k.nextThread) :
    (k.enlisted th).thread t = k.thread t :=
  update_of_ne h ..

/-- `init_thread` が `all_list` に入れて、`thread_create` の残りが始まるところ。 -/
def Kernel.inserted (k : Kernel) (th : Thread) : Kernel :=
  let t := k.nextThread
  (k.enlisted th).push
    [.lockAcquire .tid, .allocateTid t, .lockRelease .tid, .createUnblock t, .createTest t]

theorem Kernel.created_eq (k : Kernel) (priority : Int) (stack : List Code) :
    k.created priority stack = k.inserted (initThread k priority stack) := rfl

/-- `init_thread` の途中を持つ状態。 -/
structure Creation where
  kernel : Kernel
  /-- 作っている thread と、値を写し終えてまだ `all_list` に無い thread の記録。 -/
  making : List (ThreadId × Thread)

inductive CreationEvent
  | step (e : Event)
  | copy (priority : Int)
  | insert
deriving DecidableEq

namespace Creation

/-- 実行中の thread が作っている途中の thread。 -/
def made (m : Creation) : Option Thread := m.making.lookup m.kernel.cur

/-- 実行中の thread が自分の code にいて、idle thread ではない。 -/
def inCode (m : Creation) : Bool :=
  m.kernel.curThread.stack = [] ∧ m.kernel.idleThread ≠ some m.kernel.cur

/-- `init_thread` の途中の thread は、ほかのものを呼ばない。 -/
def allows (m : Creation) : Event → Bool
  | .call (.threadCreate true _) => false
  | .call _ => m.made = none
  | _ => true

def next (m : Creation) : CreationEvent → Option Creation
  | .step e =>
    if m.allows e then (step m.kernel e).map fun k => { m with kernel := k } else none
  | .copy p =>
    if m.inCode ∧ m.made = none ∧ priMin ≤ p ∧ p ≤ priMax then
      some { m with making := (m.kernel.cur, initThread m.kernel p [.kernelThread]) :: m.making }
    else none
  | .insert =>
    match m.made with
    | some th =>
      if m.inCode then
        some { kernel := m.kernel.inserted th
               making := m.making.filter fun e => e.1 ≠ m.kernel.cur }
      else none
    | none => none

end Creation

/-- `init_thread` の途中に割り込みの入る scheduler。 -/
def creation : System Creation CreationEvent :=
  System.ofFun (fun m => IsBoot m.kernel ∧ m.making = []) Creation.next

end Pintos
