import Pintos.Filesys.Filesys

/-!
# file descriptor（`userprog/syscall.c`、`process.c`）

process ごとの file descriptor の表と、それを使う system call。
`load` が開いて `exec_file` に置く file と、`process_exit` の後始末も含む。

## 表の外

`fdt` は `FDT_MAX` 個の配列で、添字の検査は `next_fd` との比較だけである。
配列の外を読み書きする一歩は `Fault.outOfBounds` になる。

`validate_fd` は、使えない fd では `exit(-1)` を呼ぶ。`exit` は戻らないので、
その system call は値を返さず、process には `process_exit` だけが残る。

## 省いたもの

引数の pointer の検査と、ELF の検査と読み込みは表に関わらないので持たない。
一つの system call は途中で割り込まれないとする。
-/

namespace Pintos.Userprog

open Infra Function

/-! ## データ -/

abbrev Pid := Nat

def fdtMax : Nat := 128

/-- `struct thread` のうち、file に関わる項目。 -/
structure Task where
  name : List UInt8
  fdt : Fin fdtMax → Option FileId
  nextFd : Nat
  execFile : Option FileId
  /-- `exit` に入った。 -/
  exited : Bool

/-- `init_thread` の後。`next_fd` は `reserved_entry` の個数から始まる。 -/
def Task.init (name : List UInt8) : Task where
  name := name
  fdt := fun _ => none
  nextFd := 2
  execFile := none
  exited := false

structure Tasks where
  fs : Fs
  task : Pid → Task
  live : List Pid
  nextPid : Pid

/-- system call が値を返さない理由。 -/
inductive Fault
  | panic (p : FsPanic)
  /-- `fdt` の外の添字。 -/
  | outOfBounds (index : Int)
  /-- `exit` に入った。 -/
  | exit (status : Int)
  /-- `process_execute` の `first_word` か `load` の `full_file_name_copy_2` があふれた。 -/
  | commandLine
deriving DecidableEq

/-- file system の計算を呼ぶ。 -/
def onFs {α : Type} (r : Except FsPanic α) : Except Fault α :=
  match r with
  | .ok x => .ok x
  | .error p => .error (.panic p)

/-! ## 表 -/

namespace Task

variable (t : Task)

/-- `cur->fdt[fd]` を読む。 -/
def slot (fd : Int) : Except Fault (Option FileId) :=
  if h : 0 ≤ fd ∧ fd.toNat < fdtMax then .ok (t.fdt ⟨fd.toNat, h.2⟩) else .error (.outOfBounds fd)

/-- `cur->fdt[fd]` に書く。 -/
def setSlot (fd : Int) (f : Option FileId) : Except Fault Task :=
  if h : 0 ≤ fd ∧ fd.toNat < fdtMax then
    .ok { t with fdt := update t.fdt ⟨fd.toNat, h.2⟩ f }
  else .error (.outOfBounds fd)

/-- `fd >= 2 && fd < cur->next_fd && cur->fdt[fd] != NULL` を満たす file。 -/
def opened (fd : Int) : Except Fault (Option FileId) :=
  if 2 ≤ fd ∧ fd < t.nextFd then t.slot fd else .ok none

def validateFd (fd : Int) : Except Fault FileId :=
  (t.opened fd).bind fun o =>
    match o with
    | some f => .ok f
    | none => .error (.exit (-1))

end Task

/-- `fd` で開いている file。 -/
def Task.file? (t : Task) (fd : Int) : Option FileId :=
  if h : 0 ≤ fd ∧ fd.toNat < fdtMax then t.fdt ⟨fd.toNat, h.2⟩ else none

/-! ## 名前 -/

/-- `process_execute` の `first_word`。`" "` の手前までである。 -/
def firstWord (cmd : CString) : List UInt8 := cmd.val.takeWhile (· ≠ 32)

/-- `strtok_r (cmd, " ", …)` の最初の語。 -/
def programName (cmd : CString) : CString :=
  ⟨(cmd.val.dropWhile (· = 32)).takeWhile (· ≠ 32), fun h =>
    cmd.property ((List.dropWhile_sublist _).subset ((List.takeWhile_sublist _).subset h))⟩

/-! ## system call -/

inductive Call
  | create (name : CString) (initialSize : Int)
  | remove (name : CString)
  | sysOpen (name : CString)
  | close (fd : Int)
  /-- `typed` は `fd` が 0 のときに `input_getc` が返す文字である。 -/
  | read (fd : Int) (size : Nat) (typed : List UInt8)
  | write (fd : Int) (buffer : List UInt8)
  | filesize (fd : Int)
  | seek (fd : Int) (position : Int)
  | tell (fd : Int)
  | exec (cmd : CString)
  | processExit

namespace Tasks

variable (s : Tasks) (p : Pid)

def setTask (t : Task) (fs : Fs) : Tasks := { s with fs := fs, task := update s.task p t }

/-- thread を一つ足す。 -/
def spawn (t : Task) (fs : Fs) : Tasks where
  fs := fs
  task := update s.task s.nextPid t
  live := s.live ++ [s.nextPid]
  nextPid := s.nextPid + 1

/-- `open`。空きを探さず、`next_fd` の添字に置く。 -/
def sysOpen (name : CString) : Except Fault (Int × Tasks) :=
  let t := s.task p
  (onFs (filesysOpen name s.fs)).bind fun r =>
    match r.1 with
    | none => .ok (-1, { s with fs := r.2 })
    | some f =>
      -- `is_opening_executable_file`
      (if name.val = t.name then onFs (fileDenyWrite f r.2) else .ok r.2).bind fun fs =>
        (t.setSlot t.nextFd (some f)).map fun t' =>
          ((t.nextFd : Int), s.setTask p { t' with nextFd := t.nextFd + 1 } fs)

def close (fd : Int) : Except Fault (Int × Tasks) :=
  let t := s.task p
  (t.validateFd fd).bind fun f =>
    -- `is_closing_executable_file`
    (if t.execFile = some f then onFs (fileAllowWrite f s.fs) else .ok s.fs).bind fun fs₁ =>
      (onFs (fileClose f fs₁)).bind fun fs₂ =>
        (t.setSlot fd none).map fun t' =>
          (0, s.setTask p
            { t' with execFile := if t.execFile = some f then none else t.execFile } fs₂)

def read (fd : Int) (size : Nat) (typed : List UInt8) : Except Fault (Int × Tasks) :=
  if fd = 0 then .ok (((typed.take size).takeWhile (· ≠ 0)).length, s)
  else
    ((s.task p).opened fd).bind fun o =>
      match o with
      | some f => (onFs (fileRead f size s.fs)).map fun r => (r.1.length, { s with fs := r.2 })
      | none => .ok (-1, s)

def write (fd : Int) (buffer : List UInt8) : Except Fault (Int × Tasks) :=
  if fd = 1 then .ok (buffer.length, s)
  else
    ((s.task p).opened fd).bind fun o =>
      match o with
      | some f => (onFs (fileWrite f buffer s.fs)).map fun r => ((r.1 : Int), { s with fs := r.2 })
      | none => .ok (-1, s)

def filesize (fd : Int) : Except Fault (Int × Tasks) :=
  ((s.task p).validateFd fd).map fun f => ((s.fs.inode (s.fs.file f).inode).data.length, s)

def seek (fd position : Int) : Except Fault (Int × Tasks) :=
  ((s.task p).validateFd fd).bind fun f =>
    (onFs (fileSeek f (int32 position) s.fs)).map fun fs => (0, { s with fs := fs })

def tell (fd : Int) : Except Fault (Int × Tasks) :=
  ((s.task p).validateFd fd).map fun f => ((s.fs.file f).pos, s)

/-- `exec` と、作った thread の `load`。開いた file は `exec_file` に置き、書き込みは禁じない。 -/
def exec (cmd : CString) : Except Fault (Int × Tasks) :=
  if 20 ≤ (firstWord cmd).length ∨ 256 ≤ cmd.val.length then .error .commandLine
  else
    let child := Task.init ((firstWord cmd).take 15)
    (if (programName cmd).val = [] then .ok (none, s.fs)
      else onFs (filesysOpen (programName cmd) s.fs)).map fun r =>
        ((s.nextPid : Int), s.spawn { child with execFile := r.1 } r.2)

/-- `process_exit` の for。`n` 回まわる。 -/
def closeFrom : (n : Nat) → (fd : Nat) → Task → Fs → Except Fault (Task × Fs)
  | 0, _, t, fs => .ok (t, fs)
  | n + 1, fd, t, fs =>
    (t.slot fd).bind fun o =>
      match o with
      | none => closeFrom n (fd + 1) t fs
      | some f =>
        (onFs (fileClose f fs)).bind fun fs' =>
          (t.setSlot fd none).bind fun t' => closeFrom n (fd + 1) t' fs'

/-- `process_exit` の、`exec_file` を閉じるところ。 -/
def closeExec (t : Task) (fs : Fs) : Except Fault Fs :=
  match t.execFile with
  | some f => onFs (fileClose f fs)
  | none => .ok fs

def processExit : Except Fault (Int × Tasks) :=
  let t := s.task p
  (closeExec t s.fs).bind fun fs =>
    (closeFrom (t.nextFd - 2) 2 { t with execFile := none } fs).map fun r =>
      (0, { s.setTask p r.1 r.2 with live := s.live.erase p })

/-- process `p` が system call を呼ぶ。 -/
def call : Call → Except Fault (Int × Tasks)
  | .create name initialSize =>
    (onFs (filesysCreate name (int32 initialSize) s.fs)).map fun r =>
      (if r.1 then 1 else 0, { s with fs := r.2 })
  | .remove name =>
    (onFs (filesysRemove name s.fs)).map fun r => (if r.1 then 1 else 0, { s with fs := r.2 })
  | .sysOpen name => s.sysOpen p name
  | .close fd => s.close p fd
  | .read fd size typed => s.read p fd size typed
  | .write fd buffer => s.write p fd buffer
  | .filesize fd => s.filesize p fd
  | .seek fd position => s.seek p fd position
  | .tell fd => s.tell p fd
  | .exec cmd => s.exec cmd
  | .processExit => s.processExit p

end Tasks

/-! ## 遷移系 -/

def Call.isExit : Call → Bool
  | .processExit => true
  | _ => false

/-- 生きている process が、system call を一つ呼ぶ。`exit` に入った process は `process_exit` だけをする。 -/
def taskStep (s : Tasks) (e : Pid × Call) : Option Tasks :=
  if e.1 ∈ s.live ∧ ((s.task e.1).exited = true → e.2.isExit = true) then
    match s.call e.1 e.2 with
    | .ok r => some r.2
    | .error (.exit _) => some (s.setTask e.1 { s.task e.1 with exited := true } s.fs)
    | .error _ => none
  else none

/-- format した file system の上に、`initial_thread` だけが居る。 -/
def Tasks.IsBooted (s : Tasks) : Prop :=
  IsFormatted s.fs ∧ s.live = [0] ∧ s.task 0 = Task.init [109, 97, 105, 110] ∧ s.nextPid = 1

def tasks : System Tasks (Pid × Call) := System.ofFun Tasks.IsBooted taskStep

end Pintos.Userprog
