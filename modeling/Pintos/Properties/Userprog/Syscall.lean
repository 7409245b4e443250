import Pintos.Userprog.Syscall

/-!
# 引数の検査

`check_valid_vaddr` は address を一つだけ調べ、読むのは 4 byte の語である。
検査が無いか、語の途中で page が変われば、調べていない byte を読む。

`syscall_handler` が user の byte だけを読むこと（`Guarded`）を、`esp` と page の
条件 `SafeStack` に置き換える。
-/

namespace Pintos.Userprog

open Infra

variable {m : AddressSpace} {a esp : Addr} {α β : Type}

/-! ## 読んでよい byte -/

/-- `PHYS_BASE` より下で、page directory にある byte。 -/
def UserByte (m : AddressSpace) (a : Addr) : Prop := isUserVaddr a = true ∧ m.mapped a = true

instance (m : AddressSpace) : DecidablePred (UserByte m) := fun _ => inferInstanceAs (Decidable (_ ∧ _))

def UserWord (m : AddressSpace) (a : Addr) : Prop := ∀ b ∈ AddressSpace.bytesAt a, UserByte m b

instance (m : AddressSpace) : DecidablePred (UserWord m) := fun _ =>
  inferInstanceAs (Decidable (∀ _ ∈ _, _))

theorem UserWord.first (h : UserWord m a) : UserByte m a := h a List.mem_cons_self

/-- **読んでよい byte しか読まない。** そうでない byte に来る前に `exit (-1)` で終わるか、読み終える。 -/
def Handling.Guarded (m : AddressSpace) (x : Handling α) : Prop := ∀ b ∈ x.reads, UserByte m b

namespace Handling

theorem guarded_pure (x : α) : (pure x).Guarded m := nofun

theorem guarded_bind_iff (x : Handling α) (f : α → Handling β) :
    (x.bind f).Guarded m ↔ x.Guarded m ∧ ∀ v, x.result = some v → (f v).Guarded m := by
  unfold Guarded bind
  cases x.result with
  | some v => simp only [List.mem_append, Option.some.injEq, forall_eq', or_imp, forall_and]
  | none => simp

end Handling

/-! ## 検査と読み出し -/

variable {u : Unit}

theorem exitUnless_result {ok : Bool} : (exitUnless ok).result = some u ↔ ok = true := by
  cases ok <;> simp [exitUnless, exitFailure, Handling.pure]

theorem exitUnless_guarded (ok : Bool) : (exitUnless ok).Guarded m := by
  cases ok with
  | false | true => exact nofun

theorem readWord_guarded_iff : (readWord m a).Guarded m ↔ UserWord m a := Iff.rfl

theorem readWord_result (h : UserWord m a) {w : Nat} :
    (readWord m a).result = some w ↔ m.word a = w := by
  have hall : (AddressSpace.bytesAt a).all m.mapped = true :=
    List.all_eq_true.mpr fun b hb => (h b hb).2
  unfold readWord
  rw [if_pos hall, Option.some.injEq]

theorem checkValidVaddr_guarded : (checkValidVaddr m a).Guarded m :=
  (Handling.guarded_bind_iff _ _).mpr ⟨exitUnless_guarded _, fun _ _ => exitUnless_guarded _⟩

theorem checkValidVaddr_result : (checkValidVaddr m a).result = some u ↔ UserByte m a := by
  unfold checkValidVaddr UserByte
  cases hu : isUserVaddr a with
  | true => simpa [exitUnless, Handling.bind, Handling.pure] using exitUnless_result
  | false => simp [exitUnless, exitFailure, Handling.bind]

variable {os : List Addr}

theorem checkAll_guarded (os : List Addr) : (checkAll m esp os).Guarded m := by
  induction os with
  | nil => exact Handling.guarded_pure ()
  | cons o os ih =>
    exact (Handling.guarded_bind_iff _ _).mpr ⟨checkValidVaddr_guarded, fun _ _ => ih⟩

theorem checkAll_result : (checkAll m esp os).result = some u ↔ ∀ o ∈ os, UserByte m (esp + o) := by
  induction os with
  | nil => simp [checkAll, Handling.pure]
  | cons o os ih =>
    rw [checkAll, List.forall_mem_cons, ← ih, ← checkValidVaddr_result (u := ()), Handling.bind]
    cases (checkValidVaddr m (esp + o)).result with
    | some v => simp
    | none => simp

theorem readAll_guarded_iff : (readAll m esp os).Guarded m ↔ ∀ o ∈ os, UserWord m (esp + o) := by
  induction os with
  | nil => exact iff_of_true (Handling.guarded_pure []) nofun
  | cons o os ih =>
    rw [readAll, Handling.guarded_bind_iff, readWord_guarded_iff, List.forall_mem_cons, ← ih]
    refine and_congr_right fun hw => ?_
    constructor
    · intro h
      exact ((Handling.guarded_bind_iff _ _).mp (h _ ((readWord_result hw).mpr rfl))).1
    · intro h w _
      exact (Handling.guarded_bind_iff _ _).mpr ⟨h, fun ws _ => Handling.guarded_pure _⟩

/-! ## `syscall_handler` -/

/-- 引数を安全に読める。検査する byte のどれかを読んではいけないか、読む引数の 4 byte をどれも読んでよい。 -/
def SafeArgs (m : AddressSpace) (esp : Addr) (nr : SysNr) : Prop :=
  (∃ o ∈ nr.checks, ¬ UserByte m (esp + o)) ∨ ∀ o ∈ nr.args, UserWord m (esp + o)

/--
番号と引数を安全に読める stack。

* `esp` が NULL か、`esp` か `esp + 4` が user の address でない
* または、番号の 4 byte を読んでよく、その番号の引数を安全に読める
-/
def SafeStack (m : AddressSpace) (esp : Addr) : Prop :=
  (esp = 0 ∨ isUserVaddr esp = false ∨ isUserVaddr (esp + 4) = false) ∨
  UserWord m esp ∧ ∀ nr, SysNr.ofWord (m.word esp) = some nr → SafeArgs m esp nr

theorem arguments_guarded_iff (nr : SysNr) :
    ((checkAll m esp nr.checks).bind fun _ =>
      (readAll m esp nr.args).bind fun ws => .pure (nr, ws)).Guarded m ↔ SafeArgs m esp nr := by
  have hread : ((readAll m esp nr.args).bind fun ws => .pure (nr, ws)).Guarded m ↔
      ∀ o ∈ nr.args, UserWord m (esp + o) := by
    rw [Handling.guarded_bind_iff, readAll_guarded_iff]
    exact and_iff_left fun ws _ => Handling.guarded_pure _
  rw [Handling.guarded_bind_iff, and_iff_right (checkAll_guarded _), SafeArgs, ← hread]
  constructor
  · intro h
    refine Classical.or_iff_not_imp_left.mpr fun hgood => h () (checkAll_result.mpr fun o ho => ?_)
    exact Classical.byContradiction fun hb => hgood ⟨o, ho, hb⟩
  · rintro (⟨o, ho, hbad⟩ | h) _ hok
    · -- 検査に落ちた byte で `exit` に入る
      exact absurd (checkAll_result.mp hok o ho) hbad
    · exact h

theorem dispatch_guarded_iff (number : Nat) : (dispatch m esp number).Guarded m ↔
    ∀ nr, SysNr.ofWord number = some nr → SafeArgs m esp nr := by
  unfold dispatch
  cases SysNr.ofWord number with
  | none => exact iff_of_true nofun nofun
  | some nr =>
    rw [arguments_guarded_iff]
    constructor
    · intro h nr' he
      cases he
      exact h
    · intro h
      exact h nr rfl

theorem readNumber_guarded_iff : ((readWord m esp).bind (dispatch m esp)).Guarded m ↔
    UserWord m esp ∧ ∀ nr, SysNr.ofWord (m.word esp) = some nr → SafeArgs m esp nr := by
  rw [Handling.guarded_bind_iff, readWord_guarded_iff]
  refine and_congr_right fun hw => ?_
  rw [← dispatch_guarded_iff]
  constructor
  · intro h
    exact h _ ((readWord_result hw).mpr rfl)
  · intro h number hn
    rw [← (readWord_result hw).mp hn]
    exact h

/--
**`syscall_handler` が読んでよい byte だけを読むのは、`SafeStack` のときに限る。**
どの `esp`、どの page の組み合わせ、どの番号でも成り立つ。
-/
theorem syscallHandler_guarded_iff (m : AddressSpace) (esp : Addr) :
    (syscallHandler m esp).Guarded m ↔ SafeStack m esp := by
  have hesp : (!(esp == 0 || !isUserVaddr esp)) = true ↔ esp ≠ 0 ∧ isUserVaddr esp = true := by simp
  unfold syscallHandler SafeStack
  rw [Handling.guarded_bind_iff, and_iff_right (exitUnless_guarded _)]
  simp only [Handling.guarded_bind_iff (exitUnless (isUserVaddr (esp + 4))), exitUnless_guarded,
    true_and, exitUnless_result, readNumber_guarded_iff, hesp, forall_const]
  constructor
  · intro h
    by_cases hbad : esp = 0 ∨ isUserVaddr esp = false ∨ isUserVaddr (esp + 4) = false
    · exact .inl hbad
    · simp only [not_or, Bool.not_eq_false] at hbad
      exact .inr (h ⟨hbad.1, hbad.2.1⟩ hbad.2.2)
  · -- `esp` か `esp + 4` の検査に落ちれば、何も読まない
    rintro (hbad | h) ⟨hne, huser⟩ hnext
    · rw [huser, hnext] at hbad
      simp only [reduceCtorEq, or_false] at hbad
      exact absurd hbad hne
    · exact h

/-- stack の page だけがあり、`a` の byte が `number` で、ほかは 0 である。 -/
def onePage (a : Addr) (number : UInt8) : AddressSpace :=
  ⟨fun p => p == 0x8048, fun b => if b = a then number else 0⟩

/--
**検査していない byte を読む。**

* `esp` の page が無い
* `SYS_EXIT` の引数の 4 byte 目だけが、次の page にある
* `SYS_FIBONACCI` の引数が、次の page にある
-/
theorem exists_unchecked_read :
    ¬ (syscallHandler (onePage 0 0) 0x08050000).Guarded (onePage 0 0) ∧
    ¬ (syscallHandler (onePage 0x08048ff9 1) 0x08048ff9).Guarded (onePage 0x08048ff9 1) ∧
    ¬ (syscallHandler (onePage 0x08048ffc 13) 0x08048ffc).Guarded (onePage 0x08048ffc 13) := by
  refine ⟨fun h => ?_, fun h => ?_, fun h => ?_⟩
  · exact absurd (h 0x08050000 (by decide)) (by decide)
  · exact absurd (h 0x08049000 (by decide)) (by decide)
  · exact absurd (h 0x08049000 (by decide)) (by decide)

end Pintos.Userprog
