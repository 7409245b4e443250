import Mathlib.Order.Nat
import Pintos.Properties.Userprog.Syscall

/-!
# 文字列の検査

`check_valid_string` の `while (*current_char)` は、次の文字を読んでから、その address を調べる。
文字列が page の終わりまで続き、次の page が無いか kernel のものなら、
調べていない byte を読む。

文字列を、NUL の手前まで進む `StringUpTo` と、最初に止まる位置に分けて調べる。
-/

namespace Pintos.Userprog

variable {m : AddressSpace} {str a : Addr}

/-! ## 記録 -/

theorem Scan.andThen_of_ok {x : Scan} (h : x.returned = true) (y : Scan) :
    x.andThen y = ⟨x.log ++ y.log, y.returned⟩ := if_pos h

theorem Scan.andThen_of_exit {x : Scan} (h : x.returned = false) (y : Scan) : x.andThen y = x :=
  if_neg (Bool.eq_false_iff.mp h)

theorem checkChar_of_userByte (h : UserByte m a) : checkChar m a = ⟨[.accepted a], true⟩ := by
  simp [checkChar, checkValidVaddr_result (u := ()) |>.mpr h]

theorem checkChar_of_not_userByte (h : ¬ UserByte m a) : checkChar m a = ⟨[], false⟩ := by
  have hnone : (checkValidVaddr m a).result = none := by
    cases hr : (checkValidVaddr m a).result with
    | none => rfl
    | some u => exact absurd (checkValidVaddr_result.mp hr) h
  simp [checkChar, hnone]

theorem scanString_eq (m : AddressSpace) (a : Addr) : scanString m a =
    (readChar m a).andThen (if m.byte a = 0 then ⟨[], true⟩
      else (checkChar m a).andThen (scanString m (a + 1))) := by
  rw [scanString]
  cases hu : isUserVaddr a with
  | true => rw [if_pos rfl]
  | false =>
    have hbad : ¬ UserByte m a := fun h => nomatch hu.symm.trans h.1
    have hexit (y : Scan) : (checkChar m a).andThen y = checkChar m a :=
      Scan.andThen_of_exit (congrArg Scan.returned (checkChar_of_not_userByte hbad)) y
    rw [hexit, hexit]

theorem scanString_log (m : AddressSpace) (a : Addr) :
    ∃ rest, (scanString m a).log = .read a :: rest := by
  rw [scanString_eq]
  cases hm : m.mapped a with
  | true =>
    rw [Scan.andThen_of_ok hm]
    exact ⟨_, rfl⟩
  | false =>
    rw [Scan.andThen_of_exit hm]
    exact ⟨[], rfl⟩

theorem read_mem_scanString (m : AddressSpace) (a : Addr) : .read a ∈ (scanString m a).log := by
  obtain ⟨rest, hlog⟩ := scanString_log m a
  rw [hlog]
  exact List.mem_cons_self ..

theorem scanString_nul (h : UserByte m a) (hz : m.byte a = 0) :
    scanString m a = ⟨[.read a], true⟩ := by
  rw [scanString_eq, if_pos hz, Scan.andThen_of_ok h.2]
  rfl

theorem scanString_next (h : UserByte m a) (hnz : m.byte a ≠ 0) : scanString m a =
    ⟨[.read a, .accepted a] ++ (scanString m (a + 1)).log, (scanString m (a + 1)).returned⟩ := by
  rw [scanString_eq, if_neg hnz, Scan.andThen_of_ok h.2, checkChar_of_userByte h,
    Scan.andThen_of_ok rfl]
  rfl

/-! ## 文字列 -/

def charAt (str : Addr) (i : Nat) : Addr := str + BitVec.ofNat 32 i

theorem charAt_zero : charAt str 0 = str := BitVec.add_zero str

theorem charAt_succ (n : Nat) : charAt str (n + 1) = charAt str n + 1 := by
  unfold charAt
  rw [BitVec.ofNat_add, BitVec.add_assoc]
  rfl

/-- 最初の `n` 文字は読んでよく、NUL でない。 -/
def StringUpTo (m : AddressSpace) (str : Addr) (n : Nat) : Prop :=
  ∀ i < n, UserByte m (charAt str i) ∧ m.byte (charAt str i) ≠ 0

/-- **NUL まで、どの byte も `PHYS_BASE` より下で、page directory にある。** -/
def IsString (m : AddressSpace) (str : Addr) : Prop :=
  ∃ n, StringUpTo m str n ∧ UserByte m (charAt str n) ∧ m.byte (charAt str n) = 0

theorem IsString.first (h : IsString m str) : UserByte m str := by
  obtain ⟨n, hup, hn, -⟩ := h
  cases n with
  | zero => rwa [charAt_zero] at hn
  | succ n =>
    have hfirst := (hup 0 n.succ_pos).1
    rwa [charAt_zero] at hfirst

theorem exists_stop (m : AddressSpace) (str : Addr) : ∃ n, StringUpTo m str n ∧
    (¬ UserByte m (charAt str n) ∨ m.byte (charAt str n) = 0) := by
  have hex : ∃ n, ¬ UserByte m (charAt str n) ∨ m.byte (charAt str n) = 0 := by
    refine ⟨(physBase - str).toNat, .inl fun h => ?_⟩
    have hbase : charAt str (physBase - str).toNat = physBase := by
      unfold charAt
      rw [BitVec.ofNat_toNat, BitVec.setWidth_eq, BitVec.add_comm, BitVec.sub_add_cancel]
    rw [hbase] at h
    exact absurd h.1 (by decide)
  classical
  refine ⟨Nat.find hex, fun i hi => ?_, Nat.find_spec hex⟩
  have hmin := Nat.find_min hex hi
  rw [not_or, not_not] at hmin
  exact hmin

/-- 止まる位置が読んでよい byte なら、そこが NUL である。 -/
theorem exists_bad_of_not_isString (h : ¬ IsString m str) :
    ∃ n, StringUpTo m str n ∧ ¬ UserByte m (charAt str n) := by
  obtain ⟨n, hup, hstop⟩ := exists_stop m str
  refine ⟨n, hup, fun hbyte => h ⟨n, hup, hbyte, ?_⟩⟩
  exact hstop.resolve_left (not_not_intro hbyte)

theorem scanString_skip {n : Nat} (h : StringUpTo m str n) : scanString m str =
    ⟨(List.range n).flatMap (fun i => [.read (charAt str i), .accepted (charAt str i)]) ++
      (scanString m (charAt str n)).log, (scanString m (charAt str n)).returned⟩ := by
  induction n with
  | zero => rw [charAt_zero]; rfl
  | succ n ih =>
    obtain ⟨hbyte, hnz⟩ := h n n.lt_succ_self
    rw [ih fun i hi => h i (Nat.lt_succ_of_lt hi), scanString_next hbyte hnz, ← charAt_succ,
      List.range_succ, List.flatMap_append, List.append_assoc]
    rfl

/-! ## `check_valid_string` -/

theorem checkValidString_of_userByte (h : UserByte m str) : checkValidString m str =
    ⟨.accepted str :: (scanString m str).log, (scanString m str).returned⟩ := by
  rw [checkValidString, checkChar_of_userByte h, Scan.andThen_of_ok rfl]
  rfl

theorem checkValidString_of_exit (h : ¬ UserByte m str) : checkValidString m str = ⟨[], false⟩ := by
  rw [checkValidString, checkChar_of_not_userByte h, Scan.andThen_of_exit rfl]

/-- **検査に通した address だけを、その後で読む。** -/
def Ordered (log : List Access) : Prop :=
  ∀ before b after, log = before ++ .read b :: after → .accepted b ∈ before

/--
**戻るのは文字列の全体を読んでよいときだけである。**
そうでなければ、読んでよい byte だけを読んで `exit (-1)` で終わる。
-/
def Scan.Exact (m : AddressSpace) (str : Addr) (x : Scan) : Prop :=
  (x.returned = true ↔ IsString m str) ∧
  (¬ IsString m str → ∀ b, .read b ∈ x.log → UserByte m b)

theorem checkValidString_exact_iff :
    (checkValidString m str).Exact m str ↔ IsString m str ∨ ¬ UserByte m str := by
  constructor
  · rintro ⟨-, hreads⟩
    refine Classical.or_iff_not_imp_left.mpr fun hs hfirst => ?_
    -- 先頭を読んでよければ、止まった先の byte を読んでしまう
    obtain ⟨n, hup, hn⟩ := exists_bad_of_not_isString hs
    refine hn (hreads hs _ ?_)
    rw [checkValidString_of_userByte hfirst, scanString_skip hup]
    exact List.mem_cons_of_mem _ (List.mem_append_right _ (read_mem_scanString ..))
  · rintro (hs | hbad)
    · refine ⟨iff_of_true ?_ hs, fun hns => absurd hs hns⟩
      obtain ⟨n, hup, hn, hz⟩ := id hs
      rw [checkValidString_of_userByte hs.first, scanString_skip hup, scanString_nul hn hz]
    · rw [checkValidString_of_exit hbad]
      refine ⟨iff_of_false ?_ fun hs => hbad hs.first, fun _ a ha => ?_⟩
      · intro h
        cases h
      · cases ha

/--
**`check_valid_string` は、空でない文字列の二番目の文字を、調べる前に読む。**

* 調べた address だけを読むのは、先頭が NUL か、先頭を読んではいけないときに限る
* 順序を問わなければ、文字列の全体を読んでよいか、先頭を読んではいけないときに限る
-/
theorem checkValidString_safe_iff (m : AddressSpace) (str : Addr) :
    (Ordered (checkValidString m str).log ∧ (checkValidString m str).Exact m str ↔
      UserByte m str ∧ m.byte str = 0 ∨ ¬ UserByte m str) ∧
    ((checkValidString m str).Exact m str ↔ IsString m str ∨ ¬ UserByte m str) := by
  refine ⟨⟨?_, ?_⟩, checkValidString_exact_iff⟩
  · rintro ⟨hord, hexact⟩
    rcases checkValidString_exact_iff.mp hexact with hs | hbad
    · refine .inl ⟨hs.first, not_not.mp fun hnz => ?_⟩
      -- 二番目の文字の読み出しより前には、先頭の検査しか無い
      obtain ⟨rest, hrest⟩ := scanString_log m (str + 1)
      have hlog : (checkValidString m str).log =
          [.accepted str, .read str, .accepted str] ++ .read (str + 1) :: rest := by
        rw [checkValidString_of_userByte hs.first, scanString_next hs.first hnz, hrest]
        rfl
      have hmem := hord _ _ _ hlog
      simp at hmem
    · exact .inr hbad
  · rintro (⟨hfirst, hz⟩ | hbad)
    · have hs : IsString m str := ⟨0, nofun, by rwa [charAt_zero], by rwa [charAt_zero]⟩
      refine ⟨?_, checkValidString_exact_iff.mpr (.inl hs)⟩
      rw [checkValidString_of_userByte hfirst, scanString_nul hfirst hz]
      intro before b after heq
      rcases before with _ | ⟨x, _ | ⟨y, before⟩⟩
      · cases heq
      · cases heq
        exact List.mem_cons_self ..
      · simp at heq
    · refine ⟨?_, checkValidString_exact_iff.mpr (.inr hbad)⟩
      rw [checkValidString_of_exit hbad]
      intro before b after heq
      simp at heq

/--
**調べていない文字を読む。**

* 文字が page の最後の byte にあり、次の page が無いと、無い page を読む
* 一つの page に収まる一文字の文字列でも、NUL は調べずに読む
-/
theorem exists_unchecked_char : IsString (onePage 0x08048000 97) 0x08048000 ∧
    ¬ Ordered (checkValidString (onePage 0x08048000 97) 0x08048000).log ∧
    .read 0x08049000 ∈ (checkValidString (onePage 0x08048fff 97) 0x08048fff).log ∧
    ¬ UserByte (onePage 0x08048fff 97) 0x08049000 := by
  have hfirst : UserByte (onePage 0x08048000 97) 0x08048000 := by decide
  have hlast : UserByte (onePage 0x08048fff 97) 0x08048fff := by decide
  refine ⟨⟨1, fun i hi => ?_, by decide, by decide⟩, fun hord => ?_, ?_, by decide⟩
  · obtain rfl : i = 0 := by omega
    decide
  · obtain ⟨rest, hrest⟩ := scanString_log (onePage 0x08048000 97) (0x08048000 + 1)
    refine absurd (hord [.accepted 0x08048000, .read 0x08048000, .accepted 0x08048000] 0x08048001
      rest ?_) (by decide)
    rw [checkValidString_of_userByte hfirst, scanString_next hfirst (by decide), hrest]
    rfl
  · rw [checkValidString_of_userByte hlast, scanString_next hlast (by decide)]
    exact List.mem_cons_of_mem _ (List.mem_append_right _ (read_mem_scanString ..))

end Pintos.Userprog
