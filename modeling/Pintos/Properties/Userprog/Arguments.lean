import Pintos.Userprog.Arguments

/-!
# command line の受け渡し

`setup_user_stack` が stack に残すものと、途中の配列への書き込みが収まる条件。

## stack

積むたびに `esp` から `PHYS_BASE` までが一つの byte の列になる（`Holds`）。積む操作は
その列の前に新しい byte を付けるので（`push_holds`）、全体の列は積んだ順の逆に並ぶ。

## 配列

写す長さは入力から決まり、配列の大きさからではない。`first_word` と
`full_file_name_copy_2` に収まらない command line も断られない。`argv` の 128 個は、
256 文字に収まる command line では溢れない。
-/

namespace Pintos.Loader

open Infra

/-! ## 配列への書き込み -/

def Write.Inside (w : Write) : Prop := w.index < w.size

/-- 途中の配列のどれにも収まる。 -/
def Fits (cmd : List UInt8) : Prop :=
  strcspn cmd space < 20 ∧ cmd.length < 256 ∧ (wordsOf space cmd).length ≤ 128

/-- 割り当ての成否によらず、書き込みは配列の中であり、収まらない command line は断られる。 -/
def WritesInside (cmd : CString) : Prop :=
  ∀ out, (∀ w ∈ (processExecute out cmd.val).writes, w.Inside) ∧
    (¬Fits cmd.val → (processExecute out cmd.val).started = false)

theorem strlcpyWrites_inside {buffer : Buffer} {size n : Nat} {src : List UInt8} :
    (∀ w ∈ strlcpyWrites buffer size src (n + 1), w.Inside) ↔ min src.length n < size := by
  simp only [strlcpyWrites, strlcpyIndices, Nat.succ_pos, if_true, Nat.add_sub_cancel,
    List.mem_map, List.mem_range, Write.Inside, forall_exists_index, and_imp]
  constructor
  · intro h
    exact h _ _ (Nat.lt_succ_self _) rfl
  · rintro h w i hi rfl
    simp only
    omega

theorem length_argv_le (cmd : CString) :
    2 * (tokenizeIn space (cmd.val ++ [0]) 0).argv.length ≤ cmd.val.length + 1 := by
  have hwords := congrArg List.length (tokenizeIn_words space cmd [])
  rw [List.length_map] at hwords
  rw [hwords]
  exact two_mul_length_wordsOf_le ..

variable {cmd : CString}

/-- 256 byte に収まる command line では、`argv` も溢れない。 -/
theorem setupUserStackWrites_inside (out : Outcomes) (h : cmd.val.length < 256) :
    ∀ w ∈ setupUserStackWrites out cmd.val, w.Inside := by
  have hargc := length_argv_le cmd
  intro w hw
  simp only [setupUserStackWrites, List.mem_append, List.mem_map] at hw
  rcases hw with (⟨i, hi, rfl⟩ | ⟨i, hi, rfl⟩) | ⟨i, hi, rfl⟩
  · have hcut := tokenizeIn_cuts_lt hi
    rw [List.length_append, List.length_singleton] at hcut
    exact Nat.lt_of_lt_of_le hcut h
  · have hlt := List.mem_range.mp hi
    exact show i < 128 by omega
  · have hlt := List.mem_range.mp (List.mem_reverse.mp (List.mem_of_mem_take hi))
    exact show i < 128 by omega

theorem strlcpyWrites_length_inside (buffer : Buffer) (src : List UInt8) :
    ∀ w ∈ strlcpyWrites buffer (src.length + 1) src (src.length + 1), w.Inside :=
  strlcpyWrites_inside.mpr (by omega)

theorem load_inside (out : Outcomes) (h : cmd.val.length < 256) :
    ∀ w ∈ (load out cmd.val).writes, w.Inside := by
  unfold load
  split
  · simp
  split
  · simp
  extract_lets strlen first copies
  have hcut : ∀ w ∈ first.cut.toList.map (Write.mk .fullFileNameCopy (strlen + 1) ·),
      w.Inside := by
    intro w hw
    obtain ⟨i, hi, rfl⟩ := List.mem_map.mp hw
    simpa [Write.Inside] using strtokRIn_cut_lt (Option.mem_toList.mp hi)
  have hcopies : ∀ w ∈ copies, w.Inside :=
    List.forall_mem_append.mpr ⟨List.forall_mem_append.mpr
      ⟨strlcpyWrites_length_inside _ _, strlcpyWrites_inside.mpr (by omega)⟩, hcut⟩
  split
  · exact hcopies
  split
  · exact hcopies
  extract_lets name named
  have hnamed : ∀ w ∈ named, w.Inside :=
    List.forall_mem_append.mpr ⟨hcopies, strlcpyWrites_length_inside _ _⟩
  split
  · exact List.forall_mem_append.mpr ⟨hnamed, setupUserStackWrites_inside out h⟩
  · exact hnamed

/-- 最初の語が 19 文字まで、全体が 255 文字までなら、どの書き込みも配列の中である。 -/
theorem processExecute_inside (out : Outcomes) (hword : strcspn cmd.val space < 20)
    (hlen : cmd.val.length < 256) : ∀ w ∈ (processExecute out cmd.val).writes, w.Inside := by
  have hpage : cmd.val.take (pgSize - 1) = cmd.val :=
    List.take_of_length_le (by simp only [pgSize]; omega)
  unfold processExecute
  split
  · simp
  extract_lets firstWordLength copies loaded
  have hcopies : ∀ w ∈ copies, w.Inside :=
    List.forall_mem_append.mpr ⟨strlcpyWrites_inside.mpr (by simp only [pgSize]; omega),
      strlcpyWrites_inside.mpr (by omega)⟩
  have hloaded : ∀ w ∈ loaded.writes, w.Inside := by
    simpa only [loaded, hpage] using load_inside out hlen
  split
  · exact hcopies
  · exact List.forall_mem_append.mpr
      ⟨List.forall_mem_append.mpr ⟨hcopies, strlcpyWrites_inside.mpr (by omega)⟩, hloaded⟩

def Outcomes.good : Outcomes := ⟨true, true, true, true, true, true, true, true, 128, true⟩

theorem firstWord_lt_of_writesInside (h : WritesInside cmd) : strcspn cmd.val space < 20 := by
  have hmin := strlcpyWrites_inside.mp fun w hw =>
    (h .good).1 w (List.mem_append_left _ (List.mem_append_left _ (List.mem_append_right _ hw)))
  have hle : strcspn cmd.val space ≤ cmd.val.length := (List.takeWhile_prefix _).length_le
  omega

theorem mem_load_of_mem_copy {fileName : List UInt8} {w : Write}
    (hw : w ∈ strlcpyWrites .fullFileNameCopy2 256 fileName (fileName.length + 1)) :
    w ∈ (load .good fileName).writes := by
  simp only [load, Outcomes.good, Bool.not_true, Bool.false_eq_true, if_false, Bool.and_self,
    if_true]
  split <;> simp [hw]

theorem length_lt_of_writesInside (h : WritesInside cmd) : cmd.val.length < 256 := by
  have hmin := strlcpyWrites_inside.mp fun w hw =>
    (h .good).1 w (List.mem_append_right _ (mem_load_of_mem_copy hw))
  rw [List.length_take] at hmin
  simp only [pgSize] at hmin
  omega

/-- **途中の書き込みが配列に収まり、収まらない command line が断られるのは、最初の語が
19 文字まで、全体が 255 文字までのとき、そのときに限る。** -/
theorem writesInside_iff (cmd : CString) :
    WritesInside cmd ↔ strcspn cmd.val space < 20 ∧ cmd.val.length < 256 := by
  constructor
  · exact fun h => ⟨firstWord_lt_of_writesInside h, length_lt_of_writesInside h⟩
  · rintro ⟨hword, hlen⟩ out
    have hargc := two_mul_length_wordsOf_le space cmd.val
    exact ⟨processExecute_inside out hword hlen, fun hnot => absurd ⟨hword, hlen, by omega⟩ hnot⟩

/-- 20 文字の program 名の写しは、`first_word` の外に NUL を書く。 -/
theorem exists_write_outside :
    ∃ cmd : CString, cmd.val.length < pgSize ∧
      ⟨.firstWord, 20, 20⟩ ∈ (processExecute .good cmd.val).writes ∧ ¬WritesInside cmd := by
  refine ⟨⟨List.replicate 20 0x61, by decide⟩, by decide, ?_, fun h => ?_⟩
  · exact List.mem_append_left _ (List.mem_append_left _ (by decide))
  · exact absurd (firstWord_lt_of_writesInside h) (by decide)

/-! ## stack -/

/-- `esp` から `PHYS_BASE` までに `bytes` が並ぶ。 -/
structure Holds (stack : UserStack) (bytes : List UInt8) : Prop where
  top : stack.esp + bytes.length = physBase
  bytesAt : BytesAt stack.mem stack.esp bytes

def totalLen (words : List (List UInt8)) : Nat := (words.map (·.length + 1)).sum

def addresses : List (List UInt8) → List Nat
  | [] => []
  | word :: words => (physBase - totalLen (word :: words)) :: addresses words

def padding (n : Nat) : Nat := (4 - n % 4) % 4

def strings (words : List (List UInt8)) : List UInt8 := words.flatMap (· ++ [0])

@[simp] theorem totalLen_cons (word : List UInt8) (words : List (List UInt8)) :
    totalLen (word :: words) = word.length + 1 + totalLen words := rfl

@[simp] theorem length_strings (words : List (List UInt8)) :
    (strings words).length = totalLen words := by
  induction words with
  | nil => rfl
  | cons word words ih =>
    rw [totalLen_cons, ← ih, strings, List.flatMap_cons, List.length_append, List.length_append]
    rfl

@[simp] theorem length_addresses (words : List (List UInt8)) :
    (addresses words).length = words.length := by
  induction words with
  | nil => rfl
  | cons word words ih => rw [addresses, List.length_cons, ih, List.length_cons]

theorem length_flatMap_le32 (ns : List Nat) : (ns.flatMap le32).length = 4 * ns.length := by
  induction ns with
  | nil => rfl
  | cons n ns ih =>
    rw [List.flatMap_cons, List.length_append, ih, length_le32, List.length_cons]
    omega

section

variable {pagedirGetPage : Nat → Option Nat} {stack : UserStack} {bytes : List UInt8}
  (hpage : ∀ va, physBase - pgSize ≤ va → va < physBase → (pagedirGetPage va).isSome)

include hpage

/-- stack page に収まる間は、積む操作は成功し、列の前に付け加わる。 -/
theorem push_holds (size : Nat) (value : Nat → List UInt8) (h : Holds stack bytes)
    (hpos : 0 < size) (hvalue : ∀ esp, (value esp).length = size)
    (hfit : size + bytes.length ≤ pgSize) :
    ∃ stack', push pagedirGetPage size value stack = some stack' ∧
      Holds stack' (value (stack.esp - size) ++ bytes) := by
  have htop := h.top
  simp only [physBase, pgSize] at htop hfit hpage
  have hesp : sub32 stack.esp size = stack.esp - size := by
    simp only [sub32]
    omega
  have hvalid : isValidStackPointer pagedirGetPage (stack.esp - size) = true := by
    have hlt : stack.esp - size < physBase := by simp only [physBase]; omega
    have hsome := hpage (stack.esp - size) (by omega) (by omega)
    simp [isValidStackPointer, isUserVaddr, hlt, hsome]
  refine ⟨⟨store stack.mem (stack.esp - size) (value (stack.esp - size)), stack.esp - size⟩,
    ?_, ?_, ?_⟩
  · simp only [push, hesp, hvalid, if_true]
  · simp only [List.length_append, hvalue, physBase]
    omega
  · have hnext : stack.esp - size + (value (stack.esp - size)).length = stack.esp := by
      rw [hvalue]
      omega
    rw [bytesAt_append, hnext]
    exact ⟨bytesAt_store, h.bytesAt.store (.inl (Nat.le_of_eq hnext))⟩

theorem pushStrings_holds (words : List (List UInt8)) (h : Holds stack [])
    (hfit : totalLen words ≤ pgSize) :
    ∃ r, pushStrings pagedirGetPage words stack = some r ∧ r.totalLen = totalLen words ∧
      r.argv = addresses words ∧ Holds r.stack (strings words) := by
  induction words with
  | nil => exact ⟨⟨stack, [], 0⟩, rfl, rfl, rfl, h⟩
  | cons word words ih =>
    rw [totalLen_cons] at hfit
    obtain ⟨rest, hrest, htotal, hargv, hholds⟩ := ih (by omega)
    obtain ⟨stack', hpush, hstack⟩ := push_holds hpage (word.length + 1)
      (fun _ => word ++ [0]) hholds (Nat.succ_pos _) (fun _ => by simp)
      (by rw [length_strings]; omega)
    have htop := hstack.top
    rw [List.length_append, length_strings, List.length_append, List.length_singleton] at htop
    refine ⟨⟨stack', stack'.esp :: rest.argv, rest.totalLen + (word.length + 1)⟩, ?_, ?_, ?_,
      hstack⟩
    · rw [pushStrings]
      exact Option.bind_eq_some_iff.mpr ⟨rest, hrest, Option.bind_eq_some_iff.mpr
        ⟨stack', hpush, rfl⟩⟩
    · rw [totalLen_cons, htotal, Nat.add_comm]
    · rw [addresses, hargv, totalLen_cons, show stack'.esp
        = physBase - (word.length + 1 + totalLen words) by omega]

theorem pushPadding_holds (h : Holds stack bytes) (n : Nat)
    (hfit : padding n + bytes.length ≤ pgSize) :
    ∃ stack', pushPadding pagedirGetPage n stack = some stack' ∧
      Holds stack' (List.replicate (padding n) 0 ++ bytes) := by
  unfold pushPadding
  by_cases hrem : n % 4 = 0
  · have hzero : padding n = 0 := by simp only [padding]; omega
    rw [hzero]
    exact ⟨stack, by simp [hrem], h⟩
  · have hsize : padding n = 4 - n % 4 := by simp only [padding]; omega
    rw [hsize] at hfit ⊢
    simp only [if_pos hrem]
    exact push_holds hpage _ _ h (by omega) (fun _ => List.length_replicate) hfit

theorem pushAddresses_holds (ns : List Nat) (h : Holds stack bytes)
    (hfit : 4 * ns.length + bytes.length ≤ pgSize) :
    ∃ stack', pushAddresses pagedirGetPage ns stack = some stack' ∧
      Holds stack' (ns.flatMap le32 ++ bytes) := by
  induction ns with
  | nil => exact ⟨stack, rfl, h⟩
  | cons n ns ih =>
    rw [List.length_cons] at hfit
    obtain ⟨rest, hrest, hholds⟩ := ih (by omega)
    obtain ⟨stack', hpush, hstack⟩ := push_holds hpage 4 (fun _ => le32 n) hholds (by decide)
      (fun _ => rfl)
      (by rw [List.length_append, length_flatMap_le32]; omega)
    refine ⟨stack', ?_, ?_⟩
    · rw [pushAddresses]
      exact Option.bind_eq_some_iff.mpr ⟨rest, hrest, hpush⟩
    · rw [List.flatMap_cons, List.append_assoc]
      exact hstack

/-- 語を積み終えた stack の中身。`esp` から `PHYS_BASE` へ向かって並べる。 -/
def frame (words : List (List UInt8)) (argv : Nat) : List UInt8 :=
  le32 0 ++ (le32 words.length ++ (le32 argv ++ ((addresses words).flatMap le32 ++ (le32 0 ++
    (List.replicate (padding (totalLen words)) 0 ++ strings words)))))

omit hpage in
theorem length_frame (words : List (List UInt8)) (argv : Nat) :
    (frame words argv).length
      = 16 + 4 * words.length + padding (totalLen words) + totalLen words := by
  simp only [frame, List.length_append, length_le32, length_flatMap_le32, length_addresses,
    List.length_replicate, length_strings]
  omega

/-- **stack page が写像されていれば、積む操作はどれも成功し、stack の中身は `frame` である。** -/
theorem setupUserStack_holds (cmd : CString) (post : List UInt8) (mem : Nat → UInt8)
    (hfit : 16 + 4 * (wordsOf space cmd.val).length + padding (totalLen (wordsOf space cmd.val))
      + totalLen (wordsOf space cmd.val) ≤ pgSize) :
    ∃ stack, setupUserStack pagedirGetPage (cmd.val ++ 0 :: post) ⟨mem, physBase⟩ = some stack ∧
      Holds stack (frame (wordsOf space cmd.val) (stack.esp + 12)) := by
  have hwords := tokenizeIn_words space cmd post
  have hargc := congrArg List.length hwords
  rw [List.length_map] at hargc
  generalize wordsOf space cmd.val = words at hwords hargc hfit ⊢
  have hempty : Holds ⟨mem, physBase⟩ [] := ⟨rfl, bytesAt_nil⟩
  obtain ⟨r, hr, htotal, hargv, hstrings⟩ := pushStrings_holds hpage words hempty (by omega)
  obtain ⟨s₁, h₁, hs₁⟩ := pushPadding_holds hpage hstrings (totalLen words)
    (by rw [length_strings]; omega)
  obtain ⟨s₂, h₂, hs₂⟩ := push_holds hpage 4 (fun _ => le32 0) hs₁ (by decide) (fun _ => rfl)
    (by rw [List.length_append, List.length_replicate, length_strings]; omega)
  obtain ⟨s₃, h₃, hs₃⟩ := pushAddresses_holds hpage (addresses words) hs₂
    (by simp only [List.length_append, List.length_replicate, length_strings, length_addresses,
          length_le32]; omega)
  have hlen : ((addresses words).flatMap le32 ++ (le32 0 ++
      (List.replicate (padding (totalLen words)) 0 ++ strings words))).length
      = 4 * words.length + 4 + padding (totalLen words) + totalLen words := by
    simp only [List.length_append, length_le32, length_flatMap_le32, length_addresses,
      List.length_replicate, length_strings]
    omega
  obtain ⟨s₄, h₄, hs₄⟩ := push_holds hpage 4 (fun esp => le32 (esp + 4)) hs₃ (by decide)
    (fun _ => rfl) (by rw [hlen]; omega)
  obtain ⟨s₅, h₅, hs₅⟩ := push_holds hpage 4 (fun _ => le32 words.length) hs₄ (by decide)
    (fun _ => rfl) (by rw [List.length_append, hlen, length_le32]; omega)
  obtain ⟨s₆, h₆, hs₆⟩ := push_holds hpage 4 (fun _ => le32 0) hs₅ (by decide)
    (fun _ => rfl) (by simp only [List.length_append, length_le32] at hlen ⊢; omega)
  refine ⟨s₆, ?_, ?_⟩
  · rw [← htotal] at h₁
    rw [← hargv] at h₃
    rw [setupUserStack]
    simp only [hwords, hargc]
    exact Option.bind_eq_some_iff.mpr ⟨r, hr, Option.bind_eq_some_iff.mpr ⟨s₁, h₁,
      Option.bind_eq_some_iff.mpr ⟨s₂, h₂, Option.bind_eq_some_iff.mpr ⟨s₃, h₃,
      Option.bind_eq_some_iff.mpr ⟨s₄, h₄, Option.bind_eq_some_iff.mpr ⟨s₅, h₅, h₆⟩⟩⟩⟩⟩⟩
  · have hesp : s₃.esp - 4 + 4 = s₆.esp + 12 := by
      have htop₃ := hs₃.top
      have htop₆ := hs₆.top
      simp only [List.length_append, length_le32] at hlen htop₃ htop₆
      omega
    simpa only [frame, hesp] using hs₆

end

/-! ## stack から読む値 -/

section

variable {words : List (List UInt8)} {word : List UInt8} {i j : Nat}

theorem totalLen_drop (hi : words[i]? = some word) :
    totalLen (words.drop i) = word.length + 1 + totalLen (words.drop (i + 1)) := by
  obtain ⟨hlt, rfl⟩ := List.getElem?_eq_some_iff.mp hi
  rw [List.drop_eq_getElem_cons hlt, totalLen_cons]

theorem totalLen_drop_le (words : List (List UInt8)) (n : Nat) :
    totalLen (words.drop n) ≤ totalLen words := by
  induction words generalizing n with
  | nil => simp
  | cons word words ih =>
    cases n with
    | zero => exact Nat.le_refl _
    | succ n => exact Nat.le_trans (ih n) (Nat.le_add_left ..)

theorem getElem?_addresses (hi : words[i]? = some word) :
    (addresses words)[i]? = some (physBase - totalLen (words.drop i)) := by
  induction words generalizing i with
  | nil => simp at hi
  | cons w words ih =>
    cases i with
    | zero => rfl
    | succ i => exact ih hi

theorem bytesAt_of_strings {mem : Nat → UInt8} (hle : totalLen words ≤ physBase)
    (h : BytesAt mem (physBase - totalLen words) (strings words)) (hi : words[i]? = some word) :
    BytesAt mem (physBase - totalLen (words.drop i)) (word ++ [0]) := by
  induction words generalizing i with
  | nil => simp at hi
  | cons w words ih =>
    rw [strings, List.flatMap_cons, bytesAt_append] at h
    rw [totalLen_cons] at hle
    cases i with
    | zero =>
      obtain rfl := Option.some.inj hi
      exact h.1
    | succ i =>
      have hnext : physBase - totalLen (w :: words) + (w ++ [0]).length
          = physBase - totalLen words := by
        rw [totalLen_cons, List.length_append, List.length_singleton]
        omega
      exact ih (by omega) (hnext ▸ h.2) hi

end

/-- 始まった process の stack に、語の列 `words` が渡っている。 -/
structure ArgumentsPassed (words : List (List UInt8)) (stack : UserStack) : Prop where
  aligned : stack.esp % 4 = 0
  inPage : physBase - pgSize ≤ stack.esp ∧ stack.esp < physBase
  returnAddress : loadWord stack.mem stack.esp = 0
  argc : loadWord stack.mem (stack.esp + 4) = words.length
  /-- `argv` の各要素は、語の NUL で終わる写しを指す。 -/
  argv : ∀ i word, words[i]? = some word →
    BytesAt stack.mem (loadWord stack.mem (loadWord stack.mem (stack.esp + 8) + 4 * i))
      (word ++ [0])
  sentinel : loadWord stack.mem (loadWord stack.mem (stack.esp + 8) + 4 * words.length) = 0
  noNul : ∀ word ∈ words, 0 ∉ word
  /-- pointer の並び、padding、文字列の写しは、この順に並んで重ならない。 -/
  layout : ∃ pad start, loadWord stack.mem (stack.esp + 8) = stack.esp + 12 ∧
    pad = stack.esp + 12 + 4 * (words.length + 1) ∧ pad ≤ start ∧ start < pad + 4 ∧
    BytesAt stack.mem pad (List.replicate (start - pad) 0) ∧
    (∀ i word, words[i]? = some word →
      start ≤ loadWord stack.mem (stack.esp + 12 + 4 * i) ∧
      loadWord stack.mem (stack.esp + 12 + 4 * i) + (word.length + 1) ≤ physBase) ∧
    ∀ i j word word', i < j → words[i]? = some word → words[j]? = some word' →
      loadWord stack.mem (stack.esp + 12 + 4 * i) + (word.length + 1)
        ≤ loadWord stack.mem (stack.esp + 12 + 4 * j)

theorem Holds.argumentsPassed {words : List (List UInt8)} {stack : UserStack}
    (h : Holds stack (frame words (stack.esp + 12))) (hnul : ∀ word ∈ words, 0 ∉ word)
    (hfit : (frame words (stack.esp + 12)).length ≤ pgSize) : ArgumentsPassed words stack := by
  obtain ⟨htop, hbytes⟩ := h
  rw [length_frame] at htop hfit
  simp only [frame, bytesAt_append, length_le32, length_flatMap_le32, length_addresses,
    List.length_replicate] at hbytes
  obtain ⟨hret, hargc, hargv, haddrs, hsentinel, hpad, hstrings⟩ := hbytes
  simp only [physBase, pgSize] at htop hfit
  have hpadding : (padding (totalLen words) + totalLen words) % 4 = 0 ∧
      padding (totalLen words) < 4 := by
    simp only [padding]
    omega
  have hvector := loadWord_of_bytesAt hargv (by omega)
  have hentry : ∀ i word, words[i]? = some word → loadWord stack.mem (stack.esp + 12 + 4 * i)
      = physBase - totalLen (words.drop i) := fun i word hi =>
    loadWord_of_bytesAt_flatMap haddrs (getElem?_addresses hi)
      (Nat.lt_of_le_of_lt (Nat.sub_le ..) (by decide))
  have hstart : stack.esp + 4 + 4 + 4 + 4 * words.length + 4 + padding (totalLen words)
      = physBase - totalLen words := by
    simp only [physBase]
    omega
  rw [hstart] at hstrings
  have htotal : totalLen words ≤ physBase := by
    simp only [physBase]
    omega
  have hdrop : ∀ i, totalLen (words.drop i) ≤ totalLen words := totalLen_drop_le words
  refine ⟨by omega, by simp only [physBase, pgSize]; omega, loadWord_of_bytesAt hret (by decide),
    loadWord_of_bytesAt hargc (by omega), ?_, ?_, hnul, ?_⟩
  · intro i word hi
    rw [hvector, hentry i word hi]
    exact bytesAt_of_strings htotal hstrings hi
  · rw [hvector]
    exact loadWord_of_bytesAt hsentinel (by decide)
  · refine ⟨stack.esp + 12 + 4 * (words.length + 1), physBase - totalLen words, hvector, rfl,
      by omega, by omega, ?_, ?_, ?_⟩
    · have hlen : physBase - totalLen words - (stack.esp + 12 + 4 * (words.length + 1))
          = padding (totalLen words) := by omega
      rw [hlen]
      exact hpad
    · intro i word hi
      have hle := hdrop i
      have hword := totalLen_drop hi
      rw [hentry i word hi]
      omega
    · intro i j word word' hij hi hj
      -- `j` 番目から後の語は、`i + 1` 番目から後の語に含まれる。
      have hword := totalLen_drop hi
      have hle := hdrop i
      have htail : totalLen (words.drop j) ≤ totalLen (words.drop (i + 1)) := by
        have hsub := totalLen_drop_le (words.drop (i + 1)) (j - (i + 1))
        rwa [List.drop_drop, show i + 1 + (j - (i + 1)) = j by omega] at hsub
      rw [hentry i word hi, hentry j word' hj]
      omega

/--
**引数の受け渡し。**

255 文字までの command line なら、stack page が写像されている限り `setup_user_stack` は
`thread_exit` せず、stack には極大な語の列が渡る。`post` は配列の NUL より後である。
-/
theorem setupUserStack_passes_arguments (pagedirGetPage : Nat → Option Nat)
    (hpage : ∀ va, physBase - pgSize ≤ va → va < physBase → (pagedirGetPage va).isSome)
    (cmd : CString) (hlen : cmd.val.length < 256) (post : List UInt8) (mem : Nat → UInt8) :
    ∃ stack, setupUserStack pagedirGetPage (cmd.val ++ 0 :: post) ⟨mem, physBase⟩ = some stack ∧
      ArgumentsPassed (wordsOf space cmd.val) stack := by
  have hargc := two_mul_length_wordsOf_le space cmd.val
  have htotal : totalLen (wordsOf space cmd.val) ≤ cmd.val.length + 1 := sum_wordsOf_le ..
  have hfit : 16 + 4 * (wordsOf space cmd.val).length + padding (totalLen (wordsOf space cmd.val))
      + totalLen (wordsOf space cmd.val) ≤ pgSize := by
    simp only [padding, pgSize]
    omega
  obtain ⟨stack, hstack, hholds⟩ := setupUserStack_holds hpage cmd post mem hfit
  exact ⟨stack, hstack, hholds.argumentsPassed
    (fun word hword hnul => cmd.property (subset_of_mem_wordsOf hword hnul))
    (by rw [length_frame]; exact hfit)⟩

/-- `"a  bc"` では、二つの語が渡る。 -/
theorem setupUserStack_passes_arguments_two :
    ∃ stack, setupUserStack some [0x61, 0x20, 0x20, 0x62, 0x63, 0] ⟨fun _ => 0, physBase⟩
        = some stack ∧ ArgumentsPassed [[0x61], [0x62, 0x63]] stack :=
  setupUserStack_passes_arguments some (fun _ _ _ => rfl)
    ⟨[0x61, 0x20, 0x20, 0x62, 0x63], by decide⟩ (by decide) [] (fun _ => 0)

end Pintos.Loader
