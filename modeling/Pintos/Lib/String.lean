import Mathlib.Algebra.GroupWithZero.Nat
import Mathlib.Data.List.TakeWhile
import Pintos.Infra.Int32

/-!
# 文字列（`lib/string.c` と `lib/stdlib.c`）

C の文字列は、終わりの NUL を除いた文字の列で表す。`NULL` の pointer は `none` である。

`strtok_r` は元の文字列を書き換えて token を区切る。`strtokR` は区切った後の token と
`save_ptr` から先の残りだけを返す形で、`strtokRIn` は文字列の置かれた buffer と添え字の形である。
-/

namespace Pintos

open Infra

/-- C の文字列。終わりの NUL は含まない。 -/
def CString := { s : List UInt8 // (0 : UInt8) ∉ s }

/-- NUL の手前まで。 -/
def cstr (bytes : List UInt8) : List UInt8 := bytes.takeWhile (· ≠ 0)

variable {α : Type} [DecidableEq α]

/-- `strtok_r`。token と、`save_ptr` から先の残りを返す。 -/
def strtokR (delimiters s : List α) : Option (List α) × List α :=
  match s.dropWhile (· ∈ delimiters) with
  | [] => (none, [])
  | c :: rest =>
    (some ((c :: rest).takeWhile (· ∉ delimiters)),
      ((c :: rest).dropWhile (· ∉ delimiters)).tail)

/-- 飛ばす区切り文字と、最初の語と、その後に分けた文字列。 -/
structure Splits (delimiters s skip token tail : List α) : Prop where
  eq : s = skip ++ (token ++ tail)
  skip : ∀ c ∈ skip, c ∈ delimiters
  ne_nil : token ≠ []
  token : ∀ c ∈ token, c ∉ delimiters
  tail : ∀ c ∈ tail.head?, c ∈ delimiters

variable {delimiters s token rest : List α}

theorem strtokR_some (h : strtokR delimiters s = (some token, rest)) :
    ∃ skip tail, Splits delimiters s skip token tail ∧ rest = tail.tail := by
  unfold strtokR at h
  split at h
  · cases h
  · next c cs hs =>
    obtain ⟨ht, rfl⟩ := Prod.mk.inj h
    obtain rfl := Option.some.inj ht
    have hc : c ∉ delimiters := by
      have hhead := List.head?_dropWhile_not (· ∈ delimiters) s
      rw [hs] at hhead
      simpa using hhead
    refine ⟨s.takeWhile (· ∈ delimiters), _, ⟨?_, ?_, ?_, ?_, ?_⟩, rfl⟩
    · rw [List.takeWhile_append_dropWhile, ← hs, List.takeWhile_append_dropWhile]
    · intro x hx
      simpa using List.mem_takeWhile_imp hx
    · simp [hc]
    · intro x hx
      simpa using List.mem_takeWhile_imp hx
    · intro x hx
      have hhead := List.head?_dropWhile_not (· ∉ delimiters) (c :: cs)
      rw [Option.mem_def.mp hx] at hhead
      simpa using hhead

theorem strtokR_none {delimiters s rest : List α} (h : strtokR delimiters s = (none, rest)) :
    ∀ c ∈ s, c ∈ delimiters := by
  unfold strtokR at h
  split at h
  · next hs => simpa using hs
  · cases h

theorem strtokR_length_lt (h : strtokR delimiters s = (some token, rest))
    : rest.length < s.length := by
  obtain ⟨skip, tail, hsplit, rfl⟩ := strtokR_some h
  have hpos := List.length_pos_iff.mpr hsplit.ne_nil
  simp only [hsplit.eq, List.length_append, List.length_tail]
  omega

/-- `strtok_r` を `NULL` が返るまで繰り返して得る token。 -/
def tokenize (delimiters s : List α) : List (List α) :=
  match _h : strtokR delimiters s with
  | (none, _) => []
  | (some token, rest) => token :: tokenize delimiters rest
termination_by s.length
decreasing_by exact strtokR_length_lt _h

def strcspn (s stop : List α) : Nat := (s.takeWhile (· ∉ stop)).length

/-- `strnlen`。`string` は pointer から先の byte で、列の終わりは NUL と見なす。 -/
def strnlen : (string : List UInt8) → (maxlen : Nat) → Nat
  | _, 0 => 0
  | [], _ => 0
  | c :: string, maxlen + 1 => if c = 0 then 0 else strnlen string maxlen + 1

/-- `strlcpy (dst, src, size)` が書く `dst` の添え字。 -/
def strlcpyIndices (src : List α) (size : Nat) : List Nat :=
  if size > 0 then List.range (min src.length (size - 1) + 1) else []

/-! ## token

`strtok_r` の token は、区切り文字を含まない極大な語である。
-/

/-- 区切り文字で切った、空でない語。 -/
def wordsOf (delimiters s : List α) : List (List α) :=
  (s.splitOnP (· ∈ delimiters)).filter (· ≠ [])

variable {delimiters s : List α}

theorem wordsOf_cons_of_mem {c : α} (h : c ∈ delimiters) :
    wordsOf delimiters (c :: s) = wordsOf delimiters s := by
  simp [wordsOf, List.splitOnP_cons_eq_if_modifyHead, h]

theorem wordsOf_skip {skip : List α} (h : ∀ c ∈ skip, c ∈ delimiters) :
    wordsOf delimiters (skip ++ s) = wordsOf delimiters s := by
  induction skip with
  | nil => rfl
  | cons c skip ih =>
    rw [List.cons_append, wordsOf_cons_of_mem (h c List.mem_cons_self),
      ih fun b hb => h b (List.mem_cons_of_mem _ hb)]

theorem wordsOf_word {w rest : List α} (hw : w ≠ []) (hclean : ∀ c ∈ w, c ∉ delimiters)
    (hrest : ∀ c ∈ rest.head?, c ∈ delimiters) :
    wordsOf delimiters (w ++ rest) = w :: wordsOf delimiters rest.tail := by
  have hfalse : ∀ c ∈ w, decide (c ∈ delimiters) = false := by simpa using hclean
  cases rest with
  | nil => simp [wordsOf, List.splitOnP_eq_singleton hfalse, hw]
  | cons c rest =>
    have hsep : decide (c ∈ delimiters) = true := by simpa using hrest
    simp [wordsOf, List.splitOnP_append_cons_of_forall_mem hfalse c hsep rest, hw]

variable {token rest : List α}

/-- 一つの token と残りは、空白を飛ばした先の最初の語とその後である。 -/
theorem wordsOf_of_strtokR (h : strtokR delimiters s = (some token, rest)) :
    wordsOf delimiters s = token :: wordsOf delimiters rest := by
  obtain ⟨skip, tail, hsplit, rfl⟩ := strtokR_some h
  rw [hsplit.eq, wordsOf_skip hsplit.skip, wordsOf_word hsplit.ne_nil hsplit.token hsplit.tail]

/-- **token の列は、極大な語の列である。** -/
theorem tokenize_eq (delimiters s : List α) : tokenize delimiters s = wordsOf delimiters s := by
  fun_induction tokenize delimiters s with
  | case1 s rest h =>
    have hnil := wordsOf_skip (s := []) (strtokR_none h)
    rw [List.append_nil] at hnil
    rw [hnil]
    rfl
  | case2 s token rest h ih => rw [ih, wordsOf_of_strtokR h]

theorem strtokR_subset (h : strtokR delimiters s = (some token, rest)) : token ⊆ s ∧ rest ⊆ s := by
  obtain ⟨skip, tail, hsplit, rfl⟩ := strtokR_some h
  rw [hsplit.eq]
  exact ⟨fun c hc => by simp [hc], fun c hc => by simp [List.mem_of_mem_tail hc]⟩

theorem subset_of_mem_wordsOf {w : List α} (hw : w ∈ wordsOf delimiters s) : w ⊆ s := by
  rw [← tokenize_eq] at hw
  fun_induction tokenize delimiters s with
  | case1 => cases hw
  | case2 s token rest h ih =>
    obtain ⟨htoken, hrest⟩ := strtokR_subset h
    rcases List.mem_cons.mp hw with rfl | hw
    · exact htoken
    · exact List.Subset.trans (ih hw) hrest

theorem strtokR_length_le (h : strtokR delimiters s = (some token, rest)) :
    token.length + rest.length + 1 ≤ s.length ∨ rest = [] ∧ token.length ≤ s.length := by
  obtain ⟨skip, tail, hsplit, rfl⟩ := strtokR_some h
  rw [hsplit.eq]
  cases tail with
  | nil => exact .inr ⟨rfl, by simp⟩
  | cons sep rest => exact .inl (by simp; omega)

/-- 語ごとに NUL を足しても、元の文字列と NUL より長くならない。 -/
theorem sum_wordsOf_le (delimiters s : List α) :
    ((wordsOf delimiters s).map (·.length + 1)).sum ≤ s.length + 1 := by
  rw [← tokenize_eq]
  fun_induction tokenize delimiters s with
  | case1 => exact Nat.zero_le _
  | case2 s token rest h ih =>
    rw [List.map_cons, List.sum_cons]
    rcases strtokR_length_le h with hle | ⟨rfl, hle⟩
    · omega
    · have hnil : tokenize delimiters ([] : List α) = [] := by rw [tokenize_eq]; rfl
      rw [hnil]
      simpa using hle

theorem two_mul_length_wordsOf_le (delimiters s : List α) :
    2 * (wordsOf delimiters s).length ≤ s.length + 1 := by
  refine Nat.le_trans ?_ (sum_wordsOf_le delimiters s)
  have hpos : ∀ w ∈ wordsOf delimiters s, w ≠ [] := fun w hw => by simpa using (List.mem_filter.mp hw).2
  generalize wordsOf delimiters s = words at hpos ⊢
  induction words with
  | nil => exact Nat.zero_le _
  | cons w ws ih =>
    have hw := List.length_pos_iff.mpr (hpos w (List.mem_cons_self ..))
    have hws := ih fun w hw => hpos w (List.mem_cons_of_mem _ hw)
    simp only [List.length_cons, List.map_cons, List.sum_cons]
    omega

/-! ## buffer の上の `strtok_r`

文字列は buffer の中の添え字 `s` から NUL までである。NUL は区切り文字でないとする。
-/

/-- `buf` の添え字 `s` から始まる文字列。 -/
def cStringAt (buf : List UInt8) (s : Nat) : List UInt8 := cstr (buf.drop s)

/-- `strtok_r` の結果。`cut` は NUL に書き換えた添え字である。 -/
structure Strtok where
  token : Option Nat
  save : Nat
  cut : Option Nat

/-- buffer の `s` から始まる文字列への `strtok_r`。 -/
def strtokRIn (delimiters buf : List UInt8) (s : Nat) : Strtok :=
  let token := s + ((cStringAt buf s).takeWhile (· ∈ delimiters)).length
  if buf[token]?.getD 0 = 0 then ⟨none, token, none⟩
  else
    let stop := token + strcspn (cStringAt buf token) delimiters
    if buf[stop]?.getD 0 ≠ 0 then ⟨some token, stop + 1, some stop⟩ else ⟨some token, stop, none⟩

/-- `*s = '\0'` の後の buffer。 -/
def cutAt (buf : List UInt8) : Option Nat → List UInt8
  | none => buf
  | some stop => buf.set stop 0

@[simp] theorem length_cutAt (buf : List UInt8) (cut : Option Nat) :
    (cutAt buf cut).length = buf.length := by
  cases cut <;> simp [cutAt]

variable {delimiters buf : List UInt8}

theorem strtokRIn_save_lt {s token : Nat} (h : (strtokRIn delimiters buf s).token = some token) :
    s < (strtokRIn delimiters buf s).save ∧ s < buf.length := by
  unfold strtokRIn at h ⊢
  extract_lets start stop at h
  extract_lets
  have hle : s ≤ start := Nat.le_add_right ..
  have hstop : start ≤ stop := Nat.le_add_right ..
  by_cases hnul : buf[start]?.getD 0 = 0
  · simp [hnul] at h
  · have hlt : start < buf.length := Nat.lt_of_not_le fun hge =>
      hnul (by rw [List.getElem?_eq_none hge, Option.getD_none])
    rw [if_neg hnul]
    split
    · exact ⟨by simp only; omega, by omega⟩
    · next hend =>
      -- 先頭は NUL でないので、token は空でない。
      have hne : start ≠ stop := fun he => hnul (by rw [he]; simpa using hend)
      exact ⟨by simp only; omega, by omega⟩

/-- 繰り返しの `strtok_r` の結果。書き換えた後の buffer、token の添え字、NUL を書いた添え字。 -/
structure Tokens where
  buf : List UInt8
  argv : List Nat
  cuts : List Nat

/-- `strtok_r` を `NULL` が返るまで繰り返す。 -/
def tokenizeIn (delimiters buf : List UInt8) (s : Nat) : Tokens :=
  match _h : (strtokRIn delimiters buf s).token with
  | none => ⟨buf, [], []⟩
  | some token =>
    let r := strtokRIn delimiters buf s
    let next := tokenizeIn delimiters (cutAt buf r.cut) r.save
    ⟨next.buf, token :: next.argv, r.cut.toList ++ next.cuts⟩
termination_by buf.length - s
decreasing_by
  obtain ⟨hsave, hlen⟩ := strtokRIn_save_lt _h
  rw [length_cutAt]
  omega

theorem tokenizeIn_of_none {s : Nat} (h : (strtokRIn delimiters buf s).token = none) :
    tokenizeIn delimiters buf s = ⟨buf, [], []⟩ := by
  unfold tokenizeIn
  split
  · rfl
  · next htoken => rw [h] at htoken; cases htoken

theorem tokenizeIn_of_some {s token save : Nat} {cut : Option Nat}
    (h : strtokRIn delimiters buf s = ⟨some token, save, cut⟩) : tokenizeIn delimiters buf s =
      ⟨(tokenizeIn delimiters (cutAt buf cut) save).buf,
        token :: (tokenizeIn delimiters (cutAt buf cut) save).argv,
        cut.toList ++ (tokenizeIn delimiters (cutAt buf cut) save).cuts⟩ := by
  rw [tokenizeIn]
  split
  · next htoken => rw [h] at htoken; cases htoken
  · next htoken =>
    rw [h] at htoken
    obtain rfl := Option.some.inj htoken
    simp only [h]

theorem cStringAt_append (pre post : List UInt8) {s : List UInt8} (hs : 0 ∉ s) :
    cStringAt (pre ++ (s ++ 0 :: post)) pre.length = s := by
  have hne : ∀ c ∈ s, decide (c ≠ 0) = true := fun c hc => by
    simpa using fun h : c = 0 => hs (h ▸ hc)
  rw [cStringAt, cstr, List.drop_left, List.takeWhile_append_of_pos hne]
  simp

theorem getD_append_length (pre rest : List UInt8) :
    (pre ++ rest)[pre.length]?.getD 0 = rest.head?.getD 0 := by
  rw [List.getElem?_append_right (Nat.le_refl _), Nat.sub_self, List.head?_eq_getElem?]

/-- 語の直後の区切り文字を NUL にしたもの。語が文字列の終わりまで続けば空である。 -/
def cutHead (tail : List UInt8) : List UInt8 := (tail.take 1).map fun _ => 0

/-- buffer の上の `strtok_r` の一回。その先に、残りの文字列が続く。 -/
theorem strtokRIn_some (pre post : List UInt8) {delimiters s skip token tail : List UInt8}
    (hs : 0 ∉ s) (h : Splits delimiters s skip token tail) :
    strtokRIn delimiters (pre ++ (s ++ 0 :: post)) pre.length =
        ⟨some (pre ++ skip).length, (pre ++ skip ++ token ++ cutHead tail).length,
          tail.head?.map fun _ => (pre ++ skip ++ token).length⟩ ∧
      cutAt (pre ++ (s ++ 0 :: post)) (tail.head?.map fun _ => (pre ++ skip ++ token).length) =
        pre ++ skip ++ token ++ cutHead tail ++ (tail.tail ++ 0 :: post) := by
  obtain ⟨c, cs, rfl⟩ := List.exists_cons_of_ne_nil h.ne_nil
  have hskip : s.takeWhile (· ∈ delimiters) = skip := by
    rw [h.eq, List.takeWhile_append_of_pos fun b hb => by simpa using h.skip b hb]
    simp [h.token c List.mem_cons_self]
  have hword : (c :: cs ++ tail).takeWhile (· ∉ delimiters) = c :: cs := by
    rw [List.takeWhile_append_of_pos fun b hb => by simpa using h.token b hb]
    cases tail with
    | nil => simp
    | cons sep rest => simpa using h.tail sep rfl
  have hnul : 0 ∉ c :: cs ++ tail := fun h0 => hs (h.eq ▸ List.mem_append_right skip h0)
  have hstart : pre ++ (s ++ 0 :: post) = pre ++ skip ++ (c :: cs ++ tail ++ 0 :: post) := by
    simp [h.eq]
  have hstop : pre ++ (s ++ 0 :: post) = pre ++ skip ++ (c :: cs) ++ (tail ++ 0 :: post) := by
    simp [h.eq]
  have hc : (c :: cs ++ tail ++ 0 :: post).head?.getD 0 ≠ 0 := fun h0 => hnul (by
    simp only [List.cons_append, List.head?_cons, Option.getD_some] at h0
    exact h0 ▸ List.mem_cons_self)
  rw [strtokRIn, cStringAt_append pre post hs, hskip, ← List.length_append]
  simp only [hstart, getD_append_length, cStringAt_append _ _ hnul, if_neg hc, strcspn, hword]
  rw [← List.length_append, ← hstart, hstop, getD_append_length]
  cases tail with
  | nil => exact ⟨by simp [cutHead], by simp [cutAt, cutHead]⟩
  | cons sep rest =>
    have hsep : sep ≠ 0 := fun h0 => hnul (by simp [h0])
    exact ⟨by simp [hsep, cutHead, Nat.add_assoc], by simp [cutAt, cutHead]⟩

theorem strtokRIn_none (pre post : List UInt8) {delimiters s : List UInt8} (hs : 0 ∉ s)
    (h : ∀ c ∈ s, c ∈ delimiters) :
    strtokRIn delimiters (pre ++ (s ++ 0 :: post)) pre.length =
      ⟨none, (pre ++ s).length, none⟩ := by
  -- 文字列の全体が区切り文字で、その先は NUL である。
  have hskip : s.takeWhile (· ∈ delimiters) = s := by simpa using h
  rw [strtokRIn, cStringAt_append pre post hs, hskip, ← List.length_append, ← List.append_assoc,
    if_pos (by rw [getD_append_length]; rfl)]

/-- 語の直後の区切り文字を NUL にした文字列。`inToken` は、すぐ前の文字が語に入るかである。 -/
def cutDelimiters (delimiters : List UInt8) : (inToken : Bool) → List UInt8 → List UInt8
  | _, [] => []
  | inToken, c :: s =>
    if c ∈ delimiters then (if inToken then 0 else c) :: cutDelimiters delimiters false s
    else c :: cutDelimiters delimiters true s

section

variable {delimiters s skip token tail : List UInt8}

theorem cutDelimiters_skip (h : ∀ c ∈ skip, c ∈ delimiters) :
    cutDelimiters delimiters false (skip ++ s) = skip ++ cutDelimiters delimiters false s := by
  induction skip with
  | nil => rfl
  | cons c skip ih =>
    rw [List.cons_append, cutDelimiters, if_pos (h c List.mem_cons_self),
      ih fun b hb => h b (List.mem_cons_of_mem _ hb)]
    rfl

theorem cutDelimiters_word (h : ∀ c ∈ token, c ∉ delimiters) (hne : token ≠ []) (inToken : Bool) :
    cutDelimiters delimiters inToken (token ++ s) = token ++ cutDelimiters delimiters true s := by
  induction token generalizing inToken with
  | nil => exact absurd rfl hne
  | cons c w ih =>
    rw [List.cons_append, cutDelimiters, if_neg (h c List.mem_cons_self)]
    cases w with
    | nil => rfl
    | cons d w =>
      rw [ih (fun b hb => h b (List.mem_cons_of_mem _ hb)) (List.cons_ne_nil _ _)]
      rfl

/-- 最初の語の後の区切り文字を NUL にすると、残りの文字列について同じことをすればよい。 -/
theorem Splits.cutDelimiters (h : Splits delimiters s skip token tail) :
    cutDelimiters delimiters false s =
      skip ++ token ++ cutHead tail ++ Pintos.cutDelimiters delimiters false tail.tail := by
  rw [h.eq, cutDelimiters_skip h.skip, cutDelimiters_word h.token h.ne_nil]
  cases tail with
  | nil => simp [Pintos.cutDelimiters, cutHead]
  | cons sep rest => simp [Pintos.cutDelimiters, cutHead, h.tail sep rfl]

end

/-- **buffer の上で区切った token は、文字列の token である。** 変わるのは語の直後の区切り文字だけで
ある。 -/
theorem tokenizeIn_spec (delimiters : List UInt8) {s : List UInt8} (hs : 0 ∉ s)
    (pre post : List UInt8) :
    (tokenizeIn delimiters (pre ++ (s ++ 0 :: post)) pre.length).buf
        = pre ++ (cutDelimiters delimiters false s ++ 0 :: post) ∧
      (tokenizeIn delimiters (pre ++ (s ++ 0 :: post)) pre.length).argv.map
          (cStringAt (pre ++ (cutDelimiters delimiters false s ++ 0 :: post)))
        = tokenize delimiters s := by
  fun_induction tokenize delimiters s generalizing pre with
  | case1 s rest h =>
    have hall := strtokR_none h
    have hcut := cutDelimiters_skip (s := []) hall
    rw [List.append_nil] at hcut
    rw [tokenizeIn_of_none (by rw [strtokRIn_none pre post hs hall]), hcut]
    exact ⟨by simp [cutDelimiters], rfl⟩
  | case2 s token rest h ih =>
    obtain ⟨skip, tail, hsplit, rfl⟩ := strtokR_some h
    obtain ⟨hstep, hcut⟩ := strtokRIn_some pre post hs hsplit
    obtain ⟨htoken, hrest⟩ := strtokR_subset h
    obtain ⟨hbuf, hargv⟩ := ih (fun h0 => hs (hrest h0)) (pre ++ skip ++ token ++ cutHead tail)
    have hfinal : pre ++ skip ++ token ++ cutHead tail ++
          (cutDelimiters delimiters false tail.tail ++ 0 :: post)
        = pre ++ (cutDelimiters delimiters false s ++ 0 :: post) := by
      simp [hsplit.cutDelimiters]
    -- 語の次は、書いた NUL か、文字列の終わりの NUL である
    obtain ⟨rest, hnul⟩ : ∃ rest, cutHead tail ++
        (cutDelimiters delimiters false tail.tail ++ 0 :: post) = 0 :: rest := by
      cases tail <;> simp [cutHead, cutDelimiters]
    have hword : cStringAt (pre ++ (cutDelimiters delimiters false s ++ 0 :: post))
        (pre ++ skip).length = token := by
      have happend := cStringAt_append (pre ++ skip) rest fun h0 => hs (htoken h0)
      rw [← hnul] at happend
      simpa [← hfinal] using happend
    rw [tokenizeIn_of_some hstep, hcut]
    exact ⟨hbuf.trans hfinal, by rw [List.map_cons, hword, ← hfinal, hargv]⟩

theorem tokenizeIn_words (delimiters : List UInt8) (s : CString) (post : List UInt8) :
    (tokenizeIn delimiters (s.val ++ 0 :: post) 0).argv.map
        (cStringAt (tokenizeIn delimiters (s.val ++ 0 :: post) 0).buf)
      = wordsOf delimiters s.val := by
  obtain ⟨hbuf, hargv⟩ := tokenizeIn_spec delimiters s.property [] post
  rw [← tokenize_eq, ← hargv, ← hbuf]
  rfl

theorem strtokRIn_cut_lt {s i : Nat} (h : i ∈ (strtokRIn delimiters buf s).cut)
    : i < buf.length := by
  unfold strtokRIn at h
  extract_lets start stop at h
  split at h
  · cases h
  · split at h
    · next hne =>
      obtain rfl := Option.mem_some.mp h
      refine Nat.lt_of_not_le fun hge => hne ?_
      rw [List.getElem?_eq_none hge, Option.getD_none]
    · cases h

theorem tokenizeIn_cuts_lt {s i : Nat} (h : i ∈ (tokenizeIn delimiters buf s).cuts)
    : i < buf.length := by
  fun_induction tokenizeIn delimiters buf s with
  | case1 => cases h
  | case2 buf s token htoken r next ih =>
    rcases List.mem_append.mp h with hi | hi
    · exact strtokRIn_cut_lt (Option.mem_toList.mp hi)
    · simpa using ih hi

/-! ## `strtok_r` の while -/

/-- `strchr`。見つけた添え字を返す。NUL を探せば、終わりの NUL が見つかる。 -/
def strchr (string : List UInt8) (c : UInt8) : Option Nat :=
  match string with
  | [] => if c = 0 then some 0 else none
  | b :: string => if b = c then some 0 else (strchr string c).map (· + 1)

/-- `*s` が `p` である間 `s++` する while。`buf` の外を読めば `none` である。 -/
def scanWhile (p : UInt8 → Bool) (buf : List UInt8) : (fuel s : Nat) → Option Nat
  | 0, _ => none
  | fuel + 1, s => do
    let c ← buf[s]?
    if p c then scanWhile p buf fuel (s + 1) else some s

/-- `strtok_r` を while のまま書いたもの。 -/
def strtokRLoop (delimiters buf : List UInt8) (fuel s : Nat) : Option Strtok := do
  -- `*s` が NUL なら `strchr` は見つけるが、そこで `NULL` を返す
  let token ← scanWhile (fun c => (strchr delimiters c).isSome ∧ c ≠ 0) buf fuel s
  let c ← buf[token]?
  if c = 0 then some ⟨none, token, none⟩
  else
    let stop ← scanWhile (fun c => (strchr delimiters c).isNone) buf fuel token
    let c ← buf[stop]?
    if c ≠ 0 then some ⟨some token, stop + 1, some stop⟩ else some ⟨some token, stop, none⟩

/-- `s` から始めて、後は `NULL` を渡して `calls` 回呼ぶ。返した token と、最後の buffer である。 -/
def strtokCalls (delimiters : List UInt8) (fuel : Nat) :
    (calls : Nat) → (buf : List UInt8) → (s : Nat) → Option (List (Option Nat) × List UInt8)
  | 0, buf, _ => some ([], buf)
  | calls + 1, buf, s => do
    let r ← strtokRLoop delimiters buf fuel s
    let (tokens, buf') ← strtokCalls delimiters fuel calls (cutAt buf r.cut) r.save
    some (r.token :: tokens, buf')

/-! ## `memmove` -/

/-- `*dst++ = *src++` を `size` 回行う while。進んだ `dst` も返す。 -/
def moveForward : (size : Nat) → (mem : Nat → UInt8) → (dst src : Nat) → (Nat → UInt8) × Nat
  | 0, mem, dst, _ => (mem, dst)
  | size + 1, mem, dst, src =>
    moveForward size (Function.update mem dst (mem src)) (dst + 1) (src + 1)

/-- `*--dst = *--src` を `size` 回行う while。戻った `dst` も返す。 -/
def moveBackward : (size : Nat) → (mem : Nat → UInt8) → (dst src : Nat) → (Nat → UInt8) × Nat
  | 0, mem, dst, _ => (mem, dst)
  | size + 1, mem, dst, src =>
    moveBackward size (Function.update mem (dst - 1) (mem (src - 1))) (dst - 1) (src - 1)

/-- `memmove`。書いた後の memory と、返す pointer である。`ASSERT` が偽なら `none` である。 -/
def memmove (mem : Nat → UInt8) (dst src size : Nat) : Option ((Nat → UInt8) × Nat) :=
  if (dst ≠ 0 ∨ size = 0) ∧ (src ≠ 0 ∨ size = 0) then
    -- 返すのは引数の `dst_` ではなく、while が動かした `dst` である
    some (if dst < src then moveForward size mem dst src
      else moveBackward size mem (dst + size) (src + size))
  else none

/-! ## 数 -/

def isspace (c : Char) : Bool := c ∈ [' ', '\x0c', '\n', '\r', '\t', '\x0b']

def isdigit (c : Char) : Bool := '0' ≤ c ∧ c ≤ '9'

/-- `atoi` の数字の loop。負の値として読む。 -/
def atoiDigits : List Char → Int → Int
  | [], value => value
  | c :: s, value =>
    if isdigit c then atoiDigits s (int32 (value * 10 - (c.toNat - '0'.toNat))) else value

def atoi (s : List Char) : Int :=
  match s.dropWhile isspace with
  | '+' :: s => int32 (-atoiDigits s 0)
  | '-' :: s => atoiDigits s 0
  | s => int32 (-atoiDigits s 0)

end Pintos
