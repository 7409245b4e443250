import Pintos.Lib.String

/-!
# `strtok_r` の繰り返し

`strtok_r` を、文字列と `NULL` で何回呼んでも、呼び出しは文字列の NUL より先を読まずに終わる。
-/

namespace Pintos

variable {delimiters s : List UInt8}

/-! ## 一回の呼び出し -/

theorem strchr_eq_none_iff {string : List UInt8} {c : UInt8} :
    strchr string c = none ↔ c ∉ string ∧ c ≠ 0 := by
  induction string with
  | nil =>
    unfold strchr
    split <;> simp_all
  | cons b string ih =>
    unfold strchr
    split
    · next h => simp [h]
    · next h => simp [ih, Ne.symm h]

theorem scanWhile_eq {p : UInt8 → Bool} {skip : List UInt8} {c : UInt8}
    (hskip : ∀ b ∈ skip, p b = true) (hc : p c = false) (pre post : List UInt8) {n : Nat}
    (hfuel : skip.length < n) :
    scanWhile p (pre ++ (skip ++ c :: post)) n pre.length = some (pre ++ skip).length := by
  induction skip generalizing pre n with
  | nil =>
    obtain ⟨n, rfl⟩ := Nat.exists_eq_succ_of_ne_zero (Nat.ne_of_gt hfuel)
    simp [scanWhile, hc]
  | cons b skip ih =>
    obtain ⟨fuel, rfl⟩ := Nat.exists_eq_succ_of_ne_zero (Nat.ne_zero_of_lt hfuel)
    have hnext := ih (fun x hx => hskip x (List.mem_cons_of_mem _ hx)) (pre ++ [b])
      (Nat.lt_of_succ_lt_succ hfuel)
    have hbuf : pre ++ (b :: skip ++ c :: post) = pre ++ [b] ++ (skip ++ c :: post) := by simp
    have hget : (pre ++ [b] ++ (skip ++ c :: post))[pre.length]? = some b := by simp
    rw [List.length_append, List.length_singleton] at hnext
    rw [hbuf, scanWhile, hget, Option.bind_eq_bind, Option.bind_some,
      if_pos (hskip b List.mem_cons_self), hnext]
    simp

theorem strtokRLoop_eq (delimiters : List UInt8) (hs : 0 ∉ s) (pre post : List UInt8) {fuel : Nat}
    (hfuel : s.length < fuel) :
    strtokRLoop delimiters (pre ++ (s ++ 0 :: post)) fuel pre.length =
      some (strtokRIn delimiters (pre ++ (s ++ 0 :: post)) pre.length) := by
  have hpass : ∀ {l : List UInt8}, l ⊆ s → (∀ c ∈ l, c ∈ delimiters) →
      ∀ c ∈ l, decide ((strchr delimiters c).isSome = true ∧ c ≠ 0) = true := by
    intro l hsub hl c hc
    have hne : c ≠ 0 := fun h0 => hs (h0 ▸ hsub hc)
    simp [Option.isSome_iff_ne_none, strchr_eq_none_iff, hl c hc, hne]
  rcases h : strtokR delimiters s with ⟨_ | token, rest⟩
  · have hall := strtokR_none h
    have hscan := scanWhile_eq (hpass (List.Subset.refl s) hall) (c := 0) (by simp) pre post hfuel
    have hget : (pre ++ (s ++ 0 :: post))[(pre ++ s).length]? = some 0 := by simp
    rw [strtokRIn_none pre post hs hall, strtokRLoop, hscan]
    simp only [Option.bind_eq_bind, Option.bind_some, hget, if_true]
  · obtain ⟨skip, tail, hsplit, -⟩ := strtokR_some h
    obtain ⟨c, cs, rfl⟩ := List.exists_cons_of_ne_nil hsplit.ne_nil
    have hnul : ∀ b ∈ c :: cs, b ≠ 0 := fun b hb h0 => hs ((strtokR_subset h).1 (h0 ▸ hb))
    have hword : ∀ b ∈ c :: cs, strchr delimiters b = none := fun b hb =>
      strchr_eq_none_iff.mpr ⟨hsplit.token b hb, hnul b hb⟩
    -- 語の次は、区切り文字か NUL である
    obtain ⟨x, rest', hx, hstop, hend⟩ : ∃ x rest', tail ++ 0 :: post = x :: rest' ∧
        (x ∉ delimiters → x = 0) ∧ (x = 0 ↔ tail = []) := by
      cases tail with
      | nil => exact ⟨0, post, rfl, fun _ => rfl, by simp⟩
      | cons sep rest =>
        have hsep : sep ≠ 0 := fun h0 => hs (by rw [hsplit.eq]; simp [h0])
        exact ⟨sep, _, rfl, fun hno => absurd (hsplit.tail sep rfl) hno, by simp [hsep]⟩
    have hlen := congrArg List.length hsplit.eq
    simp only [List.length_append] at hlen
    have hskip := scanWhile_eq (hpass (l := skip) (by rw [hsplit.eq]; simp) hsplit.skip) (c := c)
      (by simp [hword c List.mem_cons_self]) pre (cs ++ (x :: rest')) (n := fuel) (by omega)
    have hscan := scanWhile_eq (p := fun b => (strchr delimiters b).isNone) (c := x)
      (fun b hb => by rw [hword b hb, Option.isNone_none])
      (by simpa [← Option.not_isSome, Option.isSome_iff_ne_none, strchr_eq_none_iff] using hstop)
      (pre ++ skip) rest' (n := fuel) (by omega)
    have hbuf : pre ++ (s ++ 0 :: post) = pre ++ skip ++ (c :: cs ++ x :: rest') := by
      rw [← hx, hsplit.eq]
      simp
    have hfirst : (pre ++ skip ++ (c :: cs ++ x :: rest'))[(pre ++ skip).length]? = some c := by simp
    have hlast : (pre ++ skip ++ (c :: cs ++ x :: rest'))[(pre ++ skip ++ c :: cs).length]?
        = some x := by simp
    rw [show pre ++ (skip ++ c :: (cs ++ x :: rest')) = pre ++ skip ++ (c :: cs ++ x :: rest') by
      simp] at hskip
    rw [(strtokRIn_some pre post hs hsplit).1, strtokRLoop, hbuf, hskip]
    simp only [Option.bind_eq_bind, Option.bind_some, hfirst, hscan, hlast,
      if_neg (hnul c List.mem_cons_self), ne_eq, hend]
    cases tail <;> simp [cutHead, Nat.add_assoc]

/-! ## 繰り返し -/

theorem strtokCalls_none (hs : 0 ∉ s) (h : ∀ c ∈ s, c ∈ delimiters) (pre post : List UInt8)
    {fuel : Nat} (hfuel : s.length < fuel) (calls : Nat) :
    strtokCalls delimiters fuel calls (pre ++ (s ++ 0 :: post)) pre.length =
      some (List.replicate calls none, pre ++ (s ++ 0 :: post)) := by
  induction calls generalizing s pre with
  | zero => rfl
  | succ calls ih =>
    have hnext := ih (s := []) (by simp) (by simp) (pre ++ s) (Nat.zero_lt_of_lt hfuel)
    rw [List.nil_append, List.append_assoc] at hnext
    rw [strtokCalls, strtokRLoop_eq delimiters hs pre post hfuel, strtokRIn_none pre post hs h]
    simp only [Option.bind_eq_bind, Option.bind_some, cutAt, hnext]
    rfl

theorem strtokCalls_eq (delimiters : List UInt8) (hs : 0 ∉ s) (pre post : List UInt8)
    {fuel calls : Nat} (hfuel : s.length < fuel) (hcalls : (tokenize delimiters s).length ≤ calls) :
    strtokCalls delimiters fuel calls (pre ++ (s ++ 0 :: post)) pre.length =
      some ((tokenizeIn delimiters (pre ++ (s ++ 0 :: post)) pre.length).argv.map some
          ++ List.replicate (calls - (tokenize delimiters s).length) none,
        (tokenizeIn delimiters (pre ++ (s ++ 0 :: post)) pre.length).buf) := by
  fun_induction tokenize delimiters s generalizing pre calls with
  | case1 s rest h =>
    have hall := strtokR_none h
    rw [strtokCalls_none hs hall pre post hfuel,
      tokenizeIn_of_none (by rw [strtokRIn_none pre post hs hall])]
    rfl
  | case2 s token rest h ih =>
    obtain ⟨calls, rfl⟩ := Nat.exists_eq_succ_of_ne_zero (Nat.ne_zero_of_lt hcalls)
    have hlt := strtokR_length_lt h
    obtain ⟨skip, tail, hsplit, rfl⟩ := strtokR_some h
    obtain ⟨hstep, hcut⟩ := strtokRIn_some pre post hs hsplit
    have hnext := ih (fun h0 => hs ((strtokR_subset h).2 h0)) (pre ++ skip ++ token ++ cutHead tail)
      (Nat.lt_trans hlt hfuel) (Nat.le_of_succ_le_succ hcalls)
    rw [strtokCalls, strtokRLoop_eq delimiters hs pre post hfuel, tokenizeIn_of_some hstep, hstep]
    simp only [Option.bind_eq_bind, Option.bind_some, hcut, hnext, List.length_cons,
      Nat.succ_eq_add_one, Nat.add_sub_add_right]
    rfl

/--
**`strtok_r` の繰り返しは、極大な語を順に返す。**

語の数だけ呼んだ後は、いつも `NULL` が返る。buffer が変わるのは、語の直後の区切り文字だけである。
-/
theorem strtokCalls_correct (delimiters s : CString) (pre post : List UInt8) {fuel calls : Nat}
    (hfuel : s.val.length < fuel) (hcalls : (wordsOf delimiters.val s.val).length ≤ calls) :
    ∃ tokens : List Nat, strtokCalls delimiters.val fuel calls (pre ++ (s.val ++ 0 :: post)) pre.length =
        some (tokens.map some
            ++ List.replicate (calls - (wordsOf delimiters.val s.val).length) none,
          pre ++ (cutDelimiters delimiters.val false s.val ++ 0 :: post)) ∧
      tokens.map (cStringAt (pre ++ (cutDelimiters delimiters.val false s.val ++ 0 :: post)))
        = wordsOf delimiters.val s.val := by
  rw [← tokenize_eq] at hcalls ⊢
  obtain ⟨hbuf, hargv⟩ := tokenizeIn_spec delimiters.val s.property pre post
  refine ⟨_, ?_, hargv⟩
  rw [strtokCalls_eq delimiters.val s.property pre post hfuel hcalls, hbuf]

/-- 空白で区切った `" ab  c"` の二語と、その後の `NULL`。 -/
theorem strtokCalls_correct_two :
    ∃ tokens : List Nat, strtokCalls [0x20] 7 4 ([0x20, 0x61, 0x62, 0x20, 0x20, 0x63] ++ [0]) 0 =
        some (tokens.map some ++ [none, none], [0x20, 0x61, 0x62, 0, 0x20, 0x63] ++ [0]) ∧
      tokens.map (cStringAt ([0x20, 0x61, 0x62, 0, 0x20, 0x63] ++ [0]))
        = [[0x61, 0x62], [0x63]] :=
  strtokCalls_correct ⟨[0x20], by decide⟩ ⟨[0x20, 0x61, 0x62, 0x20, 0x20, 0x63], by decide⟩ [] []
    (by decide) (by decide)

end Pintos
