import Mathlib.Data.Nat.Digits.Lemmas
import Pintos.Lib.Stdio

/-!
# 書式付きの出力
-/

namespace Pintos

/-! ## buffer に並べる数字 -/

/-- 下の桁から並べた数字。`'` flag なら、`b.group` 桁ごとに `,` を挟む。 -/
def groupDigits (b : IntegerBase) (group : Bool) : (digitCnt : Nat) → List Nat → List Char
  | _, [] => []
  | cnt, d :: ds => (if group ∧ cnt > 0 ∧ cnt % b.group = 0 then [','] else []) ++
      b.digit d :: groupDigits b group (cnt + 1) ds

variable (value : Nat) (isSigned negative : Bool) (b : IntegerBase) (c : PrintfConversion)

theorem putDigits_eq (group : Bool) (cnt : Nat) :
    putDigits b group value cnt = groupDigits b group cnt (b.base.digits value) := by
  fun_induction putDigits b group value cnt with
  | case1 value cnt hpos ih => rw [Nat.digits_def' b.one_lt_base hpos, groupDigits, ih]
  | case2 value cnt hzero => simp [Nat.eq_zero_of_not_pos hzero, groupDigits]

theorem length_groupDigits (group : Bool) :
    ∀ (cnt : Nat) (ds : List Nat), (groupDigits b group cnt ds).length ≤ 2 * ds.length
  | _, [] => Nat.le_refl _
  | cnt, d :: ds => by
    have ih := length_groupDigits group (cnt + 1) ds
    rw [groupDigits]
    split <;> simp <;> omega

theorem filter_groupDigits (group : Bool) : ∀ (cnt : Nat) (ds : List Nat), (∀ d ∈ ds, d < b.base) →
    (groupDigits b group cnt ds).filter (· ≠ ',') = ds.map b.digit
  | _, [], _ => rfl
  | cnt, d :: ds, h => by
    have hd : b.digit d ≠ ',' := by
      have hall : ∀ d < b.base, b.digit d ≠ ',' := by cases b <;> decide
      exact hall d (h d List.mem_cons_self)
    have ih := filter_groupDigits group (cnt + 1) ds fun d hd => h d (List.mem_cons_of_mem _ hd)
    rw [groupDigits, List.filter_append, List.filter_cons_of_pos (by simpa using hd), ih]
    split <;> simp

theorem putZeros_eq (precision : Int) (buf : List Char) : putZeros precision buf =
    buf ++ List.replicate (min precision.toNat 63 - buf.length) '0' := by
  fun_induction putZeros precision buf with
  | case1 buf h ih =>
    rw [ih, List.append_assoc, List.length_append, List.length_singleton, List.singleton_append,
      ← List.replicate_succ]
    congr 2
    omega
  | case2 buf h =>
    rw [show min precision.toNat 63 - buf.length = 0 by omega]
    simp

/-- 数字の上に足す `0` は、精度の分と、8 進の `#` flag の一つである。 -/
theorem integerBuf_eq : ∃ k digits, integerBuf b c value = digits ++ List.replicate k '0' ∧
    digits = groupDigits b c.flags.group 0 (b.base.digits value) ∧
    min c.rendered.toNat 63 - digits.length ≤ k ∧
    k ≤ min c.rendered.toNat 63 - digits.length + 1 := by
  unfold integerBuf
  rw [putDigits_eq, putZeros_eq]
  dsimp only
  split
  · exact ⟨_, _, by rw [List.append_assoc, ← List.replicate_succ'], rfl, Nat.le_succ _, Nat.le_refl _⟩
  · exact ⟨_, _, rfl, rfl, Nat.le_refl _, Nat.le_succ _⟩

/-! ## 整数の出力 -/

theorem length_integerBuf (h : value < 2 ^ 64) : (integerBuf b c value).length ≤ 64 := by
  have hdigits : (b.base.digits value).length ≤ 22 := by
    refine (Nat.digits_length_le_iff b.one_lt_base _).mpr (h.trans_le ?_)
    cases b <;> decide
  obtain ⟨k, digits, heq, rfl, -, hk⟩ := integerBuf_eq value b c
  have hlen := length_groupDigits b c.flags.group 0 (b.base.digits value)
  rw [heq, List.length_append, List.length_replicate]
  omega

theorem length_padInteger (sign x buf : List Char) : ((padInteger c sign x buf).length : Int) =
    (sign ++ x ++ buf).length + (if c.flags.minus ∧ c.flags.zero then 2 else 1) *
      (c.width - (sign ++ x ++ buf).length).toNat := by
  cases hm : c.flags.minus <;> cases hz : c.flags.zero <;>
    simp [padInteger, outputDup, hm, hz] <;> omega

/-- `0` を前に付けた、`value` の数字。空になるのは、値も精度も 0 のときだけである。 -/
structure Numeral (text : List Char) : Prop where
  /-- `,` は、下から `b.group` 桁ごとにある。 -/
  grouped : ∃ zeros, text = List.replicate zeros '0' ++
    (groupDigits b c.flags.group 0 (b.base.digits value)).reverse
  denotes : ∃ zeros, text.filter (· ≠ ',') =
    List.replicate zeros '0' ++ ((b.base.digits value).map b.digit).reverse
  ne_nil : text = [] → value = 0 ∧ c.precision = 0

/-- 幅を詰める前の出力。 -/
def unpadded : List Char :=
  signOf c.flags isSigned negative ++ markOf c.flags b value ++ integerBuf b c value

/-- 変換の指定どおりの出力。 -/
structure IntegerField (out : List Char) : Prop where
  layout : ∃ lead text trail, Numeral value b c text ∧
    out = List.replicate lead ' ' ++ signOf c.flags isSigned negative ++ markOf c.flags b value ++
      text ++ List.replicate trail ' '
  width_le : c.width ≤ out.length
  width_eq : (unpadded value isSigned negative b c).length < c.width → out.length = c.width

theorem numeral_integerBuf (zeros : Nat) :
    Numeral value b c (List.replicate zeros '0' ++ (integerBuf b c value).reverse) := by
  obtain ⟨k, digits, heq, hdigits, hk, -⟩ := integerBuf_eq value b c
  rw [heq, List.reverse_append, List.reverse_replicate, ← List.append_assoc,
    List.replicate_append_replicate]
  refine ⟨⟨_, by rw [hdigits]⟩, ⟨zeros + k, ?_⟩, fun h => ?_⟩
  · rw [List.filter_append, List.filter_reverse, hdigits,
      filter_groupDigits _ _ _ _ fun d => Nat.digits_lt_base b.one_lt_base]
    simp
  · rw [List.append_eq_nil_iff, List.replicate_eq_nil_iff, List.reverse_eq_nil_iff] at h
    constructor
    · cases hds : b.base.digits value with
      | nil => exact Nat.digits_eq_nil_iff_eq_zero.mp hds
      | cons d ds => simp [h.2, hds, groupDigits] at hdigits
    · rw [h.2, PrintfConversion.rendered, List.length_nil] at hk
      split at hk <;> omega

/-- **幅より長くなるのは、MINUS と ZERO がともに立ち、詰める前の出力が幅より短いときに限る。** -/
theorem formatInteger_correct_iff (value : BitVec 64) :
    (∃ out, formatInteger value.toNat isSigned negative b c = some out ∧
      IntegerField value.toNat isSigned negative b c out) ↔
    ¬ (c.flags.minus ∧ c.flags.zero ∧
      (unpadded value.toNat isSigned negative b c).length < c.width) := by
  have hlen := length_padInteger c (signOf c.flags isSigned negative)
    (markOf c.flags b value.toNat) (integerBuf b c value.toNat)
  rw [formatInteger, if_pos (length_integerBuf _ b c value.isLt)]
  simp only [Option.some.injEq, exists_eq_left']
  constructor
  · rintro h ⟨hm, hz, hlt⟩
    have heq := h.width_eq hlt
    rw [hlen, if_pos ⟨hm, hz⟩] at heq
    unfold unpadded at hlt
    omega
  · intro h
    refine ⟨⟨_, _, _, numeral_integerBuf .., congrArg (· ++ _) (List.append_assoc ..)⟩, ?_,
      fun hlt => ?_⟩
    · rw [hlen]
      split <;> omega
    · rw [hlen, if_neg fun hmz => h ⟨hmz.1, hmz.2, hlt⟩]
      unfold unpadded at hlt
      omega

/-- **幅 -5 の `%0*d` は、左に `0` を詰めた上に、右に空白を詰める。** -/
theorem formatInteger_pads_twice :
    let c := (parseConversion ['0', '*', 'd'] fun _ => -5).1
    let out := ['0', '0', '0', '4', '2', ' ', ' ', ' ']
    c.width = 5 ∧ formatInteger 42 true false .d c = some out ∧
      ¬ IntegerField 42 true false .d c out := by
  refine ⟨by decide +kernel, by decide +kernel, fun h => ?_⟩
  exact absurd (h.width_eq (by decide +kernel)) (by decide +kernel)

/-! ## 書式 -/

/-- どの変換にも、終端の前に変換の文字がある。 -/
inductive Complete : List Char → Prop
  | nil : Complete []
  | literal {c : Char} {format : List Char} : c ≠ '%' → Complete format → Complete (c :: format)
  | percent {format : List Char} : Complete format → Complete ('%' :: '%' :: format)
  | conversion {k : Char} {format rest : List Char} : format.head? ≠ some '%' →
      skipOptions format = k :: rest → Complete rest → Complete ('%' :: format)

theorem complete_conversion_iff {format : List Char} (hp : format.head? ≠ some '%') :
    Complete ('%' :: format) ↔ ∃ k rest, skipOptions format = k :: rest ∧ Complete rest := by
  refine ⟨fun h => ?_, fun ⟨k, rest, hk, h⟩ => .conversion hp hk h⟩
  cases h <;> simp_all

theorem convert_isSome (string : BitVec 32 → List Char) (k : Char) (c : PrintfConversion)
    (args : VaList) : (convert string k c args).isSome := by
  have hbits : ∀ v : BitVec c.type.bits, v.toNat < 2 ^ 64 ∧ v.toInt.natAbs < 2 ^ 64 := by
    intro v
    have hle : 2 ^ c.type.bits ≤ 2 ^ 64 := by cases c.type <;> decide
    have hlt := v.isLt
    have hint := v.toInt_eq_toNat_cond
    split at hint <;> omega
  have hword : (args.next 32).1.toNat < 2 ^ 64 := (args.next 32).1.isLt.trans (by decide)
  unfold convert
  split <;> simp only [Option.isSome_map, Option.isSome_some] <;>
    rw [formatInteger, if_pos (length_integerBuf _ _ _ (by
      first | exact hword | exact (hbits _).1 | exact (hbits _).2))] <;>
    rfl

/-- **終端を越えて読まずに終わるのは、どの変換にも変換の文字があるときに限る。** -/
theorem vprintf_returns_iff (string : BitVec 32 → List Char) (format : List Char) (args : VaList) :
    (∃ out, vprintf string format args = some out) ↔ Complete format := by
  rw [← Option.isSome_iff_exists]
  fun_induction vprintf string format args with
  | case1 => exact iff_of_true rfl .nil
  | case2 c format args hc ih =>
    rw [Option.isSome_map, ih]
    refine ⟨.literal hc, fun h => ?_⟩
    cases h <;> simp_all
  | case3 c format args hc hp ih =>
    obtain rfl : c = '%' := not_not.mp hc
    obtain ⟨rest, rfl⟩ := List.head?_eq_some_iff.mp hp
    rw [Option.isSome_map, ih]
    refine ⟨.percent, fun h => ?_⟩
    cases h <;> simp_all
  | case4 c format args hc hp r hr =>
    obtain rfl : c = '%' := not_not.mp hc
    rw [complete_conversion_iff hp, show skipOptions format = [] from hr]
    simp
  | case5 c format args hc hp r k rest hr ih =>
    obtain rfl : c = '%' := not_not.mp hc
    obtain ⟨out, hout⟩ := Option.isSome_iff_exists.mp (convert_isSome string k r.1 r.2.2)
    rw [complete_conversion_iff hp, show skipOptions format = k :: rest from hr, hout]
    show ((vprintf string rest out.2).map _).isSome ↔ _
    simp [ih]

/-- **`%` で終わる書式では、終端を越えて読む。** -/
theorem vprintf_overruns : vprintf (fun _ => []) ['%'] (fun _ => 0) = none := by
  rw [vprintf]
  rfl

end Pintos
