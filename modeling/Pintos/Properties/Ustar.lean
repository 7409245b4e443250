import Mathlib.Algebra.Order.BigOperators.Group.List
import Mathlib.Algebra.Order.Group.Nat
import Mathlib.Data.List.GetD
import Pintos.Lib.Ustar
import Pintos.Properties.Stdio

/-!
# header の往復と、読んだ header の安全

`ustar_make_header` で作った header を `ustar_parse_header` で読むと、種類と名前と大きさが戻る。
どんな 512 byte から読んだ名前も、archive を展開する directory の外を指す接頭辞を持たない。
-/

namespace Pintos

/-! ## 8 進の field -/

def octalValue (digits : List Nat) (value : Nat) : Nat := digits.foldl (fun a d => a * 8 + d) value

theorem octalValue_octalDigits (v : Nat) : octalValue (octalDigits v) 0 = v := by
  fun_induction octalDigits v with
  | case1 v h => simp [octalValue]
  | case2 v h ih =>
    rw [octalValue, List.foldl_append] at *
    rw [ih]
    exact Nat.div_add_mod' v 8

theorem octalDigits_lt {v d : Nat} (h : d ∈ octalDigits v) : d < 8 := by
  fun_induction octalDigits v with
  | case1 v hv =>
    rw [List.mem_singleton.mp h]
    exact hv
  | case2 v hv ih =>
    rcases List.mem_append.mp h with h | h
    · exact ih h
    · rw [List.mem_singleton.mp h]
      exact Nat.mod_lt _ (by decide)

theorem octalDigits_eq (v : Nat) :
    octalDigits v = if v = 0 then [0] else (Nat.digits 8 v).reverse := by
  fun_induction octalDigits v with
  | case1 v h =>
    split
    · next hz => rw [hz]
    · next hz =>
      rw [Nat.digits_of_lt 8 v hz h]
      rfl
  | case2 v h ih =>
    have hdigits := Nat.digits_def' (by decide : 1 < 8) (by omega : 0 < v)
    rw [ih, if_neg (by omega), if_neg (by omega), hdigits, List.reverse_cons]

theorem groupDigits_false (b : IntegerBase) : ∀ (cnt : Nat) (ds : List Nat),
    groupDigits b false cnt ds = ds.map b.digit
  | _, [] => rfl
  | cnt, d :: ds => by
    rw [groupDigits, groupDigits_false b (cnt + 1) ds]
    rfl

theorem formatInteger_octal (w : Nat) {v : Nat} (hv : v < 2 ^ 64) :
    formatInteger v false false .o ⟨⟨false, false, false, false, true, false⟩, w, -1, .int⟩ =
      some ((formatOctal w v).map fun c => Char.ofNat c.toNat) := by
  have hbuf : (integerBuf .o ⟨⟨false, false, false, false, true, false⟩, w, -1, .int⟩ v).reverse =
      (octalDigits v).map Nat.digitChar := by
    rw [octalDigits_eq]
    unfold integerBuf
    rw [putDigits_eq, putZeros_eq, groupDigits_false]
    split
    · next hz => simp [hz, PrintfConversion.rendered, IntegerBase.base]
    · next hz =>
      have hlen : 1 - (Nat.digits 8 v).length = 0 := by
        have := List.length_pos_iff.mpr (Nat.digits_ne_nil_iff_ne_zero.mpr hz : Nat.digits 8 v ≠ [])
        omega
      simp [PrintfConversion.rendered, IntegerBase.base, hlen,
        show IntegerBase.o.digit = Nat.digitChar from rfl]
  have hchar : ∀ d ∈ octalDigits v, d.digitChar = Char.ofNat ((0x30 + d) % 256) := by
    have hall : ∀ d < 8, d.digitChar = Char.ofNat ((0x30 + d) % 256) := by decide
    exact fun d hd => hall d (octalDigits_lt hd)
  have hlen := congrArg List.length hbuf
  rw [List.length_reverse, List.length_map] at hlen
  rw [formatInteger, if_pos (length_integerBuf _ _ _ hv)]
  simpa [padInteger, signOf, markOf, outputDup, hbuf, hlen, formatOctal] using hchar

/-- **header の数の field に書くのは、`snprintf` の出力である。** -/
theorem vprintf_octal (string : BitVec 32 → List Char) (args : VaList) :
    vprintf string "%07o".toList args =
      some ((formatOctal 7 (args.next 32).1.toNat).map fun c => Char.ofNat c.toNat) ∧
    vprintf string "%011o".toList args =
      some ((formatOctal 11 (args.next 32).1.toNat).map fun c => Char.ofNat c.toNat) := by
  have hconvert {format : List Char} {w : Nat} (hne : format.head? ≠ some '%')
      (hparse : parseConversion format args =
        (⟨⟨false, false, false, false, true, false⟩, w, -1, .int⟩, ['o'], args)) :
      vprintf string ('%' :: format) args =
        some ((formatOctal w (args.next 32).1.toNat).map fun c => Char.ofNat c.toNat) := by
    have hv : (args.next 32).1.toNat < 2 ^ 64 := (args.next 32).1.isLt.trans (by decide)
    rw [vprintf, if_neg (not_not.mpr rfl), if_neg hne]
    dsimp only
    split
    · next heq =>
      rw [hparse] at heq
      cases heq
    · next heq =>
      rw [hparse] at heq ⊢
      cases heq
      simp only [convert, ArgType.bits, formatInteger_octal w hv, vprintf]
      simp
  exact ⟨hconvert (by decide) rfl, hconvert (by decide) rfl⟩

theorem length_octalDigits_le {v w : Nat} (hw : 0 < w) (hv : v < 8 ^ w) :
    (octalDigits v).length ≤ w := by
  induction w generalizing v with
  | zero => omega
  | succ w ih =>
    rw [octalDigits]
    split
    · simp
    · next hbig =>
      have hw' : 0 < w := by
        rcases Nat.eq_zero_or_pos w with rfl | hpos
        · omega
        · exact hpos
      have hlen := ih hw' (Nat.div_lt_of_lt_mul (by rwa [Nat.pow_succ'] at hv))
      rw [List.length_append, List.length_singleton]
      omega

theorem le_octalValue (digits : List Nat) (value : Nat) : value ≤ octalValue digits value := by
  induction digits generalizing value with
  | nil => exact Nat.le_refl _
  | cons d ds ih => exact Nat.le_trans (by omega) (ih (value * 8 + d))

def octalByte (d : Nat) : UInt8 := UInt8.ofNat (0x30 + d)

theorem toNat_octalByte {d : Nat} (h : d < 8) : (octalByte d).toNat = 0x30 + d := by
  rw [octalByte, UInt8.toNat_ofNat']
  omega

theorem octalByte_digit {d : Nat} (h : d < 8) : 0x30 ≤ octalByte d ∧ octalByte d ≤ 0x37 := by
  rw [UInt8.le_iff_toNat_le, UInt8.le_iff_toNat_le, toNat_octalByte h]
  exact ⟨by simp, by simp; omega⟩

variable {c : UInt8}

theorem exists_octalByte (h : 0x30 ≤ c ∧ c ≤ 0x37) :
    ∃ d, d < 8 ∧ c = octalByte d ∧ c.toNat - 0x30 = d := by
  obtain ⟨hlo, hhi⟩ := h
  rw [UInt8.le_iff_toNat_le] at hlo hhi
  have hlo' : 0x30 ≤ c.toNat := hlo
  have hhi' : c.toNat ≤ 0x37 := hhi
  have hlt : c.toNat - 0x30 < 8 := by omega
  refine ⟨c.toNat - 0x30, hlt, ?_, rfl⟩
  apply UInt8.toNat_inj.mp
  rw [toNat_octalByte hlt]
  omega

/-- 空白か NUL。8 進の field の終わりの印。 -/
def IsFieldEnd (c : UInt8) : Prop := c = 0x20 ∨ c = 0

theorem IsFieldEnd.not_digit (h : IsFieldEnd c) : ¬(0x30 ≤ c ∧ c ≤ 0x37) := by
  rcases h with rfl | rfl <;> decide

theorem parseOctalLoop_digits {digits : List Nat} (hd : ∀ d ∈ digits, d < 8)
    {ofs value : Nat} (hpos : 0 < ofs + digits.length)
    (hmax : octalValue digits value ≤ ulongMax) {stop : UInt8} (hstop : IsFieldEnd stop)
    (rest : List UInt8) :
    parseOctalLoop (digits.map octalByte ++ stop :: rest) ofs value
      = some (octalValue digits value) := by
  induction digits generalizing ofs value with
  | nil =>
    have hofs : ofs > 0 := by simpa using hpos
    rw [List.map_nil, List.nil_append, parseOctalLoop, if_neg hstop.not_digit]
    exact (if_pos hstop).trans (if_pos hofs)
  | cons d ds ih =>
    have hlt : d < 8 := hd d List.mem_cons_self
    have hle : value * 8 + d ≤ ulongMax := Nat.le_trans (le_octalValue ds _) hmax
    rw [List.map_cons, List.cons_append, parseOctalLoop, if_pos (octalByte_digit hlt),
      if_neg (by omega), toNat_octalByte hlt,
      show 0x30 + d - 0x30 + value * 8 = value * 8 + d by omega]
    exact ih (fun d hd' => hd d (List.mem_cons_of_mem _ hd')) (by omega) hmax

theorem accumulate_le_ulongMax {value : Nat} (hc : 0x30 ≤ c ∧ c ≤ 0x37)
    (hvalue : ¬value > ulongMax / 8) : c.toNat - 0x30 + value * 8 ≤ ulongMax := by
  obtain ⟨d, hd, -, hnat⟩ := exists_octalByte hc
  simp only [ulongMax] at *
  omega

variable {s : List UInt8}

theorem digits_of_parseOctalLoop {ofs value v : Nat} (hmax : value ≤ ulongMax)
    (h : parseOctalLoop s ofs value = some v) :
    ∃ digits stop rest, (∀ d ∈ digits, d < 8) ∧ 0 < ofs + digits.length ∧ IsFieldEnd stop ∧
      s = digits.map octalByte ++ stop :: rest ∧ octalValue digits value = v ∧ v ≤ ulongMax := by
  induction s generalizing ofs value with
  | nil => cases h
  | cons c s ih =>
    rw [parseOctalLoop] at h
    split at h
    · next hc =>
      split at h
      · cases h
      · next hsmall =>
        obtain ⟨digits, stop, rest, hlt, -, hstop, rfl, hv, hle⟩ :=
          ih (accumulate_le_ulongMax hc hsmall) h
        obtain ⟨d, hd, rfl, hnat⟩ := exists_octalByte hc
        refine ⟨d :: digits, stop, rest, ?_, by rw [List.length_cons]; omega, hstop, rfl, ?_, hle⟩
        · intro e he
          rcases List.mem_cons.mp he with rfl | he
          · exact hd
          · exact hlt e he
        · rw [← hv, hnat, Nat.add_comm]
          rfl
    · split at h
      · next hstop =>
        split at h
        · next hofs =>
          obtain rfl := Option.some.inj h
          exact ⟨[], c, s, by simp, by simpa using hofs, hstop, rfl, rfl, hmax⟩
        · cases h
      · cases h

theorem parseOctalWordLoop_eq (s : List UInt8) (ofs value : Nat) :
    parseOctalWordLoop s ofs value = parseOctalLoop s ofs value := by
  induction s generalizing ofs value with
  | nil => rfl
  | cons c s ih =>
    rw [parseOctalWordLoop, parseOctalLoop]
    split
    · next hc =>
      split
      · rfl
      · next hsmall =>
        have hle := accumulate_le_ulongMax hc hsmall
        rw [ulongMax] at hle
        rw [Nat.mod_eq_of_lt (by omega)]
        exact ih _ _
    · rfl

/-- **`parse_octal_field` が読む field は、一つ以上の 8 進の数字を空白か NUL で終え、値が 32 bit に
収まるものであり、それに限る。** 途中の加算と乗算は折り返さない。 -/
theorem parseOctalWord_correct (field : List UInt8) :
    (∀ value, parseOctalWord field = some value ↔
      ∃ digits stop rest, digits ≠ [] ∧ (∀ d ∈ digits, d < 8) ∧ IsFieldEnd stop ∧
        field = digits.map octalByte ++ stop :: rest ∧ octalValue digits 0 = value ∧
        value < 2 ^ 32) ∧
    (∀ ofs value, parseOctalWordLoop field ofs value = parseOctalLoop field ofs value) ∧
    ∀ (c : UInt8) (value : Nat), 0x30 ≤ c ∧ c ≤ 0x37 → ¬value > ulongMax / 8 →
      c.toNat - 0x30 + value * 8 < 2 ^ 32 := by
  refine ⟨fun value => ⟨fun h => ?_, ?_⟩, parseOctalWordLoop_eq field, fun c value hc hsmall => ?_⟩
  · rw [parseOctalWord, parseOctalWordLoop_eq] at h
    obtain ⟨digits, stop, rest, hlt, hpos, hstop, hfield, hv, hle⟩ :=
      digits_of_parseOctalLoop (Nat.zero_le _) h
    rw [ulongMax] at hle
    exact ⟨digits, stop, rest, List.ne_nil_of_length_pos (by omega), hlt, hstop, hfield, hv,
      by omega⟩
  · rintro ⟨digits, stop, rest, hne, hlt, hstop, rfl, rfl, hle⟩
    have hpos := List.length_pos_iff.mpr hne
    rw [parseOctalWord, parseOctalWordLoop_eq]
    exact parseOctalLoop_digits hlt (by omega) (by rw [ulongMax]; omega) hstop rest
  · have hle := accumulate_le_ulongMax hc hsmall
    rw [ulongMax] at hle
    omega

@[simp] theorem length_strlcpyField {n : Nat} (hn : 0 < n) (s : List UInt8) :
    (strlcpyField n s).length = n := by
  simp only [strlcpyField, List.length_append, List.length_take, List.length_replicate]
  omega

theorem length_formatOctal {w v : Nat} (hw : 0 < w) (hv : v < 8 ^ w) :
    (formatOctal w v).length = w := by
  have hlen := length_octalDigits_le hw hv
  simp only [formatOctal, List.length_map, List.length_append, List.length_replicate]
  omega

/-- **桁の足りる 8 進の field は、元の値に読める。** -/
theorem parseOctalField_octalField {w v : Nat} (hw : 0 < w) (hv : v < 8 ^ w)
    (hmax : v ≤ ulongMax) : parseOctalField (octalField (w + 1) w v) = some v := by
  have hlen := length_formatOctal hw hv
  have hfield : octalField (w + 1) w v = formatOctal w v ++ 0 :: [] := by
    rw [octalField, strlcpyField, Nat.add_sub_cancel, hlen, Nat.min_self,
      List.take_of_length_le (Nat.le_of_eq hlen), Nat.add_sub_cancel_left]
    rfl
  have hvalue : octalValue (List.replicate (w - (octalDigits v).length) 0 ++ octalDigits v) 0
      = v := by
    have hzero : ∀ n, octalValue (List.replicate n 0) 0 = 0 := fun n => by
      induction n with
      | zero => rfl
      | succ n ih => exact ih
    rw [octalValue, List.foldl_append]
    show octalValue (octalDigits v) (octalValue (List.replicate _ 0) 0) = v
    rw [hzero, octalValue_octalDigits]
  rw [parseOctalField, hfield, formatOctal]
  refine (parseOctalLoop_digits ?_ ?_ ?_ (.inr rfl) []).trans (congrArg some hvalue)
  · intro d hd
    rcases List.mem_append.mp hd with hd | hd
    · rw [(List.mem_replicate.mp hd).2]
      decide
    · exact octalDigits_lt hd
  · rw [formatOctal, List.length_map] at hlen
    omega
  · rwa [hvalue]

/-! ## 名前 -/

theorem stripLoop_suffix (fileName : List UInt8) : stripLoop fileName <:+ fileName := by
  fun_induction stripLoop fileName with
  | case1 fileName h ih =>
    exact ih.trans ((List.tail_suffix _).trans (List.dropWhile_suffix _))
  | case2 => exact List.suffix_refl _

theorem not_isAntisocial_stripLoop (fileName : List UInt8) :
    ¬isAntisocial (stripLoop fileName) := by
  fun_induction stripLoop fileName with
  | case1 fileName h ih => exact ih
  | case2 fileName h => exact h

variable {fileName : List UInt8}

theorem stripLoop_of_not (h : ¬isAntisocial fileName) : stripLoop fileName = fileName := by
  rw [stripLoop, dif_neg h]

theorem stripAntisocialPrefixes_idem (fileName : List UInt8) :
    stripAntisocialPrefixes (stripAntisocialPrefixes fileName)
      = stripAntisocialPrefixes fileName := by
  have hnot := not_isAntisocial_stripLoop fileName
  by_cases h : stripLoop fileName = [] ∨ stripLoop fileName = [0x2e, 0x2e]
  · have hdot : stripAntisocialPrefixes fileName = [0x2e] := if_pos h
    rw [hdot, stripAntisocialPrefixes, stripLoop_of_not (by decide)]
    rfl
  · have hkeep : stripAntisocialPrefixes fileName = stripLoop fileName := if_neg h
    rw [hkeep, stripAntisocialPrefixes, stripLoop_of_not hnot]
    exact if_neg h

theorem not_mem_stripAntisocialPrefixes (h : 0 ∉ fileName) :
    0 ∉ stripAntisocialPrefixes fileName := by
  simp only [stripAntisocialPrefixes]
  split
  · decide
  · exact fun hmem => h ((stripLoop_suffix fileName).subset hmem)

theorem stripAntisocialPrefixes_cases (fileName : List UInt8) :
    stripAntisocialPrefixes fileName = [0x2e] ∨
      stripAntisocialPrefixes fileName = stripLoop fileName ∧ stripLoop fileName ≠ [] ∧
        stripLoop fileName ≠ [0x2e, 0x2e] := by
  by_cases h : stripLoop fileName = [] ∨ stripLoop fileName = [0x2e, 0x2e]
  · exact .inl (if_pos h)
  · exact .inr ⟨if_neg h, (not_or.mp h).1, (not_or.mp h).2⟩

theorem length_stripAntisocialPrefixes {n : Nat} (hn : 0 < n) (h : fileName.length ≤ n)
    : (stripAntisocialPrefixes fileName).length ≤ n := by
  rcases stripAntisocialPrefixes_cases fileName with hdot | ⟨hkeep, -, -⟩
  · rw [hdot]
    exact hn
  · rw [hkeep]
    exact Nat.le_trans (stripLoop_suffix fileName).length_le h

/-- 空でなく、`'/'` と `"./"` と `"../"` で始まらず、`".."` でもない名前。 -/
structure Sociable (name : List UInt8) : Prop where
  ne_nil : name ≠ []
  not_slash : name.head? ≠ some 0x2f
  not_dot_slash : ¬[0x2e, 0x2f] <+: name
  not_dot_dot_slash : ¬[0x2e, 0x2e, 0x2f] <+: name
  ne_dot_dot : name ≠ [0x2e, 0x2e]

theorem sociable_stripAntisocialPrefixes (fileName : List UInt8) :
    Sociable (stripAntisocialPrefixes fileName) := by
  rcases stripAntisocialPrefixes_cases fileName with h | ⟨h, hne, hdots⟩
  · rw [h]
    constructor <;> decide
  · have hnot := not_isAntisocial_stripLoop fileName
    rw [h]
    simp only [isAntisocial, Bool.or_eq_true, beq_iff_eq, List.isPrefixOf_iff_prefix,
      not_or] at hnot
    exact ⟨hne, hnot.1.1, hnot.1.2, hnot.2, hdots⟩

/-- while の一回。最初の `'/'` の次へ進む。 -/
def skipSlash (fileName : List UInt8) : List UInt8 := (fileName.dropWhile (· ≠ 0x2f)).tail

/-- **while は、名前の長さの回数までに終わる。** -/
theorem stripLoop_terminates (fileName : List UInt8) :
    ∃ n ≤ fileName.length, stripLoop fileName = skipSlash^[n] fileName ∧
      (∀ m < n, isAntisocial (skipSlash^[m] fileName)) ∧
      ¬isAntisocial (skipSlash^[n] fileName) := by
  fun_induction stripLoop fileName with
  | case1 fileName h ih =>
    obtain ⟨n, hle, heq, hbefore, hstop⟩ := ih
    have hpos := List.length_pos_iff.mpr (ne_nil_of_isAntisocial h)
    have hdrop := (List.dropWhile_suffix (l := fileName) (· ≠ 0x2f)).length_le
    refine ⟨n + 1, by rw [List.length_tail] at hle; omega, heq, ?_, hstop⟩
    intro m hm
    cases m with
    | zero => exact h
    | succ m => exact hbefore m (by omega)
  | case2 fileName h => exact ⟨0, Nat.zero_le _, rfl, by simp, h⟩

/-! ## header の byte -/

namespace UstarHeader

structure WellSized (h : UstarHeader) : Prop where
  name : h.name.length = 100
  mode : h.mode.length = 8
  uid : h.uid.length = 8
  gid : h.gid.length = 8
  size : h.size.length = 12
  mtime : h.mtime.length = 12
  chksum : h.chksum.length = 8
  linkname : h.linkname.length = 100
  magic : h.magic.length = 6
  version : h.version.length = 2
  uname : h.uname.length = 32
  gname : h.gname.length = 32
  devmajor : h.devmajor.length = 8
  devminor : h.devminor.length = 8
  namePrefix : h.namePrefix.length = 155
  padding : h.padding.length = 12

variable {h : UstarHeader}

theorem WellSized.length_before (hs : h.WellSized) : h.before.length = 148 := by
  simp [before, hs.name, hs.mode, hs.uid, hs.gid, hs.size, hs.mtime]

theorem WellSized.length_after (hs : h.WellSized) : h.after.length = 356 := by
  simp [after, hs.linkname, hs.magic, hs.version, hs.uname, hs.gname, hs.devmajor, hs.devminor,
    hs.namePrefix, hs.padding]

theorem WellSized.length_toBytes (hs : h.WellSized) : h.toBytes.length = 512 := by
  rw [toBytes, List.length_append, List.length_append, hs.length_before, hs.length_after,
    hs.chksum]

theorem WellSized.ofBytes_toBytes (hs : h.WellSized) : ofBytes h.toBytes = h := by
  obtain ⟨hname, hmode, huid, hgid, hsize, hmtime, hchksum, hlinkname, hmagic, hversion, huname,
    hgname, hdevmajor, hdevminor, hpre, hpadding⟩ := hs
  cases h
  simp [ofBytes, toBytes, before, after, List.drop_append, List.drop_of_length_le,
    List.take_of_length_le, *]

end UstarHeader

/-! ## checksum -/

theorem calculateChksum_congr {a b : List UInt8}
    (h : ∀ i, i < 148 ∨ 156 ≤ i → a.getD i 0 = b.getD i 0) :
    calculateChksum a = calculateChksum b := by
  have hbyte : (fun i => if 148 ≤ i ∧ i < 156 then 0x20 else (a.getD i 0).toNat)
      = fun i => if 148 ≤ i ∧ i < 156 then 0x20 else (b.getD i 0).toNat := by
    funext i
    split
    · rfl
    · rw [h i (by omega)]
  unfold calculateChksum
  rw [hbyte]

variable {h : UstarHeader}

theorem calculateChksum_chksum {c : List UInt8} (hs : h.WellSized) (hc : c.length = 8) :
    calculateChksum { h with chksum := c }.toBytes = calculateChksum h.toBytes := by
  refine calculateChksum_congr fun i hi => ?_
  have hbefore : h.before.length = 148 := hs.length_before
  have hlen := hs.chksum
  show (h.before ++ c ++ h.after).getD i 0 = (h.before ++ h.chksum ++ h.after).getD i 0
  rcases hi with hlt | hge
  · rw [List.append_assoc, List.append_assoc, List.getD_append _ _ _ _ (by omega),
      List.getD_append _ _ _ _ (by omega)]
  · rw [List.getD_append_right _ _ _ _ (by rw [List.length_append]; omega),
      List.getD_append_right _ _ _ _ (by rw [List.length_append]; omega), List.length_append,
      List.length_append, hc, hlen]

theorem calculateChksum_lt (header : List UInt8) : calculateChksum header < 8 ^ 7 := by
  have hsum : ((List.range 512).map fun i =>
      if 148 ≤ i ∧ i < 156 then 0x20 else (header.getD i 0).toNat).sum ≤ 255 * 512 := by
    refine Nat.le_trans (List.sum_le_card_nsmul _ 255 ?_) (by simp)
    intro x hx
    obtain ⟨i, -, rfl⟩ := List.mem_map.mp hx
    split
    · decide
    · exact Nat.le_of_lt_succ (UInt8.toNat_lt _)
  exact Nat.lt_of_le_of_lt (Nat.mod_le ..) (Nat.lt_of_le_of_lt hsum (by decide))

/-! ## 往復 -/

theorem wellSized_ustarFill (fileName : List UInt8) (type : UstarType) (size : Nat)
    {chksum : List UInt8} (h : chksum.length = 8) :
    { ustarFill fileName type size with chksum }.WellSized := by
  constructor <;> simp [ustarFill, octalField, h]

theorem strlcpyField_name (hlen : s.length ≤ 99) :
    strlcpyField 100 s = s ++ List.replicate (100 - s.length) 0 := by
  rw [strlcpyField, List.take_of_length_le hlen, Nat.min_eq_left hlen]

theorem cstr_strlcpyField (hnul : 0 ∉ s) (hlen : s.length ≤ 99) :
    cstr (strlcpyField 100 s) = s := by
  have hne : ∀ c ∈ s, decide (c ≠ 0) = true := fun c hc =>
    decide_eq_true fun h0 => hnul (h0 ▸ hc)
  rw [strlcpyField_name hlen, cstr, List.takeWhile_append_of_pos hne]
  simp

theorem getD_strlcpyField (hlen : s.length ≤ 99) : (strlcpyField 100 s).getD 99 0 = 0 := by
  rw [strlcpyField_name hlen, List.getD_append_right _ _ _ _ hlen]
  simp

theorem ustarMakeHeader_eq (type : UstarType) (size : Nat)
    (h : (stripAntisocialPrefixes fileName).length ≤ 99) : ustarMakeHeader fileName type size =
      some { ustarFill (stripAntisocialPrefixes fileName) type size with
        chksum := octalField 8 7 (calculateChksum
          (ustarFill (stripAntisocialPrefixes fileName) type size).toBytes) }.toBytes :=
  if_neg (Nat.not_lt.mpr h)

theorem all_toBytes_eq_false (hmem : c ∈ h.magic) (hc : c ≠ 0) :
    h.toBytes.all (· == 0) = false := by
  refine List.all_eq_false.mpr ⟨c, ?_, by simpa using hc⟩
  simp [UstarHeader.toBytes, UstarHeader.after, hmem]

/-- 検査をどれも通る header は、書かれた種類の header と読まれる。directory の大きさは 0 である。 -/
theorem ustarParseHeader_toBytes {type : UstarType} {size : Nat} (hs : h.WellSized)
    (hmagic : h.magic = [0x75, 0x73, 0x74, 0x61, 0x72, 0]) (hversion : h.version = [0x30, 0x30])
    (hchksum : parseOctalField h.chksum = some (calculateChksum h.toBytes))
    (hname : h.name.getD 99 0 = 0) (hpre : h.namePrefix.getD 0 0 = 0)
    (htype : type = .regular ∨ type = .directory) (hflag : h.typeflag = type.typeflag)
    (hsize : parseOctalField h.size = some size) (hlt : size < 2 ^ 31) : ustarParseHeader h.toBytes
      = .ok ⟨some (stripAntisocialPrefixes (cstr h.name)), type,
          if type = .regular then size else 0⟩ := by
  have hall : ¬ h.toBytes.all (· == 0) = true := by
    rw [all_toBytes_eq_false (c := 0x75) (by simp [hmagic]) (by decide)]
    decide
  unfold ustarParseHeader
  rw [hs.ofBytes_toBytes, if_neg hall, if_neg (not_not.mpr hmagic), if_neg (not_not.mpr hversion)]
  rcases htype with rfl | rfl
  · simp only [hchksum, hname, hpre, hflag, hsize, ne_eq, not_true_eq_false, or_self, if_false,
      if_true]
    rw [if_neg (by omega)]
  · have hother : ¬UstarType.directory.typeflag = UstarType.regular.typeflag := by decide
    have hdir : ¬UstarType.directory = UstarType.regular := by decide
    simp only [hchksum, hname, hpre, hflag, hother, hdir, ne_eq, not_true_eq_false, or_self,
      if_false, if_true]

/-- **作った header を読むと、種類と名前と大きさが戻る。** -/
theorem ustarParseHeader_ustarMakeHeader_type {type : UstarType} {size : Nat} (hnul : 0 ∉ fileName)
    (hlen : (stripAntisocialPrefixes fileName).length ≤ 99)
    (htype : type = .regular ∨ type = .directory) (hsize : size < 2 ^ 31) :
    ∃ header, ustarMakeHeader fileName type size = some header ∧ header.length = 512 ∧
      ustarParseHeader header = .ok ⟨some (stripAntisocialPrefixes fileName), type,
        if type = .regular then size else 0⟩ := by
  have hfill : (ustarFill (stripAntisocialPrefixes fileName) type size).WellSized :=
    wellSized_ustarFill _ _ _ (by simp)
  refine ⟨_, ustarMakeHeader_eq type size hlen, ?_⟩
  have hidem := stripAntisocialPrefixes_idem fileName
  have hnul' := not_mem_stripAntisocialPrefixes hnul
  generalize stripAntisocialPrefixes fileName = name at hlen hfill hidem hnul' ⊢
  generalize hsum : calculateChksum (ustarFill name type size).toBytes = sum
  have hchksum : (octalField 8 7 sum).length = 8 := by simp [octalField]
  have hs := wellSized_ustarFill name type size hchksum
  refine ⟨hs.length_toBytes, ?_⟩
  -- 読んだ checksum は、書く前に数えた checksum である
  have hread : parseOctalField (octalField 8 7 sum) = some (calculateChksum
      { ustarFill name type size with chksum := octalField 8 7 sum }.toBytes) := by
    have hlt : sum < 8 ^ 7 := hsum ▸ calculateChksum_lt _
    rw [calculateChksum_chksum hfill hchksum, hsum]
    exact parseOctalField_octalField (by decide) hlt (Nat.le_of_lt (Nat.lt_trans hlt (by decide)))
  have hsizeField : parseOctalField (octalField 12 11 size) = some size :=
    parseOctalField_octalField (by decide) (Nat.lt_trans hsize (by decide))
      (Nat.le_of_lt (Nat.lt_trans hsize (by decide)))
  have hparse := ustarParseHeader_toBytes hs rfl rfl hread (getD_strlcpyField hlen) rfl htype rfl
    hsizeField hsize
  rw [hparse]
  show Except.ok (UstarEntry.mk (some (stripAntisocialPrefixes (cstr (strlcpyField 100 name)))) _ _)
    = _
  rw [cstr_strlcpyField hnul' hlen, hidem]

theorem ustarParseHeader_ustarMakeHeader {size : Nat} (hnul : 0 ∉ fileName)
    (hlen : (stripAntisocialPrefixes fileName).length ≤ 99) (hsize : size < 2 ^ 31) :
    ∃ header, ustarMakeHeader fileName .regular size = some header ∧ header.length = 512 ∧
      ustarParseHeader header = .ok ⟨some (stripAntisocialPrefixes fileName), .regular, size⟩ :=
  ustarParseHeader_ustarMakeHeader_type hnul hlen (.inl rfl) hsize

theorem ustarMakeHeader_eq_none_iff (fileName : List UInt8) (type : UstarType) (size : Nat) :
    ustarMakeHeader fileName type size = none ↔
      99 < (stripAntisocialPrefixes fileName).length := by
  constructor
  · intro h
    refine Nat.lt_of_not_le fun hle => ?_
    rw [ustarMakeHeader_eq type size hle] at h
    cases h
  · exact fun h => if_pos h

/-- **通常の file と directory の header の往復。** header が作れないのは、接頭辞を除いた名前が 99 byte
より長いときに限る。 -/
theorem ustarHeader_roundtrip {fileName : List UInt8} {type : UstarType} {size : Nat}
    (hnul : 0 ∉ fileName) (htype : type = .regular ∨ type = .directory)
    (hsize : size ≤ 2 ^ 31 - 1) :
    ((stripAntisocialPrefixes fileName).length ≤ 99 →
      ∃ header, ustarMakeHeader fileName type size = some header ∧ header.length = 512 ∧
        ustarParseHeader header = .ok ⟨some (stripAntisocialPrefixes fileName), type,
          if type = .regular then size else 0⟩) ∧
    (ustarMakeHeader fileName type size = none ↔
      99 < (stripAntisocialPrefixes fileName).length) :=
  ⟨fun hlen => ustarParseHeader_ustarMakeHeader_type hnul hlen htype (by omega),
    ustarMakeHeader_eq_none_iff fileName type size⟩

/-- `"../bin"` という directory の header は、往復する。 -/
theorem ustarHeader_roundtrip_directory :
    ∃ header, ustarMakeHeader [0x2e, 0x2e, 0x2f, 0x62, 0x69, 0x6e] .directory 512 = some header ∧
      header.length = 512 ∧
      ustarParseHeader header
        = .ok ⟨some (stripAntisocialPrefixes [0x2e, 0x2e, 0x2f, 0x62, 0x69, 0x6e]), .directory,
            0⟩ :=
  (ustarHeader_roundtrip (by decide) (.inr rfl) (by decide)).1
    (length_stripAntisocialPrefixes (by decide) (by decide))

/-! ## 読んだ名前と大きさ -/

theorem ustarParseHeader_ok {header : List UInt8} {entry : UstarEntry}
    (h : ustarParseHeader header = .ok entry) (htype : entry.type ≠ .eof) :
    parseOctalField (UstarHeader.ofBytes header).chksum = some (calculateChksum header) ∧
      (UstarHeader.ofBytes header).name.getD 99 0 = 0 ∧
      entry.fileName = some (stripAntisocialPrefixes (cstr (UstarHeader.ofBytes header).name)) ∧
      entry.size ≤ 2 ^ 31 - 1 := by
  unfold ustarParseHeader at h
  extract_lets hd fileName at h
  split at h
  · obtain rfl := Except.ok.inj h
    exact absurd rfl htype
  split at h
  · cases h
  split at h
  · cases h
  split at h
  · cases h
  next chksum hchksum =>
  split at h
  · cases h
  next hsum =>
  have heq : chksum = calculateChksum header := not_not.mp hsum
  rw [heq] at hchksum
  split at h
  · cases h
  next hname =>
  refine ⟨hchksum, not_not.mp (not_or.mp hname).1, ?_⟩
  split at h
  · split at h
    · cases h
    · split at h
      · cases h
      · next size _ hsmall =>
        obtain rfl := Except.ok.inj h
        exact ⟨rfl, Nat.le_of_not_lt hsmall⟩
  · split at h
    · obtain rfl := Except.ok.inj h
      exact ⟨rfl, Nat.zero_le _⟩
    · cases h

theorem length_cstr_le {name : List UInt8} {n : Nat} (hlen : n < name.length)
    (hnul : name.getD n 0 = 0) : (cstr name).length ≤ n := by
  refine Nat.le_of_not_lt fun hlt => ?_
  have hpre : cstr name <+: name := List.takeWhile_prefix _
  have hget : (cstr name)[n] = 0 := by
    rw [hpre.getElem hlt]
    rwa [List.getD_eq_getElem _ _ hlen] at hnul
  have hmem : (0 : UInt8) ∈ cstr name := hget ▸ List.getElem_mem hlt
  simpa using List.mem_takeWhile_imp hmem

/-- **どんな 512 byte でも、読めた名前は安全で、大きさは `int` に収まり、checksum は合っている。** -/
theorem ustarParseHeader_safe {header : List UInt8} (hlen : header.length = 512) :
    (∀ entry, ustarParseHeader header = .ok entry → entry.type ≠ .eof →
      (∃ name, entry.fileName = some name ∧ 0 ∉ name ∧ name.length ≤ 99 ∧ Sociable name) ∧
      entry.size ≤ 2 ^ 31 - 1 ∧
      parseOctalField (UstarHeader.ofBytes header).chksum = some (calculateChksum header)) ∧
    ∀ fileName,
      (∃ n ≤ fileName.length, stripLoop fileName = skipSlash^[n] fileName ∧
        (∀ m < n, isAntisocial (skipSlash^[m] fileName)) ∧
        ¬isAntisocial (skipSlash^[n] fileName)) ∧
      stripAntisocialPrefixes (stripAntisocialPrefixes fileName)
        = stripAntisocialPrefixes fileName := by
  refine ⟨fun entry h htype => ?_,
    fun fileName => ⟨stripLoop_terminates fileName, stripAntisocialPrefixes_idem fileName⟩⟩
  obtain ⟨hchksum, hnul, hname, hsize⟩ := ustarParseHeader_ok h htype
  have hfield : 99 < (UstarHeader.ofBytes header).name.length := by
    simp [UstarHeader.ofBytes, hlen]
  have hcstr := length_cstr_le hfield hnul
  have hclean : 0 ∉ cstr (UstarHeader.ofBytes header).name := fun hmem => by
    simpa using List.mem_takeWhile_imp hmem
  exact ⟨⟨_, hname, not_mem_stripAntisocialPrefixes hclean,
    length_stripAntisocialPrefixes (by decide) hcstr, sociable_stripAntisocialPrefixes _⟩, hsize,
    hchksum⟩

/-- `"/a"` という file の header が、安全な名前に読まれる。 -/
theorem ustarParseHeader_safe_slash :
    ∃ header entry, header.length = 512 ∧ ustarParseHeader header = .ok entry ∧
      entry.type ≠ .eof ∧
      (∃ name, entry.fileName = some name ∧ 0 ∉ name ∧ name.length ≤ 99 ∧ Sociable name) ∧
      entry.size ≤ 2 ^ 31 - 1 ∧
      parseOctalField (UstarHeader.ofBytes header).chksum = some (calculateChksum header) := by
  have hshort : (stripAntisocialPrefixes [0x2f, 0x61]).length ≤ 99 :=
    length_stripAntisocialPrefixes (by decide) (by decide)
  have hclean : (0 : UInt8) ∉ [0x2f, 0x61] := by decide
  obtain ⟨header, -, hlen, hparse⟩ :=
    ustarParseHeader_ustarMakeHeader hclean hshort (show 5 < 2 ^ 31 by decide)
  refine ⟨header, _, hlen, hparse, by decide, ?_⟩
  exact (ustarParseHeader_safe hlen).1 _ hparse (by decide)

end Pintos
