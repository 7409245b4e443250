import Pintos.Properties.Semaphore

/-!
# lock の排他

lock の semaphore は 1 から始まる。その 1 を「札」と見ると、札はいつもちょうど一か所にある。

* semaphore の値の中
* `lock_acquire` の途中（値を下げ、holder を書く前）
* holder の手元
* `lock_release` の途中（holder を消し、値を上げる前）

途中の二つは `stack` の frame として数えられるので、札の数は状態だけから決まる（`tokens`）。
-/

namespace Pintos

open Infra Function

variable {k k' : Kernel} {s : SemaId} {tr : List Obs} {c : Code} {cs : List Code}

namespace Kernel

/-- 手元にある札の数。 -/
def held (k : Kernel) (l : LockId) : Nat := if k.holder l = none then 0 else 1

/-- lock `l` の札の総数。 -/
def tokens (k : Kernel) (l : LockId) : Nat :=
  (k.sema (.lock l)).value + k.frames (.lockSetHolder l) + k.frames (.semaUp (.lock l)) + k.held l

end Kernel

/-- 札を運んでいる frame。 -/
def Code.isToken (l : LockId) : Code → Bool
  | .lockSetHolder l' | .semaUp (.lock l') => l' = l
  | _ => false

variable {l' : LockId}

/-! ## 札の増減 -/

section Tokens

variable {l : LockId}

theorem tokens_congr (hsema : (k'.sema (.lock l)).value = (k.sema (.lock l)).value)
    (hholder : k'.holder l = k.holder l) (hframes : ∀ c, c.isToken l = true →
      k'.frames c = k.frames c) : k'.tokens l = k.tokens l := by
  unfold Kernel.tokens Kernel.held
  rw [hsema, hholder, hframes _ (by simp [Code.isToken]), hframes _ (by simp [Code.isToken])]

theorem tokens_push (hcur : k.cur < k.nextThread) (cs : List Code) :
    (k.push cs).tokens l =
      k.tokens l + cs.count (.lockSetHolder l) + cs.count (.semaUp (.lock l)) := by
  have hs := frames_push hcur cs (.lockSetHolder l)
  have hu := frames_push hcur cs (.semaUp (.lock l))
  have hv : ((k.push cs).sema (.lock l)).value = (k.sema (.lock l)).value := rfl
  have hh : (k.push cs).held l = k.held l := rfl
  unfold Kernel.tokens
  omega

theorem tokens_push_plain (hcur : k.cur < k.nextThread)
    (hcs : ∀ c ∈ cs, c.isToken l = false) : (k.push cs).tokens l = k.tokens l := by
  have hzero : ∀ c, c.isToken l = true → cs.count c = 0 := by
    intro c hc
    refine List.count_eq_zero.mpr fun hm => ?_
    rw [hcs c hm] at hc
    cases hc
  rw [tokens_push hcur, hzero _ (by simp [Code.isToken]), hzero _ (by simp [Code.isToken]),
    Nat.add_zero]

theorem tokens_setValue (k : Kernel) (s : SemaId) (v : Nat) :
    (k.setSema s { k.sema s with value := v }).tokens l +
        (if s = .lock l then (k.sema s).value else 0) =
      k.tokens l + if s = .lock l then v else 0 := by
  have hf : ∀ c, (k.setSema s { k.sema s with value := v }).frames c = k.frames c :=
    frames_congr rfl fun _ => rfl
  have hh : (k.setSema s { k.sema s with value := v }).held l = k.held l := rfl
  have hv : ((k.setSema s { k.sema s with value := v }).sema (.lock l)).value =
      if s = .lock l then v else (k.sema (.lock l)).value := by
    show (update k.sema s _ (.lock l)).value = _
    rw [update_apply]
    simp only [eq_comm]
    split <;> rfl
  unfold Kernel.tokens
  rw [hf, hf, hh, hv]
  split
  · next hs => subst hs; omega
  · omega

theorem Recalculated.tokens (hr : Recalculated k k') : k'.tokens l = k.tokens l := by
  have he := hr.eq
  exact tokens_congr (by rw [hr.sema]) (by rw [he]) fun c _ => frames_congr (by rw [he]) hr.stack c

theorem Code.not_isToken_of_isControl (h : c.isControl = true) : c.isToken l = false := by
  cases c <;> first | rfl | cases h

theorem tokens_down (hcur : k.cur < k.nextThread) (hval : (k.sema s).value ≠ 0) :
    ((k.setSema s { k.sema s with value := (k.sema s).value - 1 }).push (afterDown s)).tokens l =
      k.tokens l := by
  have hset := tokens_setValue (l := l) k s ((k.sema s).value - 1)
  have hpush := tokens_push (l := l)
    (k := k.setSema s { k.sema s with value := (k.sema s).value - 1 }) hcur (afterDown s)
  rw [hpush]
  by_cases hs : s = .lock l
  · subst hs
    have hc1 : (afterDown (.lock l)).count (.lockSetHolder l) = 1 := by simp [afterDown]
    have hc2 : (afterDown (.lock l)).count (.semaUp (.lock l)) = 0 := by simp [afterDown]
    rw [if_pos rfl, if_pos rfl] at hset
    omega
  · rw [if_neg hs, if_neg hs] at hset
    have hc1 : (afterDown s).count (.lockSetHolder l) = 0 := by
      refine List.count_eq_zero.mpr fun hm => hs ?_
      cases s with
      | lock l' => simpa [afterDown, eq_comm] using hm
      | _ => cases hm
    have hc2 : (afterDown s).count (.semaUp (.lock l)) = 0 := by
      cases s <;> simp [afterDown]
    omega

/-- 値を上げる。元の札が一つ足りなければ、一周して 0 に戻ることはない。 -/
theorem tokens_up {k₁ : Kernel} (hw : semaWake s k = .ok k₁) (hle : k.tokens l ≤ 1) :
    (semaIncrement s k₁).tokens l = k.tokens l + [Obs.up s].count (.up (.lock l)) := by
  have hwake : k₁.tokens l = k.tokens l := by
    refine tokens_congr (semaWake_value hw _) ?_ fun c _ => ?_
    · rcases semaWake_ok hw with ⟨-, rfl⟩ | ⟨t, ts, -, -, rfl⟩ <;> rfl
    · rcases semaWake_ok hw with ⟨-, rfl⟩ | ⟨t, ts, -, -, rfl⟩
      · rfl
      · refine frames_congr (by rfl) (fun u => ?_) c
        exact Kernel.readied_stack (k.setSema s { k.sema s with waiters := ts }) u t
  have hset : (semaIncrement s k₁).tokens l + (if s = .lock l then (k₁.sema s).value else 0) =
      k₁.tokens l + if s = .lock l then ((k₁.sema s).value + 1) % 2 ^ 32 else 0 :=
    tokens_setValue k₁ s _
  by_cases hs : s = .lock l
  · subst hs
    have hsmall : (k₁.sema (.lock l)).value ≤ k₁.tokens l := by
      unfold Kernel.tokens
      omega
    rw [if_pos rfl, if_pos rfl, Nat.mod_eq_of_lt (by omega)] at hset
    rw [List.count_singleton_self]
    omega
  · rw [if_neg hs, if_neg hs] at hset
    have hno : [Obs.up s].count (.up (.lock l)) = 0 :=
      List.count_eq_zero.mpr (by simpa [eq_comm] using hs)
    omega

theorem tokens_released (hcur : k.cur < k.nextThread) (hh : k.holder l' = some k.cur) :
    ({ k with holder := update k.holder l' none }.push [.semaUp (.lock l')]).tokens l =
      k.tokens l := by
  have hpush := tokens_push (l := l) (k := { k with holder := update k.holder l' none })
    hcur [.semaUp (.lock l')]
  rw [hpush]
  have hf : ∀ c, Kernel.frames { k with holder := update k.holder l' none } c =
      k.frames c := frames_congr rfl fun _ => rfl
  unfold Kernel.tokens Kernel.held
  rw [hf, hf]
  by_cases hl : l = l'
  · subst hl
    simp [hh]
  · have hl' : l' ≠ l := fun he => hl he.symm
    simp [hl, hl']

theorem tokens_pop (hcur : k.cur < k.nextThread) (hst : k.curThread.stack = c :: cs) :
    k.pop.tokens l + (if c.isToken l then 1 else 0) = k.tokens l := by
  have hs := frames_pop hcur hst (.lockSetHolder l)
  have hu := frames_pop hcur hst (.semaUp (.lock l))
  have hv : (k.pop.sema (.lock l)).value = (k.sema (.lock l)).value := rfl
  have hh : k.pop.held l = k.held l := rfl
  have hsplit : (if c.isToken l then 1 else 0) =
      (if c = .lockSetHolder l then 1 else 0) + if c = .semaUp (.lock l) then 1 else 0 := by
    cases c with
    | lockSetHolder l' => by_cases hl : l' = l <;> simp [Code.isToken, hl]
    | semaUp s =>
      cases s with
      | lock l' => by_cases hl : l' = l <;> simp [Code.isToken, hl]
      | _ => simp [Code.isToken]
    | _ => simp [Code.isToken]
  unfold Kernel.tokens
  omega

theorem tokens_allocated (k : Kernel) (p : Int) :
    (k.allocated p [.kernelThread]).tokens l = k.tokens l := by
  refine tokens_congr rfl rfl fun c hc => ?_
  rw [frames_allocated, List.count_eq_zero.mpr, Nat.add_zero]
  intro hm
  rw [List.mem_singleton.mp hm] at hc
  cases hc

/-- holder を書く操作のほかは、札は値を上げた分だけ増える。 -/
theorem Action.tokens (ha : Action k tr k') (h : WellFormed k)
    (hle : k.tokens l ≤ 1) (hacq : ∀ t, .acquired t l ∉ tr) :
    k'.tokens l = k.tokens l + tr.count (.up (.lock l)) := by
  have hcur := h.cur_created
  have hsame : k'.nextThread = k.nextThread → k'.sema = k.sema → k'.holder = k.holder →
      (∀ t, (k'.thread t).stack = (k.thread t).stack) → k'.tokens l = k.tokens l :=
    fun hn hsema hholder hstack =>
      tokens_congr (by rw [hsema]) (by rw [hholder]) fun c _ => frames_congr hn hstack c
  cases ha with
  | flags | counters | startIdle => exact hsame rfl rfl rfl fun _ => rfl
  | records th _ hstack _ | resort th _ hstack => exact hsame rfl rfl rfl hstack
  | setPriority p => exact hsame rfl rfl rfl fun _ => Kernel.modify_field Thread.stack fun _ => rfl
  | aging => exact (threadAging_recalculated k).tokens
  | push cs hcs =>
    exact tokens_push_plain hcur fun c hc => Code.not_isToken_of_isControl (hcs c hc)
  | unblock t _ _ => exact hsame rfl rfl rfl fun u => k.readied_stack u t
  | awake t ts _ _ =>
    exact hsame rfl rfl rfl fun u => Kernel.readied_stack { k with sleepList := ts } u t
  | up s k₁ hw => exact tokens_up hw hle
  | down s hval _ =>
    rw [tokens_down hcur hval]
    simp
  | create p _ =>
    have ha := h.allocated p
    exact (tokens_push_plain ha.cur_created (by simp [Code.isToken])).trans (tokens_allocated k p)
  | acquired l' =>
    have hne : l ≠ l' := by
      rintro rfl
      exact hacq k.cur (by simp)
    have hholder : (lockSetHolder l' k).holder l = k.holder l :=
      update_of_ne hne _ k.holder
    exact tokens_congr rfl hholder fun c _ => frames_congr rfl (fun _ => rfl) c
  | released l' hh _ =>
    rw [tokens_released hcur hh]
    simp

theorem Actions.tokens (ha : Actions k tr k') (h : WellFormed k)
    (hle : k.tokens l + tr.count (.up (.lock l)) ≤ 1) (hacq : ∀ t, .acquired t l ∉ tr) :
    k'.tokens l = k.tokens l + tr.count (.up (.lock l)) := by
  induction ha with
  | nil => simp
  | cons ha _ ih =>
    rw [List.count_append] at hle ⊢
    have hone := ha.tokens h (by omega) fun t ht => hacq t (List.mem_append_left _ ht)
    rw [ih (ha.wellFormed h) (by omega) fun t ht => hacq t (List.mem_append_right _ ht)]
    omega

theorem waiting_holder (k : Kernel) (c : Code) : (k.waiting c).holder = k.holder := by
  obtain ⟨_, _, he⟩ := k.waiting_eq c
  rw [he]
  rfl

theorem Switch.tokens (hs : Switch k k') (h : WellFormed k) : k'.tokens l = k.tokens l := by
  -- 離れる thread に積む frame `fs` は札でない
  have hleft : ∀ {k₀ : Kernel} {next : ThreadId} {rest : List ThreadId} (fs : List Code),
      k₀.nextThread = k.nextThread → k₀.holder = k.holder →
      (k₀.sema (.lock l)).value = (k.sema (.lock l)).value →
      (∀ u, (k₀.thread u).stack =
        if u = k.cur then fs ++ (k.thread u).stack else (k.thread u).stack) →
      (∀ c ∈ fs, c.isToken l = false) → (k₀.switchTo next rest).tokens l = k.tokens l := by
    intro k₀ next rest fs hn hholder hv hstack hfs
    rw [← tokens_push_plain h.cur_created hfs]
    have hn' : (k₀.switchTo next rest).nextThread = (k.push fs).nextThread := hn
    refine tokens_congr hv (congrFun hholder l) fun c _ => frames_congr hn' (fun u => ?_) c
    rw [Kernel.switchTo_stack, hstack, Kernel.push_stack]
  cases hs with
  | yield _ _ =>
    exact hleft [.intrSetLevel k.intrLevel] rfl rfl rfl k.yielded_stack (by simp [Code.isToken])
  | @block c _ _ _ hw _ _ _ _ =>
    refine hleft [c] (k.waiting_nextThread c) ?_ (waiting_value k c _)
      (fun u => k.waiting_stack u c) ?_
    · exact waiting_holder k c
    · intro d hd
      rw [List.mem_singleton.mp hd]
      cases c <;> first | rfl | cases hw
  | exit _ _ => exact hleft [] rfl rfl rfl (fun u => by simp) (by simp)

theorem Atomic.tokens (ha : Atomic k tr k') (h : WellFormed k)
    (hle : k.tokens l + tr.count (.up (.lock l)) ≤ 1) (hacq : ∀ t, .acquired t l ∉ tr) :
    k'.tokens l = k.tokens l + tr.count (.up (.lock l)) := by
  obtain ⟨k₁, hacts, rfl | hs⟩ := ha
  · exact hacts.tokens h hle hacq
  · rw [hs.tokens (hacts.wellFormed h), hacts.tokens h hle hacq]

end Tokens

/-! ## holder と出来事 -/

/-- 出来事 `o` の後の、lock `l` を獲得してまだ解放していない thread の列。 -/
def holdStep (l : LockId) (ts : List ThreadId) : Obs → List ThreadId
  | .acquired t l' => if l' = l then t :: ts else ts
  | .released t l' => if l' = l then ts.erase t else ts
  | _ => ts

/-- 実行の中で、lock `l` の獲得を終えてまだ解放していない thread の列。 -/
def holding (tr : List Obs) (l : LockId) : List ThreadId := tr.foldl (holdStep l) []

section Holder

variable {l : LockId}

/-- holder は、獲得してまだ解放していない thread をちょうど表す。 -/
def HolderTracks (l : LockId) (k : Kernel) (tr : List Obs) (k' : Kernel) : Prop :=
  tr.foldl (holdStep l) (k.holder l).toList = (k'.holder l).toList

theorem HolderTracks.of_eq (h : k'.holder = k.holder) : HolderTracks l k [] k' := by
  unfold HolderTracks
  rw [h]
  rfl

theorem HolderTracks.trans {k₁ : Kernel} {tr' : List Obs} (h : HolderTracks l k tr k₁)
    (h' : HolderTracks l k₁ tr' k') : HolderTracks l k (tr ++ tr') k' := by
  unfold HolderTracks at *
  rw [List.foldl_append, h, h']

theorem holderTracks_acquired (hnone : k.holder l' = none) :
    HolderTracks l k [.acquired k.cur l'] (lockSetHolder l' k) := by
  show (if l' = l then k.cur :: (k.holder l).toList else (k.holder l).toList) =
    (update k.holder l' (some k.cur) l).toList
  by_cases hl : l' = l
  · subst hl
    simp [hnone]
  · rw [if_neg hl, update_of_ne (fun he => hl he.symm)]

theorem holderTracks_released (hh : k.holder l' = some k.cur) :
    HolderTracks l k [.released k.cur l']
      ({ k with holder := update k.holder l' none }.push [.semaUp (.lock l')]) := by
  show (if l' = l then (k.holder l).toList.erase k.cur else (k.holder l).toList) =
    (update k.holder l' none l).toList
  by_cases hl : l' = l
  · subst hl
    simp [hh]
  · rw [if_neg hl, update_of_ne (fun he => hl he.symm)]

theorem Action.holderTracks (ha : Action k tr k')
    (hacq : ∀ t l, .acquired t l ∉ tr) : HolderTracks l k tr k' := by
  cases ha with
  | aging =>
    refine .of_eq ?_
    rw [(threadAging_recalculated k).eq]
  | up s k₁ hw =>
    show (k.holder l).toList = (k₁.holder l).toList
    rcases semaWake_ok hw with ⟨-, rfl⟩ | ⟨t, ts, -, -, rfl⟩ <;> rfl
  | down s _ _ => exact rfl
  | acquired l' => exact absurd (by simp) (hacq k.cur l')
  | released l' hh _ => exact holderTracks_released hh
  | _ => exact .of_eq rfl

theorem Actions.holderTracks (ha : Actions k tr k')
    (hacq : ∀ t l, .acquired t l ∉ tr) : HolderTracks l k tr k' := by
  induction ha with
  | nil => exact .of_eq rfl
  | cons ha _ ih =>
    exact (ha.holderTracks fun t l ht => hacq t l (List.mem_append_left _ ht)).trans
      (ih fun t l ht => hacq t l (List.mem_append_right _ ht))

theorem Atomic.holderTracks (ha : Atomic k tr k')
    (hacq : ∀ t l, .acquired t l ∉ tr) : HolderTracks l k tr k' := by
  obtain ⟨k₁, hacts, rfl | hs⟩ := ha
  · exact hacts.holderTracks hacq
  · have hsame : k'.holder = k₁.holder := by
      cases hs with
      | yield | exit => rfl
      | block _ _ _ _ _ _ => exact waiting_holder k₁ _
    have htr : HolderTracks l k (tr ++ []) k' := (hacts.holderTracks hacq).trans (.of_eq hsame)
    rwa [List.append_nil] at htr

end Holder

/-! ## 一歩 -/

section Step

variable {l : LockId}

theorem eq_lockSetHolder_of_acquired {t : ThreadId} (h : .acquired t l ∈ c.emits k) :
    c = .lockSetHolder l := by
  cases c with
  | semaDown | semaDownLoop | semaTryDown | lockAcquire | lockTryAcquire =>
    simp only [Code.emits] at h; split at h <;> simp at h
  | lockSetHolder l' =>
    have he : t = k.cur ∧ l = l' := by simpa [Code.emits] using h
    rw [he.2]
  | _ => simp [Code.emits] at h

theorem count_up_emits (c : Code) (l : LockId) :
    (c.emits k).count (.up (.lock l)) = if c = .semaUp (.lock l) then 1 else 0 := by
  cases c with
  | semaDown | semaDownLoop | semaTryDown | lockAcquire | lockTryAcquire =>
    simp only [Code.emits]; split <;> simp
  | semaUp s =>
    by_cases hs : s = .lock l
    · simp [Code.emits, hs]
    · simp [Code.emits, hs]
  | _ => simp [Code.emits]

theorem callable_ne (hc : c.callable k = true) : c ≠ .lockSetHolder l ∧ c ≠ .semaUp (.lock l) := by
  unfold Code.callable at hc
  constructor
  · rintro rfl
    split at hc <;> simp [Code.isCall] at hc
  · rintro rfl
    split at hc <;> simp [Code.isCall] at hc

/-- holder を書く一歩。札は手元に一つあるので、holder は空である。 -/
theorem lockSetHolder_step (hcur : k.cur < k.nextThread) (hone : ∀ l, k.tokens l = 1)
    (hst : k.curThread.stack = .lockSetHolder l' :: cs) (l : LockId) :
    (lockSetHolder l' k.pop).tokens l = 1 ∧
      HolderTracks l k [.acquired k.cur l'] (lockSetHolder l' k.pop) := by
  have hnone : k.holder l' = none := by
    have hpop := tokens_pop (l := l') hcur hst
    rw [if_pos (by simp [Code.isToken]), hone l'] at hpop
    by_contra hsome
    have hheld : k.pop.held l' = 1 := if_neg hsome
    unfold Kernel.tokens at hpop
    omega
  constructor
  · have hpop := tokens_pop (l := l) hcur hst
    rw [hone l] at hpop
    have hset : (lockSetHolder l' k.pop).tokens l + k.held l =
        k.pop.tokens l + (lockSetHolder l' k.pop).held l := by
      have hf : ∀ c, (lockSetHolder l' k.pop).frames c = k.pop.frames c :=
        frames_congr rfl fun _ => rfl
      have hh : k.pop.held l = k.held l := rfl
      have hv : (lockSetHolder l' k.pop).sema = k.pop.sema := rfl
      unfold Kernel.tokens
      rw [hf, hf, hv, hh]
      omega
    by_cases hl : l' = l
    · subst hl
      have h0 : k.held l' = 0 := if_pos hnone
      have h1 : (lockSetHolder l' k.pop).held l' = 1 := by
        simp [Kernel.held, lockSetHolder]
      rw [if_pos (by simp [Code.isToken])] at hpop
      omega
    · have hsame : (lockSetHolder l' k.pop).held l = k.held l := by
        have hne : l ≠ l' := fun he => hl he.symm
        simp [Kernel.held, lockSetHolder, hne]
      rw [if_neg (by simpa [Code.isToken] using hl)] at hpop
      omega
  · exact holderTracks_acquired (k := k.pop) hnone

theorem step_lock (h : WellFormed k) (hone : ∀ l, k.tokens l = 1) {e : Event}
    (hs : step k e = some k') (l : LockId) :
    k'.tokens l = 1 ∧ HolderTracks l k (k.obs e) k' := by
  -- 値を上げる frame を取り出した分だけ値が上がる
  rcases step_cases hs with ⟨c, rfl, hst, hc, hx⟩ | ⟨c, cs, rfl, hst, hx⟩ | ⟨hd, rfl, -, hp, hx⟩
  · have ha : Atomic k (c.emits k) k' := exec_atomic (inHand_call h hst hc) hx
    have hacq : ∀ t l, .acquired t l ∉ c.emits k := fun t l ht =>
      (callable_ne hc).1 (eq_lockSetHolder_of_acquired ht)
    have hup : (c.emits k).count (.up (.lock l)) = 0 := by
      rw [count_up_emits, if_neg (callable_ne hc).2]
    refine ⟨?_, ha.holderTracks hacq⟩
    rw [ha.tokens h (by rw [hup, hone]) fun t => hacq t l, hup, hone]
  · rw [Kernel.obs_resume hst]
    have ha := exec_atomic (inHand_resume h hst) hx
    have hpop := tokens_pop (l := l) h.cur_created hst
    rw [hone l] at hpop
    by_cases hset : ∃ l', c = .lockSetHolder l'
    · obtain ⟨l', rfl⟩ := hset
      rw [← Except.ok.inj hx]
      exact lockSetHolder_step h.cur_created hone hst l
    · have hacq : ∀ t l, .acquired t l ∉ c.emits k.pop := fun t l ht =>
        hset ⟨l, eq_lockSetHolder_of_acquired ht⟩
      have hup : (c.emits k.pop).count (.up (.lock l)) = if c.isToken l then 1 else 0 := by
        rw [count_up_emits]
        have htoken : c = .semaUp (.lock l) ↔ c.isToken l = true := by
          constructor
          · rintro rfl
            simp [Code.isToken]
          · intro ht
            cases c with
            | lockSetHolder l' => exact absurd ⟨l', rfl⟩ hset
            | semaUp s =>
              cases s with
              | lock l' =>
                have he : l' = l := by simpa [Code.isToken] using ht
                rw [he]
              | _ => cases ht
            | _ => cases ht
        simp only [htoken]
      refine ⟨?_, ha.holderTracks hacq⟩
      rw [ha.tokens (h.pop hst) (by rw [hup, hpop]) fun t => hacq t l, hup, hpop]
  · have ha : Atomic k hd.emits k' := by
      refine intrHandler_atomic ?_ hx
      rintro t rfl
      exact h.loose_of_selfBlocked hp
    have hno : (∀ t l, .acquired t l ∉ hd.emits) ∧ hd.emits.count (.up (.lock l)) = 0 := by
      cases hd with
      | semaUp s =>
        cases s with
        | user n => simp [Handler.emits]
        | _ => cases hp
      | _ => simp [Handler.emits]
    refine ⟨?_, ha.holderTracks hno.1⟩
    rw [ha.tokens h (by rw [hno.2, hone]) fun t => hno.1 t l, hno.2, hone]

end Step

/-! ## 実行 -/

theorem boot_tokens (mode : SchedulingMode) (aging : Bool) (values : Nat → BitVec 32)
    (l : LockId) : (boot mode aging values).tokens l = 1 := by
  have hf : ∀ c, c.isToken l = true → (boot mode aging values).frames c = 0 := by
    intro c hc
    rw [boot_frames]
    have hnot : ∀ cs : List Code, (∀ d ∈ cs, d.isToken l = false) → cs.count c = 0 := by
      intro cs hcs
      refine List.count_eq_zero.mpr fun hm => ?_
      rw [hcs c hm] at hc
      cases hc
    rw [hnot bootStack (by simp [bootStack, Code.isToken]), hnot _ (by simp [Code.isToken])]
  unfold Kernel.tokens
  rw [hf _ (by simp [Code.isToken]), hf _ (by simp [Code.isToken])]
  rfl

theorem reachable_tokens (h : Reachable scheduler k) (l : LockId) : k.tokens l = 1 := by
  exact reachable_of_boot (P := fun k => ∀ l, k.tokens l = 1) (fun _ => reachable_wellFormed)
    boot_tokens (fun _ _ _ hw hone _ hs l => (step_lock hw hone hs l).1) h l

theorem holding_eq {k₀ : Kernel} (h : Run scheduler Kernel.obs k₀ tr k)
    (l : LockId) : holding tr l = (k.holder l).toList := by
  refine Run.invariant_of (I := fun tr k => holding tr l = (k.holder l).toList)
    (J := fun k => WellFormed k ∧ ∀ l, k.tokens l = 1)
    (fun _ hr => ⟨reachable_wellFormed hr, reachable_tokens hr⟩) ?_ ?_ h
  · intro h0
    obtain ⟨mode, aging, values, rfl⟩ := isBoot_iff.mp h0
    rfl
  · intro tr k₁ e k₂ hj hi hs
    have htr := (step_lock hj.1 hj.2 hs l).2
    unfold HolderTracks at htr
    unfold holding at hi ⊢
    rw [List.foldl_append, hi, htr]

theorem boot_value_lt (mode : SchedulingMode) (aging : Bool) (values : Nat → BitVec 32)
    (s : SemaId) : ((boot mode aging values).sema s).value < 2 ^ 32 := by
  cases s with
  | idleStarted => show 0 < 2 ^ 32; decide
  | user n => exact (values n).isLt
  | lock l => show 1 < 2 ^ 32; decide

theorem run_value {k₀ : Kernel} (h : Run scheduler Kernel.obs k₀ tr k)
    (s : SemaId) : tr.count (.down s) ≤ (k₀.sema s).value + tr.count (.up s) ∧
      (k.sema s).value =
        ((k₀.sema s).value + tr.count (.up s) - tr.count (.down s)) % 2 ^ 32 := by
  refine Run.invariant_of (I := fun tr k =>
      tr.count (.down s) ≤ (k₀.sema s).value + tr.count (.up s) ∧ (k.sema s).value =
        ((k₀.sema s).value + tr.count (.up s) - tr.count (.down s)) % 2 ^ 32)
    (fun _ => reachable_wellFormed) ?_ ?_ h
  · intro h0
    obtain ⟨mode, aging, values, rfl⟩ := isBoot_iff.mp h0
    simp only [List.count_nil]
    exact ⟨Nat.zero_le _, (Nat.mod_eq_of_lt (boot_value_lt mode aging values s)).symm⟩
  · intro tr k₁ e k₂ hw hi hs
    obtain ⟨hle, heq⟩ := step_value hw hs s _ hi.2
    rw [List.count_append, List.count_append]
    refine ⟨by omega, ?_⟩
    rw [heq]
    congr 1
    omega

/--
**semaphore と lock の保証。** どの実行でも、

* 値は「初期値 + 上げた回数 − 下げた回数」で、下げすぎることは無い
* 待つ thread があれば、値は起こされてまだ値を見直していない thread の数を超えない
* どの lock でも、獲得を終えてまだ解放していない thread は高々一つで、
  holder があれば semaphore の値は 0 である
-/
theorem run_semaphore {k₀ : Kernel} {tr : List Obs} (h : Run scheduler Kernel.obs k₀ tr k) :
    (∀ s, tr.count (.down s) ≤ (k₀.sema s).value + tr.count (.up s) ∧
      ((k₀.sema s).value + tr.count (.up s) - tr.count (.down s) < 2 ^ 32 →
        (k.sema s).value = (k₀.sema s).value + tr.count (.up s) - tr.count (.down s))) ∧
    (∀ s, (k.sema s).waiters ≠ [] → (k.sema s).value ≤ k.woken s) ∧
    (∀ l, (holding tr l).length ≤ 1 ∧
      (k.holder l ≠ none → (k.sema (.lock l)).value = 0)) := by
  refine ⟨fun s => ?_, fun s hne => reachable_noLostWakeup h.reachable s hne, fun l => ⟨?_, ?_⟩⟩
  · obtain ⟨hle, heq⟩ := run_value h s
    refine ⟨hle, fun hlt => ?_⟩
    rw [heq, Nat.mod_eq_of_lt hlt]
  · rw [holding_eq h]
    cases k.holder l <;> simp
  · intro hsome
    have hone := reachable_tokens h.reachable l
    have hheld : k.held l = 1 := if_neg hsome
    unfold Kernel.tokens at hone
    omega

/-- `thread_start` の実行では、`tid_lock` が使われ、`idle_started` が一度上げ下げされる。 -/
theorem run_semaphore_start :
    ∃ tr k, Run scheduler Kernel.obs (boot .priority false fun _ => 0) tr k ∧
      tr.count (.up .idleStarted) = 1 ∧ tr.count (.down .idleStarted) = 1 ∧
      .released 0 .tid ∈ tr ∧ (k.sema .idleStarted).value = 0 ∧ (holding tr .tid).length ≤ 1 := by
  have hinit := @Run.init Kernel Event Obs scheduler Kernel.obs _
    (isBoot_iff.mpr ⟨.priority, false, fun _ => 0, rfl⟩)
  cases hr : runEvents step (boot .priority false fun _ => 0) startEvents with
  | none =>
    have hsome : (runEvents step (boot .priority false fun _ => 0) startEvents).isSome = true := by
      decide +kernel
    rw [hr] at hsome
    cases hsome
  | some k =>
    have hrun := hinit.events startEvents hr
    obtain ⟨hcount, -, hlock⟩ := run_semaphore hrun
    have hup : (traceEvents step Kernel.obs (boot .priority false fun _ => 0) startEvents).count
        (.up .idleStarted) = 1 := by decide +kernel
    have hdown : (traceEvents step Kernel.obs (boot .priority false fun _ => 0) startEvents).count
        (.down .idleStarted) = 1 := by decide +kernel
    have hrel : .released 0 .tid ∈
        traceEvents step Kernel.obs (boot .priority false fun _ => 0) startEvents := by
      decide +kernel
    rw [List.nil_append] at hcount hrun hlock
    have hv := (hcount .idleStarted).2
    rw [hup, hdown] at hv
    exact ⟨_, k, hrun, hup, hdown, hrel, hv (by decide), (hlock .tid).1⟩

end Pintos
