import Mathlib.Logic.Function.Basic

/-!
# 遷移系と実行

状態 `σ` と label `ε` を持つ遷移系と、その到達可能性。
この module は特定の program を何も知らない。

安全性の theorem はどれも「初期状態で成り立つ」「一歩で保たれる」の二つに帰着させる。
既に示した不変量を仮定に足して次の不変量を示せるように、
`invariant_of` は前の不変量 `J` を受け取る形にしてある。
-/

namespace Pintos.Infra

variable {σ ε ω : Type}

/-- label 付きの遷移系。 -/
structure System (σ ε : Type) where
  init : σ → Prop
  step : σ → ε → σ → Prop

/-- 条件 `C` を満たす一歩だけからなる実行で到達できる状態。 -/
inductive ReachableIf (S : System σ ε) (C : σ → ε → Prop) : σ → Prop
  | init {s : σ} : S.init s → ReachableIf S C s
  | step {s s' : σ} {e : ε} : ReachableIf S C s → C s e → S.step s e s' → ReachableIf S C s'

/-- 到達可能な状態。 -/
def Reachable (S : System σ ε) : σ → Prop := ReachableIf S fun _ _ => True

/-- `obs` が読み取る観測を左から並べた列を持つ実行。 -/
inductive Run (S : System σ ε) (obs : σ → ε → List ω) (s₀ : σ) : List ω → σ → Prop
  | init : S.init s₀ → Run S obs s₀ [] s₀
  | step {tr : List ω} {s s' : σ} {e : ε} :
      Run S obs s₀ tr s → S.step s e s' → Run S obs s₀ (tr ++ obs s e) s'

section

variable {S : System σ ε} {C : σ → ε → Prop} {obs : σ → ε → List ω}
  {s s' s₀ : σ} {tr : List ω} {I J : σ → Prop}

theorem ReachableIf.reachable (h : ReachableIf S C s) : Reachable S s := by
  induction h with
  | init hi => exact ReachableIf.init hi
  | step _ _ hs ih => exact ReachableIf.step ih trivial hs

theorem ReachableIf.mono {D : σ → ε → Prop} (hCD : ∀ s e, C s e → D s e)
    (h : ReachableIf S C s) : ReachableIf S D s := by
  induction h with
  | init hi => exact .init hi
  | step _ hc hs ih => exact .step ih (hCD _ _ hc) hs

theorem Reachable.next {e : ε} (h : Reachable S s) (hs : S.step s e s') : Reachable S s' :=
  ReachableIf.step h trivial hs

/-- 状態 `s` から始め直す。 -/
def System.restart (S : System σ ε) (s : σ) : System σ ε := { S with init := (· = s) }

theorem Reachable.trans (h : Reachable S s) (h' : Reachable (S.restart s) s') : Reachable S s' := by
  induction h' with
  | init hi =>
    rw [show _ = s from hi]
    exact h
  | step _ _ hs ih => exact ih.next hs

/-- **不変量の規則。** `J` は既に示してある不変量で、一歩の前後で使ってよい。 -/
theorem ReachableIf.invariant_of (hJ : ∀ s, Reachable S s → J s) (h0 : ∀ s, S.init s → I s)
    (hstep : ∀ s e s', J s → I s → C s e → S.step s e s' → I s')
    (h : ReachableIf S C s) : I s := by
  induction h with
  | init hi => exact h0 _ hi
  | step hr hc hs ih => exact hstep _ _ _ (hJ _ hr.reachable) ih hc hs

theorem Reachable.invariant (h0 : ∀ s, S.init s → I s)
    (hstep : ∀ s e s', I s → S.step s e s' → I s') (h : Reachable S s) : I s :=
  ReachableIf.invariant_of (J := fun _ => True) (fun _ _ => trivial) h0
    (fun s e s' _ hi _ hs => hstep s e s' hi hs) h

theorem Reachable.invariant_of (hJ : ∀ s, Reachable S s → J s)
    (h0 : ∀ s, S.init s → I s) (hstep : ∀ s e s', J s → I s → S.step s e s' → I s')
    (h : Reachable S s) : I s :=
  ReachableIf.invariant_of hJ h0 (fun s e s' hj hi _ hs => hstep s e s' hj hi hs) h

theorem Run.reachable (h : Run S obs s₀ tr s) : Reachable S s := by
  induction h with
  | init hi => exact ReachableIf.init hi
  | step _ hs ih => exact ih.next hs

/-- 実行に沿った不変量の規則。観測の列についての性質も書ける。 -/
theorem Run.invariant_of {I : List ω → σ → Prop}
    (hJ : ∀ s, Reachable S s → J s) (h0 : S.init s₀ → I [] s₀)
    (hstep : ∀ tr s e s', J s → I tr s → S.step s e s' → I (tr ++ obs s e) s')
    (h : Run S obs s₀ tr s) : I tr s := by
  induction h with
  | init hi => exact h0 hi
  | step hr hs ih => exact hstep _ _ _ _ (hJ _ hr.reachable) ih hs

end

/-- **模倣の規則。** 一歩ごとに模倣できれば、同じ label の列の実行を模倣できる。 -/
theorem Run.simulate {τ : Type} {S : System σ ε} {T : System τ ε} {R : σ → τ → Prop}
    {s₀ s : σ} {t₀ : τ} {tr : List ε} (hinit : T.init t₀) (hR : R s₀ t₀)
    (hstep : ∀ s e s' t, R s t → S.step s e s' → ∃ t', T.step t e t' ∧ R s' t')
    (h : Run S (fun _ e => [e]) s₀ tr s) : ∃ t, Run T (fun _ e => [e]) t₀ tr t ∧ R s t := by
  induction h with
  | init _ => exact ⟨t₀, .init hinit, hR⟩
  | step _ hs ih =>
    obtain ⟨t, hrun, hRt⟩ := ih
    obtain ⟨t', ht, hRt'⟩ := hstep _ _ _ _ hRt hs
    exact ⟨t', hrun.step ht, hRt'⟩

/-! ## 計算できる一歩

一歩が `Option` で計算できる遷移系では、label の列を与えれば実行が一つ決まる。
反例の実行はこの形で与える。
-/

/-- 計算できる一歩から作る遷移系。 -/
def System.ofFun (init : σ → Prop) (f : σ → ε → Option σ) : System σ ε where
  init := init
  step s e s' := f s e = some s'

/-- label の列に沿って一歩を繰り返す。 -/
def runEvents (f : σ → ε → Option σ) : σ → List ε → Option σ
  | s, [] => some s
  | s, e :: es => (f s e).bind fun s' => runEvents f s' es

section

variable {init : σ → Prop} {f : σ → ε → Option σ} {s s' : σ}

theorem runEvents_preserves {P : σ → Prop} (hstep : ∀ s e s', f s e = some s' → P s → P s')
    (es : List ε) (hs : P s) (hr : runEvents f s es = some s') : P s' := by
  induction es generalizing s with
  | nil => exact Option.some.inj hr ▸ hs
  | cons e es ih =>
    obtain ⟨s₁, hf, hr⟩ := Option.bind_eq_some_iff.mp hr
    exact ih (hstep s e s₁ hf hs) hr

/-- 実行を一つ計算して、性質 `p` を満たす到達可能な状態を見つける。 -/
theorem exists_reachable_of_run (es : List ε) (hs : Reachable (System.ofFun init f) s)
    {p : σ → Bool} (h : (runEvents f s es).any p = true) :
    ∃ s', Reachable (System.ofFun init f) s' ∧ p s' = true := by
  obtain ⟨s', hr, hp⟩ := (Option.any_eq_true _ _).mp h
  exact ⟨s', runEvents_preserves (fun _ _ _ hf hs => Reachable.next hs hf) es hs hr, hp⟩

/-- 条件を満たさない一歩を除く。 -/
def guarded (C : σ → ε → Prop) [∀ s e, Decidable (C s e)] (f : σ → ε → Option σ) (s : σ) (e : ε) :
    Option σ :=
  if C s e then f s e else none

variable {C : σ → ε → Prop} [∀ s e, Decidable (C s e)]

theorem runEvents_guarded (es : List ε) (h : ReachableIf (System.ofFun init f) C s)
    (hr : runEvents (guarded C f) s es = some s') : ReachableIf (System.ofFun init f) C s' := by
  refine runEvents_preserves (fun s e s' hf hs => ?_) es h hr
  obtain ⟨hc, hf⟩ := Option.ite_none_right_eq_some.mp hf
  exact hs.step hc hf

theorem runEvents_of_guarded (es : List ε) (h : runEvents (guarded C f) s es = some s') :
    runEvents f s es = some s' := by
  induction es generalizing s with
  | nil => exact h
  | cons e es ih =>
    obtain ⟨s₁, hf, hr⟩ := Option.bind_eq_some_iff.mp h
    exact Option.bind_eq_some_iff.mpr ⟨s₁, (Option.ite_none_right_eq_some.mp hf).2, ih hr⟩

theorem exists_reachableIf_of_run (es : List ε) (hs : ReachableIf (System.ofFun init f) C s)
    {p : σ → Bool} (h : (runEvents (guarded C f) s es).any p = true) :
    ∃ s', ReachableIf (System.ofFun init f) C s' ∧ p s' = true := by
  obtain ⟨s', hr, hp⟩ := (Option.any_eq_true _ _).mp h
  exact ⟨s', runEvents_guarded es hs hr, hp⟩

end

/-- label の列に沿った観測の列。 -/
def traceEvents (f : σ → ε → Option σ) (obs : σ → ε → List ω) : σ → List ε → List ω
  | _, [] => []
  | s, e :: es =>
    match f s e with
    | none => []
    | some s' => obs s e ++ traceEvents f obs s' es

theorem Run.events {init : σ → Prop} {f : σ → ε → Option σ} {obs : σ → ε → List ω} {s₀ s s' : σ}
    {tr : List ω} (es : List ε) (h : Run (System.ofFun init f) obs s₀ tr s)
    (hr : runEvents f s es = some s') :
    Run (System.ofFun init f) obs s₀ (tr ++ traceEvents f obs s es) s' := by
  induction es generalizing tr s with
  | nil =>
    rw [traceEvents, List.append_nil, ← Option.some.inj hr]
    exact h
  | cons e es ih =>
    obtain ⟨s₁, hf, hr⟩ := Option.bind_eq_some_iff.mp hr
    rw [traceEvents, hf, ← List.append_assoc]
    exact ih (h.step hf) hr

end Pintos.Infra
