import Mathlib.Data.List.Basic
import Mathlib.Data.List.Induction
import Mathlib.Logic.Basic
import Mathlib.Tactic.Common

/-! A run starts in an initial state and takes labelled steps; the trace lists the labels, the
latest last. -/

namespace Run

variable {σ ℓ : Type*}

/-- `Reach step init tr s`: the trace `tr` leads from an initial state to `s`. -/
inductive Reach (step : ℓ → σ → σ → Prop) (init : σ → Prop) : List ℓ → σ → Prop
  | start {s : σ} : init s → Reach step init [] s
  | step {tr : List ℓ} {a : ℓ} {s t : σ} :
      Reach step init tr s → step a s t → Reach step init (tr ++ [a]) t

variable {step : ℓ → σ → σ → Prop} {init : σ → Prop} {tr : List ℓ} {s : σ}

/-- A run of one step. -/
theorem Reach.first {a : ℓ} {t : σ} (hs : init s) (h : step a s t) : Reach step init [a] t :=
  .step (.start hs) h

/-- The last step of a run. -/
theorem Reach.last {a : ℓ} {t : σ} (h : Reach step init (tr ++ [a]) t) :
    ∃ s, Reach step init tr s ∧ step a s t := by
  generalize heq : tr ++ [a] = tr' at h
  cases h with
  | start hs => simp at heq
  | @step tr'' b s t hreach hs =>
    obtain ⟨rfl, hab⟩ := List.append_inj' heq rfl
    obtain rfl := List.singleton_inj.mp hab
    exact ⟨s, hreach, hs⟩

/-- A run of a relation is a run of any larger one. -/
theorem Reach.mono {step' : ℓ → σ → σ → Prop} (h : Reach step init tr s)
    (hstep : ∀ a s t, step a s t → step' a s t) : Reach step' init tr s := by
  induction h with
  | start hs => exact .start hs
  | step _ hs ih => exact ih.step (hstep _ _ _ hs)

/-- Every beginning of a trace is the trace of a run. -/
theorem Reach.of_prefix {pre : List ℓ} (h : Reach step init tr s) (hpre : pre <+: tr) :
    ∃ t, Reach step init pre t := by
  induction h with
  | start hs =>
    obtain rfl := List.prefix_nil.mp hpre
    exact ⟨_, .start hs⟩
  | @step tr a s t hreach hs ih =>
    rcases List.prefix_concat_iff.mp hpre with rfl | hpre
    · exact ⟨t, hreach.step hs⟩
    · exact ih hpre

/-- A run goes on with labels that a partial function executes. -/
theorem Reach.append_foldlM {f : σ → ℓ → Option σ} {l : List ℓ} {t : σ} (h : Reach step init tr s)
    (hf : ∀ a ∈ l, ∀ s t, f s a = some t → step a s t) (hl : l.foldlM f s = some t) :
    Reach step init (tr ++ l) t := by
  induction l generalizing tr s with
  | nil =>
    obtain rfl := Option.some.inj hl
    rwa [List.append_nil]
  | cons a l ih =>
    obtain ⟨u, hu, hl⟩ := Option.bind_eq_some_iff.mp (List.foldlM_cons.symm.trans hl)
    have hnext := ih (h.step (hf a (List.mem_cons_self ..) s u hu))
      (fun b hb => hf b (List.mem_cons_of_mem _ hb)) hl
    rwa [List.append_assoc] at hnext

/-- A property of the trace and the state that holds initially and is kept by every step of a run
holds all along. -/
theorem Reach.traceInvariant {I : List ℓ → σ → Prop} (h : Reach step init tr s)
    (hinit : ∀ s, init s → I [] s)
    (hstep : ∀ tr a s t, Reach step init tr s → I tr s → step a s t → I (tr ++ [a]) t) :
    I tr s := by
  induction h with
  | start hs => exact hinit _ hs
  | step hreach hs ih => exact hstep _ _ _ _ hreach ih hs

/-- A property of states that holds initially and is kept by every step holds in every state of a
run. -/
theorem Reach.invariant {I : σ → Prop} (h : Reach step init tr s) (hinit : ∀ s, init s → I s)
    (hstep : ∀ a s t, I s → step a s t → I t) : I s :=
  h.traceInvariant (I := fun _ => I) hinit fun _ a s t _ hI hs => hstep a s t hI hs

/-- A run with at least `n` labels of some kind passes through a state with exactly `n` of them. -/
theorem Reach.exists_prefix_countP {p : ℓ → Bool} {n : ℕ} (h : Reach step init tr s)
    (hn : n ≤ tr.countP p) :
    ∃ pre t, pre <+: tr ∧ Reach step init pre t ∧ pre.countP p = n := by
  induction h with
  | start hs =>
    refine ⟨[], _, List.prefix_refl _, .start hs, ?_⟩
    exact (Nat.le_zero.mp hn).symm
  | @step tr a s t hreach hs ih =>
    by_cases hle : n ≤ tr.countP p
    · obtain ⟨pre, u, hpre, hu, hcount⟩ := ih hle
      exact ⟨pre, u, hpre.trans (List.prefix_append _ _), hu, hcount⟩
    · refine ⟨tr ++ [a], t, List.prefix_refl _, hreach.step hs, ?_⟩
      have hone : [a].countP p ≤ 1 := List.countP_le_length
      rw [List.countP_append] at hn ⊢
      omega

/-- A property of states and a property of steps hold all along a run exactly when no step is bad:
as long as none is, there is an invariant, and a bad step breaks one of the properties at once. -/
theorem Reach.forall_prefix_step_iff {I P : σ → Prop} {Q : ℓ → σ → σ → Prop} {B : ℓ → σ → Prop}
    (hinit : ∀ s, init s → I s) (hI : ∀ s, I s → P s)
    (hgood : ∀ a s t, I s → step a s t → ¬ B a s → I t ∧ Q a s t)
    (hbad : ∀ a s t, I s → step a s t → B a s → P t → ¬ Q a s t) (tr : List ℓ) :
    ((∀ pre s, pre <+: tr → Reach step init pre s → P s) ∧
      ∀ pre a s t, pre ++ [a] <+: tr → Reach step init pre s → step a s t → Q a s t) ↔
      ∀ pre a s t, pre ++ [a] <+: tr → Reach step init pre s → step a s t → ¬ B a s := by
  have hinv :
      (∀ pre a s t, pre ++ [a] <+: tr → Reach step init pre s → step a s t → I s → ¬ B a s) →
      ∀ pre s, Reach step init pre s → pre <+: tr → I s := by
    intro hclean pre s h
    induction h with
    | start hs => exact fun _ => hinit _ hs
    | @step pre a s t hreach hs ih =>
      intro hpre
      have hIs := ih ((List.prefix_append _ _).trans hpre)
      exact (hgood a s t hIs hs (hclean pre a s t hpre hreach hs hIs)).1
  constructor
  · rintro ⟨hP, hQ⟩ pre a s t hpre hreach hs
    have hclean : ∀ pre a s t, pre ++ [a] <+: tr → Reach step init pre s → step a s t → I s →
        ¬ B a s := fun pre a s t hpre hreach hs hIs hb =>
      hbad a s t hIs hs hb (hP _ t hpre (hreach.step hs)) (hQ pre a s t hpre hreach hs)
    exact hclean pre a s t hpre hreach hs
      (hinv hclean pre s hreach ((List.prefix_append _ _).trans hpre))
  · intro hclean
    have hIs := hinv fun pre a s t hpre hreach hs _ => hclean pre a s t hpre hreach hs
    refine ⟨fun pre s hpre hreach => hI s (hIs pre s hreach hpre), fun pre a s t hpre hreach hs =>
      ?_⟩
    exact (hgood a s t (hIs pre s hreach ((List.prefix_append _ _).trans hpre)) hs
      (hclean pre a s t hpre hreach hs)).2

/-- A property holds in all states of a run exactly when no step is bad: as long as none is, there
is an invariant, and a bad step breaks the property at once. -/
theorem Reach.forall_prefix_iff {I P : σ → Prop} {B : ℓ → σ → Prop}
    (hinit : ∀ s, init s → I s) (hI : ∀ s, I s → P s)
    (hgood : ∀ a s t, I s → step a s t → ¬ B a s → I t)
    (hbad : ∀ a s t, I s → step a s t → B a s → ¬ P t) (tr : List ℓ) :
    (∀ pre s, pre <+: tr → Reach step init pre s → P s) ↔
      ∀ pre a s t, pre ++ [a] <+: tr → Reach step init pre s → step a s t → ¬ B a s := by
  have hiff := Reach.forall_prefix_step_iff (Q := fun _ _ _ => True) hinit hI
    (fun a s t hIs hs hb => ⟨hgood a s t hIs hs hb, trivial⟩)
    (fun a s t hIs hs hb hP => absurd hP (hbad a s t hIs hs hb)) tr
  rw [← hiff]
  exact ⟨fun hP => ⟨hP, fun _ _ _ _ _ _ _ => trivial⟩, fun h => h.1⟩

/-- The same for a function that takes the steps. -/
theorem forall_prefix_foldl_iff {op : σ → ℓ → σ} {I P : σ → Prop} {B : ℓ → σ → Prop}
    (hinit : I s) (hI : ∀ s, I s → P s) (hgood : ∀ a ∈ tr, ∀ s, I s → ¬ B a s → I (op s a))
    (hbad : ∀ a ∈ tr, ∀ s, I s → B a s → ¬ P (op s a)) :
    (∀ pre, pre <+: tr → P (pre.foldl op s)) ↔
      ∀ pre a, pre ++ [a] <+: tr → ¬ B a (pre.foldl op s) := by
  have hmem : ∀ pre a, pre ++ [a] <+: tr → a ∈ tr :=
    fun pre a hpre => hpre.subset (List.mem_append_right _ (List.mem_singleton_self a))
  have hlast : ∀ pre a, (pre ++ [a]).foldl op s = op (pre.foldl op s) a :=
    fun pre a => List.foldl_concat ..
  constructor
  · intro hP
    have hinv : ∀ pre, pre <+: tr → I (pre.foldl op s) := by
      intro pre
      induction pre using List.reverseRecOn with
      | nil => exact fun _ => hinit
      | append_singleton pre a ih =>
        intro hpre
        have hIs := ih ((List.prefix_append _ _).trans hpre)
        have hPs := hP _ hpre
        rw [hlast] at hPs ⊢
        exact hgood a (hmem pre a hpre) _ hIs fun hb => hbad a (hmem pre a hpre) _ hIs hb hPs
    intro pre a hpre hb
    have hPs := hP _ hpre
    rw [hlast] at hPs
    exact hbad a (hmem pre a hpre) _ (hinv pre ((List.prefix_append _ _).trans hpre)) hb hPs
  · intro hclean pre
    have hinv : pre <+: tr → I (pre.foldl op s) := by
      induction pre using List.reverseRecOn with
      | nil => exact fun _ => hinit
      | append_singleton pre a ih =>
        intro hpre
        rw [hlast]
        exact hgood a (hmem pre a hpre) _ (ih ((List.prefix_append _ _).trans hpre))
          (hclean pre a hpre)
    exact fun hpre => hI _ (hinv hpre)

end Run
