import Mathlib.Tactic.Common

/-! A component takes operations one after the other. An operation gives an output and the next
state, or is refused. One component refines another if they answer alike, as long as the operations
are allowed where they come. -/

namespace Refinement

variable {σ τ ℓ ω : Type*}

/-- The outputs of operations and the state behind them, unless one is refused. -/
def runs (step : σ → ℓ → Option (ω × σ)) : σ → List ℓ → Option (List ω × σ)
  | s, [] => some ([], s)
  | s, op :: ops => (step s op).bind fun next =>
    (runs step next.2 ops).map fun last => (next.1 :: last.1, last.2)

@[simp] theorem runs_nil (step : σ → ℓ → Option (ω × σ)) (s : σ) : runs step s [] = some ([], s) :=
  rfl

theorem runs_cons (step : σ → ℓ → Option (ω × σ)) (s : σ) (op : ℓ) (ops : List ℓ) :
    runs step s (op :: ops) = (step s op).bind fun next =>
      (runs step next.2 ops).map fun last => (next.1 :: last.1, last.2) := rfl

/-- Every operation is allowed in the states in which it comes. -/
def AllowedAlong (spec : τ → ℓ → Option (ω × τ)) (impl : σ → ℓ → Option (ω × σ))
    (allowed : τ → σ → ℓ → Prop) : τ → σ → List ℓ → Prop
  | _, _, [] => True
  | a, s, op :: ops => allowed a s op ∧ ∀ next next', spec a op = some next →
    impl s op = some next' → AllowedAlong spec impl allowed next.2 next'.2 ops

/-- Both answers are refusals, or both are the same output with related states. -/
def Matches (R : τ → σ → Prop) : Option (ω × τ) → Option (ω × σ) → Prop
  | some next, some next' => next.1 = next'.1 ∧ R next.2 next'.2
  | none, none => True
  | _, _ => False

/-- In related states an operation that is allowed has answers that match. -/
def Refines (spec : τ → ℓ → Option (ω × τ)) (impl : σ → ℓ → Option (ω × σ))
    (allowed : τ → σ → ℓ → Prop) (R : τ → σ → Prop) : Prop :=
  ∀ a s op, R a s → allowed a s op → Matches R (spec a op) (impl s op)

variable {spec : τ → ℓ → Option (ω × τ)} {impl : σ → ℓ → Option (ω × σ)}
  {allowed : τ → σ → ℓ → Prop} {R : τ → σ → Prop}

theorem AllowedAlong.cons {a a' : τ} {s s' : σ} {out out' : ω} {op : ℓ} {ops : List ℓ}
    (hop : allowed a s op) (hspec : spec a op = some (out, a'))
    (himpl : impl s op = some (out', s'))
    (hops : AllowedAlong spec impl allowed a' s' ops) :
    AllowedAlong spec impl allowed a s (op :: ops) := by
  refine ⟨hop, ?_⟩
  intro next next' hnext hnext'
  obtain rfl := Option.some.inj (hspec.symm.trans hnext)
  obtain rfl := Option.some.inj (himpl.symm.trans hnext')
  exact hops

theorem allowedAlong_cons_of_none {a : τ} {s : σ} {op : ℓ} {ops : List ℓ}
    (h : spec a op = none ∨ impl s op = none) :
    AllowedAlong spec impl allowed a s (op :: ops) ↔ allowed a s op := by
  refine ⟨And.left, fun hop => ⟨hop, ?_⟩⟩
  intro next next' hspec himpl
  rcases h with h | h
  · cases h.symm.trans hspec
  · cases h.symm.trans himpl

theorem allowedAlong_cons_of_some {a : τ} {s : σ} {op : ℓ} {ops : List ℓ} {next : ω × τ}
    {next' : ω × σ} (hspec : spec a op = some next) (himpl : impl s op = some next') :
    AllowedAlong spec impl allowed a s (op :: ops) ↔
      allowed a s op ∧ AllowedAlong spec impl allowed next.2 next'.2 ops :=
  ⟨fun h => ⟨h.1, h.2 next next' hspec himpl⟩, fun h => .cons h.1 hspec himpl h.2⟩

/-- A list of operations is checked by running it. -/
instance decidableAllowedAlong [∀ a s, DecidablePred (allowed a s)] :
    (a : τ) → (s : σ) → DecidablePred (AllowedAlong spec impl allowed a s)
  | _, _, [] => isTrue trivial
  | a, s, op :: ops =>
    match hspec : spec a op, himpl : impl s op with
    | some next, some next' =>
      have := decidableAllowedAlong next.2 next'.2 ops
      decidable_of_iff _ (allowedAlong_cons_of_some hspec himpl).symm
    | none, _ => decidable_of_iff _ (allowedAlong_cons_of_none (.inl hspec)).symm
    | some _, none => decidable_of_iff _ (allowedAlong_cons_of_none (.inr himpl)).symm

/-- The operations of a list are allowed if each is allowed behind those before it. -/
theorem allowedAlong_of_forall {a : τ} {s : σ} {ops : List ℓ}
    (h : ∀ pre op out b t, pre ++ [op] <+: ops → runs spec a pre = some (out, b) →
      allowed b t op) : AllowedAlong spec impl allowed a s ops := by
  induction ops generalizing a s with
  | nil => exact trivial
  | cons op ops ih =>
    refine ⟨h [] op [] a s (List.cons_prefix_cons.mpr ⟨rfl, List.nil_prefix⟩) rfl, ?_⟩
    intro next next' hspec _
    apply ih
    intro pre op' out b t hpre hruns
    apply h (op :: pre) op' (next.1 :: out) b t (List.cons_prefix_cons.mpr ⟨rfl, hpre⟩)
    rw [runs_cons, hspec, Option.bind_some, hruns, Option.map_some]

theorem Matches.mono {R' : τ → σ → Prop} {x : Option (ω × τ)} {y : Option (ω × σ)}
    (h : Matches R x y) (hR : ∀ a s, R a s → R' a s) : Matches R' x y := by
  cases x with
  | none =>
    cases y with
    | none => exact trivial
    | some next' => exact h.elim
  | some next =>
    cases y with
    | none => exact h.elim
    | some next' => exact ⟨h.1, hR _ _ h.2⟩

theorem runs_concat {a : τ} {pre : List ℓ} {op : ℓ} {out : List ω} {b : τ}
    (h : runs spec a pre = some (out, b)) :
    runs spec a (pre ++ [op]) = (spec b op).map fun next => (out ++ [next.1], next.2) := by
  induction pre generalizing a out with
  | nil =>
    obtain ⟨rfl, rfl⟩ := Prod.mk.inj (Option.some.inj h)
    rw [List.nil_append, runs_cons]
    cases hlast : spec a op with
    | none => rfl
    | some next => rfl
  | cons op' pre ih =>
    rw [runs_cons] at h
    obtain ⟨next, hnext, h⟩ := Option.bind_eq_some_iff.mp h
    obtain ⟨last, hlast, heq⟩ := Option.map_eq_some_iff.mp h
    obtain ⟨rfl, rfl⟩ := Prod.mk.inj heq
    rw [List.cons_append, runs_cons, hnext, Option.bind_some, ih hlast, Option.map_map]
    rfl

/-- Components that agree on one operation agree on a list of them. -/
theorem Refines.runs (h : Refines spec impl allowed R) {a : τ} {s : σ} {ops : List ℓ}
    (hR : R a s) (hops : AllowedAlong spec impl allowed a s ops) :
    Matches R (Refinement.runs spec a ops) (Refinement.runs impl s ops) := by
  induction ops generalizing a s with
  | nil => exact ⟨rfl, hR⟩
  | cons op ops ih =>
    obtain ⟨hop, hrest⟩ := hops
    have hstep := h a s op hR hop
    rw [runs_cons, runs_cons]
    cases hspec : spec a op with
    | none =>
      cases himpl : impl s op with
      | none => exact trivial
      | some next' =>
        rw [hspec, himpl] at hstep
        exact hstep.elim
    | some next =>
      cases himpl : impl s op with
      | none =>
        rw [hspec, himpl] at hstep
        exact hstep.elim
      | some next' =>
        rw [hspec, himpl] at hstep
        obtain ⟨hout, hnext⟩ := hstep
        have hlast := ih hnext (hrest next next' hspec himpl)
        rw [Option.bind_some, Option.bind_some]
        cases hruns : Refinement.runs spec next.2 ops with
        | none =>
          cases hruns' : Refinement.runs impl next'.2 ops with
          | none => exact trivial
          | some last' =>
            rw [hruns, hruns'] at hlast
            exact hlast.elim
        | some last =>
          cases hruns' : Refinement.runs impl next'.2 ops with
          | none =>
            rw [hruns, hruns'] at hlast
            exact hlast.elim
          | some last' =>
            rw [hruns, hruns'] at hlast
            obtain ⟨houts, hend⟩ := hlast
            exact ⟨congrArg₂ List.cons hout houts, hend⟩

end Refinement
