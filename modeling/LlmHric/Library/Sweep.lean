import Mathlib.Data.List.Basic
import Mathlib.Tactic.Common

/-! A sweep visits the elements of a list from left to right with a state. A visit rewrites its
element and the state, and may end the sweep; the elements behind are then left as they are. This is
the shape of a C loop over an array of pointers with `continue`, `break` and `return`. -/

namespace Sweep

variable {σ α : Type*}

/-- What a visit leaves: the state, the element, and whether the sweep ends here. -/
structure Visit (σ α : Type*) where
  state : σ
  item : α
  stop : Bool

/-- A visit that does nothing. -/
def Visit.pass (s : σ) (a : α) : Visit σ α := ⟨s, a, false⟩

/-- What a sweep leaves. -/
structure Result (σ α : Type*) where
  state : σ
  items : List α
  stopped : Bool
  /-- The states and elements the visits started from. -/
  visits : List (σ × α)

/-- The sweep over a list. -/
def run (visit : σ → α → Visit σ α) : σ → List α → Result σ α
  | s, [] => { state := s, items := [], stopped := false, visits := [] }
  | s, a :: l =>
    let v := visit s a
    if v.stop then { state := v.state, items := v.item :: l, stopped := true, visits := [(s, a)] }
    else
      let rest := run visit v.state l
      { rest with items := v.item :: rest.items, visits := (s, a) :: rest.visits }

/-- Sweeps one after the other, until one ends early. -/
def runAll : List (σ → α → Visit σ α) → σ → List α → Result σ α
  | [], s, l => { state := s, items := l, stopped := false, visits := [] }
  | visit :: visits, s, l =>
    let pass := run visit s l
    if pass.stopped then pass
    else
      let rest := runAll visits pass.state pass.items
      { rest with visits := pass.visits ++ rest.visits }

variable {visit visit' : σ → α → Visit σ α} {s : σ} {a : α} {l : List α}

@[simp] theorem run_nil (visit : σ → α → Visit σ α) (s : σ) :
    run visit s [] = ⟨s, [], false, []⟩ := rfl

theorem run_cons_of_stop (h : (visit s a).stop = true) :
    run visit s (a :: l) = ⟨(visit s a).state, (visit s a).item :: l, true, [(s, a)]⟩ := by
  simp only [run, h, if_true]

theorem run_cons_of_not_stop (h : (visit s a).stop = false) :
    run visit s (a :: l) =
      { run visit (visit s a).state l with
        items := (visit s a).item :: (run visit (visit s a).state l).items
        visits := (s, a) :: (run visit (visit s a).state l).visits } := by
  simp only [run, h, Bool.false_eq_true, if_false]

theorem run_cons_pass (h : visit s a = .pass s a) :
    run visit s (a :: l) =
      { run visit s l with
        items := a :: (run visit s l).items, visits := (s, a) :: (run visit s l).visits } := by
  have hstop : (visit s a).stop = false := by rw [h]; rfl
  rw [run_cons_of_not_stop hstop, h]
  rfl

/-- A sweep over one element is one visit. -/
theorem run_singleton (visit : σ → α → Visit σ α) (s : σ) (a : α) :
    run visit s [a] =
      ⟨(visit s a).state, [(visit s a).item], (visit s a).stop, [(s, a)]⟩ := by
  cases hstop : (visit s a).stop with
  | true => rw [run_cons_of_stop hstop]
  | false => rw [run_cons_of_not_stop hstop, run_nil]

/-- A sweep whose visits change nothing changes nothing. -/
theorem run_eq_self (h : ∀ a ∈ l, (visit s a).state = s ∧ (visit s a).item = a) :
    (run visit s l).state = s ∧ (run visit s l).items = l := by
  induction l with
  | nil => exact ⟨rfl, rfl⟩
  | cons a l ih =>
    obtain ⟨hstate, hitem⟩ := h a List.mem_cons_self
    cases hstop : (visit s a).stop with
    | true =>
      rw [run_cons_of_stop hstop, hitem]
      exact ⟨hstate, rfl⟩
    | false =>
      obtain ⟨hrest, hitems⟩ := ih fun b hb => h b (List.mem_cons_of_mem a hb)
      rw [run_cons_of_not_stop hstop, hstate, hitem, hitems]
      exact ⟨hrest, rfl⟩

/-! ### Invariants -/

/-- What every visit to an element with `P` keeps, with its element at any position of the list, the
sweep keeps, and its elements end up with `Q`. -/
theorem run_invariant_of {I : σ → List α → Prop} {P Q : α → Prop}
    (hvisit : ∀ pre s a post, P a → I s (pre ++ a :: post) →
      I (visit s a).state (pre ++ (visit s a).item :: post) ∧ Q (visit s a).item)
    (hweaken : ∀ a, P a → Q a) (pre : List α) (hl : ∀ a ∈ l, P a) (h : I s (pre ++ l)) :
    I (run visit s l).state (pre ++ (run visit s l).items) ∧ ∀ a ∈ (run visit s l).items, Q a := by
  induction l generalizing s pre with
  | nil => exact ⟨h, fun a ha => absurd ha List.not_mem_nil⟩
  | cons a l ih =>
    obtain ⟨hnext, hitem⟩ := hvisit pre s a l (hl a List.mem_cons_self) h
    have htail : ∀ b ∈ l, P b := fun b hb => hl b (List.mem_cons_of_mem a hb)
    cases hstop : (visit s a).stop with
    | true =>
      rw [run_cons_of_stop hstop]
      refine ⟨hnext, fun b hb => ?_⟩
      rcases List.mem_cons.mp hb with rfl | hb
      · exact hitem
      · exact hweaken b (htail b hb)
    | false =>
      rw [run_cons_of_not_stop hstop]
      -- the visited element moves to the part of the list that is done
      obtain ⟨hrest, hitems⟩ :=
        ih (pre ++ [(visit s a).item]) htail (by rwa [List.append_assoc])
      rw [List.append_assoc] at hrest
      refine ⟨hrest, fun b hb => ?_⟩
      rcases List.mem_cons.mp hb with rfl | hb
      · exact hitem
      · exact hitems b hb

/-- What every visit keeps, with its element at any position of the list, the sweep keeps. -/
theorem run_invariant {I : σ → List α → Prop}
    (hvisit : ∀ pre s a post, I s (pre ++ a :: post) →
      I (visit s a).state (pre ++ (visit s a).item :: post))
    (pre : List α) (h : I s (pre ++ l)) :
    I (run visit s l).state (pre ++ (run visit s l).items) :=
  (run_invariant_of (P := fun _ => True) (Q := fun _ => True)
    (fun pre s a post _ hI => ⟨hvisit pre s a post hI, trivial⟩) (fun _ => id) pre
    (fun _ _ => trivial) h).1

/-- What the visits of all sweeps keep, the sweeps keep, when the elements meet the condition `P i`
of sweep `i` before it and that of the next sweep after it. -/
theorem runAll_invariant {I : σ → List α → Prop} {P : ℕ → α → Prop}
    {visits : List (σ → α → Visit σ α)}
    (hvisit : ∀ i visit, visits[i]? = some visit → ∀ pre s a post, P i a → I s (pre ++ a :: post) →
      I (visit s a).state (pre ++ (visit s a).item :: post) ∧ P (i + 1) (visit s a).item)
    (hweaken : ∀ i a, P i a → P (i + 1) a) (hl : ∀ a ∈ l, P 0 a) (h : I s l) :
    I (runAll visits s l).state (runAll visits s l).items := by
  induction visits generalizing s l P with
  | nil => exact h
  | cons visit visits ih =>
    obtain ⟨hpass, hitems⟩ :=
      run_invariant_of (hvisit 0 visit rfl) (hweaken 0) [] hl h
    rw [runAll]
    dsimp only
    split_ifs
    · exact hpass
    · exact ih (fun i v hv => hvisit (i + 1) v hv) (fun i => hweaken (i + 1)) hitems hpass

/-- A sweep that goes on only while `I` holds leaves `J`, and `I` when it did not end early. -/
theorem run_stop_invariant {I J : σ → Prop}
    (hvisit : ∀ s a, I s → J (visit s a).state ∧ ((visit s a).stop = false → I (visit s a).state))
    (hIJ : ∀ s, I s → J s) (h : I s) :
    J (run visit s l).state ∧ ((run visit s l).stopped = false → I (run visit s l).state) := by
  induction l generalizing s with
  | nil => exact ⟨hIJ s h, fun _ => h⟩
  | cons a l ih =>
    obtain ⟨hJ, hI⟩ := hvisit s a h
    cases hstop : (visit s a).stop with
    | true =>
      rw [run_cons_of_stop hstop]
      exact ⟨hJ, fun hfalse => by cases hfalse⟩
    | false =>
      rw [run_cons_of_not_stop hstop]
      exact ih (hI hstop)

theorem runAll_stop_invariant {I J : σ → Prop} {visits : List (σ → α → Visit σ α)}
    (hvisit : ∀ visit ∈ visits, ∀ s a, I s →
      J (visit s a).state ∧ ((visit s a).stop = false → I (visit s a).state))
    (hIJ : ∀ s, I s → J s) (h : I s) : J (runAll visits s l).state := by
  induction visits generalizing s l with
  | nil => exact hIJ s h
  | cons visit visits ih =>
    obtain ⟨hJ, hI⟩ :=
      run_stop_invariant (l := l) (hvisit visit List.mem_cons_self) hIJ h
    rw [runAll]
    dsimp only
    split_ifs with hstop
    · exact hJ
    · exact ih (fun v hv => hvisit v (List.mem_cons_of_mem _ hv))
        (hI (Bool.not_eq_true _ ▸ hstop : _ = false))

/-- The state part of a sweep keeps what every visit keeps. -/
theorem run_stateInvariant {I : σ → Prop} (hvisit : ∀ s a, I s → I (visit s a).state)
    (h : I s) : I (run visit s l).state :=
  run_invariant (I := fun s _ => I s) (fun _ s a _ => hvisit s a) [] h

/-- What every visit keeps of its element, the elements of a sweep keep. -/
theorem run_forall_items {Q : α → Prop} (hvisit : ∀ s a, Q a → Q (visit s a).item)
    (hl : ∀ a ∈ l, Q a) : ∀ a ∈ (run visit s l).items, Q a :=
  (run_invariant_of (I := fun _ _ => True) (P := Q) (Q := Q)
    (fun _ s a _ ha _ => ⟨trivial, hvisit s a ha⟩) (fun _ => id) [] hl trivial).2

/-- A visit starts from an element of the list, and from a state with what every visit keeps. -/
theorem mem_of_mem_visits {I : σ → Prop} (hvisit : ∀ s a, I s → I (visit s a).state) (h : I s)
    {v : σ × α} (hv : v ∈ (run visit s l).visits) : I v.1 ∧ v.2 ∈ l := by
  induction l generalizing s with
  | nil => exact absurd hv List.not_mem_nil
  | cons a l ih =>
    cases hstop : (visit s a).stop with
    | true =>
      rw [run_cons_of_stop hstop] at hv
      obtain rfl := List.mem_singleton.mp hv
      exact ⟨h, List.mem_cons_self⟩
    | false =>
      rw [run_cons_of_not_stop hstop] at hv
      rcases List.mem_cons.mp hv with rfl | hv
      · exact ⟨h, List.mem_cons_self⟩
      · obtain ⟨hI, hmem⟩ := ih (hvisit s a h) hv
        exact ⟨hI, List.mem_cons_of_mem a hmem⟩

/-- The final state is later than the state behind every visit, in an order that visits go up. -/
theorem rel_of_mem_visits {R : σ → σ → Prop} (hrefl : ∀ s, R s s)
    (htrans : ∀ s t u, R s t → R t u → R s u) (hvisit : ∀ s a, R s (visit s a).state) {v : σ × α}
    (hv : v ∈ (run visit s l).visits) : R (visit v.1 v.2).state (run visit s l).state := by
  have hrun : ∀ t bs, R t (run visit t bs).state := fun t bs =>
    run_stateInvariant (fun u a hu => htrans _ _ _ hu (hvisit u a)) (hrefl t)
  induction l generalizing s with
  | nil => exact absurd hv List.not_mem_nil
  | cons a l ih =>
    cases hstop : (visit s a).stop with
    | true =>
      rw [run_cons_of_stop hstop] at hv ⊢
      obtain rfl := List.mem_singleton.mp hv
      exact hrefl _
    | false =>
      rw [run_cons_of_not_stop hstop] at hv ⊢
      rcases List.mem_cons.mp hv with rfl | hrest
      · exact hrun _ _
      · exact ih hrest

/-! ### Elements that are passed over -/

/-- A sweep leaves the elements of a kind alone that its visits leave alone. -/
theorem run_items_filter {I : σ → Prop} {p : α → Bool}
    (hinv : ∀ s a, I s → I (visit s a).state)
    (hleave : ∀ s a, I s → p a = true → (visit s a).item = a)
    (hkeep : ∀ s a, p (visit s a).item = p a) (h : I s) :
    (run visit s l).items.filter p = l.filter p := by
  induction l generalizing s with
  | nil => rfl
  | cons a l ih =>
    have hhead : ∀ bs, ((visit s a).item :: bs).filter p = (a :: bs).filter p := by
      intro bs
      cases hp : p a with
      | true => rw [hleave s a h hp]
      | false =>
        have hitem : p (visit s a).item = false := (hkeep s a).trans hp
        rw [List.filter_cons_of_neg (by simp [hitem]), List.filter_cons_of_neg (by simp [hp])]
    cases hstop : (visit s a).stop with
    | true =>
      rw [run_cons_of_stop hstop]
      exact hhead l
    | false =>
      rw [run_cons_of_not_stop hstop]
      dsimp only
      rw [hhead, List.filter_cons, List.filter_cons, ih (hinv s a h)]

/-- A sweep whose visits pass over all elements but some is the sweep over these, and leaves the
others as they are. -/
theorem run_filter {I : σ → Prop} {p : α → Bool}
    (hinv : ∀ s a, I s → I (visit s a).state)
    (hpass : ∀ s a, I s → p a = false → visit s a = .pass s a)
    (hkeep : ∀ s a, p (visit s a).item = p a) (h : I s) :
    (run visit s l).state = (run visit s (l.filter p)).state ∧
      (run visit s l).stopped = (run visit s (l.filter p)).stopped ∧
      (run visit s l).items.filter p = (run visit s (l.filter p)).items := by
  induction l generalizing s with
  | nil => exact ⟨rfl, rfl, rfl⟩
  | cons a l ih =>
    cases hp : p a with
    | false =>
      rw [List.filter_cons_of_neg (by simp [hp]), run_cons_pass (hpass s a h hp)]
      obtain ⟨hstate, hstopped, hitems⟩ := ih h
      exact ⟨hstate, hstopped, by rw [List.filter_cons_of_neg (by simp [hp]), hitems]⟩
    | true =>
      have hitem : p (visit s a).item = true := (hkeep s a).trans hp
      rw [List.filter_cons_of_pos hp]
      cases hstop : (visit s a).stop with
      | true =>
        rw [run_cons_of_stop hstop, run_cons_of_stop hstop]
        exact ⟨rfl, rfl, List.filter_cons_of_pos hitem⟩
      | false =>
        obtain ⟨hstate, hstopped, hitems⟩ := ih (hinv s a h)
        rw [run_cons_of_not_stop hstop, run_cons_of_not_stop hstop]
        refine ⟨hstate, hstopped, ?_⟩
        rw [List.filter_cons_of_pos hitem, hitems]

/-- Two sweeps over one list agree when their visits agree at every state and element that both
come by. -/
theorem run_eq_of_agree {P P' : σ × α → Prop}
    (hagree : ∀ s a, P (s, a) → P' (s, a) → visit s a = visit' s a)
    (h : ∀ v ∈ (run visit s l).visits, P v) (h' : ∀ v ∈ (run visit' s l).visits, P' v) :
    run visit s l = run visit' s l := by
  have hmem : ∀ (f : σ → α → Visit σ α) (t : σ) (b : α) (bs : List α),
      (t, b) ∈ (run f t (b :: bs)).visits := by
    intro f t b bs
    cases hstop : (f t b).stop with
    | true => simp [run_cons_of_stop hstop]
    | false => simp [run_cons_of_not_stop hstop]
  induction l generalizing s with
  | nil => rfl
  | cons a l ih =>
    have heq : visit s a = visit' s a :=
      hagree s a (h _ (hmem visit s a l)) (h' _ (hmem visit' s a l))
    cases hstop : (visit s a).stop with
    | true => rw [run_cons_of_stop hstop, run_cons_of_stop (heq ▸ hstop), heq]
    | false =>
      have hstop' : (visit' s a).stop = false := heq ▸ hstop
      rw [run_cons_of_not_stop hstop] at h ⊢
      rw [run_cons_of_not_stop hstop'] at h' ⊢
      rw [← heq] at h' ⊢
      rw [ih (fun v hv => h v (List.mem_cons_of_mem _ hv))
        (fun v hv => h' v (List.mem_cons_of_mem _ hv))]

end Sweep
