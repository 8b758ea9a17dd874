import Mathlib.Data.List.Perm.Subperm
import Mathlib.Data.List.SplitBy
import Mathlib.Order.Lattice
import Mathlib.Tactic.Common

/-! A list that is sorted by a key splits into maximal runs of elements with one key. Different runs
have different keys, so there are at most as many runs as keys. -/

namespace SortedRuns

variable {α κ : Type*} {key : α → κ} {l g : List α}

/-- The maximal runs of elements with one key. -/
def runs [DecidableEq κ] (key : α → κ) (l : List α) : List (List α) :=
  l.splitBy fun a b => key a == key b

section Runs

variable [DecidableEq κ]

@[simp] theorem flatten_runs (key : α → κ) (l : List α) : (runs key l).flatten = l :=
  List.flatten_splitBy _ l

theorem mem_of_mem_runs (hg : g ∈ runs key l) {a : α} (ha : a ∈ g) : a ∈ l := by
  have hmem : a ∈ (runs key l).flatten := List.mem_flatten.mpr ⟨g, hg, ha⟩
  rwa [flatten_runs] at hmem

theorem key_eq_of_mem_runs (hg : g ∈ runs key l) {a b : α} (ha : a ∈ g) (hb : b ∈ g) :
    key a = key b := by
  let SameKey : α → α → Prop := fun a b => key a = key b
  have htrans : Trans SameKey SameKey SameKey := ⟨fun h h' => Eq.trans h h'⟩
  have hsymm : Std.Symm SameKey := ⟨fun _ _ h => Eq.symm h⟩
  have hchain : g.IsChain SameKey :=
    (List.isChain_of_mem_splitBy hg).imp fun _ _ h => beq_iff_eq.mp h
  have hrefl : ∀ x ∈ g, SameKey x x := fun _ _ => Eq.refl _
  exact List.Pairwise.forall_of_forall hrefl hchain.pairwise ha hb

end Runs

section Sorted

variable [LinearOrder κ]

/-- In a sorted list the keys go up from run to run. -/
theorem runs_pairwise (h : l.Pairwise fun a b => key a ≤ key b) :
    (runs key l).Pairwise fun g g' => ∀ a ∈ g, ∀ b ∈ g', key a < key b := by
  rw [← flatten_runs key l, List.pairwise_flatten] at h
  have hle := List.pairwise_iff_getElem.mp h.2
  have hstep := List.isChain_iff_getElem.mp (List.isChain_getLast_head_splitBy
    (fun a b : α => key a == key b) l)
  refine List.pairwise_iff_getElem.mpr fun i j hi hj hij a ha b hb => ?_
  have hi' : i + 1 < (runs key l).length := Nat.lt_of_le_of_lt hij hj
  -- the key changes from run `i` to the next one, and does not fall from there to run `j`
  obtain ⟨hlast, hhead, hne⟩ := hstep i hi'
  have ha_last := key_eq_of_mem_runs (List.getElem_mem hi) ha (List.getLast_mem hlast)
  have hlast_head := hle i (i + 1) hi hi' (Nat.lt_succ_self i) _ (List.getLast_mem hlast) _
    (List.head_mem hhead)
  have hhead_b : key (((runs key l)[i + 1]).head hhead) ≤ key b := by
    rcases Nat.lt_or_eq_of_le hij with hlt | heq
    · exact hle (i + 1) j hi' hj hlt _ (List.head_mem hhead) b hb
    · subst heq
      exact (key_eq_of_mem_runs (List.getElem_mem hi') (List.head_mem hhead) hb).le
  have hlt := lt_of_le_of_ne hlast_head (beq_eq_false_iff_ne.mp hne)
  rw [ha_last]
  exact lt_of_lt_of_le hlt hhead_b

/-- The run of an element has all the elements with its key. -/
theorem filter_eq_of_mem_runs (h : l.Pairwise fun a b => key a ≤ key b) (hg : g ∈ runs key l)
    {a : α} (ha : a ∈ g) : (l.filter fun b => decide (key b = key a)) = g := by
  obtain ⟨gs, gs', hruns⟩ := List.append_of_mem hg
  have hpair := runs_pairwise h
  rw [hruns, List.pairwise_append, List.pairwise_cons] at hpair
  obtain ⟨-, ⟨hafter, -⟩, hbefore⟩ := hpair
  have hother : ∀ fs : List (List α), (∀ f ∈ fs, ∀ b ∈ f, key b ≠ key a) →
      (fs.flatten.filter fun b => decide (key b = key a)) = [] := by
    intro fs hfs
    refine List.filter_eq_nil_iff.mpr fun b hb hkey => ?_
    obtain ⟨f, hf, hbf⟩ := List.mem_flatten.mp hb
    exact hfs f hf b hbf (of_decide_eq_true hkey)
  have hself : (g.filter fun b => decide (key b = key a)) = g :=
    List.filter_eq_self.mpr fun b hb => decide_eq_true (key_eq_of_mem_runs hg hb ha)
  have hl : l = gs.flatten ++ (g ++ gs'.flatten) := by
    rw [← flatten_runs key l, hruns, List.flatten_append, List.flatten_cons]
  rw [hl, List.filter_append, List.filter_append, hself,
    hother gs fun f hf b hb => (hbefore f hf g List.mem_cons_self b hb a ha).ne,
    hother gs' fun f hf b hb => (hafter f hf a ha b hb).ne', List.nil_append, List.append_nil]

/-- There are at most as many runs of a kind as there are keys for them. -/
theorem length_filter_runs_le {p : List α → Bool} {keys : List κ}
    (h : l.Pairwise fun a b => key a ≤ key b)
    (hkeys : ∀ g ∈ runs key l, p g = true → ∃ a ∈ g, key a ∈ keys) :
    ((runs key l).filter p).length ≤ keys.length := by
  have hkey : ∀ g : {g // g ∈ (runs key l).filter p}, ∃ a ∈ g.1, key a ∈ keys := by
    rintro ⟨g, hg⟩
    exact hkeys g (List.mem_filter.mp hg).1 (List.mem_filter.mp hg).2
  choose first hfirst hmem using hkey
  have hnodup : (((runs key l).filter p).attach.map fun g => key (first g)).Nodup := by
    have hpair := (runs_pairwise h).sublist (List.filter_sublist (p := p))
    rw [← List.attach_map_subtype_val ((runs key l).filter p), List.pairwise_map] at hpair
    rw [List.Nodup, List.pairwise_map]
    exact hpair.imp fun {g g'} hlt => (hlt _ (hfirst g) _ (hfirst g')).ne
  have hsub : (((runs key l).filter p).attach.map fun g => key (first g)) ⊆ keys := by
    intro k hk
    obtain ⟨g, -, rfl⟩ := List.mem_map.mp hk
    exact hmem g
  have hlen := (List.subperm_of_subset hnodup hsub).length_le
  rwa [List.length_map, List.length_attach] at hlen

end Sorted

end SortedRuns
