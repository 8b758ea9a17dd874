import LlmHric.Library.Refinement
import LlmHric.Flexric.AssocReg

/-! The values of a registry are found under the keys with which they were pushed, and erased by
them, as long as the counter of the keys has not gone past the largest one, and as long as an `int`
counts the buckets that are searched. -/

namespace LlmHric.Flexric

open Refinement

/-- The operations on a registry. -/
inductive RegOp (α : Type) where
  | push (value : α)
  | erase (key : UInt32)
  | find (key : UInt32)

/-- What the operations return. -/
inductive RegOut (α : Type) where
  | pushed (key : ℕ)
  | erased
  | found (value : Option α)

namespace RegOp

variable {α : Type}

/-- An operation on the buckets; `none` if an assertion fails, or if a block is left. -/
def step (zero : α) (reg : AssocReg α) : RegOp α → Option (RegOut α × AssocReg α)
  | push value => (reg.pushBack zero value).map fun next => (.pushed next.1.toNat, next.2)
  | erase key => (reg.eraseKey zero key).map fun next => (.erased, next)
  | find key => (reg.find key).map fun value => (.found value, reg)

/-- An operation on keys with their values; `none` if a key is erased that is not there, or if the
reserved key is looked up. -/
def specStep (s : KeyedValues α) : RegOp α → Option (RegOut α × KeyedValues α)
  | push value => some (.pushed s.next, s.push value)
  | erase key => (s.get key.toNat).map fun _ => (.erased, s.erase key.toNat)
  | find key => if key = 0 then none else some (.found (s.get key.toNat), s)

/-- A key is left for a value that is pushed, and a search has few enough buckets before it. -/
def Sound (_ : KeyedValues α) (reg : AssocReg α) : RegOp α → Prop
  | push _ => reg.keyId < 2 ^ 32
  | erase _ | find _ => reg.Searchable

instance (s : KeyedValues α) (reg : AssocReg α) : DecidablePred (Sound s reg)
  | push _ => inferInstanceAs (Decidable (_ < _))
  | erase _ | find _ => inferInstanceAs (Decidable (_ < _))

end RegOp

namespace AssocReg

variable {α : Type} {s : KeyedValues α} {reg : AssocReg α}

/-- The reserved key is not looked up. -/
theorem findReg_zero (startIt endIt : ℕ) : findReg reg startIt endIt 0 = none :=
  if_neg (UInt32.lt_irrefl 0)

theorem find_zero : reg.find 0 = none := by
  rw [find, findReg_zero]
  rfl

theorem eraseKey_zero (zero : α) : reg.eraseKey zero 0 = none := by
  rw [eraseKey, findReg_zero]
  rfl

theorem Holds.get_zero (h : reg.Holds s) : s.get 0 = none := by
  apply @Holds.get_of_forall α s reg h 0
  intro b hb _ heq
  have hpos := (h.keys b hb).1
  rw [heq] at hpos
  exact UInt32.lt_irrefl 0 hpos

end AssocReg

section Runs

variable {α : Type}

/-- Every sound operation does to the buckets what it does to the keys with their values. -/
theorem regOp_refines (zero : α) :
    Refines RegOp.specStep (RegOp.step zero) RegOp.Sound (fun s reg => reg.Holds s) := by
  intro s reg op h hsound
  cases op with
  | push value =>
    obtain ⟨reg', hpush, h'⟩ := h.pushBack hsound zero value
    have hkey : (UInt32.ofNat s.next).toNat = s.next := by
      apply UInt32.toNat_ofNat_of_lt'
      rw [← h.keyId]
      exact hsound
    rw [RegOp.step, hpush, Option.map_some, hkey]
    exact ⟨rfl, h'⟩
  | erase key =>
    rw [RegOp.step, RegOp.specStep]
    by_cases hzero : key = 0
    · rw [hzero, AssocReg.eraseKey_zero, UInt32.toNat_zero, h.get_zero]
      exact trivial
    · rcases h.eraseKey hsound (UInt32.pos_iff_ne_zero.mpr hzero) zero with
        ⟨hget, herase⟩ | ⟨hget, reg', herase, h'⟩
      · rw [hget, herase]
        exact trivial
      · obtain ⟨value, hvalue⟩ := Option.ne_none_iff_exists'.mp hget
        rw [hvalue, herase]
        exact ⟨rfl, h'⟩
  | find key =>
    rw [RegOp.step, RegOp.specStep]
    by_cases hzero : key = 0
    · rw [if_pos hzero, hzero, AssocReg.find_zero]
      exact trivial
    · rw [if_neg hzero, h.find hsound (UInt32.pos_iff_ne_zero.mpr hzero)]
      exact ⟨rfl, h⟩

/-- From an empty registry on, as long as keys are left where a value is pushed, and an `int` counts
the buckets where a key is searched, the live buckets are the keys with their values: the keys go up
from one in the order in which the values were pushed, every key is found with its value until it is
erased, and no operation leaves a block or fails an assertion, unless a key that is not there is
erased or the reserved one is looked up. -/
theorem assocReg_runs_matches (zero : α) (ops : List (RegOp α))
    (hops : AllowedAlong RegOp.specStep (RegOp.step zero) RegOp.Sound ⟨1, []⟩ (AssocReg.init zero)
      ops) :
    Matches (fun s reg => reg.Holds s) (runs RegOp.specStep ⟨1, []⟩ ops)
      (runs (RegOp.step zero) (AssocReg.init zero) ops) :=
  (regOp_refines zero).runs (AssocReg.holds_init zero) hops

/-- Of two values one is found, erased, and not found again. -/
theorem assocReg_runs_matches_two :
    Matches (fun s reg => reg.Holds s)
      (runs RegOp.specStep ⟨1, []⟩ [.push 5, .push 6, .find 1, .erase 1, .find 1, .find 2])
      (runs (RegOp.step 0) (AssocReg.init 0)
        [.push 5, .push 6, .find 1, .erase 1, .find 1, .find 2]) :=
  assocReg_runs_matches 0 _ (by decide)

end Runs

/-! ### A registry that has given out all keys -/

section Counter

variable {α : Type}

/-- The values that are pushed get keys that go on. -/
theorem runs_specStep_replicate_push (value : α) (n : ℕ) (s : KeyedValues α) :
    ∃ s', runs RegOp.specStep s (List.replicate n (.push value)) =
      some ((List.range' s.next n).map .pushed, s') := by
  induction n generalizing s with
  | zero => exact ⟨s, rfl⟩
  | succ n ih =>
    obtain ⟨s', hruns⟩ := ih (s.push value)
    refine ⟨s', ?_⟩
    rw [List.replicate_succ, runs_cons, RegOp.specStep, Option.bind_some, hruns, Option.map_some,
      KeyedValues.push, List.range'_succ, List.map_cons]

/-- A key that is returned is one of a word. -/
theorem lt_of_pushed_mem {zero : α} {ops : List (RegOp α)} {reg : AssocReg α}
    {out : List (RegOut α)} {reg' : AssocReg α}
    (h : runs (RegOp.step zero) reg ops = some (out, reg')) {key : ℕ}
    (hkey : .pushed key ∈ out) : key < 2 ^ 32 := by
  induction ops generalizing reg out with
  | nil =>
    obtain ⟨rfl, -⟩ := Prod.mk.inj (Option.some.inj h)
    exact absurd hkey List.not_mem_nil
  | cons op ops ih =>
    rw [runs_cons] at h
    obtain ⟨next, hnext, h⟩ := Option.bind_eq_some_iff.mp h
    obtain ⟨last, hlast, heq⟩ := Option.map_eq_some_iff.mp h
    obtain ⟨rfl, rfl⟩ := Prod.mk.inj heq
    rcases List.mem_cons.mp hkey with hhead | htail
    · cases op with
      | push value =>
        obtain ⟨pushed, -, rfl⟩ := Option.map_eq_some_iff.mp hnext
        obtain rfl := RegOut.pushed.inj hhead
        exact UInt32.toNat_lt _
      | erase key =>
        obtain ⟨reg₁, -, rfl⟩ := Option.map_eq_some_iff.mp hnext
        cases hhead
      | find key =>
        obtain ⟨value, -, rfl⟩ := Option.map_eq_some_iff.mp hnext
        cases hhead
    · exact ih hlast htail

/-- Keys that go on leave the words. -/
theorem not_matches_of_pushes (value zero : α) {n : ℕ} (hn : 2 ^ 32 ≤ n)
    {R : KeyedValues α → AssocReg α → Prop} :
    ¬ Matches R (runs RegOp.specStep ⟨1, []⟩ (List.replicate n (.push value)))
      (runs (RegOp.step zero) (AssocReg.init zero) (List.replicate n (.push value))) := by
  intro h
  obtain ⟨s', hspec⟩ := runs_specStep_replicate_push value n ⟨1, []⟩
  rw [hspec] at h
  cases himpl : runs (RegOp.step zero) (AssocReg.init zero) (List.replicate n (.push value)) with
  | none =>
    rw [himpl] at h
    exact h
  | some last =>
    rw [himpl] at h
    have hmem : n ∈ List.range' 1 n := by
      apply List.mem_range'_1.mpr
      omega
    have hout : RegOut.pushed n ∈ last.1 := h.1 ▸ List.mem_map_of_mem hmem
    exact absurd (lt_of_pushed_mem himpl hout) (Nat.not_lt.mpr hn)

def keyValues : ℕ := 2 ^ 32

/-- With as many values as a key has, the last one gets the key that is reserved. -/
theorem not_assocReg_matches :
    ¬ Matches (fun s reg => reg.Holds s)
      (runs RegOp.specStep ⟨1, []⟩ (List.replicate keyValues (.push ())))
      (runs (RegOp.step ()) (AssocReg.init ()) (List.replicate keyValues (.push ()))) := by
  have hle : 2 ^ 32 ≤ keyValues := Nat.le_of_eq rfl
  generalize keyValues = n at hle
  exact not_matches_of_pushes () () hle

end Counter

end LlmHric.Flexric
