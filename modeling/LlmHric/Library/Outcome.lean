import Mathlib.Data.List.Forall2
import Mathlib.Tactic.Common

/-! A call of a C function that validates its input ends in one of three ways: the process is
aborted by an assertion or an invalid memory access, the call is refused by an explicit check, or it
returns a value. `Outcome` is the monad of such calls, and `CArray` a counted array whose pointer
may be null, with checked reads. -/

namespace Checked

/-- Why a process is aborted. -/
inductive Fault
  | assertion
  | nullPointer
  | outOfBounds
  deriving DecidableEq

/-- The result of a checked call. -/
inductive Outcome (α : Type)
  /-- The process is aborted. -/
  | fault (f : Fault)
  /-- A check fails and the call reports failure. -/
  | refused
  /-- The call returns a value. -/
  | done (a : α)
  deriving DecidableEq

namespace Outcome

variable {α β : Type}

/-- Run a call and continue with its value. -/
protected def bind (x : Outcome α) (k : α → Outcome β) : Outcome β :=
  match x with
  | fault f => fault f
  | refused => refused
  | done a => k a

instance : Monad Outcome where
  pure := done
  bind := Outcome.bind

instance : LawfulMonad Outcome := LawfulMonad.mk' Outcome
  (fun x => by cases x <;> rfl) (fun _ _ => rfl) (fun x _ _ => by cases x <;> rfl)

/-- An explicit check. -/
def require (p : Prop) [Decidable p] : Outcome Unit := if p then done () else refused

/-- A check that aborts the process. -/
def assertFatal (p : Prop) [Decidable p] : Outcome Unit := if p then done () else fault .assertion

@[simp] theorem fault_bind (f : Fault) (k : α → Outcome β) :
    ((fault f : Outcome α) >>= k) = fault f := rfl

@[simp] theorem refused_bind (k : α → Outcome β) : ((refused : Outcome α) >>= k) = refused := rfl

@[simp] theorem done_bind (a : α) (k : α → Outcome β) : (done a >>= k) = k a := rfl

@[simp] theorem pure_eq (a : α) : (pure a : Outcome α) = done a := rfl

@[simp] theorem bind_eq_done_iff {x : Outcome α} {k : α → Outcome β} {b : β} :
    x >>= k = done b ↔ ∃ a, x = done a ∧ k a = done b := by
  cases x <;> simp

@[simp] theorem bind_eq_fault_iff {x : Outcome α} {k : α → Outcome β} {f : Fault} :
    x >>= k = fault f ↔ x = fault f ∨ ∃ a, x = done a ∧ k a = fault f := by
  cases x <;> simp

@[simp] theorem require_eq_done_iff {p : Prop} [Decidable p] {u : Unit} :
    require p = done u ↔ p := by
  unfold require
  split_ifs with h <;> simp [h]

@[simp] theorem require_ne_fault {p : Prop} [Decidable p] {f : Fault} : require p ≠ fault f := by
  unfold require
  split_ifs <;> simp

@[simp] theorem assertFatal_of {p : Prop} [Decidable p] (h : p) : assertFatal p = done () :=
  if_pos h

@[simp] theorem assertFatal_of_not {p : Prop} [Decidable p] (h : ¬ p) :
    assertFatal p = fault .assertion := if_neg h

/-- A sequence of calls is not aborted in a way that none of them is. -/
theorem bind_ne_fault {x : Outcome α} {k : α → Outcome β} {f : Fault} (hx : x ≠ fault f)
    (hk : ∀ a, k a ≠ fault f) : x >>= k ≠ fault f := by
  rw [ne_eq, bind_eq_fault_iff]
  rintro (hfault | ⟨a, -, hfault⟩)
  · exact hx hfault
  · exact hk a hfault

@[simp] theorem assertFatal_eq_done_iff {p : Prop} [Decidable p] {u : Unit} :
    assertFatal p = done u ↔ p := by
  unfold assertFatal
  split_ifs with h <;> simp [h]

theorem assertFatal_ne_nullPointer {p : Prop} [Decidable p] :
    assertFatal p ≠ fault .nullPointer := by
  unfold assertFatal
  split_ifs <;> simp

@[simp] theorem require_true [Decidable True] : require True = done () := by
  simp [require]

/-- A loop over a list succeeds iff every call does. -/
theorem mapM_eq_done_iff {f : α → Outcome β} {xs : List α} {ys : List β} :
    xs.mapM f = done ys ↔ List.Forall₂ (fun x y => f x = done y) xs ys := by
  induction xs generalizing ys with
  | nil => simp [eq_comm]
  | cons x xs ih =>
    simp only [List.mapM_cons, bind_eq_done_iff, pure_eq, List.forall₂_cons_left_iff, ih,
      done.injEq]
    constructor
    · rintro ⟨y, hy, ys', hys', rfl⟩
      exact ⟨y, ys', hy, hys', rfl⟩
    · rintro ⟨y, ys', hy, hys', rfl⟩
      exact ⟨y, hy, ys', hys', rfl⟩

/-- A loop over a list is aborted iff some call is, after successful ones. -/
theorem mapM_eq_fault_iff {f : α → Outcome β} {xs : List α} {e : Fault} :
    xs.mapM f = fault e ↔
      ∃ pre x post, xs = pre ++ x :: post ∧ (∀ y ∈ pre, ∃ b, f y = done b) ∧ f x = fault e := by
  induction xs with
  | nil => simp
  | cons x xs ih =>
    simp only [List.mapM_cons, bind_eq_fault_iff, pure_eq, reduceCtorEq, and_false, exists_false,
      or_false, ih]
    constructor
    · rintro (hx | ⟨b, hb, pre, y, post, rfl, hpre, hy⟩)
      · exact ⟨[], x, xs, rfl, by simp, hx⟩
      · refine ⟨x :: pre, y, post, rfl, ?_, hy⟩
        simpa using ⟨⟨b, hb⟩, hpre⟩
    · rintro ⟨_ | ⟨z, pre⟩, y, post, hxs, hpre, hy⟩
      · obtain ⟨rfl, rfl⟩ := List.cons.inj hxs
        exact .inl hy
      · obtain ⟨rfl, rfl⟩ := List.cons.inj hxs
        obtain ⟨b, hb⟩ := hpre x (by simp)
        exact .inr ⟨b, hb, pre, y, post, rfl, fun w hw => hpre w (by simp [hw]), hy⟩

end Outcome

/-! ### Counted arrays -/

/-- An array with its declared size, as a pointer and a count describe it. -/
inductive CArray (α : Type)
  /-- The pointer is null, whatever size is declared. -/
  | null (declared : ℕ)
  /-- The pointer leads to as many elements as are declared. -/
  | elems (xs : List α)

namespace CArray

variable {α : Type}

/-- The declared size. -/
def size : CArray α → ℕ
  | null n => n
  | elems xs => xs.length

/-- The pointer is null. -/
def isNull : CArray α → Bool
  | null _ => true
  | elems _ => false

def read : CArray α → ℕ → Outcome α
  | null _, _ => .fault .nullPointer
  | elems xs, i =>
    match xs[i]? with
    | some x => .done x
    | none => .fault .outOfBounds

/-- The elements in order, as a loop over the declared size reads them. -/
def readAll : CArray α → Outcome (List α)
  | null 0 => .done []
  | null (_ + 1) => .fault .nullPointer
  | elems xs => .done xs

/-- The array holds the listed elements; an empty one may be a null pointer. -/
def Holds (s : CArray α) (xs : List α) : Prop := s = elems xs ∨ s = null 0 ∧ xs = []

@[simp] theorem size_null (n : ℕ) : (null n : CArray α).size = n := rfl

@[simp] theorem size_elems (xs : List α) : (elems xs).size = xs.length := rfl

@[simp] theorem isNull_null (n : ℕ) : (null n : CArray α).isNull = true := rfl

@[simp] theorem isNull_elems (xs : List α) : (elems xs).isNull = false := rfl

@[simp] theorem read_null (n i : ℕ) : (null n : CArray α).read i = .fault .nullPointer := rfl

@[simp] theorem read_elems_zero (x : α) (xs : List α) : (elems (x :: xs)).read 0 = .done x := rfl

@[simp] theorem read_elems_succ (x : α) (xs : List α) (i : ℕ) :
    (elems (x :: xs)).read (i + 1) = (elems xs).read i := by
  simp [read]

theorem read_zero_eq_done_iff {s : CArray α} {x : α} :
    s.read 0 = .done x ↔ ∃ xs, s = elems (x :: xs) := by
  rcases s with n | (_ | ⟨y, ys⟩) <;> simp [read]

/-- The first element of an array with a declared size fails to be read only behind a null
pointer. -/
theorem read_zero_eq_fault_iff {s : CArray α} (hs : 1 ≤ s.size) {f : Fault} :
    s.read 0 = .fault f ↔ f = .nullPointer ∧ ∃ n, 1 ≤ n ∧ s = null n := by
  rcases s with n | (_ | ⟨y, ys⟩)
  · have hn : 1 ≤ n := hs
    simp [hn, eq_comm]
  · simp at hs
  · simp

theorem eq_elems_singleton_of_read {s : CArray α} {x : α} (hs : s.size = 1)
    (h : s.read 0 = .done x) : s = elems [x] := by
  obtain ⟨xs, rfl⟩ := read_zero_eq_done_iff.mp h
  have hnil : xs = [] := by simpa using hs
  rw [hnil]

theorem readAll_eq_done_iff {s : CArray α} {xs : List α} :
    s.readAll = .done xs ↔ s.Holds xs := by
  rcases s with (_ | n) | ys <;> simp [readAll, Holds, eq_comm]

theorem Holds.size_eq {s : CArray α} {xs : List α} (h : s.Holds xs) : s.size = xs.length := by
  rcases h with rfl | ⟨rfl, rfl⟩ <;> rfl

theorem readAll_eq_fault_iff {s : CArray α} {f : Fault} :
    s.readAll = .fault f ↔ f = .nullPointer ∧ ∃ n, 1 ≤ n ∧ s = null n := by
  rcases s with (_ | n) | ys <;> simp [readAll, eq_comm]

end CArray

end Checked
