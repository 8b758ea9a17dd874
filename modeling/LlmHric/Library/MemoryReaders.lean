import LlmHric.Library.CheckedReaders
import LlmHric.Library.TracedReads

/-! A reader that is not told where its buffer ends goes through memory, by the sizes and the types
that it finds there. It reads a word of a language: either a complete encoding of the value that it
returns, or the beginning of one up to where it gives up. Memory always goes on, so whatever there
is in it the reader finds a word of one of these kinds, and a message keeps it inside if and only if
the message begins with such a word. -/

namespace Checked

open ByteOrder

variable {α β : Type}

/-- Memory holds some bytes from an address on. -/
def HoldsAt (mem : ℕ → UInt8) (pos : ℕ) (bytes : List UInt8) : Prop :=
  bytesAt mem pos bytes.length = bytes

variable {mem : ℕ → UInt8} {pos : ℕ} {u v w : List UInt8}

theorem HoldsAt.nil : HoldsAt mem pos [] := rfl

theorem holdsAt_append :
    HoldsAt mem pos (u ++ v) ↔ HoldsAt mem pos u ∧ HoldsAt mem (pos + u.length) v := by
  rw [HoldsAt, List.length_append, ← bytesAt_append, HoldsAt, HoldsAt]
  constructor
  · exact fun h => List.append_inj h length_bytesAt
  · exact fun h => congrArg₂ (· ++ ·) h.1 h.2

theorem holdsAt_bytesAt (mem : ℕ → UInt8) (pos count : ℕ) :
    HoldsAt mem pos (bytesAt mem pos count) := by
  rw [HoldsAt, length_bytesAt]

/-- A word is held at the beginning of a message exactly if it is a prefix of the message. -/
theorem holdsAt_iff_of_le {len : ℕ} (hlen : w.length ≤ len) :
    HoldsAt mem 0 w ↔ w <+: bytesAt mem 0 len := by
  rw [List.prefix_iff_eq_take, take_bytesAt hlen, HoldsAt]
  exact eq_comm

/-- The reads of a call are those of a range. -/
def Traced.Covers (lo hi : ℕ) (x : Traced α) : Prop := ∀ i, i ∈ x.reads ↔ lo ≤ i ∧ i < hi

theorem Traced.Covers.within_iff {hi len : ℕ} {x : Traced α} (h : Covers 0 hi x) :
    Within 0 len x ↔ hi ≤ len := by
  constructor
  · intro hx
    by_contra hlt
    have := (hx len ((h _).mpr (by omega))).2
    omega
  · intro hle i hi
    have := (h i).mp hi
    omega

theorem Traced.Covers.bind {lo mid hi : ℕ} {x : Traced α} {k : α → Traced β} {a : α}
    (hx : Covers lo mid x) (ha : x.outcome = .done a) (hk : Covers mid hi (k a)) (hlo : lo ≤ mid)
    (hhi : mid ≤ hi) : Covers lo hi (x >>= k) := by
  intro i
  rw [mem_reads_bind, hx i]
  constructor
  · rintro (h | ⟨a', ha', h⟩)
    · omega
    · obtain rfl := Outcome.done.inj (ha.symm.trans ha')
      have := (hk i).mp h
      omega
  · intro h
    by_cases hmid : i < mid
    · exact .inl ⟨h.1, hmid⟩
    · exact .inr ⟨a, ha, (hk i).mpr ⟨by omega, h.2⟩⟩

theorem Traced.Covers.bind_fault {lo hi : ℕ} {x : Traced α} {k : α → Traced β} {f : Fault}
    (hx : Covers lo hi x) (hf : x.outcome = .fault f) : Covers lo hi (x >>= k) := by
  intro i
  rw [mem_reads_bind, hx i, hf]
  simp

/-- A decoder gets a position in memory, and returns a value and the position after it. -/
def MemReader (α : Type) := (ℕ → UInt8) → ℕ → Traced (α × ℕ)

namespace MemReader

/-- Read a value and go on behind it. -/
protected def bind (r : MemReader α) (k : α → MemReader β) : MemReader β := fun mem pos => do
  let (a, pos) ← r mem pos
  k a mem pos

instance : Monad MemReader where
  pure a := fun _ pos => pure (a, pos)
  bind := MemReader.bind

/-- A call that reads nothing. -/
def lift (x : Outcome α) : MemReader α := fun _ pos => do
  let a ← x
  return (a, pos)

/-- Read some bytes. -/
def take (count : ℕ) : MemReader (List UInt8) := fun mem pos => do
  let bytes ← readRange mem pos count
  return (bytes, pos + count)

/-- Read a number of some bytes. -/
def number (count : ℕ) : MemReader ℕ := do
  let bytes ← take count
  return valueLE bytes

/-- Read a number of values. -/
def many (r : MemReader α) : (count : ℕ) → MemReader {xs : List α // xs.length = count}
  | 0 => pure ⟨[], rfl⟩
  | count + 1 => do
    let x ← r
    let xs ← many r count
    return ⟨x :: xs.val, by rw [List.length_cons, xs.property]⟩

theorem length_lt_of_count {len : UInt32} (xs : {xs : List α // xs.length = len.toNat}) :
    xs.val.length < 2 ^ 32 := Reader.length_lt_of_eq_toNat xs.property

/-- Read as many values as are counted. -/
def counted (r : MemReader α) (len : UInt32) : MemReader (Counted α) := do
  let xs ← many r len.toNat
  return ⟨xs.val, length_lt_of_count xs⟩

end MemReader

/-! ### Grammars -/

/-- The words that stand for values, and the words behind which a reader gives up. -/
structure Grammar (α : Type) where
  complete : α → List UInt8 → Prop
  stopped : List UInt8 → Prop

namespace Grammar

/-- A value without a word. -/
def done (a : α) : Grammar α := ⟨fun b w => b = a ∧ w = [], fun _ => False⟩

/-- Give up. -/
def abort : Grammar α := ⟨fun _ _ => False, fun w => w = []⟩

/-- A call that reads nothing. -/
def lift (x : Outcome α) : Grammar α :=
  ⟨fun b w => x = .done b ∧ w = [], fun w => (∃ f, x = .fault f) ∧ w = []⟩

/-- Any word of a length. -/
def take (count : ℕ) : Grammar (List UInt8) :=
  ⟨fun bytes w => w = bytes ∧ bytes.length = count, fun _ => False⟩

/-- A word after the other. -/
def bind (g : Grammar α) (k : α → Grammar β) : Grammar β where
  complete b w := ∃ a u v, g.complete a u ∧ (k a).complete b v ∧ w = u ++ v
  stopped w := g.stopped w ∨ ∃ a u v, g.complete a u ∧ (k a).stopped v ∧ w = u ++ v

/-- The values of the words go through a function. -/
def map (f : α → β) (g : Grammar α) : Grammar β :=
  ⟨fun b w => ∃ a, b = f a ∧ g.complete a w, g.stopped⟩

/-- A word of one of two grammars, by a condition. -/
def ite (p : Prop) (g h : Grammar α) : Grammar α where
  complete a w := p ∧ g.complete a w ∨ ¬ p ∧ h.complete a w
  stopped w := p ∧ g.stopped w ∨ ¬ p ∧ h.stopped w

/-- The encodings of values that meet a condition. -/
def exact (enc : α → List UInt8) (ok : α → Prop) (stops : List UInt8 → Prop) : Grammar α :=
  ⟨fun a w => ok a ∧ w = enc a, stops⟩

/-- The encodings of all values, without a way to give up. -/
def plain (enc : α → List UInt8) : Grammar α := exact enc (fun _ => True) fun _ => False

/-- Encodings one after the other, or fewer of them and a word behind which the reader gives up. -/
def counted (enc : α → List UInt8) (ok : α → Prop) (stops : List UInt8 → Prop) (len : UInt32) :
    Grammar (Counted α) where
  complete xs w := xs.len = len ∧ (∀ x ∈ xs.items, ok x) ∧ w = xs.items.flatMap enc
  stopped w := ∃ (xs : List α) (v : List UInt8), xs.length < len.toNat ∧
    (∀ x ∈ xs, ok x) ∧ stops v ∧
    w = xs.flatMap enc ++ v

end Grammar

namespace MemReader

/-- Wherever the reader starts it goes through a word of the grammar, and every word of the grammar
takes it to the end of the word. -/
structure Reads (r : MemReader α) (g : Grammar α) : Prop where
  done : ∀ {mem pos a w}, g.complete a w → HoldsAt mem pos w →
    (r mem pos).outcome = .done (a, pos + w.length) ∧ (r mem pos).Covers pos (pos + w.length)
  fault : ∀ {mem pos w}, g.stopped w → HoldsAt mem pos w →
    (∃ f, (r mem pos).outcome = .fault f) ∧ (r mem pos).Covers pos (pos + w.length)
  total : ∀ mem pos, (∃ a w, g.complete a w ∧ HoldsAt mem pos w) ∨
    ∃ w, g.stopped w ∧ HoldsAt mem pos w

variable {r : MemReader α} {k : α → MemReader β} {g g' : Grammar α} {h : α → Grammar β}

theorem Reads.congr (hr : Reads r g) (hcomplete : ∀ a w, g.complete a w ↔ g'.complete a w)
    (hstopped : ∀ w, g.stopped w ↔ g'.stopped w) : Reads r g' := by
  refine ⟨fun ha => hr.done ((hcomplete _ _).mpr ha), fun hw => hr.fault ((hstopped _).mpr hw), ?_⟩
  intro mem pos
  rcases hr.total mem pos with ⟨a, w, ha, hw⟩ | ⟨w, hs, hw⟩
  · exact .inl ⟨a, w, (hcomplete _ _).mp ha, hw⟩
  · exact .inr ⟨w, (hstopped _).mp hs, hw⟩

theorem reads_pure (a : α) : Reads (pure a) (Grammar.done a) where
  done := by
    rintro mem pos b w ⟨rfl, rfl⟩ _
    refine ⟨rfl, fun i => ?_⟩
    change i ∈ [] ↔ _
    rw [List.length_nil]
    simp
  fault hs := hs.elim
  total _ _ := .inl ⟨a, [], ⟨rfl, rfl⟩, HoldsAt.nil⟩

theorem reads_lift {x : Outcome α} (hx : x ≠ .refused) : Reads (lift x) (Grammar.lift x) where
  done := by
    rintro mem pos a w ⟨rfl, rfl⟩ _
    refine ⟨rfl, fun i => ?_⟩
    change i ∈ [] ↔ _
    rw [List.length_nil]
    simp
  fault := by
    rintro mem pos w ⟨⟨f, rfl⟩, rfl⟩ _
    refine ⟨⟨f, rfl⟩, fun i => ?_⟩
    change i ∈ [] ↔ _
    rw [List.length_nil]
    simp
  total mem pos := by
    cases x with
    | done a => exact .inl ⟨a, [], ⟨rfl, rfl⟩, HoldsAt.nil⟩
    | refused => exact absurd rfl hx
    | fault f => exact .inr ⟨[], ⟨⟨f, rfl⟩, rfl⟩, HoldsAt.nil⟩

theorem reads_abort {f : Fault} : Reads (lift (.fault f) : MemReader α) Grammar.abort := by
  apply (reads_lift (by simp)).congr
  · intro a w
    simp [Grammar.lift, Grammar.abort]
  · intro w
    simp [Grammar.lift, Grammar.abort]

theorem reads_take (count : ℕ) : Reads (take count) (Grammar.take count) where
  done := by
    rintro mem pos bytes w ⟨rfl, rfl⟩ hw
    constructor
    · change Outcome.done (bytesAt mem pos w.length, pos + w.length) = _
      rw [hw]
    · intro i
      change i ∈ List.range' pos w.length ++ [] ↔ _
      rw [List.append_nil, List.mem_range'_1]
  fault hs := hs.elim
  total mem pos := .inl ⟨bytesAt mem pos count, _, ⟨rfl, length_bytesAt⟩, holdsAt_bytesAt ..⟩

/-- One field after the other. -/
theorem Reads.bind (hr : Reads r g) (hk : ∀ a, Reads (k a) (h a)) :
    Reads (r >>= k) (g.bind h) where
  done := by
    rintro mem pos b w ⟨a, u, v, hu, hv, rfl⟩ hw
    obtain ⟨hwu, hwv⟩ := holdsAt_append.mp hw
    obtain ⟨hout, hcovers⟩ := hr.done hu hwu
    obtain ⟨hout', hcovers'⟩ := (hk a).done hv hwv
    rw [List.length_append, ← Nat.add_assoc]
    change ((r mem pos >>= fun x => k x.1 mem x.2).outcome = _) ∧
      Traced.Covers _ _ (r mem pos >>= fun x => k x.1 mem x.2)
    constructor
    · rw [Traced.outcome_bind, hout, Outcome.done_bind]
      exact hout'
    · exact hcovers.bind hout hcovers' (by omega) (by omega)
  fault := by
    rintro mem pos w (hs | ⟨a, u, v, hu, hv, rfl⟩) hw
    · obtain ⟨⟨f, hf⟩, hcovers⟩ := hr.fault hs hw
      refine ⟨⟨f, ?_⟩, hcovers.bind_fault hf⟩
      change (r mem pos >>= fun x => k x.1 mem x.2).outcome = _
      rw [Traced.outcome_bind, hf, Outcome.fault_bind]
    · obtain ⟨hwu, hwv⟩ := holdsAt_append.mp hw
      obtain ⟨hout, hcovers⟩ := hr.done hu hwu
      obtain ⟨⟨f, hf⟩, hcovers'⟩ := (hk a).fault hv hwv
      rw [List.length_append, ← Nat.add_assoc]
      change (∃ f, (r mem pos >>= fun x => k x.1 mem x.2).outcome = _) ∧
        Traced.Covers _ _ (r mem pos >>= fun x => k x.1 mem x.2)
      constructor
      · rw [Traced.outcome_bind, hout, Outcome.done_bind]
        exact ⟨f, hf⟩
      · exact hcovers.bind hout hcovers' (by omega) (by omega)
  total mem pos := by
    rcases hr.total mem pos with ⟨a, u, hu, hwu⟩ | ⟨u, hs, hwu⟩
    · rcases (hk a).total mem (pos + u.length) with ⟨b, v, hv, hwv⟩ | ⟨v, hv, hwv⟩
      · exact .inl ⟨b, u ++ v, ⟨a, u, v, hu, hv, rfl⟩, holdsAt_append.mpr ⟨hwu, hwv⟩⟩
      · exact .inr ⟨u ++ v, .inr ⟨a, u, v, hu, hv, rfl⟩, holdsAt_append.mpr ⟨hwu, hwv⟩⟩
    · exact .inr ⟨u, .inl hs, hwu⟩

theorem Reads.map {f : α → β} (hr : Reads r g) :
    Reads (r >>= fun a => pure (f a)) (g.map f) := by
  apply (hr.bind fun a => reads_pure (f a)).congr
  · intro b w
    constructor
    · rintro ⟨a, u, v, hu, ⟨rfl, rfl⟩, rfl⟩
      rw [List.append_nil]
      exact ⟨a, rfl, hu⟩
    · rintro ⟨a, rfl, hw⟩
      exact ⟨a, w, [], hw, ⟨rfl, rfl⟩, (List.append_nil w).symm⟩
  · intro w
    constructor
    · rintro (hs | ⟨_, _, _, _, hf, _⟩)
      · exact hs
      · exact hf.elim
    · exact .inl

theorem Reads.ite {s : MemReader α} {p : Prop} [Decidable p] (hr : Reads r g) (hs : Reads s g') :
    Reads (if p then r else s) (Grammar.ite p g g') := by
  by_cases hp : p
  · rw [if_pos hp]
    exact hr.congr (fun a w => by simp [Grammar.ite, hp]) fun w => by simp [Grammar.ite, hp]
  · rw [if_neg hp]
    exact hs.congr (fun a w => by simp [Grammar.ite, hp]) fun w => by simp [Grammar.ite, hp]

variable {enc : α → List UInt8} {ok : α → Prop} {stops : List UInt8 → Prop}

/-- The words of as many encodings as are counted. -/
def manyGrammar (enc : α → List UInt8) (ok : α → Prop) (stops : List UInt8 → Prop) (count : ℕ) :
    Grammar {xs : List α // xs.length = count} where
  complete xs w := (∀ x ∈ xs.val, ok x) ∧ w = xs.val.flatMap enc
  stopped w := ∃ (xs : List α) (v : List UInt8), xs.length < count ∧ (∀ x ∈ xs, ok x) ∧ stops v ∧
    w = xs.flatMap enc ++ v

theorem Reads.many (hr : Reads r (Grammar.exact enc ok stops)) (count : ℕ) :
    Reads (many r count) (manyGrammar enc ok stops count) := by
  induction count with
  | zero =>
    apply (reads_pure _).congr
    · rintro ⟨xs, hxs⟩ w
      obtain rfl := List.length_eq_zero_iff.mp hxs
      simp [Grammar.done, manyGrammar]
    · intro w
      simp [Grammar.done, manyGrammar]
  | succ count ih =>
    apply (hr.bind fun x => ih.bind fun xs => reads_pure _).congr
    · rintro ⟨xs, hxs⟩ w
      constructor
      · rintro ⟨a, u, v, ⟨hok, rfl⟩, ⟨ys, u', v', ⟨hoks, rfl⟩, ⟨heq, rfl⟩, rfl⟩, rfl⟩
        obtain rfl : xs = a :: ys.val := congrArg Subtype.val heq
        exact ⟨List.forall_mem_cons.mpr ⟨hok, hoks⟩, by rw [List.flatMap_cons, List.append_nil]⟩
      · rintro ⟨hoks, rfl⟩
        obtain ⟨x, ys, rfl⟩ := List.exists_cons_of_length_eq_add_one hxs
        obtain ⟨hok, hoks⟩ := List.forall_mem_cons.mp hoks
        exact ⟨x, _, _, ⟨hok, rfl⟩, ⟨⟨ys, Nat.succ.inj hxs⟩, _, [], ⟨hoks, rfl⟩, ⟨rfl, rfl⟩, rfl⟩,
          by rw [List.flatMap_cons, List.append_nil]⟩
    · intro w
      constructor
      · rintro (hs | ⟨a, u, v, ⟨hok, rfl⟩, ⟨ys, v', hlt, hoks, hv, rfl⟩ | ⟨_, _, _, _, hf, _⟩, rfl⟩)
        · exact ⟨[], w, Nat.succ_pos _, by simp, hs, rfl⟩
        · refine ⟨a :: ys, v', Nat.succ_lt_succ hlt, List.forall_mem_cons.mpr ⟨hok, hoks⟩, hv, ?_⟩
          rw [List.flatMap_cons, List.append_assoc]
        · exact hf.elim
      · rintro ⟨_ | ⟨x, xs⟩, v, hlt, hoks, hv, rfl⟩
        · exact .inl hv
        · obtain ⟨hok, hoks⟩ := List.forall_mem_cons.mp hoks
          refine .inr ⟨x, _, _, ⟨hok, rfl⟩, .inl ⟨xs, v, Nat.lt_of_succ_lt_succ hlt, hoks, hv, rfl⟩,
            ?_⟩
          rw [List.flatMap_cons, List.append_assoc]

/-- An array is read by its elements. -/
theorem Reads.counted (hr : Reads r (Grammar.exact enc ok stops)) (len : UInt32) :
    Reads (counted r len) (Grammar.counted enc ok stops len) := by
  apply (hr.many len.toNat).map.congr
  · intro xs w
    constructor
    · rintro ⟨ys, rfl, hoks, rfl⟩
      refine ⟨?_, hoks, rfl⟩
      rw [Counted.len, ys.property, UInt32.ofNat_toNat]
    · rintro ⟨rfl, hoks, rfl⟩
      exact ⟨⟨xs.items, xs.toNat_len.symm⟩, rfl, hoks, rfl⟩
  · exact fun w => Iff.rfl

theorem exists_bytesAt (bytes : List UInt8) : ∃ mem, bytesAt mem 0 bytes.length = bytes := by
  refine ⟨fun i => bytes.getD i 0, List.ext_getElem length_bytesAt fun i hi hi' => ?_⟩
  simp [bytesAt, hi']

/-- A reader keeps inside a message, whatever is behind it in memory, exactly if the message begins
with a word of its grammar. -/
theorem Reads.within_iff (hr : Reads r g) (bytes : List UInt8) :
    (∀ mem, bytesAt mem 0 bytes.length = bytes → (r mem 0).Within 0 bytes.length) ↔
      (∃ a w, g.complete a w ∧ w <+: bytes) ∨ ∃ w, g.stopped w ∧ w <+: bytes := by
  constructor
  · intro h
    obtain ⟨mem, hmem⟩ := exists_bytesAt bytes
    have hwithin := h mem hmem
    -- the word that is found in memory is read to its end, and so it is inside the message
    rcases hr.total mem 0 with ⟨a, w, ha, hw⟩ | ⟨w, hs, hw⟩
    · have hle : w.length ≤ bytes.length := by
        have := (hr.done ha hw).2.within_iff.mp hwithin
        omega
      exact .inl ⟨a, w, ha, hmem ▸ (holdsAt_iff_of_le hle).mp hw⟩
    · have hle : w.length ≤ bytes.length := by
        have := (hr.fault hs hw).2.within_iff.mp hwithin
        omega
      exact .inr ⟨w, hs, hmem ▸ (holdsAt_iff_of_le hle).mp hw⟩
  · rintro (⟨a, w, ha, hw⟩ | ⟨w, hs, hw⟩) mem hmem
    · have hheld := (holdsAt_iff_of_le hw.length_le).mpr (hmem.symm ▸ hw)
      apply (hr.done ha hheld).2.within_iff.mpr
      have := hw.length_le
      omega
    · have hheld := (holdsAt_iff_of_le hw.length_le).mpr (hmem.symm ▸ hw)
      apply (hr.fault hs hheld).2.within_iff.mpr
      have := hw.length_le
      omega

end MemReader

end Checked
