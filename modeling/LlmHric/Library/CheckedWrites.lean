import LlmHric.Library.TracedReads

/-! A piece of a buffer is read or written at a position, and going beyond the buffer is a fault. A
writer goes on from the number of bytes that are written already. -/

namespace Checked

/-- Some bytes of a buffer. -/
def readSlice (buf : List UInt8) (pos count : ℕ) : Outcome (List UInt8) :=
  if pos + count ≤ buf.length then .done ((buf.drop pos).take count) else .fault .outOfBounds

/-- Write some bytes into a buffer. -/
def writeAt (buf : List UInt8) (pos : ℕ) (bytes : List UInt8) : Outcome (List UInt8) :=
  if pos + bytes.length ≤ buf.length then
    .done (buf.take pos ++ (bytes ++ buf.drop (pos + bytes.length)))
  else .fault .outOfBounds

variable {bytes : List UInt8} {pos count : ℕ}

theorem readSlice_append (pre post : List UInt8) (hpos : pos = pre.length)
    (hcount : count = bytes.length) :
    readSlice (pre ++ (bytes ++ post)) pos count = .done bytes := by
  subst hpos hcount
  have hle : pre.length + bytes.length ≤ (pre ++ (bytes ++ post)).length := by
    simp only [List.length_append]
    omega
  rw [readSlice, if_pos hle, List.drop_left, List.take_left]

theorem writeAt_append (pre old post : List UInt8) (hpos : pos = pre.length)
    (hold : old.length = bytes.length) :
    writeAt (pre ++ (old ++ post)) pos bytes = .done (pre ++ (bytes ++ post)) := by
  subst hpos
  have hle : pre.length + bytes.length ≤ (pre ++ (old ++ post)).length := by
    simp only [List.length_append]
    omega
  have hdrop : (pre ++ (old ++ post)).drop (pre.length + bytes.length) = post := by
    rw [← List.append_assoc, ← hold, ← List.length_append, List.drop_left]
  rw [writeAt, if_pos hle, hdrop, List.take_left]

/-- Write over the first part of what is left. -/
theorem writeAt_room (pre room : List UInt8) (hpos : pos = pre.length)
    (hroom : bytes.length ≤ room.length) :
    writeAt (pre ++ room) pos bytes = .done (pre ++ (bytes ++ room.drop bytes.length)) := by
  have htake : (room.take bytes.length).length = bytes.length := List.length_take_of_le hroom
  conv_lhs => rw [← List.take_append_drop bytes.length room]
  exact writeAt_append pre _ _ hpos htake

/-- An encoder gets a buffer with the number of bytes written so far, and writes more. -/
abbrev Writer := List UInt8 → ℕ → Outcome (List UInt8 × ℕ)

namespace Writer

variable {α : Type}

def put (bytes : List UInt8) : Writer := fun buf written => do
  let buf ← writeAt buf written bytes
  return (buf, written + bytes.length)

/-- One writer after the other. -/
def andThen (w v : Writer) : Writer := fun buf written => do
  let (buf, written) ← w buf written
  v buf written

/-- A writer for something that may be missing. -/
def optional (w : α → Writer) : Option α → Writer
  | none => fun buf written => .done (buf, written)
  | some a => w a

/-- Wherever there is room for the bytes, the writer adds them. -/
def Writes (w : Writer) (bytes : List UInt8) : Prop :=
  ∀ pre room, bytes.length ≤ room.length →
    w (pre ++ room) pre.length =
      .done (pre ++ (bytes ++ room.drop bytes.length), pre.length + bytes.length)

theorem writes_put (bytes : List UInt8) : (put bytes).Writes bytes := by
  intro pre room hroom
  rw [put, writeAt_room pre room rfl hroom]
  rfl

theorem Writes.andThen {w v : Writer} {xs ys : List UInt8} (hw : w.Writes xs) (hv : v.Writes ys) :
    (w.andThen v).Writes (xs ++ ys) := by
  intro pre room hroom
  rw [List.length_append] at hroom
  have hnext := hv (pre ++ xs) (room.drop xs.length) (by rw [List.length_drop]; omega)
  rw [Writer.andThen, hw pre room (by omega)]
  simp only [List.length_append, List.append_assoc, List.drop_drop, Nat.add_assoc] at hnext ⊢
  exact hnext

theorem Writes.optional {w : α → Writer} {enc : α → List UInt8} {x : Option α}
    (hw : ∀ a ∈ x, (w a).Writes (enc a)) : (optional w x).Writes (x.elim [] enc) := by
  cases x with
  | none =>
    intro pre room _
    rfl
  | some a => exact hw a rfl

theorem andThen_assoc (w v u : Writer) : (w.andThen v).andThen u = w.andThen (v.andThen u) := by
  funext buf written
  exact bind_assoc ..

/-- A writer in a buffer that is empty so far. -/
theorem Writes.run {w : Writer} (hw : w.Writes bytes) {buf : List UInt8}
    (hbuf : bytes.length ≤ buf.length) :
    w buf 0 = .done (bytes ++ buf.drop bytes.length, bytes.length) := by
  have h := hw [] buf hbuf
  simpa using h

/-! ### Writers and the room that they need -/

def each (w : α → Writer) : List α → Writer
  | [] => fun buf written => .done (buf, written)
  | a :: as => (w a).andThen (each w as)

/-- A writer that first asserts that the end of the buffer is not reached. -/
def beforeEnd (w : Writer) : Writer := fun buf written => do
  Outcome.assertFatal (written < buf.length)
  w buf written

/-- A writer that is never to be called. -/
def abort : Writer := fun _ _ => .fault .assertion

/-- The writer succeeds exactly if there is room for the bytes, and adds them. -/
def Emits (w : Writer) (bytes : List UInt8) : Prop :=
  ∀ buf written res, written ≤ buf.length →
    (w buf written = .done res ↔ put bytes buf written = .done res)

theorem put_eq_done_iff {buf : List UInt8} {written : ℕ} {res : List UInt8 × ℕ} :
    put bytes buf written = .done res ↔ written + bytes.length ≤ buf.length ∧
      res = (buf.take written ++ (bytes ++ buf.drop (written + bytes.length)),
        written + bytes.length) := by
  rw [put, writeAt]
  split_ifs with hroom
  · rw [Outcome.done_bind, Outcome.pure_eq, Outcome.done.injEq]
    exact ⟨fun h => ⟨hroom, h.symm⟩, fun h => h.2.symm⟩
  · simp [hroom]

theorem emits_put (bytes : List UInt8) : (put bytes).Emits bytes :=
  fun _ _ _ _ => Iff.rfl

theorem emits_skip : Emits (fun buf written => .done (buf, written)) [] := by
  intro buf written res hle
  rw [put_eq_done_iff, Outcome.done.injEq]
  simp [hle, eq_comm]

/-- Two pieces that are written one after the other are written like one. -/
theorem put_andThen_put (xs ys : List UInt8) : (put xs).andThen (put ys) = put (xs ++ ys) := by
  funext buf written
  rw [andThen]
  by_cases hxs : written + xs.length ≤ buf.length
  · have hput := put_eq_done_iff.mpr ⟨hxs, rfl⟩
    rw [hput, Outcome.done_bind]
    dsimp only
    rw [put, put, writeAt, writeAt]
    have htake : (buf.take written).length = written := List.length_take_of_le (by omega)
    have hlen :
        (buf.take written ++ (xs ++ buf.drop (written + xs.length))).length = buf.length := by
      simp only [List.length_append, htake, List.length_drop]
      omega
    have hleft : (buf.take written ++ (xs ++ buf.drop (written + xs.length))).take
        (written + xs.length) = buf.take written ++ xs := by
      rw [← List.append_assoc]
      exact List.take_left' (by rw [List.length_append, htake])
    have hright : (buf.take written ++ (xs ++ buf.drop (written + xs.length))).drop
        (written + xs.length + ys.length) = buf.drop (written + xs.length + ys.length) := by
      rw [← List.append_assoc, ← List.drop_drop,
        List.drop_left' (by rw [List.length_append, htake]),
        List.drop_drop]
    rw [hlen, hleft, hright, List.length_append, ← Nat.add_assoc, List.append_assoc,
      List.append_assoc]
  · have hxys : ¬ written + (xs ++ ys).length ≤ buf.length := by
      rw [List.length_append]
      omega
    rw [put, put, writeAt, writeAt, if_neg hxs, if_neg hxys]
    rfl

theorem Emits.andThen {w v : Writer} {xs ys : List UInt8} (hw : w.Emits xs) (hv : v.Emits ys) :
    (w.andThen v).Emits (xs ++ ys) := by
  intro buf written res hle
  rw [← put_andThen_put, Writer.andThen, Writer.andThen, Outcome.bind_eq_done_iff,
    Outcome.bind_eq_done_iff]
  refine exists_congr fun mid => (and_congr_left' (hw buf written mid hle)).trans ?_
  refine and_congr_right fun hmid => hv _ _ _ ?_
  obtain ⟨hroom, rfl⟩ := put_eq_done_iff.mp hmid
  simp only [List.length_append, List.length_take, List.length_drop]
  omega

theorem Emits.each {w : α → Writer} {enc : α → List UInt8} {as : List α}
    (hw : ∀ a ∈ as, (w a).Emits (enc a)) : (each w as).Emits (as.flatMap enc) := by
  induction as with
  | nil => exact emits_skip
  | cons a as ih =>
    rw [List.flatMap_cons]
    exact (hw a (by simp)).andThen (ih fun b hb => hw b (by simp [hb]))

/-- The assertion says nothing new if something is written. -/
theorem Emits.beforeEnd {w : Writer} (hw : w.Emits bytes) (hne : bytes ≠ []) :
    w.beforeEnd.Emits bytes := by
  intro buf written res hle
  have hpos : 0 < bytes.length := List.length_pos_of_ne_nil hne
  rw [Writer.beforeEnd, Outcome.assertFatal]
  split_ifs with hlt
  · exact hw buf written res hle
  · rw [put_eq_done_iff]
    constructor
    · intro h
      cases h
    · rintro ⟨hroom, -⟩
      omega

/-- A writer succeeds in an empty buffer exactly if its bytes fit. -/
theorem Emits.run_iff {w : Writer} (hw : w.Emits bytes) {buf : List UInt8} {res : List UInt8 × ℕ} :
    w buf 0 = .done res ↔
      bytes.length ≤ buf.length ∧ res = (bytes ++ buf.drop bytes.length, bytes.length) := by
  rw [hw buf 0 res (Nat.zero_le _), put_eq_done_iff]
  simp

end Writer

end Checked
