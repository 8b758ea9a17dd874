import LlmHric.Library.Run
import Mathlib.Data.List.Basic
import Mathlib.Data.Nat.ModEq
import Mathlib.Logic.Function.Basic
import Mathlib.Tactic.SplitIfs

/-! One thread puts elements into a ring buffer, and another one takes them out, without a lock.
Each thread writes one of the two indices, and loads the other one; a load may find a value that is
no longer the latest. Elements are copied byte by byte, and the steps of the threads come in any
order. -/

namespace LlmHric.Common

/-- An atomic variable that one thread writes: its values in the order of the stores, and the
position of the value that the other thread has loaded last. -/
structure SharedIndex where
  values : List ℕ
  seen : ℕ

namespace SharedIndex

/-- What the writing thread loads. -/
def latest (x : SharedIndex) : ℕ := x.values.getLastD 0

/-- A store with `memory_order_release`. -/
def store (x : SharedIndex) (v : ℕ) : SharedIndex := { x with values := x.values ++ [v] }

/-- A load with `memory_order_acquire` by the other thread finds any value that is not older than
the one that it found before. -/
def load (x : SharedIndex) (pos : ℕ) : Option (ℕ × SharedIndex) :=
  if x.seen ≤ pos then x.values[pos]?.map fun v => (v, { x with seen := pos }) else none

end SharedIndex

/-! ### Threads -/

/-- The thread that puts is idle, or copies an element into the slot of its index. -/
inductive Producer
  | idle
  | writing (src : List UInt8) (w done : ℕ)

/-- The thread that gets is idle, lets a predicate look at the element at its index, or copies the
element. -/
inductive Consumer
  | idle
  | looking (p : List UInt8 → Bool) (dest : Bool) (r : ℕ) (bytes : List UInt8)
  | copying (p : List UInt8 → Bool) (r : ℕ) (bytes : List UInt8)

/-- `spsc_q_t` with its threads, the elements that were put, and the ones that were got, each with
the predicate that accepted it. -/
structure SpscQ where
  buf : ℕ → UInt8
  elsiz : ℕ
  cnt : ℕ
  writeIdx : SharedIndex
  readIdx : SharedIndex
  producer : Producer
  consumer : Consumer
  puts : List (List UInt8)
  gets : List ((List UInt8 → Bool) × List UInt8)

/-- A step of one of the threads. The loads of the other thread's index find some value. -/
inductive SpscOp
  | put (src : List UInt8) (pos : ℕ)
  | writeByte
  | publish
  | getIf (p : List UInt8 → Bool) (dest : Bool) (pos : ℕ)
  | readByte
  | decide
  | release

namespace SpscQ

/-- `spsc_q_alloc`; there is one slot more than there are elements. -/
def alloc (cnt elsiz : ℕ) : SpscQ :=
  ⟨fun _ => 0, elsiz, cnt + 1, ⟨[0], 0⟩, ⟨[0], 0⟩, .idle, .idle, [], []⟩

/-- The end of `spsc_q_get_if`. -/
def advance (q : SpscQ) (p : List UInt8 → Bool) (r : ℕ) (bytes : List UInt8) : SpscQ :=
  { q with
    readIdx := q.readIdx.store ((r + 1) % q.cnt)
    consumer := .idle
    gets := q.gets ++ [(p, bytes)] }

/-- The steps of `spsc_q_put` and `spsc_q_get_if`. A thread that finds the queue full or empty stays
idle; the other functions of the queue call `spsc_q_get_if` again and again. -/
def op (q : SpscQ) : SpscOp → Option SpscQ
  | .put src pos =>
    match q.producer with
    | .idle => do
      guard (src.length = q.elsiz)
      let (r, readIdx) ← q.readIdx.load pos
      let w := q.writeIdx.latest
      return { q with
        readIdx
        producer := if (w + 1) % q.cnt = r then .idle else .writing src w 0 }
    | _ => none
  | .writeByte =>
    match q.producer with
    | .writing src w done => do
      let byte ← src[done]?
      return { q with
        buf := Function.update q.buf (w * q.elsiz + done) byte
        producer := .writing src w (done + 1) }
    | _ => none
  | .publish =>
    match q.producer with
    | .writing src w done =>
      if done = src.length then some { q with
        writeIdx := q.writeIdx.store ((w + 1) % q.cnt)
        producer := .idle
        puts := q.puts ++ [src] }
      else none
    | _ => none
  | .getIf p dest pos =>
    match q.consumer with
    | .idle => do
      let (w, writeIdx) ← q.writeIdx.load pos
      let r := q.readIdx.latest
      return { q with
        writeIdx
        consumer := if w = r then .idle else .looking p dest r [] }
    | _ => none
  | .readByte =>
    match q.consumer with
    | .looking p dest r bytes =>
      if bytes.length < q.elsiz then some { q with
        consumer := .looking p dest r (bytes ++ [q.buf (r * q.elsiz + bytes.length)]) }
      else none
    | .copying p r bytes =>
      if bytes.length < q.elsiz then some { q with
        consumer := .copying p r (bytes ++ [q.buf (r * q.elsiz + bytes.length)]) }
      else none
    | _ => none
  | .decide =>
    match q.consumer with
    | .looking p dest r bytes =>
      if bytes.length = q.elsiz then
        some (if p bytes = false then { q with consumer := .idle }
          else if dest then { q with consumer := .copying p r [] }
          else q.advance p r bytes)
      else none
    | _ => none
  | .release =>
    match q.consumer with
    | .copying p r bytes => if bytes.length = q.elsiz then some (q.advance p r bytes) else none
    | _ => none

/-- The byte of the buffer that the producer writes next. -/
def nextWrite (q : SpscQ) : Option ℕ :=
  match q.producer with
  | .writing src w done => if done < src.length then some (w * q.elsiz + done) else none
  | .idle => none

/-- The byte of the buffer that the consumer reads next. -/
def nextRead (q : SpscQ) : Option ℕ :=
  match q.consumer with
  | .looking _ _ r bytes | .copying _ r bytes =>
    if bytes.length < q.elsiz then some (r * q.elsiz + bytes.length) else none
  | .idle => none

/-- What holds in every state of a queue for `cnt` elements. -/
structure Correct (cnt : ℕ) (q : SpscQ) : Prop where
  /-- The elements come out as they went in: in order, none lost, none twice, none torn. -/
  fifo : q.gets.map Prod.snd = q.puts.take q.gets.length
  accepted : ∀ g ∈ q.gets, g.1 g.2 = true
  bounds : q.gets.length ≤ q.puts.length ∧ q.puts.length ≤ q.gets.length + cnt
  /-- The threads never access the same byte. -/
  apart : ∀ i ∈ q.nextWrite, i ∉ q.nextRead
  /-- An element is written after its slot was seen to be free, and read after it was seen to be
  there. -/
  writesSeen : q.nextWrite ≠ none → q.puts.length < q.readIdx.seen + cnt
  readsSeen : q.nextRead ≠ none → q.gets.length < q.writeIdx.seen
  /-- The queue is found full if it was full when the index that was loaded was stored, and found
  empty if it was empty then. -/
  full : ∀ pos v x, q.readIdx.load pos = some (v, x) →
    ((q.writeIdx.latest + 1) % q.cnt = v ↔ q.puts.length = pos + cnt)
  empty : ∀ pos v x, q.writeIdx.load pos = some (v, x) →
    (v = q.readIdx.latest ↔ pos = q.gets.length)

/-! ### The invariant -/

/-- Indices that are less than a whole round apart. -/
theorem mod_eq_mod_iff {a b m : ℕ} (hle : a ≤ b) (hlt : b < a + m) : b % m = a % m ↔ a = b := by
  refine ⟨fun h => ?_, fun h => h ▸ rfl⟩
  have hdvd : m ∣ b - a := (Nat.modEq_iff_dvd' hle).mp h.symm
  have hzero := Nat.eq_zero_of_dvd_of_lt hdvd (by omega)
  omega

/-- The index after one that is less than a whole round ahead. -/
theorem succ_mod_eq_mod_iff {a b m : ℕ} (hle : a ≤ b) (hlt : b < a + m) :
    (b + 1) % m = a % m ↔ b + 1 = a + m := by
  rw [← Nat.add_mod_right a m, eq_comm, mod_eq_mod_iff hlt (by omega)]

/-- Bytes of different slots. -/
theorem byte_ne {a b i j e : ℕ} (hne : a ≠ b) (hi : i < e) (hj : j < e) :
    a * e + i ≠ b * e + j := by
  intro h
  have hdiv := congrArg (· / e) h
  simp only [Nat.mul_comm a, Nat.mul_comm b, Nat.mul_add_div (Nat.zero_lt_of_lt hi),
    Nat.div_eq_of_lt hi, Nat.div_eq_of_lt hj, Nat.add_zero] at hdiv
  exact hne hdiv

/-- An index that was stored a number of times. -/
def Counts (x : SharedIndex) (m n : ℕ) : Prop :=
  x.values = (List.range (n + 1)).map (· % m) ∧ x.seen ≤ n

namespace Counts

variable {x x' : SharedIndex} {m n pos v : ℕ}

theorem latest (h : Counts x m n) : x.latest = n % m := by
  rw [SharedIndex.latest, h.1, List.range_succ, List.map_append]
  exact List.getLastD_concat

theorem store (h : Counts x m n) : Counts (x.store ((n % m + 1) % m)) m (n + 1) := by
  refine ⟨?_, Nat.le_succ_of_le h.2⟩
  rw [SharedIndex.store, h.1, List.range_succ (n := n + 1), List.map_append, Nat.mod_add_mod]
  rfl

theorem load (h : Counts x m n) (hload : x.load pos = some (v, x')) :
    x.seen ≤ pos ∧ pos ≤ n ∧ v = pos % m ∧ Counts x' m n ∧ x'.seen = pos := by
  rw [SharedIndex.load] at hload
  split_ifs at hload with hseen
  obtain ⟨a, ha, hpair⟩ := Option.map_eq_some_iff.mp hload
  obtain ⟨rfl, rfl⟩ := Prod.mk.inj hpair
  obtain ⟨hpos, -⟩ := List.getElem?_eq_some_iff.mp ha
  rw [h.1, List.length_map, List.length_range] at hpos
  rw [h.1, List.getElem?_map, List.getElem?_range hpos] at ha
  exact ⟨hseen, Nat.le_of_lt_succ hpos, (Option.some.inj ha).symm, ⟨h.1, Nat.le_of_lt_succ hpos⟩,
    rfl⟩

end Counts

/-- The consumer has read some bytes of the first element. -/
def Reads (q : SpscQ) (r : ℕ) (bytes x : List UInt8) : Prop :=
  r = q.gets.length % q.cnt ∧ q.gets.length < q.writeIdx.seen ∧ q.puts[q.gets.length]? = some x ∧
    bytes <+: x

/-- What the steps keep. -/
structure Inv (cnt : ℕ) (q : SpscQ) : Prop where
  cnt_eq : q.cnt = cnt + 1
  write : Counts q.writeIdx q.cnt q.puts.length
  read : Counts q.readIdx q.cnt q.gets.length
  fifo : q.gets.map Prod.snd = q.puts.take q.gets.length
  accepted : ∀ g ∈ q.gets, g.1 g.2 = true
  -- no thread goes beyond what it has loaded of the index of the other one
  seen : q.gets.length ≤ q.writeIdx.seen
  room : q.puts.length ≤ q.readIdx.seen + cnt
  length : ∀ x ∈ q.puts, x.length = q.elsiz
  -- the elements that were put and not yet got are in their slots
  stored : ∀ n x, q.puts[n]? = some x → q.gets.length ≤ n → ∀ i b, x[i]? = some b →
    q.buf (n % q.cnt * q.elsiz + i) = b
  writing : ∀ src w done, q.producer = .writing src w done →
    w = q.puts.length % q.cnt ∧ src.length = q.elsiz ∧ q.puts.length < q.readIdx.seen + cnt ∧
      done ≤ src.length ∧ ∀ i b, i < done → src[i]? = some b → q.buf (w * q.elsiz + i) = b
  looking : ∀ p dest r bytes, q.consumer = .looking p dest r bytes → ∃ x, q.Reads r bytes x
  copying : ∀ p r bytes, q.consumer = .copying p r bytes → ∃ x, q.Reads r bytes x ∧ p x = true

variable {cnt : ℕ} {q q' : SpscQ}

theorem inv_alloc (cnt elsiz : ℕ) : (alloc cnt elsiz).Inv cnt where
  cnt_eq := rfl
  write := ⟨by simp [alloc], Nat.le_refl 0⟩
  read := ⟨by simp [alloc], Nat.le_refl 0⟩
  fifo := rfl
  accepted _ hg := absurd hg List.not_mem_nil
  seen := Nat.le_refl 0
  room := Nat.zero_le _
  length _ hx := absurd hx List.not_mem_nil
  stored _ _ hx := by cases hx
  writing _ _ _ h := by cases h
  looking _ _ _ _ h := by cases h
  copying _ _ _ h := by cases h

namespace Inv

theorem le (h : q.Inv cnt) : q.gets.length ≤ q.puts.length := Nat.le_trans h.seen h.write.2

/-- The slot that is written is none of the slots with elements. -/
theorem slot_ne (h : q.Inv cnt) {n : ℕ} (hroom : q.puts.length < q.readIdx.seen + cnt)
    (hn : q.gets.length ≤ n) (hlt : n < q.puts.length) :
    q.puts.length % q.cnt ≠ n % q.cnt := by
  have hseen := h.read.2
  have hcnt := h.cnt_eq
  rw [ne_eq, mod_eq_mod_iff (Nat.le_of_lt hlt) (by omega)]
  omega

/-- The producer starts, or finds the queue full. -/
theorem put {src : List UInt8} {pos : ℕ} (h : q.Inv cnt) (hop : q.op (.put src pos) = some q') :
    q'.Inv cnt := by
  simp only [op] at hop
  split at hop
  on_goal 2 => cases hop
  obtain ⟨_, hlen, hop⟩ := Option.bind_eq_some_iff.mp hop
  obtain ⟨⟨r, readIdx⟩, hload, hop⟩ := Option.bind_eq_some_iff.mp hop
  obtain rfl := Option.some.inj hop
  obtain ⟨hseen, hle, rfl, hread, hpos⟩ := h.read.load hload
  have hlen : src.length = q.elsiz := by
    by_contra hne
    simp [guard, hne] at hlen
  have hcnt := h.cnt_eq
  have hroom := h.room
  have hputs := h.le
  refine ⟨h.cnt_eq, h.write, hread, h.fifo, h.accepted, h.seen, by dsimp only; omega, h.length,
    h.stored, ?_, h.looking, h.copying⟩
  intro src' w done hproducer
  dsimp only at hproducer ⊢
  split_ifs at hproducer with hfull
  -- `hfull` is about indices; the counts are less than a whole round apart
  obtain ⟨rfl, rfl, rfl⟩ := Producer.writing.inj hproducer
  rw [h.write.latest, Nat.mod_add_mod, succ_mod_eq_mod_iff (by omega) (by omega)] at hfull
  rw [h.write.latest]
  exact ⟨rfl, hlen, by omega, Nat.zero_le _, fun i b hi => absurd hi (Nat.not_lt_zero i)⟩

/-- A byte is written into the slot behind the elements. -/
theorem writeByte (h : q.Inv cnt) (hop : q.op .writeByte = some q') : q'.Inv cnt := by
  simp only [op] at hop
  split at hop
  on_goal 2 => cases hop
  rename_i src w done hproducer
  obtain ⟨byte, hbyte, hop⟩ := Option.bind_eq_some_iff.mp hop
  obtain rfl := Option.some.inj hop
  obtain ⟨rfl, hlen, hroom, -, hdone⟩ := h.writing src w done hproducer
  obtain ⟨hlt, -⟩ := List.getElem?_eq_some_iff.mp hbyte
  refine ⟨h.cnt_eq, h.write, h.read, h.fifo, h.accepted, h.seen, h.room, h.length, ?_, ?_,
    h.looking, h.copying⟩
  · intro n x hx hn i b hb
    obtain ⟨hn', -⟩ := List.getElem?_eq_some_iff.mp hx
    obtain ⟨hi, -⟩ := List.getElem?_eq_some_iff.mp hb
    rw [h.length x (List.mem_of_getElem? hx)] at hi
    -- the byte is in no slot that has an element
    have hne := byte_ne (h.slot_ne hroom hn hn') (hlen ▸ hlt) hi
    exact (Function.update_of_ne hne.symm _ _).trans (h.stored n x hx hn i b hb)
  · intro src' w' done' hproducer'
    obtain ⟨rfl, rfl, rfl⟩ := Producer.writing.inj hproducer'
    refine ⟨rfl, hlen, hroom, hlt, fun i b hi hb => ?_⟩
    dsimp only
    rcases Nat.lt_succ_iff_lt_or_eq.mp hi with hi | rfl
    · rw [Function.update_of_ne (by omega)]
      exact hdone i b hi hb
    · rw [Function.update_self]
      exact Option.some.inj (hbyte.symm.trans hb)

/-- An element is handed over. -/
theorem publish (h : q.Inv cnt) (hop : q.op .publish = some q') : q'.Inv cnt := by
  simp only [op] at hop
  split at hop
  on_goal 2 => cases hop
  rename_i src w done hproducer
  split_ifs at hop with hdone
  obtain rfl := Option.some.inj hop
  obtain ⟨rfl, hlen, hroom, -, hbytes⟩ := h.writing src w done hproducer
  have hle := h.le
  have hkeep : ∀ r bytes x, q.Reads r bytes x → r = q.gets.length % q.cnt ∧
      q.gets.length < q.writeIdx.seen ∧ (q.puts ++ [src])[q.gets.length]? = some x ∧
        bytes <+: x := by
    rintro r bytes x ⟨hr, hseen, hx, hprefix⟩
    exact ⟨hr, hseen, by rw [List.getElem?_append_left (List.getElem?_eq_some_iff.mp hx).1, hx],
      hprefix⟩
  refine ⟨h.cnt_eq, ?_, h.read, ?_, h.accepted, h.seen, ?_, ?_, ?_, ?_, ?_, ?_⟩
  · rw [List.length_append]
    exact h.write.store
  · rw [h.fifo, List.take_append_of_le_length hle]
  · rw [List.length_append]
    exact hroom
  · intro x hx
    rcases List.mem_append.mp hx with hx | hx
    · exact h.length x hx
    · rw [List.mem_singleton.mp hx, hlen]
  · intro n x hx hn i b hb
    dsimp only at hx ⊢
    rcases Nat.lt_or_ge n q.puts.length with hlt | hge
    · rw [List.getElem?_append_left hlt] at hx
      exact h.stored n x hx hn i b hb
    · -- the new element: all its bytes have been written
      obtain ⟨hn', -⟩ := List.getElem?_eq_some_iff.mp hx
      rw [List.length_append, List.length_singleton] at hn'
      obtain rfl : n = q.puts.length := by omega
      rw [List.getElem?_concat_length] at hx
      obtain rfl := Option.some.inj hx
      exact hbytes i b (hdone ▸ (List.getElem?_eq_some_iff.mp hb).1) hb
  · intro src' w done h
    cases h
  · intro p dest r bytes hconsumer
    obtain ⟨x, hx⟩ := h.looking p dest r bytes hconsumer
    exact ⟨x, hkeep r bytes x hx⟩
  · intro p r bytes hconsumer
    obtain ⟨x, hx, hp⟩ := h.copying p r bytes hconsumer
    exact ⟨x, hkeep r bytes x hx, hp⟩

/-- The consumer starts, or finds the queue empty. -/
theorem getIf {p : List UInt8 → Bool} {dest : Bool} {pos : ℕ} (h : q.Inv cnt)
    (hop : q.op (.getIf p dest pos) = some q') : q'.Inv cnt := by
  simp only [op] at hop
  split at hop
  on_goal 2 => cases hop
  rename_i hidle
  obtain ⟨⟨w, writeIdx⟩, hload, hop⟩ := Option.bind_eq_some_iff.mp hop
  obtain rfl := Option.some.inj hop
  obtain ⟨hseen, hle, rfl, hwrite, hpos⟩ := h.write.load hload
  have htaken := h.seen
  have hcnt := h.cnt_eq
  have hroom := h.room
  have hread := h.read.2
  refine ⟨h.cnt_eq, hwrite, h.read, h.fifo, h.accepted, by dsimp only; omega, h.room, h.length,
    h.stored, h.writing, ?_, ?_⟩
  · intro p' dest' r bytes hconsumer
    dsimp only at hconsumer
    split_ifs at hconsumer with hempty
    obtain ⟨rfl, rfl, rfl, rfl⟩ := Consumer.looking.inj hconsumer
    rw [h.read.latest, mod_eq_mod_iff (by omega) (by omega)] at hempty
    -- the value that was loaded is ahead, so the latest one is too
    have hlt : q.gets.length < q.puts.length := by omega
    exact ⟨_, h.read.latest, by dsimp only; omega, List.getElem?_eq_getElem hlt,
      List.nil_prefix⟩
  · intro p' r bytes hconsumer
    dsimp only at hconsumer
    split_ifs at hconsumer

/-- A byte that the consumer reads is the next one of the first element. -/
theorem reads_snoc (h : q.Inv cnt) {r : ℕ} {bytes x : List UInt8} (hreads : q.Reads r bytes x)
    (hlt : bytes.length < q.elsiz) :
    q.Reads r (bytes ++ [q.buf (r * q.elsiz + bytes.length)]) x := by
  obtain ⟨rfl, hseen, hx, rest, rfl⟩ := hreads
  refine ⟨rfl, hseen, hx, ?_⟩
  have hlen := h.length _ (List.mem_of_getElem? hx)
  cases rest with
  | nil =>
    rw [List.append_nil] at hlen
    omega
  | cons b rest =>
    have hbyte := h.stored _ _ hx (Nat.le_refl _) bytes.length b (by simp)
    exact ⟨rest, by rw [hbyte, List.append_assoc, List.singleton_append]⟩

theorem readByte (h : q.Inv cnt) (hop : q.op .readByte = some q') : q'.Inv cnt := by
  simp only [op] at hop
  split at hop
  on_goal 3 => cases hop
  -- the predicate and the copy read alike
  all_goals
    split_ifs at hop with hlt
    obtain rfl := Option.some.inj hop
    refine ⟨h.cnt_eq, h.write, h.read, h.fifo, h.accepted, h.seen, h.room, h.length, h.stored,
      h.writing, ?_, ?_⟩
  · intro p dest r bytes hconsumer
    obtain ⟨rfl, rfl, rfl, rfl⟩ := Consumer.looking.inj hconsumer
    obtain ⟨x, hx⟩ := h.looking _ _ _ _ ‹_›
    exact ⟨x, h.reads_snoc hx hlt⟩
  · intro p r bytes hconsumer
    cases hconsumer
  · intro p dest r bytes hconsumer
    cases hconsumer
  · intro p r bytes hconsumer
    obtain ⟨rfl, rfl, rfl⟩ := Consumer.copying.inj hconsumer
    obtain ⟨x, hx, hp⟩ := h.copying _ _ _ ‹_›
    exact ⟨x, h.reads_snoc hx hlt, hp⟩

/-- The consumer has read all of the first element. -/
theorem reads_all (h : q.Inv cnt) {r : ℕ} {bytes x : List UInt8} (hreads : q.Reads r bytes x)
    (hfull : bytes.length = q.elsiz) : bytes = x :=
  hreads.2.2.2.eq_of_length
    (hfull.trans (h.length x (List.mem_of_getElem? hreads.2.2.1)).symm)

/-- The first element is taken. -/
theorem advance (h : q.Inv cnt) {p : List UInt8 → Bool} {r : ℕ} {x : List UInt8}
    (hreads : q.Reads r x x) (hp : p x = true) : (q.advance p r x).Inv cnt := by
  obtain ⟨rfl, hseen, hx, -⟩ := hreads
  refine ⟨h.cnt_eq, h.write, ?_, ?_, ?_, ?_, h.room, h.length, ?_, h.writing, ?_, ?_⟩
  · rw [SpscQ.advance, List.length_append]
    exact h.read.store
  · rw [SpscQ.advance, List.map_append, h.fifo, List.length_append, List.length_singleton,
      List.take_add_one, hx]
    rfl
  · intro g hg
    rcases List.mem_append.mp hg with hg | hg
    · exact h.accepted g hg
    · rw [List.mem_singleton.mp hg]
      exact hp
  · rw [SpscQ.advance, List.length_append]
    exact hseen
  · intro n y hy hn
    rw [SpscQ.advance, List.length_append] at hn
    exact h.stored n y hy (Nat.le_of_succ_le hn)
  · intro p' dest r bytes hconsumer
    cases hconsumer
  · intro p' r bytes hconsumer
    cases hconsumer

/-- The predicate has looked at the element. -/
theorem decide (h : q.Inv cnt) (hop : q.op .decide = some q') : q'.Inv cnt := by
  simp only [op] at hop
  split at hop
  on_goal 2 => cases hop
  rename_i p dest r bytes hconsumer
  obtain ⟨x, hx⟩ := h.looking p dest r bytes hconsumer
  split_ifs at hop with hfull hp hdest
  all_goals
    obtain rfl := Option.some.inj hop
    obtain rfl := h.reads_all hx hfull
  · -- the element is refused and stays
    refine ⟨h.cnt_eq, h.write, h.read, h.fifo, h.accepted, h.seen, h.room, h.length, h.stored,
      h.writing, ?_, ?_⟩
    · intro p' dest' r' bytes' hc
      cases hc
    · intro p' r' bytes' hc
      cases hc
  · -- it is accepted, and copied from the first byte on
    refine ⟨h.cnt_eq, h.write, h.read, h.fifo, h.accepted, h.seen, h.room, h.length, h.stored,
      h.writing, ?_, ?_⟩
    · intro p' dest' r' bytes' hc
      cases hc
    · intro p' r' bytes' hc
      obtain ⟨rfl, rfl, rfl⟩ := Consumer.copying.inj hc
      exact ⟨bytes, ⟨hx.1, hx.2.1, hx.2.2.1, List.nil_prefix⟩, by simpa using hp⟩
  · exact h.advance hx (by simpa using hp)

/-- The element has been copied. -/
theorem release (h : q.Inv cnt) (hop : q.op .release = some q') : q'.Inv cnt := by
  simp only [op] at hop
  split at hop
  on_goal 2 => cases hop
  rename_i p r bytes hconsumer
  obtain ⟨x, hx, hp⟩ := h.copying p r bytes hconsumer
  split_ifs at hop with hfull
  obtain rfl := Option.some.inj hop
  obtain rfl := h.reads_all hx hfull
  exact h.advance hx hp

/-- Every step keeps the invariant. -/
theorem op {o : SpscOp} (h : q.Inv cnt) (hop : q.op o = some q') : q'.Inv cnt := by
  cases o with
  | put src pos => exact h.put hop
  | writeByte => exact h.writeByte hop
  | publish => exact h.publish hop
  | getIf p dest pos => exact h.getIf hop
  | readByte => exact h.readByte hop
  | decide => exact h.decide hop
  | release => exact h.release hop

/-- The byte that is read next belongs to the first element. -/
theorem nextRead_eq (h : q.Inv cnt) {j : ℕ} (hj : j ∈ q.nextRead) :
    ∃ i < q.elsiz, j = q.gets.length % q.cnt * q.elsiz + i ∧ q.gets.length < q.writeIdx.seen := by
  rw [nextRead] at hj
  split at hj
  on_goal 3 => cases hj
  · rename_i p dest r bytes hconsumer
    obtain ⟨x, rfl, hseen, -⟩ := h.looking p dest r bytes hconsumer
    split_ifs at hj with hlt
    · exact ⟨_, hlt, (Option.some.inj hj).symm, hseen⟩
    · cases hj
  · rename_i p r bytes hconsumer
    obtain ⟨x, ⟨rfl, hseen, -⟩, -⟩ := h.copying p r bytes hconsumer
    split_ifs at hj with hlt
    · exact ⟨_, hlt, (Option.some.inj hj).symm, hseen⟩
    · cases hj

/-- The byte that is written next belongs to the slot behind the elements. -/
theorem nextWrite_eq (h : q.Inv cnt) {i : ℕ} (hi : i ∈ q.nextWrite) :
    ∃ k < q.elsiz, i = q.puts.length % q.cnt * q.elsiz + k ∧
      q.puts.length < q.readIdx.seen + cnt := by
  rw [nextWrite] at hi
  split at hi
  on_goal 2 => cases hi
  rename_i src w done hproducer
  obtain ⟨rfl, hlen, hroom, -⟩ := h.writing src w done hproducer
  split_ifs at hi with hlt
  · exact ⟨done, hlen ▸ hlt, (Option.some.inj hi).symm, hroom⟩
  · cases hi

/-- A queue with the invariant is correct. -/
theorem correct (h : q.Inv cnt) : q.Correct cnt where
  fifo := h.fifo
  accepted := h.accepted
  bounds := ⟨h.le, Nat.le_trans h.room (Nat.add_le_add_right h.read.2 cnt)⟩
  apart i hi hj := by
    obtain ⟨k, hk, rfl, hroom⟩ := h.nextWrite_eq hi
    obtain ⟨k', hk', heq, hseen⟩ := h.nextRead_eq hj
    exact byte_ne (h.slot_ne hroom (Nat.le_refl _) (Nat.lt_of_lt_of_le hseen h.write.2)) hk hk' heq
  writesSeen hne := by
    obtain ⟨i, hi⟩ := Option.ne_none_iff_exists'.mp hne
    obtain ⟨k, -, -, hroom⟩ := h.nextWrite_eq hi
    exact hroom
  readsSeen hne := by
    obtain ⟨i, hi⟩ := Option.ne_none_iff_exists'.mp hne
    obtain ⟨k, -, -, hseen⟩ := h.nextRead_eq hi
    exact hseen
  full pos v x hload := by
    obtain ⟨hseen, hle, rfl, -⟩ := h.read.load hload
    have hcnt := h.cnt_eq
    have hroom := h.room
    have hputs := h.le
    rw [h.write.latest, Nat.mod_add_mod, succ_mod_eq_mod_iff (by omega) (by omega)]
    omega
  empty pos v x hload := by
    obtain ⟨hseen, hle, rfl, -⟩ := h.write.load hload
    have hcnt := h.cnt_eq
    have hroom := h.room
    have hread := h.read.2
    have htaken := h.seen
    rw [h.read.latest, mod_eq_mod_iff (by omega) (by omega), eq_comm]

end Inv

end SpscQ

/-- In every interleaving of the steps of the two threads, whatever the loads find, the queue is
correct. -/
theorem spscQ_run_correct {cnt elsiz : ℕ} {ops : List SpscOp} {q : SpscQ}
    (h : Run.Reach (fun o q q' => q.op o = some q') (· = SpscQ.alloc cnt elsiz) ops q) :
    q.Correct cnt := by
  refine (h.invariant (I := SpscQ.Inv cnt) ?_ ?_).correct
  · rintro _ rfl
    exact SpscQ.inv_alloc cnt elsiz
  · exact fun _ _ _ hinv hop => hinv.op hop

/-- The consumer finds the queue empty while an element is written, and the producer finds it full
while the element is read. -/
def busyOps : List SpscOp :=
  [.put [7] 0, .getIf (fun _ => true) true 0, .writeByte, .publish, .getIf (· == [7]) true 1,
    .readByte, .put [8] 0, .decide, .readByte, .release, .put [8] 1, .writeByte]

theorem spscQ_run_correct_busyOps : ∃ q, busyOps.foldlM SpscQ.op (SpscQ.alloc 1 1) = some q ∧
    q.Correct 1 := by
  obtain ⟨q, hq⟩ := Option.isSome_iff_exists.mp
    (show (busyOps.foldlM SpscQ.op (SpscQ.alloc 1 1)).isSome by decide)
  have hstart : Run.Reach (fun o q q' => q.op o = some q') (· = SpscQ.alloc 1 1) []
      (SpscQ.alloc 1 1) := .start rfl
  have hrun := hstart.append_foldlM (fun _ _ _ _ hop => hop) hq
  exact ⟨q, hq, spscQ_run_correct hrun⟩

end LlmHric.Common
