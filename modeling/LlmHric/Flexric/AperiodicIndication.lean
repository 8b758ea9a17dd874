import LlmHric.Flexric.Ids
import LlmHric.Library.CText
import LlmHric.Library.Run

/-! A producer of an aperiodic indication pushes the event into the queue `aind` and then writes the
decimal digits of its request id to a pipe. The pipe is watched with an edge-triggered `epoll`:
after a write the event loop of the agent is woken if the pipe still has bytes. The loop takes the
size of the queue, pops that many events, and for each of them calls the service model, sends the
indication and reads at most four bytes. The pipe is a blocking one. Any number of producers run at
the same time. -/

namespace LlmHric.Flexric

open CText

/-- `aind_event_t`; the service model is part of the data. -/
structure AindEvent (D : Type) where
  ricId : RicGenId
  actionId : ℕ
  indData : D

/-- Where the event loop stands. -/
inductive AindLoop (D : Type)
  /-- In `epoll_wait`, or busy with another descriptor. -/
  | waiting
  /-- The read end of the pipe was reported. -/
  | woken
  /-- In the loop of `aind_event`, with a number of events to pop. -/
  | popping (left : ℕ) (arr : List (AindEvent D))
  /-- Before the next event of the array. -/
  | serving (rest : List (AindEvent D))
  /-- In `consume_fd_async` after an event, with the rest of the array. -/
  | reading (rest : List (AindEvent D))

/-- The agent and its producers. -/
structure AindState (D : Type) where
  /-- The queue. -/
  aind : List (AindEvent D)
  /-- The request ids of the producers between their push and their write. -/
  writing : List ℕ
  /-- The bytes in the pipe. -/
  pipe : List UInt8
  /-- The pipe was written to since `epoll` last looked at it. -/
  ready : Bool
  loop : AindLoop D
  /-- The events whose indication has been sent, in order. -/
  sent : List (AindEvent D)
  /-- All the events that were ever pushed, in order. -/
  pushed : List (AindEvent D)

/-- The steps of producers and loop. -/
inductive AindLabel (D : Type)
  | push (ev : AindEvent D)
  | write
  | wake
  | missed
  | takeSize
  | pop
  | begin
  | serve
  | read
  | finish

/-- Whether a step is a push. -/
def AindLabel.isPush {D : Type} : AindLabel D → Bool
  | .push _ => true
  | .write | .wake | .missed | .takeSize | .pop | .begin | .serve | .read | .finish => false

namespace AindState

variable {D : Type}

/-- No event, no byte, and the loop is waiting. -/
def init : AindState D := ⟨[], [], [], false, .waiting, [], []⟩

/-- The steps of the agent. `hasValue` tells whether the service model has data for an event. -/
inductive AindStep (hasValue : AindEvent D → Bool) :
    AindLabel D → AindState D → AindState D → Prop
  /-- `push_tsq` in `e2_async_event_agent` -/
  | push {s : AindState D} {ev : AindEvent D} :
      AindStep hasValue (.push ev) s
        { s with
          aind := s.aind ++ [ev]
          writing := s.writing ++ [ev.ricId.ricReqId]
          pushed := s.pushed ++ [ev] }
  /-- `write` in `e2_async_event_agent`, by any of the producers that have pushed -/
  | write {s : AindState D} {pre post : List ℕ} {id : ℕ} :
      s.writing = pre ++ id :: post →
      AindStep hasValue .write s
        { s with writing := pre ++ post, pipe := s.pipe ++ natDecimal id, ready := true }
  /-- `epoll_wait` reports the pipe -/
  | wake {s : AindState D} :
      s.loop = .waiting → s.ready = true → s.pipe ≠ [] →
      AindStep hasValue .wake s { s with ready := false, loop := .woken }
  /-- `epoll_wait` drops a pipe that has been written to and emptied since -/
  | missed {s : AindState D} :
      s.loop = .waiting → s.ready = true → s.pipe = [] →
      AindStep hasValue .missed s { s with ready := false }
  /-- `size_tsq` in `aind_event`, asserted to be positive -/
  | takeSize {s : AindState D} :
      s.loop = .woken → s.aind.length > 0 →
      AindStep hasValue .takeSize s { s with loop := .popping s.aind.length [] }
  /-- `pop_tsq` in `aind_event` -/
  | pop {s : AindState D} {left : ℕ} {arr rest : List (AindEvent D)} {ev : AindEvent D} :
      s.loop = .popping (left + 1) arr → s.aind = ev :: rest →
      AindStep hasValue .pop s { s with aind := rest, loop := .popping left (arr ++ [ev]) }
  /-- `aind_event` returns -/
  | begin {s : AindState D} {arr : List (AindEvent D)} :
      s.loop = .popping 0 arr → AindStep hasValue .begin s { s with loop := .serving arr }
  /-- `on_indication`, and `e2ap_send_bytes_agent` if there is data -/
  | serve {s : AindState D} {ev : AindEvent D} {rest : List (AindEvent D)} :
      s.loop = .serving (ev :: rest) →
      AindStep hasValue .serve s
        { s with
          sent := if hasValue ev then s.sent ++ [ev] else s.sent
          loop := .reading rest }
  /-- `consume_fd_async`: a read of at most four bytes that blocks on an empty pipe and is asserted
  not to return one byte -/
  | read {s : AindState D} {rest : List (AindEvent D)} :
      s.loop = .reading rest → s.pipe ≠ [] → s.pipe.length ≠ 1 →
      AindStep hasValue .read s { s with pipe := s.pipe.drop 4, loop := .serving rest }
  /-- The loop over the array ends -/
  | finish {s : AindState D} :
      s.loop = .serving [] → AindStep hasValue .finish s { s with loop := .waiting }

/-- The ids have four digits or more; when the loop takes the size of the queue, no producer is
between its push and its write; and if the pipe was written to since the wake-up, no id had more
than four digits so far. -/
def Orderly : AindLabel D → AindState D → Prop
  | .push ev, _ => 1000 ≤ ev.ricId.ricReqId
  | .takeSize, s =>
    s.writing = [] ∧ (s.ready = true → ∀ ev ∈ s.pushed, ev.ricId.ricReqId < 10000)
  | .write, _ | .wake, _ | .missed, _ | .pop, _ | .begin, _ | .serve, _ | .read, _ | .finish, _ =>
    True

/-- A run of the agent. -/
abbrev AindRun (hasValue : AindEvent D → Bool) (tr : List (AindLabel D)) (s : AindState D) : Prop :=
  Run.Reach (AindStep hasValue) (· = init) tr s

/-- A run all of whose steps are orderly. -/
abbrev OrderlyRun (hasValue : AindEvent D → Bool) (tr : List (AindLabel D)) (s : AindState D) :
    Prop :=
  Run.Reach (fun a s t => AindStep hasValue a s t ∧ Orderly a s) (· = init) tr s

end AindState

namespace AindLoop

variable {D : Type}

/-- How many events are still to be popped. -/
def left : AindLoop D → ℕ
  | .popping left _ => left
  | .waiting | .woken | .serving _ | .reading _ => 0

def inHand : AindLoop D → List (AindEvent D)
  | .popping _ arr => arr
  | .serving rest | .reading rest => rest
  | .waiting | .woken => []

/-- How many reads the current wake-up will still perform. -/
def unread : AindLoop D → ℕ
  | .popping left arr => left + arr.length
  | .serving rest => rest.length
  | .reading rest => rest.length + 1
  | .waiting | .woken => 0

/-- How many steps the loop is from waiting, not counting pops. -/
def work : AindLoop D → ℕ
  | .waiting => 0
  | .woken => 3
  | .popping _ arr => 2 + 2 * arr.length
  | .serving rest => 1 + 2 * rest.length
  | .reading rest => 2 + 2 * rest.length

end AindLoop

namespace AindState

variable {D : Type} {hasValue : AindEvent D → Bool} {s t : AindState D}

/-! ### The invariant that links the two channels -/

/-- The pipe holds exactly four bytes for every read that is still to come: one for each event in
hand and one for each event in the queue whose producer has written. -/
def Even (s : AindState D) : Prop :=
  s.pipe.length + 4 * (s.loop.left + s.writing.length) = 4 * (s.loop.unread + s.aind.length)

/-- The invariant of the two channels along orderly runs. -/
structure ChannelInv (s : AindState D) : Prop where
  /-- The producers that have not written have ids of four digits or more. -/
  ids : ∀ id ∈ s.writing, 1000 ≤ id ∧ ∃ ev ∈ s.pushed, ev.ricId.ricReqId = id
  /-- Their events are in the queue, behind the ones that are being popped. -/
  behind : s.writing.length + s.loop.left ≤ s.aind.length
  /-- There are at least four bytes for every read to come. -/
  bytes : 4 * (s.loop.unread + s.aind.length) ≤
    s.pipe.length + 4 * (s.loop.left + s.writing.length)
  /-- There are no more, as long as no id has more than four digits. -/
  four : (∀ ev ∈ s.pushed, ev.ricId.ricReqId < 10000) → s.Even
  woken : s.loop = .woken → s.writing.length < s.aind.length
  /-- A wake-up that is due finds an event or an empty pipe. -/
  due : s.ready = true → s.Even ∨ s.writing.length + s.loop.left < s.aind.length
  /-- An event whose producer has written and that is not being popped has a wake-up due. -/
  notified : s.loop ≠ .woken → s.writing.length + s.loop.left < s.aind.length → s.ready = true

theorem channelInv_init : ChannelInv (init : AindState D) := by
  constructor
  · intro id hid
    exact (List.not_mem_nil hid).elim
  · exact Nat.le_refl _
  · exact Nat.le_refl _
  · intro _
    rfl
  · intro hloop
    cases hloop
  · intro hready
    cases hready
  · intro _ hlt
    exact absurd hlt (Nat.lt_irrefl _)

theorem ChannelInv.push (h : ChannelInv s) {ev : AindEvent D} (hid : 1000 ≤ ev.ricId.ricReqId) :
    ChannelInv
      { s with
        aind := s.aind ++ [ev]
        writing := s.writing ++ [ev.ricId.ricReqId]
        pushed := s.pushed ++ [ev] } := by
  obtain ⟨ids, behind, bytes, four, woken, due, notified⟩ := h
  simp only [Even] at four due
  constructor <;> simp only [Even, List.length_append, List.length_singleton]
  · intro id hmem
    rcases List.mem_append.mp hmem with hmem | hmem
    · obtain ⟨hle, ev', hev', heq⟩ := ids id hmem
      exact ⟨hle, ev', List.mem_append_left _ hev', heq⟩
    · rw [List.mem_singleton.mp hmem]
      exact ⟨hid, ev, List.mem_append_right _ (List.mem_singleton_self ev), rfl⟩
  -- a push adds one event to the queue and one producer that has not written
  · omega
  · omega
  · intro hall
    have heven := four fun ev' hev' => hall ev' (List.mem_append_left _ hev')
    omega
  · intro hloop
    have hlt := woken hloop
    omega
  · intro hready
    have hdue := due hready
    omega
  · intro hloop hlt
    apply notified hloop
    omega

theorem ChannelInv.write (h : ChannelInv s) {pre post : List ℕ} {id : ℕ}
    (hid : s.writing = pre ++ id :: post) :
    ChannelInv
      { s with writing := pre ++ post, pipe := s.pipe ++ natDecimal id, ready := true } := by
  obtain ⟨ids, behind, bytes, four, woken, due, notified⟩ := h
  obtain ⟨hle, ev, hev, heq⟩ := ids id (by simp [hid])
  have hlen : s.writing.length = pre.length + post.length + 1 := by
    rw [hid, List.length_append, List.length_cons]
    omega
  -- the digits pay for the read that the event will cause
  have hdigits : 4 ≤ (natDecimal id).length := by
    have hthree := (length_natDecimal_le_iff (n := id) (k := 3) (by omega)).not
    omega
  simp only [Even] at four due
  constructor <;> simp only [Even, List.length_append]
  · intro id' hmem
    apply ids
    rw [hid]
    rcases List.mem_append.mp hmem with hmem | hmem
    · exact List.mem_append_left _ hmem
    · exact List.mem_append_right _ (List.mem_cons_of_mem _ hmem)
  · omega
  · omega
  · intro hall
    have hfour := (length_natDecimal_le_iff (n := id) (k := 4) (by omega)).mpr (heq ▸ hall ev hev)
    have heven := four hall
    omega
  · intro hloop
    have hlt := woken hloop
    omega
  · -- the event that was written is in the queue and is not being popped
    intro _
    right
    omega
  · intro _ _
    trivial

/-- A step of the loop that only moves it on keeps the invariant where the numbers of events and
bytes stay in step. -/
theorem ChannelInv.advance (h : ChannelInv s) (aind : List (AindEvent D)) (pipe : List UInt8)
    (loop : AindLoop D) (sent : List (AindEvent D)) (hold : s.loop ≠ .woken) (hnew : loop ≠ .woken)
    (hleft : loop.left + s.aind.length = s.loop.left + aind.length)
    (hbytes : pipe.length + 4 * s.loop.unread = s.pipe.length + 4 * loop.unread) :
    ChannelInv { s with aind := aind, pipe := pipe, loop := loop, sent := sent } := by
  obtain ⟨ids, behind, bytes, four, woken, due, notified⟩ := h
  simp only [Even] at four due
  constructor
  · exact ids
  · change s.writing.length + loop.left ≤ aind.length
    omega
  · change 4 * (loop.unread + aind.length) ≤ pipe.length + 4 * (loop.left + s.writing.length)
    omega
  · intro hall
    have heven := four hall
    change pipe.length + 4 * (loop.left + s.writing.length) = 4 * (loop.unread + aind.length)
    omega
  · intro hloop
    exact absurd hloop hnew
  · intro hready
    have hdue := due hready
    change pipe.length + 4 * (loop.left + s.writing.length) = 4 * (loop.unread + aind.length) ∨
      s.writing.length + loop.left < aind.length
    omega
  · intro _ hlt
    apply notified hold
    change s.writing.length + loop.left < aind.length at hlt
    omega

theorem ChannelInv.wake (h : ChannelInv s) (hloop : s.loop = .waiting) (hready : s.ready = true)
    (hpipe : s.pipe ≠ []) : ChannelInv { s with ready := false, loop := .woken } := by
  obtain ⟨ids, behind, bytes, four, woken, due, notified⟩ := h
  have hpos := List.length_pos_of_ne_nil hpipe
  simp only [Even, hloop, AindLoop.left, AindLoop.unread] at behind bytes four due
  constructor
  · exact ids
  · exact behind
  · exact bytes
  · exact four
  · -- if bytes and reads were even, the bytes in the pipe would belong to a queued event
    intro _
    have hdue := due hready
    change s.writing.length < s.aind.length
    omega
  · intro hready
    cases hready
  · intro hne
    exact absurd rfl hne

theorem ChannelInv.missed (h : ChannelInv s) (hloop : s.loop = .waiting) (hpipe : s.pipe = []) :
    ChannelInv { s with ready := false } := by
  obtain ⟨ids, behind, bytes, four, woken, due, notified⟩ := h
  refine ⟨ids, behind, bytes, four, woken, ?_, ?_⟩
  · intro hready
    cases hready
  · -- an event that was written would have left its bytes in the pipe
    intro _ hlt
    simp only [hloop, hpipe, AindLoop.left, AindLoop.unread, List.length_nil] at bytes hlt
    omega

theorem ChannelInv.takeSize (h : ChannelInv s) (hloop : s.loop = .woken) (hwriting : s.writing = [])
    (hfour : s.ready = true → ∀ ev ∈ s.pushed, ev.ricId.ricReqId < 10000) :
    ChannelInv { s with loop := .popping s.aind.length [] } := by
  obtain ⟨ids, behind, bytes, four, woken, due, notified⟩ := h
  simp only [Even, hloop, hwriting, AindLoop.left, AindLoop.unread, List.length_nil] at bytes four
  have heven : (∀ ev ∈ s.pushed, ev.ricId.ricReqId < 10000) →
      Even { s with loop := .popping s.aind.length [] } := by
    intro hall
    have heq := four hall
    simp only [Even, hwriting, AindLoop.left, AindLoop.unread, List.length_nil]
    omega
  constructor
  · exact ids
  · simp [hwriting, AindLoop.left]
  · simp only [hwriting, AindLoop.left, AindLoop.unread, List.length_nil]
    omega
  · exact heven
  · intro hwoken
    cases hwoken
  · -- the events behind this wake-up are popped now, so their own wake-up finds an empty pipe
    intro hready
    exact .inl (heven (hfour hready))
  · intro _ hlt
    simp only [hwriting, AindLoop.left, List.length_nil] at hlt
    omega

/-- While a read is due, there are four bytes for it. -/
theorem ChannelInv.four_le (h : ChannelInv s) {rest : List (AindEvent D)}
    (hloop : s.loop = .reading rest) : 4 ≤ s.pipe.length := by
  have hbehind := h.behind
  have hbytes := h.bytes
  simp only [hloop, AindLoop.left, AindLoop.unread] at hbehind hbytes
  omega

theorem ChannelInv.step (h : ChannelInv s) {a : AindLabel D} (hstep : AindStep hasValue a s t)
    (horderly : Orderly a s) : ChannelInv t := by
  cases hstep with
  | push => exact h.push horderly
  | write hid => exact h.write hid
  | wake hloop hready hpipe => exact h.wake hloop hready hpipe
  | missed hloop _ hpipe => exact h.missed hloop hpipe
  | takeSize hloop _ => exact h.takeSize hloop horderly.1 horderly.2
  | pop hloop haind =>
    refine h.advance _ s.pipe _ s.sent ?_ ?_ ?_ ?_
    all_goals simp [hloop, haind, AindLoop.left, AindLoop.unread]
    all_goals omega
  | begin hloop =>
    refine h.advance s.aind s.pipe _ s.sent ?_ ?_ ?_ ?_
    all_goals simp [hloop, AindLoop.left, AindLoop.unread]
  | serve hloop =>
    refine h.advance s.aind s.pipe _ _ ?_ ?_ ?_ ?_
    all_goals simp [hloop, AindLoop.left, AindLoop.unread]
  | read hloop _ _ =>
    have hfour := h.four_le hloop
    refine h.advance s.aind _ _ s.sent ?_ ?_ ?_ ?_
    all_goals simp [hloop, AindLoop.left, AindLoop.unread]
    omega
  | finish hloop =>
    refine h.advance s.aind s.pipe _ s.sent ?_ ?_ ?_ ?_
    all_goals simp [hloop, AindLoop.left, AindLoop.unread]

theorem OrderlyRun.channelInv {tr : List (AindLabel D)} (h : OrderlyRun hasValue tr s) :
    ChannelInv s := by
  refine h.invariant ?_ ?_
  · intro s hs
    rw [hs]
    exact channelInv_init
  · intro a s t hs hstep
    exact hs.step hstep.1 hstep.2

/-! ### Delivery -/

/-- Every event that was pushed has been sent, is in hand or is in the queue, in this order; those
the service model has no data for are left out. -/
def Conserved (hasValue : AindEvent D → Bool) (s : AindState D) : Prop :=
  s.sent ++ (s.loop.inHand ++ s.aind).filter hasValue = s.pushed.filter hasValue

theorem Conserved.step (h : Conserved hasValue s) {a : AindLabel D}
    (hstep : AindStep hasValue a s t) : Conserved hasValue t := by
  unfold Conserved at h ⊢
  cases hstep with
  | push =>
    rw [List.filter_append] at h
    simp only [List.filter_append, ← h, List.append_assoc]
  | write => exact h
  | wake hloop =>
    rw [hloop] at h
    exact h
  | missed => exact h
  | takeSize hloop =>
    rw [hloop] at h
    exact h
  | pop hloop haind =>
    rw [hloop, haind] at h
    simpa [AindLoop.inHand] using h
  | begin hloop =>
    rw [hloop] at h
    exact h
  | @serve _ ev rest hloop =>
    -- the event moves from the array to the sent ones, unless there is no data for it
    rw [hloop] at h
    change s.sent ++ (ev :: rest ++ s.aind).filter hasValue = _ at h
    change (if hasValue ev then s.sent ++ [ev] else s.sent) ++ (rest ++ s.aind).filter hasValue = _
    rw [← h, List.cons_append]
    by_cases hev : hasValue ev = true
    · rw [if_pos hev, List.filter_cons_of_pos hev, List.append_assoc, List.singleton_append]
    · rw [if_neg hev, List.filter_cons_of_neg hev]
  | read hloop =>
    rw [hloop] at h
    exact h
  | finish hloop =>
    rw [hloop] at h
    exact h

/-- The steps that are still to come without a push. -/
def work (s : AindState D) : ℕ :=
  5 * s.writing.length + (if s.ready then 4 else 0) + 3 * s.aind.length + s.loop.work

/-- Every step but a push reduces the work, so without pushes the agent comes to rest. -/
theorem AindStep.work_lt {a : AindLabel D} (hstep : AindStep hasValue a s t)
    (ha : a.isPush = false) : t.work < s.work := by
  cases hstep with
  | push => cases ha
  | @write _ pre post id hid =>
    -- a write is worth 5, of which 4 go into the wake-up that is now due
    have hlen : s.writing.length = (pre ++ post).length + 1 := by
      rw [hid, List.length_append, List.length_append, List.length_cons]
      omega
    simp only [work, hlen, if_true]
    omega
  | wake hloop hready hpipe =>
    simp only [work, hloop, hready, AindLoop.work, if_true, Bool.false_eq_true, if_false]
    omega
  | missed hloop hready hpipe =>
    simp only [work, hready, if_true, Bool.false_eq_true, if_false]
    omega
  | takeSize hloop hpos =>
    simp only [work, hloop, AindLoop.work, List.length_nil]
    omega
  | pop hloop haind =>
    simp only [work, hloop, haind, AindLoop.work, List.length_append, List.length_cons,
      List.length_nil]
    omega
  | begin hloop =>
    simp only [work, hloop, AindLoop.work]
    omega
  | serve hloop =>
    simp only [work, hloop, AindLoop.work, List.length_cons]
    omega
  | read hloop hpipe hone =>
    simp only [work, hloop, AindLoop.work]
    omega
  | finish hloop =>
    simp only [work, hloop, AindLoop.work, List.length_nil]
    omega

/-- In a state, the loop is not woken with an empty queue, a read that is due does not block and
does not fail its assertion, every pushed event is accounted for exactly once, and when no step
but a push is possible all of them have been sent. -/
structure Delivers (hasValue : AindEvent D → Bool) (s : AindState D) : Prop where
  woken : s.loop = .woken → s.aind ≠ []
  reads : ∀ rest, s.loop = .reading rest → s.pipe ≠ [] ∧ s.pipe.length ≠ 1
  once : Conserved hasValue s
  rest : (∀ a t, a.isPush = false → ¬ AindStep hasValue a s t) →
    s.sent = s.pushed.filter hasValue

theorem ChannelInv.reads (h : ChannelInv s) {rest : List (AindEvent D)}
    (hloop : s.loop = .reading rest) : s.pipe ≠ [] ∧ s.pipe.length ≠ 1 := by
  have hfour := h.four_le hloop
  refine ⟨?_, by omega⟩
  intro hnil
  rw [hnil] at hfour
  simp at hfour

/-- With events in the queue whose producers have written, a waiting loop has a wake-up due. -/
theorem ChannelInv.wake_due (h : ChannelInv s) (hwriting : s.writing = [])
    (hloop : s.loop = .waiting) (hne : s.aind ≠ []) : s.ready = true ∧ s.pipe ≠ [] := by
  have hpos := List.length_pos_of_ne_nil hne
  constructor
  · apply h.notified
    · rw [hloop]
      intro hwoken
      cases hwoken
    · simpa [hwriting, hloop, AindLoop.left] using hpos
  · intro hnil
    have hbytes := h.bytes
    simp only [hwriting, hloop, hnil, AindLoop.left, AindLoop.unread, List.length_nil] at hbytes
    omega

/-- At rest, the loop is waiting and the queue is empty. -/
theorem ChannelInv.at_rest (h : ChannelInv s)
    (hrest : ∀ a t, a.isPush = false → ¬ AindStep hasValue a s t) :
    s.loop = .waiting ∧ s.aind = [] := by
  -- in every other state some step of the loop or of a producer is possible
  have hwriting : s.writing = [] := by
    cases hw : s.writing with
    | nil => rfl
    | cons id post =>
      have hsplit : s.writing = [] ++ id :: post := hw
      exact (hrest .write _ rfl (.write hsplit)).elim
  cases hloop : s.loop with
  | waiting =>
    refine ⟨rfl, ?_⟩
    by_contra hne
    obtain ⟨hready, hpipe⟩ := h.wake_due hwriting hloop hne
    exact hrest .wake _ rfl (.wake hloop hready hpipe)
  | woken =>
    have hlt := h.woken hloop
    exact (hrest .takeSize _ rfl (.takeSize hloop (by omega))).elim
  | popping left arr =>
    cases left with
    | zero => exact (hrest .begin _ rfl (.begin hloop)).elim
    | succ left =>
      -- the events that are to be popped are in the queue
      have hbehind := h.behind
      simp only [hloop, AindLoop.left] at hbehind
      obtain ⟨ev, rest, haind⟩ := List.exists_cons_of_length_pos (l := s.aind) (by omega)
      exact (hrest .pop _ rfl (.pop hloop haind)).elim
  | serving rest =>
    cases rest with
    | nil => exact (hrest .finish _ rfl (.finish hloop)).elim
    | cons ev rest => exact (hrest .serve _ rfl (.serve hloop)).elim
  | reading rest =>
    obtain ⟨hne, hone⟩ := h.reads hloop
    exact (hrest .read _ rfl (.read hloop hne hone)).elim

theorem OrderlyRun.conserved {tr : List (AindLabel D)} (h : OrderlyRun hasValue tr s) :
    Conserved hasValue s := by
  refine h.invariant ?_ ?_
  · intro s hs
    rw [hs]
    rfl
  · intro a s t hs hstep
    exact hs.step hstep.1

/-- Along orderly runs the loop is never woken with an empty queue, never blocks in a read, and
sends every pushed event exactly once; without new pushes it comes to rest after finitely many
steps, and then all of them have been sent. -/
theorem delivers_of_orderly (hasValue : AindEvent D → Bool) (tr : List (AindLabel D))
    (s : AindState D) (hrun : OrderlyRun hasValue tr s) :
    Delivers hasValue s ∧
    ∀ a t, a.isPush = false → AindStep hasValue a s t → t.work < s.work := by
  have h := OrderlyRun.channelInv hrun
  have honce := OrderlyRun.conserved hrun
  refine ⟨⟨?_, fun rest hloop => h.reads hloop, honce, ?_⟩, fun a t ha hstep => hstep.work_lt ha⟩
  · intro hloop hnil
    have hlt := h.woken hloop
    simp [hnil] at hlt
  · intro hrest
    obtain ⟨hloop, hnil⟩ := h.at_rest hrest
    unfold Conserved at honce
    rw [hloop, hnil] at honce
    simpa [AindLoop.inHand] using honce

/-- An event with the given request id. -/
def sampleEvent (ricReqId : ℕ) : AindEvent Unit := ⟨⟨ricReqId, 0, 3⟩, 0, ()⟩

/-- The state after one event was pushed. -/
def onePushed : AindState Unit :=
  { init with aind := [sampleEvent 1021], writing := [1021], pushed := [sampleEvent 1021] }

/-- The state after its producer has written. -/
def oneWritten : AindState Unit :=
  { onePushed with writing := [], pipe := natDecimal 1021, ready := true }

theorem delivers_oneWritten : Delivers (fun _ => true) oneWritten := by
  have hid : Orderly (.push (sampleEvent 1021)) init := by
    change 1000 ≤ 1021
    decide
  have hpush : OrderlyRun (fun _ => true) [.push (sampleEvent 1021)] onePushed :=
    .first rfl ⟨.push, hid⟩
  have hsplit : onePushed.writing = [] ++ 1021 :: [] := rfl
  exact (delivers_of_orderly _ _ _ (hpush.step ⟨.write hsplit, trivial⟩)).1

/-- A second event is pushed after the wake-up for the first one, before the loop takes the size. -/
def overtaken : List (AindLabel Unit) :=
  [.push (sampleEvent 1021), .write, .wake, .push (sampleEvent 1022), .takeSize, .pop, .pop, .begin,
    .serve, .read, .serve]

/-- The loop has popped both events and read the digits of the first one; the read for the second
one finds the pipe empty and blocks until its producer writes. -/
def blocked : AindState Unit :=
  { aind := [], writing := [1022], pipe := [], ready := false, loop := .reading []
    sent := [sampleEvent 1021, sampleEvent 1022], pushed := [sampleEvent 1021, sampleEvent 1022] }

theorem aindRun_overtaken : AindRun (fun _ => true) overtaken blocked := by
  have hsplit : onePushed.writing = [] ++ 1021 :: [] := rfl
  have hpipe : oneWritten.pipe ≠ [] := by
    decide
  have hlen : oneWritten.pipe.length ≠ 1 := by
    decide
  have hpushed : AindRun (fun _ => true) [.push (sampleEvent 1021)] onePushed := .first rfl .push
  have hwoken := (hpushed.step (t := oneWritten) (.write hsplit)).step (.wake rfl rfl hpipe)
  have hsize := (hwoken.step (a := .push (sampleEvent 1022)) .push).step (.takeSize rfl (by decide))
  have hserving := ((hsize.step (.pop rfl rfl)).step (.pop rfl rfl)).step (.begin rfl)
  exact ((hserving.step (.serve rfl)).step (.read rfl hpipe hlen)).step (.serve rfl)

/-- A push between the wake-up and the size makes the loop block. -/
theorem not_delivers_overtaken :
    AindRun (fun _ => true) overtaken blocked ∧ ¬ Delivers (fun _ => true) blocked := by
  refine ⟨aindRun_overtaken, ?_⟩
  intro h
  exact (h.reads [] rfl).1 rfl

end AindState

end LlmHric.Flexric
