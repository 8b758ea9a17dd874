import LlmHric.Rlc.AmControl
import Mathlib.Data.List.TakeWhile
import Mathlib.Data.Prod.Lex

/-! The walk over the wait list and the retransmit list changes counters of the SDUs, and moves or
frees segments. What decides about the fate of a segment stays as it is: its sequence number, the
window and the NACKs. So the fate can be read off the lists before the walk. -/

namespace LlmHric.Rlc

namespace AmEntity

variable {e e₀ e₁ : AmEntity} {s : Segment}

/-! ### What the walk leaves alone -/

/-- Two states of an entity agree on what decides about segments, and the poll timer was at most
stopped. -/
structure Agrees (e₀ e : AmEntity) : Prop where
  cfg : e.cfg = e₀.cfg
  txNext : e.txNext = e₀.txNext
  txNextAck : e.txNextAck = e₀.txNextAck
  pollSn : e.pollSn = e₀.pollSn
  txList : e.txList = e₀.txList
  snOf : e.snOf = e₀.snOf
  timer : e.tPollRetransmitStart = e₀.tPollRetransmitStart ∨ e.tPollRetransmitStart = 0

namespace Agrees

theorem refl (e : AmEntity) : e.Agrees e := ⟨rfl, rfl, rfl, rfl, rfl, rfl, .inl rfl⟩

theorem trans (h₀ : e₀.Agrees e₁) (h₁ : e₁.Agrees e) : e₀.Agrees e := by
  refine ⟨h₁.cfg.trans h₀.cfg, h₁.txNext.trans h₀.txNext, h₁.txNextAck.trans h₀.txNextAck,
    h₁.pollSn.trans h₀.pollSn, h₁.txList.trans h₀.txList, h₁.snOf.trans h₀.snOf, ?_⟩
  rcases h₁.timer with htimer | htimer
  · rw [htimer]
    exact h₀.timer
  · exact .inr htimer

theorem modulusTx (h : e₀.Agrees e) : e.modulusTx = e₀.modulusTx := by
  funext a
  rw [AmEntity.modulusTx, AmEntity.modulusTx, h.cfg, h.txNextAck]

theorem stopped (h : e₀.Agrees e) (h₀ : e₀.tPollRetransmitStart = 0) :
    e.tPollRetransmitStart = 0 := by
  rcases h.timer with htimer | htimer
  · exact htimer.trans h₀
  · exact htimer

end Agrees

/-- The counters of an SDU do not matter. -/
theorem agrees_setSdu {i : ℕ} {sdu : Sdu} (h : sdu.sn = (e.sdus i).sn) :
    e.Agrees (e.setSdu i sdu) := by
  refine ⟨rfl, rfl, rfl, rfl, rfl, ?_, .inl rfl⟩
  funext s
  change (Function.update e.sdus i sdu s.sdu).sn.getD 0 = (e.sdus s.sdu).sn.getD 0
  by_cases hs : s.sdu = i
  · rw [hs, Function.update_self, h]
  · rw [Function.update_of_ne hs]

theorem agrees_call {call : Upcall} : e.Agrees (e.call call) :=
  ⟨rfl, rfl, rfl, rfl, rfl, rfl, .inl rfl⟩

theorem agrees_ackSegment : e.Agrees (e.ackSegment s) := by
  have hset : e.Agrees (e.setSdu s.sdu
      { e.sdus s.sdu with freeCount := (e.sdus s.sdu).freeCount + 1 }) := agrees_setSdu rfl
  rw [ackSegment]
  split_ifs
  · exact hset.trans ⟨rfl, rfl, rfl, rfl, rfl, rfl, .inl rfl⟩
  · exact hset

theorem agrees_nackSegment : e.Agrees (e.nackSegment s) := by
  have hset : e.Agrees (e.setSdu s.sdu
      { e.sdus s.sdu with retxCount := (e.sdus s.sdu).retxCount + 1 }) := agrees_setSdu rfl
  rw [nackSegment]
  split_ifs
  · exact hset.trans ⟨rfl, rfl, rfl, rfl, rfl, rfl, .inl rfl⟩
  · exact hset.trans ⟨rfl, rfl, rfl, rfl, rfl, rfl, .inl rfl⟩

theorem agrees_ackRetxSegment : e.Agrees (e.ackRetxSegment s) := by
  have hsize : e.Agrees { e with
      bstatusRetxSize := e.bstatusRetxSize - (e.computePduHeaderSize s + s.size) } :=
    ⟨rfl, rfl, rfl, rfl, rfl, rfl, .inl rfl⟩
  exact hsize.trans agrees_ackSegment

theorem agrees_stopPoll {r : NackRange} : e.Agrees (Scan.stopPoll r e) := by
  rw [Scan.stopPoll]
  split_ifs
  · exact ⟨rfl, rfl, rfl, rfl, rfl, rfl, .inr rfl⟩
  · exact .refl e

/-! ### The order of segments -/

/-- Where a segment stands: by sequence number, then by its first byte. -/
def place (e : AmEntity) (s : Segment) : ℕ ×ₗ ℕ := toLex (e.modulusTx (e.snOf s), s.so)

/-- A NACK reports bytes of a segment. -/
def hits (e : AmEntity) (n : Nack) (s : Segment) : Prop := e.snOf s = n.sn ∧ n.overlaps s

instance (n : Nack) : Decidable (e.hits n s) := inferInstanceAs (Decidable (_ ∧ _))

def isBehind (e : AmEntity) (n : Nack) (s : Segment) : Prop :=
  e.modulusTx n.sn < e.modulusTx (e.snOf s) ∨
    e.modulusTx (e.snOf s) = e.modulusTx n.sn ∧ n.soStart < s.so

instance (n : Nack) : Decidable (e.isBehind n s) := inferInstanceAs (Decidable (_ ∨ _))

/-- Among the NACKs of a status PDU, the first one that a segment is not behind reports it. -/
def nacked (e : AmEntity) : List Nack → Segment → Prop
  | [], _ => False
  | n :: ns, s => e.hits n s ∨ e.isBehind n s ∧ e.nacked ns s

/-- A segment of a list, and no segment that belongs behind it stands in front of it. -/
def InOrder (e : AmEntity) (l : List Segment) (s : Segment) : Prop :=
  ∃ l₁ l₂, l = l₁ ++ s :: l₂ ∧ ∀ w ∈ l₁, e.place w ≤ e.place s

theorem place_le_place {w : Segment} : e.place w ≤ e.place s ↔
    e.modulusTx (e.snOf w) < e.modulusTx (e.snOf s) ∨
      e.modulusTx (e.snOf w) = e.modulusTx (e.snOf s) ∧ w.so ≤ s.so :=
  Prod.Lex.toLex_le_toLex

theorem place_lt_place {w : Segment} : e.place w < e.place s ↔
    e.modulusTx (e.snOf w) < e.modulusTx (e.snOf s) ∨
      e.modulusTx (e.snOf w) = e.modulusTx (e.snOf s) ∧ w.so < s.so :=
  Prod.Lex.toLex_lt_toLex

theorem modulusTx_le_of_place_le {w : Segment} (h : e.place w ≤ e.place s) :
    e.modulusTx (e.snOf w) ≤ e.modulusTx (e.snOf s) := by
  rcases place_le_place.mp h with hlt | ⟨heq, -⟩
  · exact hlt.le
  · exact heq.le

theorem Agrees.place (h : e₀.Agrees e) : e.place = e₀.place := by
  funext s
  rw [AmEntity.place, AmEntity.place, h.modulusTx, h.snOf]

/-- Sequence numbers are below the modulus. -/
structure SnInv (e : AmEntity) : Prop where
  txNext : e.txNext < e.cfg.snModulus
  txNextAck : e.txNextAck < e.cfg.snModulus
  snOf (s : Segment) : e.snOf s < e.cfg.snModulus

theorem SnInv.of_agrees (h : e₀.SnInv) (he : e₀.Agrees e) : e.SnInv := by
  refine ⟨?_, ?_, fun s => ?_⟩
  · rw [he.txNext, he.cfg]
    exact h.txNext
  · rw [he.txNextAck, he.cfg]
    exact h.txNextAck
  · rw [he.snOf, he.cfg]
    exact h.snOf s

theorem SnInv.modulusTx_inj (h : e.SnInv) {a b : ℕ} (ha : a < e.cfg.snModulus)
    (hb : b < e.cfg.snModulus) (hab : e.modulusTx a = e.modulusTx b) : a = b := by
  calc a = (e.txNextAck + e.modulusTx a) % e.cfg.snModulus :=
        (Window.add_offset_mod ha h.txNextAck).symm
    _ = (e.txNextAck + e.modulusTx b) % e.cfg.snModulus := by rw [hab]
    _ = b := Window.add_offset_mod hb h.txNextAck

/-- A segment that a NACK cannot classify yet comes after every segment that it reports. -/
theorem SnInv.place_lt (h : e.SnInv) {n : Nack} {x : Segment} (hs : e.hits n s)
    (hx : ¬ e.hits n x) (hbehind : e.isBehind n x) : e.place s < e.place x := by
  obtain ⟨hsn, hover⟩ := hs
  rw [place_lt_place, hsn]
  refine hbehind.imp_right fun ⟨heq, hstart⟩ => ⟨heq.symm, ?_⟩
  have hxn : e.snOf x = n.sn := h.modulusTx_inj (h.snOf x) (hsn ▸ h.snOf s) heq
  have hmiss : ¬ n.overlaps x = true := fun hover => hx ⟨hxn, hover⟩
  have hstart' : (n.soStart : ℤ) < x.so := by exact_mod_cast hstart
  rw [Nack.overlaps, soOverlap, if_pos hstart'] at hmiss
  rw [Nack.overlaps, soOverlap] at hover
  simp only [Bool.or_eq_true, beq_iff_eq, decide_eq_true_eq, not_or] at hmiss
  split_ifs at hover with hlt
  · simp only [Bool.or_eq_true, beq_iff_eq, decide_eq_true_eq] at hover
    omega
  · omega

/-- The segments in front of a segment that stands in order. -/
theorem InOrder.cons {w : Segment} {l : List Segment} (h : e.InOrder (w :: l) s) :
    e.place w ≤ e.place s ∧ (w = s ∨ e.InOrder l s) := by
  obtain ⟨l₁, l₂, hl, hle⟩ := h
  cases l₁ with
  | nil =>
    obtain ⟨rfl, -⟩ := List.cons.inj hl
    exact ⟨le_rfl, .inl rfl⟩
  | cons w' l₁ =>
    obtain ⟨rfl, rfl⟩ := List.cons.inj hl
    refine ⟨hle w (List.mem_cons_self ..), .inr ⟨l₁, l₂, rfl, ?_⟩⟩
    exact fun x hx => hle x (List.mem_cons_of_mem _ hx)

theorem not_inOrder_nil : ¬ e.InOrder [] s := by
  rintro ⟨l₁, l₂, hl, -⟩
  simp at hl

end AmEntity

/-! ### Rounds -/

namespace Scan

variable {c c' : Scan} {e₀ : AmEntity} {n : Nack} {ackSn fuel : ℕ} {s : Segment}

/-- The walk after a round. -/
def Next.scan : Next → Scan
  | .processNextPdu c | .doneNack c | .listsOver c => c

/-- A round stops the NACK, or takes a segment that is the smallest one. -/
theorem step_cases {P : Next → Prop} (hover : c.curWait = [] → c.curRetx = [] → P (.listsOver c))
    (hwait : ∀ s rest, c.curWait = s :: rest →
      (∀ r ∈ c.curRetx.head?, c.e.place s < c.e.place r) → P (c.waitHead n ackSn s rest))
    (hretx : ∀ s rest, c.curRetx = s :: rest →
      (∀ w ∈ c.curWait.head?, c.e.place s ≤ c.e.place w) → P (c.retxHead n ackSn s rest)) :
    P (c.step n ackSn) := by
  rw [step]
  split
  · next h₁ h₂ => exact hover h₁ h₂
  · next s rest h₁ h₂ => exact hretx s rest h₂ (by simp [h₁])
  · next s rest h₁ h₂ => exact hwait s rest h₁ (by simp [h₂])
  · next s rest r rest' h₁ h₂ =>
    split_ifs with hlt
    · refine hwait s rest h₁ ?_
      rw [h₂]
      simpa [AmEntity.place_lt_place] using hlt
    · refine hretx r rest' h₂ ?_
      intro w hw
      rw [h₁] at hw
      obtain rfl := Option.some.inj hw
      exact not_lt.mp fun h => hlt (AmEntity.place_lt_place.mp h)

/-- What every round keeps is kept by the rounds of a NACK. -/
theorem processNack_invariant {I : Scan → Prop} (hstep : ∀ c, I c → I (c.step n ackSn).scan)
    (h : I c) : I (processNack n ackSn fuel c).1 := by
  induction fuel generalizing c with
  | zero => exact h
  | succ fuel ih =>
    have hnext := hstep c h
    rw [processNack]
    split
    · next c' hc =>
      rw [hc] at hnext
      exact ih hnext
    · next c' hc =>
      rw [hc] at hnext
      exact hnext
    · next c' hc =>
      rw [hc] at hnext
      exact hnext

theorem processNacks_invariant {I : Scan → Prop} {ns : List Nack}
    (hstep : ∀ n ∈ ns, ∀ c, I c → I (c.step n ackSn).scan) (h : I c) :
    I (processNacks ackSn ns c) := by
  induction ns generalizing c with
  | nil => exact h
  | cons n ns ih =>
    have hnack : I (processNack n ackSn (c.curWait.length + c.curRetx.length + 1) c).1 :=
      processNack_invariant (hstep n (List.mem_cons_self ..)) h
    rw [processNacks]
    split
    · next c' hc =>
      rw [hc] at hnack
      exact hnack
    · next c' hc =>
      rw [hc] at hnack
      exact ih (fun n hn => hstep n (List.mem_cons_of_mem _ hn)) hnack

theorem agrees_waitHead {rest : List Segment} : c.e.Agrees (c.waitHead n ackSn s rest).scan.e := by
  rw [waitHead]
  split_ifs
  · exact AmEntity.agrees_nackSegment
  · exact .refl c.e
  · exact AmEntity.agrees_ackSegment
  · exact .refl c.e
  · exact .refl c.e

theorem agrees_retxHead {rest : List Segment} : c.e.Agrees (c.retxHead n ackSn s rest).scan.e := by
  rw [retxHead]
  split_ifs
  · exact .refl c.e
  · exact .refl c.e
  · exact AmEntity.agrees_ackRetxSegment
  · exact .refl c.e
  · exact .refl c.e

theorem agrees_step : c.e.Agrees (c.step n ackSn).scan.e :=
  step_cases (P := fun next => c.e.Agrees next.scan.e) (fun _ _ => .refl c.e)
    (fun _ _ _ _ => agrees_waitHead) fun _ _ _ _ => agrees_retxHead

theorem agrees_processNack : c.e.Agrees (processNack n ackSn fuel c).1.e :=
  processNack_invariant (I := fun c' => c.e.Agrees c'.e) (fun _ h => h.trans agrees_step)
    (.refl c.e)

theorem agrees_processNacks {ns : List Nack} : c.e.Agrees (processNacks ackSn ns c).e :=
  processNacks_invariant (I := fun c' => c.e.Agrees c'.e) (fun _ _ _ h => h.trans agrees_step)
    (.refl c.e)

theorem agrees_processRange {r : NackRange} : c.e.Agrees (processRange ackSn c r).e :=
  agrees_processNacks.trans AmEntity.agrees_stopPoll

/-- The NACKs of a status PDU leave alone what decides about segments. -/
theorem agrees_walk {nacks : List NackRange} :
    c.e.Agrees (nacks.foldl (processRange ackSn) c).e := by
  induction nacks generalizing c with
  | nil => exact .refl c.e
  | cons r nacks ih => exact agrees_processRange.trans ih

/-- What a round does, in terms of the entity before the walk. -/
inductive Round (e₀ : AmEntity) (n : Nack) (ackSn : ℕ) (c : Scan) : Next → Prop
  | emptied : c.curWait = [] → c.curRetx = [] → Round e₀ n ackSn c (.listsOver c)
  | stop (s : Segment) :
      (∀ x, x ∈ c.curWait.head? ∨ x ∈ c.curRetx.head? → e₀.place s ≤ e₀.place x) →
      ¬ e₀.hits n s → e₀.isBehind n s → Round e₀ n ackSn c (.doneNack c)
  | nackWait (e : AmEntity) (s : Segment) (rest : List Segment) :
      c.curWait = s :: rest → e₀.hits n s →
      Round e₀ n ackSn c (.processNextPdu { c with
        e, curWait := rest, waitEnd := c.endAfter, newRetx := c.newRetx ++ [s] })
  | ackWait (e : AmEntity) (s : Segment) (rest : List Segment) :
      c.curWait = s :: rest → ¬ e₀.hits n s → ¬ e₀.isBehind n s →
      e₀.modulusTx (e₀.snOf s) < e₀.modulusTx ackSn →
      Round e₀ n ackSn c (.processNextPdu { c with e, curWait := rest, waitEnd := c.endAfter })
  | leaveWait (s : Segment) (rest : List Segment) :
      c.curWait = s :: rest → e₀.modulusTx ackSn < e₀.modulusTx (e₀.snOf s) →
      Round e₀ n ackSn c
        (.processNextPdu { c with keptWait := c.keptWait ++ c.curWait, curWait := [] })
  | keepWait (s : Segment) (rest : List Segment) :
      c.curWait = s :: rest → e₀.modulusTx ackSn = e₀.modulusTx (e₀.snOf s) →
      Round e₀ n ackSn c
        (.processNextPdu { c with keptWait := c.keptWait ++ [s], curWait := rest })
  | nackRetx (s : Segment) (rest : List Segment) :
      c.curRetx = s :: rest → e₀.hits n s →
      Round e₀ n ackSn c
        (.processNextPdu { c with newRetx := c.newRetx ++ [s], curRetx := rest })
  | ackRetx (e : AmEntity) (s : Segment) (rest : List Segment) :
      c.curRetx = s :: rest → ¬ e₀.hits n s → ¬ e₀.isBehind n s →
      e₀.modulusTx (e₀.snOf s) < e₀.modulusTx ackSn →
      Round e₀ n ackSn c (.processNextPdu { c with e, curRetx := rest })
  | dropRetx (s : Segment) (rest : List Segment) :
      c.curWait = [] → c.curRetx = s :: rest → ¬ e₀.isBehind n s →
      e₀.modulusTx ackSn ≤ e₀.modulusTx (e₀.snOf s) →
      Round e₀ n ackSn c (.listsOver { c with curRetx := [] })
  | keepRetx (s : Segment) (rest : List Segment) :
      c.curRetx = s :: rest → e₀.modulusTx ackSn ≤ e₀.modulusTx (e₀.snOf s) →
      Round e₀ n ackSn c
        (.processNextPdu { c with newRetx := c.newRetx ++ [s], curRetx := rest })

theorem behind_iff (he : e₀.Agrees c.e) : c.behind n s = true ↔ e₀.isBehind n s := by
  rw [behind, AmEntity.isBehind, he.modulusTx, he.snOf]
  simp

theorem round_waitHead {rest : List Segment} (he : e₀.Agrees c.e) (hcur : c.curWait = s :: rest)
    (hfirst : ∀ r ∈ c.curRetx.head?, e₀.place s < e₀.place r) :
    Round e₀ n ackSn c (c.waitHead n ackSn s rest) := by
  rw [waitHead, he.modulusTx, he.snOf]
  split_ifs with hhit hbehind hlt hgt
  · exact .nackWait _ s rest hcur hhit
  · refine .stop s ?_ hhit ((behind_iff he).mp hbehind)
    rintro x (hx | hx)
    · rw [hcur] at hx
      obtain rfl := Option.some.inj hx
      exact le_rfl
    · exact (hfirst x hx).le
  · exact .ackWait _ s rest hcur hhit (fun h => hbehind ((behind_iff he).mpr h)) hlt
  · exact .leaveWait s rest hcur hgt
  · exact .keepWait s rest hcur (Nat.le_antisymm (Nat.not_lt.mp hlt) (Nat.not_lt.mp hgt))

theorem round_retxHead {rest : List Segment} (he : e₀.Agrees c.e) (hcur : c.curRetx = s :: rest)
    (hfirst : ∀ w ∈ c.curWait.head?, e₀.place s ≤ e₀.place w) :
    Round e₀ n ackSn c (c.retxHead n ackSn s rest) := by
  rw [retxHead, he.modulusTx, he.snOf]
  split_ifs with hhit hbehind hlt hempty
  · exact .nackRetx s rest hcur hhit
  · refine .stop s ?_ hhit ((behind_iff he).mp hbehind)
    rintro x (hx | hx)
    · exact hfirst x hx
    · rw [hcur] at hx
      obtain rfl := Option.some.inj hx
      exact le_rfl
  · exact .ackRetx _ s rest hcur hhit (fun h => hbehind ((behind_iff he).mpr h)) hlt
  · exact .dropRetx s rest (List.isEmpty_iff.mp hempty) hcur
      (fun h => hbehind ((behind_iff he).mpr h)) (Nat.not_lt.mp hlt)
  · exact .keepRetx s rest hcur (Nat.not_lt.mp hlt)

/-- Every round of the walk is one of these. -/
theorem round_step (he : e₀.Agrees c.e) : Round e₀ n ackSn c (c.step n ackSn) := by
  refine step_cases .emptied ?_ ?_
  · intro s rest hcur hfirst
    rw [he.place] at hfirst
    exact round_waitHead he hcur hfirst
  · intro s rest hcur hfirst
    rw [he.place] at hfirst
    exact round_retxHead he hcur hfirst

/-- A property of the lists that every round keeps holds after all NACKs of a status PDU. -/
theorem walk_invariant {J : Scan → Prop} {nacks : List NackRange}
    (hlists : ∀ c e, J c → J { c with e })
    (hstep : ∀ n ∈ nacks.flatMap (·.expand e₀.cfg.snModulus), ∀ c next,
      Round e₀ n ackSn c next → J c → J next.scan)
    (he : e₀.Agrees c.e) (h : J c) : J (nacks.foldl (processRange ackSn) c) := by
  induction nacks generalizing c with
  | nil => exact h
  | cons r nacks ih =>
    have hrange : e₀.Agrees (processNacks ackSn (r.expand c.e.cfg.snModulus) c).e ∧
        J (processNacks ackSn (r.expand c.e.cfg.snModulus) c) := by
      refine processNacks_invariant (I := fun c => e₀.Agrees c.e ∧ J c) ?_ ⟨he, h⟩
      intro n hn c' hc'
      rw [he.cfg] at hn
      refine ⟨hc'.1.trans agrees_step, hstep n ?_ c' _ (round_step hc'.1) hc'.2⟩
      exact List.mem_flatMap.mpr ⟨r, List.mem_cons_self .., hn⟩
    refine ih ?_ (he.trans agrees_processRange) (hlists _ _ hrange.2)
    intro n hn
    refine hstep n ?_
    rw [List.flatMap_cons]
    exact List.mem_append_right _ hn

/-! ### Segments that are not acknowledged -/

namespace Round

variable {next : Next}

/-- A segment of the wait list that is not before `ACK_SN` and that no NACK reports goes on
waiting. -/
theorem waiting (h : Round e₀ n ackSn c next)
    (hack : e₀.modulusTx ackSn ≤ e₀.modulusTx (e₀.snOf s)) (hhit : ¬ e₀.hits n s)
    (hs : s ∈ c.keptWait ++ c.curWait) : s ∈ next.scan.keptWait ++ next.scan.curWait := by
  cases h with
  | emptied | stop | nackRetx | ackRetx | dropRetx | keepRetx => exact hs
  | nackWait e x rest hcur hx =>
    have hne : s ≠ x := fun h => hhit (h ▸ hx)
    rw [hcur] at hs
    simpa [Next.scan, hne] using hs
  | ackWait e x rest hcur _ _ hlt =>
    have hne : s ≠ x := fun h => hlt.not_ge (h ▸ hack)
    rw [hcur] at hs
    simpa [Next.scan, hne] using hs
  | leaveWait x rest hcur _ => simpa [Next.scan] using hs
  | keepWait x rest hcur _ =>
    rw [hcur] at hs
    simpa [Next.scan, or_assoc] using hs

/-- A segment of the wait list that is not before `ACK_SN` is not acknowledged. -/
theorem unacked (h : Round e₀ n ackSn c next)
    (hack : e₀.modulusTx ackSn ≤ e₀.modulusTx (e₀.snOf s))
    (hs : s ∈ c.keptWait ++ c.curWait ∨ s ∈ c.newRetx) :
    s ∈ next.scan.keptWait ++ next.scan.curWait ∨ s ∈ next.scan.newRetx := by
  cases h with
  | emptied | stop | ackRetx | dropRetx => exact hs
  | nackRetx x rest hcur _ | keepRetx x rest hcur _ =>
    exact hs.imp_right (List.mem_append_left _)
  | nackWait e x rest hcur hx =>
    rw [hcur] at hs
    simp only [Next.scan, List.mem_append, List.mem_cons] at hs ⊢
    tauto
  | ackWait e x rest hcur hx _ hlt =>
    have hne : s ≠ x := fun h => hlt.not_ge (h ▸ hack)
    rw [hcur] at hs
    simpa [Next.scan, hne] using hs
  | leaveWait x rest hcur _ => simpa [Next.scan] using hs
  | keepWait x rest hcur _ =>
    rw [hcur] at hs
    simpa [Next.scan, or_assoc] using hs

/-- A segment of the retransmit list that is not before `ACK_SN` stays there, when the NACK is
before it. -/
theorem retransmit (h : Round e₀ n ackSn c next)
    (hack : e₀.modulusTx ackSn ≤ e₀.modulusTx (e₀.snOf s))
    (hn : e₀.modulusTx n.sn < e₀.modulusTx ackSn) (hs : s ∈ c.newRetx ++ c.curRetx) :
    s ∈ next.scan.newRetx ++ next.scan.curRetx := by
  cases h with
  | emptied | stop | ackWait | leaveWait | keepWait => exact hs
  | nackWait e x rest hcur _ =>
    simp only [Next.scan, List.mem_append, List.mem_singleton] at hs ⊢
    tauto
  | nackRetx x rest hcur _ | keepRetx x rest hcur _ =>
    rw [hcur] at hs
    simpa [Next.scan, or_assoc] using hs
  | ackRetx e x rest hcur _ _ hlt =>
    have hne : s ≠ x := fun h => hlt.not_ge (h ▸ hack)
    rw [hcur] at hs
    simpa [Next.scan, hne] using hs
  | dropRetx x rest _ _ hbehind hle => exact absurd (.inl (hn.trans_le hle)) hbehind

/-- A property of the first segment of either of two lists. -/
theorem of_mem_head?_append {P : Segment → Prop} {l l' : List Segment} (hl : ∀ w ∈ l.head?, P w)
    (hl' : ∀ w ∈ l'.head?, P w) : ∀ w ∈ (l ++ l').head?, P w := by
  cases l with
  | nil => exact hl'
  | cons x l => exact hl

/-- The first segment that goes on waiting is not before `ACK_SN`, and a segment that is to be sent
again is not before it or is reported. -/
theorem heads (h : Round e₀ n ackSn c next)
    {P : Segment → Prop} (hP : ∀ s, e₀.hits n s → P s)
    (hwait : ∀ w ∈ c.keptWait.head?, e₀.modulusTx ackSn ≤ e₀.modulusTx (e₀.snOf w))
    (hretx : ∀ r ∈ c.newRetx, e₀.modulusTx ackSn ≤ e₀.modulusTx (e₀.snOf r) ∨ P r) :
    (∀ w ∈ next.scan.keptWait.head?, e₀.modulusTx ackSn ≤ e₀.modulusTx (e₀.snOf w)) ∧
      ∀ r ∈ next.scan.newRetx, e₀.modulusTx ackSn ≤ e₀.modulusTx (e₀.snOf r) ∨ P r := by
  cases h with
  | emptied | stop | ackWait | ackRetx | dropRetx => exact ⟨hwait, hretx⟩
  | nackWait e x rest _ hx | nackRetx x rest _ hx =>
    refine ⟨hwait, fun r hr => ?_⟩
    rcases List.mem_append.mp hr with hr | hr
    · exact hretx r hr
    · exact .inr (List.mem_singleton.mp hr ▸ hP x hx)
  | keepRetx x rest _ hle =>
    refine ⟨hwait, fun r hr => ?_⟩
    rcases List.mem_append.mp hr with hr | hr
    · exact hretx r hr
    · exact .inl (List.mem_singleton.mp hr ▸ hle)
  | leaveWait x rest hcur hlt =>
    refine ⟨of_mem_head?_append hwait fun w hw => ?_, hretx⟩
    rw [hcur] at hw
    exact Option.some.inj hw ▸ hlt.le
  | keepWait x rest hcur heq =>
    refine ⟨of_mem_head?_append hwait fun w hw => ?_, hretx⟩
    exact Option.some.inj hw ▸ heq.le

/-- Every round but the last takes a segment from a list. -/
theorem length_lt (h : Round e₀ n ackSn c (.processNextPdu c')) :
    c'.curWait.length + c'.curRetx.length < c.curWait.length + c.curRetx.length := by
  cases h with
  | nackWait e x rest hcur | ackWait e x rest hcur | leaveWait x rest hcur
  | keepWait x rest hcur | nackRetx x rest hcur | ackRetx e x rest hcur | keepRetx x rest hcur =>
    simp [hcur]

end Round

section Rule

/-- What the rounds of a walk keep: `J` about the NACKs that are still to come, each of which is
valid, and `K` when the lists are over, which they are for all NACKs at once. -/
structure WalkRule (e₀ : AmEntity) (ackSn : ℕ) (valid : Nack → Prop) (J : List Nack → Scan → Prop)
    (K : Scan → Prop) : Prop where
  next {n : Nack} {ns : List Nack} {c c' : Scan} : valid n → e₀.Agrees c.e →
    c.step n ackSn = .processNextPdu c' → J (n :: ns) c → J (n :: ns) c'
  done {n : Nack} {ns : List Nack} {c c' : Scan} : valid n → e₀.Agrees c.e →
    c.step n ackSn = .doneNack c' → J (n :: ns) c → J ns c'
  exhausted {n : Nack} {ns : List Nack} {c c' : Scan} : valid n → e₀.Agrees c.e →
    c.step n ackSn = .listsOver c' → J (n :: ns) c → K c'
  ended {ns : List Nack} {c : Scan} : K c → J ns c
  poll {ns : List Nack} {c : Scan} {r : NackRange} : J ns c →
    J ns { c with e := stopPoll r c.e }

variable {valid : Nack → Prop} {J : List Nack → Scan → Prop} {K : Scan → Prop} {ns : List Nack}

theorem WalkRule.processNack (rule : WalkRule e₀ ackSn valid J K) (hn : valid n)
    (he : e₀.Agrees c.e) (hfuel : c.curWait.length + c.curRetx.length < fuel) (h : J (n :: ns) c) :
    J ns (processNack n ackSn fuel c).1 ∧
      ((processNack n ackSn fuel c).2 = true → K (processNack n ackSn fuel c).1) := by
  induction fuel generalizing c with
  | zero => omega
  | succ fuel ih =>
    have hround : Round e₀ n ackSn c (c.step n ackSn) := round_step he
    have hagrees : e₀.Agrees (c.step n ackSn).scan.e := he.trans agrees_step
    rw [Scan.processNack]
    split
    · next c' hc =>
      rw [hc] at hround hagrees
      exact ih hagrees (by have := hround.length_lt; omega) (rule.next hn he hc h)
    · next c' hc =>
      exact ⟨rule.done hn he hc h, fun h => absurd h (by simp)⟩
    · next c' hc =>
      have hend := rule.exhausted hn he hc h
      exact ⟨rule.ended hend, fun _ => hend⟩

theorem WalkRule.processNacks {ms : List Nack} (rule : WalkRule e₀ ackSn valid J K)
    (hms : ∀ n ∈ ms, valid n) (he : e₀.Agrees c.e) (h : J (ms ++ ns) c) :
    J ns (processNacks ackSn ms c) := by
  induction ms generalizing c with
  | nil => exact h
  | cons n ms ih =>
    have hnack := rule.processNack (hms n (List.mem_cons_self ..)) he (Nat.lt_succ_self _) h
    have hagrees : e₀.Agrees (Scan.processNack n ackSn
        (c.curWait.length + c.curRetx.length + 1) c).1.e := he.trans agrees_processNack
    rw [Scan.processNacks]
    split
    · next c' hc =>
      rw [hc] at hnack
      exact rule.ended (hnack.2 rfl)
    · next c' hc =>
      rw [hc] at hnack hagrees
      exact ih (fun n hn => hms n (List.mem_cons_of_mem _ hn)) hagrees hnack.1

/-- All NACKs of a status PDU. -/
theorem WalkRule.walk {nacks : List NackRange} (rule : WalkRule e₀ ackSn valid J K)
    (hnacks : ∀ n ∈ nacks.flatMap (·.expand e₀.cfg.snModulus), valid n) (he : e₀.Agrees c.e)
    (h : J (nacks.flatMap (·.expand e₀.cfg.snModulus)) c) :
    J [] (nacks.foldl (processRange ackSn) c) := by
  induction nacks generalizing c with
  | nil => exact h
  | cons r nacks ih =>
    rw [List.flatMap_cons] at h hnacks
    refine ih (fun n hn => hnacks n (List.mem_append_right _ hn)) (he.trans agrees_processRange)
      (rule.poll ?_)
    rw [he.cfg]
    exact rule.processNacks (fun n hn => hnacks n (List.mem_append_left _ hn)) he h

end Rule

/-- A segment is to be sent again, or a NACK that is still to come reports it. -/
def Pending (e₀ : AmEntity) (s : Segment) (ns : List Nack) (c : Scan) : Prop :=
  s ∈ c.newRetx ∨ e₀.nacked ns s ∧ (e₀.InOrder c.curWait s ∨ e₀.InOrder c.curRetx s)

namespace Pending

variable {ns : List Nack}

/-- The smallest segment of the two lists is not behind one that stands in order. -/
theorem place_le {x : Segment}
    (hfirst : ∀ y, y ∈ c.curWait.head? ∨ y ∈ c.curRetx.head? → e₀.place x ≤ e₀.place y)
    (h : e₀.InOrder c.curWait s ∨ e₀.InOrder c.curRetx s) : e₀.place x ≤ e₀.place s := by
  rcases h with h | h
  · cases hcur : c.curWait with
    | nil => exact absurd (hcur ▸ h) AmEntity.not_inOrder_nil
    | cons w rest =>
      rw [hcur] at h
      exact (hfirst w (.inl (by rw [hcur]; rfl))).trans h.cons.1
  · cases hcur : c.curRetx with
    | nil => exact absurd (hcur ▸ h) AmEntity.not_inOrder_nil
    | cons r rest =>
      rw [hcur] at h
      exact (hfirst r (.inr (by rw [hcur]; rfl))).trans h.cons.1

/-- A round that stops a NACK leaves the segment to the NACKs that are still to come. -/
theorem doneNack (hinv : e₀.SnInv) (h : Pending e₀ s (n :: ns) c)
    (hround : Round e₀ n ackSn c (.doneNack c')) : Pending e₀ s ns c' := by
  cases hround with
  | stop x hfirst hhit hbehind =>
    refine h.imp_right fun ⟨hnacked, horder⟩ => ⟨?_, horder⟩
    rcases hnacked with hs | ⟨-, hnacked⟩
    · exact absurd (hinv.place_lt hs hhit hbehind) (place_le hfirst horder).not_gt
    · exact hnacked

/-- The lists are over only when the segment has been classified. -/
theorem listsOver (h : Pending e₀ s (n :: ns) c)
    (hack : e₀.modulusTx (e₀.snOf s) < e₀.modulusTx ackSn)
    (hround : Round e₀ n ackSn c (.listsOver c')) : s ∈ c'.newRetx := by
  cases hround with
  | emptied hwait hretx =>
    rcases h with h | ⟨-, h | h⟩
    · exact h
    · exact absurd (hwait ▸ h) AmEntity.not_inOrder_nil
    · exact absurd (hretx ▸ h) AmEntity.not_inOrder_nil
  | dropRetx x rest hwait hretx _ hle =>
    rcases h with h | ⟨-, h | h⟩
    · exact h
    · exact absurd (hwait ▸ h) AmEntity.not_inOrder_nil
    · rw [hretx] at h
      have hx := AmEntity.modulusTx_le_of_place_le h.cons.1
      omega

/-- A NACK that reports a segment, or passes it on, does not let it be acknowledged. -/
theorem ne_of_not_hits {x : Segment} (hnacked : e₀.nacked (n :: ns) s) (hhit : ¬ e₀.hits n x)
    (hbehind : ¬ e₀.isBehind n x) : x ≠ s := by
  rintro rfl
  rcases hnacked with hx | ⟨hx, -⟩
  · exact hhit hx
  · exact hbehind hx

/-- A round that goes on with a NACK takes the segment only to send it again. -/
theorem processNextPdu (h : Pending e₀ s (n :: ns) c)
    (hack : e₀.modulusTx (e₀.snOf s) < e₀.modulusTx ackSn)
    (hround : Round e₀ n ackSn c (.processNextPdu c')) : Pending e₀ s (n :: ns) c' := by
  rcases h with h | ⟨hnacked, horder⟩
  · refine .inl ?_
    cases hround with
    | nackWait | nackRetx | keepRetx => exact List.mem_append_left _ h
    | _ => exact h
  · cases hround with
    | nackWait e x rest hcur hx =>
      rcases horder with horder | horder
      · rw [hcur] at horder
        rcases horder.cons.2 with rfl | horder
        · exact .inl (by simp)
        · exact .inr ⟨hnacked, .inl horder⟩
      · exact .inr ⟨hnacked, .inr horder⟩
    | ackWait e x rest hcur hhit hbehind _ =>
      rcases horder with horder | horder
      · rw [hcur] at horder
        have hrest := horder.cons.2.resolve_left (ne_of_not_hits hnacked hhit hbehind)
        exact .inr ⟨hnacked, .inl hrest⟩
      · exact .inr ⟨hnacked, .inr horder⟩
    | leaveWait x rest hcur hle | keepWait x rest hcur hle =>
      -- what stands in front of the segment is before `ACK_SN` too
      rcases horder with horder | horder
      · rw [hcur] at horder
        have hx := AmEntity.modulusTx_le_of_place_le horder.cons.1
        omega
      · exact .inr ⟨hnacked, .inr horder⟩
    | nackRetx x rest hcur hx =>
      rcases horder with horder | horder
      · exact .inr ⟨hnacked, .inl horder⟩
      · rw [hcur] at horder
        rcases horder.cons.2 with rfl | horder
        · exact .inl (by simp)
        · exact .inr ⟨hnacked, .inr horder⟩
    | ackRetx e x rest hcur hhit hbehind _ =>
      rcases horder with horder | horder
      · exact .inr ⟨hnacked, .inl horder⟩
      · rw [hcur] at horder
        have hrest := horder.cons.2.resolve_left (ne_of_not_hits hnacked hhit hbehind)
        exact .inr ⟨hnacked, .inr hrest⟩
    | keepRetx x rest hcur hle =>
      rcases horder with horder | horder
      · exact .inr ⟨hnacked, .inl horder⟩
      · rw [hcur] at horder
        have hx := AmEntity.modulusTx_le_of_place_le horder.cons.1
        omega

/-- All NACKs of a status PDU. -/
theorem walk {nacks : List NackRange} (hinv : e₀.SnInv)
    (hack : e₀.modulusTx (e₀.snOf s) < e₀.modulusTx ackSn) (he : e₀.Agrees c.e)
    (h : Pending e₀ s (nacks.flatMap (·.expand e₀.cfg.snModulus)) c) :
    s ∈ (nacks.foldl (processRange ackSn) c).newRetx := by
  have rule : WalkRule e₀ ackSn (fun _ => True) (Pending e₀ s) fun c => s ∈ c.newRetx :=
    { next := fun _ he hc h => h.processNextPdu hack (hc ▸ round_step he)
      done := fun _ he hc h => h.doneNack hinv (hc ▸ round_step he)
      exhausted := fun _ he hc h => h.listsOver hack (hc ▸ round_step he)
      ended := .inl
      poll := id }
  have hend := rule.walk (fun _ _ => trivial) he h
  exact hend.resolve_right fun h => h.1

end Pending

/-! ### The segments that are left -/

/-- A segment is before `ACK_SN`. -/
def acked (e₀ : AmEntity) (ackSn : ℕ) (s : Segment) : Bool :=
  e₀.modulusTx (e₀.snOf s) < e₀.modulusTx ackSn

theorem mem_dropWhile_acked {l : List Segment} (hs : s ∈ l)
    (hack : e₀.modulusTx ackSn ≤ e₀.modulusTx (e₀.snOf s)) : s ∈ l.dropWhile (acked e₀ ackSn) := by
  rw [← List.takeWhile_append_dropWhile (p := acked e₀ ackSn) (l := l)] at hs
  refine (List.mem_append.mp hs).resolve_left fun hs => ?_
  have hacked : acked e₀ ackSn s = true := List.mem_takeWhile_imp hs
  exact (decide_eq_true_iff.mp hacked).not_ge hack

theorem le_of_mem_head?_dropWhile_acked {l : List Segment}
    (hs : s ∈ (l.dropWhile (acked e₀ ackSn)).head?) :
    e₀.modulusTx ackSn ≤ e₀.modulusTx (e₀.snOf s) := by
  have hnot := List.head?_dropWhile_not (acked e₀ ackSn) l
  rw [Option.mem_def.mp hs] at hnot
  exact Nat.not_lt.mp (of_decide_eq_false hnot)

/-- The wait list after the acknowledgement of what is left. -/
theorem ackWait_spec (he : e₀.Agrees c.e) :
    c.e.Agrees (c.ackWait ackSn c.curWait).e ∧
      ∃ e waitEnd, c.ackWait ackSn c.curWait =
        { c with e, waitEnd, curWait := c.curWait.dropWhile (acked e₀ ackSn) } := by
  generalize hl : c.curWait = l
  induction l generalizing c with
  | nil =>
    exact ⟨.refl c.e, c.e, c.waitEnd, by rw [List.dropWhile_nil, ackWait, ← hl]⟩
  | cons x rest ih =>
    rw [ackWait, he.modulusTx, he.snOf, List.dropWhile_cons]
    by_cases hx : e₀.modulusTx (e₀.snOf x) < e₀.modulusTx ackSn
    · have hacked : acked e₀ ackSn x = true := decide_eq_true hx
      rw [if_pos hx, if_pos hacked]
      obtain ⟨hagrees, hrest⟩ := ih
        (c := { c with e := c.e.ackSegment x, curWait := rest, waitEnd := c.endAfter })
        (he.trans AmEntity.agrees_ackSegment) rfl
      exact ⟨AmEntity.agrees_ackSegment.trans hagrees, hrest⟩
    · have hacked : ¬ acked e₀ ackSn x = true := by simpa [acked] using hx
      rw [if_neg hx, if_neg hacked]
      exact ⟨.refl c.e, c.e, c.waitEnd, by rw [← hl]⟩

/-- The retransmit list after the acknowledgement of what is left. -/
theorem ackRetx_spec (he : e₀.Agrees c.e) :
    c.e.Agrees (c.ackRetx ackSn c.curRetx).e ∧
      ∃ e, c.ackRetx ackSn c.curRetx =
        { c with e, curRetx := c.curRetx.dropWhile (acked e₀ ackSn) } := by
  generalize hl : c.curRetx = l
  induction l generalizing c with
  | nil =>
    exact ⟨.refl c.e, c.e, by rw [List.dropWhile_nil, ackRetx, ← hl]⟩
  | cons x rest ih =>
    rw [ackRetx, he.modulusTx, he.snOf, List.dropWhile_cons]
    by_cases hx : e₀.modulusTx (e₀.snOf x) < e₀.modulusTx ackSn
    · have hacked : acked e₀ ackSn x = true := decide_eq_true hx
      rw [if_pos hx, if_pos hacked]
      obtain ⟨hagrees, hrest⟩ := ih (c := { c with e := c.e.ackRetxSegment x, curRetx := rest })
        (he.trans AmEntity.agrees_ackRetxSegment) rfl
      exact ⟨AmEntity.agrees_ackRetxSegment.trans hagrees, hrest⟩
    · have hacked : ¬ acked e₀ ackSn x = true := by simpa [acked] using hx
      rw [if_neg hx, if_neg hacked]
      exact ⟨.refl c.e, c.e, by rw [← hl]⟩

/-- A NACK range with `POLL_SN` stops the poll timer. -/
theorem walk_stopped {nacks : List NackRange} {r : NackRange} (he : e₀.Agrees c.e)
    (hr : r ∈ nacks) (hle : e₀.modulusTx r.nackSn ≤ e₀.modulusTx e₀.pollSn)
    (hlt : e₀.modulusTx e₀.pollSn < e₀.modulusTx ((r.nackSn + r.range) % e₀.cfg.snModulus)) :
    (nacks.foldl (processRange ackSn) c).e.tPollRetransmitStart = 0 := by
  induction nacks generalizing c with
  | nil => exact absurd hr List.not_mem_nil
  | cons r' nacks ih =>
    rcases List.mem_cons.mp hr with rfl | hr
    · have hrange : (processRange ackSn c r).e.tPollRetransmitStart = 0 := by
        have hagrees : e₀.Agrees (processNacks ackSn (r.expand c.e.cfg.snModulus) c).e :=
          he.trans agrees_processNacks
        rw [processRange, stopPoll, hagrees.modulusTx, hagrees.pollSn, hagrees.cfg,
          if_pos ⟨hle, hlt⟩]
      exact (agrees_walk (c := processRange ackSn c r)).stopped hrange
    · exact ih (he.trans agrees_processRange) hr

end Scan

/-! ### Status PDUs -/

namespace AmEntity

variable {e : AmEntity} {c : ControlPdu} {s : Segment}

/-- The NACKs of a status PDU, one for each sequence number. -/
def nacksOf (e : AmEntity) (c : ControlPdu) : List Nack :=
  c.nacks.flatMap (·.expand e.cfg.snModulus)

/-- A status PDU acknowledges `POLL_SN` or has a NACK for it. -/
def Answers (e : AmEntity) (c : ControlPdu) : Prop :=
  e.modulusTx e.pollSn < e.modulusTx c.ackSn ∨
    ∃ r ∈ c.nacks, e.modulusTx r.nackSn ≤ e.modulusTx e.pollSn ∧
      e.modulusTx e.pollSn < e.modulusTx ((r.nackSn + r.range) % e.cfg.snModulus)

/-- A segment of the wait list is neither acknowledged nor reported by a status PDU. -/
def StaysWaiting (e : AmEntity) (c : ControlPdu) (s : Segment) : Prop :=
  s ∈ e.waitList ∧ e.modulusTx c.ackSn ≤ e.modulusTx (e.snOf s) ∧ ∀ n ∈ e.nacksOf c, ¬ e.hits n s

/-- A segment that was sent is not acknowledged by a status PDU. -/
def StaysUnacked (e : AmEntity) (c : ControlPdu) (s : Segment) : Prop :=
  -- not before `ACK_SN`; a NACK for `ACK_SN` may cut the retransmit list
  (e.modulusTx c.ackSn ≤ e.modulusTx (e.snOf s) ∧
    (s ∈ e.waitList ∨
      s ∈ e.retransmitList ∧ ∀ n ∈ e.nacksOf c, e.modulusTx n.sn < e.modulusTx c.ackSn)) ∨
  -- before `ACK_SN`, and reported
  (e.modulusTx (e.snOf s) < e.modulusTx c.ackSn ∧ e.nacked (e.nacksOf c) s ∧
    (e.InOrder e.waitList s ∨ e.InOrder e.retransmitList s))

/-- The walk over the lists before what is left is acknowledged. -/
def statusWalk (e : AmEntity) (c : ControlPdu) : Scan :=
  c.nacks.foldl (Scan.processRange c.ackSn)
    (.start (if e.modulusTx e.pollSn < e.modulusTx c.ackSn then
      { e with tPollRetransmitStart := 0 } else e))

/-- The entity before the update of `tx_next_ack`. -/
structure AfterWalk (e : AmEntity) (c : ControlPdu) (e' : AmEntity) : Prop where
  agrees : e.Agrees e'
  waitList : e'.waitList =
    (e.statusWalk c).keptWait ++ (e.statusWalk c).curWait.dropWhile (Scan.acked e c.ackSn)
  retransmitList : e'.retransmitList =
    (e.statusWalk c).newRetx ++ (e.statusWalk c).curRetx.dropWhile (Scan.acked e c.ackSn)
  stopped : e.Answers c → e'.tPollRetransmitStart = 0

theorem agrees_ackPoll {ackSn : ℕ} : e.Agrees (Scan.start
    (if e.modulusTx e.pollSn < e.modulusTx ackSn then
      { e with tPollRetransmitStart := 0 } else e)).e := by
  split_ifs
  · exact ⟨rfl, rfl, rfl, rfl, rfl, rfl, .inr rfl⟩
  · exact .refl e

theorem statusWalk_stopped (h : e.Answers c) : (e.statusWalk c).e.tPollRetransmitStart = 0 := by
  rcases h with hack | ⟨r, hr, hle, hlt⟩
  · rw [statusWalk, if_pos hack]
    exact Scan.agrees_walk.stopped rfl
  · exact Scan.walk_stopped agrees_ackPoll hr hle hlt

/-- A status PDU is applied by the walk and the update of `tx_next_ack`. -/
theorem exists_afterWalk (e : AmEntity) (c : ControlPdu) :
    ∃ e', e.AfterWalk c e' ∧ e.applyControlPdu c = e'.updateTxNextAck c.ackSn := by
  have hwalk : e.Agrees (e.statusWalk c).e := agrees_ackPoll.trans Scan.agrees_walk
  set w := e.statusWalk c
  obtain ⟨hwait, e₁, waitEnd, hwait_eq⟩ : w.e.Agrees (w.ackWait c.ackSn w.curWait).e ∧
      ∃ e₁ waitEnd, w.ackWait c.ackSn w.curWait = { w with
        e := e₁, waitEnd, curWait := w.curWait.dropWhile (Scan.acked e c.ackSn) } :=
    Scan.ackWait_spec hwalk
  set v := w.ackWait c.ackSn w.curWait
  obtain ⟨hretx, e₂, hretx_eq⟩ : v.e.Agrees (v.ackRetx c.ackSn v.curRetx).e ∧
      ∃ e₂, v.ackRetx c.ackSn v.curRetx =
        { v with e := e₂, curRetx := v.curRetx.dropWhile (Scan.acked e c.ackSn) } :=
    Scan.ackRetx_spec (hwalk.trans hwait)
  have hend : w.e.Agrees (v.ackRetx c.ackSn v.curRetx).e := hwait.trans hretx
  refine ⟨(v.ackRetx c.ackSn v.curRetx).finish, ⟨?_, ?_, ?_, ?_⟩, rfl⟩
  · exact (hwalk.trans hend).trans ⟨rfl, rfl, rfl, rfl, rfl, rfl, .inl rfl⟩
  · rw [hretx_eq, hwait_eq]
    rfl
  · rw [hretx_eq, hwait_eq]
    rfl
  · exact fun h => hend.stopped (statusWalk_stopped h)

namespace AfterWalk

variable {e' : AmEntity}

theorem mem_waitList (h : e.AfterWalk c e') (hs : e.StaysWaiting c s) : s ∈ e'.waitList := by
  obtain ⟨hmem, hack, hhit⟩ := hs
  have hwalk : s ∈ (e.statusWalk c).keptWait ++ (e.statusWalk c).curWait := by
    refine Scan.walk_invariant (J := fun c => s ∈ c.keptWait ++ c.curWait) (fun _ _ h => h) ?_
      agrees_ackPoll ?_
    · exact fun n hn _ _ hround h => hround.waiting hack (hhit n hn) h
    · split_ifs <;> exact hmem
  rw [h.waitList]
  rcases List.mem_append.mp hwalk with hs | hs
  · exact List.mem_append_left _ hs
  · exact List.mem_append_right _ (Scan.mem_dropWhile_acked hs hack)

theorem mem_waitList_or_retransmitList (h : e.AfterWalk c e') (hinv : e.SnInv)
    (hs : e.StaysUnacked c s) : s ∈ e'.waitList ∨ s ∈ e'.retransmitList := by
  rw [h.waitList, h.retransmitList]
  rcases hs with ⟨hack, hmem | ⟨hmem, hnacks⟩⟩ | ⟨hack, hnacked, horder⟩
  · have hwalk : s ∈ (e.statusWalk c).keptWait ++ (e.statusWalk c).curWait ∨
        s ∈ (e.statusWalk c).newRetx := by
      refine Scan.walk_invariant (J := fun c => s ∈ c.keptWait ++ c.curWait ∨ s ∈ c.newRetx)
        (fun _ _ h => h) ?_ agrees_ackPoll ?_
      · exact fun n hn _ _ hround h => hround.unacked hack h
      · split_ifs <;> exact .inl hmem
    rcases hwalk with hs | hs
    · refine .inl ?_
      rcases List.mem_append.mp hs with hs | hs
      · exact List.mem_append_left _ hs
      · exact List.mem_append_right _ (Scan.mem_dropWhile_acked hs hack)
    · exact .inr (List.mem_append_left _ hs)
  · have hwalk : s ∈ (e.statusWalk c).newRetx ++ (e.statusWalk c).curRetx := by
      refine Scan.walk_invariant (J := fun c => s ∈ c.newRetx ++ c.curRetx) (fun _ _ h => h) ?_
        agrees_ackPoll ?_
      · exact fun n hn _ _ hround h => hround.retransmit hack (hnacks n hn) h
      · split_ifs <;> exact hmem
    refine .inr ?_
    rcases List.mem_append.mp hwalk with hs | hs
    · exact List.mem_append_left _ hs
    · exact List.mem_append_right _ (Scan.mem_dropWhile_acked hs hack)
  · refine .inr (List.mem_append_left _ ?_)
    refine Scan.Pending.walk hinv hack agrees_ackPoll (.inr ⟨hnacked, ?_⟩)
    split_ifs <;> exact horder

/-- The first segments of the lists after the walk. -/
theorem heads (h : e.AfterWalk c e') :
    (∀ w ∈ e'.waitList.head?, e.modulusTx c.ackSn ≤ e.modulusTx (e.snOf w)) ∧
      ∀ r ∈ e'.retransmitList.head?, e.modulusTx c.ackSn ≤ e.modulusTx (e.snOf r) ∨
        ∃ n ∈ e.nacksOf c, e.snOf r = n.sn := by
  have hwalk : (∀ w ∈ (e.statusWalk c).keptWait.head?,
      e.modulusTx c.ackSn ≤ e.modulusTx (e.snOf w)) ∧
      ∀ r ∈ (e.statusWalk c).newRetx, e.modulusTx c.ackSn ≤ e.modulusTx (e.snOf r) ∨
        ∃ n ∈ e.nacksOf c, e.snOf r = n.sn := by
    refine Scan.walk_invariant (J := fun c' => (∀ w ∈ c'.keptWait.head?,
      e.modulusTx c.ackSn ≤ e.modulusTx (e.snOf w)) ∧
      ∀ r ∈ c'.newRetx, e.modulusTx c.ackSn ≤ e.modulusTx (e.snOf r) ∨
        ∃ n ∈ e.nacksOf c, e.snOf r = n.sn) (fun _ _ h => h) ?_ agrees_ackPoll ?_
    · exact fun n hn _ _ hround h => hround.heads (fun s hs => ⟨n, hn, hs.1⟩) h.1 h.2
    · exact ⟨fun w hw => absurd hw (by simp [Scan.start]), fun r hr => absurd hr List.not_mem_nil⟩
  rw [h.waitList, h.retransmitList]
  refine ⟨Scan.Round.of_mem_head?_append hwalk.1 fun w => Scan.le_of_mem_head?_dropWhile_acked,
    Scan.Round.of_mem_head?_append (fun r hr => hwalk.2 r (List.mem_of_head? hr)) ?_⟩
  exact fun r hr => .inl (Scan.le_of_mem_head?_dropWhile_acked hr)

end AfterWalk

end AmEntity

end LlmHric.Rlc
