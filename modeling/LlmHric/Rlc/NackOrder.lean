import LlmHric.Rlc.PollTimer

/-! The first pass over a status PDU is meant to discard it when a NACK is not behind the previous
one: the walk over the lists takes the NACKs in order, and frees what it has passed. The variables
for the previous NACK are never set in that pass, so the order is not checked. What is still checked
is that nothing lies behind `ACK_SN`. -/

namespace LlmHric.Rlc

namespace AmEntity

variable {e : AmEntity} {c : ControlPdu} {buffer : List UInt8}

def receivedStatus (e : AmEntity) (buffer : List UInt8) : Option ControlPdu :=
  match (Decoder.init buffer).getBits 1 with
  | some (0, _) => decodeControlPdu e.cfg buffer
  | _ => none

theorem acceptedStatus_eq : e.acceptedStatus buffer =
    (e.receivedStatus buffer).filter e.validControlPdu := by
  rw [acceptedStatus, receivedStatus]
  rcases (Decoder.init buffer).getBits 1 with _ | ⟨_ | dc, d⟩ <;> rfl

/-- A NACK is behind the previous one, as the first pass compares them. -/
def Follows (e : AmEntity) (prev n : Nack) : Prop :=
  e.modulusTx prev.sn < e.modulusTx n.sn ∨
    e.modulusTx prev.sn = e.modulusTx n.sn ∧ prev.soEnd ≠ -1 ∧ prev.soEnd < n.soStart

instance (prev n : Nack) : Decidable (e.Follows prev n) := inferInstanceAs (Decidable (_ ∨ _))

/-- Every NACK is behind the previous one. -/
def Increases (e : AmEntity) (c : ControlPdu) : Prop := (e.nacksOf c).IsChain e.Follows

instance (c : ControlPdu) : Decidable (e.Increases c) :=
  inferInstanceAs (Decidable (List.IsChain _ _))

/-- The first pass checks `ACK_SN` and that no NACK lies behind it, and nothing else. -/
theorem validControlPdu_iff : e.validControlPdu c = true ↔
    e.modulusTx c.ackSn ≤ e.modulusTx e.txNext ∧
      ∀ n ∈ e.nacksOf c, e.modulusTx n.sn ≤ e.modulusTx c.ackSn := by
  simp only [validControlPdu, badNack, nacksOf, Bool.and_eq_true, decide_eq_true_eq,
    List.all_eq_true, Bool.false_or, Bool.not_eq_true', decide_eq_false_iff_not, not_lt,
    List.mem_flatMap]
  constructor
  · rintro ⟨hack, hnacks⟩
    refine ⟨hack, ?_⟩
    rintro n ⟨r, hr, hn⟩
    exact hnacks r hr n hn
  · rintro ⟨hack, hnacks⟩
    exact ⟨hack, fun r hr n hn => hnacks n ⟨r, hr, hn⟩⟩

/-- A status PDU is discarded as a whole: the transmitting side and what was reported to the upper
layer are as before, and no segment that the PDU has a NACK for is freed. -/
structure Discards (e : AmEntity) (buffer : List UInt8) (c : ControlPdu) : Prop where
  rejected : e.acceptedStatus buffer = none
  unchanged : ∀ fuel e', e.recvPdu fuel buffer = some e' →
    e'.txSide = e.txSide ∧ e'.upcalls = e.upcalls
  kept : ∀ fuel e', e.recvPdu fuel buffer = some e' →
    ∀ s ∈ e.waitList ++ e.retransmitList, (∃ n ∈ e.nacksOf c, e.hits n s) →
      s ∈ e'.waitList ++ e'.retransmitList

/-- A status PDU is received as `process_control_pdu` processes it. -/
theorem recvPdu_of_receivedStatus (hc : e.receivedStatus buffer = some c) (fuel : ℕ) :
    e.recvPdu fuel buffer = some (if e.validControlPdu c then e.applyControlPdu c else e) := by
  rw [receivedStatus] at hc
  split at hc
  · next d hdc =>
    rw [recvPdu, hdc, processControlPdu, hc]
    rfl
  · cases hc

theorem Discards.of_rejected (hc : e.receivedStatus buffer = some c)
    (h : e.validControlPdu c = false) : e.Discards buffer c := by
  have hrecv : ∀ fuel e', e.recvPdu fuel buffer = some e' → e = e' := by
    intro fuel e' he'
    rw [recvPdu_of_receivedStatus hc, h] at he'
    exact Option.some.inj he'
  refine ⟨?_, ?_, ?_⟩
  · rw [acceptedStatus_eq, hc, Option.filter_some, h]
    rfl
  · intro fuel e' he'
    obtain rfl := hrecv fuel e' he'
    exact ⟨rfl, rfl⟩
  · intro fuel e' he' s hs _
    obtain rfl := hrecv fuel e' he'
    exact hs

/-- A status PDU that is discarded fails a check of the first pass. -/
theorem Discards.not_valid (h : e.Discards buffer c) (hc : e.receivedStatus buffer = some c) :
    ¬ e.validControlPdu c = true := by
  intro hvalid
  have hnone := h.rejected
  rw [acceptedStatus_eq, hc, Option.filter_some, if_pos hvalid] at hnone
  cases hnone

/-- A status PDU is discarded for NACKs that are out of order exactly when it also acknowledges what
was not sent, or reports something behind its `ACK_SN`. -/
theorem discards_iff (e : AmEntity) (buffer : List UInt8) (c : ControlPdu)
    (hc : e.receivedStatus buffer = some c) :
    (¬ e.Increases c → e.Discards buffer c) ↔
      e.Increases c ∨ e.modulusTx e.txNext < e.modulusTx c.ackSn ∨
        ∃ n ∈ e.nacksOf c, e.modulusTx c.ackSn < e.modulusTx n.sn := by
  constructor
  · intro hdiscards
    by_contra hchecks
    push Not at hchecks
    obtain ⟨hdisorder, hack, hnacks⟩ := hchecks
    exact (hdiscards hdisorder).not_valid hc (validControlPdu_iff.mpr ⟨hack, hnacks⟩)
  · intro hchecks hdisorder
    refine .of_rejected hc (Bool.eq_false_iff.mpr fun hvalid => ?_)
    obtain ⟨hack, hnacks⟩ := validControlPdu_iff.mp hvalid
    rcases hchecks with hincreases | hlt | ⟨n, hn, hlt⟩
    · exact hdisorder hincreases
    · exact hack.not_gt hlt
    · exact (hnacks n hn).not_gt hlt

end AmEntity

/-- Every status PDU whose NACKs are out of order is discarded. -/
def DiscardsUnordered : Prop :=
  ∀ (e : AmEntity) buffer c, e.receivedStatus buffer = some c → ¬ e.Increases c →
    e.Discards buffer c

/-- `ACK_SN` 3, and NACKs for 2 and 1. -/
def unorderedPdu : ControlPdu := ⟨3, [⟨2, 0, -1, 1⟩, ⟨1, 0, -1, 1⟩]⟩

/-- The bytes of the status PDU. -/
def unorderedStatus : List UInt8 := [0, 3, 128, 0, 40, 0, 16]

/-- An entity that has sent nothing discards it. -/
theorem discards_new : (AmEntity.new exampleCfg).Discards unorderedStatus unorderedPdu :=
  (AmEntity.discards_iff (.new exampleCfg) unorderedStatus unorderedPdu rfl).mpr
    (.inr (.inl (by decide))) (by decide)

/-- Three SDUs are sent. -/
def sentOps : List AmOp :=
  [.setTime 1, .recvSdu [0] 0, .recvSdu [0] 1, .recvSdu [0] 2, .generatePdu 100, .generatePdu 100,
    .generatePdu 100]

/-- The SDU with sequence number 1 is reported as missing, and freed as delivered. -/
theorem not_discardsUnordered : ¬ DiscardsUnordered := by
  intro hdiscards
  set s : Segment := ⟨1, 1, 0, true, true⟩
  set n : Nack := ⟨1, 0, -1⟩
  obtain ⟨e, -, hc, hdisorder, hn, hhits, hmem, e', he', -, hnot⟩ :
      ∃ e, sentOps.foldlM (AmEntity.op 1) (.new exampleCfg) = some e ∧
        e.receivedStatus unorderedStatus = some unorderedPdu ∧ ¬ e.Increases unorderedPdu ∧
        n ∈ e.nacksOf unorderedPdu ∧ e.hits n s ∧ s ∈ e.waitList ++ e.retransmitList ∧
        ∃ e', e.recvPdu 1 unorderedStatus = some e' ∧
          e'.upcalls = [.sduSuccessfulDelivery 0, .sduSuccessfulDelivery 1] ∧
          s ∉ e'.waitList ++ e'.retransmitList := by
    refine ⟨_, rfl, ?_, ?_, ?_, ?_, ?_, _, rfl, ?_, ?_⟩ <;> decide +kernel
  exact hnot ((hdiscards e _ _ hc hdisorder).kept 1 e' he' s hmem ⟨n, hn, hhits⟩)

end LlmHric.Rlc
