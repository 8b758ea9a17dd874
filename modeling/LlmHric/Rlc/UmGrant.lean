import LlmHric.Rlc.UmLink

/-! `generate_tx_pdu` returns 0 when it makes no PDU. It looks first whether a byte of data fits
behind the header of the first segment of the list. The header of a whole SDU has no sequence
number, while that of its first segment has one; with 12 bits it is a byte longer. A grant of two
bytes passes the first test and fails the one in `resegment`, when the SDU has left the list
already. -/

namespace LlmHric.Rlc

namespace UmEntity

variable {e e' : UmEntity} {s : Segment} {rest : List Segment} {size : ℕ} {pdu : List UInt8}

theorem pduBytes_ne_nil (cfg : UmConfig) (sn : ℕ) (data : List UInt8) (s : Segment) :
    pduBytes cfg sn data s ≠ [] := by
  have hbytes := length_headerBits cfg sn s
  have hpos : 0 < (headerBits cfg sn s).length := by
    rw [headerBits, List.length_append, length_fieldBits]
    exact Nat.lt_add_right _ Nat.one_pos
  have hlength := Ahead.length_toBytes hbytes
  intro hnil
  have hzero := congrArg List.length (List.append_eq_nil_iff.mp hnil).1
  rw [hlength, List.length_nil] at hzero
  omega

theorem sendSegment_ne_nil (h : e.sendSegment s size = some (pdu, e')) : pdu ≠ [] := by
  obtain ⟨pdu', hpdu, heq⟩ := Option.map_eq_some_iff.mp h
  obtain ⟨rfl, -⟩ := Prod.mk.inj heq
  rw [serializeSdu_eq hpdu]
  exact pduBytes_ne_nil _ _ _ _

/-- The header grows only when a whole SDU becomes a segment with a sequence number of 12 bits. -/
theorem losesHead_iff : e.LosesHead size ↔ e.cfg.snFieldLength = .sn12 ∧ size = 2 ∧
    ∃ s ∈ e.txList.head?, s.isFirst = true ∧ s.isLast = true ∧ 2 ≤ s.size := by
  constructor
  · rintro ⟨s, hs, hroom, hsize, hsegment⟩
    rw [computePduHeaderSize] at hroom hsize hsegment
    cases hfirst : s.isFirst <;> cases hlast : s.isLast <;> cases hsn : e.cfg.snFieldLength <;>
      simp only [hfirst, hlast, hsn] at hroom hsize hsegment <;> simp at hroom hsize hsegment
    all_goals first
      | omega
      | exact ⟨rfl, by omega, s, hs, hfirst, hlast, by omega⟩
  · rintro ⟨hsn, rfl, s, hs, hfirst, hlast, hsize⟩
    refine ⟨s, hs, ?_, ?_, ?_⟩
    · simp [computePduHeaderSize, hfirst, hlast]
    · simp only [computePduHeaderSize, hfirst, hlast]
      simp
      omega
    · simp [computePduHeaderSize, hfirst, hsn]

/-- No PDU is made when there is nothing to send, when not even a byte of data fits, or when the
first SDU is lost. -/
theorem generatePdu_eq_nil_iff : e.generatePdu size = some ([], e') ↔
    (e' = e ∧ ∀ s ∈ e.txList.head?, size < e.computePduHeaderSize s + 1) ∨
      (e.LosesHead size ∧ ∃ s rest, e.txList = s :: rest ∧
        e' = ((e.takeHead s rest).resegment s size).2) := by
  cases hlist : e.txList with
  | nil =>
    rw [generatePdu, hlist]
    simp [LosesHead, hlist, eq_comm]
  | cons s rest =>
    have hloses : e.LosesHead size ↔ e.computePduHeaderSize s + 1 ≤ size ∧
        size < e.computePduHeaderSize s + s.size ∧
        size < e.computePduHeaderSize { s with isLast := false } + 1 := by
      rw [LosesHead, hlist]
      simp
    rw [hloses, generatePdu, hlist]
    by_cases hroom : e.computePduHeaderSize s + 1 > size
    · have hnot : ¬ e.computePduHeaderSize s + 1 ≤ size := Nat.not_le.mpr hroom
      simp only [if_pos hroom, hnot, false_and, or_false]
      constructor
      · rintro heq
        obtain rfl := (Prod.mk.inj (Option.some.inj heq)).2
        exact ⟨rfl, fun t ht => Option.some.inj ht ▸ hroom⟩
      · rintro ⟨rfl, -⟩
        rfl
    · have hfirst : ¬ ∀ t ∈ (s :: rest).head?, size < e.computePduHeaderSize t + 1 :=
        fun hall => hroom (hall s rfl)
      simp only [if_neg hroom, hfirst, and_false, false_or]
      rw [and_iff_right (Nat.not_lt.mp hroom)]
      by_cases hsplit : (e.takeHead s rest).computePduHeaderSize s + s.size > size
      · have hsplit' : size < e.computePduHeaderSize s + s.size := hsplit
        rw [if_pos hsplit, and_iff_right hsplit']
        rcases hparts : (e.takeHead s rest).resegment s size with ⟨_ | ⟨s', next⟩, e₁⟩
        · have hsegment : size < e.computePduHeaderSize { s with isLast := false } + 1 :=
            (resegment_eq_none hparts).1
          constructor
          · intro heq
            obtain rfl := (Prod.mk.inj (Option.some.inj heq)).2
            exact ⟨hsegment, s, rest, rfl, by rw [hparts]⟩
          · rintro ⟨-, t, ts, hcons, rfl⟩
            obtain ⟨rfl, rfl⟩ := List.cons.inj hcons
            rw [hparts]
        · have hsegment : e.computePduHeaderSize { s with isLast := false } + 1 ≤ size :=
            (resegment_eq_some hparts).1
          refine iff_of_false (fun heq => sendSegment_ne_nil heq rfl) fun hnot => ?_
          exact absurd hnot.1 (Nat.not_lt.mpr hsegment)
      · have hsplit' : ¬ size < e.computePduHeaderSize s + s.size := hsplit
        rw [if_neg hsplit]
        exact iff_of_false (fun heq => sendSegment_ne_nil heq rfl) fun hnot => hsplit' hnot.1.1

/-- Whenever no PDU is made the entity is unchanged, exactly when the grant is not of two bytes with
sequence numbers of 12 bits and a whole SDU of two bytes or more first in the list. -/
theorem keepsOnZero_iff (e : UmEntity) (size : ℕ) :
    (∀ e', e.generatePdu size = some ([], e') → e' = e) ↔
      ¬ (e.cfg.snFieldLength = .sn12 ∧ size = 2 ∧
        ∃ s ∈ e.txList.head?, s.isFirst = true ∧ s.isLast = true ∧ 2 ≤ s.size) := by
  rw [← losesHead_iff]
  constructor
  · intro hkeeps hloses
    have hhead := hloses
    obtain ⟨s, hs, -⟩ := hhead
    obtain ⟨rest, hlist⟩ := List.head?_eq_some_iff.mp hs
    have heq := hkeeps _ (generatePdu_eq_nil_iff.mpr (.inr ⟨hloses, s, rest, hlist, rfl⟩))
    -- the first segment is in the list no more
    have hrest : ((e.takeHead s rest).resegment s size).2.txList = rest := by
      rw [resegment]
      split_ifs <;> rfl
    rw [heq, hlist] at hrest
    exact List.cons_ne_self s rest hrest
  · intro hnot e' hnil
    rcases generatePdu_eq_nil_iff.mp hnil with ⟨rfl, -⟩ | ⟨hloses, -⟩
    · rfl
    · exact absurd hloses hnot

/-- An entity with sequence numbers of 12 bits and an SDU of three bytes to send. -/
def oneSduQueued : Option UmEntity :=
  (UmEntity.new ⟨.sn12, 35, 100, 100⟩).recvSdu [1, 2, 3] 0

/-- A grant of two bytes loses the SDU. -/
theorem not_keepsOnZero_oneSduQueued :
    ∃ e e', oneSduQueued = some e ∧ e.generatePdu 2 = some ([], e') ∧ e.txList ≠ [] ∧
      e'.txList = [] ∧ e' ≠ e := by
  refine ⟨_, _, rfl, rfl, by decide, rfl, fun heq => ?_⟩
  exact absurd (congrArg UmEntity.txList heq) (by decide)

end UmEntity

end LlmHric.Rlc
