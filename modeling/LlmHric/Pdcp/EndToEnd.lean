import LlmHric.Pdcp.Delivery
import LlmHric.Pdcp.PduRoundTrip
import LlmHric.Library.Run

/-! A transmitting entity numbers its SDUs, and a receiving one gets some of the PDUs, each as often
and in whatever order they arrive. It delivers what was submitted, in the order of COUNT and at most
once, as long as it can tell the COUNT of a PDU from its sequence number: because the COUNT is near
`rx_deliv`, or because a wrong COUNT does not pass the integrity check. -/

namespace LlmHric.Pdcp

/-! ### The link -/

/-- An SDU with the COUNT and the PDU it got. -/
structure SentSdu where
  count : UInt32
  buffer : List UInt8
  pdu : List UInt8
  deriving DecidableEq

/-- Two entities, the SDUs submitted to the first one, and how many of these there are up to the
latest one of which a PDU has arrived. -/
structure Link where
  tx : PdcpEntity
  rx : PdcpEntity
  sent : List SentSdu
  top : ℕ

/-- An SDU is submitted, a PDU arrives, or the time of the receiving entity goes on. A PDU that is
lost does not arrive. -/
inductive LinkOp
  | submit (buffer : List UInt8)
  | arrive (i : ℕ)
  | setTime (now : ℕ)

namespace Link

/-- Two new entities with the same keys. -/
def new (cfg cfg' : PdcpConfig) (parameters : SecurityParameters) : Link :=
  ⟨.new cfg parameters, .new cfg' parameters, [], 0⟩

/-- An operation; only a PDU that was sent can arrive. -/
def op (f : SecurityFunctions) (l : Link) : LinkOp → Option Link
  | .submit buffer =>
    match l.tx.processSdu f buffer with
    | (none, tx) => some { l with tx }
    | (some pdu, tx) => some { l with tx, sent := l.sent ++ [⟨l.tx.txNext, buffer, pdu⟩] }
  | .arrive i =>
    l.sent[i]?.map fun s => { l with rx := l.rx.recvPdu f s.pdu, top := max l.top (i + 1) }
  | .setTime now => some { l with rx := l.rx.setTime now }

/-- What is delivered was submitted, with the COUNT it is delivered with, and every SDU is delivered
at most once and in the order of COUNT. -/
structure Faithful (l : Link) : Prop where
  submitted : (l.rx.delivered.map fun x => (x.count, x.buffer)).Sublist
    (l.sent.map fun s => (s.count, s.buffer))
  increasing : l.rx.delivered.Pairwise fun x y => x.count < y.count

/-- A PDU arrives less than `window_size` behind the latest one that has arrived. -/
def Displaced (l : Link) : LinkOp → Prop
  | .arrive i => l.top ≤ i + l.rx.cfg.windowSize
  | _ => True

/-- A PDU that arrives is protected, or its COUNT is within `window_size` of `rx_deliv`. -/
def Distinguished (l : Link) : LinkOp → Prop
  | .arrive i => l.rx.integrity = none → ∀ s ∈ l.sent[i]?, l.rx.InWindow s.count.toNat
  | _ => True

end Link

/-- The integrity check of a PDU fails with any other COUNT than the one it was made with. -/
def AcceptsGenerated (f : SecurityFunctions) (tx rx : PdcpEntity) : Prop :=
  rx.integrity ≠ none → ∀ buffer count count',
    rx.integrityPasses f (rx.decipher f ({ tx with txNext := count }.pduOf f buffer) count')
      count' =
      true → count' = count

namespace PdcpEntity

variable {e : PdcpEntity} {sent : List SentSdu} {deliv count : UInt32} {l : List PdcpSdu} {n : ℕ}

/-! ### The invariant of the receiver -/

/-- An SDU is one that was submitted, with its COUNT. -/
def Genuine (sent : List SentSdu) (x : PdcpSdu) : Prop :=
  ∃ s, sent[x.count.toNat]? = some s ∧ s.buffer = x.buffer

/-- The SDUs that were delivered and those in the list were submitted, and stand in the order of
COUNT, with a COUNT between the two kinds. -/
structure InSequence (sent : List SentSdu) (deliv : UInt32) (e : PdcpEntity) : Prop where
  genuine (x : PdcpSdu) : x ∈ e.delivered ++ e.rxList → Genuine sent x
  increasing : (e.delivered ++ e.rxList).Pairwise fun x y => x.count < y.count
  delivered_lt (x : PdcpSdu) : x ∈ e.delivered → x.count < deliv
  le_stored (x : PdcpSdu) : x ∈ e.rxList → deliv ≤ x.count
  deliv_le : deliv.toNat ≤ sent.length
  rxNext_le : e.rxNext.toNat ≤ sent.length
  rxReord_le : e.rxReord.toNat ≤ sent.length

theorem Genuine.count_lt {x : PdcpSdu} (h : Genuine sent x) : x.count.toNat < sent.length := by
  obtain ⟨s, hs, -⟩ := h
  exact (List.getElem?_eq_some_iff.mp hs).1

theorem Genuine.append {x : PdcpSdu} (h : Genuine sent x) (sent' : List SentSdu) :
    Genuine (sent ++ sent') x := by
  obtain ⟨s, hs, hbuffer⟩ := h
  refine ⟨s, ?_, hbuffer⟩
  rw [List.getElem?_append_left (List.getElem?_eq_some_iff.mp hs).1]
  exact hs

namespace InSequence

theorem append (h : InSequence sent deliv e) (sent' : List SentSdu) :
    InSequence (sent ++ sent') deliv e := by
  have hle : sent.length ≤ (sent ++ sent').length := by
    rw [List.length_append]
    exact Nat.le_add_right _ _
  exact ⟨fun x hx => (h.genuine x hx).append sent', h.increasing, h.delivered_lt, h.le_stored,
    h.deliv_le.trans hle, h.rxNext_le.trans hle, h.rxReord_le.trans hle⟩

theorem delivers {pre rest : List PdcpSdu} {e' : PdcpEntity} (h : InSequence sent deliv e)
    (hdelivers : e.Delivers pre rest e') (hdeliv : deliv ≤ count)
    (hcount : count.toNat ≤ sent.length) (hpre : ∀ x ∈ pre, x.count < count)
    (hrest : ∀ x ∈ rest, count ≤ x.count) : InSequence sent count e' := by
  obtain ⟨hlist, rxSize, rfl⟩ := hdelivers
  have hall : e.delivered ++ pre ++ rest = e.delivered ++ e.rxList := by
    rw [hlist, List.append_assoc]
  refine ⟨hall ▸ h.genuine, hall ▸ h.increasing, fun x hx => ?_, hrest, hcount, h.rxNext_le,
    h.rxReord_le⟩
  rcases List.mem_append.mp hx with hx | hx
  · exact UInt32.lt_of_lt_of_le (h.delivered_lt x hx) hdeliv
  · exact hpre x hx

theorem sorted (h : InSequence sent deliv e) : e.rxList.Pairwise fun x y => x.count < y.count :=
  (List.pairwise_append.mp h.increasing).2.1

theorem stored_lt (h : InSequence sent deliv e) {x : PdcpSdu} (hx : x ∈ e.rxList) :
    x.count.toNat < sent.length :=
  (h.genuine x (List.mem_append_right _ hx)).count_lt

theorem deliverFrom (h : InSequence sent count e) (hn : sent.length < 4294967296) :
    InSequence sent (e.deliverFrom count).rxDeliv (e.deliverFrom count) := by
  obtain ⟨pre, rest, hdelivers, hge, hle, hpre, hrest⟩ := deliverConsecutive_spec rfl h.sorted
    h.le_stored (fun x hx => h.stored_lt hx) h.deliv_le hn
  have hnext := h.delivers hdelivers hge hle hpre hrest
  exact ⟨hnext.genuine, hnext.increasing, hnext.delivered_lt, hnext.le_stored, hnext.deliv_le,
    hnext.rxNext_le, hnext.rxReord_le⟩

theorem deliverBefore (h : InSequence sent deliv e) (hdeliv : deliv ≤ count)
    (hcount : count.toNat ≤ sent.length) :
    InSequence sent count (deliverBefore count e.rxList e) := by
  obtain ⟨pre, rest, hdelivers, hpre, hrest⟩ := deliverBefore_spec count rfl h.sorted
  exact h.delivers hdelivers hdeliv hcount hpre hrest

/-- The timer does not matter. -/
theorem stopTReordering (h : InSequence sent e.rxDeliv e) :
    InSequence sent e.stopTReordering.rxDeliv e.stopTReordering ∧ e.stopTReordering.Waits := by
  rw [PdcpEntity.stopTReordering]
  split_ifs with hstop
  · exact ⟨⟨h.genuine, h.increasing, h.delivered_lt, h.le_stored, h.deliv_le, h.rxNext_le,
      h.rxReord_le⟩, fun hne => absurd rfl hne⟩
  · refine ⟨h, fun hne => UInt32.not_le.mp fun hle => hstop ⟨hne, hle⟩⟩

theorem startTReordering (h : InSequence sent e.rxDeliv e) (hwaits : e.Waits) :
    InSequence sent e.startTReordering.rxDeliv e.startTReordering ∧ e.startTReordering.Waits := by
  rw [PdcpEntity.startTReordering]
  split_ifs with hstart
  · exact ⟨⟨h.genuine, h.increasing, h.delivered_lt, h.le_stored, h.deliv_le, h.rxNext_le,
      h.rxNext_le⟩, fun _ => hstart.2⟩
  · exact ⟨h, hwaits⟩

theorem storeSdu {sdu : PdcpSdu} (h : InSequence sent e.rxDeliv e)
    (hn : sent.length < 4294967296) (hsdu : Genuine sent sdu) (hle : e.rxDeliv ≤ sdu.count)
    (hne : ∀ x ∈ e.rxList, x.count ≠ sdu.count) (size : ℕ) :
    InSequence sent e.rxDeliv (e.storeSdu sdu size) := by
  have hsucc : (sdu.count + 1).toNat = sdu.count.toNat + 1 := by
    have := hsdu.count_lt
    rw [UInt32.toNat_add, UInt32.toNat_one, Nat.mod_eq_of_lt]
    omega
  refine ⟨fun x hx => ?_, List.pairwise_append.mpr ⟨(List.pairwise_append.mp h.increasing).1,
    pairwise_listAdd h.sorted hne, fun x hx y hy => ?_⟩, h.delivered_lt, fun x hx => ?_, h.deliv_le,
    ?_, h.rxReord_le⟩
  · rcases List.mem_append.mp hx with hx | hx
    · exact h.genuine x (List.mem_append_left _ hx)
    · rcases mem_listAdd.mp hx with rfl | hx
      · exact hsdu
      · exact h.genuine x (List.mem_append_right _ hx)
  · refine UInt32.lt_of_lt_of_le (h.delivered_lt x hx) ?_
    rcases mem_listAdd.mp hy with rfl | hy
    · exact hle
    · exact h.le_stored y hy
  · rcases mem_listAdd.mp hx with rfl | hx
    · exact hle
    · exact h.le_stored x hx
  · change (if sdu.count ≥ e.rxNext then sdu.count + 1 else e.rxNext).toNat ≤ sent.length
    split_ifs
    · rw [hsucc]
      exact hsdu.count_lt
    · exact h.rxNext_le

theorem acceptSdu {sdu : PdcpSdu} (h : InSequence sent e.rxDeliv e)
    (hn : sent.length < 4294967296) (hsdu : Genuine sent sdu) (hle : e.rxDeliv ≤ sdu.count)
    (hne : ∀ x ∈ e.rxList, x.count ≠ sdu.count) (size : ℕ) :
    InSequence sent (e.acceptSdu sdu size).rxDeliv (e.acceptSdu sdu size) ∧
      (e.acceptSdu sdu size).Waits := by
  have hstored := h.storeSdu hn hsdu hle hne size
  have hdelivered : ∀ e' : PdcpEntity, e' = (if sdu.count = (e.storeSdu sdu size).rxDeliv then
      (e.storeSdu sdu size).deliverFrom (e.storeSdu sdu size).rxDeliv else e.storeSdu sdu size) →
      InSequence sent e'.rxDeliv e' := by
    rintro e' rfl
    split_ifs
    · exact hstored.deliverFrom hn
    · exact hstored
  obtain ⟨hstop, hwaits⟩ := (hdelivered _ rfl).stopTReordering
  exact hstop.startTReordering hwaits

theorem checkTReordering (h : InSequence sent e.rxDeliv e) (hwaits : e.Waits)
    (hn : sent.length < 4294967296) :
    InSequence sent e.checkTReordering.rxDeliv e.checkTReordering ∧ e.checkTReordering.Waits := by
  rw [PdcpEntity.checkTReordering]
  split
  · exact ⟨h, hwaits⟩
  · split_ifs with hrunning
    · exact ⟨h, hwaits⟩
    · rw [not_or] at hrunning
      have hstopped : InSequence sent e.rxDeliv { e with tReorderingStart := 0 } :=
        ⟨h.genuine, h.increasing, h.delivered_lt, h.le_stored, h.deliv_le, h.rxNext_le,
          h.rxReord_le⟩
      have hbefore := hstopped.deliverBefore (UInt32.le_of_lt (hwaits hrunning.1)) h.rxReord_le
      set e₁ : PdcpEntity := { e with tReorderingStart := 0 }
      have hreord : (PdcpEntity.deliverBefore e.rxReord e₁.rxList e₁).rxReord = e.rxReord :=
        deliverBefore_frame (fun _ _ _ => rfl) _ _ _
      have hstart : (PdcpEntity.deliverBefore e.rxReord e₁.rxList e₁).tReorderingStart = 0 :=
        deliverBefore_frame (fun _ _ _ => rfl) _ _ _
      refine startTReordering ?_ fun hne => absurd ?_ hne
      · exact InSequence.deliverFrom (hreord.symm ▸ hbefore) hn
      · exact (deliverConsecutive_frame (fun _ _ _ => rfl) _ _ _).trans hstart

end InSequence

/-! ### What stays the same -/

/-- The configuration and the keys. -/
def security (e : PdcpEntity) :
    PdcpConfig × Option SecurityContext × Option SecurityContext :=
  (e.cfg, e.ciphering, e.integrity)

theorem security_deliverFrom (e : PdcpEntity) (count : UInt32) :
    (e.deliverFrom count).security = e.security :=
  deliverConsecutive_frame (g := security) (fun _ _ _ => rfl) _ _ _

theorem security_stopTReordering (e : PdcpEntity) : e.stopTReordering.security = e.security := by
  rw [stopTReordering]
  split_ifs <;> rfl

theorem security_startTReordering (e : PdcpEntity) : e.startTReordering.security = e.security := by
  rw [startTReordering]
  split_ifs <;> rfl

theorem security_recvPdu {f : SecurityFunctions} (e : PdcpEntity) (buffer : List UInt8) :
    (e.recvPdu f buffer).security = e.security := by
  rw [recvPdu]
  split
  · rfl
  · rw [acceptSdu, security_startTReordering, security_stopTReordering]
    split_ifs
    · exact security_deliverFrom _ _
    · rfl

theorem security_setTime (e : PdcpEntity) (now : ℕ) : (e.setTime now).security = e.security := by
  rw [setTime, checkTReordering]
  split
  · rfl
  · split_ifs
    · rfl
    · rw [security_startTReordering, security_deliverFrom]
      exact deliverBefore_frame (g := security) (fun _ _ _ => rfl) _ _ _

/-- Only the configuration and the keys matter. -/
theorem Peers.congr {tx rx rx' : PdcpEntity} (h : Peers tx rx) (heq : rx'.security = rx.security) :
    Peers tx rx' := by
  obtain ⟨hcfg, hkeys⟩ := Prod.mk.inj heq
  obtain ⟨hciphering, hintegrity⟩ := Prod.mk.inj hkeys
  refine ⟨?_, ?_, ?_, ?_, ?_, hciphering.trans h.ciphering, hintegrity.trans h.integrity⟩
  · exact hcfg ▸ h.entityType
  · exact hcfg ▸ h.snSize
  · exact hcfg ▸ h.rbId
  · exact hcfg ▸ h.hasSdap
  · exact hcfg ▸ h.isGnb

end PdcpEntity

theorem AcceptsGenerated.congr {f : SecurityFunctions} {tx rx rx' : PdcpEntity}
    (h : AcceptsGenerated f tx rx) (heq : rx'.security = rx.security) :
    AcceptsGenerated f tx rx' := by
  obtain ⟨hcfg, hkeys⟩ := Prod.mk.inj heq
  obtain ⟨hciphering, hintegrity⟩ := Prod.mk.inj hkeys
  have hdecipher : rx'.decipher f = rx.decipher f := by
    funext buffer count
    rw [PdcpEntity.decipher, PdcpEntity.decipher, PdcpEntity.clearSize, PdcpEntity.clearSize, hcfg,
      hciphering]
  have hpasses : rx'.integrityPasses f = rx.integrityPasses f := by
    funext buffer count
    rw [PdcpEntity.integrityPasses, PdcpEntity.integrityPasses, PdcpEntity.integritySize,
      PdcpEntity.integritySize, hcfg, hintegrity]
  intro hne
  rw [hpasses, hdecipher]
  exact h (hintegrity ▸ hne)

namespace Link

variable {f : SecurityFunctions} {l l' : Link}

/-! ### The invariant of the link -/

/-- The invariant of the link, as long as the COUNTs do not come round. -/
structure Inv (f : SecurityFunctions) (l : Link) : Prop where
  peers : PdcpEntity.Peers l.tx l.rx
  acceptsGenerated : AcceptsGenerated f l.tx l.rx
  txNext : l.tx.txNext.toNat = l.sent.length
  sent (i : ℕ) (s : SentSdu) : l.sent[i]? = some s → s.count.toNat = i ∧
    s.pdu = { l.tx with txNext := s.count }.pduOf f s.buffer
  inSequence : PdcpEntity.InSequence l.sent l.rx.rxDeliv l.rx
  waits : l.rx.Waits

/-- The receiving entity changes, and keeps its keys. -/
theorem Inv.receive {rx : PdcpEntity} (h : l.Inv f) (hsecurity : rx.security = l.rx.security)
    (hseq : PdcpEntity.InSequence l.sent rx.rxDeliv rx) (hwaits : rx.Waits) (top : ℕ) :
    Inv f { l with rx, top } :=
  ⟨h.peers.congr hsecurity, h.acceptsGenerated.congr hsecurity, h.txNext, h.sent, hseq, hwaits⟩

theorem Inv.arrive {i : ℕ} {s : SentSdu} (h : l.Inv f) (hcipher : InvolutiveCipher f)
    (hn : l.sent.length < 4294967296) (hs : l.sent[i]? = some s)
    (hwindow : l.rx.integrity = none → l.rx.InWindow s.count.toNat) (top : ℕ) :
    Inv f { l with rx := l.rx.recvPdu f s.pdu, top } := by
  obtain ⟨hcount, hpdu⟩ := h.sent i s hs
  have hpeers := h.peers.setTxNext s.count
  have hseq : PdcpEntity.InSequence l.sent (l.rx.recvPdu f s.pdu).rxDeliv (l.rx.recvPdu f s.pdu) ∧
      (l.rx.recvPdu f s.pdu).Waits := by
    rw [PdcpEntity.recvPdu]
    split
    · exact ⟨h.inSequence, h.waits⟩
    · next sdu hsdu =>
      rw [hpdu] at hsdu
      obtain ⟨hinferred, hle, hne, hpasses, -⟩ := PdcpEntity.receivedSdu_pduOf hpeers hsdu
      have hsame : sdu.count = s.count := by
        by_cases hnone : l.rx.integrity = none
        · rw [hinferred, PdcpEntity.txNextSn_eq, ← hpeers.snModulus]
          exact PdcpEntity.rcvdCount_eq (hwindow hnone)
        · exact h.acceptsGenerated hnone _ _ _ hpasses
      have hbuffer := PdcpEntity.buffer_of_receivedSdu hpeers hcipher hsdu hsame
      refine h.inSequence.acceptSdu hn ⟨s, ?_, hbuffer.symm⟩ hle hne _
      rw [hsame, hcount]
      exact hs
  exact h.receive (PdcpEntity.security_recvPdu _ _) hseq.1 hseq.2 top

theorem op_submit {buffer : List UInt8} (h : l.tx.entitySuspended = false) :
    l.op f (.submit buffer) = some { l with
      tx := { l.tx with txNext := l.tx.txNext + 1 }
      sent := l.sent ++ [⟨l.tx.txNext, buffer, l.tx.pduOf f buffer⟩] } := by
  rw [op, PdcpEntity.processSdu, if_neg (Bool.not_eq_true _ ▸ h)]

theorem Inv.submit {buffer : List UInt8} (h : l.Inv f) (hl : l.op f (.submit buffer) = some l')
    (hn : l'.sent.length < 4294967296) : l'.Inv f := by
  by_cases hsuspended : l.tx.entitySuspended
  · rw [op, PdcpEntity.processSdu, if_pos hsuspended] at hl
    obtain rfl := Option.some.inj hl
    exact h
  · rw [op_submit (Bool.not_eq_true _ ▸ hsuspended)] at hl
    obtain rfl := Option.some.inj hl
    set s : SentSdu := ⟨l.tx.txNext, buffer, l.tx.pduOf f buffer⟩
    have hlen : (l.sent ++ [s]).length = l.sent.length + 1 := List.length_append
    have hn' : l.sent.length + 1 < 4294967296 := hlen ▸ hn
    refine ⟨h.peers.setTxNext _, h.acceptsGenerated, ?_, fun i s' hs' => ?_,
      h.inSequence.append [s], h.waits⟩
    · change (l.tx.txNext + 1).toNat = (l.sent ++ [s]).length
      rw [hlen, UInt32.toNat_add, UInt32.toNat_one, h.txNext, Nat.mod_eq_of_lt hn']
    · have hs' : (l.sent ++ [s])[i]? = some s' := hs'
      rcases Nat.lt_trichotomy i l.sent.length with hlt | rfl | hlt
      · rw [List.getElem?_append_left hlt] at hs'
        exact h.sent i s' hs'
      · rw [List.getElem?_concat_length] at hs'
        obtain rfl := Option.some.inj hs'
        exact ⟨h.txNext, rfl⟩
      · rw [List.getElem?_eq_none (by rw [hlen]; exact hlt)] at hs'
        cases hs'

theorem length_sent_le {op : LinkOp} (hl : l.op f op = some l') :
    l.sent.length ≤ l'.sent.length := by
  cases op with
  | submit buffer =>
    rw [Link.op] at hl
    split at hl
    · obtain rfl := Option.some.inj hl
      exact le_rfl
    · obtain rfl := Option.some.inj hl
      exact List.length_append ▸ Nat.le_add_right _ _
  | arrive i =>
    obtain ⟨s, -, rfl⟩ := Option.map_eq_some_iff.mp hl
    exact le_rfl
  | setTime now =>
    obtain rfl := Option.some.inj hl
    exact le_rfl

/-- Every operation keeps the invariant. -/
theorem Inv.op {op : LinkOp} (h : l.Inv f) (hcipher : InvolutiveCipher f)
    (hdistinguished : l.Distinguished op) (hl : l.op f op = some l')
    (hn : l'.sent.length < 4294967296) : l'.Inv f := by
  cases op with
  | submit buffer => exact h.submit hl hn
  | arrive i =>
    obtain ⟨s, hs, rfl⟩ := Option.map_eq_some_iff.mp hl
    exact h.arrive hcipher hn hs (fun hnone => hdistinguished hnone s hs) _
  | setTime now =>
    obtain rfl := Option.some.inj hl
    obtain ⟨hseq, hwaits⟩ := PdcpEntity.InSequence.checkTReordering
      (e := { l.rx with tCurrent := now }) ⟨h.inSequence.genuine, h.inSequence.increasing,
        h.inSequence.delivered_lt, h.inSequence.le_stored, h.inSequence.deliv_le,
        h.inSequence.rxNext_le, h.inSequence.rxReord_le⟩ h.waits hn
    exact h.receive (PdcpEntity.security_setTime _ now) hseq hwaits l.top

theorem inv_new {cfg cfg' : PdcpConfig} {parameters : SecurityParameters}
    (hpeers : PdcpEntity.Peers (.new cfg parameters) (.new cfg' parameters))
    (haccepts : AcceptsGenerated f (.new cfg parameters) (.new cfg' parameters)) :
    (new cfg cfg' parameters).Inv f := by
  refine ⟨hpeers, haccepts, rfl, fun i s hs => ?_, ⟨?_, .nil, ?_, ?_, le_rfl, le_rfl, le_rfl⟩,
    fun hne => absurd rfl hne⟩
  · cases hs
  · exact fun x hx => absurd hx List.not_mem_nil
  · exact fun x hx => absurd hx List.not_mem_nil
  · exact fun x hx => absurd hx List.not_mem_nil

/-- What was delivered is part of what was submitted. -/
theorem Inv.faithful (h : l.Inv f) : l.Faithful := by
  have hincreasing := (List.pairwise_append.mp h.inSequence.increasing).1
  refine ⟨?_, hincreasing⟩
  -- both lists are made of the numbers of the SDUs
  set number : ℕ → UInt32 × List UInt8 := fun i =>
    (.ofNat i, (l.sent[i]?.map SentSdu.buffer).getD [])
  have hsent : l.sent.map (fun s => (s.count, s.buffer)) =
      (List.range l.sent.length).map number := by
    refine List.ext_getElem? fun i => ?_
    rw [List.getElem?_map, List.getElem?_map]
    cases hs : l.sent[i]? with
    | none =>
      rw [List.getElem?_eq_none (by simpa using hs)]
      rfl
    | some s =>
      rw [List.getElem?_range (List.getElem?_eq_some_iff.mp hs).1]
      have hcount : UInt32.ofNat i = s.count := by
        rw [← (h.sent i s hs).1, UInt32.ofNat_toNat]
      simp [number, hs, hcount]
  have hdelivered : l.rx.delivered.map (fun x => (x.count, x.buffer)) =
      (l.rx.delivered.map (·.count.toNat)).map number := by
    rw [List.map_map]
    refine List.map_congr_left fun x hx => ?_
    obtain ⟨s, hs, hbuffer⟩ := h.inSequence.genuine x (List.mem_append_left _ hx)
    simp [number, hs, hbuffer]
  rw [hsent, hdelivered]
  refine List.Sublist.map _ ?_
  have hsorted : (l.rx.delivered.map (·.count.toNat)).Pairwise (· < ·) :=
    List.pairwise_map.mpr (hincreasing.imp UInt32.lt_iff_toNat_lt.mp)
  refine Window.sublist_range_of_increasing hsorted fun i hi => ?_
  obtain ⟨x, hx, rfl⟩ := List.mem_map.mp hi
  exact (h.inSequence.genuine x (List.mem_append_left _ hx)).count_lt

end Link

/-! ### Runs -/

/-- A run of a link in which every step satisfies a condition. -/
abbrev LinkRun (f : SecurityFunctions) (cfg cfg' : PdcpConfig) (parameters : SecurityParameters)
    (ok : Link → LinkOp → Prop) (ops : List LinkOp) (l : Link) : Prop :=
  Run.Reach (fun op l l' => ok l op ∧ l.op f op = some l') (· = .new cfg cfg' parameters) ops l

/-- Fewer than `2 ^ 32` SDUs are delivered as they were submitted, if every PDU that arrives is
protected or near `rx_deliv`. -/
theorem faithful_of_run {f : SecurityFunctions} {cfg cfg' : PdcpConfig}
    {parameters : SecurityParameters} {ops : List LinkOp} {l : Link} (hcipher : InvolutiveCipher f)
    (hpeers : PdcpEntity.Peers (.new cfg parameters) (.new cfg' parameters))
    (haccepts : AcceptsGenerated f (.new cfg parameters) (.new cfg' parameters))
    (hrun : LinkRun f cfg cfg' parameters Link.Distinguished ops l)
    (hcount : l.sent.length < 2 ^ 32) : l.Faithful := by
  have hinv : l.sent.length < 4294967296 → l.Inv f := by
    refine hrun.invariant (I := fun l => l.sent.length < 4294967296 → l.Inv f) ?_ ?_
    · rintro l rfl -
      exact Link.inv_new hpeers haccepts
    · rintro op l l' ih ⟨hdistinguished, hl⟩ hn
      exact (ih ((Link.length_sent_le hl).trans_lt hn)).op hcipher hdistinguished hl hn
  exact (hinv hcount).faithful

theorem Link.integrity_op {f : SecurityFunctions} {l l' : Link} {op : LinkOp}
    (hl : l.op f op = some l') : l'.rx.integrity = l.rx.integrity := by
  cases op with
  | submit buffer =>
    rw [Link.op] at hl
    split at hl
    · obtain rfl := Option.some.inj hl
      rfl
    · obtain rfl := Option.some.inj hl
      rfl
  | arrive i =>
    obtain ⟨s, -, rfl⟩ := Option.map_eq_some_iff.mp hl
    exact congrArg (·.2.2) (PdcpEntity.security_recvPdu l.rx s.pdu)
  | setTime now =>
    obtain rfl := Option.some.inj hl
    exact congrArg (·.2.2) (PdcpEntity.security_setTime l.rx now)

/-- With integrity protection every PDU may arrive. -/
theorem LinkRun.of_protected {f : SecurityFunctions} {cfg cfg' : PdcpConfig}
    {parameters : SecurityParameters} {ops ops' : List LinkOp} {l l' : Link}
    (hrun : LinkRun f cfg cfg' parameters Link.Distinguished ops l) (hne : l.rx.integrity ≠ none)
    (hl : ops'.foldlM (Link.op f) l = some l') :
    LinkRun f cfg cfg' parameters Link.Distinguished (ops ++ ops') l' := by
  induction ops' generalizing ops l with
  | nil =>
    obtain rfl := Option.some.inj hl
    rwa [List.append_nil]
  | cons op ops' ih =>
    obtain ⟨l₁, hl₁, hl⟩ := Option.bind_eq_some_iff.mp (List.foldlM_cons.symm.trans hl)
    have hdistinguished : l.Distinguished op := by
      cases op with
      | arrive i => exact fun hnone => absurd hnone hne
      | _ => trivial
    have hnext := ih (hrun.step ⟨hdistinguished, hl₁⟩) (Link.integrity_op hl₁ ▸ hne) hl
    rwa [List.append_assoc] at hnext

def countBytes (count : UInt32) : Vector UInt8 4 :=
  ⟨#[count.toUInt8, (count >>> 8).toUInt8, (count >>> 16).toUInt8, (count >>> 24).toUInt8], rfl⟩

theorem countBytes_inj {count count' : UInt32}
    (h : (countBytes count).toList = (countBytes count').toList) : count = count' := by
  have hbytes : [count.toUInt8, (count >>> 8).toUInt8, (count >>> 16).toUInt8,
      (count >>> 24).toUInt8] = [count'.toUInt8, (count' >>> 8).toUInt8,
      (count' >>> 16).toUInt8, (count' >>> 24).toUInt8] := h
  simp only [List.cons.injEq, and_true, ← UInt8.toNat_inj, UInt32.toNat_toUInt8,
    UInt32.toNat_shiftRight, UInt32.reduceToNat, Nat.reduceMod, Nat.shiftRight_eq_div_pow] at hbytes
  have hlt := count.toNat_lt
  have hlt' := count'.toNat_lt
  apply UInt32.toNat_inj.mp
  omega

/-- The bits of a buffer are flipped, and the MAC-I is the COUNT. -/
def flipFunctions : SecurityFunctions where
  cipher := fun _ buffer _ _ _ => buffer.map (· ^^^ 0xff)
  integrity := fun _ _ _ count _ => countBytes count
  length_cipher := fun _ _ _ _ _ => List.length_map _

theorem involutiveCipher_flipFunctions : InvolutiveCipher flipFunctions := by
  intro ctx buffer bearer count direction
  change (buffer.map (· ^^^ 0xff)).map (· ^^^ 0xff) = buffer
  rw [List.map_map]
  refine List.map_id'' (fun b => ?_) buffer
  change b ^^^ 0xff ^^^ 0xff = b
  rw [UInt8.xor_assoc, UInt8.xor_self, UInt8.xor_zero]

/-- A wrong COUNT is not the one behind the SDU. -/
theorem acceptsGenerated_flipFunctions {tx rx : PdcpEntity} (hpeers : PdcpEntity.Peers tx rx) :
    AcceptsGenerated flipFunctions tx rx := by
  intro hne buffer count count' hpasses
  obtain ⟨ctx, hctx⟩ := Option.ne_none_iff_exists'.mp hne
  have hpeers' := hpeers.setTxNext count
  set tx' : PdcpEntity := { tx with txNext := count }
  set plain := tx'.pduHeader tx'.txNextSn ++ buffer
  have hmac : tx'.pduMac flipFunctions plain = (countBytes count).toList := by
    have hctx' : tx'.integrity = some ctx := hpeers.integrity.symm.trans hctx
    rw [PdcpEntity.pduMac, hctx']
    rfl
  -- the COUNT does not matter for deciphering
  have hplain : rx.decipher flipFunctions (tx'.pduOf flipFunctions buffer) count' =
      plain ++ (countBytes count).toList := by
    rw [← hmac]
    exact PdcpEntity.decipher_encipher hpeers' involutiveCipher_flipFunctions
  have hsize : rx.integritySize = 4 := by
    rw [PdcpEntity.integritySize, hctx]
    rfl
  have hdrop : (plain ++ (countBytes count).toList).drop
      ((plain ++ (countBytes count).toList).length - 4) = (countBytes count).toList := by
    have hlength : (plain ++ (countBytes count).toList).length = plain.length + 4 :=
      List.length_append
    rw [hlength, Nat.add_sub_cancel]
    exact List.drop_left
  rw [hplain, PdcpEntity.integrityPasses, hctx, hsize, hdrop] at hpasses
  exact countBytes_inj (beq_iff_eq.mp hpasses)

/-- The other end of a bearer. -/
def peerConfig (cfg : PdcpConfig) : PdcpConfig :=
  { cfg with isGnb := !cfg.isGnb, hasSdapRx := cfg.hasSdapTx, hasSdapTx := cfg.hasSdapRx }

theorem peers_peerConfig (cfg : PdcpConfig) (parameters : SecurityParameters) :
    PdcpEntity.Peers (.new cfg parameters) (.new (peerConfig cfg) parameters) :=
  ⟨rfl, rfl, rfl, rfl, rfl, rfl, rfl⟩

/-- Both algorithms are on. -/
def fullSecurity : SecurityParameters := ⟨.use .two, .use .two, [], []⟩

/-- Two protected PDUs arrive in the wrong order, and one of them twice. -/
theorem faithful_out_of_order : ∃ l, LinkRun flipFunctions srbConfig (peerConfig srbConfig)
    fullSecurity Link.Distinguished [.submit [1], .submit [2], .arrive 1, .arrive 0, .arrive 0] l ∧
    l.rx.delivered.map (·.buffer) = [[1], [2]] ∧ l.Faithful := by
  obtain ⟨l, hl, hdelivered, hsent⟩ :
      ∃ l, [.submit [1], .submit [2], .arrive 1, .arrive 0, .arrive 0].foldlM
          (Link.op flipFunctions) (.new srbConfig (peerConfig srbConfig) fullSecurity) = some l ∧
        l.rx.delivered.map (·.buffer) = [[1], [2]] ∧ l.sent.length < 2 ^ 32 := by
    refine ⟨_, rfl, ?_, ?_⟩ <;> decide +kernel
  have hnew : LinkRun flipFunctions srbConfig (peerConfig srbConfig) fullSecurity
      Link.Distinguished [] (.new srbConfig (peerConfig srbConfig) fullSecurity) := .start rfl
  have hrun := hnew.of_protected (by decide) hl
  refine ⟨l, hrun, hdelivered, faithful_of_run involutiveCipher_flipFunctions
    (peers_peerConfig ..) ?_ hrun hsent⟩
  exact acceptsGenerated_flipFunctions (peers_peerConfig ..)

/-! ### Without integrity protection -/

/-- In every run in which every step satisfies a condition, what is delivered is what was
submitted. -/
def DeliversFaithfully (ok : Link → LinkOp → Prop) : Prop :=
  ∀ f cfg cfg' parameters ops l, InvolutiveCipher f →
    PdcpEntity.Peers (.new cfg parameters) (.new cfg' parameters) →
    AcceptsGenerated f (.new cfg parameters) (.new cfg' parameters) →
    LinkRun f cfg cfg' parameters ok ops l → l.Faithful

/-- A cipher that depends on the low byte of the HFN of 12 bit sequence numbers. -/
def hfnFunctions : SecurityFunctions where
  cipher := fun _ buffer _ count _ => buffer.map (· ^^^ (count >>> 12).toUInt8)
  integrity := fun _ _ _ count _ => countBytes count
  length_cipher := fun _ _ _ _ _ => List.length_map _

theorem involutiveCipher_hfnFunctions : InvolutiveCipher hfnFunctions := by
  intro ctx buffer bearer count direction
  change (buffer.map (· ^^^ (count >>> 12).toUInt8)).map (· ^^^ (count >>> 12).toUInt8) = buffer
  rw [List.map_map]
  refine List.map_id'' (fun b => ?_) buffer
  change b ^^^ (count >>> 12).toUInt8 ^^^ (count >>> 12).toUInt8 = b
  rw [UInt8.xor_assoc, UInt8.xor_self, UInt8.xor_zero]

/-- Ciphering without integrity protection. -/
def cipherOnly : SecurityParameters := ⟨.off, .use .two, [], []⟩

/-- The PDU of an SDU that was submitted as the `n`th one. -/
def lostPdu (n : ℕ) : List UInt8 :=
  { PdcpEntity.new drbConfig cipherOnly with txNext := .ofNat n }.pduOf hfnFunctions [0]

/-- Some SDUs are submitted, and no PDU arrives. -/
theorem exists_submits (n : ℕ) : ∃ l,
    LinkRun hfnFunctions drbConfig (peerConfig drbConfig) cipherOnly Link.Displaced
      (List.replicate n (.submit [0])) l ∧
    l.tx = { PdcpEntity.new drbConfig cipherOnly with txNext := .ofNat n } ∧
    l.rx = .new (peerConfig drbConfig) cipherOnly ∧ l.top = 0 ∧
    l.sent = (List.range n).map fun i => ⟨.ofNat i, [0], lostPdu i⟩ := by
  induction n with
  | zero => exact ⟨_, .start rfl, rfl, rfl, rfl, rfl⟩
  | succ n ih =>
    obtain ⟨l, hrun, htx, hrx, htop, hsent⟩ := ih
    have hactive : l.tx.entitySuspended = false := by
      rw [htx]
      rfl
    rw [List.replicate_succ']
    refine ⟨_, hrun.step ⟨trivial, Link.op_submit hactive⟩, ?_, hrx, htop, ?_⟩
    · rw [htx]
      dsimp only
      rw [UInt32.ofNat_add]
      rfl
    · rw [List.range_succ, List.map_append, htx, hsent]
      rfl

/-- The first 4096 PDUs are lost, and the next one is taken for the first one. -/
theorem not_deliversFaithfully_displaced : ¬ DeliversFaithfully Link.Displaced := by
  intro hdelivers
  obtain ⟨l, hrun, -, hrx, htop, hsent⟩ := exists_submits 4097
  have hs : l.sent[4096]? = some ⟨.ofNat 4096, [0], lostPdu 4096⟩ := by
    rw [hsent, List.getElem?_map, List.getElem?_range (by decide)]
    rfl
  have hop : l.op hfnFunctions (.arrive 4096) = some { l with
      rx := l.rx.recvPdu hfnFunctions (lostPdu 4096), top := max l.top 4097 } := by
    rw [Link.op, hs]
    rfl
  have hdisplaced : l.Displaced (.arrive 4096) := by
    change l.top ≤ _
    rw [htop]
    exact Nat.zero_le _
  have hfaithful := hdelivers hfnFunctions drbConfig (peerConfig drbConfig) cipherOnly _ _
    involutiveCipher_hfnFunctions (peers_peerConfig ..) (fun hne => absurd rfl hne)
    (hrun.step ⟨hdisplaced, hop⟩)
  have hdelivered :
      (l.rx.recvPdu hfnFunctions (lostPdu 4096)).delivered.map (·.buffer) = [[1]] := by
    rw [hrx]
    decide +kernel
  -- the SDU that is delivered was not submitted
  have hmem : [1] ∈ l.sent.map (·.buffer) := by
    have hsub := hfaithful.submitted.map Prod.snd
    rw [List.map_map, List.map_map] at hsub
    refine hsub.subset ?_
    change [1] ∈ (l.rx.recvPdu hfnFunctions (lostPdu 4096)).delivered.map (·.buffer)
    rw [hdelivered]
    exact List.mem_singleton_self _
  rw [hsent, List.map_map] at hmem
  obtain ⟨i, -, hi⟩ := List.mem_map.mp hmem
  cases hi

/-! ### When the COUNT comes round -/

/-- Everything up to a COUNT has been delivered, and nothing is protected. -/
structure UpToDate (count : UInt32) (e : PdcpEntity) : Prop where
  rxList : e.rxList = []
  rxDeliv : e.rxDeliv = count
  rxNext : e.rxNext = count
  tReorderingStart : e.tReorderingStart = 0
  active : e.entitySuspended = false
  integrity : e.integrity = none

theorem UpToDate.acceptSdu {count : UInt32} {e : PdcpEntity} {sdu : PdcpSdu}
    (h : UpToDate count e) (hsdu : sdu.count = count) (size : ℕ) :
    UpToDate (count + 1) (e.acceptSdu sdu size) ∧
      (e.acceptSdu sdu size).delivered = e.delivered ++ [sdu] := by
  obtain ⟨hlist, hdeliv, hnext, hstart, hactive, hintegrity⟩ := h
  have hdelivered : (e.storeSdu sdu size).deliverFrom count = { e with
      rxList := []
      rxNext := count + 1
      rxDeliv := count + 1
      rxSize := e.rxSize + (size - e.cfg.snSize.headerSize) - sdu.buffer.length
      delivered := e.delivered ++ [sdu] } := by
    simp [PdcpEntity.deliverFrom, PdcpEntity.storeSdu, hlist, PdcpEntity.listAdd,
      PdcpEntity.deliverConsecutive, PdcpEntity.deliverHead, hsdu, hnext]
  have haccept : e.acceptSdu sdu size = (e.storeSdu sdu size).deliverFrom count := by
    have hcount : sdu.count = (e.storeSdu sdu size).rxDeliv := hsdu.trans hdeliv.symm
    rw [PdcpEntity.acceptSdu, if_pos hcount, ← hcount, hsdu, hdelivered]
    simp [PdcpEntity.stopTReordering, PdcpEntity.startTReordering, hstart]
  rw [haccept, hdelivered]
  exact ⟨⟨rfl, rfl, rfl, hstart, hactive, hintegrity⟩, rfl⟩

theorem UpToDate.receivedSdu {f : SecurityFunctions} {tx rx : PdcpEntity} {buffer : List UInt8}
    (h : UpToDate tx.txNext rx) (hpeers : PdcpEntity.Peers tx rx)
    (hsdap : rx.cfg.hasSdapRx = false) (hbuffer : buffer ≠ []) :
    ∃ sdu, rx.receivedSdu f (tx.pduOf f buffer) = some sdu ∧ sdu.count = tx.txNext := by
  have hlength := tx.length_pduOf f buffer
  have hpos := List.length_pos_iff.mpr hbuffer
  have hcount : rx.rcvdCount tx.txNextSn = tx.txNext := by
    have hwindow := rx.cfg.windowSize_pos
    rw [PdcpEntity.txNextSn_eq, ← hpeers.snModulus]
    refine PdcpEntity.rcvdCount_eq ⟨?_, ?_⟩
    · rw [h.rxDeliv]
      omega
    · rw [h.rxDeliv]
      omega
  have hroom : ¬ (tx.pduOf f buffer).length <
      rx.clearSize rx.cfg.hasSdapRx + rx.integritySize + 1 := by
    rw [hlength, PdcpEntity.clearSize, hsdap, hpeers.integritySize, hpeers.snSize]
    simp only [Bool.false_eq_true, if_false]
    omega
  have hsome : rx.receivedSdu f (tx.pduOf f buffer) ≠ none := by
    rw [PdcpEntity.receivedSdu, if_neg (Bool.not_eq_true _ ▸ h.active), if_neg (by omega),
      if_neg hroom, PdcpEntity.setDataBit_pduOf hpeers, PdcpEntity.rcvdSn_pduOf hpeers,
      PdcpEntity.checkedSdu, PdcpEntity.integrityPasses, h.integrity, h.rxList, h.rxDeliv, hcount]
    simp [PdcpEntity.sduInList]
  obtain ⟨sdu, hsdu⟩ := Option.ne_none_iff_exists'.mp hsome
  exact ⟨sdu, hsdu, (PdcpEntity.receivedSdu_pduOf hpeers hsdu).1.trans hcount⟩

/-- SDUs are submitted, and every PDU arrives at once. -/
def losslessOps (n : ℕ) : List LinkOp := (List.range n).flatMap fun i => [.submit [0], .arrive i]

/-- All SDUs are delivered. -/
theorem exists_lossless (n : ℕ) : ∃ l,
    LinkRun plainFunctions drbConfig (peerConfig drbConfig) noSecurity
      (fun l op => l.Displaced op ∧ l.Distinguished op) (losslessOps n) l ∧
    l.tx = { PdcpEntity.new drbConfig noSecurity with txNext := .ofNat n } ∧
    l.rx.security = (PdcpEntity.new (peerConfig drbConfig) noSecurity).security ∧
    UpToDate (.ofNat n) l.rx ∧ l.sent.length = n ∧ l.top = n ∧
    l.rx.delivered.map (·.count) = (List.range n).map .ofNat := by
  induction n with
  | zero => exact ⟨_, .start rfl, rfl, rfl, ⟨rfl, rfl, rfl, rfl, rfl, rfl⟩, rfl, rfl, rfl⟩
  | succ n ih =>
    obtain ⟨l, hrun, htx, hsecurity, hupToDate, hlength, htop, hdelivered⟩ := ih
    have hactive : l.tx.entitySuspended = false := by
      rw [htx]
      rfl
    have hpeers : PdcpEntity.Peers l.tx l.rx := by
      rw [htx]
      exact ((peers_peerConfig drbConfig noSecurity).congr hsecurity).setTxNext _
    have hcfg : l.rx.cfg = peerConfig drbConfig := congrArg Prod.fst hsecurity
    have hnext : l.tx.txNext = .ofNat n := by
      rw [htx]
    -- the SDU is submitted
    set s : SentSdu := ⟨l.tx.txNext, [0], l.tx.pduOf plainFunctions [0]⟩
    have hsubmit : l.op plainFunctions (.submit [0]) = some { l with
        tx := { l.tx with txNext := l.tx.txNext + 1 }, sent := l.sent ++ [s] } :=
      Link.op_submit hactive
    set l₁ : Link := { l with
      tx := { l.tx with txNext := l.tx.txNext + 1 }, sent := l.sent ++ [s] }
    -- its PDU arrives
    have hs : l₁.sent[n]? = some s := by
      rw [← hlength]
      exact List.getElem?_concat_length
    have hsdap : l.rx.cfg.hasSdapRx = false := by
      rw [hcfg]
      rfl
    obtain ⟨sdu, hsdu, hcount⟩ : ∃ sdu, l.rx.receivedSdu plainFunctions s.pdu = some sdu ∧
        sdu.count = l.tx.txNext :=
      UpToDate.receivedSdu (hnext ▸ hupToDate) hpeers hsdap (by decide)
    have hrecv : l.rx.recvPdu plainFunctions s.pdu = l.rx.acceptSdu sdu s.pdu.length := by
      rw [PdcpEntity.recvPdu, hsdu]
    obtain ⟨hupToDate', hdelivered'⟩ := hupToDate.acceptSdu (hcount.trans hnext) s.pdu.length
    have harrive : l₁.op plainFunctions (.arrive n) = some { l₁ with
        rx := l.rx.recvPdu plainFunctions s.pdu, top := max l₁.top (n + 1) } := by
      rw [Link.op, hs]
      rfl
    have hops : losslessOps (n + 1) = losslessOps n ++ [.submit [0]] ++ [.arrive n] := by
      rw [losslessOps, losslessOps, List.range_succ, List.flatMap_append]
      simp
    rw [hops]
    have hsucc : UInt32.ofNat n + 1 = .ofNat (n + 1) := by
      rw [UInt32.ofNat_add]
      rfl
    have hrun₁ := hrun.step (a := LinkOp.submit [0]) ⟨⟨trivial, trivial⟩, hsubmit⟩
    refine ⟨_, hrun₁.step ⟨⟨?_, ?_⟩, harrive⟩, ?_, ?_, ?_, ?_, ?_, ?_⟩
    · change l.top ≤ n + _
      rw [htop]
      exact Nat.le_add_right _ _
    · intro _ s' hs'
      obtain rfl := Option.some.inj (hs.symm.trans hs')
      have hwindow := l.rx.cfg.windowSize_pos
      change l.rx.InWindow l.tx.txNext.toNat
      rw [PdcpEntity.InWindow, hupToDate.rxDeliv, hnext]
      omega
    · change { l.tx with txNext := l.tx.txNext + 1 } = _
      rw [htx]
      dsimp only
      rw [hsucc]
    · exact (PdcpEntity.security_recvPdu _ _).trans hsecurity
    · change UpToDate _ (l.rx.recvPdu plainFunctions s.pdu)
      rw [hrecv, ← hsucc]
      exact hupToDate'
    · change (l.sent ++ [s]).length = n + 1
      rw [List.length_append, hlength]
      rfl
    · change max l.top (n + 1) = n + 1
      rw [htop]
      exact Nat.max_eq_right (Nat.le_succ n)
    · change (l.rx.recvPdu plainFunctions s.pdu).delivered.map (·.count) = _
      rw [hrecv, hdelivered', List.map_append, hdelivered, List.range_succ, List.map_append]
      simp [hcount, hnext]

/-- After `2 ^ 32` SDUs the COUNT starts again. -/
theorem not_deliversFaithfully_distinguished :
    ¬ DeliversFaithfully fun l op => l.Displaced op ∧ l.Distinguished op := by
  intro hdelivers
  obtain ⟨l, hrun, -, -, -, -, -, hcounts⟩ := exists_lossless (2 ^ 32 + 1)
  have hfaithful := hdelivers plainFunctions drbConfig (peerConfig drbConfig) noSecurity _ _
    (fun _ _ _ _ _ => rfl) (peers_peerConfig ..) (fun hne => absurd rfl hne) hrun
  have hincreasing := List.pairwise_map.mpr hfaithful.increasing
  rw [hcounts] at hincreasing
  have hlt := List.pairwise_iff_getElem.mp hincreasing 0 (2 ^ 32) (by simp) (by simp) (by decide)
  simp at hlt

/-- Neither loss nor the end of the COUNTs is harmless. -/
theorem not_deliversFaithfully : ¬ DeliversFaithfully Link.Displaced ∧
    ¬ DeliversFaithfully fun l op => l.Displaced op ∧ l.Distinguished op :=
  ⟨not_deliversFaithfully_displaced, not_deliversFaithfully_distinguished⟩

end LlmHric.Pdcp
