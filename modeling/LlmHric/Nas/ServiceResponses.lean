import LlmHric.Nas.ServiceRequest

/-! Both messages are made of elements that may be missing, the rejection with a cause before them.
They are decoded into a message that is all zero, as the callers of the decoders have it. -/

namespace LlmHric.Nas

open ByteOrder Checked

/-! ### The acceptance -/

/-- `pdu_error_cause_t`. -/
structure PduErrorCause where
  pduSessionId : UInt8
  cause : UInt8
  deriving DecidableEq

/-- `fgs_service_accept_msg_t`, without the EAP message, which is not encoded; `num_errors` is the
length of the list. -/
structure FgsServiceAcceptMsg where
  psiStatus : Option Psi
  psiRes : Option Psi
  causes : List PduErrorCause
  t3448 : Option GprsTimer

/-- `MAX_NUM_PDU_ERRORS`. -/
def maxNumPduErrors : ℕ := 256

/-- The PDU session ids and causes. -/
def causeBytes (causes : List PduErrorCause) : List UInt8 :=
  causes.flatMap fun c => [c.pduSessionId, c.cause]

@[simp] theorem length_causeBytes (causes : List PduErrorCause) :
    (causeBytes causes).length = 2 * causes.length := by
  induction causes with
  | nil => rfl
  | cons c causes ih =>
    have hcons : causeBytes (c :: causes) = c.pduSessionId :: c.cause :: causeBytes causes := rfl
    rw [hcons, List.length_cons, List.length_cons, ih, List.length_cons]
    omega

/-- The error causes in `encode_fgs_service_accept`. The length in bytes is held against the number
of causes that there may be. -/
def encodeErrorCauses (causes : List PduErrorCause) : Writer := fun buffer written =>
  if causes.length = 0 then .done (buffer, written)
  else do
    let buffer ← writeAt buffer written [ieiPduSessionReactResultErrorCause]
    let errorLen := 2 * causes.length % 65536
    if errorLen > maxNumPduErrors then .refused
    else Writer.put (bytesBE errorLen 2 ++ causeBytes causes) buffer (written + 1)

/-- `encode_fgs_service_accept`. -/
def encodeFgsServiceAccept (buffer : List UInt8) (msg : FgsServiceAcceptMsg) :
    Outcome (List UInt8 × ℕ) :=
  if buffer.length < 1 then .refused
  else
    (Writer.optional (encodePduSessionIe ieiPduSessionStatus) msg.psiStatus).andThen
      ((Writer.optional (encodePduSessionIe ieiPduSessionReactResult) msg.psiRes).andThen
        ((encodeErrorCauses msg.causes).andThen
          (Writer.optional (encodeGprsTimerIe ieiT3448Value) msg.t3448))) buffer 0

/-- The loop over the causes in `decode_fgs_service_accept`, which are added to an array. -/
def decodeCauses : ℕ → List UInt8 → List PduErrorCause → Outcome (List PduErrorCause)
  | 0, _, causes => .done causes
  | count + 1, bytes, causes =>
    if causes.length ≥ maxNumPduErrors then .fault .outOfBounds
    else do
      let pduSessionId ← byteAt bytes 0
      let cause ← byteAt bytes 1
      decodeCauses count (bytes.drop 2) (causes ++ [⟨pduSessionId, cause⟩])

/-- The loop of `decode_fgs_service_accept` over the bytes that are left. -/
def decodeAcceptIes (decoded : ℕ) (msg : FgsServiceAcceptMsg) :
    List UInt8 → Outcome (FgsServiceAcceptMsg × ℕ)
  | [] => .done (msg, decoded)
  | iei :: rest =>
    if iei = ieiPduSessionStatus then do
      let (psi, n) ← decodePduSessionIe rest
      decodeAcceptIes (decoded + 1 + n) { msg with psiStatus := some psi } (rest.drop n)
    else if iei = ieiPduSessionReactResult then do
      let (psi, n) ← decodePduSessionIe rest
      decodeAcceptIes (decoded + 1 + n) { msg with psiRes := some psi } (rest.drop n)
    else if iei = ieiPduSessionReactResultErrorCause then do
      let errorLen ← readSlice rest 0 2
      if valueBE errorLen > maxNumPduErrors * 2 then .refused
      else
        -- the loop takes two bytes at a time
        let count := (valueBE errorLen + 1) / 2
        let causes ← decodeCauses count (rest.drop 2) msg.causes
        decodeAcceptIes (decoded + 1 + (2 + 2 * count)) { msg with causes := causes }
          (rest.drop (2 + 2 * count))
    else if iei = ieiT3448Value then do
      let (timer, n) ← decodeGprsTimerIe rest
      decodeAcceptIes (decoded + 1 + n) { msg with t3448 := some timer } (rest.drop n)
    else if iei = ieiEapMsg then do
      let (_, n) ← decodeEapMsgIe .noBuffer rest
      decodeAcceptIes (decoded + 1 + n) msg (rest.drop n)
    else .refused
  termination_by bytes => bytes.length
  decreasing_by all_goals
    rw [List.length_drop, List.length_cons]
    omega

/-- `decode_fgs_service_accept`. -/
def decodeFgsServiceAccept (buffer : List UInt8) : Outcome (FgsServiceAcceptMsg × ℕ) :=
  if buffer.length < 1 then .refused else decodeAcceptIes 0 ⟨none, none, [], none⟩ buffer

namespace FgsServiceAcceptMsg

variable (msg : FgsServiceAcceptMsg)

def errorCauses (causes : List PduErrorCause) : List UInt8 :=
  if causes = [] then []
  else ieiPduSessionReactResultErrorCause :: (bytesBE (2 * causes.length) 2 ++ causeBytes causes)

/-- The bytes of the message. -/
def bytes : List UInt8 :=
  msg.psiStatus.elim [] (pduSessionIe ieiPduSessionStatus) ++
    (msg.psiRes.elim [] (pduSessionIe ieiPduSessionReactResult) ++
      (errorCauses msg.causes ++ msg.t3448.elim [] (gprsTimerIe ieiT3448Value)))

/-- In every buffer that has room for the message it is encoded, and what was encoded is decoded to
the same message. -/
def RoundTrips : Prop :=
  ∀ buffer : List UInt8, msg.bytes.length ≤ buffer.length →
    ∃ buffer' n, encodeFgsServiceAccept buffer msg = .done (buffer', n) ∧
      decodeFgsServiceAccept (buffer'.take n) = .done (msg, n)

/-- The fields have values that the message has room for. -/
def Fits : Prop :=
  (∀ psi ∈ msg.psiStatus, psi.Fits) ∧ (∀ psi ∈ msg.psiRes, psi.Fits) ∧
    ∀ timer ∈ msg.t3448, timer.Fits

end FgsServiceAcceptMsg

theorem writes_encodeErrorCauses {causes : List PduErrorCause} (hmax : causes.length ≤ 128) :
    (encodeErrorCauses causes).Writes (FgsServiceAcceptMsg.errorCauses causes) := by
  intro pre room hroom
  cases causes with
  | nil => rfl
  | cons c causes =>
    have hwrites := (Writer.writes_put [ieiPduSessionReactResultErrorCause]).andThen
      (Writer.writes_put (bytesBE (2 * (c :: causes).length) 2 ++ causeBytes (c :: causes)))
    have hlen : 2 * (c :: causes).length % 65536 = 2 * (c :: causes).length :=
      Nat.mod_eq_of_lt (by omega)
    have hle : ¬ 2 * (c :: causes).length > maxNumPduErrors := by
      unfold maxNumPduErrors
      omega
    have hrun := hwrites pre room hroom
    obtain ⟨⟨buffer, written⟩, hput, hrest⟩ := Outcome.bind_eq_done_iff.mp hrun
    obtain ⟨buffer', hwrite, hdone⟩ := Outcome.bind_eq_done_iff.mp hput
    obtain ⟨rfl, rfl⟩ := Prod.mk.inj (Outcome.done.inj hdone)
    rw [encodeErrorCauses, if_neg (by simp), hwrite, Outcome.done_bind, hlen]
    dsimp only
    rw [if_neg hle]
    exact hrest

section Accept

variable {msg : FgsServiceAcceptMsg} {buffer : List UInt8}

theorem encodeFgsServiceAccept_eq (hpos : 0 < buffer.length)
    (hroom : msg.bytes.length ≤ buffer.length)
    (hmax : msg.causes.length ≤ 128) :
    encodeFgsServiceAccept buffer msg =
      .done (msg.bytes ++ buffer.drop msg.bytes.length, msg.bytes.length) := by
  have hwrites := (Writer.Writes.optional fun psi (_ : psi ∈ msg.psiStatus) =>
      writes_encodePduSessionIe ieiPduSessionStatus psi).andThen
    ((Writer.Writes.optional fun psi (_ : psi ∈ msg.psiRes) =>
        writes_encodePduSessionIe ieiPduSessionReactResult psi).andThen
      ((writes_encodeErrorCauses hmax).andThen
        (Writer.Writes.optional fun timer (_ : timer ∈ msg.t3448) =>
          writes_encodeGprsTimerIe ieiT3448Value timer)))
  rw [encodeFgsServiceAccept, if_neg (by omega)]
  exact hwrites.run hroom

/-- With more causes than half the array holds the length in bytes is too large. -/
theorem encodeErrorCauses_refused {causes : List PduErrorCause} (hmin : 128 < causes.length)
    (hmax : causes.length ≤ maxNumPduErrors) {written : ℕ} (hroom : written < buffer.length) :
    encodeErrorCauses causes buffer written = .refused := by
  have hbound : causes.length ≤ 256 := hmax
  have hlen : 2 * causes.length % 65536 = 2 * causes.length := Nat.mod_eq_of_lt (by omega)
  have hgt : 2 * causes.length > maxNumPduErrors := by
    unfold maxNumPduErrors
    omega
  have hwrite : ∃ buffer', writeAt buffer written [ieiPduSessionReactResultErrorCause] =
      .done buffer' := ⟨_, if_pos hroom⟩
  obtain ⟨buffer', hwrite⟩ := hwrite
  rw [encodeErrorCauses, if_neg (by omega), hwrite, Outcome.done_bind, hlen]
  exact if_pos hgt

/-- An element of PDU sessions behind which something follows. -/
theorem decodeAcceptIes_pduSessionIe {decoded : ℕ} {psi : Psi} (h : psi.Fits) {rest : List UInt8}
    (hrest : rest ≠ []) :
    decodeAcceptIes decoded msg (pduSessionIe ieiPduSessionStatus psi ++ rest) =
        decodeAcceptIes (decoded + 4) { msg with psiStatus := some psi } rest ∧
      decodeAcceptIes decoded msg (pduSessionIe ieiPduSessionReactResult psi ++ rest) =
        decodeAcceptIes (decoded + 4) { msg with psiRes := some psi } rest := by
  have hdecode := decodePduSessionIe_append h hrest
  have hsplit : ∀ iei, pduSessionIe iei psi ++ rest =
      iei :: ([2, octet3 psi, octet4 psi] ++ rest) := fun _ => rfl
  constructor
  · rw [hsplit, decodeAcceptIes, if_pos rfl, hdecode, Outcome.done_bind]
    rfl
  · rw [hsplit, decodeAcceptIes, if_neg (by decide), if_pos rfl, hdecode, Outcome.done_bind]
    rfl

theorem decodeAcceptIes_pduSessionIe_last {decoded : ℕ} {psi : Psi} :
    decodeAcceptIes decoded msg (pduSessionIe ieiPduSessionStatus psi) = .refused ∧
      decodeAcceptIes decoded msg (pduSessionIe ieiPduSessionReactResult psi) = .refused := by
  constructor
  · rw [pduSessionIe, decodeAcceptIes, if_pos rfl, decodePduSessionIe_last]
    rfl
  · rw [pduSessionIe, decodeAcceptIes, if_neg (by decide), if_pos rfl, decodePduSessionIe_last]
    rfl

theorem decodeCauses_append {causes old : List PduErrorCause} {rest : List UInt8}
    (hmax : old.length + causes.length ≤ maxNumPduErrors) :
    decodeCauses causes.length (causeBytes causes ++ rest) old = .done (old ++ causes) := by
  induction causes generalizing old with
  | nil => rw [List.append_nil, List.length_nil, decodeCauses]
  | cons c causes ih =>
    rw [List.length_cons] at hmax
    have hcons : causeBytes (c :: causes) ++ rest =
        c.pduSessionId :: c.cause :: (causeBytes causes ++ rest) := rfl
    have hnext := @ih (old ++ [c]) (by rw [List.length_append, List.length_singleton]; omega)
    rw [List.length_cons, hcons, decodeCauses, if_neg (by omega), List.append_cons, ← hnext]
    rfl

theorem decodeAcceptIes_errorCauses {decoded : ℕ} {rest : List UInt8}
    {causes : List PduErrorCause} (hcauses : causes ≠ []) (hmax : causes.length ≤ 128)
    (hmsg : msg.causes = []) :
    decodeAcceptIes decoded msg (FgsServiceAcceptMsg.errorCauses causes ++ rest) =
      decodeAcceptIes (decoded + (FgsServiceAcceptMsg.errorCauses causes).length)
        { msg with causes := causes } rest := by
  have hsplit : FgsServiceAcceptMsg.errorCauses causes ++ rest =
      ieiPduSessionReactResultErrorCause ::
        (bytesBE (2 * causes.length) 2 ++ (causeBytes causes ++ rest)) := by
    rw [FgsServiceAcceptMsg.errorCauses, if_neg hcauses]
    simp
  have hlength : (FgsServiceAcceptMsg.errorCauses causes).length = 1 + (2 + 2 * causes.length) := by
    rw [FgsServiceAcceptMsg.errorCauses, if_neg hcauses]
    simp
    omega
  have hread : readSlice (bytesBE (2 * causes.length) 2 ++ (causeBytes causes ++ rest)) 0 2 =
      .done (bytesBE (2 * causes.length) 2) := readSlice_append [] _ rfl (length_bytesBE ..).symm
  have hvalue : valueBE (bytesBE (2 * causes.length) 2) = 2 * causes.length := by
    rw [valueBE_bytesBE]
    exact Nat.mod_eq_of_lt (by omega)
  have hcount : (2 * causes.length + 1) / 2 = causes.length := by omega
  have hdrop : (bytesBE (2 * causes.length) 2 ++ (causeBytes causes ++ rest)).drop 2 =
      causeBytes causes ++ rest := List.drop_left' (length_bytesBE ..)
  have hdrop' : (bytesBE (2 * causes.length) 2 ++ (causeBytes causes ++ rest)).drop
      (2 + 2 * causes.length) = rest := by
    rw [← List.drop_drop, hdrop, List.drop_left' (length_causeBytes causes)]
  have hdecode : decodeCauses causes.length (causeBytes causes ++ rest) msg.causes =
      .done causes := by
    rw [hmsg]
    have hroom : ([] : List PduErrorCause).length + causes.length ≤ maxNumPduErrors := by
      rw [List.length_nil]
      unfold maxNumPduErrors
      omega
    exact decodeCauses_append hroom
  have hle : ¬ 2 * causes.length > maxNumPduErrors * 2 := by
    unfold maxNumPduErrors
    omega
  rw [hsplit, decodeAcceptIes, if_neg (by decide), if_neg (by decide), if_pos rfl, hread,
    Outcome.done_bind, hvalue, if_neg hle]
  dsimp only
  rw [hcount, hdrop, hdecode, Outcome.done_bind, hdrop', hlength, Nat.add_assoc]

theorem decodeAcceptIes_t3448 {decoded : ℕ} {timer : GprsTimer} (h : timer.Fits) :
    decodeAcceptIes decoded msg (gprsTimerIe ieiT3448Value timer) =
      .done ({ msg with t3448 := some timer }, decoded + 3) := by
  have hdecode := decodeGprsTimerIe_append h []
  have hsplit : gprsTimerIe ieiT3448Value timer =
      ieiT3448Value :: ([1, timer.octet] ++ []) := rfl
  rw [hsplit, decodeAcceptIes, if_neg (by decide), if_neg (by decide), if_neg (by decide),
    if_pos rfl,
    hdecode, Outcome.done_bind]
  exact decodeAcceptIes.eq_1 ..

/-- What is decoded has flags, timers of few bits, and not too many causes. -/
theorem decodeCauses_length {count : ℕ} {bytes : List UInt8} {old causes : List PduErrorCause}
    (hold : old.length ≤ maxNumPduErrors) (h : decodeCauses count bytes old = .done causes) :
    causes.length ≤ maxNumPduErrors := by
  induction count generalizing bytes old with
  | zero =>
    obtain rfl := Outcome.done.inj h
    exact hold
  | succ count ih =>
    rw [decodeCauses] at h
    split_ifs at h with hfull
    obtain ⟨pduSessionId, -, h⟩ := Outcome.bind_eq_done_iff.mp h
    obtain ⟨cause, -, h⟩ := Outcome.bind_eq_done_iff.mp h
    exact ih (by rw [List.length_append, List.length_singleton]; omega) h

theorem decodeAcceptIes_decoded {decoded n : ℕ} {old : FgsServiceAcceptMsg} {bytes : List UInt8}
    (hold : old.Fits ∧ old.causes.length ≤ maxNumPduErrors)
    (h : decodeAcceptIes decoded old bytes = .done (msg, n)) :
    msg.Fits ∧ msg.causes.length ≤ maxNumPduErrors := by
  fun_induction decodeAcceptIes decoded old bytes with
  | case1 decoded old =>
    obtain ⟨rfl, -⟩ := Prod.mk.inj (Outcome.done.inj h)
    exact hold
  | case2 decoded old rest ih =>
    obtain ⟨⟨psi, k⟩, hpsi, h⟩ := Outcome.bind_eq_done_iff.mp h
    refine ih psi k ⟨⟨fun psi' hpsi' => ?_, hold.1.2⟩, hold.2⟩ h
    obtain rfl := Option.some.inj hpsi'
    exact decodePduSessionIe_fits hpsi
  | case3 decoded old rest hne ih =>
    obtain ⟨⟨psi, k⟩, hpsi, h⟩ := Outcome.bind_eq_done_iff.mp h
    refine ih psi k ⟨⟨hold.1.1, fun psi' hpsi' => ?_, hold.1.2.2⟩, hold.2⟩ h
    obtain rfl := Option.some.inj hpsi'
    exact decodePduSessionIe_fits hpsi
  | case4 decoded old rest h1 h2 ih =>
    obtain ⟨errorLen, -, h⟩ := Outcome.bind_eq_done_iff.mp h
    split_ifs at h
    obtain ⟨causes, hcauses, h⟩ := Outcome.bind_eq_done_iff.mp h
    exact ih errorLen causes ⟨hold.1, decodeCauses_length hold.2 hcauses⟩ h
  | case5 decoded old rest h1 h2 h3 ih =>
    obtain ⟨⟨timer, k⟩, htimer, h⟩ := Outcome.bind_eq_done_iff.mp h
    refine ih timer k ⟨⟨hold.1.1, hold.1.2.1, fun timer' htimer' => ?_⟩, hold.2⟩ h
    obtain rfl := Option.some.inj htimer'
    exact decodeGprsTimerIe_fits htimer
  | case6 decoded old rest h1 h2 h3 h4 ih =>
    obtain ⟨⟨payload, k⟩, -, h⟩ := Outcome.bind_eq_done_iff.mp h
    exact ih k hold h
  | case7 => simp at h

theorem FgsServiceAcceptMsg.RoundTrips.decoded (h : msg.RoundTrips) :
    msg.Fits ∧ msg.causes.length ≤ maxNumPduErrors := by
  obtain ⟨buffer', n, -, hdecode⟩ := h (List.replicate msg.bytes.length 0) (by simp)
  unfold decodeFgsServiceAccept at hdecode
  split_ifs at hdecode
  exact decodeAcceptIes_decoded ⟨⟨by simp, by simp, by simp⟩, by simp⟩ hdecode

theorem length_errorCauses {causes : List PduErrorCause} (hne : causes ≠ []) :
    (FgsServiceAcceptMsg.errorCauses causes).length = 3 + 2 * causes.length := by
  rw [FgsServiceAcceptMsg.errorCauses, if_neg hne]
  simp
  omega

/-- More causes than half the array holds are not encoded. -/
theorem FgsServiceAcceptMsg.RoundTrips.length_causes_le (h : msg.RoundTrips) :
    msg.causes.length ≤ 128 := by
  obtain ⟨-, hmax⟩ := h.decoded
  by_contra hmin
  have hne : msg.causes ≠ [] := by
    rintro heq
    simp [heq] at hmin
  have hsize : (List.replicate msg.bytes.length (0 : UInt8)).length = msg.bytes.length :=
    List.length_replicate ..
  have hwrites := (Writer.Writes.optional fun psi (_ : psi ∈ msg.psiStatus) =>
      writes_encodePduSessionIe ieiPduSessionStatus psi).andThen
    (Writer.Writes.optional fun psi (_ : psi ∈ msg.psiRes) =>
      writes_encodePduSessionIe ieiPduSessionReactResult psi)
  obtain ⟨before, hbefore⟩ : ∃ before, before =
      msg.psiStatus.elim [] (pduSessionIe ieiPduSessionStatus) ++
        msg.psiRes.elim [] (pduSessionIe ieiPduSessionReactResult) := ⟨_, rfl⟩
  rw [← hbefore] at hwrites
  have hlen : before.length + (3 + 2 * msg.causes.length) ≤ msg.bytes.length := by
    rw [FgsServiceAcceptMsg.bytes, ← List.append_assoc, ← hbefore, List.length_append,
      List.length_append, length_errorCauses hne]
    omega
  obtain ⟨buffer', n, hencode, -⟩ := h _ hsize.ge
  rw [encodeFgsServiceAccept, if_neg (by omega), ← Writer.andThen_assoc, Writer.andThen,
    hwrites.run (by omega), Outcome.done_bind] at hencode
  dsimp only at hencode
  rw [Writer.andThen, encodeErrorCauses_refused (by omega) hmax] at hencode
  · simp at hencode
  · rw [List.length_append, List.length_drop]
    omega

/-- A message that ends with an element of PDU sessions, or has no element, is not decoded. -/
theorem not_roundTrips_of_causes_eq_nil (hcauses : msg.causes = []) (htimer : msg.t3448 = none) :
    ¬ msg.RoundTrips := by
  intro h
  obtain ⟨⟨hstatus, hres, -⟩, -⟩ := h.decoded
  have hbytes : msg.bytes = msg.psiStatus.elim [] (pduSessionIe ieiPduSessionStatus) ++
      msg.psiRes.elim [] (pduSessionIe ieiPduSessionReactResult) := by
    simp [FgsServiceAcceptMsg.bytes, hcauses, htimer, FgsServiceAcceptMsg.errorCauses]
  have hbuffer : msg.bytes.length ≤ (List.replicate (msg.bytes.length + 1) (0 : UInt8)).length := by
    simp
  obtain ⟨buffer', n, hencode, hdecode⟩ := h _ hbuffer
  rw [encodeFgsServiceAccept_eq (by simp) hbuffer (by simp [hcauses])] at hencode
  obtain ⟨rfl, rfl⟩ := Prod.mk.inj (Outcome.done.inj hencode)
  rw [List.take_left, hbytes] at hdecode
  suffices hrefused : decodeFgsServiceAccept
      (msg.psiStatus.elim [] (pduSessionIe ieiPduSessionStatus) ++
        msg.psiRes.elim [] (pduSessionIe ieiPduSessionReactResult)) = .refused by
    rw [hrefused] at hdecode
    simp at hdecode
  cases hr : msg.psiRes with
  | none =>
    rw [Option.elim_none, List.append_nil]
    cases hs : msg.psiStatus with
    | none => rfl
    | some psi =>
      rw [decodeFgsServiceAccept, if_neg (by simp [pduSessionIe])]
      exact decodeAcceptIes_pduSessionIe_last.1
  | some psi =>
    rw [Option.elim_some, decodeFgsServiceAccept, if_neg (by simp [pduSessionIe])]
    cases hs : msg.psiStatus with
    | none => exact decodeAcceptIes_pduSessionIe_last.2
    | some psi' =>
      rw [Option.elim_some,
        (decodeAcceptIes_pduSessionIe (hstatus psi' hs) (by simp [pduSessionIe])).1]
      exact decodeAcceptIes_pduSessionIe_last.2

theorem decodeAcceptIes_psiStatus {decoded : ℕ} {psi : Option Psi} (h : ∀ x ∈ psi, x.Fits)
    {rest : List UInt8} (hrest : rest ≠ []) (hmsg : msg.psiStatus = none) :
    decodeAcceptIes decoded msg (psi.elim [] (pduSessionIe ieiPduSessionStatus) ++ rest) =
      decodeAcceptIes (decoded + (psi.elim [] (pduSessionIe ieiPduSessionStatus)).length)
        { msg with psiStatus := psi } rest := by
  cases psi with
  | none =>
    obtain ⟨status, res, causes, timer⟩ := msg
    obtain rfl : status = none := hmsg
    rfl
  | some x => exact (decodeAcceptIes_pduSessionIe (h x rfl) hrest).1

theorem decodeAcceptIes_psiRes {decoded : ℕ} {psi : Option Psi} (h : ∀ x ∈ psi, x.Fits)
    {rest : List UInt8} (hrest : rest ≠ []) (hmsg : msg.psiRes = none) :
    decodeAcceptIes decoded msg (psi.elim [] (pduSessionIe ieiPduSessionReactResult) ++ rest) =
      decodeAcceptIes (decoded + (psi.elim [] (pduSessionIe ieiPduSessionReactResult)).length)
        { msg with psiRes := psi } rest := by
  cases psi with
  | none =>
    obtain ⟨status, res, causes, timer⟩ := msg
    obtain rfl : res = none := hmsg
    rfl
  | some x => exact (decodeAcceptIes_pduSessionIe (h x rfl) hrest).2

/-- The causes and the timer at the end of a message are decoded. -/
theorem decodeAcceptIes_tail {decoded : ℕ} {causes : List PduErrorCause} {t3448 : Option GprsTimer}
    (hmax : causes.length ≤ 128) (htimer : ∀ timer ∈ t3448, timer.Fits) (hcauses : msg.causes = [])
    (hmsg : msg.t3448 = none) :
    decodeAcceptIes decoded msg (FgsServiceAcceptMsg.errorCauses causes ++
        t3448.elim [] (gprsTimerIe ieiT3448Value)) =
      .done ({ msg with causes := causes, t3448 := t3448 }, decoded +
        (FgsServiceAcceptMsg.errorCauses causes ++
          t3448.elim [] (gprsTimerIe ieiT3448Value)).length) := by
  have hlast : ∀ decoded (msg : FgsServiceAcceptMsg), msg.t3448 = none →
      decodeAcceptIes decoded msg (t3448.elim [] (gprsTimerIe ieiT3448Value)) =
        .done ({ msg with t3448 := t3448 },
          decoded + (t3448.elim [] (gprsTimerIe ieiT3448Value)).length) := by
    intro decoded msg hmsg
    cases t3448 with
    | none =>
      obtain ⟨status, res, causes, timer⟩ := msg
      obtain rfl : timer = none := hmsg
      exact decodeAcceptIes.eq_1 ..
    | some timer => exact decodeAcceptIes_t3448 (htimer timer rfl)
  by_cases hne : causes = []
  · subst hne
    obtain ⟨status, res, causes, timer⟩ := msg
    obtain rfl : causes = [] := hcauses
    exact hlast decoded _ hmsg
  · rw [decodeAcceptIes_errorCauses hne hmax hcauses, hlast _ { msg with causes := causes } hmsg,
      List.length_append, Nat.add_assoc]

theorem FgsServiceAcceptMsg.roundTrips_of_causes (hfits : msg.Fits) (hmax : msg.causes.length ≤ 128)
    (hlast : msg.causes ≠ [] ∨ msg.t3448 ≠ none) : msg.RoundTrips := by
  intro buffer hbuffer
  obtain ⟨hstatus, hres, htimer⟩ := hfits
  obtain ⟨tail, htail⟩ : ∃ tail, tail = errorCauses msg.causes ++
      msg.t3448.elim [] (gprsTimerIe ieiT3448Value) := ⟨_, rfl⟩
  have hne : tail ≠ [] := by
    intro hnil
    obtain ⟨hcauses, htimer'⟩ := List.append_eq_nil_iff.mp (htail.symm.trans hnil)
    rcases hlast with hlast | hlast
    · rw [errorCauses, if_neg hlast] at hcauses
      simp at hcauses
    · obtain ⟨timer, htimer⟩ := Option.ne_none_iff_exists'.mp hlast
      rw [htimer] at htimer'
      simp [gprsTimerIe] at htimer'
  have hbytes : msg.bytes = msg.psiStatus.elim [] (pduSessionIe ieiPduSessionStatus) ++
      (msg.psiRes.elim [] (pduSessionIe ieiPduSessionReactResult) ++ tail) := by
    rw [htail]
    rfl
  have hpos : 0 < tail.length := List.length_pos_iff.mpr hne
  have hlen : tail.length ≤ msg.bytes.length := by
    rw [hbytes, List.length_append, List.length_append]
    omega
  have hencode := encodeFgsServiceAccept_eq (by omega) hbuffer hmax
  refine ⟨_, _, hencode, ?_⟩
  rw [List.take_left, decodeFgsServiceAccept, if_neg (by omega), hbytes,
    decodeAcceptIes_psiStatus hstatus (by simp [hne]) rfl, decodeAcceptIes_psiRes hres hne rfl,
    htail,
    decodeAcceptIes_tail hmax htimer rfl rfl]
  simp only [List.length_append, Nat.zero_add, Nat.add_assoc]

/-- An acceptance survives exactly if it ends with error causes, not more than 128, or a timer, and
its fields fit the message. -/
theorem FgsServiceAcceptMsg.survives_iff :
    msg.RoundTrips ↔ msg.Fits ∧ msg.causes.length ≤ 128 ∧ (msg.causes ≠ [] ∨ msg.t3448 ≠ none) := by
  constructor
  · intro h
    refine ⟨h.decoded.1, h.length_causes_le, ?_⟩
    by_contra hlast
    rw [not_or, not_not, not_not] at hlast
    exact not_roundTrips_of_causes_eq_nil hlast.1 hlast.2 h
  · rintro ⟨hfits, hmax, hlast⟩
    exact roundTrips_of_causes hfits hmax hlast

end Accept

/-! ### The rejection -/

/-- `fgs_service_reject_msg_t`. -/
structure FgsServiceRejectMsg where
  cause : UInt8
  psiStatus : Option Psi
  t3446 : Option GprsTimer
  t3448 : Option GprsTimer
  eapMsg : Option (List UInt8)

/-- `encode_fgs_service_reject`. -/
def encodeFgsServiceReject (buffer : List UInt8) (msg : FgsServiceRejectMsg) :
    Outcome (List UInt8 × ℕ) :=
  if buffer.length < 1 then .refused
  else
    (Writer.put [msg.cause]).andThen
      ((Writer.optional (encodePduSessionIe ieiPduSessionStatus) msg.psiStatus).andThen
        ((Writer.optional (encodeGprsTimerIe ieiT3446Value) msg.t3446).andThen
          ((Writer.optional (encodeGprsTimerIe ieiT3448Value) msg.t3448).andThen
            (Writer.optional encodeEapMsgIe msg.eapMsg)))) buffer 0

/-- The loop of `decode_fgs_service_reject` over the bytes that are left. -/
def decodeRejectIes (dst : EapDestination) (decoded : ℕ) (msg : FgsServiceRejectMsg) :
    List UInt8 → Outcome (FgsServiceRejectMsg × ℕ)
  | [] => .done (msg, decoded)
  | iei :: rest =>
    if iei = ieiPduSessionStatus then do
      let (psi, n) ← decodePduSessionIe rest
      decodeRejectIes dst (decoded + 1 + n) { msg with psiStatus := some psi } (rest.drop n)
    else if iei = ieiT3448Value then do
      let (timer, n) ← decodeGprsTimerIe rest
      decodeRejectIes dst (decoded + 1 + n) { msg with t3448 := some timer } (rest.drop n)
    else if iei = ieiT3446Value then do
      let (timer, n) ← decodeGprsTimerIe rest
      decodeRejectIes dst (decoded + 1 + n) { msg with t3446 := some timer } (rest.drop n)
    else if iei = ieiEapMsg then do
      let (eap, n) ← decodeEapMsgIe dst rest
      decodeRejectIes dst (decoded + 1 + n) { msg with eapMsg := some eap } (rest.drop n)
    else if iei = ieiCagInfoList then do
      let cagListLen ← readSlice rest 0 2
      let cagLen := valueBE cagListLen + 2
      decodeRejectIes dst (decoded + 1 + cagLen) msg (rest.drop cagLen)
    else .refused
  termination_by bytes => bytes.length
  decreasing_by all_goals
    rw [List.length_drop, List.length_cons]
    omega

/-- `decode_fgs_service_reject`, with the destination of an EAP message. -/
def decodeFgsServiceReject (dst : EapDestination) (buffer : List UInt8) :
    Outcome (FgsServiceRejectMsg × ℕ) :=
  if buffer.length < 1 then .refused
  else do
    let cause ← byteAt buffer 0
    decodeRejectIes dst 1 ⟨cause, none, none, none, none⟩ (buffer.drop 1)

namespace FgsServiceRejectMsg

variable (msg : FgsServiceRejectMsg)

/-- The bytes of the elements behind the status of the PDU sessions. -/
def tail : List UInt8 :=
  msg.t3446.elim [] (gprsTimerIe ieiT3446Value) ++
    (msg.t3448.elim [] (gprsTimerIe ieiT3448Value) ++ msg.eapMsg.elim [] eapMsgIe)

/-- The bytes of the message. -/
def bytes : List UInt8 :=
  [msg.cause] ++ (msg.psiStatus.elim [] (pduSessionIe ieiPduSessionStatus) ++ msg.tail)

/-- In every buffer that has room for the message it is encoded, and what was encoded is decoded to
the same message. -/
def RoundTrips (dst : EapDestination) : Prop :=
  ∀ buffer : List UInt8, msg.bytes.length ≤ buffer.length →
    ∃ buffer' n, encodeFgsServiceReject buffer msg = .done (buffer', n) ∧
      decodeFgsServiceReject dst (buffer'.take n) = .done (msg, n)

/-- The fields have values that the message has room for. -/
def Fits : Prop :=
  (∀ psi ∈ msg.psiStatus, psi.Fits) ∧ (∀ timer ∈ msg.t3446, timer.Fits) ∧
    ∀ timer ∈ msg.t3448, timer.Fits

/-- An EAP message has a valid length, and there is room to decode it. -/
def EapFits (dst : EapDestination) : Prop :=
  ∀ eap ∈ msg.eapMsg, dst = .buffer ∧ 4 ≤ eap.length ∧ eap.length ≤ 1500

end FgsServiceRejectMsg

section Reject

variable {msg : FgsServiceRejectMsg} {buffer : List UInt8} {dst : EapDestination}

theorem encodeFgsServiceReject_eq (hroom : msg.bytes.length ≤ buffer.length)
    (heap : ∀ eap ∈ msg.eapMsg, 4 ≤ eap.length ∧ eap.length ≤ 1500) :
    encodeFgsServiceReject buffer msg =
      .done (msg.bytes ++ buffer.drop msg.bytes.length, msg.bytes.length) := by
  have hwrites := (Writer.writes_put [msg.cause]).andThen
    ((Writer.Writes.optional fun psi (_ : psi ∈ msg.psiStatus) =>
        writes_encodePduSessionIe ieiPduSessionStatus psi).andThen
      ((Writer.Writes.optional fun timer (_ : timer ∈ msg.t3446) =>
          writes_encodeGprsTimerIe ieiT3446Value timer).andThen
        ((Writer.Writes.optional fun timer (_ : timer ∈ msg.t3448) =>
            writes_encodeGprsTimerIe ieiT3448Value timer).andThen
          (Writer.Writes.optional fun eap (he : eap ∈ msg.eapMsg) =>
            writes_encodeEapMsgIe (heap eap he).1 (heap eap he).2))))
  have hpos : 1 ≤ msg.bytes.length := by
    rw [FgsServiceRejectMsg.bytes, List.length_append, List.length_singleton]
    omega
  rw [encodeFgsServiceReject, if_neg (by omega)]
  exact hwrites.run hroom

theorem decodeRejectIes_psiStatus {decoded : ℕ} {psi : Option Psi} (h : ∀ x ∈ psi, x.Fits)
    {rest : List UInt8} (hrest : psi ≠ none → rest ≠ []) (hmsg : msg.psiStatus = none) :
    decodeRejectIes dst decoded msg (psi.elim [] (pduSessionIe ieiPduSessionStatus) ++ rest) =
      decodeRejectIes dst (decoded + (psi.elim [] (pduSessionIe ieiPduSessionStatus)).length)
        { msg with psiStatus := psi } rest := by
  cases psi with
  | none =>
    obtain ⟨cause, status, t3446, t3448, eap⟩ := msg
    obtain rfl : status = none := hmsg
    rfl
  | some x =>
    have hdecode := decodePduSessionIe_append (h x rfl) (hrest (by simp))
    have hsplit : pduSessionIe ieiPduSessionStatus x ++ rest =
        ieiPduSessionStatus :: ([2, octet3 x, octet4 x] ++ rest) := rfl
    rw [Option.elim_some, hsplit, decodeRejectIes, if_pos rfl, hdecode, Outcome.done_bind]
    rfl

theorem decodeRejectIes_pduSessionIe_last {decoded : ℕ} {psi : Psi} :
    decodeRejectIes dst decoded msg (pduSessionIe ieiPduSessionStatus psi) = .refused := by
  rw [pduSessionIe, decodeRejectIes, if_pos rfl, decodePduSessionIe_last]
  rfl

theorem decodeRejectIes_t3446 {decoded : ℕ} {t3446 : Option GprsTimer}
    (h : ∀ timer ∈ t3446, timer.Fits) (rest : List UInt8) (hmsg : msg.t3446 = none) :
    decodeRejectIes dst decoded msg (t3446.elim [] (gprsTimerIe ieiT3446Value) ++ rest) =
      decodeRejectIes dst (decoded + (t3446.elim [] (gprsTimerIe ieiT3446Value)).length)
        { msg with t3446 := t3446 } rest := by
  cases t3446 with
  | none =>
    obtain ⟨cause, status, t3446, t3448, eap⟩ := msg
    obtain rfl : t3446 = none := hmsg
    rfl
  | some timer =>
    have hdecode := decodeGprsTimerIe_append (h timer rfl) rest
    have hsplit : gprsTimerIe ieiT3446Value timer ++ rest =
        ieiT3446Value :: ([1, timer.octet] ++ rest) := rfl
    rw [Option.elim_some, hsplit, decodeRejectIes, if_neg (by decide), if_neg (by decide),
      if_pos rfl,
      hdecode, Outcome.done_bind]
    rfl

theorem decodeRejectIes_t3448 {decoded : ℕ} {t3448 : Option GprsTimer}
    (h : ∀ timer ∈ t3448, timer.Fits) (rest : List UInt8) (hmsg : msg.t3448 = none) :
    decodeRejectIes dst decoded msg (t3448.elim [] (gprsTimerIe ieiT3448Value) ++ rest) =
      decodeRejectIes dst (decoded + (t3448.elim [] (gprsTimerIe ieiT3448Value)).length)
        { msg with t3448 := t3448 } rest := by
  cases t3448 with
  | none =>
    obtain ⟨cause, status, t3446, t3448, eap⟩ := msg
    obtain rfl : t3448 = none := hmsg
    rfl
  | some timer =>
    have hdecode := decodeGprsTimerIe_append (h timer rfl) rest
    have hsplit : gprsTimerIe ieiT3448Value timer ++ rest =
        ieiT3448Value :: ([1, timer.octet] ++ rest) := rfl
    rw [Option.elim_some, hsplit, decodeRejectIes, if_neg (by decide), if_pos rfl, hdecode,
      Outcome.done_bind]
    rfl

theorem decodeRejectIes_eapMsg {decoded : ℕ} {eapMsg : Option (List UInt8)}
    (h : ∀ eap ∈ eapMsg, dst = .buffer ∧ 4 ≤ eap.length ∧ eap.length ≤ 1500)
    (hmsg : msg.eapMsg = none) :
    decodeRejectIes dst decoded msg (eapMsg.elim [] eapMsgIe) =
      .done ({ msg with eapMsg := eapMsg }, decoded + (eapMsg.elim [] eapMsgIe).length) := by
  cases eapMsg with
  | none =>
    obtain ⟨cause, status, t3446, t3448, eap⟩ := msg
    obtain rfl : eap = none := hmsg
    exact decodeRejectIes.eq_1 ..
  | some eap =>
    obtain ⟨rfl, hmin, hmax⟩ := h eap rfl
    have hdecode := decodeEapMsgIe_append hmin hmax []
    rw [List.append_nil] at hdecode
    have hsplit : eapMsgIe eap = ieiEapMsg :: (bytesBE eap.length 2 ++ eap) := rfl
    have hdrop : (bytesBE eap.length 2 ++ eap).drop (2 + eap.length) = [] :=
      List.drop_eq_nil_of_le (by rw [List.length_append, length_bytesBE])
    have hlen : 1 + (2 + eap.length) = 3 + eap.length := by omega
    rw [Option.elim_some, length_eapMsgIe, hsplit, decodeRejectIes, if_neg (by decide),
      if_neg (by decide), if_neg (by decide), if_pos rfl, hdecode, Outcome.done_bind]
    dsimp only
    rw [hdrop, decodeRejectIes, Nat.add_assoc, hlen]

/-- What is decoded has flags, timers of few bits, and an EAP message that there is room for. -/
theorem decodeRejectIes_decoded {decoded n : ℕ} {old : FgsServiceRejectMsg} {bytes : List UInt8}
    (hold : old.Fits ∧ old.EapFits dst)
    (h : decodeRejectIes dst decoded old bytes = .done (msg, n)) :
    msg.Fits ∧ msg.EapFits dst := by
  fun_induction decodeRejectIes dst decoded old bytes with
  | case1 decoded old =>
    obtain ⟨rfl, -⟩ := Prod.mk.inj (Outcome.done.inj h)
    exact hold
  | case2 decoded old rest ih =>
    obtain ⟨⟨psi, k⟩, hpsi, h⟩ := Outcome.bind_eq_done_iff.mp h
    refine ih psi k ⟨⟨fun psi' hpsi' => ?_, hold.1.2⟩, hold.2⟩ h
    obtain rfl := Option.some.inj hpsi'
    exact decodePduSessionIe_fits hpsi
  | case3 decoded old rest h1 ih =>
    obtain ⟨⟨timer, k⟩, htimer, h⟩ := Outcome.bind_eq_done_iff.mp h
    refine ih timer k ⟨⟨hold.1.1, hold.1.2.1, fun timer' htimer' => ?_⟩, hold.2⟩ h
    obtain rfl := Option.some.inj htimer'
    exact decodeGprsTimerIe_fits htimer
  | case4 decoded old rest h1 h2 ih =>
    obtain ⟨⟨timer, k⟩, htimer, h⟩ := Outcome.bind_eq_done_iff.mp h
    refine ih timer k ⟨⟨hold.1.1, fun timer' htimer' => ?_, hold.1.2.2⟩, hold.2⟩ h
    obtain rfl := Option.some.inj htimer'
    exact decodeGprsTimerIe_fits htimer
  | case5 decoded old rest h1 h2 h3 ih =>
    obtain ⟨⟨eap, k⟩, heap, h⟩ := Outcome.bind_eq_done_iff.mp h
    refine ih eap k ⟨hold.1, fun eap' heap' => ?_⟩ h
    obtain rfl := Option.some.inj heap'
    exact decodeEapMsgIe_decoded heap
  | case6 decoded old rest h1 h2 h3 h4 ih =>
    obtain ⟨len, -, h⟩ := Outcome.bind_eq_done_iff.mp h
    exact ih len hold h
  | case7 => simp at h

theorem FgsServiceRejectMsg.RoundTrips.decoded (h : msg.RoundTrips dst) :
    msg.Fits ∧ msg.EapFits dst := by
  obtain ⟨buffer', n, -, hdecode⟩ := h (List.replicate msg.bytes.length 0) (by simp)
  unfold decodeFgsServiceReject at hdecode
  split_ifs at hdecode
  obtain ⟨cause, -, hdecode⟩ := Outcome.bind_eq_done_iff.mp hdecode
  exact decodeRejectIes_decoded ⟨⟨by simp, by simp, by simp⟩, by simp [EapFits]⟩ hdecode

theorem decodeFgsServiceReject_bytes :
    decodeFgsServiceReject dst msg.bytes = decodeRejectIes dst 1 ⟨msg.cause, none, none, none, none⟩
      (msg.psiStatus.elim [] (pduSessionIe ieiPduSessionStatus) ++ msg.tail) := by
  have hpos : ¬ msg.bytes.length < 1 := by
    rw [FgsServiceRejectMsg.bytes, List.length_append, List.length_singleton]
    omega
  rw [decodeFgsServiceReject, if_neg hpos]
  rfl

/-- A rejection survives exactly if the status of the PDU sessions is not its last element, there is
room to decode an EAP message of valid length, and its fields fit the message. -/
theorem FgsServiceRejectMsg.survives_iff :
    msg.RoundTrips dst ↔
      msg.Fits ∧ msg.EapFits dst ∧ (msg.psiStatus ≠ none → msg.tail ≠ []) := by
  constructor
  · intro h
    obtain ⟨hfits, heap⟩ := h.decoded
    refine ⟨hfits, heap, fun hpsi htail => ?_⟩
    obtain ⟨psi, hpsi⟩ := Option.ne_none_iff_exists'.mp hpsi
    have hsize : (List.replicate msg.bytes.length (0 : UInt8)).length = msg.bytes.length :=
      List.length_replicate ..
    obtain ⟨buffer', n, hencode, hdecode⟩ := h _ hsize.ge
    rw [encodeFgsServiceReject_eq hsize.ge fun eap he => (heap eap he).2] at hencode
    obtain ⟨rfl, rfl⟩ := Prod.mk.inj (Outcome.done.inj hencode)
    rw [List.take_left, decodeFgsServiceReject_bytes, hpsi, htail, Option.elim_some,
      List.append_nil,
      decodeRejectIes_pduSessionIe_last] at hdecode
    simp at hdecode
  · rintro ⟨⟨hstatus, ht3446, ht3448⟩, heap, hlast⟩ buffer hbuffer
    refine ⟨_, _, encodeFgsServiceReject_eq hbuffer fun eap he => (heap eap he).2, ?_⟩
    rw [List.take_left, decodeFgsServiceReject_bytes, decodeRejectIes_psiStatus hstatus hlast rfl,
      tail,
      decodeRejectIes_t3446 ht3446 _ rfl, decodeRejectIes_t3448 ht3448 _ rfl,
      decodeRejectIes_eapMsg heap rfl]
    simp only [bytes, tail, List.length_append, List.length_singleton, Nat.add_assoc]

end Reject

/-! ### The service messages -/

/-- A service message. -/
inductive ServiceMessage
  | request (msg : FgsServiceRequestMsg)
  | accept (msg : FgsServiceAcceptMsg)
  | reject (msg : FgsServiceRejectMsg)

namespace ServiceMessage

/-- The message survives encoding and decoding; a rejection is decoded into a message that is all
zero. -/
def RoundTrips : ServiceMessage → Prop
  | request msg => msg.RoundTrips
  | accept msg => msg.RoundTrips
  | reject msg => msg.RoundTrips .null

/-- The fields have values that the message has room for, and lists and strings the lengths they may
have. -/
def WellFormed : ServiceMessage → Prop
  | request msg => msg.Fits ∧ ∀ contents ∈ msg.fgsnasmessagecontainer,
      contents ≠ [] ∧ contents.length < 65536
  | accept msg => msg.Fits ∧ msg.causes.length ≤ maxNumPduErrors
  | reject msg => msg.Fits ∧ ∀ eap ∈ msg.eapMsg, 4 ≤ eap.length ∧ eap.length ≤ 1500

/-- A request has a container, an acceptance ends with a timer or with at most 128 causes, and a
rejection has no EAP message, and a timer if it has the status of the PDU sessions. -/
def Survives (m : ServiceMessage) : Prop :=
  m.WellFormed ∧ match m with
    | request msg => msg.fgsnasmessagecontainer ≠ none
    | accept msg => msg.causes.length ≤ 128 ∧ (msg.causes ≠ [] ∨ msg.t3448 ≠ none)
    | reject msg => msg.eapMsg = none ∧
        (msg.psiStatus ≠ none → msg.t3446 ≠ none ∨ msg.t3448 ≠ none)

end ServiceMessage

/-- A service message survives encoding and decoding exactly if it is well formed and one of those
whose elements are checked as they should be. -/
theorem serviceMessage_roundTrips_iff (m : ServiceMessage) : m.RoundTrips ↔ m.Survives := by
  cases m with
  | request msg =>
    refine FgsServiceRequestMsg.survives_iff.trans ?_
    constructor
    · rintro ⟨hfits, contents, hcontainer, hne, hmax⟩
      refine ⟨⟨hfits, fun c hc => ?_⟩, by simp [hcontainer]⟩
      obtain rfl := Option.some.inj (hcontainer.symm.trans hc)
      exact ⟨hne, hmax⟩
    · rintro ⟨⟨hfits, hcontents⟩, hcontainer⟩
      obtain ⟨contents, hcontainer⟩ := Option.ne_none_iff_exists'.mp hcontainer
      exact ⟨hfits, contents, hcontainer, hcontents contents hcontainer⟩
  | accept msg =>
    refine FgsServiceAcceptMsg.survives_iff.trans ?_
    constructor
    · rintro ⟨hfits, hmax, hlast⟩
      exact ⟨⟨hfits, hmax.trans (by decide)⟩, hmax, hlast⟩
    · rintro ⟨⟨hfits, -⟩, hmax, hlast⟩
      exact ⟨hfits, hmax, hlast⟩
  | reject msg =>
    refine FgsServiceRejectMsg.survives_iff.trans ?_
    constructor
    · rintro ⟨hfits, heap, hlast⟩
      have hnone : msg.eapMsg = none := by
        cases heapMsg : msg.eapMsg with
        | none => rfl
        | some eap => exact absurd (heap eap heapMsg).1 (by simp)
      refine ⟨⟨hfits, by simp [hnone]⟩, hnone, fun hpsi => ?_⟩
      by_contra htimers
      rw [not_or, not_not, not_not] at htimers
      exact hlast hpsi (by simp [FgsServiceRejectMsg.tail, htimers.1, htimers.2, hnone])
    · rintro ⟨⟨hfits, -⟩, hnone, hlast⟩
      refine ⟨hfits, by simp [FgsServiceRejectMsg.EapFits, hnone], fun hpsi htail => ?_⟩
      rw [FgsServiceRejectMsg.tail, hnone, List.append_eq_nil_iff, List.append_eq_nil_iff] at htail
      rcases hlast hpsi with htimer | htimer
      · obtain ⟨timer, htimer⟩ := Option.ne_none_iff_exists'.mp htimer
        simp [htimer, gprsTimerIe] at htail
      · obtain ⟨timer, htimer⟩ := Option.ne_none_iff_exists'.mp htimer
        simp [htimer, gprsTimerIe] at htail

/-- A rejection with the status of the PDU sessions alone. -/
def statusOnly : FgsServiceRejectMsg := ⟨3, some fun _ => 0, none, none, none⟩

theorem not_wellFormed_roundTrips : ¬ ∀ m : ServiceMessage, m.WellFormed → m.RoundTrips := by
  intro h
  have hwell : (ServiceMessage.reject statusOnly).WellFormed := by
    refine ⟨⟨fun psi hpsi => ?_, by simp [statusOnly], by simp [statusOnly]⟩, by simp [statusOnly]⟩
    obtain rfl := Option.some.inj hpsi
    exact ⟨rfl, fun _ => .inl rfl⟩
  obtain ⟨-, -, hlast⟩ := FgsServiceRejectMsg.survives_iff.mp (h _ hwell)
  exact hlast (by simp [statusOnly]) rfl

end LlmHric.Nas
