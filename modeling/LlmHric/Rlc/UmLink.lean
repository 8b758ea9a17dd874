import LlmHric.Library.Run
import LlmHric.Rlc.BitFields
import LlmHric.Rlc.UmBuffers

/-! A transmitting entity makes PDUs of the SDUs it gets, and a channel loses some of them and hands
the others to a receiving entity, in the order in which they were sent. Along with every PDU goes
the segment that it was made of, and how many SDUs were sent in segments before; the sequence number
in the PDU is that number modulo `sn_modulus`. -/

namespace LlmHric.Rlc

/-! ### PDUs -/

namespace UmEntity

variable {e e' : UmEntity} {s : Segment} {size : ℕ} {pdu : List UInt8}

def headerBits (cfg : UmConfig) (sn : ℕ) (s : Segment) : List Bool :=
  fieldBits (if s.isFirst then 0 else 1) 1 ++ (fieldBits (if s.isLast then 0 else 1) 1 ++
    ((if s.isFirst && s.isLast then fieldBits 0 6
      else fieldBits 0 (if cfg.snFieldLength = .sn12 then 2 else 0) ++
        fieldBits sn cfg.snFieldLength.bits) ++
      if s.isFirst then [] else fieldBits s.so 16))

/-- The bytes of a segment. -/
def sliceOf (data : List UInt8) (s : Segment) : List UInt8 := (data.drop s.so).take s.size

/-- The PDU of a segment of an SDU with some sequence number. -/
def pduBytes (cfg : UmConfig) (sn : ℕ) (data : List UInt8) (s : Segment) : List UInt8 :=
  toBytes (headerBits cfg sn s) ++ sliceOf data s

theorem serializeSdu_eq (h : e.serializeSdu s size = some pdu) :
    pdu = pduBytes e.cfg ((e.sdus s.sdu).sn.getD 0) (e.sdus s.sdu).data s := by
  rw [serializeSdu] at h
  simp only [Option.bind_eq_bind, Option.bind_eq_some_iff, Option.pure_def, Option.some.injEq] at h
  obtain ⟨c₁, h₁, c₂, h₂, c₃, h₃, c₄, h₄, rfl⟩ := h
  obtain rfl := bits_putBits h₁
  obtain rfl := bits_putBits h₂
  have hsn : c₃.bits = (fieldBits (if s.isFirst then 0 else 1) 1 ++
      fieldBits (if s.isLast then 0 else 1) 1) ++ (if s.isFirst && s.isLast then fieldBits 0 6
        else fieldBits 0 (if e.cfg.snFieldLength = .sn12 then 2 else 0) ++
          fieldBits ((e.sdus s.sdu).sn.getD 0) e.cfg.snFieldLength.bits) := by
    by_cases hwhole : (s.isFirst && s.isLast) = true
    · rw [if_pos hwhole] at h₃ ⊢
      rw [bits_putBits h₃]
      rfl
    · rw [if_neg hwhole] at h₃ ⊢
      obtain ⟨c, hc, h₃⟩ := Option.bind_eq_some_iff.mp h₃
      rw [bits_putBits h₃, bits_putBits hc, ← List.append_assoc]
      rfl
  have hso : c₄.bits = c₃.bits ++ if s.isFirst then [] else fieldBits s.so 16 := by
    split_ifs at h₄ ⊢
    · obtain rfl := Option.some.inj h₄
      exact (List.append_nil _).symm
    · rw [bits_putBits h₄]
  rw [hso, hsn, pduBytes, headerBits, sliceOf]
  simp only [List.append_assoc]

theorem length_headerBits (cfg : UmConfig) (sn : ℕ) (s : Segment) :
    (headerBits cfg sn s).length % 8 = 0 := by
  rw [headerBits]
  cases cfg.snFieldLength <;> cases s.isFirst <;> cases s.isLast <;>
    simp [UmSnFieldLength.bits]

/-- The first two bits say which part of the SDU it is. -/
theorem fieldBits_si (a b : Bool) : fieldBits (if a then 0 else 1) 1 ++
    fieldBits (if b then 0 else 1) 1 =
      fieldBits (2 * (if a then 0 else 1) + if b then 0 else 1) 2 := by
  cases a <;> cases b <;> rfl

theorem parsePdu_whole {cfg : UmConfig} {sn : ℕ} {data : List UInt8} (hfirst : s.isFirst = true)
    (hlast : s.isLast = true) :
    parsePdu cfg (pduBytes cfg sn data s) =
      if sliceOf data s = [] then none else some (.whole (sliceOf data s)) := by
  have hheader : toBytes (headerBits cfg sn s) = [0] := by
    rw [headerBits, hfirst, hlast]
    rfl
  rw [pduBytes, hheader, parsePdu]
  cases hdata : sliceOf data s with
  | nil => rfl
  | cons b rest =>
    have hread : (Decoder.init ([0] ++ b :: rest)).getBits 2 =
        some (0, ⟨[0] ++ b :: rest, 0, 2⟩) := rfl
    have hlength : ¬ ([0] ++ b :: rest).length < 2 := by
      rw [List.singleton_append, List.length_cons, List.length_cons]
      omega
    rw [hread, if_neg (List.cons_ne_nil b rest)]
    dsimp only [Option.bind_eq_bind, Option.bind_some]
    rw [if_pos (by decide), if_neg hlength]
    rfl

theorem parsePdu_segment {cfg : UmConfig} {sn : ℕ} {data : List UInt8}
    (hsegment : (s.isFirst && s.isLast) = false) (hso : s.isFirst = true ↔ s.so = 0)
    (hso' : s.so < 2 ^ 16) (hsn : sn < cfg.snModulus) (hdata : sliceOf data s ≠ []) :
    parsePdu cfg (pduBytes cfg sn data s) =
      some (.segment (newPdu sn s.so s.isFirst s.isLast (sliceOf data s))) := by
  have hinit : Ahead (.init (pduBytes cfg sn data s)) (headerBits cfg sn s) (sliceOf data s) :=
    Ahead.init (length_headerBits cfg sn s)
  have hbits : headerBits cfg sn s = fieldBits
      (2 * (if s.isFirst then 0 else 1) + if s.isLast then 0 else 1) 2 ++
      (fieldBits 0 (if cfg.snFieldLength = .sn12 then 2 else 0) ++
        (fieldBits sn cfg.snFieldLength.bits ++ if s.isFirst then [] else fieldBits s.so 16)) := by
    rw [headerBits, hsegment, ← fieldBits_si]
    simp only [Bool.false_eq_true, if_false, List.append_assoc]
  have hsi : 2 * (if s.isFirst then 0 else 1) + (if s.isLast then 0 else 1) < 2 ^ 2 := by
    split_ifs <;> decide
  have hsn' : sn < 2 ^ cfg.snFieldLength.bits := by
    rw [UmConfig.snModulus, Nat.one_shiftLeft] at hsn
    exact hsn
  rw [hbits] at hinit
  obtain ⟨d₁, hget₁, h₁⟩ := hinit.getBits hsi
  obtain ⟨d₂, hget₂, h₂⟩ := h₁.getBits (Nat.two_pow_pos _)
  obtain ⟨d₃, hget₃, h₃⟩ := h₂.getBits hsn'
  have hfirst : ((2 * (if s.isFirst then 0 else 1) + if s.isLast then 0 else 1) / 2 % 2 == 0) =
      s.isFirst := by
    cases s.isFirst <;> cases s.isLast <;> rfl
  have hlast : ((2 * (if s.isFirst then 0 else 1) + if s.isLast then 0 else 1) % 2 == 0) =
      s.isLast := by
    cases s.isFirst <;> cases s.isLast <;> rfl
  -- the offset is there when the segment is not the first one
  obtain ⟨d₄, hget₄, h₄⟩ : ∃ d₄, (if s.isFirst then some (0, d₃) else d₃.getBits 16) =
      some (s.so, d₄) ∧ Ahead d₄ [] (sliceOf data s) := by
    split_ifs at h₃ ⊢ with hcase
    · exact ⟨d₃, by rw [hso.mp hcase], h₃⟩
    · rw [← List.append_nil (fieldBits s.so 16)] at h₃
      exact h₃.getBits hso'
  obtain ⟨hdrop, hlength⟩ := h₄.drop_eq
  have hpos := List.length_pos_iff.mpr hdata
  have hbad : (!s.isFirst && s.so == 0) = false := by
    cases hcase : s.isFirst with
    | true => rfl
    | false =>
      have hne : s.so ≠ 0 := fun hzero => by simp [hso.mpr hzero] at hcase
      simpa using hne
  rw [parsePdu, hget₁]
  dsimp only [Option.bind_eq_bind, Option.bind_some]
  rw [hfirst, hlast, hsegment, if_neg Bool.false_ne_true, parseSegment, hget₂]
  dsimp only [Option.bind_eq_bind, Option.bind_some]
  rw [hget₃]
  dsimp only [Option.bind_eq_bind, Option.bind_some]
  rw [hget₄]
  dsimp only [Option.bind_eq_bind, Option.bind_some]
  rw [hbad, if_neg Bool.false_ne_true, if_neg (by omega), hdrop]
  rfl

/-! ### Transmission -/

/-- The segment that `generate_tx_pdu` sends, if it sends one. -/
def sentSegment (e : UmEntity) (size : ℕ) : Option Segment :=
  match e.txList with
  | [] => none
  | s :: _ =>
    if e.computePduHeaderSize s + 1 > size then none
    else if e.computePduHeaderSize s + s.size > size then (e.resegment s size).1.map (·.1)
    else some s

/-- The submitted SDUs are the same. -/
structure SameSdus (e e' : UmEntity) : Prop where
  cfg : e'.cfg = e.cfg
  sduCount : e'.sduCount = e.sduCount
  data (i : ℕ) : (e'.sdus i).data = (e.sdus i).data

namespace SameSdus

theorem refl (e : UmEntity) : e.SameSdus e := ⟨rfl, rfl, fun _ => rfl⟩

theorem trans {e'' : UmEntity} (h : e.SameSdus e') (h' : e'.SameSdus e'') : e.SameSdus e'' :=
  ⟨h'.cfg.trans h.cfg, h'.sduCount.trans h.sduCount, fun i => (h'.data i).trans (h.data i)⟩

theorem setSdu {i : ℕ} {sdu : Sdu} (h : sdu.data = (e.sdus i).data) :
    e.SameSdus (e.setSdu i sdu) := by
  refine ⟨rfl, rfl, fun j => ?_⟩
  change (Function.update e.sdus i sdu j).data = (e.sdus j).data
  by_cases hj : j = i
  · rw [hj, Function.update_self, h]
  · rw [Function.update_of_ne hj]

end SameSdus

/-- What `generate_tx_pdu` does with the list: nothing is sent, and at most a whole SDU is lost; a
segment is sent; or a part of it is sent and the rest stays. -/
inductive Transmits (e : UmEntity) (size : ℕ) (pdu : List UInt8) (e' : UmEntity) : Prop
  | nothing : e.sentSegment size = none → e'.txNext = e.txNext →
      (e'.txList = e.txList ∨ ∃ s rest, e.txList = s :: rest ∧ s.isFirst = true ∧
        e'.txList = rest) → Transmits e size pdu e'
  | sent (s : Segment) (rest : List Segment) : e.txList = s :: rest →
      e.sentSegment size = some s → pdu = pduBytes e.cfg e.txNext (e.sdus s.sdu).data s →
      e'.txList = rest →
      e'.txNext = (if !s.isFirst && s.isLast then e.nextSn e.txNext else e.txNext) →
      Transmits e size pdu e'
  | split (s : Segment) (rest : List Segment) (k : ℕ) : e.txList = s :: rest → 0 < k →
      k < s.size → e.sentSegment size = some { s with size := k, isLast := false } →
      pdu = pduBytes e.cfg e.txNext (e.sdus s.sdu).data { s with size := k, isLast := false } →
      e'.txList = { s with size := s.size - k, so := s.so + k, isFirst := false } :: rest →
      e'.txNext = e.txNext → Transmits e size pdu e'

/-- The head of the list is taken with the next sequence number. -/
theorem sameSdus_takeHead (e : UmEntity) (s : Segment) (rest : List Segment) :
    e.SameSdus (e.takeHead s rest) := by
  have hset : e.SameSdus (e.setSdu s.sdu { e.sdus s.sdu with sn := some e.txNext }) := .setSdu rfl
  exact hset.trans ⟨rfl, rfl, fun _ => rfl⟩

theorem sn_takeHead (e : UmEntity) (s : Segment) (rest : List Segment) :
    ((e.takeHead s rest).sdus s.sdu).sn = some e.txNext := by
  change (Function.update e.sdus s.sdu _ s.sdu).sn = some e.txNext
  rw [Function.update_self]

/-- A segment is sent with the sequence number of its SDU. -/
theorem sendSegment_eq (h : e.sendSegment s size = some (pdu, e')) :
    e.SameSdus e' ∧ e'.txList = e.txList ∧
      e'.txNext = (if !s.isFirst && s.isLast then e.nextSn e.txNext else e.txNext) ∧
      pdu = pduBytes e.cfg ((e.sdus s.sdu).sn.getD 0) (e.sdus s.sdu).data s := by
  obtain ⟨pdu', hpdu, heq⟩ := Option.map_eq_some_iff.mp h
  obtain ⟨rfl, rfl⟩ := Prod.mk.inj heq
  have hpdu' := serializeSdu_eq hpdu
  have hset : ∀ (e : UmEntity) (i : ℕ) (freeCount : ℕ) (txSize : ℤ),
      e.SameSdus { e.setSdu i { e.sdus i with freeCount } with txSize } := by
    intro e i freeCount txSize
    have hset : e.SameSdus (e.setSdu i { e.sdus i with freeCount }) := .setSdu rfl
    exact hset.trans ⟨rfl, rfl, fun _ => rfl⟩
  rw [advanceTxNext] at hpdu' ⊢
  by_cases hcase : (!s.isFirst && s.isLast) = true
  · rw [if_pos hcase] at hpdu' ⊢
    have hnext : e.SameSdus { e with txNext := e.nextSn e.txNext } := ⟨rfl, rfl, fun _ => rfl⟩
    exact ⟨hnext.trans (hset _ _ _ _), rfl, (if_pos hcase).symm, hpdu'⟩
  · rw [if_neg hcase] at hpdu' ⊢
    exact ⟨hset _ _ _ _, rfl, (if_neg hcase).symm, hpdu'⟩

/-- The header of a segment is longer than the one of the segment it is split off only when that is
a whole SDU. -/
theorem isFirst_of_headerSize_ne {s : Segment}
    (h : e.computePduHeaderSize s ≠ e.computePduHeaderSize { s with isLast := false }) :
    s.isFirst = true := by
  by_contra hfirst
  refine h ?_
  rw [computePduHeaderSize, computePduHeaderSize]
  simp [hfirst]

theorem resegment_keeps {parts : Option (Segment × Segment)} {e₁ : UmEntity}
    (h : e.resegment s size = (parts, e₁)) :
    e.SameSdus e₁ ∧ e₁.txList = e.txList ∧ e₁.txNext = e.txNext ∧
      (e₁.sdus s.sdu).sn = (e.sdus s.sdu).sn := by
  have he₁ : e₁ =
      e.setSdu s.sdu { e.sdus s.sdu with refCount := (e.sdus s.sdu).refCount + 1 } := by
    rw [resegment] at h
    split_ifs at h
    · exact (Prod.mk.inj h).2.symm
    · exact (Prod.mk.inj h).2.symm
  rw [he₁]
  refine ⟨.setSdu rfl, rfl, rfl, ?_⟩
  change (Function.update e.sdus s.sdu _ s.sdu).sn = _
  rw [Function.update_self]

/-- The parts of a segment depend on the configuration only. -/
theorem resegment_fst (e : UmEntity) (s : Segment) (size : ℕ) :
    (e.resegment s size).1 = ((UmEntity.new e.cfg).resegment s size).1 := by
  rw [resegment, resegment]
  split_ifs with hroom hroom' hroom'
  · rfl
  · exact absurd hroom hroom'
  · exact absurd hroom' hroom
  · rfl

theorem generatePdu_spec (h : e.generatePdu size = some (pdu, e')) :
    e.SameSdus e' ∧ e.Transmits size pdu e' := by
  rw [generatePdu] at h
  cases hlist : e.txList with
  | nil =>
    rw [hlist] at h
    cases h
    exact ⟨.refl e, .nothing (by rw [sentSegment, hlist]) rfl (.inl rfl)⟩
  | cons s rest =>
    rw [hlist] at h
    have hsame := e.sameSdus_takeHead s rest
    have hsn := e.sn_takeHead s rest
    have hsent : e.sentSegment size = if e.computePduHeaderSize s + 1 > size then none
        else if e.computePduHeaderSize s + s.size > size then (e.resegment s size).1.map (·.1)
        else some s := by
      rw [sentSegment, hlist]
    by_cases hroom : e.computePduHeaderSize s + 1 > size
    · simp only [if_pos hroom] at h hsent
      cases h
      exact ⟨.refl e, .nothing hsent rfl (.inl rfl)⟩
    · simp only [if_neg hroom] at h hsent
      by_cases hsplit : (e.takeHead s rest).computePduHeaderSize s + s.size > size
      · have hsplit' : e.computePduHeaderSize s + s.size > size := hsplit
        rw [if_pos hsplit] at h
        rw [if_pos hsplit'] at hsent
        have hresegment : (e.resegment s size).1 = ((e.takeHead s rest).resegment s size).1 :=
          (e.resegment_fst s size).trans ((e.takeHead s rest).resegment_fst s size).symm
        rw [hresegment] at hsent
        rcases hparts : (e.takeHead s rest).resegment s size with ⟨_ | ⟨s', next⟩, e₁⟩
        · rw [hparts] at h hsent
          cases h
          obtain ⟨hsame₁, htxList₁, htxNext₁, -⟩ := resegment_keeps hparts
          obtain ⟨hsegment, -, -⟩ := resegment_eq_none hparts
          have hsegment' : size < e.computePduHeaderSize { s with isLast := false } + 1 := hsegment
          have hfirst : s.isFirst = true :=
            isFirst_of_headerSize_ne fun (heq : e.computePduHeaderSize s = _) => by omega
          exact ⟨hsame.trans hsame₁,
            .nothing hsent htxNext₁ (.inr ⟨s, rest, hlist, hfirst, htxList₁⟩)⟩
        · rw [hparts] at h hsent
          obtain ⟨hsame₁, htxList₁, htxNext₁, hsn₁⟩ := resegment_keeps hparts
          obtain ⟨hsegment, hs', hnext, -, -⟩ := resegment_eq_some hparts
          have hsegment' : e.computePduHeaderSize { s with isLast := false } + 1 ≤ size := hsegment
          have hle := e.computePduHeaderSize_le s
          have hk : s'.size =
              s.size - (e.computePduHeaderSize { s with isLast := false } + s.size - size) :=
            congrArg Segment.size hs'
          have hover : next.size = e.computePduHeaderSize { s with isLast := false } + s.size -
              size :=
            congrArg Segment.size hnext
          have hs'' : s' = { s with size := s'.size, isLast := false } := by
            rw [hs']
          have hnext' : next =
              { s with size := s.size - s'.size, so := s.so + s'.size, isFirst := false } := by
            have hsize : next.size = s.size - s'.size := by omega
            rw [← hsize, hnext]
          have hput : e₁.SameSdus (e₁.putBack next) := ⟨rfl, rfl, fun _ => rfl⟩
          obtain ⟨hsame', hlist', htxNext, hpdu⟩ := sendSegment_eq h
          have hall := hsame.trans (hsame₁.trans (hput.trans hsame'))
          refine ⟨hall, .split s rest s'.size hlist (by omega) (by omega) ?_ ?_ ?_ ?_⟩
          · rw [hsent, ← hs'']
            rfl
          · have hsdu : s'.sdu = s.sdu := by rw [hs']
            have hsn' : ((e₁.putBack next).sdus s.sdu).sn = some e.txNext := hsn₁.trans hsn
            have hdata := (hsame.trans (hsame₁.trans hput)).data s.sdu
            have hcfg := (hsame.trans (hsame₁.trans hput)).cfg
            rw [hpdu, hsdu, hsn', hdata, hcfg, ← hs'']
            rfl
          · rw [hlist', ← hnext']
            exact congrArg _ htxList₁
          · have hlast : s'.isLast = false := by rw [hs']
            rw [htxNext, hlast, Bool.and_false, if_neg Bool.false_ne_true]
            exact htxNext₁
      · have hsplit' : ¬ e.computePduHeaderSize s + s.size > size := hsplit
        rw [if_neg hsplit] at h
        rw [if_neg hsplit'] at hsent
        obtain ⟨hsame', hlist', hnext, hpdu⟩ := sendSegment_eq h
        refine ⟨hsame.trans hsame', .sent s rest hlist hsent ?_ hlist' hnext⟩
        rw [hpdu, hsn, hsame.data]
        rfl

/-! ### What the transmitting entity keeps -/

/-- The SDUs that were submitted stay as they are. -/
structure KeepsSdus (e e' : UmEntity) : Prop where
  cfg : e'.cfg = e.cfg
  sduCount : e.sduCount ≤ e'.sduCount
  data : ∀ i < e.sduCount, (e'.sdus i).data = (e.sdus i).data

theorem SameSdus.keepsSdus (h : e.SameSdus e') : e.KeepsSdus e' :=
  ⟨h.cfg, h.sduCount.ge, fun i _ => h.data i⟩

/-- A segment that waits is the rest of an SDU. -/
structure Waits (e : UmEntity) (s : Segment) : Prop where
  sdu : s.sdu < e.sduCount
  isLast : s.isLast = true
  isFirst : s.isFirst = true ↔ s.so = 0
  stop : s.so + s.size = (e.sdus s.sdu).data.length
  size : s.isFirst = false → 0 < s.size

theorem Waits.mono (h : e.Waits s) (he : e.KeepsSdus e') : e'.Waits s :=
  ⟨h.sdu.trans_le he.sduCount, h.isLast, h.isFirst, by rw [h.stop, he.data _ h.sdu], h.size⟩

/-- The list holds SDUs in the order in which they were submitted, and only the first one has been
sent in part; so many SDUs were sent in segments before it. -/
structure QueueInv (e : UmEntity) (number : ℕ) : Prop where
  txNext : e.txNext = number % e.cfg.snModulus
  order : e.txList.Pairwise fun s s' => s.sdu < s'.sdu
  waits : ∀ s ∈ e.txList, e.Waits s
  tail : ∀ s ∈ e.txList.tail, s.isFirst = true
  length : ∀ i < e.sduCount, (e.sdus i).data.length ≤ nrSduMax

theorem queueInv_new (cfg : UmConfig) : (new cfg).QueueInv 0 where
  txNext := (Nat.zero_mod _).symm
  order := .nil
  waits := fun _ hs => absurd hs (List.not_mem_nil)
  tail := fun _ hs => absurd hs (List.not_mem_nil)
  length := fun _ hi => absurd hi (Nat.not_lt_zero _)

theorem QueueInv.of_cons {number : ℕ} {rest : List Segment} (h : e.QueueInv number)
    (hlist : e.txList = s :: rest) : e.Waits s ∧ (∀ s' ∈ rest, s.sdu < s'.sdu) ∧
      rest.Pairwise (fun s s' => s.sdu < s'.sdu) ∧ (∀ s' ∈ rest, e.Waits s') ∧
      ∀ s' ∈ rest, s'.isFirst = true := by
  obtain ⟨-, horder, hwaits, htail, -⟩ := h
  rw [hlist] at horder hwaits htail
  rw [List.pairwise_cons] at horder
  rw [List.forall_mem_cons] at hwaits
  exact ⟨hwaits.1, horder.1, horder.2, hwaits.2, htail⟩

theorem nextSn_mod {number : ℕ} (h : e.txNext = number % e.cfg.snModulus) :
    e.nextSn e.txNext = (number + 1) % e.cfg.snModulus := by
  rw [nextSn, h, Nat.mod_add_mod]

theorem QueueInv.split {number k : ℕ} {rest : List Segment} (h : e.QueueInv number)
    (he : e.SameSdus e') (hlist : e.txList = s :: rest) (hpos : 0 < k) (hlt : k < s.size)
    (hlist' : e'.txList = { s with size := s.size - k, so := s.so + k, isFirst := false } :: rest)
    (hnext : e'.txNext = e.txNext) : e'.QueueInv number := by
  obtain ⟨hs, hbehind, horder, hwaits, hfirst⟩ := h.of_cons hlist
  refine ⟨by rw [hnext, h.txNext, he.cfg], ?_, ?_, ?_, fun i hi => ?_⟩
  · rw [hlist', List.pairwise_cons]
    exact ⟨hbehind, horder⟩
  · rw [hlist', List.forall_mem_cons]
    refine ⟨⟨he.sduCount ▸ hs.sdu, hs.isLast, ?_, ?_, fun _ => ?_⟩,
      fun s' hs' => (hwaits s' hs').mono he.keepsSdus⟩
    · dsimp only
      exact iff_of_false Bool.false_ne_true (by omega)
    · have hstop := hs.stop
      rw [he.data]
      dsimp only
      omega
    · dsimp only
      omega
  · rw [hlist']
    exact hfirst
  · rw [he.data]
    exact h.length i (he.sduCount ▸ hi)

/-- Segments are taken out of the list. -/
theorem QueueInv.sublist {number : ℕ} (h : e.QueueInv number) (he : e.SameSdus e')
    {number' : ℕ} (hnext : e'.txNext = number' % e.cfg.snModulus)
    (hlist : e'.txList.Sublist e.txList) : e'.QueueInv number' where
  txNext := by rw [hnext, he.cfg]
  order := h.order.sublist hlist
  waits := fun s hs => (h.waits s (hlist.subset hs)).mono he.keepsSdus
  tail := fun s hs => h.tail s (hlist.tail.subset hs)
  length := fun i hi => by
    rw [he.data]
    exact h.length i (he.sduCount ▸ hi)

/-- What `nr_rlc_entity_um_recv_sdu` does: nothing, or the SDU is the last one of the list. -/
theorem recvSdu_spec {buffer : List UInt8} {sduId : ℕ} (h : e.recvSdu buffer sduId = some e') :
    e' = e ∨ (buffer.length ≤ nrSduMax ∧ e.KeepsSdus e' ∧ e'.sduCount = e.sduCount + 1 ∧
      (e'.sdus e.sduCount).data = buffer ∧ e'.txNext = e.txNext ∧
      e'.txList = e.txList ++ [⟨e.sduCount, buffer.length, 0, true, true⟩]) := by
  rw [recvSdu] at h
  split_ifs at h with hlength hroom
  · exact .inl (Option.some.inj h).symm
  · obtain rfl := Option.some.inj h
    refine .inr ⟨Nat.not_lt.mp hlength, ⟨rfl, Nat.le_succ _, ?_⟩, rfl, ?_, rfl, rfl⟩
    · intro i hi
      exact congrArg Sdu.data (Function.update_of_ne hi.ne _ _)
    · exact congrArg Sdu.data (Function.update_self e.sduCount _ e.sdus)

theorem KeepsSdus.refl (e : UmEntity) : e.KeepsSdus e := (SameSdus.refl e).keepsSdus

theorem keepsSdus_recvSdu {buffer : List UInt8} {sduId : ℕ}
    (h : e.recvSdu buffer sduId = some e') : e.KeepsSdus e' := by
  rcases recvSdu_spec h with rfl | ⟨-, hkeeps, -⟩
  · exact .refl e'
  · exact hkeeps

theorem QueueInv.recvSdu {number sduId : ℕ} {buffer : List UInt8} (h : e.QueueInv number)
    (he : e.recvSdu buffer sduId = some e') : e'.QueueInv number := by
  rcases recvSdu_spec he with rfl | ⟨hlength, hkeeps, hcount, hdata, hnext, hlist⟩
  · exact h
  · refine ⟨by rw [hnext, h.txNext, hkeeps.cfg], ?_, ?_, ?_, ?_⟩
    · rw [hlist, List.pairwise_append]
      refine ⟨h.order, List.pairwise_singleton _ _, fun s hs s' hs' => ?_⟩
      rw [List.mem_singleton.mp hs']
      exact (h.waits s hs).sdu
    · intro s hs
      rw [hlist, List.mem_append, List.mem_singleton] at hs
      rcases hs with hs | rfl
      · exact (h.waits s hs).mono hkeeps
      · refine ⟨?_, rfl, by simp, ?_, fun hfirst => absurd hfirst (by simp)⟩
        · change e.sduCount < e'.sduCount
          omega
        · rw [hdata, Nat.zero_add]
    · intro s hs
      rw [hlist] at hs
      cases hold : e.txList with
      | nil =>
        rw [hold] at hs
        exact absurd hs List.not_mem_nil
      | cons s₀ rest =>
        rw [hold, List.cons_append, List.tail_cons, List.mem_append, List.mem_singleton] at hs
        rcases hs with hs | rfl
        · exact h.tail s (by rwa [hold])
        · rfl
    · intro i hi
      by_cases hnew : i = e.sduCount
      · rwa [hnew, hdata]
      · have hold : i < e.sduCount := by omega
        rw [hkeeps.data i hold]
        exact h.length i hold

/-- What `nr_rlc_entity_um_discard_sdu` does: nothing, or a whole SDU leaves the list. -/
theorem discardSdu_spec (e : UmEntity) (sduId : ℕ) :
    e.SameSdus (e.discardSdu sduId) ∧ (e.discardSdu sduId).txNext = e.txNext ∧
      (e.discardSdu sduId).txList.Sublist e.txList ∧
      ∀ s ∈ e.txList.head?, s.isFirst = false → s ∈ (e.discardSdu sduId).txList.head? := by
  rw [discardSdu]
  cases hfind : e.txList.find? fun s => (e.sdus s.sdu).upperLayerId == sduId with
  | none => exact ⟨.refl e, rfl, List.Sublist.refl _, fun s hs _ => hs⟩
  | some s =>
    dsimp only
    by_cases hwhole : (s.isFirst && s.isLast) = true
    · rw [if_pos hwhole]
      have hset : e.SameSdus (e.setSdu s.sdu { e.sdus s.sdu with
        freeCount := (e.sdus s.sdu).freeCount + 1 }) := .setSdu rfl
      refine ⟨hset.trans ⟨rfl, rfl, fun _ => rfl⟩, rfl, List.eraseP_sublist, ?_⟩
      intro s' hs' hfirst
      -- the first segment of the list is not the one that was found, which is whole
      obtain ⟨rest, hlist⟩ := List.head?_eq_some_iff.mp hs'
      rw [hlist, List.find?_cons] at hfind
      dsimp only
      rw [hlist, List.eraseP_cons]
      cases hid : (e.sdus s'.sdu).upperLayerId == sduId with
      | true =>
        rw [hid] at hfind
        obtain rfl := Option.some.inj hfind
        rw [hfirst] at hwhole
        cases hwhole
      | false => exact List.head?_cons
    · rw [if_neg hwhole]
      exact ⟨.refl e, rfl, List.Sublist.refl _, fun s hs _ => hs⟩

/-- A segment in a PDU has a place in the receive buffer if there is room for it, and it is not
before `rx_next_reassembly`. -/
def stored (e : UmEntity) (buffer : List UInt8) : Option Pdu :=
  match parsePdu e.cfg buffer with
  | some (.segment pdu) => if e.accepts pdu then some pdu else none
  | _ => none

/-- There is room for the segment in a PDU. -/
def hasRoomFor (e : UmEntity) (buffer : List UInt8) : Bool :=
  match parsePdu e.cfg buffer with
  | some (.segment pdu) => !decide (e.rxSize + pdu.size > e.cfg.rxMaxsize)
  | _ => false

/-- How many segments `nr_rlc_pdu_list_add` leaves before a new one. -/
def addIndex (e : UmEntity) (pdu : Pdu) : ℕ :=
  (e.rxList.takeWhile fun cur => !decide (e.modulusRx cur.sn > e.modulusRx pdu.sn ∨
    (cur.sn = pdu.sn ∧ cur.so > pdu.so))).length

end UmEntity

/-! ### The link -/

/-- A PDU on its way, the segment that it was made of, how many SDUs were sent in segments before,
and the SDU. -/
structure UmFlight where
  pdu : List UInt8
  segment : Segment
  number : ℕ
  data : List UInt8

/-- The two entities, and the PDUs between them. For the segments in the receive buffer the PDUs are
noted that brought them, and so are those of every SDU that is put together. -/
structure UmLink where
  tx : UmEntity
  rx : UmEntity
  channel : List UmFlight
  arrived : List UmFlight
  held : List UmFlight
  reassembled : List (List UmFlight)
  /-- The SDUs that were sent in segments. -/
  number : ℕ
  /-- The SDUs sent in segments up to the last one of which a segment arrived. -/
  heard : ℕ
  /-- The SDUs sent in segments up to the last one of which a segment arrived and found room. -/
  kept : ℕ

/-- A step of the link. -/
inductive UmLinkOp
  | submit (buffer : List UInt8) (sduId : ℕ)
  | discard (sduId : ℕ)
  | generate (size : ℕ)
  | lose
  | arrive
  | setTime (now : ℕ)

/-- The PDU is not one of several for its SDU. -/
def UmFlight.isWhole (f : UmFlight) : Bool := f.segment.isFirst && f.segment.isLast

namespace UmLink

/-- Nothing has been sent. -/
def new (tx rx : UmConfig) : UmLink := ⟨.new tx, .new rx, [], [], [], [], 0, 0, 0⟩

/-- A PDU enters the channel. -/
def send (l : UmLink) (pdu : List UInt8) (s : Segment) : UmLink :=
  { l with
    channel := l.channel ++ [⟨pdu, s, l.number, (l.tx.sdus s.sdu).data⟩]
    number := if !s.isFirst && s.isLast then l.number + 1 else l.number }

/-- The upper layer asks for a PDU of some size. -/
def generate (l : UmLink) (size : ℕ) : Option UmLink :=
  (l.tx.generatePdu size).map fun r =>
    match l.tx.sentSegment size with
    | none => { l with tx := r.2 }
    | some s => { l.send r.1 s with tx := r.2 }

/-- The segment of a PDU is put into the receive buffer; if it is the last one missing, the SDU is
put together. -/
def hold (l : UmLink) (f : UmFlight) (pdu : Pdu) : UmLink :=
  let k := l.rx.addIndex pdu
  let held := l.held.take k ++ f :: l.held.drop k
  let own := ((held.zip (l.rx.addPdu pdu).rxList).dropWhile (·.2.sn != pdu.sn)).takeWhile
    (·.2.sn == pdu.sn)
  { l with
    held
    reassembled :=
      if (l.rx.addPdu pdu).sduFull pdu.sn then l.reassembled ++ [own.map (·.1)] else l.reassembled }

/-- The receiving entity takes segments from the front of its list only. -/
def receive (l : UmLink) (rx : UmEntity) : UmLink :=
  { l with rx, held := l.held.drop (l.held.length - rx.rxList.length) }

/-- A PDU leaves the channel. -/
def hear (l : UmLink) (f : UmFlight) (channel : List UmFlight) : UmLink :=
  { l with
    channel
    arrived := l.arrived ++ [f]
    heard := if f.isWhole then l.heard else f.number + 1
    kept := if l.rx.hasRoomFor f.pdu then f.number + 1 else l.kept }

/-- The next PDU arrives. -/
def arrive (l : UmLink) : Option UmLink :=
  match l.channel with
  | [] => some l
  | f :: channel =>
    let l' :=
      match l.rx.stored f.pdu with
      | none => l.hear f channel
      | some pdu => (l.hear f channel).hold f pdu
    (l.rx.recvPdu f.pdu).map l'.receive

/-- A step. -/
def op (l : UmLink) : UmLinkOp → Option UmLink
  | .submit buffer sduId => (l.tx.recvSdu buffer sduId).map fun tx => { l with tx }
  | .discard sduId => some { l with tx := l.tx.discardSdu sduId }
  | .generate size => l.generate size
  | .lose => some { l with channel := l.channel.tail }
  | .arrive => l.arrive
  | .setTime now => (l.rx.setTime now).map l.receive

end UmLink

/-! ### The invariant of the transmitting side -/

namespace UmFlight

/-- A PDU was made of a segment. -/
structure WellFormed (cfg : UmConfig) (f : UmFlight) : Prop where
  pdu : f.pdu = UmEntity.pduBytes cfg (f.number % cfg.snModulus) f.data f.segment
  isFirst : f.segment.isFirst = true ↔ f.segment.so = 0
  size : f.isWhole = false → 0 < f.segment.size
  stop : f.segment.so + f.segment.size ≤ f.data.length
  isLast : f.segment.isLast = true → f.segment.so + f.segment.size = f.data.length
  length : f.data.length ≤ nrSduMax

/-- A PDU was made of a segment of an SDU of some entity. -/
structure Made (e : UmEntity) (f : UmFlight) : Prop where
  sdu : f.segment.sdu < e.sduCount
  data : f.data = (e.sdus f.segment.sdu).data
  wellFormed : f.WellFormed e.cfg

theorem Made.mono {e e' : UmEntity} {f : UmFlight} (h : f.Made e) (he : e.KeepsSdus e') :
    f.Made e' :=
  ⟨h.sdu.trans_le he.sduCount, h.data.trans (he.data _ h.sdu).symm, he.cfg ▸ h.wellFormed⟩

/-- A PDU was sent before another one. -/
structure Before (f g : UmFlight) : Prop where
  sdu : f.segment.sdu ≤ g.segment.sdu
  isLast : f.segment.isLast = true → f.segment.sdu < g.segment.sdu
  number : f.isWhole = false → g.isWhole = false →
    (f.number < g.number ∧ f.segment.sdu < g.segment.sdu) ∨
      (f.number = g.number ∧ f.segment.sdu = g.segment.sdu ∧ f.segment.so < g.segment.so ∧
        f.segment.isLast = false)

/-- A PDU was sent before all that waits: its SDU does not wait, or only the rest of it waits, as
the first segment of the list. -/
inductive Behind (e : UmEntity) (number : ℕ) (f : UmFlight) : Prop
  | done : (f.isWhole = false → f.number < number) → (∀ s ∈ e.txList, f.segment.sdu < s.sdu) →
      Behind e number f
  | begun (s : Segment) : s ∈ e.txList.head? → s.isFirst = false → s.sdu = f.segment.sdu →
      f.segment.so < s.so → f.number = number → f.isWhole = false → f.segment.isLast = false →
      Behind e number f

end UmFlight

namespace UmLink

open UmEntity UmFlight

variable {l l' : UmLink}

/-- The PDUs were sent in order, and before all that waits. -/
structure SendInv (l : UmLink) : Prop where
  queue : l.tx.QueueInv l.number
  made : ∀ f ∈ l.arrived ++ l.channel, f.Made l.tx
  behind : ∀ f ∈ l.arrived ++ l.channel, f.Behind l.tx l.number
  order : (l.arrived ++ l.channel).Pairwise Before

theorem sendInv_new (tx rx : UmConfig) : (new tx rx).SendInv where
  queue := queueInv_new tx
  made := fun _ hf => absurd hf List.not_mem_nil
  behind := fun _ hf => absurd hf List.not_mem_nil
  order := .nil

/-- PDUs leave the channel. -/
theorem SendInv.of_sublist (h : l.SendInv) (htx : l'.tx = l.tx) (hnumber : l'.number = l.number)
    (hflights : (l'.arrived ++ l'.channel).Sublist (l.arrived ++ l.channel)) : l'.SendInv where
  queue := by
    rw [htx, hnumber]
    exact h.queue
  made := fun f hf => htx ▸ h.made f (hflights.subset hf)
  behind := fun f hf => by
    rw [htx, hnumber]
    exact h.behind f (hflights.subset hf)
  order := h.order.sublist hflights

theorem SendInv.submit {buffer : List UInt8} {sduId : ℕ} {tx : UmEntity} (h : l.SendInv)
    (he : l.tx.recvSdu buffer sduId = some tx) : SendInv { l with tx } where
  queue := h.queue.recvSdu he
  made := fun f hf => (h.made f hf).mono (keepsSdus_recvSdu he)
  order := h.order
  behind := fun f hf => by
    rcases recvSdu_spec he with rfl | ⟨-, -, -, -, -, hlist⟩
    · exact h.behind f hf
    · cases h.behind f hf with
      | done hnumber hlt =>
        refine .done hnumber fun s hs => ?_
        change s ∈ tx.txList at hs
        rw [hlist, List.mem_append, List.mem_singleton] at hs
        rcases hs with hs | rfl
        · exact hlt s hs
        · exact (h.made f hf).sdu
      | begun s hs hfirst hsdu hso hnumber hwhole hlast =>
        obtain ⟨rest, hrest⟩ := List.head?_eq_some_iff.mp hs
        refine .begun s ?_ hfirst hsdu hso hnumber hwhole hlast
        change s ∈ tx.txList.head?
        rw [hlist, hrest]
        rfl

theorem SendInv.discard (h : l.SendInv) (sduId : ℕ) :
    SendInv { l with tx := l.tx.discardSdu sduId } := by
  obtain ⟨hsame, hnext, hlist, hhead⟩ := l.tx.discardSdu_spec sduId
  refine ⟨h.queue.sublist hsame (hnext.trans h.queue.txNext) hlist, fun f hf =>
    (h.made f hf).mono hsame.keepsSdus,
    fun f hf => ?_, h.order⟩
  cases h.behind f hf with
  | done hnumber hlt => exact .done hnumber fun s hs => hlt s (hlist.subset hs)
  | begun s hs hfirst hsdu hso hnumber hwhole hlast =>
    exact .begun s (hhead s hs hfirst) hfirst hsdu hso hnumber hwhole hlast

/-- What was sent was sent before a part of the first segment of the list. -/
theorem before_of_behind {e : UmEntity} {number : ℕ} {f g : UmFlight} {s : Segment}
    {rest : List Segment} (h : f.Behind e number) (hlist : e.txList = s :: rest)
    (hsdu : g.segment.sdu = s.sdu) (hso : g.segment.so = s.so) (hnumber : g.number = number) :
    f.Before g := by
  cases h with
  | done hf hlt =>
    have hs : f.segment.sdu < s.sdu := hlt s (by rw [hlist]; exact List.mem_cons_self ..)
    rw [← hsdu] at hs
    exact ⟨hs.le, fun _ => hs, fun hwhole _ => .inl ⟨hnumber ▸ hf hwhole, hs⟩⟩
  | begun s₀ hs₀ hfirst hsdu₀ hso₀ hf hwhole hlast =>
    rw [hlist] at hs₀
    obtain rfl := Option.some.inj hs₀
    have heq : f.segment.sdu = g.segment.sdu := hsdu₀.symm.trans hsdu.symm
    refine ⟨heq.le, fun hlast' => ?_, fun _ _ => ?_⟩
    · rw [hlast] at hlast'
      cases hlast'
    · exact .inr ⟨hf.trans hnumber.symm, heq, hso ▸ hso₀, hlast⟩

/-- A PDU is sent, and the list and the number of SDUs sent in segments change. -/
theorem SendInv.send {pdu : List UInt8} {s s' : Segment} {rest : List Segment} {tx : UmEntity}
    (h : l.SendInv) (hlist : l.tx.txList = s :: rest) (hsame : l.tx.SameSdus tx)
    (hsdu : s'.sdu = s.sdu) (hso : s'.so = s.so) (hfirst : s'.isFirst = s.isFirst)
    (hpdu : pdu = pduBytes l.tx.cfg l.tx.txNext (l.tx.sdus s'.sdu).data s')
    (hsize : 0 < s'.size ∨ (s'.isFirst = true ∧ s'.isLast = true))
    (hstop : s'.so + s'.size ≤ (l.tx.sdus s'.sdu).data.length)
    (hlast : s'.isLast = true → s'.so + s'.size = (l.tx.sdus s'.sdu).data.length)
    (hqueue : tx.QueueInv (l.send pdu s').number)
    (hbehind : ∀ f : UmFlight, f.Behind l.tx l.number ∨
      (f.segment = s' ∧ f.number = l.number) → f.Behind tx (l.send pdu s').number) :
    SendInv { l.send pdu s' with tx } := by
  set g : UmFlight := ⟨pdu, s', l.number, (l.tx.sdus s'.sdu).data⟩ with hg
  have hflights : l.arrived ++ (l.channel ++ [g]) = (l.arrived ++ l.channel) ++ [g] :=
    (List.append_assoc ..).symm
  have hs := h.queue.waits s (by rw [hlist]; exact List.mem_cons_self ..)
  have hmade : g.Made l.tx := by
    refine ⟨?_, rfl, ?_, ?_, ?_, hstop, hlast, ?_⟩
    · rw [hg, hsdu]
      exact hs.sdu
    · rw [hg, hpdu, h.queue.txNext]
    · rw [hg, hfirst, hso]
      exact hs.isFirst
    · intro hwhole
      rcases hsize with hsize | ⟨hf, hl⟩
      · exact hsize
      · rw [UmFlight.isWhole, hf, hl] at hwhole
        cases hwhole
    · rw [hg, hsdu]
      exact h.queue.length _ hs.sdu
  refine ⟨hqueue, fun f hf => ?_, fun f hf => ?_, ?_⟩
  · change f ∈ l.arrived ++ (l.channel ++ [g]) at hf
    rw [hflights, List.mem_append, List.mem_singleton] at hf
    rcases hf with hf | rfl
    · exact (h.made f hf).mono hsame.keepsSdus
    · exact hmade.mono hsame.keepsSdus
  · change f ∈ l.arrived ++ (l.channel ++ [g]) at hf
    rw [hflights, List.mem_append, List.mem_singleton] at hf
    rcases hf with hf | rfl
    · exact hbehind f (.inl (h.behind f hf))
    · exact hbehind g (.inr ⟨rfl, rfl⟩)
  · change (l.arrived ++ (l.channel ++ [g])).Pairwise Before
    rw [hflights, List.pairwise_append]
    refine ⟨h.order, List.pairwise_singleton _ _, fun f hf g' hg' => ?_⟩
    rw [List.mem_singleton.mp hg']
    exact before_of_behind (h.behind f hf) hlist hsdu hso rfl

theorem SendInv.generate {size : ℕ} (h : l.SendInv) (he : l.generate size = some l') :
    l'.SendInv := by
  obtain ⟨⟨pdu, tx⟩, hgen, rfl⟩ := Option.map_eq_some_iff.mp he
  obtain ⟨hsame, htransmits⟩ := generatePdu_spec hgen
  cases htransmits with
  | nothing hsent hnext hlist =>
    rw [hsent]
    rcases hlist with hlist | ⟨s, rest, hlist, hfirst, hrest⟩
    · refine ⟨h.queue.sublist hsame (hnext.trans h.queue.txNext) (hlist ▸ List.Sublist.refl _),
        fun f hf => (h.made f hf).mono hsame.keepsSdus, fun f hf => ?_, h.order⟩
      cases h.behind f hf with
      | done hnumber hlt => exact .done hnumber (hlist ▸ hlt)
      | begun s hs hfirst hsdu hso hnumber hwhole hlast =>
        exact .begun s (hlist ▸ hs) hfirst hsdu hso hnumber hwhole hlast
    · have hsub : tx.txList.Sublist l.tx.txList := by
        rw [hlist, hrest]
        exact List.sublist_cons_self s rest
      refine ⟨h.queue.sublist hsame (hnext.trans h.queue.txNext) hsub,
        fun f hf => (h.made f hf).mono hsame.keepsSdus, fun f hf => ?_, h.order⟩
      cases h.behind f hf with
      | done hnumber hlt => exact .done hnumber fun s hs => hlt s (hsub.subset hs)
      | begun s' hs' hfirst' =>
        -- the SDU that is lost has not been sent in part
        rw [hlist] at hs'
        obtain rfl := Option.some.inj hs'
        rw [hfirst] at hfirst'
        cases hfirst'
  | sent s rest hlist hsent hpdu hrest hnext =>
    rw [hsent]
    obtain ⟨hs, hbehind, -, -, -⟩ := h.queue.of_cons hlist
    have hsize : 0 < s.size ∨ (s.isFirst = true ∧ s.isLast = true) := by
      cases hfirst : s.isFirst with
      | true => exact .inr ⟨rfl, hs.isLast⟩
      | false => exact .inl (hs.size hfirst)
    refine h.send hlist hsame rfl rfl rfl hpdu hsize hs.stop.le (fun _ => hs.stop) ?_ ?_
    · refine h.queue.sublist hsame ?_ ?_
      · change tx.txNext = (if !s.isFirst && s.isLast then l.number + 1 else l.number) % _
        rw [hnext]
        split_ifs
        · exact nextSn_mod h.queue.txNext
        · exact h.queue.txNext
      · rw [hlist, hrest]
        exact List.sublist_cons_self s rest
    · intro f hf
      have hlt : f.segment.sdu ≤ s.sdu → ∀ s' ∈ tx.txList, f.segment.sdu < s'.sdu :=
        fun hle s' hs' => hle.trans_lt (hbehind s' (hrest ▸ hs'))
      have hsend : (l.send pdu s).number = if !s.isFirst && s.isLast then l.number + 1
          else l.number := rfl
      rw [hsend]
      rcases hf with (⟨hnumber, hlt⟩ | ⟨s₀, hs₀, hfirst, hsdu, hso, hnumber, -, -⟩) | ⟨rfl, hnumber⟩
      · refine .done (fun hwhole => ?_) fun s' hs' => ?_
        · have := hnumber hwhole
          split_ifs <;> omega
        · exact hlt s' (by rw [hlist]; exact List.mem_cons_of_mem _ (hrest ▸ hs'))
      · rw [hlist] at hs₀
        obtain rfl := Option.some.inj hs₀
        rw [hfirst, hs.isLast]
        exact .done (fun _ => hnumber ▸ Nat.lt_succ_self _) (hlt hsdu.ge)
      · refine .done (fun hwhole => ?_) (hlt le_rfl)
        rw [UmFlight.isWhole, hs.isLast, Bool.and_true] at hwhole
        rw [hwhole, hs.isLast, hnumber]
        exact Nat.lt_succ_self _
  | split s rest k hlist hpos hlt hsent hpdu hrest hnext =>
    rw [hsent]
    obtain ⟨hs, hbehind, -, -, -⟩ := h.queue.of_cons hlist
    have hstop := hs.stop
    have hle : s.so + k ≤ (l.tx.sdus s.sdu).data.length := by omega
    have hnumber : (l.send pdu { s with size := k, isLast := false }).number = l.number := by
      change (if !s.isFirst && false then l.number + 1 else l.number) = l.number
      rw [Bool.and_false, if_neg Bool.false_ne_true]
    refine h.send hlist hsame rfl rfl rfl hpdu (.inl hpos) hle
      (fun hlast => absurd hlast Bool.false_ne_true) ?_ ?_
    · rw [hnumber]
      exact h.queue.split hsame hlist hpos hlt hrest hnext
    · set next : Segment := { s with size := s.size - k, so := s.so + k, isFirst := false }
      have hhead : next ∈ tx.txList.head? := by
        rw [hrest]
        rfl
      intro f hf
      rw [hnumber]
      rcases hf with (⟨hnumber, hlt⟩ | ⟨s₀, hs₀, -, hsdu, hso, hnumber, hwhole, hlast⟩) |
        ⟨hseg, hnumber⟩
      · refine .done hnumber ?_
        rw [hlist, List.forall_mem_cons] at hlt
        rw [hrest, List.forall_mem_cons]
        exact hlt
      · rw [hlist] at hs₀
        obtain rfl := Option.some.inj hs₀
        exact .begun next hhead rfl hsdu (Nat.lt_add_right k hso) hnumber hwhole hlast
      · have hwhole : f.isWhole = false := by
          rw [UmFlight.isWhole, hseg]
          exact Bool.and_false _
        refine .begun next hhead rfl ?_ ?_ hnumber hwhole ?_
        · rw [hseg]
        · rw [hseg]
          exact Nat.lt_add_of_pos_right hpos
        · rw [hseg]

end UmLink

end LlmHric.Rlc
