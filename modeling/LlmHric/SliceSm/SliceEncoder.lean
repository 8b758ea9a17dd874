import LlmHric.SliceSm.SliceData

/-! The encoder first adds up the sizes of all fields in a machine word, allocates as much, and then
goes through the message once more to copy the fields. It asserts in the end that both agree. -/

namespace LlmHric.SliceSm

open ByteOrder Checked

namespace Enc

/-! ### Sizes -/

/-- `sizeof` of a `uint32_t`. -/
def sizeofU32 : UInt64 := 4

/-- `sizeof` of a `uint16_t`. -/
def sizeofU16 : UInt64 := 2

/-- `sizeof` of an `int64_t`. -/
def sizeofInt64 : UInt64 := 8

/-- `sizeof` of a `float`. -/
def sizeofFloat : UInt64 := 4

/-- `sizeof` of an enumeration. -/
def sizeofEnum : UInt64 := 4

def calStatic (_sta : StaticSlice) : UInt64 := sizeofU32 + sizeofU32

def calNvs : NvsSlice → UInt64
  | .rate _ => sizeofEnum + sizeofFloat + sizeofFloat
  | .capacity _ => sizeofEnum + sizeofFloat

def calScn19 : Scn19Slice → UInt64
  | .dynamic _ => sizeofEnum + sizeofFloat + sizeofFloat
  | .fixed _ => sizeofEnum + sizeofU32 + sizeofU32
  | .onDemand _ => sizeofEnum + sizeofFloat + sizeofFloat + sizeofU32

def calEdf (edf : EdfSlice) : UInt64 :=
  edf.overs.items.foldl (fun sz _ => sz + sizeofU32) (sizeofU32 + sizeofU32 + sizeofU32 + sizeofU32)

/-- The size of the parameters; there is none without an algorithm. -/
def calParams (par : SliceParams) : Outcome UInt64 := do
  let sz ← match par with
    | .none => .fault .assertion
    | .sta sta => .done (calStatic sta)
    | .nvs nvs => .done (calNvs nvs)
    | .scn19 scn19 => .done (calScn19 scn19)
    | .edf edf => .done (calEdf edf)
  return sizeofEnum + sz

/-- The size of the slices. -/
def calSlc (slc : List FrSlice) : Outcome UInt64 :=
  slc.foldlM (fun total s => do
    let szPar ← calParams s.params
    return total + (sizeofU32 + sizeofU32 + s.label.len.toUInt64 + sizeofU32 +
      s.sched.len.toUInt64 + szPar)) 0

/-- The size of the slices in one direction, with the name of the scheduler. -/
def calUlDl (slc : UlDlSliceConf) : Outcome UInt64 := do
  let szSlice ← calSlc slc.slices.items
  return sizeofU32 + slc.schedName.len.toUInt64 + sizeofU32 + szSlice

/-- The size of the slices in both directions. -/
def calSliceConf (slc : SliceConf) : Outcome UInt64 := do
  let ul ← calUlDl slc.ul
  let dl ← calUlDl slc.dl
  return ul + dl

/-- The size of the association of a user. -/
def calUeSliceAssoc (_assoc : UeSliceAssoc) : UInt64 := sizeofU32 + sizeofU32 + sizeofU16

/-- The size of the associations of all users. -/
def calUeSliceConf (slc : UeSliceConf) : UInt64 :=
  slc.ues.items.foldl (fun sz assoc => sz + calUeSliceAssoc assoc) sizeofU32

/-- The size of the slices to delete. -/
def calDelSlice (del : DelSliceConf) : UInt64 :=
  sizeofU32 + del.dl.len.toUInt64 * sizeofU32 + sizeofU32 + del.ul.len.toUInt64 * sizeofU32

/-- The size of an indication. -/
def calIndMsgPayload (indMsg : SliceIndMsg) : Outcome UInt64 := do
  let szConf ← calSliceConf indMsg.sliceConf
  return szConf + calUeSliceConf indMsg.ueSliceConf + sizeofInt64

/-- The size of a control message. -/
def calCtrlMsgPayload (ctrlMsg : SliceCtrlMsg) : Outcome UInt64 := do
  let sz ← match ctrlMsg with
    | .addModSlice conf => calSliceConf conf
    | .delSlice conf => .done (calDelSlice conf)
    | .ueSlice conf => .done (calUeSliceConf conf)
  return sizeofEnum + sz

/-! ### Copies -/

/-- Copy a number of 32 bits. -/
def put32 (x : UInt32) : Writer := .put (bytes32 x)

def fillStatic (sta : StaticSlice) : Writer :=
  .beforeEnd ((put32 sta.posHigh).andThen (put32 sta.posLow))

/-- Copy the rates of a slice. -/
def fillRate (nvs : NvsRate) : Writer :=
  (put32 nvs.mbpsReference).andThen (put32 nvs.mbpsRequired)

/-- Copy the share of a slice. -/
def fillCapacity (nvs : NvsCapacity) : Writer := put32 nvs.pctReserved

def fillNvs (nvs : NvsSlice) : Writer :=
  (put32 nvs.conf.number).andThen
    (match nvs with
    | .rate rate => fillRate rate
    | .capacity capacity => fillCapacity capacity)

/-- Copy the demand of a slice. -/
def fillOnDemand (scn : Scn19OnDemand) : Writer :=
  (put32 scn.logDelta).andThen ((put32 scn.pctReserved).andThen (put32 scn.tau))

def fillScn19 (scn : Scn19Slice) : Writer :=
  (put32 scn.conf.number).andThen
    (match scn with
    | .dynamic dynamic => fillRate dynamic
    | .fixed fixed => fillStatic fixed
    | .onDemand onDemand => fillOnDemand onDemand)

def fillEdf (edf : EdfSlice) : Writer :=
  (put32 edf.deadline).andThen ((put32 edf.guaranteedPrbs).andThen
    ((put32 edf.maxReplenish).andThen ((put32 edf.overs.len).andThen
      (.each put32 edf.overs.items))))

def fillParams (par : SliceParams) : Writer :=
  (put32 par.type.number).andThen
    (match par with
    | .none => .abort
    | .sta sta => fillStatic sta
    | .nvs nvs => fillNvs nvs
    | .scn19 scn19 => fillScn19 scn19
    | .edf edf => fillEdf edf)

/-- Copy a slice. -/
def fillSlice (slc : FrSlice) : Writer :=
  .beforeEnd ((put32 slc.id).andThen ((put32 slc.label.len).andThen
    ((Writer.put slc.label.items).andThen ((put32 slc.sched.len).andThen
      ((Writer.put slc.sched.items).andThen (fillParams slc.params))))))

/-- Copy the slices in one direction. -/
def fillUlDlSliceConf (conf : UlDlSliceConf) : Writer :=
  (put32 conf.schedName.len).andThen ((Writer.put conf.schedName.items).andThen
    ((put32 conf.slices.len).andThen (.each fillSlice conf.slices.items)))

/-- Copy the slices in both directions. -/
def fillSliceConf (conf : SliceConf) : Writer :=
  (fillUlDlSliceConf conf.dl).andThen (fillUlDlSliceConf conf.ul)

/-- Copy the association of a user. -/
def fillUeSliceAssoc (assoc : UeSliceAssoc) : Writer :=
  .beforeEnd ((put32 assoc.dlId).andThen ((put32 assoc.ulId).andThen (.put (bytes16 assoc.rnti))))

/-- Copy the associations of all users. -/
def fillUeSliceConf (slc : UeSliceConf) : Writer :=
  (put32 slc.ues.len).andThen (.each fillUeSliceAssoc slc.ues.items)

/-- Copy the slices to delete. -/
def fillDelSliceConf (conf : DelSliceConf) : Writer :=
  (put32 conf.dl.len).andThen ((Writer.each put32 conf.dl.items).andThen
    ((put32 conf.ul.len).andThen (.each put32 conf.ul.items)))

/-- Copy an indication: the copies that `slice_enc_ind_msg_plain` makes. -/
def fillIndMsg (indMsg : SliceIndMsg) : Writer :=
  (fillSliceConf indMsg.sliceConf).andThen ((fillUeSliceConf indMsg.ueSliceConf).andThen
    (.put (bytesInt64 indMsg.tstamp)))

/-- Copy a control message. -/
def fillSliceCtrlMsg (msg : SliceCtrlMsg) : Writer :=
  (put32 msg.type.number).andThen
    (match msg with
    | .addModSlice conf => fillSliceConf conf
    | .delSlice conf => fillDelSliceConf conf
    | .ueSlice conf => fillUeSliceConf conf)

/-- A fresh block of memory, with whatever is in it. -/
def malloc (fresh : ℕ → UInt8) (sz : UInt64) : List UInt8 := (List.range sz.toNat).map fresh

@[simp] theorem length_malloc (fresh : ℕ → UInt8) (sz : UInt64) :
    (malloc fresh sz).length = sz.toNat := by
  rw [malloc, List.length_map, List.length_range]

/-- Allocate what the message needs, copy it, and assert that everything is filled. -/
def allocAndFill (fresh : ℕ → UInt8) (size : Outcome UInt64) (fill : Writer) :
    Outcome (List UInt8) := do
  let sz ← size
  let (buf, it) ← fill (malloc fresh sz) 0
  Outcome.assertFatal (it = sz.toNat)
  return buf

/-- `slice_enc_ind_msg_plain`. -/
def sliceEncIndMsgPlain (fresh : ℕ → UInt8) (indMsg : SliceIndMsg) : Outcome (List UInt8) :=
  allocAndFill fresh (calIndMsgPayload indMsg) (fillIndMsg indMsg)

/-- `slice_enc_ctrl_msg_plain`. -/
def sliceEncCtrlMsgPlain (fresh : ℕ → UInt8) (ctrlMsg : SliceCtrlMsg) : Outcome (List UInt8) :=
  allocAndFill fresh (calCtrlMsgPayload ctrlMsg) (fillSliceCtrlMsg ctrlMsg)

/-! ### What the sizes are -/

variable {α : Type}

theorem toUInt64_len (xs : Counted α) : xs.len.toUInt64 = UInt64.ofNat xs.items.length := by
  apply UInt64.toNat_inj.mp
  have hlt : xs.items.length < 2 ^ 64 := xs.length_lt.trans (by decide)
  rw [UInt32.toNat_toUInt64, xs.toNat_len, UInt64.toNat_ofNat_of_lt' hlt]

/-- A loop that adds up the sizes of elements. -/
theorem foldl_size {f : UInt64 → α → UInt64} (enc : α → List UInt8)
    (hf : ∀ sz a, f sz a = sz + UInt64.ofNat (enc a).length) (as : List α) (n : ℕ) :
    as.foldl f (UInt64.ofNat n) = UInt64.ofNat (n + (as.flatMap enc).length) := by
  induction as generalizing n with
  | nil => rfl
  | cons a as ih =>
    rw [List.foldl_cons, hf, ← UInt64.ofNat_add, ih, List.flatMap_cons, List.length_append,
      Nat.add_assoc]

/-- A loop that adds up sizes and may fail succeeds if no element makes it fail. -/
theorem foldlM_size {f : UInt64 → α → Outcome UInt64} (enc : α → List UInt8) {p : α → Prop}
    (hf : ∀ total a sz, f total a = .done sz ↔ p a ∧ sz = total + UInt64.ofNat (enc a).length)
    (as : List α) (n : ℕ) (sz : UInt64) :
    as.foldlM f (UInt64.ofNat n) = .done sz ↔
      (∀ a ∈ as, p a) ∧ sz = UInt64.ofNat (n + (as.flatMap enc).length) := by
  induction as generalizing n with
  | nil => simp [eq_comm]
  | cons a as ih =>
    rw [List.foldlM_cons, Outcome.bind_eq_done_iff, List.forall_mem_cons, and_assoc,
      List.flatMap_cons, List.length_append, ← Nat.add_assoc, ← ih, UInt64.ofNat_add]
    constructor
    · rintro ⟨total, htotal, hsz⟩
      obtain ⟨hp, rfl⟩ := (hf _ _ _).mp htotal
      exact ⟨hp, hsz⟩
    · rintro ⟨hp, hsz⟩
      exact ⟨_, (hf _ _ _).mpr ⟨hp, rfl⟩, hsz⟩

theorem calStatic_eq (sta : StaticSlice) : calStatic sta = UInt64.ofNat sta.bytes.length := by
  simp [StaticSlice.bytes, calStatic, sizeofU32]

theorem calNvs_eq (nvs : NvsSlice) : calNvs nvs = UInt64.ofNat nvs.bytes.length := by
  cases nvs <;>
    simp [NvsSlice.bytes, NvsRate.bytes, NvsCapacity.bytes, calNvs, sizeofEnum, sizeofFloat]

theorem calScn19_eq (scn : Scn19Slice) : calScn19 scn = UInt64.ofNat scn.bytes.length := by
  cases scn <;>
    simp [Scn19Slice.bytes, NvsRate.bytes, StaticSlice.bytes, Scn19OnDemand.bytes, calScn19,
      sizeofEnum, sizeofFloat, sizeofU32]

theorem calEdf_eq (edf : EdfSlice) : calEdf edf = UInt64.ofNat edf.bytes.length := by
  have hlen : edf.bytes.length = 16 + (edf.overs.items.flatMap bytes32).length := by
    simp only [EdfSlice.bytes, List.length_append, length_bytes32]
    omega
  rw [hlen]
  apply foldl_size
  intro sz x
  rw [length_bytes32]
  rfl

/-- The parameters have a size if there is an algorithm. -/
theorem calParams_eq_done_iff {par : SliceParams} {sz : UInt64} :
    calParams par = .done sz ↔ par ≠ .none ∧ sz = UInt64.ofNat par.bytes.length := by
  have hsum (n : ℕ) : sizeofEnum + UInt64.ofNat n = UInt64.ofNat (4 + n) := by
    rw [UInt64.ofNat_add]
    rfl
  cases par with
  | none => simp [calParams]
  | sta sta => simp [calParams, SliceParams.bytes, calStatic_eq, hsum, eq_comm]
  | nvs nvs => simp [calParams, SliceParams.bytes, calNvs_eq, hsum, eq_comm]
  | scn19 scn19 => simp [calParams, SliceParams.bytes, calScn19_eq, hsum, eq_comm]
  | edf edf => simp [calParams, SliceParams.bytes, calEdf_eq, hsum, eq_comm]

theorem calSlc_eq_done_iff {slc : List FrSlice} {sz : UInt64} :
    calSlc slc = .done sz ↔
      (∀ s ∈ slc, s.Supported) ∧ sz = UInt64.ofNat (slc.flatMap FrSlice.bytes).length := by
  have hloop := foldlM_size (f := fun total s => do
    let szPar ← calParams s.params
    return total + (sizeofU32 + sizeofU32 + s.label.len.toUInt64 + sizeofU32 +
      s.sched.len.toUInt64 + szPar)) FrSlice.bytes (p := FrSlice.Supported) ?_ slc 0 sz
  · rwa [Nat.zero_add] at hloop
  · intro total s sz
    have hlen : s.bytes.length =
        4 + 4 + s.label.items.length + 4 + s.sched.items.length + s.params.bytes.length := by
      simp only [FrSlice.bytes, List.length_append, length_bytes32]
      omega
    simp only [Outcome.bind_eq_done_iff, calParams_eq_done_iff, Outcome.pure_eq,
      Outcome.done.injEq, FrSlice.Supported, hlen, UInt64.ofNat_add, toUInt64_len]
    constructor
    · rintro ⟨szPar, ⟨hpar, rfl⟩, rfl⟩
      exact ⟨hpar, rfl⟩
    · rintro ⟨hpar, rfl⟩
      exact ⟨_, ⟨hpar, rfl⟩, rfl⟩

theorem calUlDl_eq_done_iff {slc : UlDlSliceConf} {sz : UInt64} :
    calUlDl slc = .done sz ↔
      (∀ s ∈ slc.slices.items, s.Supported) ∧ sz = UInt64.ofNat slc.bytes.length := by
  have hlen : slc.bytes.length = 4 + slc.schedName.items.length + 4 +
      (slc.slices.items.flatMap FrSlice.bytes).length := by
    simp only [UlDlSliceConf.bytes, List.length_append, length_bytes32]
    omega
  simp only [calUlDl, Outcome.bind_eq_done_iff, calSlc_eq_done_iff, Outcome.pure_eq,
    Outcome.done.injEq, hlen, UInt64.ofNat_add, toUInt64_len]
  constructor
  · rintro ⟨szSlice, ⟨hslices, rfl⟩, rfl⟩
    exact ⟨hslices, rfl⟩
  · rintro ⟨hslices, rfl⟩
    exact ⟨_, ⟨hslices, rfl⟩, rfl⟩

theorem calSliceConf_eq_done_iff {slc : SliceConf} {sz : UInt64} :
    calSliceConf slc = .done sz ↔ slc.Supported ∧ sz = UInt64.ofNat slc.bytes.length := by
  simp only [calSliceConf, Outcome.bind_eq_done_iff, calUlDl_eq_done_iff, Outcome.pure_eq,
    Outcome.done.injEq, SliceConf.Supported, SliceConf.bytes, List.length_append,
    UInt64.ofNat_add]
  constructor
  · rintro ⟨ul, ⟨hul, rfl⟩, dl, ⟨hdl, rfl⟩, rfl⟩
    exact ⟨⟨hul, hdl⟩, UInt64.add_comm _ _⟩
  · rintro ⟨⟨hul, hdl⟩, rfl⟩
    exact ⟨_, ⟨hul, rfl⟩, _, ⟨hdl, rfl⟩, UInt64.add_comm _ _⟩

theorem calUeSliceConf_eq (slc : UeSliceConf) :
    calUeSliceConf slc = UInt64.ofNat slc.bytes.length := by
  rw [UeSliceConf.bytes, List.length_append, length_bytes32]
  apply foldl_size
  intro sz assoc
  simp [UeSliceAssoc.bytes, calUeSliceAssoc, sizeofU32, sizeofU16]

theorem length_flatMap_bytes32 (xs : List UInt32) :
    (xs.flatMap bytes32).length = xs.length * 4 := by
  induction xs with
  | nil => rfl
  | cons x xs ih =>
    rw [List.flatMap_cons, List.length_append, ih, length_bytes32, List.length_cons]
    omega

theorem calDelSlice_eq (del : DelSliceConf) : calDelSlice del = UInt64.ofNat del.bytes.length := by
  have hlen : del.bytes.length =
      4 + del.dl.items.length * 4 + 4 + del.ul.items.length * 4 := by
    simp only [DelSliceConf.bytes, List.length_append, length_bytes32, length_flatMap_bytes32]
    omega
  rw [calDelSlice, hlen, toUInt64_len, toUInt64_len]
  simp only [UInt64.ofNat_add, UInt64.ofNat_mul]
  rfl

/-- An indication has a size if every slice has an algorithm: that of its plain encoding. -/
theorem calIndMsgPayload_eq_done_iff {indMsg : SliceIndMsg} {sz : UInt64} :
    calIndMsgPayload indMsg = .done sz ↔
      indMsg.Supported ∧ sz = UInt64.ofNat indMsg.bytes.length := by
  have hlen : indMsg.bytes.length =
      indMsg.sliceConf.bytes.length + indMsg.ueSliceConf.bytes.length + 8 := by
    simp only [SliceIndMsg.bytes, List.length_append, length_bytesInt64]
    omega
  simp only [calIndMsgPayload, Outcome.bind_eq_done_iff, calSliceConf_eq_done_iff,
    calUeSliceConf_eq, Outcome.pure_eq, Outcome.done.injEq, SliceIndMsg.Supported, hlen,
    UInt64.ofNat_add]
  constructor
  · rintro ⟨szConf, ⟨hconf, rfl⟩, rfl⟩
    exact ⟨hconf, rfl⟩
  · rintro ⟨hconf, rfl⟩
    exact ⟨_, ⟨hconf, rfl⟩, rfl⟩

/-- A control message has a size if every slice has an algorithm: that of its plain encoding. -/
theorem calCtrlMsgPayload_eq_done_iff {ctrlMsg : SliceCtrlMsg} {sz : UInt64} :
    calCtrlMsgPayload ctrlMsg = .done sz ↔
      ctrlMsg.Supported ∧ sz = UInt64.ofNat ctrlMsg.bytes.length := by
  have hlen (n : ℕ) : UInt64.ofNat (4 + n) = sizeofEnum + UInt64.ofNat n := by
    rw [UInt64.ofNat_add]
    rfl
  cases ctrlMsg with
  | addModSlice conf =>
    simp only [calCtrlMsgPayload, Outcome.bind_eq_done_iff, calSliceConf_eq_done_iff,
      Outcome.pure_eq, Outcome.done.injEq, SliceCtrlMsg.Supported, SliceCtrlMsg.bytes,
      List.length_append, length_bytes32, hlen]
    constructor
    · rintro ⟨szConf, ⟨hconf, rfl⟩, rfl⟩
      exact ⟨hconf, rfl⟩
    · rintro ⟨hconf, rfl⟩
      exact ⟨_, ⟨hconf, rfl⟩, rfl⟩
  | delSlice conf =>
    simp [calCtrlMsgPayload, SliceCtrlMsg.Supported, SliceCtrlMsg.bytes, calDelSlice_eq, hlen,
      eq_comm]
  | ueSlice conf =>
    simp [calCtrlMsgPayload, SliceCtrlMsg.Supported, SliceCtrlMsg.bytes, calUeSliceConf_eq, hlen,
      eq_comm]

/-! ### What is copied -/

theorem emits_put32 (x : UInt32) : (put32 x).Emits (bytes32 x) := Writer.emits_put _

theorem emits_fillStatic (sta : StaticSlice) : (fillStatic sta).Emits sta.bytes := by
  apply Writer.Emits.beforeEnd
  · exact (emits_put32 _).andThen (emits_put32 _)
  · apply List.ne_nil_of_length_pos
    simp [StaticSlice.bytes]

theorem emits_fillRate (nvs : NvsRate) : (fillRate nvs).Emits nvs.bytes :=
  (emits_put32 _).andThen (emits_put32 _)

theorem emits_fillNvs (nvs : NvsSlice) : (fillNvs nvs).Emits nvs.bytes := by
  apply (emits_put32 _).andThen
  cases nvs with
  | rate rate => exact emits_fillRate rate
  | capacity capacity => exact emits_put32 _

theorem emits_fillScn19 (scn : Scn19Slice) : (fillScn19 scn).Emits scn.bytes := by
  apply (emits_put32 _).andThen
  cases scn with
  | dynamic dynamic => exact emits_fillRate dynamic
  | fixed fixed => exact emits_fillStatic fixed
  | onDemand onDemand => exact (emits_put32 _).andThen ((emits_put32 _).andThen (emits_put32 _))

theorem emits_fillEdf (edf : EdfSlice) : (fillEdf edf).Emits edf.bytes :=
  (emits_put32 _).andThen ((emits_put32 _).andThen ((emits_put32 _).andThen
    ((emits_put32 _).andThen (.each fun x _ => emits_put32 x))))

theorem emits_fillParams {par : SliceParams} (hpar : par ≠ .none) :
    (fillParams par).Emits par.bytes := by
  apply (emits_put32 _).andThen
  cases par with
  | none => exact absurd rfl hpar
  | sta sta => exact emits_fillStatic sta
  | nvs nvs => exact emits_fillNvs nvs
  | scn19 scn19 => exact emits_fillScn19 scn19
  | edf edf => exact emits_fillEdf edf

theorem emits_fillSlice {slc : FrSlice} (hslc : slc.Supported) :
    (fillSlice slc).Emits slc.bytes := by
  refine Writer.Emits.beforeEnd ?_ slc.bytes_ne_nil
  apply (emits_put32 _).andThen
  apply (emits_put32 _).andThen
  apply (Writer.emits_put _).andThen
  apply (emits_put32 _).andThen
  exact (Writer.emits_put _).andThen (emits_fillParams hslc)

theorem emits_fillUlDlSliceConf {conf : UlDlSliceConf}
    (hconf : ∀ s ∈ conf.slices.items, s.Supported) :
    (fillUlDlSliceConf conf).Emits conf.bytes := by
  apply (emits_put32 _).andThen
  apply (Writer.emits_put _).andThen
  exact (emits_put32 _).andThen (.each fun s hs => emits_fillSlice (hconf s hs))

theorem emits_fillSliceConf {conf : SliceConf} (hconf : conf.Supported) :
    (fillSliceConf conf).Emits conf.bytes :=
  (emits_fillUlDlSliceConf hconf.2).andThen (emits_fillUlDlSliceConf hconf.1)

theorem emits_fillUeSliceAssoc (assoc : UeSliceAssoc) :
    (fillUeSliceAssoc assoc).Emits assoc.bytes := by
  apply Writer.Emits.beforeEnd
  · exact (emits_put32 _).andThen ((emits_put32 _).andThen (Writer.emits_put _))
  · apply List.ne_nil_of_length_pos
    simp [UeSliceAssoc.bytes]

theorem emits_fillUeSliceConf (slc : UeSliceConf) : (fillUeSliceConf slc).Emits slc.bytes :=
  (emits_put32 _).andThen (.each fun assoc _ => emits_fillUeSliceAssoc assoc)

theorem emits_fillDelSliceConf (conf : DelSliceConf) :
    (fillDelSliceConf conf).Emits conf.bytes := by
  apply (emits_put32 _).andThen
  apply (Writer.Emits.each fun x _ => emits_put32 x).andThen
  exact (emits_put32 _).andThen (.each fun x _ => emits_put32 x)

/-- What is copied of an indication is its plain encoding. -/
theorem emits_fillIndMsg {indMsg : SliceIndMsg} (h : indMsg.Supported) :
    (fillIndMsg indMsg).Emits indMsg.bytes := by
  apply (emits_fillSliceConf h).andThen
  exact (emits_fillUeSliceConf _).andThen (Writer.emits_put _)

/-- What is copied of a control message is its plain encoding. -/
theorem emits_fillSliceCtrlMsg {msg : SliceCtrlMsg} (h : msg.Supported) :
    (fillSliceCtrlMsg msg).Emits msg.bytes := by
  apply (emits_put32 _).andThen
  cases msg with
  | addModSlice conf => exact emits_fillSliceConf h
  | delSlice conf => exact emits_fillDelSliceConf conf
  | ueSlice conf => exact emits_fillUeSliceConf conf

/-- Copies fill a block whose size is counted in a machine word exactly if the word has room for it:
otherwise the block is smaller than what is copied. -/
theorem fill_malloc_eq_done_iff {fill : Writer} {bytes : List UInt8} (hfill : fill.Emits bytes)
    {fresh : ℕ → UInt8} {res : List UInt8 × ℕ} :
    fill (malloc fresh (UInt64.ofNat bytes.length)) 0 = .done res ↔
      bytes.length < 2 ^ 64 ∧ res = (bytes, bytes.length) := by
  have hsz : (UInt64.ofNat bytes.length).toNat = bytes.length % 2 ^ 64 := UInt64.toNat_ofNat'
  rw [hfill.run_iff, length_malloc, hsz]
  constructor
  · rintro ⟨hroom, rfl⟩
    have hlt : bytes.length < 2 ^ 64 := hroom.trans_lt (Nat.mod_lt _ (by decide))
    refine ⟨hlt, ?_⟩
    rw [List.drop_eq_nil_of_le (by rw [length_malloc, hsz]; exact Nat.mod_le _ _),
      List.append_nil]
  · rintro ⟨hlt, rfl⟩
    have hmod : bytes.length % 2 ^ 64 = bytes.length := Nat.mod_eq_of_lt hlt
    refine ⟨hmod.ge, ?_⟩
    rw [List.drop_eq_nil_of_le (by rw [length_malloc, hsz, hmod]), List.append_nil]

/-- An encoder succeeds exactly if there is a size and a machine word has room for it. -/
theorem allocAndFill_eq_done_iff {size : Outcome UInt64} {fill : Writer} {bytes : List UInt8}
    {p : Prop} (hsize : ∀ sz, size = .done sz ↔ p ∧ sz = UInt64.ofNat bytes.length)
    (hfill : p → fill.Emits bytes) {fresh : ℕ → UInt8} {out : List UInt8} :
    allocAndFill fresh size fill = .done out ↔ p ∧ bytes.length < 2 ^ 64 ∧ out = bytes := by
  rw [allocAndFill, Outcome.bind_eq_done_iff]
  constructor
  · rintro ⟨sz, hsz, h⟩
    obtain ⟨hp, rfl⟩ := (hsize sz).mp hsz
    obtain ⟨res, hres, h⟩ := Outcome.bind_eq_done_iff.mp h
    obtain ⟨hlt, rfl⟩ := (fill_malloc_eq_done_iff (hfill hp)).mp hres
    obtain ⟨-, -, h⟩ := Outcome.bind_eq_done_iff.mp h
    exact ⟨hp, hlt, (Outcome.done.inj h).symm⟩
  · rintro ⟨hp, hlt, rfl⟩
    refine ⟨_, (hsize _).mpr ⟨hp, rfl⟩, ?_⟩
    rw [(fill_malloc_eq_done_iff (hfill hp)).mpr ⟨hlt, rfl⟩, Outcome.done_bind]
    dsimp only
    rw [Outcome.assertFatal, if_pos (UInt64.toNat_ofNat_of_lt' hlt).symm]
    rfl

end Enc

end LlmHric.SliceSm
