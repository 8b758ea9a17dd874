import LlmHric.E2smRc.SliceQuota

/-! The xApp reads a JSON file of slice policies with string searches, validates each entry and
builds the RC control message that the gNB parses. Pointers into the file are distances from the
start of the entry they are compared in. -/

namespace LlmHric.XApp

open Checked CText Mac E2smRc

/-- One slice policy of the file. The strings are the contents of the fixed-size buffers. -/
structure SlicePolicyCfg where
  plmn : List UInt8
  sst : List UInt8
  sd : List UInt8
  minPrb : ℤ
  maxPrb : ℤ
  dedicatedPrb : ℤ
  deriving DecidableEq

/-- `make_int_param` -/
def makeIntParam (id : ℕ) (value : ℤ) : SeqRanParam := .mk id (.flagFalse (some (.integer value)))

/-- `make_octet_param` -/
def makeOctetParam (id : ℕ) (value : List UInt8) : SeqRanParam :=
  .mk id (.flagFalse (some (.octetString (cpStrToBa value))))

/-- `make_struct_param`, with its elements filled in. -/
def makeStructParam (id : ℕ) (elements : List SeqRanParam) : SeqRanParam :=
  .mk id (.strct (some (.elems elements)))

/-- `make_list_param`, with its elements filled in. -/
def makeListParam (id : ℕ) (elements : List LstRanParam) : SeqRanParam :=
  .mk id (.lst (some (.elems elements)))

/-- `make_slice_policy_group` -/
def makeSlicePolicyGroup (cfg : SlicePolicyCfg) : LstRanParam :=
  let sNssai := makeStructParam sNssaiId
    [makeOctetParam sstId cfg.sst, makeOctetParam sdId cfg.sd]
  let member := LstRanParam.mk (.elems [makeOctetParam plmnIdentityId cfg.plmn, sNssai])
  let memberList := makeListParam rrmPolicyMemberListId [member]
  .mk (.elems [makeStructParam rrmPolicyId [memberList],
    makeIntParam minPrbPolicyRatioId cfg.minPrb,
    makeIntParam maxPrbPolicyRatioId cfg.maxPrb,
    makeIntParam dedicatedPrbPolicyRatioId cfg.dedicatedPrb])

/-- `gen_rc_slice_ctrl`: the message part of the control. -/
def genRcSliceCtrl (policies : List SlicePolicyCfg) : CtrlMsgFrmt1 where
  ranParam := .elems [makeListParam rrmPolicyRatioListId (policies.map makeSlicePolicyGroup)]

/-! ### Reading the file -/

/-- `find_json_key` from offset `off` on. A search that fails before `stop` advances past the key
it found, so `stop + 1` rounds are enough. -/
def findJsonKeyFrom (text needle : List UInt8) (stop : ℕ) : ℕ → ℕ → Option ℕ
  | 0, _ => none
  | fuel + 1, off =>
    match strstr needle (text.drop off) with
    | none => none
    | some k =>
      if off + k < stop then
        let past := off + k + needle.length
        let colon := past + ((text.drop past).takeWhile isSpace).length
        if text[colon]? = some (byte ':') then some (colon + 1)
        -- the text of the key stands there as a value: search on behind it
        else findJsonKeyFrom text needle stop fuel past
      else none

/-- `find_json_key`: the offset after the colon of a key that starts before `stop`. -/
def findJsonKey (text : List UInt8) (stop : ℕ) (key : List UInt8) : Option ℕ :=
  findJsonKeyFrom text (byte '"' :: key ++ [byte '"']) stop (stop + 1) 0

/-- The offset of the value of a key: what follows the colon and white space. -/
def findJsonValue (text : List UInt8) (stop : ℕ) (key : List UInt8) : Option ℕ :=
  (findJsonKey text stop key).map fun p => p + ((text.drop p).takeWhile isSpace).length

/-- `parse_json_string`: a string value without escapes that fits into the buffer. -/
def parseJsonString (text : List UInt8) (stop : ℕ) (key : List UInt8) (outLen : ℕ) :
    Option (List UInt8) := do
  let p ← findJsonValue text stop key
  if text[p]? = some (byte '"') then
    let str := ((text.take stop).drop (p + 1)).takeWhile fun c => c != byte '"' && c != byte '\\'
    let q := p + 1 + str.length
    if q < stop ∧ text[q]? = some (byte '"') ∧ str.length < outLen then some str else none
  else none

/-- `parse_json_int`: a 32-bit value whose numeral ends before `stop`. -/
def parseJsonInt (text : List UInt8) (stop : ℕ) (key : List UInt8) : Option ℤ := do
  let p ← findJsonValue text stop key
  let v := strtol (text.drop p)
  if v.range = false ∧ v.consumed ≠ 0 ∧ p + v.consumed ≤ stop ∧ -2 ^ 31 ≤ v.value ∧
      v.value ≤ 2 ^ 31 - 1 then some v.value
  else none

/-- `parse_json_string_or_int` -/
def parseJsonStringOrInt (text : List UInt8) (stop : ℕ) (key : List UInt8) (outLen : ℕ) :
    Option (List UInt8) :=
  match parseJsonString text stop key outLen with
  | some str => some str
  | none => do
    let value ← parseJsonInt text stop key
    if (decimal value).length < outLen then some (decimal value) else none

/-- `parse_uint_text` -/
def parseUintText (text : List UInt8) (max : ℕ) : Option ℕ :=
  let v := strtoul text
  if v.range = false ∧ v.consumed ≠ 0 ∧ text.drop v.consumed = [] ∧ v.value ≤ max then some v.value
  else none

/-- `validate_policy` -/
def validatePolicy (p : SlicePolicyCfg) : Bool :=
  5 ≤ p.plmn.length && p.plmn.length ≤ 6 && p.plmn.all isDigit &&
    (parseUintText p.sst 255).isSome && (parseUintText p.sd 0xffffff).isSome &&
    0 ≤ p.minPrb && p.minPrb ≤ 100 && 0 ≤ p.maxPrb && p.maxPrb ≤ 100 && 0 ≤ p.dedicatedPrb &&
    p.dedicatedPrb ≤ 100 && p.minPrb ≤ p.dedicatedPrb && p.dedicatedPrb ≤ p.maxPrb

/-- `find_matching_brace`, as a distance. `prev` is the byte before, if the scan is past the
opening brace. -/
def findMatchingBraceFrom : List UInt8 → Option UInt8 → ℤ → Bool → Option ℕ
  | [], _, _, _ => none
  | c :: s, prev, depth, inStr =>
    -- a quote toggles the string unless the byte before it is a backslash
    if c = byte '"' ∧ prev ≠ some (byte '\\') then
      (findMatchingBraceFrom s (some c) depth (!inStr)).map (· + 1)
    else if inStr then (findMatchingBraceFrom s (some c) depth inStr).map (· + 1)
    else if c = byte '\x7b' then (findMatchingBraceFrom s (some c) (depth + 1) inStr).map (· + 1)
    else if c = byte '\x7d' then
      if depth - 1 = 0 then some 0
      else (findMatchingBraceFrom s (some c) (depth - 1) inStr).map (· + 1)
    else (findMatchingBraceFrom s (some c) depth inStr).map (· + 1)

/-- `find_matching_brace` -/
def findMatchingBrace (text : List UInt8) : Option ℕ := findMatchingBraceFrom text none 0 false

/-- The fields of one entry, before validation. -/
def parseEntry (text : List UInt8) (stop : ℕ) : Option SlicePolicyCfg := do
  let plmn ← parseJsonString text stop (ascii "plmn") 8
  -- the numbers of the slice may be given as strings or as integers
  let sst ← parseJsonStringOrInt text stop (ascii "sst") 8
  let sd ← parseJsonStringOrInt text stop (ascii "sd") 16
  let minPrb ← parseJsonInt text stop (ascii "min_prb")
  let maxPrb ← parseJsonInt text stop (ascii "max_prb")
  let dedicatedPrb ← parseJsonInt text stop (ascii "dedicated_prb")
  some { plmn, sst, sd, minPrb, maxPrb, dedicatedPrb }

/-- The loop of `load_policy_file` over the entries of the array. Every round moves past an entry,
so one more round than there are bytes is enough. -/
def loadEntries : ℕ → List UInt8 → List SlicePolicyCfg → ℤ → Option (List SlicePolicyCfg)
  | 0, _, _, _ => none
  | fuel + 1, text, policies, dedicatedSum =>
    match strchr (byte '\x7b') text with
    | none => some policies
    | some k =>
      match findMatchingBrace (text.drop k) with
      | none => none
      | some stop =>
        match parseEntry (text.drop k) stop with
        | none => none
        | some cfg =>
          if validatePolicy cfg then
            -- the dedicated shares of the whole file are capped, not their number
            if dedicatedSum + cfg.dedicatedPrb > 100 then none
            else
              loadEntries fuel ((text.drop k).drop (stop + 1)) (policies ++ [cfg])
                (dedicatedSum + cfg.dedicatedPrb)
          else none

/-- `load_policy_file`: the policies of a file, given by its bytes. -/
def loadPolicyFile (file : List UInt8) : Option (List SlicePolicyCfg) := do
  let json := cString file
  let list ← strstr (ascii "\"policies\"") json
  let array ← strchr (byte '[') (json.drop list)
  let policies ← loadEntries (json.length + 1) ((json.drop list).drop (array + 1)) [] 0
  if policies = [] then none else some policies

/-! ### Fuel -/

/-- More rounds than bytes to search change nothing. -/
theorem findJsonKeyFrom_fuel {text needle : List UInt8} {stop fuel off : ℕ}
    (hneedle : needle ≠ []) (h : stop < off + fuel) :
    findJsonKeyFrom text needle stop (fuel + 1) off =
      findJsonKeyFrom text needle stop fuel off := by
  induction fuel generalizing off with
  | zero =>
    rw [findJsonKeyFrom, findJsonKeyFrom]
    cases strstr needle (text.drop off) with
    | none => rfl
    -- out of rounds means past `stop`, where the search gives up anyway
    | some k => exact if_neg (by omega)
  | succ fuel ih =>
    have hlen : 0 < needle.length := List.length_pos_iff.mpr hneedle
    rw [findJsonKeyFrom, findJsonKeyFrom]
    cases strstr needle (text.drop off) with
    | none => rfl
    | some k =>
      have hnext := @ih (off + k + needle.length) (by omega)
      simp only [hnext]

theorem length_drop_drop_lt {text : List UInt8} {k : ℕ}
    (h : strchr (byte '\x7b') text = some k) (stop : ℕ) :
    ((text.drop k).drop (stop + 1)).length < text.length := by
  have hk : k < text.length := (List.findIdx?_eq_some_iff_findIdx_eq.mp h).1
  rw [List.drop_drop, List.length_drop]
  omega

/-- More rounds than bytes to load change nothing. -/
theorem loadEntries_fuel {fuel : ℕ} {text : List UInt8} {policies : List SlicePolicyCfg} {sum : ℤ}
    (h : text.length < fuel) :
    loadEntries (fuel + 1) text policies sum = loadEntries fuel text policies sum := by
  induction fuel generalizing text policies sum with
  | zero => omega
  | succ fuel ih =>
    rw [loadEntries, loadEntries]
    cases hk : strchr (byte '\x7b') text with
    | none => rfl
    | some k =>
      have hshort : ∀ stop, ((text.drop k).drop (stop + 1)).length < fuel := by
        intro stop
        have hlt := length_drop_drop_lt hk stop
        omega
      simp only [ih (hshort _)]

/-- Every entry of an accepted file passed the check. -/
theorem loadEntries_validated {fuel : ℕ} {text : List UInt8}
    {policies loaded : List SlicePolicyCfg} {sum : ℤ}
    (h : loadEntries fuel text policies sum = some loaded)
    (hpolicies : ∀ cfg ∈ policies, validatePolicy cfg = true) :
    ∀ cfg ∈ loaded, validatePolicy cfg = true := by
  induction fuel generalizing text policies sum with
  | zero => cases h
  | succ fuel ih =>
    rw [loadEntries] at h
    split at h
    · obtain rfl := Option.some.inj h
      exact hpolicies
    · split at h
      · cases h
      · split at h
        · cases h
        · next cfg _ =>
          split_ifs at h with hvalid hsum
          refine ih h ?_
          intro c hc
          rcases List.mem_append.mp hc with hc | hc
          · exact hpolicies c hc
          · rwa [List.mem_singleton.mp hc]

theorem loadPolicyFile_validated {file : List UInt8} {policies : List SlicePolicyCfg}
    (h : loadPolicyFile file = some policies) : ∀ cfg ∈ policies, validatePolicy cfg = true := by
  simp only [loadPolicyFile, Option.bind_eq_bind, Option.bind_eq_some_iff] at h
  obtain ⟨list, -, array, -, loaded, hloaded, h⟩ := h
  split_ifs at h
  obtain rfl := Option.some.inj h
  exact loadEntries_validated hloaded (by simp)

/-! ### What the gNB makes of an accepted entry -/

/-- The policy a validated entry stands for. -/
def policyOf (cfg : SlicePolicyCfg) : DlSlicePolicy where
  active := true
  nssai := ⟨(parseUintText cfg.sst 255).getD 0, (parseUintText cfg.sd 0xffffff).getD 0⟩
  minPrbRatio := cfg.minPrb.toNat
  maxPrbRatio := cfg.maxPrb.toNat
  dedicatedPrbRatio := cfg.dedicatedPrb.toNat

theorem parseUintText_eq_some {text : List UInt8} {max n : ℕ}
    (h : parseUintText text max = some n) : Denotes text n ∧ n ≤ max := by
  rw [parseUintText] at h
  split_ifs at h with hok
  obtain rfl := Option.some.inj h
  exact ⟨⟨hok.2.1, hok.2.2.1, rfl⟩, hok.2.2.2⟩

theorem carriesUint_makeOctetParam {text : List UInt8} {id n : ℕ} (h : Denotes text n)
    (hmax : n ≤ 0xffffff) : CarriesUint (makeOctetParam id text) id n := by
  have hbytes : cString text = text := cString_eq_self h.ne_zero
  refine ⟨hmax, .inr ⟨text, h.ne_nil, .inr ?_, hbytes.symm ▸ h⟩⟩
  rw [makeOctetParam, cpStrToBa, hbytes]

/-- The group built from a validated entry carries the policy the entry stands for. -/
theorem carries_makeSlicePolicyGroup {cfg : SlicePolicyCfg} (h : validatePolicy cfg = true) :
    Carries (makeSlicePolicyGroup cfg) (policyOf cfg) := by
  simp only [validatePolicy, Bool.and_eq_true, decide_eq_true_eq, Option.isSome_iff_exists] at h
  obtain ⟨⟨⟨⟨⟨⟨⟨⟨⟨⟨-, sst, hsst⟩, sd, hsd⟩, hmin⟩, hmin'⟩, hmax⟩, hmax'⟩, hded⟩, hded'⟩, hle⟩,
    hle'⟩ := h
  obtain ⟨hsstDen, hsstMax⟩ := parseUintText_eq_some hsst
  obtain ⟨hsdDen, hsdMax⟩ := parseUintText_eq_some hsd
  have hslice : (policyOf cfg).nssai = ⟨sst, sd⟩ := by simp [policyOf, hsst, hsd]
  refine ⟨rfl, _, _, _, _, _, _, rfl, rfl, ⟨_, [], rfl⟩, ?_, .inr ?_, .inr ?_, .inr ?_, ?_⟩
  · rw [hslice]
    -- the gNB admits 24 bits for both numbers, the xApp 8 for the first
    exact ⟨hsstMax, .inr ⟨_, _, [], rfl,
      carriesUint_makeOctetParam hsstDen (hsstMax.trans (by decide)),
      carriesUint_makeOctetParam hsdDen hsdMax⟩⟩
  · rw [policyOf, Int.toNat_of_nonneg hmin, makeIntParam]
  · rw [policyOf, Int.toNat_of_nonneg hmax, makeIntParam]
  · rw [policyOf, Int.toNat_of_nonneg hded, makeIntParam]
  · simp only [DlSlicePolicy.RatiosValid, policyOf]
    omega

/-- The gNB's table holds exactly the policies of the list, in order. -/
def InstalledAs (mac : SliceState) (policies : List SlicePolicyCfg) : Prop :=
  mac.dlSlicePolicyCount = policies.length ∧
  (∀ i (h : i < policies.length), mac.dlSlicePolicy.entry i = policyOf policies[i]) ∧
  ∀ i, policies.length ≤ i → (mac.dlSlicePolicy.entry i).active = false

/-- A list of at most `maxNumSlices` validated entries is accepted and installed as it is. -/
theorem apply_genRcSliceCtrl (mac : SliceState) {policies : List SlicePolicyCfg}
    (hvalid : ∀ cfg ∈ policies, validatePolicy cfg = true)
    (hlen : policies.length ≤ maxNumSlices) :
    ∃ after, applyRcCtrlStyle2SliceLevelPrbQuota (some mac) (some (genRcSliceCtrl policies)) =
      .done (true, some after) ∧ InstalledAs after policies := by
  have hgroups : HasGroups (some (genRcSliceCtrl policies)) (policies.map makeSlicePolicyGroup) :=
    ⟨by rwa [List.length_map], _, .inl rfl, rfl⟩
  have hcarries : List.Forall₂ Carries (policies.map makeSlicePolicyGroup)
      (policies.map policyOf) := by
    rw [List.forall₂_map_left_iff, List.forall₂_map_right_iff, List.forall₂_same]
    exact fun cfg hcfg => carries_makeSlicePolicyGroup (hvalid cfg hcfg)
  obtain ⟨after, happly, hcount, hentries, hrest⟩ := apply_of_carries mac hgroups hcarries
  rw [List.length_map] at hcount hrest
  refine ⟨after, happly, hcount, ?_, hrest⟩
  intro i hi
  -- entry and group carry one policy, and a group carries at most one
  have hentry := (hentries i (by rwa [List.length_map])).1
  rw [List.getElem_map] at hentry
  exact hentry.unique (carries_makeSlicePolicyGroup (hvalid _ (List.getElem_mem hi)))

/-- A list of more than `maxNumSlices` entries is refused, whatever the entries are. -/
theorem refused_genRcSliceCtrl_long (mac : SliceState) {policies : List SlicePolicyCfg}
    (hlen : maxNumSlices < policies.length) :
    applyRcCtrlStyle2SliceLevelPrbQuota (some mac) (some (genRcSliceCtrl policies)) =
      .done (false, some mac) := by
  have hsize : ¬ policies.length ≤ maxNumSlices := hlen.not_ge
  simp [applyRcCtrlStyle2SliceLevelPrbQuota, parsedPolicies, ratioGroups, genRcSliceCtrl,
    embeddedStruct, makeListParam, listParam, hsize]

/-- The text of one entry with the slice 1/1 and no dedicated PRBs. -/
def sampleEntry : List UInt8 :=
  ascii ("\x7b\"min_prb\":0,\"max_prb\":0,\"dedicated_prb\":0,\"sst\":\"1\",\"sd\":\"1\"," ++
    "\"plmn\":\"00101\"\x7d")

/-- The entry as it is loaded. -/
def sampleCfg : SlicePolicyCfg := ⟨ascii "00101", ascii "1", ascii "1", 0, 0, 0⟩

/-- A policy file with `n + 1` copies of the entry. -/
def sampleFile (n : ℕ) : List UInt8 :=
  ascii "\x7b\"policies\":[" ++ (sampleEntry ++
    ((List.replicate n (byte ',' :: sampleEntry)).flatten ++ ascii "]\x7d"))

/-- The two ends of the control agree: a file of at most `maxNumSlices` policies that the xApp
accepts is installed by the gNB as it stands in the file. -/
theorem loadPolicyFile_installed (file : List UInt8) (policies : List SlicePolicyCfg)
    (mac : SliceState) (hload : loadPolicyFile file = some policies)
    (hlen : policies.length ≤ maxNumSlices) :
    ∃ after, applyRcCtrlStyle2SliceLevelPrbQuota (some mac) (some (genRcSliceCtrl policies)) =
      .done (true, some after) ∧ InstalledAs after policies :=
  apply_genRcSliceCtrl mac (loadPolicyFile_validated hload) hlen

/-- The file of the smallest sample is installed as one policy. -/
theorem loadPolicyFile_installed_sampleFile :
    ∃ after, applyRcCtrlStyle2SliceLevelPrbQuota (some .initial)
      (some (genRcSliceCtrl [sampleCfg])) = .done (true, some after) ∧
      InstalledAs after [sampleCfg] :=
  loadPolicyFile_installed (sampleFile 0) [sampleCfg] .initial (by decide +kernel) (by decide)

/-! ### A file that is too long for the gNB -/

section SampleEntry

variable (rest : List UInt8)

theorem parseJsonInt_of_value {text key : List UInt8} {stop p k : ℕ} {v : ℤ}
    (hvalue : findJsonValue text stop key = some p)
    (hnumeral : strtol (text.drop p) = ⟨v, k, false⟩) (hk : k ≠ 0) (hstop : p + k ≤ stop)
    (hmin : -2 ^ 31 ≤ v) (hmax : v ≤ 2 ^ 31 - 1) : parseJsonInt text stop key = some v := by
  have hok : k ≠ 0 ∧ p + k ≤ stop ∧ -2 ^ 31 ≤ v ∧ v ≤ 2 ^ 31 - 1 := ⟨hk, hstop, hmin, hmax⟩
  simp only [parseJsonInt, hvalue, Option.bind_eq_bind, Option.bind_some, hnumeral, true_and,
    if_pos hok]

theorem parseJsonString_of_value {text key str : List UInt8} {stop p outLen : ℕ}
    (hvalue : findJsonValue text stop key = some p) (hquote : text[p]? = some (byte '"'))
    (hstr : ((text.take stop).drop (p + 1)).takeWhile
      (fun c => c != byte '"' && c != byte '\\') = str)
    (hstop : p + 1 + str.length < stop) (hend : text[p + 1 + str.length]? = some (byte '"'))
    (hlen : str.length < outLen) : parseJsonString text stop key outLen = some str := by
  have hok : p + 1 + str.length < stop ∧ text[p + 1 + str.length]? = some (byte '"') ∧
      str.length < outLen := ⟨hstop, hend, hlen⟩
  simp only [parseJsonString, hvalue, Option.bind_eq_bind, Option.bind_some, if_pos hquote, hstr,
    if_pos hok]

set_option maxRecDepth 4096

theorem findMatchingBrace_sampleEntry : findMatchingBrace (sampleEntry ++ rest) = some 76 := rfl

theorem parseEntry_sampleEntry : parseEntry (sampleEntry ++ rest) 76 = some sampleCfg := by
  have hplmn : parseJsonString (sampleEntry ++ rest) 76 (ascii "plmn") 8 = some (ascii "00101") :=
    parseJsonString_of_value (p := 69) rfl rfl rfl (by decide) rfl (by decide)
  have hsst : parseJsonString (sampleEntry ++ rest) 76 (ascii "sst") 8 = some (ascii "1") :=
    parseJsonString_of_value (p := 49) rfl rfl rfl (by decide) rfl (by decide)
  have hsd : parseJsonString (sampleEntry ++ rest) 76 (ascii "sd") 16 = some (ascii "1") :=
    parseJsonString_of_value (p := 58) rfl rfl rfl (by decide) rfl (by decide)
  have hmin : parseJsonInt (sampleEntry ++ rest) 76 (ascii "min_prb") = some 0 :=
    parseJsonInt_of_value (p := 11) (k := 1) rfl rfl (by decide) (by decide) (by decide) (by decide)
  have hmax : parseJsonInt (sampleEntry ++ rest) 76 (ascii "max_prb") = some 0 :=
    parseJsonInt_of_value (p := 23) (k := 1) rfl rfl (by decide) (by decide) (by decide) (by decide)
  have hded : parseJsonInt (sampleEntry ++ rest) 76 (ascii "dedicated_prb") = some 0 :=
    parseJsonInt_of_value (p := 41) (k := 1) rfl rfl (by decide) (by decide) (by decide) (by decide)
  simp only [parseEntry, parseJsonStringOrInt, hplmn, hsst, hsd, hmin, hmax, hded,
    Option.bind_eq_bind, Option.bind_some, sampleCfg]

/-- One round of the loop reads one copy of the entry. -/
theorem loadEntries_sampleEntry {rest text : List UInt8} {fuel k : ℕ}
    {policies : List SlicePolicyCfg} (hk : strchr (byte '\x7b') text = some k)
    (htext : text.drop k = sampleEntry ++ rest) :
    loadEntries (fuel + 1) text policies 0 = loadEntries fuel rest (policies ++ [sampleCfg]) 0 := by
  have hvalid : validatePolicy sampleCfg = true := by decide
  have hdrop : (sampleEntry ++ rest).drop (76 + 1) = rest := rfl
  have hsum : (0 : ℤ) + sampleCfg.dedicatedPrb = 0 := rfl
  simp only [loadEntries, hk, htext, findMatchingBrace_sampleEntry, parseEntry_sampleEntry,
    if_pos hvalid, hdrop, hsum]
  rfl

theorem loadEntries_copies {n fuel : ℕ} {policies : List SlicePolicyCfg} (h : n < fuel) :
    loadEntries fuel
        ((List.replicate n (byte ',' :: sampleEntry)).flatten ++ ascii "]\x7d") policies 0 =
      some (policies ++ List.replicate n sampleCfg) := by
  induction n generalizing fuel policies with
  | zero =>
    obtain ⟨fuel, rfl⟩ := Nat.exists_eq_add_of_lt h
    simp only [List.replicate_zero, List.append_nil]
    rfl
  | succ n ih =>
    obtain ⟨fuel, rfl⟩ := Nat.exists_eq_succ_of_ne_zero (Nat.ne_zero_of_lt h)
    rw [List.replicate_succ, List.flatten_cons, List.append_assoc]
    have hround : loadEntries (fuel + 1) ((byte ',' :: sampleEntry) ++
        ((List.replicate n (byte ',' :: sampleEntry)).flatten ++ ascii "]\x7d")) policies 0 =
        loadEntries fuel ((List.replicate n (byte ',' :: sampleEntry)).flatten ++ ascii "]\x7d")
          (policies ++ [sampleCfg]) 0 := loadEntries_sampleEntry (k := 1) rfl rfl
    rw [hround, ih (by omega), List.append_assoc, List.replicate_succ, List.singleton_append]

end SampleEntry

theorem sampleFile_ne_zero (n : ℕ) : ∀ c ∈ sampleFile n, c ≠ 0 := by
  have hheader : ∀ c ∈ ascii "\x7b\"policies\":[", c ≠ 0 := by decide +kernel
  have hentry : ∀ c ∈ byte ',' :: sampleEntry, c ≠ 0 := by decide +kernel
  have hfooter : ∀ c ∈ ascii "]\x7d", c ≠ 0 := by decide +kernel
  intro c hc
  simp only [sampleFile, List.mem_append, List.mem_flatten, List.mem_replicate] at hc
  rcases hc with hc | hc | ⟨_, ⟨-, rfl⟩, hc⟩ | hc
  · exact hheader c hc
  · exact hentry c (List.mem_cons_of_mem _ hc)
  · exact hentry c hc
  · exact hfooter c hc

theorem loadPolicyFile_sampleFile (n : ℕ) :
    loadPolicyFile (sampleFile n) = some (List.replicate (n + 1) sampleCfg) := by
  have hlist : strstr (ascii "\"policies\"") (sampleFile n) = some 1 := rfl
  have harray : strchr (byte '[') ((sampleFile n).drop 1) = some 11 := rfl
  have hfuel : n < (sampleFile n).length := by
    simp only [sampleFile, List.length_append, List.length_flatten, List.map_replicate,
      List.sum_replicate_nat, List.length_cons]
    have hfooter : 0 < (ascii "]\x7d").length := by decide
    have hcopies : n ≤ n * (sampleEntry.length + 1) := Nat.le_mul_of_pos_right n (Nat.succ_pos _)
    omega
  have hdrop : ((sampleFile n).drop 1).drop (11 + 1) = sampleEntry ++
      ((List.replicate n (byte ',' :: sampleEntry)).flatten ++ ascii "]\x7d") := rfl
  have hentries : loadEntries ((sampleFile n).length + 1) (((sampleFile n).drop 1).drop (11 + 1)) []
      0 = some (List.replicate (n + 1) sampleCfg) := by
    rw [hdrop, loadEntries_sampleEntry (k := 0) rfl rfl, loadEntries_copies hfuel]
    rfl
  simp only [loadPolicyFile, cString_eq_self (sampleFile_ne_zero n), hlist, harray,
    Option.bind_eq_bind, Option.bind_some, hentries]
  rfl

/-- A file of 1025 policies is accepted by the xApp and refused by the gNB. -/
theorem not_loadPolicyFile_installed_long :
    ¬ ∀ (file : List UInt8) (policies : List SlicePolicyCfg) (mac : SliceState),
      loadPolicyFile file = some policies →
      ∃ after, applyRcCtrlStyle2SliceLevelPrbQuota (some mac) (some (genRcSliceCtrl policies)) =
        .done (true, some after) ∧ InstalledAs after policies := by
  intro h
  obtain ⟨after, happly, -⟩ := h (sampleFile 1024) _ .initial (loadPolicyFile_sampleFile 1024)
  have hlong : maxNumSlices < (List.replicate (1024 + 1) sampleCfg).length := by
    rw [List.length_replicate, maxNumSlices]
    omega
  rw [refused_genRcSliceCtrl_long .initial hlong] at happly
  cases happly

end LlmHric.XApp
