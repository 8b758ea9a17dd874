import LlmHric.XApp.PolicySearch

/-! A readable document is loaded as it is meant, entry by entry, up to the end of its array. What
happens behind the array is another matter, since nothing tells the loop that the array has ended.
-/

namespace LlmHric.XApp

open CText JsonText

/-! ### The fields of an entry -/

theorem nameLike_field (f : Field) : NameLike f.name := by
  cases f <;> exact ⟨by decide +kernel, by decide +kernel, by decide +kernel⟩

section Fields

variable {f : Field} {o : FlatObject} {rest : List UInt8} {outLen : ℕ}

theorem parseJsonString_lookup (hown : FindsOwn f.name o.members)
    (hshows : ∀ v, o.lookup f.name = some v → ShowsString v) :
    parseJsonString (o.text ++ rest) ((objectBody o).length + 1) f.name outLen =
      (o.lookup f.name).bind (scalarString outLen) := by
  apply @read_lookup f.name _ (parseJsonString _ _ · outLen) _ _ (nameLike_field f) o rest _ _ hown
    hshows
  · intro v p hvalue hat hshow
    exact parseJsonString_of_valueAt hvalue hat hshow
  · intro hvalue
    simp only [parseJsonString, hvalue, Option.bind_eq_bind, Option.bind_none]

theorem parseJsonInt_lookup (hown : FindsOwn f.name o.members)
    (hshows : ∀ v, o.lookup f.name = some v → ShowsInt v) :
    parseJsonInt (o.text ++ rest) ((objectBody o).length + 1) f.name =
      (o.lookup f.name).bind scalarInt := by
  apply @read_lookup f.name _ (parseJsonInt _ _) _ _ (nameLike_field f) o rest _ _ hown hshows
  · intro v p hvalue hat hshow
    exact parseJsonInt_of_valueAt hvalue hat hshow
  · intro hvalue
    simp only [parseJsonInt, hvalue, Option.bind_eq_bind, Option.bind_none]

theorem parseJsonStringOrInt_lookup (hown : FindsOwn f.name o.members)
    (hshows : ∀ v, o.lookup f.name = some v → ShowsString v ∧ ShowsInt v) :
    parseJsonStringOrInt (o.text ++ rest) ((objectBody o).length + 1) f.name outLen =
      (o.lookup f.name).bind (scalarStringOrInt outLen) := by
  apply @read_lookup f.name _ (parseJsonStringOrInt _ _ · outLen) _ _ (nameLike_field f) o rest _ _
    hown hshows
  · intro v p hvalue hat hshow
    exact parseJsonStringOrInt_of_valueAt hvalue hat hshow
  · intro hvalue
    simp only [parseJsonStringOrInt, parseJsonString, parseJsonInt, hvalue, Option.bind_eq_bind,
      Option.bind_none]

end Fields

theorem FieldsReadable.next {o : FlatObject} {f : Field} {fs : List Field}
    (h : FieldsReadable o (f :: fs)) (hgiven : f.Given o) : FieldsReadable o fs := h.2 hgiven

/-- An entry is parsed as it is meant. A field is only looked for if those before it are there. -/
theorem parseEntry_object {o : FlatObject} (h : ObjectReadable o) (rest : List UInt8) :
    parseEntry (o.text ++ rest) ((objectBody o).length + 1) = entryOfObject o := by
  have hplmn := h.2
  simp only [parseEntry, entryOfObject, Option.bind_eq_bind]
  apply Option.bind_congr' (@parseJsonString_lookup .plmn o rest 8 hplmn.1.1 hplmn.1.2)
  intro plmn hvalue
  have hsst := hplmn.next (Option.isSome_of_mem hvalue)
  apply Option.bind_congr' (@parseJsonStringOrInt_lookup .sst o rest 8 hsst.1.1 hsst.1.2)
  intro sst hvalue
  have hsd := hsst.next (Option.isSome_of_mem hvalue)
  apply Option.bind_congr' (@parseJsonStringOrInt_lookup .sd o rest 16 hsd.1.1 hsd.1.2)
  intro sd hvalue
  have hmin := hsd.next (Option.isSome_of_mem hvalue)
  apply Option.bind_congr' (@parseJsonInt_lookup .minPrb o rest hmin.1.1 hmin.1.2)
  intro minPrb hvalue
  have hmax := hmin.next (Option.isSome_of_mem hvalue)
  apply Option.bind_congr' (@parseJsonInt_lookup .maxPrb o rest hmax.1.1 hmax.1.2)
  intro maxPrb hvalue
  have hdedicated := hmax.next (Option.isSome_of_mem hvalue)
  apply Option.bind_congr'
    (@parseJsonInt_lookup .dedicatedPrb o rest hdedicated.1.1 hdedicated.1.2)
  exact fun _ _ => rfl

/-! ### The loop -/

/-- The loop with as many rounds as it takes. -/
def loadRest (text : List UInt8) (policies : List SlicePolicyCfg) (sum : ℤ) :
    Option (List SlicePolicyCfg) := loadEntries (text.length + 1) text policies sum

section Loop

variable {text : List UInt8} {policies loaded : List SlicePolicyCfg} {sum : ℤ} {fuel : ℕ}

theorem loadEntries_eq_loadRest (h : text.length < fuel) :
    loadEntries fuel text policies sum = loadRest text policies sum := by
  induction fuel with
  | zero => exact absurd h (Nat.not_lt_zero _)
  | succ fuel ih =>
    rcases (Nat.lt_succ_iff.mp h).eq_or_lt with rfl | hlt
    · rfl
    · rw [loadEntries_fuel hlt, ih hlt]

/-- One round of the loop. -/
theorem loadRest_eq (text : List UInt8) (policies : List SlicePolicyCfg) (sum : ℤ) :
    loadRest text policies sum =
      match strchr (byte '\x7b') text with
      | none => some policies
      | some k => (findMatchingBrace (text.drop k)).bind fun stop =>
        ((parseEntry (text.drop k) stop).filter validatePolicy).bind fun cfg =>
          if sum + cfg.dedicatedPrb > 100 then none
          else
            loadRest ((text.drop k).drop (stop + 1)) (policies ++ [cfg])
              (sum + cfg.dedicatedPrb) := by
  rw [loadRest, loadEntries]
  cases hk : strchr (byte '\x7b') text with
  | none => rfl
  | some k =>
    have hnext : ∀ stop, ((text.drop k).drop (stop + 1)).length < text.length :=
      length_drop_drop_lt hk
    cases hstop : findMatchingBrace (text.drop k) with
    | none => simp only [hstop, Option.bind_none]
    | some stop =>
      cases hentry : parseEntry (text.drop k) stop with
      | none => simp only [hstop, hentry, Option.bind_some, Option.filter_none, Option.bind_none]
      | some cfg =>
        simp only [hstop, hentry, Option.bind_some, Option.filter_some,
          loadEntries_eq_loadRest (hnext stop)]
        by_cases hvalid : validatePolicy cfg = true
        · simp only [if_pos hvalid, Option.bind_some]
        · simp only [if_neg hvalid, Option.bind_none]

/-- What has been loaded is kept. -/
theorem loadEntries_keeps (h : loadEntries fuel text policies sum = some loaded) :
    policies <+: loaded := by
  induction fuel generalizing text policies sum with
  | zero => cases h
  | succ fuel ih =>
    rw [loadEntries] at h
    split at h
    · obtain rfl := Option.some.inj h
      exact List.prefix_rfl
    · split at h
      · cases h
      · split at h
        · cases h
        · split_ifs at h
          exact (List.prefix_append _ _).trans (ih h)

/-- Where there is an opening brace, another entry is loaded, or the file is refused. -/
theorem loadRest_ne_self (h : byte '\x7b' ∈ text) : loadRest text policies sum ≠ some policies := by
  intro hload
  rw [loadRest_eq] at hload
  cases hk : strchr (byte '\x7b') text with
  | none =>
    rw [strchr, List.findIdx?_eq_none_iff] at hk
    exact absurd (hk _ h) (by decide)
  | some k =>
    simp only [hk, Option.bind_eq_some_iff] at hload
    obtain ⟨stop, -, cfg, -, hload⟩ := hload
    split_ifs at hload
    have hlen := (loadEntries_keeps hload).length_le
    rw [List.length_append, List.length_singleton] at hlen
    omega

/-- What has no opening brace is passed. -/
theorem loadRest_skip {chunk : List UInt8} (h : byte '\x7b' ∉ chunk) :
    loadRest (chunk ++ text) policies sum = loadRest text policies sum := by
  rw [loadRest_eq, loadRest_eq, strchr_append h]
  cases strchr (byte '\x7b') text with
  | none => rfl
  | some k =>
    have hdrop : (chunk ++ text).drop (k + chunk.length) = text.drop k := by
      rw [Nat.add_comm, ← List.drop_drop, List.drop_left]
    simp only [Option.map_some, hdrop]

theorem loadRest_of_notMem (h : byte '\x7b' ∉ text) :
    loadRest text policies sum = some policies := by
  rw [← List.append_nil text, loadRest_skip h]
  rfl

theorem loadRest_object {o : FlatObject} (h : ObjectReadable o) :
    loadRest (o.text ++ text) policies sum =
      (policyOfObject o).bind fun cfg =>
        if sum + cfg.dedicatedPrb > 100 then none
        else loadRest text (policies ++ [cfg]) (sum + cfg.dedicatedPrb) := by
  have hbrace := findMatchingBrace_object h.1 text
  have hentry := parseEntry_object h text
  have hstrchr : strchr (byte '\x7b') (o.text ++ text) = some 0 := by
    rw [text_append_eq]
    exact strchr_cons_self
  have hlen : (objectBody o).length + 1 + 1 = o.text.length := by
    have htext := text_append_eq o []
    rw [List.append_nil] at htext
    rw [htext, List.length_cons, List.length_append, List.length_singleton]
  rw [loadRest_eq, hstrchr]
  simp only [List.drop_zero, hbrace, Option.bind_some, hentry, hlen, List.drop_left, policyOfObject]

end Loop

/-! ### The elements of the array -/

/-- The policies of elements, unless one is refused, for itself or for the sum of the shares that
are dedicated. -/
def acceptedElements (sum : ℤ) : List PolicyElement → Option (List SlicePolicyCfg)
  | [] => some []
  | e :: es => (policyOfObject e.object).bind fun cfg =>
    if sum + cfg.dedicatedPrb > 100 then none
    else (acceptedElements (sum + cfg.dedicatedPrb) es).map (cfg :: ·)

theorem acceptedElements_ne_nil {sum : ℤ} {es : List PolicyElement} {cfgs : List SlicePolicyCfg}
    (h : acceptedElements sum es = some cfgs) (hes : es ≠ []) : cfgs ≠ [] := by
  obtain ⟨e, es, rfl⟩ := List.exists_cons_of_ne_nil hes
  rw [acceptedElements, Option.bind_eq_some_iff] at h
  obtain ⟨cfg, -, h⟩ := h
  split_ifs at h
  obtain ⟨cfgs', -, rfl⟩ := Option.map_eq_some_iff.mp h
  exact List.cons_ne_nil _ _

/-- No policy dedicates a negative share. -/
theorem dedicatedPrb_nonneg {o : FlatObject} {cfg : SlicePolicyCfg}
    (h : policyOfObject o = some cfg) : 0 ≤ cfg.dedicatedPrb := by
  have hvalid := (Option.filter_eq_some_iff.mp h).2
  simp only [validatePolicy, Bool.and_eq_true, decide_eq_true_eq] at hvalid
  exact hvalid.1.1.1.2

theorem sum_dedicatedPrb_nonneg {es : List PolicyElement} {cfgs : List SlicePolicyCfg}
    (h : es.mapM (fun e => policyOfObject e.object) = some cfgs) :
    0 ≤ (cfgs.map SlicePolicyCfg.dedicatedPrb).sum := by
  induction es generalizing cfgs with
  | nil =>
    rw [List.mapM_nil] at h
    obtain rfl := Option.some.inj h
    exact le_rfl
  | cons e es ih =>
    simp only [List.mapM_cons, Option.bind_eq_bind, Option.bind_eq_some_iff] at h
    obtain ⟨cfg, hcfg, cfgs', hcfgs, h⟩ := h
    obtain rfl := Option.some.inj h
    have hfirst := dedicatedPrb_nonneg hcfg
    have hrest := ih hcfgs
    rw [List.map_cons, List.sum_cons]
    omega

/-- Shares are not negative, so that the sums on the way are below the one at the end. -/
theorem acceptedElements_eq_filter {sum : ℤ} (hsum : sum ≤ 100) (es : List PolicyElement) :
    acceptedElements sum es = (es.mapM fun e => policyOfObject e.object).filter fun cfgs =>
      sum + (cfgs.map SlicePolicyCfg.dedicatedPrb).sum ≤ 100 := by
  induction es generalizing sum with
  | nil =>
    have hle : sum + (([] : List SlicePolicyCfg).map SlicePolicyCfg.dedicatedPrb).sum ≤ 100 := by
      simpa using hsum
    rw [List.mapM_nil, acceptedElements, Option.pure_def, Option.filter_some,
      if_pos (decide_eq_true hle)]
  | cons e es ih =>
    rw [acceptedElements, List.mapM_cons]
    cases hcfg : policyOfObject e.object with
    | none => rfl
    | some cfg =>
      simp only [Option.bind_eq_bind, Option.bind_some]
      by_cases hover : sum + cfg.dedicatedPrb > 100
      · rw [if_pos hover]
        cases hcfgs : es.mapM fun e => policyOfObject e.object with
        | none => rfl
        | some cfgs =>
          have hrest := sum_dedicatedPrb_nonneg hcfgs
          have hsum' : ¬ sum + ((cfg :: cfgs).map SlicePolicyCfg.dedicatedPrb).sum ≤ 100 := by
            rw [List.map_cons, List.sum_cons]
            omega
          rw [Option.bind_some, Option.pure_def, Option.filter_some,
            if_neg (by rwa [decide_eq_true_eq])]
      · rw [if_neg hover, ih (by omega)]
        cases hcfgs : es.mapM fun e => policyOfObject e.object with
        | none => rfl
        | some cfgs =>
          simp only [Option.bind_some, Option.pure_def, Option.filter_some, List.map_cons,
            List.sum_cons, Int.add_assoc]
          split_ifs <;> rfl

theorem policies_eq_bind (doc : PolicyDocument) :
    doc.policies = (acceptedElements 0 doc.elements).bind fun cfgs =>
      if cfgs = [] then none else some cfgs := by
  rw [PolicyDocument.policies, acceptedElements_eq_filter (by decide)]
  cases doc.elements.mapM fun e => policyOfObject e.object with
  | none => rfl
  | some cfgs =>
    simp only [Option.bind_eq_bind, Option.bind_some, Option.filter_some, Int.zero_add,
      decide_eq_true_eq]
    by_cases hsum : (cfgs.map SlicePolicyCfg.dedicatedPrb).sum ≤ 100
    · rw [if_pos hsum, Option.bind_some]
      by_cases hnil : cfgs = []
      · rw [if_pos hnil, if_neg fun h => h.1 hnil]
      · rw [if_neg hnil, if_pos ⟨hnil, hsum⟩]
    · rw [if_neg hsum, Option.bind_none, if_neg fun h => hsum h.2]

theorem brace_notMem_ws (ws : Ws) : byte '\x7b' ∉ ws.text := fun h => (bare_ws ws _ h).2.1 rfl

section Elements

variable {rest : List UInt8}

theorem loadRest_element {e : PolicyElement} (h : ObjectReadable e.object)
    (policies : List SlicePolicyCfg) (sum : ℤ) :
    loadRest (e.text ++ rest) policies sum = (policyOfObject e.object).bind fun cfg =>
      if sum + cfg.dedicatedPrb > 100 then none
      else loadRest rest (policies ++ [cfg]) (sum + cfg.dedicatedPrb) := by
  have htext : e.text ++ rest = e.before.text ++ (e.object.text ++ (e.after.text ++ rest)) := by
    rw [PolicyElement.text, List.append_assoc, List.append_assoc]
  rw [htext, loadRest_skip (brace_notMem_ws _), loadRest_object h]
  simp only [loadRest_skip (brace_notMem_ws _)]

/-- The loop goes through the elements of the array. -/
theorem loadRest_elements : ∀ {es : List PolicyElement} (policies : List SlicePolicyCfg) (sum : ℤ),
    es ≠ [] → ElementsReadable sum es →
      loadRest (commaText (es.map PolicyElement.text) ++ rest) policies sum =
        (acceptedElements sum es).bind fun cfgs =>
          loadRest rest (policies ++ cfgs) (sum + (cfgs.map SlicePolicyCfg.dedicatedPrb).sum)
  | [], _, _, hes, _ => absurd rfl hes
  | [e], policies, sum, _, h => by
    have htext : commaText ([e].map PolicyElement.text) = e.text := rfl
    rw [htext, loadRest_element h.1, acceptedElements]
    cases policyOfObject e.object with
    | none => rfl
    | some cfg =>
      simp only [Option.bind_some]
      split_ifs
      · rfl
      · simp [acceptedElements]
  | e :: e' :: es, policies, sum, _, h => by
    have htext : commaText ((e :: e' :: es).map PolicyElement.text) ++ rest =
        e.text ++ ([byte ','] ++ (commaText ((e' :: es).map PolicyElement.text) ++ rest)) := by
      simp only [List.map_cons, commaText, List.append_assoc, List.cons_append, List.nil_append]
    have hcomma : byte '\x7b' ∉ [byte ','] := by decide
    rw [htext, loadRest_element h.1, acceptedElements]
    cases hcfg : policyOfObject e.object with
    | none => rfl
    | some cfg =>
      simp only [Option.bind_some, loadRest_skip hcomma]
      by_cases hover : sum + cfg.dedicatedPrb > 100
      · rw [if_pos hover, if_pos hover, Option.bind_none]
      · have hnext := h.2 cfg hcfg (by omega)
        rw [if_neg hover, if_neg hover, loadRest_elements _ _ (List.cons_ne_nil _ _) hnext,
          Option.bind_map]
        apply Option.bind_congr
        intro cfgs _
        rw [Function.comp_apply, List.append_assoc, List.singleton_append, List.map_cons,
          List.sum_cons, Int.add_assoc]

end Elements

/-! ### The document -/

section Document

variable (doc : PolicyDocument)

def behindBracket : List UInt8 := doc.arrayText ++ byte ']' :: doc.rest

/-- The text from the name of the array to its opening bracket. -/
def upToBracket : List UInt8 :=
  doc.key.quoted ++ (doc.afterKey.text ++ byte ':' :: doc.beforeArray.text)

theorem policyDocument_text_eq :
    doc.text = doc.head ++ (upToBracket doc ++ byte '[' :: behindBracket doc) := by
  simp only [PolicyDocument.text, upToBracket, behindBracket, List.append_assoc, List.cons_append]

theorem zero_notMem_head : 0 ∉ doc.head := by
  have hbefore : 0 ∉ doc.before := by
    rcases doc.before_derives with h | ⟨t, ht, h⟩
    · rw [h]
      exact List.not_mem_nil
    · rw [h, List.mem_append, not_or]
      exact ⟨ht.zero_notMem, by decide⟩
  simp only [PolicyDocument.head, List.mem_append, List.mem_cons, not_or]
  exact ⟨doc.lead.zero_notMem, by decide, hbefore, doc.beforeKey.zero_notMem⟩

theorem zero_notMem_rest : 0 ∉ doc.rest := by
  have hafter : 0 ∉ doc.after := by
    rcases doc.after_derives with h | ⟨t, ht, h⟩
    · rw [h]
      exact List.not_mem_nil
    · rw [h, List.mem_cons, not_or]
      exact ⟨by decide, ht.zero_notMem⟩
  simp only [PolicyDocument.rest, List.mem_append, List.mem_cons, not_or]
  exact ⟨doc.afterArray.zero_notMem, hafter, by decide, doc.trail.zero_notMem⟩

theorem zero_notMem_arrayText : 0 ∉ doc.arrayText := by
  rw [PolicyDocument.arrayText]
  split_ifs
  · exact doc.inner.zero_notMem
  · apply zero_notMem_commaText
    intro t ht
    obtain ⟨e, -, rfl⟩ := List.mem_map.mp ht
    simp only [PolicyElement.text, List.mem_append, not_or]
    exact ⟨e.before.zero_notMem, e.object.zero_notMem, e.after.zero_notMem⟩

/-- The whole file is read. -/
theorem cString_text : cString doc.text = doc.text := by
  apply cString_eq_self
  rintro c hc rfl
  simp only [PolicyDocument.text, List.mem_append, List.mem_cons] at hc
  rcases hc with hc | hc | hc | hc | hc | hc | hc | hc | hc
  · exact zero_notMem_head doc hc
  · exact doc.key.zero_notMem_quoted hc
  · exact doc.afterKey.zero_notMem hc
  · exact absurd hc (by decide)
  · exact doc.beforeArray.zero_notMem hc
  · exact absurd hc (by decide)
  · exact zero_notMem_arrayText doc hc
  · exact absurd hc (by decide)
  · exact zero_notMem_rest doc hc

/-- What is before the name of the array ends with a brace, with a comma or with white space. -/
theorem getLast?_head : ∃ c, doc.head.getLast? = some c ∧
    (isWs c = true ∨ c = byte '\x7b' ∨ c = byte ',') := by
  rw [PolicyDocument.head, List.getLast?_append, List.getLast?_cons, Option.some_or]
  refine ⟨_, rfl, ?_⟩
  rw [List.getLast?_append]
  cases hws : doc.beforeKey.text.getLast? with
  | some c =>
    left
    exact doc.beforeKey.isWs_of_mem c (List.mem_of_getLast? hws)
  | none =>
    right
    rw [Option.none_or]
    rcases doc.before_derives with h | ⟨t, -, h⟩
    · rw [h]
      exact .inl rfl
    · rw [h, List.getLast?_append, List.getLast?_singleton, Option.some_or]
      exact .inr rfl

variable {doc}

/-- The name of the array in quotes. -/
def policiesKey : List UInt8 := ascii "\"policies\""

theorem quoted_eq_policiesKey (h : doc.key.text = ascii "policies") :
    doc.key.quoted = policiesKey := by
  rw [JsonString.quoted, h]
  decide +kernel

/-- The name of the array is not found too early. One that begins before it would either be there as
a whole, or its last letter would stand where a name cannot end. -/
theorem policiesKey_first (h : ¬ policiesKey <:+: doc.head) (rest : List UInt8) :
    ∀ i < doc.head.length, ¬ policiesKey <+: (doc.head ++ (policiesKey ++ rest)).drop i := by
  intro i hi hocc
  have hlen : policiesKey.length = 10 := by decide +kernel
  by_cases hinside : i + 10 ≤ doc.head.length
  · rw [List.drop_append_of_le_length hi.le] at hocc
    have hstarts := List.prefix_of_prefix_length_le hocc (List.prefix_append _ _)
      (by rw [hlen, List.length_drop]; omega)
    have hsuffix : doc.head.drop i <:+: doc.head := List.IsSuffix.isInfix (List.drop_suffix _ _)
    exact h ((List.IsPrefix.isInfix hstarts).trans hsuffix)
  · have hchar : ∀ k < 10, (doc.head ++ (policiesKey ++ rest))[i + k]? = policiesKey[k]? := by
      intro k hk
      rw [← hlen] at hk
      have hget := List.prefix_iff_getElem?.mp hocc k hk
      rwa [List.getElem?_drop, ← List.getElem?_eq_getElem] at hget
    -- the quote that opens the name is the closing one of what was found
    have hquote : policiesKey[doc.head.length - i]? = some (byte '"') := by
      rw [← hchar _ (by omega), Nat.add_sub_cancel' hi.le, List.getElem?_append_right le_rfl,
        Nat.sub_self, List.getElem?_append_left (by rw [hlen]; omega)]
      decide +kernel
    have honly : ∀ j < 10, j ≠ 0 → policiesKey[j]? = some (byte '"') → j = 9 := by decide +kernel
    have hnine := honly _ (by omega) (by omega) hquote
    obtain ⟨c, hlast, hc⟩ := getLast?_head doc
    have hletter : some c = policiesKey[8]? := by
      rw [← hchar 8 (by omega), List.getElem?_append_left (by omega), ← hlast,
        List.getLast?_eq_getElem?]
      congr 1
      omega
    have hs : policiesKey[8]? = some (byte 's') := by decide +kernel
    obtain rfl := Option.some.inj (hletter.trans hs)
    exact absurd hc (by decide)

theorem bracket_notMem_upToBracket (h : doc.key.text = ascii "policies") :
    byte '[' ∉ upToBracket doc := by
  have hws : ∀ ws : Ws, byte '[' ∉ ws.text := fun ws hmem =>
    absurd (ws.isWs_of_mem _ hmem) (by decide)
  rw [upToBracket, quoted_eq_policiesKey h]
  simp only [List.mem_append, List.mem_cons, not_or]
  exact ⟨by decide +kernel, hws _, by decide, hws _⟩

/-- The loop begins behind the bracket of the array. -/
theorem loadPolicyFile_text (h : doc.Readable) :
    loadPolicyFile doc.text = (loadRest (behindBracket doc) [] 0).bind fun policies =>
      if policies = [] then none else some policies := by
  have htail : upToBracket doc ++ byte '[' :: behindBracket doc = policiesKey ++
      ((doc.afterKey.text ++ byte ':' :: doc.beforeArray.text) ++
          byte '[' :: behindBracket doc) := by
    rw [upToBracket, quoted_eq_policiesKey h.key_text, List.append_assoc]
  have hfirst := policiesKey_first h.first
    ((doc.afterKey.text ++ byte ':' :: doc.beforeArray.text) ++ byte '[' :: behindBracket doc)
  have hstrstr : strstr policiesKey doc.text = some doc.head.length := by
    rw [policyDocument_text_eq, htail, strstr_append hfirst,
      strstr_of_prefix (List.prefix_append _ _) (by decide +kernel), Option.map_some, Nat.zero_add]
  have hdrop : doc.text.drop doc.head.length =
      upToBracket doc ++ byte '[' :: behindBracket doc := by
    rw [policyDocument_text_eq, List.drop_left]
  have hstrchr : strchr (byte '[') (doc.text.drop doc.head.length) =
      some (upToBracket doc).length := by
    rw [hdrop, strchr_append (bracket_notMem_upToBracket h.key_text), strchr_cons_self,
      Option.map_some, Nat.zero_add]
  have hbehind : (doc.text.drop doc.head.length).drop ((upToBracket doc).length + 1) =
      behindBracket doc := by
    rw [hdrop, ← List.drop_drop, List.drop_left, List.drop_one, List.tail_cons]
  have hrounds : (behindBracket doc).length < doc.text.length + 1 := by
    rw [← hbehind, List.length_drop, List.length_drop]
    omega
  have hkey : ascii "\"policies\"" = policiesKey := rfl
  simp only [loadPolicyFile, cString_text, hkey, hstrstr, Option.bind_eq_bind, Option.bind_some,
    hstrchr, hbehind, loadEntries_eq_loadRest hrounds]

theorem loadRest_behindBracket (h : doc.Readable) :
    loadRest (behindBracket doc) [] 0 = (acceptedElements 0 doc.elements).bind fun cfgs =>
      loadRest doc.rest cfgs (cfgs.map SlicePolicyCfg.dedicatedPrb).sum := by
  have hbracket : byte '\x7b' ∉ [byte ']'] := by decide
  have hrest : ∀ policies sum,
      loadRest (byte ']' :: doc.rest) policies sum = loadRest doc.rest policies sum :=
    fun _ _ => loadRest_skip hbracket
  rw [behindBracket, PolicyDocument.arrayText]
  split_ifs with hnil
  · rw [loadRest_skip (brace_notMem_ws _), hrest, hnil]
    rfl
  · simp only [loadRest_elements [] 0 hnil h.elements, hrest, List.nil_append, Int.zero_add]

/-- What is loaded is what is meant, if nothing behind the array looks like an entry. -/
theorem loadPolicyFile_of_notMem (h : doc.Readable) (hrest : byte '\x7b' ∉ doc.rest) :
    loadPolicyFile doc.text = doc.policies := by
  rw [loadPolicyFile_text h, loadRest_behindBracket h, policies_eq_bind, Option.bind_assoc]
  apply Option.bind_congr
  intro cfgs _
  rw [loadRest_of_notMem hrest, Option.bind_some]

/-- What is refused in the array is refused. -/
theorem loadPolicyFile_of_none (h : doc.Readable) (hnil : doc.elements ≠ [])
    (hnone : doc.policies = none) : loadPolicyFile doc.text = none := by
  rw [loadPolicyFile_text h, loadRest_behindBracket h]
  rw [policies_eq_bind] at hnone
  cases hcfgs : acceptedElements 0 doc.elements with
  | none => rfl
  | some cfgs =>
    rw [hcfgs, Option.bind_some, if_neg (acceptedElements_ne_nil hcfgs hnil)] at hnone
    cases hnone

/-- An opening brace behind the array adds an entry, or has the file refused. -/
theorem loadPolicyFile_ne_of_mem (h : doc.Readable) {cfgs : List SlicePolicyCfg}
    (hpolicies : doc.policies = some cfgs) (hrest : byte '\x7b' ∈ doc.rest) :
    loadPolicyFile doc.text ≠ some cfgs := by
  intro hload
  rw [loadPolicyFile_text h, loadRest_behindBracket h] at hload
  rw [policies_eq_bind] at hpolicies
  obtain ⟨cfgs', hcfgs, hpolicies⟩ := Option.bind_eq_some_iff.mp hpolicies
  split_ifs at hpolicies
  obtain rfl := Option.some.inj hpolicies
  rw [hcfgs, Option.bind_some] at hload
  obtain ⟨loaded, hloaded, hload⟩ := Option.bind_eq_some_iff.mp hload
  split_ifs at hload
  obtain rfl := Option.some.inj hload
  exact loadRest_ne_self hrest hloaded

end Document

/-! ### A document -/

/-- No white space. -/
def noWs : Ws := ⟨[], fun _ h => absurd h List.not_mem_nil⟩

/-- A string that is written as it is. -/
def plainString (s : List UInt8) : JsonString :=
  s.filterMap fun c =>
    if h : 32 ≤ c ∧ c ≠ byte '"' ∧ c ≠ byte '\\' then some (.plain c h) else none

theorem isDigit_zero : ∀ c ∈ [byte '0'], isDigit c = true :=
  List.forall_mem_singleton.mpr rfl

def zeroNumber : JsonNumber where
  negative := false
  int := ⟨[byte '0'], isDigit_zero, List.cons_ne_nil _ _⟩
  int_of_zero := fun _ => rfl
  frac := none
  exp := none

/-- A member without white space. -/
def plainMember (name : List UInt8) (value : Scalar) : FlatMember :=
  ⟨noWs, plainString name, noWs, noWs, value, noWs⟩

/-- The object whose text is the sample entry. -/
def sampleObject : FlatObject where
  members := [plainMember (ascii "min_prb") (.number zeroNumber),
    plainMember (ascii "max_prb") (.number zeroNumber),
    plainMember (ascii "dedicated_prb") (.number zeroNumber),
    plainMember (ascii "sst") (.string (plainString (ascii "1"))),
    plainMember (ascii "sd") (.string (plainString (ascii "1"))),
    plainMember (ascii "plmn") (.string (plainString (ascii "00101")))]
  inner := noWs

/-- A document with the object in its array, and other members behind it. -/
def sampleDocument (after : List UInt8)
    (h : after = [] ∨ ∃ t, Derives .members t ∧ after = byte ',' :: t) : PolicyDocument where
  lead := noWs
  before := []
  before_derives := .inl rfl
  beforeKey := noWs
  key := plainString (ascii "policies")
  key_value := by decide +kernel
  afterKey := noWs
  beforeArray := noWs
  elements := [⟨noWs, sampleObject, noWs⟩]
  inner := noWs
  afterArray := noWs
  after := after
  after_derives := h
  trail := noWs

theorem bracesMatch_sampleObject : BracesMatch sampleObject := by
  have hstring : ∀ s, ShowsEnd (plainString s) → ∀ s', Scalar.string (plainString s) = .string s' →
      ShowsEnd s' := by
    rintro s h s' heq
    rwa [← Scalar.string.inj heq]
  unfold BracesMatch sampleObject
  simp only [List.forall_mem_cons, List.not_mem_nil, false_imp_iff, implies_true, and_true,
    plainMember]
  refine ⟨⟨?_, nofun⟩, ⟨?_, nofun⟩, ⟨?_, nofun⟩, ⟨?_, hstring _ ?_⟩, ⟨?_, hstring _ ?_⟩, ⟨?_,
    hstring _ ?_⟩⟩
  all_goals
    unfold ShowsEnd
    decide +kernel

theorem showsString_plainString {s : List UInt8} (h : byte '\\' ∉ (plainString s).text) :
    ShowsString (.string (plainString s)) := by
  intro s' heq
  rwa [← Scalar.string.inj heq]

theorem showsInt_zeroNumber : ShowsInt (.number zeroNumber) := by
  intro n heq
  obtain rfl := Scalar.number.inj heq
  exact JsonNumber.value_of_int _ rfl rfl

/-- The six members of the object. -/
theorem fieldReadable_sampleObject (f : Field) : FieldReadable sampleObject f := by
  have hint : ∀ {name : List UInt8}, sampleObject.lookup name = some (.number zeroNumber) →
      ∀ v, sampleObject.lookup name = some v → ShowsInt v := by
    intro name hlookup v hv
    rw [hlookup] at hv
    obtain rfl := Option.some.inj hv
    exact showsInt_zeroNumber
  have hstring : ∀ {name s : List UInt8}, byte '\\' ∉ (plainString s).text →
      sampleObject.lookup name = some (.string (plainString s)) →
        ∀ v, sampleObject.lookup name = some v → ShowsString v ∧ ShowsInt v := by
    intro name s h hlookup v hv
    rw [hlookup] at hv
    obtain rfl := Option.some.inj hv
    exact ⟨showsString_plainString h, nofun⟩
  cases f with
  | plmn => exact ⟨by decide +kernel, fun v hv => (hstring (by decide +kernel) rfl v hv).1⟩
  | sst => exact ⟨by decide +kernel, hstring (by decide +kernel) rfl⟩
  | sd => exact ⟨by decide +kernel, hstring (by decide +kernel) rfl⟩
  | minPrb => exact ⟨by decide +kernel, hint rfl⟩
  | maxPrb => exact ⟨by decide +kernel, hint rfl⟩
  | dedicatedPrb => exact ⟨by decide +kernel, hint rfl⟩

theorem fieldsReadable_of_forall {o : FlatObject} (h : ∀ f, FieldReadable o f) :
    ∀ fs, FieldsReadable o fs
  | [] => trivial
  | f :: fs => ⟨h f, fun _ => fieldsReadable_of_forall h fs⟩

theorem readable_sampleDocument {after : List UInt8}
    (h : after = [] ∨ ∃ t, Derives .members t ∧ after = byte ',' :: t) :
    (sampleDocument after h).Readable where
  key_text := by
    change (plainString (ascii "policies")).text = ascii "policies"
    decide +kernel
  first := by
    change ¬ ascii "\"policies\"" <:+: [byte '\x7b']
    decide +kernel
  elements := ⟨⟨bracesMatch_sampleObject, fieldsReadable_of_forall fieldReadable_sampleObject _⟩,
    fun _ _ _ => trivial⟩
  behind_empty := fun hnil => absurd hnil (List.cons_ne_nil _ _)

/-- A readable document is loaded as it is meant exactly if it is refused anyway, or has no opening
brace behind its array. -/
theorem loadPolicyFile_eq_iff (doc : PolicyDocument) (h : doc.Readable) :
    loadPolicyFile doc.text = doc.policies ↔ doc.policies = none ∨ byte '\x7b' ∉ doc.rest := by
  constructor
  · intro heq
    cases hpolicies : doc.policies with
    | none => exact .inl rfl
    | some cfgs =>
      right
      intro hmem
      exact loadPolicyFile_ne_of_mem h hpolicies hmem (heq.trans hpolicies)
  · rintro (hnone | hrest)
    · by_cases hnil : doc.elements = []
      · exact loadPolicyFile_of_notMem h (h.behind_empty hnil)
      · rw [hnone, loadPolicyFile_of_none h hnil hnone]
    · exact loadPolicyFile_of_notMem h hrest

/-- The document with nothing behind its array. -/
theorem loadPolicyFile_eq_iff_sampleDocument :
    loadPolicyFile (sampleDocument [] (.inl rfl)).text = (sampleDocument [] (.inl rfl)).policies ↔
      (sampleDocument [] (.inl rfl)).policies = none ∨
        byte '\x7b' ∉ (sampleDocument [] (.inl rfl)).rest :=
  loadPolicyFile_eq_iff (sampleDocument [] (.inl rfl)) (readable_sampleDocument (.inl rfl))

/-- A member `meta` with an empty object. -/
def metaMember : List UInt8 :=
  (plainString (ascii "meta")).quoted ++ byte ':' :: ascii "\x7b\x7d"

theorem derives_metaMember : ∃ t, Derives .members t ∧ byte ',' :: metaMember = byte ',' :: t :=
  ⟨metaMember, Derives.member noWs (plainString (ascii "meta")) noWs noWs noWs (.emptyObject noWs),
    rfl⟩

theorem policies_sampleDocument {after : List UInt8}
    (h : after = [] ∨ ∃ t, Derives .members t ∧ after = byte ',' :: t) :
    (sampleDocument after h).policies = some [sampleCfg] := by
  have hsame : (sampleDocument after h).policies = (sampleDocument [] (.inl rfl)).policies := rfl
  have hrest : byte '\x7b' ∉ (sampleDocument [] (.inl rfl)).rest := by decide +kernel
  rw [hsame, ← loadPolicyFile_of_notMem (readable_sampleDocument _) hrest]
  decide +kernel

/-- The empty object of a member behind the array is taken for an entry, and the file is refused. -/
theorem loadPolicyFile_metaMember :
    (sampleDocument (byte ',' :: metaMember) (.inr derives_metaMember)).policies =
        some [sampleCfg] ∧
      loadPolicyFile (sampleDocument (byte ',' :: metaMember) (.inr derives_metaMember)).text =
        none := by
  constructor
  · exact policies_sampleDocument _
  · decide +kernel

end LlmHric.XApp
