import LlmHric.XApp.PolicyDocument

/-! The searches of the xApp are followed through the text of an object whose strings show where
they end: the closing brace is found behind the object, every name is found at its member, and the
values are read as they are written. -/

namespace LlmHric.XApp

open CText JsonText

/-! ### Texts without structure -/

/-- No quote, no brace and no backslash. -/
def Bare (t : List UInt8) : Prop :=
  ∀ c ∈ t, c ≠ byte '"' ∧ c ≠ byte '\x7b' ∧ c ≠ byte '\x7d' ∧ c ≠ byte '\\'

theorem bare_append {t t' : List UInt8} (h : Bare t) (h' : Bare t') : Bare (t ++ t') := by
  intro c hc
  rcases List.mem_append.mp hc with hc | hc
  · exact h c hc
  · exact h' c hc

theorem bare_cons {c : UInt8} {t : List UInt8}
    (hc : c ≠ byte '"' ∧ c ≠ byte '\x7b' ∧ c ≠ byte '\x7d' ∧ c ≠ byte '\\') (h : Bare t) :
    Bare (c :: t) := by
  intro d hd
  rcases List.mem_cons.mp hd with rfl | hd
  · exact hc
  · exact h d hd

theorem bare_ws (ws : Ws) : Bare ws.text := by
  intro c hc
  have h := ws.isWs_of_mem c hc
  simp only [isWs, Bool.or_eq_true, beq_iff_eq] at h
  rcases h with ((rfl | rfl) | rfl) | rfl <;> decide

theorem bare_digits (d : Digits) : Bare d.text := by
  intro c hc
  have h := d.isDigit_of_mem c hc
  have hquote : isDigit (byte '"') = false := rfl
  have hopen : isDigit (byte '\x7b') = false := rfl
  have hclose : isDigit (byte '\x7d') = false := rfl
  have hbackslash : isDigit (byte '\\') = false := rfl
  refine ⟨?_, ?_, ?_, ?_⟩
  all_goals
    rintro rfl
    simp_all

theorem bare_nil : Bare [] := fun _ h => absurd h List.not_mem_nil

theorem bare_number (n : JsonNumber) : Bare n.text := by
  have hsign : Bare (if n.negative then [byte '-'] else []) := by
    split_ifs
    · exact bare_cons (by decide) bare_nil
    · exact bare_nil
  have hfrac : Bare (n.frac.elim [] fun d => byte '.' :: d.text) := by
    cases n.frac with
    | none => exact bare_nil
    | some d => exact bare_cons (by decide) (bare_digits d)
  have hexp : Bare (n.exp.elim [] Exponent.text) := by
    cases n.exp with
    | none => exact bare_nil
    | some e =>
      obtain ⟨upper, sign, digits⟩ := e
      have hletter : ∀ t, Bare t → Bare ((if upper then byte 'E' else byte 'e') :: t) := by
        intro t ht
        split_ifs
        · exact bare_cons (by decide) ht
        · exact bare_cons (by decide) ht
      apply hletter
      rcases sign with _ | _ | _
      · exact bare_digits digits
      · exact bare_cons (by decide) (bare_digits digits)
      · exact bare_cons (by decide) (bare_digits digits)
  exact bare_append (bare_append hsign (bare_digits n.int)) (bare_append hfrac hexp)

theorem bare_literals : Bare (ascii "null") ∧ Bare (ascii "true") ∧ Bare (ascii "false") := by
  unfold Bare
  decide +kernel

/-- A value other than a string has no structure. -/
theorem bare_scalar {v : Scalar} (hv : ∀ s, v ≠ .string s) : Bare v.text := by
  cases v with
  | null => exact bare_literals.1
  | bool b =>
    cases b
    · exact bare_literals.2.2
    · exact bare_literals.2.1
  | number n => exact bare_number n
  | string s => exact absurd rfl (hv s)

/-! ### The closing brace -/

/-- The byte before what follows a text. -/
def lastOr (prev : Option UInt8) (t : List UInt8) : Option UInt8 := t.getLast?.or prev

theorem lastOr_cons (prev : Option UInt8) (c : UInt8) (t : List UInt8) :
    lastOr prev (c :: t) = lastOr (some c) t := by
  rw [lastOr, lastOr, List.getLast?_cons]
  cases t.getLast? <;> rfl

/-- The scan goes over a text without changing the depth, and outside of strings. -/
def Passes (t : List UInt8) : Prop :=
  ∀ (rest : List UInt8) (prev : Option UInt8) (depth : ℤ), prev ≠ some (byte '\\') →
    ∃ prev', prev' ≠ some (byte '\\') ∧
      findMatchingBraceFrom (t ++ rest) prev depth false =
        (findMatchingBraceFrom rest prev' depth false).map (· + t.length)

theorem Passes.append {t t' : List UInt8} (h : Passes t) (h' : Passes t') : Passes (t ++ t') := by
  intro rest prev depth hprev
  obtain ⟨prev', hprev', hscan⟩ := h (t' ++ rest) prev depth hprev
  obtain ⟨prev'', hprev'', hscan'⟩ := h' rest prev' depth hprev'
  refine ⟨prev'', hprev'', ?_⟩
  rw [List.append_assoc, hscan, hscan', Option.map_map, List.length_append]
  congr 1
  funext n
  simp only [Function.comp_apply]
  omega

theorem Passes.of_bare {t : List UInt8} (h : Bare t) : Passes t := by
  intro rest prev depth hprev
  induction t generalizing prev with
  | nil => exact ⟨prev, hprev, by simp⟩
  | cons c t ih =>
    obtain ⟨hquote, hopen, hclose, hbackslash⟩ := h c (List.mem_cons_self ..)
    obtain ⟨prev', hprev', hscan⟩ := ih (fun d hd => h d (List.mem_cons_of_mem _ hd)) (some c)
      (fun heq => hbackslash (Option.some.inj heq))
    refine ⟨prev', hprev', ?_⟩
    rw [List.cons_append, findMatchingBraceFrom, if_neg (fun hc => hquote hc.1),
      if_neg Bool.false_ne_true, if_neg hopen, if_neg hclose, hscan, Option.map_map]
    rfl

/-- Inside a string a byte that does not end it is passed. -/
theorem findMatchingBraceFrom_inside {c : UInt8} {prev : Option UInt8}
    (h : ¬ (c = byte '"' ∧ prev ≠ some (byte '\\'))) (rest : List UInt8) (depth : ℤ) :
    findMatchingBraceFrom (c :: rest) prev depth true =
      (findMatchingBraceFrom rest (some c) depth true).map (· + 1) := by
  rw [findMatchingBraceFrom, if_neg h, if_pos rfl]

theorem findMatchingBraceFrom_insides {t : List UInt8} (h : ∀ c ∈ t, c ≠ byte '"')
    (rest : List UInt8) (prev : Option UInt8) (depth : ℤ) :
    findMatchingBraceFrom (t ++ rest) prev depth true =
      (findMatchingBraceFrom rest (lastOr prev t) depth true).map (· + t.length) := by
  induction t generalizing prev with
  | nil => simp [lastOr]
  | cons c t ih =>
    have hc : ¬ (c = byte '"' ∧ prev ≠ some (byte '\\')) :=
      fun hq => h c (List.mem_cons_self ..) hq.1
    rw [List.cons_append, findMatchingBraceFrom_inside hc,
      ih (fun d hd => h d (List.mem_cons_of_mem _ hd)), lastOr_cons, Option.map_map]
    rfl

theorem HexDigit.text_ne_quote (d : HexDigit) : d.text ≠ byte '"' := by
  intro h
  have hdigit := d.isDigitOf
  rw [h] at hdigit
  exact absurd hdigit (by decide)

/-- No character of a string ends it. -/
theorem findMatchingBraceFrom_char (c : JsonChar) (rest : List UInt8) (prev : Option UInt8)
    (depth : ℤ) :
    findMatchingBraceFrom (c.text ++ rest) prev depth true =
      (findMatchingBraceFrom rest (lastOr prev c.text) depth true).map (· + c.text.length) := by
  cases c with
  | plain c h =>
    apply findMatchingBraceFrom_insides
    intro d hd
    obtain rfl := List.mem_singleton.mp hd
    exact h.2.1
  | escape e =>
    -- what is escaped may be a quote, but then the byte before it is a backslash
    have hbackslash : ¬ (byte '\\' = byte '"' ∧ prev ≠ some (byte '\\')) :=
      fun h => absurd h.1 (by decide)
    have hescaped : ¬ (e.text = byte '"' ∧ some (byte '\\') ≠ some (byte '\\')) :=
      fun h => h.2 rfl
    change findMatchingBraceFrom (byte '\\' :: (e.text :: rest)) prev depth true = _
    rw [findMatchingBraceFrom_inside hbackslash, findMatchingBraceFrom_inside hescaped,
      Option.map_map]
    rfl
  | unicode a b c d =>
    apply findMatchingBraceFrom_insides
    intro x hx
    simp only [JsonChar.text, List.mem_cons, List.not_mem_nil, or_false] at hx
    rcases hx with rfl | rfl | rfl | rfl | rfl | rfl
    · decide
    · decide
    · exact HexDigit.text_ne_quote a
    · exact HexDigit.text_ne_quote b
    · exact HexDigit.text_ne_quote c
    · exact HexDigit.text_ne_quote d

theorem lastOr_append (prev : Option UInt8) (t t' : List UInt8) :
    lastOr prev (t ++ t') = lastOr (lastOr prev t) t' := by
  rw [lastOr, lastOr, lastOr, List.getLast?_append, Option.or_assoc]

/-- Inside a string the scan only looks at the quotes that no backslash escapes, and a string has
none. -/
theorem findMatchingBraceFrom_text (s : JsonString) (rest : List UInt8) (prev : Option UInt8)
    (depth : ℤ) :
    findMatchingBraceFrom (s.text ++ rest) prev depth true =
      (findMatchingBraceFrom rest (lastOr prev s.text) depth true).map (· + s.text.length) := by
  induction s generalizing prev with
  | nil => simp [lastOr]
  | cons c s ih =>
    rw [JsonString.text_cons, List.append_assoc, findMatchingBraceFrom_char, ih, lastOr_append,
      Option.map_map, List.length_append]
    congr 1
    funext n
    simp only [Function.comp_apply]
    omega

theorem Passes.quoted {s : JsonString} (h : ShowsEnd s) : Passes s.quoted := by
  intro rest prev depth hprev
  refine ⟨some (byte '"'), by decide, ?_⟩
  have hlast : lastOr (some (byte '"')) s.text ≠ some (byte '\\') := by
    rw [lastOr]
    cases hs : s.text.getLast? with
    | none => exact (by decide : some (byte '"') ≠ some (byte '\\'))
    | some c =>
      intro hc
      exact h (hs.trans hc)
  have hquoted : s.quoted ++ rest = byte '"' :: (s.text ++ byte '"' :: rest) := by
    rw [JsonString.quoted, List.cons_append, List.append_assoc, List.singleton_append]
  have hlen : s.quoted.length = s.text.length + 2 := by
    rw [JsonString.quoted, List.length_cons, List.length_append, List.length_singleton]
  -- the first quote opens the string, and the last one closes it
  rw [hquoted, findMatchingBraceFrom, if_pos ⟨rfl, hprev⟩, Bool.not_false,
    findMatchingBraceFrom_text, findMatchingBraceFrom, if_pos ⟨rfl, hlast⟩, Bool.not_true,
    Option.map_map, Option.map_map, hlen]
  congr 1
  funext n
  simp only [Function.comp_apply]
  omega

theorem Passes.scalar {v : Scalar} (h : ∀ s, v = .string s → ShowsEnd s) : Passes v.text := by
  cases v with
  | string s => exact Passes.quoted (h s rfl)
  | null => exact Passes.of_bare (bare_scalar nofun)
  | bool b => exact Passes.of_bare (bare_scalar nofun)
  | number n => exact Passes.of_bare (bare_scalar nofun)

theorem bare_singleton {c : UInt8}
    (hc : c ≠ byte '"' ∧ c ≠ byte '\x7b' ∧ c ≠ byte '\x7d' ∧ c ≠ byte '\\') : Bare [c] :=
  bare_cons hc bare_nil

theorem Passes.member {m : FlatMember} (hkey : ShowsEnd m.key)
    (hvalue : ∀ s, m.value = .string s → ShowsEnd s) : Passes m.text := by
  have hcolon : Passes [byte ':'] := Passes.of_bare (bare_singleton (by decide))
  have htail : Passes m.valueText := (Passes.of_bare (bare_ws _)).append
    ((Passes.scalar hvalue).append (Passes.of_bare (bare_ws _)))
  exact (Passes.of_bare (bare_ws _)).append ((Passes.quoted hkey).append
    ((Passes.of_bare (bare_ws _)).append (hcolon.append htail)))

theorem Passes.comma {ts : List (List UInt8)} (h : ∀ t ∈ ts, Passes t) :
    Passes (commaText ts) := by
  have hcomma : Passes [byte ','] := Passes.of_bare (bare_singleton (by decide))
  fun_induction commaText ts with
  | case1 => exact Passes.of_bare bare_nil
  | case2 t => exact h t (List.mem_singleton_self t)
  | case3 t t' ts ih =>
    exact (h t (List.mem_cons_self ..)).append
      (hcomma.append (ih fun u hu => h u (List.mem_cons_of_mem _ hu)))

/-- What is between the braces of an object. -/
def objectBody (o : FlatObject) : List UInt8 :=
  if o.members = [] then o.inner.text else commaText (o.members.map FlatMember.text)

theorem Passes.body {o : FlatObject} (h : BracesMatch o) : Passes (objectBody o) := by
  rw [objectBody]
  split_ifs
  · exact Passes.of_bare (bare_ws _)
  · apply Passes.comma
    intro t ht
    obtain ⟨m, hm, rfl⟩ := List.mem_map.mp ht
    exact Passes.member (h m hm).1 (h m hm).2

theorem text_append_eq (o : FlatObject) (rest : List UInt8) :
    o.text ++ rest = byte '\x7b' :: (objectBody o ++ byte '\x7d' :: rest) := by
  rw [FlatObject.text, objectBody, List.cons_append, List.append_assoc, List.singleton_append]

/-- The end of an object is found. -/
theorem findMatchingBrace_object {o : FlatObject} (h : BracesMatch o) (rest : List UInt8) :
    findMatchingBrace (o.text ++ rest) = some ((objectBody o).length + 1) := by
  have hquote : ¬ (byte '\x7b' = byte '"' ∧ (none : Option UInt8) ≠ some (byte '\\')) :=
    fun hc => absurd hc.1 (by decide)
  obtain ⟨prev, hprev, hscan⟩ := Passes.body h (byte '\x7d' :: rest) (some (byte '\x7b')) (0 + 1)
    (by decide)
  have hquote' : ¬ (byte '\x7d' = byte '"' ∧ prev ≠ some (byte '\\')) :=
    fun hc => absurd hc.1 (by decide)
  have hopen : ¬ byte '\x7d' = byte '\x7b' := by decide
  rw [text_append_eq, findMatchingBrace, findMatchingBraceFrom, if_neg hquote,
    if_neg Bool.false_ne_true, if_pos rfl, hscan, findMatchingBraceFrom, if_neg hquote',
    if_neg Bool.false_ne_true, if_neg hopen, if_pos rfl, if_pos (by omega)]
  simp

/-! ### The search for a name -/

/-- The search with as many rounds as it takes. -/
def search (text needle : List UInt8) (stop off : ℕ) : Option ℕ :=
  findJsonKeyFrom text needle stop (stop + 1) off

theorem findJsonKeyFrom_eq_of_le (text : List UInt8) {needle : List UInt8} {stop fuel off : ℕ}
    (hneedle : needle ≠ []) (h : stop < off + fuel) (more : ℕ) :
    findJsonKeyFrom text needle stop (fuel + more) off =
      findJsonKeyFrom text needle stop fuel off := by
  induction more with
  | zero => rfl
  | succ more ih =>
    rw [← Nat.add_assoc, findJsonKeyFrom_fuel hneedle (by omega), ih]

theorem findJsonKeyFrom_eq_search (text : List UInt8) {needle : List UInt8} {stop fuel off : ℕ}
    (hneedle : needle ≠ []) (h : stop < off + fuel) :
    findJsonKeyFrom text needle stop fuel off = search text needle stop off := by
  have hleft := findJsonKeyFrom_eq_of_le text hneedle h (stop + 1)
  have hright := findJsonKeyFrom_eq_of_le text hneedle
    (show stop < off + (stop + 1) by omega) fuel
  rw [search, ← hleft, ← hright, Nat.add_comm]

theorem search_eq {text needle : List UInt8} {stop off : ℕ} (hneedle : needle ≠ []) :
    search text needle stop off =
      match strstr needle (text.drop off) with
      | none => none
      | some k =>
        if off + k < stop then
          let past := off + k + needle.length
          let colon := past + ((text.drop past).takeWhile isSpace).length
          if text[colon]? = some (byte ':') then some (colon + 1)
          else search text needle stop past
        else none := by
  rw [search, findJsonKeyFrom]
  cases strstr needle (text.drop off) with
  | none => rfl
  | some k =>
    have hpos : 0 < needle.length := List.length_pos_iff.mpr hneedle
    have hnext := findJsonKeyFrom_eq_search text hneedle
      (show stop < off + k + needle.length + stop by omega)
    simp only [hnext]

/-- The name in quotes, as it is searched for. -/
def needleOf (name : List UInt8) : List UInt8 := byte '"' :: name ++ [byte '"']

theorem needleOf_ne_nil (name : List UInt8) : needleOf name ≠ [] := by
  simp [needleOf]

theorem length_needleOf (name : List UInt8) : (needleOf name).length = name.length + 2 := by
  rw [needleOf, List.cons_append, List.length_cons, List.length_append, List.length_singleton]

/-- The search finds nothing before the end of a text that others follow. -/
def Skips (name t rest : List UInt8) : Prop :=
  ∀ (pre : List UInt8) (stop : ℕ), pre.length + t.length ≤ stop →
    search (pre ++ (t ++ rest)) (needleOf name) stop pre.length =
      search (pre ++ (t ++ rest)) (needleOf name) stop (pre.length + t.length)

theorem Skips.append {name t t' rest : List UInt8} (h : Skips name t (t' ++ rest))
    (h' : Skips name t' rest) : Skips name (t ++ t') rest := by
  intro pre stop hstop
  rw [List.length_append] at hstop
  have hfirst := h pre stop (by omega)
  have hsecond := h' (pre ++ t) stop (by rw [List.length_append]; omega)
  rw [List.length_append, List.append_assoc] at hsecond
  rw [List.append_assoc, hfirst, hsecond, List.length_append, Nat.add_assoc]

theorem Skips.of_no_occurrence {name t rest : List UInt8}
    (h : ∀ i < t.length, ¬ needleOf name <+: (t ++ rest).drop i) : Skips name t rest := by
  intro pre stop hstop
  have hdrop : (pre ++ (t ++ rest)).drop (pre.length + t.length) = rest := by
    rw [← List.append_assoc, ← List.length_append, List.drop_left]
  rw [search_eq (needleOf_ne_nil name), search_eq (needleOf_ne_nil name), List.drop_left, hdrop,
    strstr_append h]
  cases strstr (needleOf name) rest with
  | none => rfl
  | some k =>
    have hsum : pre.length + (k + t.length) = pre.length + t.length + k := by omega
    simp only [Option.map_some, hsum]

/-- A text without quotes is skipped. -/
theorem Skips.of_bare {name t rest : List UInt8} (h : ∀ c ∈ t, c ≠ byte '"') :
    Skips name t rest := by
  apply Skips.of_no_occurrence
  rintro i hi ⟨u, hu⟩
  have hhead := congrArg List.head? hu
  rw [List.drop_append_of_le_length hi.le, List.drop_eq_getElem_cons hi] at hhead
  exact h _ (List.getElem_mem hi) (Option.some.inj hhead).symm

theorem backslash_before_quote (s : JsonString) {i : ℕ} (h : s.text[i]? = some (byte '"')) :
    ∃ j, i = j + 1 ∧ s.text[j]? = some (byte '\\') := by
  induction s generalizing i with
  | nil => cases h
  | cons c s ih =>
    rw [JsonString.text_cons] at h ⊢
    by_cases hi : i < c.text.length
    · rw [List.getElem?_append_left hi] at h
      cases c with
      | plain c hc =>
        obtain rfl : i = 0 := Nat.lt_one_iff.mp hi
        exact absurd (Option.some.inj h) hc.2.1
      | escape e =>
        match i, hi with
        | 0, _ => exact absurd (Option.some.inj h) (by decide)
        | 1, _ => exact ⟨0, rfl, rfl⟩
      | unicode a b c d =>
        have hmem := List.mem_of_getElem? h
        simp only [JsonChar.text, List.mem_cons, List.not_mem_nil, or_false] at hmem
        rcases hmem with hq | hq | hq | hq | hq | hq
        · exact absurd hq (by decide)
        · exact absurd hq (by decide)
        · exact absurd hq.symm (HexDigit.text_ne_quote a)
        · exact absurd hq.symm (HexDigit.text_ne_quote b)
        · exact absurd hq.symm (HexDigit.text_ne_quote c)
        · exact absurd hq.symm (HexDigit.text_ne_quote d)
    · rw [List.getElem?_append_right (by omega)] at h
      obtain ⟨j, hj, hback⟩ := ih h
      refine ⟨c.text.length + j, by omega, ?_⟩
      rw [List.getElem?_append_right (by omega), Nat.add_sub_cancel_left, hback]

/-- The characters of a name: none that a string escapes, and none that stands between tokens. -/
structure NameLike (name : List UInt8) : Prop where
  ne_nil : name ≠ []
  inner : ∀ c ∈ name, c ≠ byte '"' ∧ c ≠ byte '\\'
  outer : ∀ c ∈ name, isWs c = false ∧ c ≠ byte ',' ∧ c ≠ byte ':' ∧ c ≠ byte '\x7d'

theorem getElem?_quoted_append {s : JsonString} {k : ℕ} (rest : List UInt8)
    (hk : k < s.text.length) : (s.quoted ++ rest)[k + 1]? = s.text[k]? := by
  rw [JsonString.quoted, List.cons_append, List.getElem?_cons_succ, List.append_assoc,
    List.getElem?_append_left hk]

theorem getElem?_quoted_last (s : JsonString) (rest : List UInt8) :
    (s.quoted ++ rest)[s.text.length + 1]? = some (byte '"') := by
  rw [JsonString.quoted, List.cons_append, List.getElem?_cons_succ, List.append_assoc,
    List.getElem?_append_right le_rfl, Nat.sub_self]
  rfl

theorem length_quoted (s : JsonString) : s.quoted.length = s.text.length + 2 := by
  rw [JsonString.quoted, List.length_cons, List.length_append, List.length_singleton]

theorem getElem?_needleOf {name : List UInt8} {k : ℕ} (hk : k < name.length) :
    (needleOf name)[k + 1]? = name[k]? := by
  rw [needleOf, List.cons_append, List.getElem?_cons_succ, List.getElem?_append_left hk]

theorem getElem?_needleOf_last (name : List UInt8) :
    (needleOf name)[name.length + 1]? = some (byte '"') := by
  rw [needleOf, List.cons_append, List.getElem?_cons_succ, List.getElem?_append_right le_rfl,
    Nat.sub_self]
  rfl

/-- An occurrence that begins inside a string token ends with it. -/
theorem drop_quoted_of_occurrence {name : List UInt8} (hname : NameLike name) {s : JsonString}
    {rest : List UInt8} {i : ℕ} (hi : i ≤ s.text.length)
    (h : needleOf name <+: (s.quoted ++ rest).drop i) : s.quoted.drop i = needleOf name := by
  have hpos : 0 < name.length := List.length_pos_iff.mpr hname.ne_nil
  have hchar : ∀ j, j < name.length + 2 → (s.quoted ++ rest)[i + j]? = (needleOf name)[j]? := by
    intro j hj
    rw [← length_needleOf] at hj
    have := List.prefix_iff_getElem?.mp h j hj
    rwa [List.getElem?_drop, ← List.getElem?_eq_getElem] at this
  have hinner : ∀ k c, k < name.length → (s.quoted ++ rest)[i + (k + 1)]? = some c →
      c ≠ byte '"' ∧ c ≠ byte '\\' := by
    intro k c hk hc
    rw [hchar _ (by omega), getElem?_needleOf hk] at hc
    exact hname.inner c (List.mem_of_getElem? hc)
  -- the last quote of the token is not inside the name
  have hle : i + (name.length + 1) ≤ s.text.length + 1 := by
    by_contra hlt
    have hlast := getElem?_quoted_last s rest
    have hindex : s.text.length + 1 = i + (s.text.length - i + 1) := by omega
    rw [hindex] at hlast
    exact (hinner _ _ (by omega) hlast).1 rfl
  -- the last quote of the name is not one that a string escapes
  have hge : s.text.length + 1 ≤ i + (name.length + 1) := by
    by_contra hlt
    have hquote := hchar (name.length + 1) (by omega)
    rw [getElem?_needleOf_last, ← Nat.add_assoc, getElem?_quoted_append rest (by omega)] at hquote
    obtain ⟨j, hj, hback⟩ := backslash_before_quote s hquote
    rw [← getElem?_quoted_append rest (by omega)] at hback
    have hindex : j + 1 = i + (name.length - 1 + 1) := by omega
    rw [hindex] at hback
    exact (hinner _ _ (by omega) hback).2 rfl
  have hlen : (s.quoted.drop i).length = (needleOf name).length := by
    rw [List.length_drop, length_quoted, length_needleOf]
    omega
  rw [List.drop_append_of_le_length (by rw [length_quoted]; omega)] at h
  have hpre := List.prefix_of_prefix_length_le h (List.prefix_append _ rest) hlen.ge
  exact (hpre.eq_of_length hlen.symm).symm

/-- A string token that does not end with the name in quotes is skipped. -/
theorem Skips.quoted_of_ne {name : List UInt8} (hname : NameLike name) {s : JsonString}
    {rest : List UInt8} (hrest : ∀ c ∈ rest.head?, c ∉ name)
    (h : ∀ i ≤ s.text.length, s.quoted.drop i ≠ needleOf name) : Skips name s.quoted rest := by
  apply Skips.of_no_occurrence
  intro i hi hocc
  rw [length_quoted] at hi
  by_cases hlast : i ≤ s.text.length
  · exact h i hlast (drop_quoted_of_occurrence hname hlast hocc)
  · -- behind the last quote there is no character of a name
    obtain ⟨c, cs, hcons⟩ := List.exists_cons_of_ne_nil hname.ne_nil
    have hindex : i + 1 = s.quoted.length := by
      rw [length_quoted]
      omega
    have hchar := List.prefix_iff_getElem?.mp hocc 1 (by rw [length_needleOf, hcons]; simp)
    rw [List.getElem?_drop, hindex, List.getElem?_append_right le_rfl, Nat.sub_self,
      ← List.head?_eq_getElem?, ← List.getElem?_eq_getElem, getElem?_needleOf (by rw [hcons]; simp),
      hcons, List.getElem?_cons_zero] at hchar
    exact hrest c hchar (hcons ▸ List.mem_cons_self ..)

theorem getElem?_length_takeWhile (p : UInt8 → Bool) (t : List UInt8) :
    t[(t.takeWhile p).length]? = (t.dropWhile p).head? := by
  have h : (t.takeWhile p ++ t.dropWhile p)[(t.takeWhile p).length]? = (t.dropWhile p).head? := by
    rw [List.getElem?_append_right le_rfl, Nat.sub_self, List.head?_eq_getElem?]
  rwa [List.takeWhile_append_dropWhile] at h

/-- The round of the search that begins at an occurrence: a colon behind it makes it a name. -/
theorem search_at_occurrence (name rest pre : List UInt8) {stop : ℕ}
    (hstop : pre.length + (needleOf name).length ≤ stop) :
    search (pre ++ (needleOf name ++ rest)) (needleOf name) stop pre.length =
      if (rest.dropWhile isSpace).head? = some (byte ':') then
        some (pre.length + (needleOf name).length + (rest.takeWhile isSpace).length + 1)
      else
        search (pre ++ (needleOf name ++ rest)) (needleOf name) stop
          (pre.length + (needleOf name).length) := by
  have hpast : (pre ++ (needleOf name ++ rest)).drop (pre.length + (needleOf name).length) =
      rest := by
    rw [← List.append_assoc, ← List.length_append, List.drop_left]
  have hcolon : (pre ++ (needleOf name ++ rest))[pre.length + (needleOf name).length +
      (rest.takeWhile isSpace).length]? = (rest.dropWhile isSpace).head? := by
    rw [← List.getElem?_drop, hpast, getElem?_length_takeWhile]
  have hfirst : strstr (needleOf name) (needleOf name ++ rest) = some 0 :=
    strstr_of_prefix (List.prefix_append _ _) (needleOf_ne_nil name)
  have hlt : pre.length + 0 < stop := by
    rw [length_needleOf] at hstop
    omega
  rw [search_eq (needleOf_ne_nil name), List.drop_left, hfirst]
  dsimp only
  rw [if_pos hlt, Nat.add_zero, hpast, hcolon]

/-- A string token that is not followed by a colon is skipped, whatever it is. -/
theorem Skips.quoted {name : List UInt8} (hname : NameLike name) {s : JsonString}
    {rest : List UInt8} (hrest : ∀ c ∈ rest.head?, c ∉ name)
    (hcolon : (rest.dropWhile isSpace).head? ≠ some (byte ':')) : Skips name s.quoted rest := by
  by_cases h : ∃ i ≤ s.text.length, s.quoted.drop i = needleOf name
  · obtain ⟨i, hi, hdrop⟩ := h
    have hle : i ≤ s.quoted.length := by
      rw [length_quoted]
      omega
    have hsplit : s.quoted.take i ++ needleOf name = s.quoted := by
      rw [← hdrop, List.take_append_drop]
    have hbefore : Skips name (s.quoted.take i) (needleOf name ++ rest) := by
      apply Skips.of_no_occurrence
      intro k hk hocc
      rw [List.length_take_of_le hle] at hk
      rw [← List.append_assoc, hsplit] at hocc
      -- two occurrences that end with the token are the same
      have hother := drop_quoted_of_occurrence hname (by omega) hocc
      have hlen := congrArg List.length (hother.trans hdrop.symm)
      rw [List.length_drop, List.length_drop] at hlen
      omega
    have hat : Skips name (needleOf name) rest := by
      intro pre stop hstop
      rw [search_at_occurrence name rest pre hstop, if_neg hcolon]
    have hboth := hbefore.append hat
    rwa [hsplit] at hboth
  · exact Skips.quoted_of_ne hname hrest fun i hi heq => h ⟨i, hi, heq⟩

/-! ### The members of an object -/

/-- What comes behind a member: a comma or the closing brace. -/
def EndsMember (tail : List UInt8) : Prop :=
  ∃ c r, tail = c :: r ∧ (c = byte ',' ∨ c = byte '\x7d')

theorem head?_ws_append {ws : Ws} {tail : List UInt8} {c : UInt8}
    (h : (ws.text ++ tail).head? = some c) :
    isWs c = true ∨ tail.head? = some c := by
  rw [List.head?_append] at h
  cases hws : ws.text.head? with
  | none =>
    rw [hws, Option.none_or] at h
    exact .inr h
  | some d =>
    rw [hws, Option.some_or] at h
    obtain rfl := Option.some.inj h
    exact .inl (ws.isWs_of_mem d (List.mem_of_mem_head? hws))

theorem dropWhile_ws_append (ws : Ws) {c : UInt8} (hc : isSpace c = false) (r : List UInt8) :
    (ws.text ++ c :: r).dropWhile isSpace = c :: r := by
  rw [List.dropWhile_append_of_pos fun d hd => isSpace_of_isWs (ws.isWs_of_mem d hd),
    List.dropWhile_cons_of_neg (by rw [hc]; exact Bool.false_ne_true)]

theorem takeWhile_ws_append (ws : Ws) {c : UInt8} (hc : isSpace c = false) (r : List UInt8) :
    (ws.text ++ c :: r).takeWhile isSpace = ws.text := by
  rw [List.takeWhile_append_of_pos fun d hd => isSpace_of_isWs (ws.isWs_of_mem d hd),
    List.takeWhile_cons_of_neg (by rw [hc]; exact Bool.false_ne_true), List.append_nil]

theorem quote_notMem_of_bare {t : List UInt8} (h : Bare t) : ∀ c ∈ t, c ≠ byte '"' :=
  fun c hc => (h c hc).1

/-- A value is skipped, even if it is the name. -/
theorem Skips.scalar {name : List UInt8} (hname : NameLike name) (v : Scalar) (ws : Ws)
    {tail : List UInt8} (htail : EndsMember tail) : Skips name v.text (ws.text ++ tail) := by
  obtain ⟨c, r, rfl, hc⟩ := htail
  have hspace : isSpace c = false := by
    rcases hc with rfl | rfl <;> rfl
  cases v with
  | string s =>
    apply Skips.quoted hname
    · intro d hd hmem
      obtain ⟨hws, hcomma, hcolon, hclose⟩ := hname.outer d hmem
      rcases head?_ws_append hd with hd | hd
      · rw [hws] at hd
        cases hd
      · obtain rfl := Option.some.inj hd
        exact hc.elim hcomma hclose
    · rw [dropWhile_ws_append ws hspace, List.head?_cons]
      rcases hc with rfl | rfl <;> decide
  | null => exact Skips.of_bare (quote_notMem_of_bare (bare_scalar nofun))
  | bool b => exact Skips.of_bare (quote_notMem_of_bare (bare_scalar nofun))
  | number n => exact Skips.of_bare (quote_notMem_of_bare (bare_scalar nofun))

/-- A name is skipped that does not end with the one in question. -/
theorem Skips.key {name : List UInt8} (hname : NameLike name) {m : FlatMember} {rest : List UInt8}
    (hkey : m.key.value ≠ name) (hsuffix : ¬ (byte '"' :: name) <:+ m.key.text) :
    Skips name m.key.quoted (m.afterKey.text ++ byte ':' :: rest) := by
  apply Skips.quoted_of_ne hname
  · intro d hd hmem
    obtain ⟨hws, -, hcolon, -⟩ := hname.outer d hmem
    rcases head?_ws_append hd with hd | hd
    · rw [hws] at hd
      cases hd
    · exact hcolon (Option.some.inj hd).symm
  · intro i hi hdrop
    cases i with
    | zero =>
      have htext : m.key.text = name := by
        rw [List.drop_zero, JsonString.quoted, needleOf, List.cons_append] at hdrop
        exact List.append_cancel_right (List.cons.inj hdrop).2
      apply hkey
      rw [JsonString.value_eq_text fun hmem => (hname.inner _ (htext ▸ hmem)).2 rfl, htext]
    | succ i =>
      rw [JsonString.quoted, List.drop_succ_cons, List.drop_append_of_le_length (by omega),
        needleOf] at hdrop
      exact hsuffix (List.append_cancel_right hdrop ▸ List.drop_suffix i _)

theorem valueText_append (m : FlatMember) (tail : List UInt8) :
    m.valueText ++ tail = m.beforeValue.text ++ (m.value.text ++ (m.afterValue.text ++ tail)) := by
  rw [FlatMember.valueText, List.append_assoc, List.append_assoc]

theorem Skips.member {name : List UInt8} (hname : NameLike name) {m : FlatMember}
    {tail : List UInt8} (htail : EndsMember tail) (hkey : m.key.value ≠ name)
    (hsuffix : ¬ (byte '"' :: name) <:+ m.key.text) : Skips name m.text tail := by
  have hws : ∀ (ws : Ws) (rest : List UInt8), Skips name ws.text rest := fun ws _ =>
    Skips.of_bare (quote_notMem_of_bare (bare_ws ws))
  have hcolon : ∀ rest, Skips name [byte ':'] rest := fun _ =>
    Skips.of_bare (quote_notMem_of_bare (bare_singleton (by decide)))
  have hvalue : Skips name m.valueText tail := by
    apply (hws _ _).append
    apply Skips.append _ (hws _ _)
    exact Skips.scalar hname m.value m.afterValue htail
  have hrest : Skips name (m.key.quoted ++ (m.afterKey.text ++ byte ':' :: m.valueText)) tail := by
    apply Skips.append _ ((hws _ _).append ((hcolon _).append hvalue))
    rw [List.append_assoc]
    exact Skips.key hname hkey hsuffix
  exact (hws _ _).append hrest

/-- The text from an offset on begins with a value and what ends its member. -/
def FoundAt (text : List UInt8) (stop : ℕ) (v : Scalar) (p : ℕ) : Prop :=
  ∃ (ws ws' : Ws) (tail : List UInt8), EndsMember tail ∧
    text.drop p = ws.text ++ (v.text ++ (ws'.text ++ tail)) ∧
      p + (ws.text.length + (v.text.length + ws'.text.length)) ≤ stop

theorem isSpace_colon : isSpace (byte ':') = false := rfl

/-- The member of a name is found, and the search ends behind its colon. -/
theorem search_member {name tail pre : List UInt8} {stop : ℕ} {m : FlatMember}
    (htail : EndsMember tail) (hkey : m.key.text = name)
    (hstop : pre.length + m.text.length ≤ stop) :
    ∃ p, search (pre ++ (m.text ++ tail)) (needleOf name) stop pre.length = some p ∧
      FoundAt (pre ++ (m.text ++ tail)) stop m.value p := by
  have hquoted : m.key.quoted = needleOf name := by
    rw [JsonString.quoted, needleOf, hkey, List.cons_append]
  have htext : pre ++ (m.text ++ tail) = (pre ++ m.beforeKey.text) ++
      (needleOf name ++ (m.afterKey.text ++ byte ':' :: (m.valueText ++ tail))) := by
    rw [FlatMember.text, hquoted]
    simp only [List.append_assoc, List.cons_append]
  have hlen : m.text.length = m.beforeKey.text.length + ((needleOf name).length +
      (m.afterKey.text.length + (m.valueText.length + 1))) := by
    rw [FlatMember.text, hquoted]
    simp only [List.length_append, List.length_cons]
  have hskip : search (pre ++ (m.text ++ tail)) (needleOf name) stop pre.length =
      search (pre ++ (m.text ++ tail)) (needleOf name) stop
        (pre.length + m.beforeKey.text.length) := by
    have h : Skips name m.beforeKey.text
        (needleOf name ++ (m.afterKey.text ++ byte ':' :: (m.valueText ++ tail))) :=
      Skips.of_bare (quote_notMem_of_bare (bare_ws _))
    have hsearch := h pre stop (by omega)
    rwa [← List.append_assoc, ← htext] at hsearch
  have hfits : (pre ++ m.beforeKey.text).length + (needleOf name).length ≤ stop := by
    rw [List.length_append]
    omega
  have hat := search_at_occurrence name (m.afterKey.text ++ byte ':' :: (m.valueText ++ tail))
    (pre ++ m.beforeKey.text) hfits
  rw [dropWhile_ws_append _ isSpace_colon, takeWhile_ws_append _ isSpace_colon, List.head?_cons,
    if_pos rfl, ← htext, List.length_append] at hat
  refine ⟨_, hskip.trans hat, m.beforeValue, m.afterValue, tail, htail, ?_, ?_⟩
  · have hpre : pre.length + m.beforeKey.text.length + (needleOf name).length +
        m.afterKey.text.length + 1 =
        (((pre ++ m.beforeKey.text) ++ needleOf name) ++ (m.afterKey.text ++ [byte ':'])).length :=
          by
      simp only [List.length_append, List.length_singleton]
      omega
    have hsplit : pre ++ (m.text ++ tail) =
        (((pre ++ m.beforeKey.text) ++ needleOf name) ++ (m.afterKey.text ++ [byte ':'])) ++
          (m.valueText ++ tail) := by
      rw [htext]
      simp only [List.append_assoc, List.singleton_append]
    rw [hpre, hsplit, List.drop_left, valueText_append]
  · have hvalue : m.valueText.length =
        m.beforeValue.text.length + (m.value.text.length + m.afterValue.text.length) := by
      rw [FlatMember.valueText, List.length_append, List.length_append]
    omega

def FindsValue (text name : List UInt8) (stop off : ℕ) : Option Scalar → Prop
  | none => search text (needleOf name) stop off = none
  | some v => ∃ p, search text (needleOf name) stop off = some p ∧ FoundAt text stop v p

theorem FindsValue.of_search_eq {text name : List UInt8} {stop off off' : ℕ} {v : Option Scalar}
    (h : search text (needleOf name) stop off = search text (needleOf name) stop off')
    (hv : FindsValue text name stop off' v) : FindsValue text name stop off v := by
  cases v with
  | none => exact h.trans hv
  | some v =>
    obtain ⟨p, hp, hfound⟩ := hv
    exact ⟨p, h.trans hp, hfound⟩

/-- Nothing is found from the end of the object on. -/
theorem search_stop (text name : List UInt8) (stop : ℕ) :
    search text (needleOf name) stop stop = none := by
  rw [search_eq (needleOf_ne_nil name)]
  cases strstr (needleOf name) (text.drop stop) with
  | none => rfl
  | some k => exact if_neg (by omega)

/-- What is found by the rest of the members. -/
theorem FindsValue.skip {name t rest pre : List UInt8} {stop : ℕ} {v : Option Scalar}
    (h : Skips name t rest) (hstop : pre.length + t.length ≤ stop)
    (hv : FindsValue ((pre ++ t) ++ rest) name stop (pre ++ t).length v) :
    FindsValue (pre ++ (t ++ rest)) name stop pre.length v := by
  apply FindsValue.of_search_eq (h pre stop hstop)
  rwa [List.append_assoc, List.length_append] at hv

theorem find?_name_pos {name : List UInt8} {m : FlatMember} {ms : List FlatMember}
    (h : m.key.value = name) : (m :: ms).find? (fun m => m.key.value = name) = some m :=
  List.find?_cons_of_pos (by simpa using h)

theorem find?_name_neg {name : List UInt8} {m : FlatMember} {ms : List FlatMember}
    (h : ¬ m.key.value = name) :
    (m :: ms).find? (fun m => m.key.value = name) = ms.find? fun m => m.key.value = name :=
  List.find?_cons_of_neg (by simpa using h)

/-- The members of an object are searched one after the other. -/
theorem search_members {name : List UInt8} (hname : NameLike name) (rest : List UInt8) :
    ∀ {ms : List FlatMember} (pre : List UInt8), FindsOwn name ms →
      FindsValue (pre ++ (commaText (ms.map FlatMember.text) ++ byte '\x7d' :: rest)) name
        (pre.length + (commaText (ms.map FlatMember.text)).length) pre.length
        ((ms.find? fun m => m.key.value = name).map FlatMember.value)
  | [], pre, _ => search_stop _ _ _
  | [m], pre, h => by
    have htail : EndsMember (byte '\x7d' :: rest) := ⟨_, _, rfl, .inr rfl⟩
    rw [FindsOwn] at h
    by_cases hkey : m.key.value = name
    · rw [if_pos hkey] at h
      rw [find?_name_pos hkey]
      exact search_member htail h le_rfl
    · rw [if_neg hkey] at h
      rw [find?_name_neg hkey]
      apply FindsValue.skip (Skips.member hname htail hkey h.1) le_rfl
      rw [← List.length_append]
      exact search_stop _ _ _
  | m :: m' :: ms, pre, h => by
    have htail : EndsMember (byte ',' :: (commaText ((m' :: ms).map FlatMember.text) ++
        byte '\x7d' :: rest)) := ⟨_, _, rfl, .inl rfl⟩
    have hbody : commaText ((m :: m' :: ms).map FlatMember.text) =
        m.text ++ byte ',' :: commaText ((m' :: ms).map FlatMember.text) := rfl
    rw [FindsOwn] at h
    rw [hbody, List.append_assoc, List.cons_append, List.length_append, List.length_cons]
    by_cases hkey : m.key.value = name
    · rw [if_pos hkey] at h
      rw [find?_name_pos hkey]
      exact search_member htail h (by omega)
    · rw [if_neg hkey] at h
      rw [find?_name_neg hkey]
      apply FindsValue.skip (Skips.member hname htail hkey h.1) (by omega)
      have hcomma : Skips name [byte ','] (commaText ((m' :: ms).map FlatMember.text) ++
          byte '\x7d' :: rest) :=
        Skips.of_bare (quote_notMem_of_bare (bare_singleton (by decide)))
      apply FindsValue.skip hcomma (by rw [List.length_append, List.length_singleton]; omega)
      have hnext := search_members hname rest ((pre ++ m.text) ++ [byte ',']) h.2
      have hlen : pre.length + (m.text.length +
          ((commaText ((m' :: ms).map FlatMember.text)).length + 1)) =
          ((pre ++ m.text) ++ [byte ',']).length +
            (commaText ((m' :: ms).map FlatMember.text)).length := by
        simp only [List.length_append, List.length_singleton]
        omega
      rw [hlen]
      exact hnext

/-- The members of an object are found by their names. -/
theorem findJsonKey_lookup {name : List UInt8} (hname : NameLike name) {o : FlatObject}
    (h : FindsOwn name o.members) (rest : List UInt8) :
    FindsValue (o.text ++ rest) name ((objectBody o).length + 1) 0 (o.lookup name) := by
  have hopen : Skips name [byte '\x7b'] (objectBody o ++ byte '\x7d' :: rest) := by
    apply Skips.of_bare
    intro c hc
    obtain rfl := List.mem_singleton.mp hc
    decide
  have htext : o.text ++ rest = [] ++ ([byte '\x7b'] ++ (objectBody o ++ byte '\x7d' :: rest)) :=
    text_append_eq o rest
  rw [htext]
  have hone : ([] : List UInt8).length + [byte '\x7b'].length ≤ (objectBody o).length + 1 := by
    rw [List.length_nil, List.length_singleton]
    omega
  apply FindsValue.skip hopen hone
  rw [FlatObject.lookup]
  by_cases hnil : o.members = []
  · have hbody : objectBody o = o.inner.text := if_pos hnil
    rw [hnil, hbody]
    have hws : Skips name o.inner.text (byte '\x7d' :: rest) :=
      Skips.of_bare (quote_notMem_of_bare (bare_ws _))
    apply FindsValue.skip hws (by rw [List.nil_append, List.length_singleton]; omega)
    have hstop : o.inner.text.length + 1 = (([] ++ [byte '\x7b']) ++ o.inner.text).length := by
      rw [List.nil_append, List.length_append, List.length_singleton, Nat.add_comm]
    rw [hstop]
    exact search_stop _ _ _
  · have hbody : objectBody o = commaText (o.members.map FlatMember.text) := if_neg hnil
    have hmembers := search_members hname rest ([] ++ [byte '\x7b']) h
    rw [hbody, Nat.add_comm]
    exact hmembers

/-! ### The values of the members -/

variable {text name : List UInt8} {stop p : ℕ} {v : Scalar}

/-- The first byte of a value is not white space. -/
theorem scalar_head (v : Scalar) : ∃ c t, v.text = c :: t ∧ isSpace c = false := by
  cases v with
  | null => exact ⟨byte 'n', ascii "ull", rfl, rfl⟩
  | bool b =>
    cases b
    · exact ⟨byte 'f', ascii "alse", rfl, rfl⟩
    · exact ⟨byte 't', ascii "rue", rfl, rfl⟩
  | number n =>
    obtain ⟨c, ds, hcons, hspace⟩ := intText_head n
    exact ⟨c, ds ++ n.tailText, by rw [Scalar.text, JsonNumber.text, hcons, List.cons_append],
      hspace⟩
  | string s => exact ⟨byte '"', s.text ++ [byte '"'], rfl, rfl⟩

/-- The text from an offset on begins with a value, without white space. -/
def ValueAt (text : List UInt8) (stop : ℕ) (v : Scalar) (p : ℕ) : Prop :=
  ∃ (ws : Ws) (tail : List UInt8), EndsMember tail ∧
    text.drop p = v.text ++ (ws.text ++ tail) ∧ p + v.text.length ≤ stop

theorem findJsonValue_of_foundAt (hsearch : findJsonKey text stop name = some p)
    (h : FoundAt text stop v p) :
        ∃ q, findJsonValue text stop name = some q ∧ ValueAt text stop v q := by
  obtain ⟨ws, ws', tail, htail, htext, hstop⟩ := h
  obtain ⟨c, t, hcons, hspace⟩ := scalar_head v
  have hws : (text.drop p).takeWhile isSpace = ws.text := by
    rw [htext, hcons, List.cons_append, takeWhile_ws_append ws hspace]
  refine ⟨p + ws.text.length, ?_, ws', tail, htail, ?_, by omega⟩
  · rw [findJsonValue, hsearch, Option.map_some, hws]
  · rw [← List.drop_drop, htext, List.drop_left]

theorem getElem?_of_drop {t : List UInt8} (h : text.drop p = t) (k : ℕ) :
    text[p + k]? = t[k]? := by
  rw [← h, List.getElem?_drop]

/-- The text between the quotes is what the loop over a string stops behind. -/
theorem takeWhile_string {s : JsonString} (h : byte '\\' ∉ s.text) (rest : List UInt8) :
    (s.text ++ byte '"' :: rest).takeWhile (fun c => c != byte '"' && c != byte '\\') = s.text := by
  have hquote : ∀ c ∈ s.text, (c != byte '"' && c != byte '\\') = true := by
    intro c hc
    rw [Bool.and_eq_true, bne_iff_ne, bne_iff_ne]
    constructor
    · rintro rfl
      obtain ⟨i, hi, heq⟩ := List.mem_iff_getElem.mp hc
      have hsome : s.text[i]? = some (byte '"') := by rw [List.getElem?_eq_getElem hi, heq]
      obtain ⟨j, -, hback⟩ := backslash_before_quote s hsome
      exact h (List.mem_of_getElem? hback)
    · rintro rfl
      exact h hc
  rw [List.takeWhile_append_of_pos hquote, List.takeWhile_cons_of_neg (by decide), List.append_nil]

/-- No other value begins with a quote. -/
theorem getElem?_ne_quote (h : ValueAt text stop v p) (hv : ∀ s, v ≠ .string s) :
    text[p]? ≠ some (byte '"') := by
  obtain ⟨ws, tail, -, htext, -⟩ := h
  obtain ⟨c, t, hcons, -⟩ := scalar_head v
  have hc := (bare_scalar hv c (hcons ▸ List.mem_cons_self ..)).1
  have hfirst : text[p]? = (v.text ++ (ws.text ++ tail))[0]? := getElem?_of_drop htext 0
  rw [hfirst, hcons, List.cons_append, List.getElem?_cons_zero]
  exact fun heq => hc (Option.some.inj heq)

theorem parseJsonString_of_ne_string {outLen : ℕ}
    (hvalue : findJsonValue text stop name = some p) (h : ValueAt text stop v p)
    (hv : ∀ s, v ≠ .string s) : parseJsonString text stop name outLen = none := by
  rw [parseJsonString, hvalue, Option.bind_eq_bind, Option.bind_some,
    if_neg (getElem?_ne_quote h hv)]

/-- A string without escapes is read, if it fits; no other value is taken for a string. -/
theorem parseJsonString_of_valueAt {outLen : ℕ} (hvalue : findJsonValue text stop name = some p)
    (h : ValueAt text stop v p) (hshows : ShowsString v) :
    parseJsonString text stop name outLen = scalarString outLen v := by
  cases v with
  | string s =>
    obtain ⟨ws, tail, -, htext, hstop⟩ := h
    have hfirst : text[p]? = (s.quoted ++ (ws.text ++ tail))[0]? := getElem?_of_drop htext 0
    have hquoted : s.quoted ++ (ws.text ++ tail) =
        byte '"' :: (s.text ++ byte '"' :: (ws.text ++ tail)) := by
      rw [JsonString.quoted, List.cons_append, List.append_assoc, List.singleton_append]
    rw [Scalar.text] at htext hstop
    rw [length_quoted] at hstop
    have hquote : text[p]? = some (byte '"') := by
      rw [hfirst, hquoted]
      rfl
    have hnext : text.drop (p + 1) = s.text ++ byte '"' :: (ws.text ++ tail) := by
      rw [← List.drop_drop, htext, hquoted, List.drop_one, List.tail_cons]
    have hstr : ((text.take stop).drop (p + 1)).takeWhile
        (fun c => c != byte '"' && c != byte '\\') = s.text := by
      obtain ⟨k, hk⟩ : ∃ k, stop - (p + 1) = s.text.length + (k + 1) :=
        ⟨stop - (p + 1) - s.text.length - 1, by omega⟩
      rw [List.drop_take, hnext, hk, List.take_append, Nat.add_sub_cancel_left, List.take_succ_cons,
        List.take_of_length_le (Nat.le_add_right _ _)]
      exact takeWhile_string (hshows s rfl) _
    have hend : text[p + 1 + s.text.length]? = some (byte '"') := by
      rw [getElem?_of_drop hnext, List.getElem?_append_right le_rfl, Nat.sub_self]
      rfl
    have hlt : p + 1 + s.text.length < stop := by omega
    rw [parseJsonString, hvalue, Option.bind_eq_bind, Option.bind_some, if_pos hquote, hstr,
      scalarString, JsonString.value_eq_text (hshows s rfl)]
    simp only [hend, hlt, true_and]
  | null =>
    apply parseJsonString_of_ne_string hvalue h
    intro s hs
    cases hs
  | bool b =>
    apply parseJsonString_of_ne_string hvalue h
    intro s hs
    cases hs
  | number n =>
    apply parseJsonString_of_ne_string hvalue h
    intro s hs
    cases hs

theorem isDigitOf_ten_of_endsMember {c : UInt8}
    (h : isWs c = true ∨ c = byte ',' ∨ c = byte '\x7d') : EndsNumeral c := by
  rcases h with h | rfl | rfl
  · simp only [isWs, Bool.or_eq_true, beq_iff_eq] at h
    rcases h with ((rfl | rfl) | rfl) | rfl <;> exact ⟨rfl, by decide, by decide⟩
  · exact ⟨rfl, by decide, by decide⟩
  · exact ⟨rfl, by decide, by decide⟩

/-- What comes behind the integer part of a number does not continue it. -/
theorem endsNumeral_tail (n : JsonNumber) {ws : Ws} {tail : List UInt8} (htail : EndsMember tail) :
    ∀ c, (n.tailText ++ (ws.text ++ tail)).head? = some c → EndsNumeral c := by
  obtain ⟨d, r, rfl, hd⟩ := htail
  have hfollow : ∀ c, (ws.text ++ d :: r).head? = some c → EndsNumeral c := by
    intro c hc
    apply isDigitOf_ten_of_endsMember
    rcases head?_ws_append hc with hws | hhead
    · exact .inl hws
    · obtain rfl := Option.some.inj hhead
      exact .inr hd
  intro c hc
  rw [JsonNumber.tailText] at hc
  cases hfrac : n.frac with
  | some digits =>
    rw [hfrac] at hc
    obtain rfl := Option.some.inj hc
    exact ⟨rfl, by decide, by decide⟩
  | none =>
    cases hexp : n.exp with
    | some e =>
      rw [hfrac, hexp] at hc
      obtain rfl : (if e.upper then byte 'E' else byte 'e') = c := Option.some.inj hc
      cases e.upper <;> exact ⟨rfl, by decide, by decide⟩
    | none =>
      rw [hfrac, hexp] at hc
      exact hfollow c hc

/-- No numeral begins with a byte that is no sign, no digit and no white space. -/
theorem readNumeral_of_head {c : UInt8} {t : List UInt8} (hspace : isSpace c = false)
    (hminus : c ≠ 45) (hplus : c ≠ 43) (hdigit : isDigitOf 10 c = false) :
    readNumeral (c :: t) = none := by
  have hzero : c ≠ 48 := by
    rintro rfl
    exact absurd hdigit (by decide)
  have hskip : skipWs (c :: t) = c :: t :=
    List.dropWhile_cons_of_neg (by rw [hspace]; exact Bool.false_ne_true)
  have hsign : readSign (c :: t) = (false, 0, c :: t) := by
    rw [readSign, if_neg hminus, if_neg hplus]
  have hbase : readBase (c :: t) = (10, 0, c :: t) := by
    rcases t with _ | ⟨x, _ | ⟨d, s⟩⟩
    · exact if_neg hzero
    · exact if_neg hzero
    · exact if_neg hzero
  have hnone : (c :: t).takeWhile (isDigitOf 10) = [] :=
    List.takeWhile_cons_of_neg (by rw [hdigit]; exact Bool.false_ne_true)
  rw [readNumeral, hskip, hsign]
  dsimp only
  rw [hbase]
  exact if_pos hnone

/-- The check of a converted number leaves the integer part of it, if it has 32 bits. -/
theorem strtol_number (n : JsonNumber) {rest : List UInt8} {stop p : ℕ}
    (hread : readNumeral rest = some ⟨n.negative, ofDigits 10 n.int.text, n.intText.length⟩)
    (hstop : p + n.intText.length ≤ stop) :
    (let v := strtol rest
      if v.range = false ∧ v.consumed ≠ 0 ∧ p + v.consumed ≤ stop ∧ -2 ^ 31 ≤ v.value ∧
        v.value ≤ 2 ^ 31 - 1 then some v.value else none) =
      (some n.intPart).filter fun v => -2 ^ 31 ≤ v ∧ v ≤ 2 ^ 31 - 1 := by
  obtain ⟨c, t, hcons, -⟩ := intText_head n
  have hne : n.intText.length ≠ 0 := by
    rw [hcons]
    exact Nat.succ_ne_zero _
  rw [Option.filter_some, JsonNumber.intPart, strtol, hread]
  dsimp only
  -- numbers out of the range of the conversion are out of the range of 32 bits as well
  split_ifs <;> simp_all <;> omega

/-- An integer is read from a number, and from no other value. -/
theorem parseJsonInt_of_valueAt (hvalue : findJsonValue text stop name = some p)
    (h : ValueAt text stop v p) (hshows : ShowsInt v) :
    parseJsonInt text stop name = scalarInt v := by
  obtain ⟨ws, tail, htail, htext, hstop⟩ := h
  have hnone : ∀ c t, v.text = c :: t → isSpace c = false → c ≠ 45 → c ≠ 43 →
      isDigitOf 10 c = false → parseJsonInt text stop name = none := by
    intro c t hcons hspace hminus hplus hdigit
    have hread : readNumeral (text.drop p) = none := by
      rw [htext, hcons, List.cons_append]
      exact readNumeral_of_head hspace hminus hplus hdigit
    rw [parseJsonInt, hvalue, Option.bind_eq_bind, Option.bind_some, strtol, hread]
    exact if_neg fun h => h.2.1 rfl
  cases v with
  | number n =>
    have hread := readNumeral_number n (@endsNumeral_tail n ws tail htail)
    rw [← List.append_assoc, ← JsonNumber.text] at hread
    have hlen : n.text.length = n.intText.length + n.tailText.length := List.length_append
    rw [Scalar.text] at htext hstop
    rw [parseJsonInt, hvalue, Option.bind_eq_bind, Option.bind_some, htext, scalarInt,
      JsonNumber.int?_of_value n (hshows n rfl)]
    exact strtol_number n hread (by omega)
  | null => exact hnone (byte 'n') (ascii "ull") rfl rfl (by decide) (by decide) rfl
  | bool b =>
    cases b
    · exact hnone (byte 'f') (ascii "alse") rfl rfl (by decide) (by decide) rfl
    · exact hnone (byte 't') (ascii "rue") rfl rfl (by decide) (by decide) rfl
  | string s => exact hnone (byte '"') (s.text ++ [byte '"']) rfl rfl (by decide) (by decide) rfl

theorem parseJsonStringOrInt_of_valueAt {outLen : ℕ}
    (hvalue : findJsonValue text stop name = some p) (h : ValueAt text stop v p)
    (hshows : ShowsString v ∧ ShowsInt v) :
    parseJsonStringOrInt text stop name outLen = scalarStringOrInt outLen v := by
  have hstring : parseJsonString text stop name outLen = scalarString outLen v :=
    parseJsonString_of_valueAt hvalue h hshows.1
  have hint := parseJsonInt_of_valueAt hvalue h hshows.2
  rw [parseJsonStringOrInt, hstring, hint]
  cases hread : scalarString outLen v with
  | some str => simp only [scalarStringOrInt, hread]
  | none => simp only [scalarStringOrInt, hread]

/-- Without a member of the name nothing is read. -/
theorem findJsonValue_of_none (h : findJsonKey text stop name = none) :
    findJsonValue text stop name = none := by
  rw [findJsonValue, h, Option.map_none]

theorem read_lookup {α : Type} {read : List UInt8 → Option α} {parse : Scalar → Option α}
    {shows : Scalar → Prop} (hname : NameLike name) {o : FlatObject} {rest : List UInt8}
    (hfound : ∀ v p, findJsonValue (o.text ++ rest) ((objectBody o).length + 1) name = some p →
      ValueAt (o.text ++ rest) ((objectBody o).length + 1) v p → shows v → read name = parse v)
    (hnone : findJsonValue (o.text ++ rest) ((objectBody o).length + 1) name = none →
      read name = none)
    (hown : FindsOwn name o.members) (hshows : ∀ v, o.lookup name = some v → shows v) :
    read name = (o.lookup name).bind parse := by
  have hfinds := findJsonKey_lookup hname hown rest
  cases hlookup : o.lookup name with
  | none =>
    rw [hlookup] at hfinds
    rw [Option.bind_none]
    exact hnone (findJsonValue_of_none hfinds)
  | some v =>
    rw [hlookup] at hfinds
    obtain ⟨p, hp, hat⟩ := hfinds
    obtain ⟨q, hq, hvalue⟩ := findJsonValue_of_foundAt hp hat
    rw [Option.bind_some]
    exact hfound v q hq hvalue (hshows v hlookup)

end LlmHric.XApp
