import NamingLint.Proofs.Json.Written

/-!
# NamingLint — strings, numbers and skipped values

Whatever value is written, skipping it consumes exactly that value: numbers of any size, strings with
any code units, brackets nested to any depth. Reading a string consumes exactly the string too, and
succeeds if the string stands for some characters.

Main results:

* `readString_inner_iff` — a string is read as what it stands for.
* `Numeral.read_unsigned` — the digits of a number are read to their end.
* `skipValue_text` — any value is passed over.
-/

namespace NamingLint.Json

/-! ## Escapes -/

/-- Four hexadecimal digits are read as a code unit. -/
theorem readHex_append {digits : Text} {n : Nat} (h : hexNumber? digits = some n) (t : Text) :
    readHex (digits ++ t) = .ok (n, t) := by
  obtain ⟨a, b, c, d, rfl⟩ : ∃ a b c d, digits = [a, b, c, d] := by
    rw [hexNumber?.eq_def] at h
    split at h
    · exact ⟨_, _, _, _, rfl⟩
    · cases h
  -- four characters are at least four bytes
  have hsize : ¬ Text.size ([a, b, c, d] ++ t) < 4 := by
    have ha := a.utf8Size_pos
    have hb := b.utf8Size_pos
    have hc := c.utf8Size_pos
    have hd := d.utf8Size_pos
    simp only [List.cons_append, Text.size_cons]
    omega
  have htake : ([a, b, c, d] ++ t).take 4 = [a, b, c, d] := rfl
  have hdrop : ([a, b, c, d] ++ t).drop 4 = t := rfl
  simp only [readHex, if_neg hsize, htake, hdrop, h]

theorem shortEscape?_u : shortEscape? 'u' = none := by decide

theorem ne_u_of_shortEscape? {letter c : Char} (h : shortEscape? letter = some c) :
    letter ≠ 'u' := by
  rintro rfl
  rw [shortEscape?_u] at h
  cases h

theorem readEscape_short {letter c : Char} (h : shortEscape? letter = some c) (t : Text) :
    readEscape (letter :: t) = .ok (c, t) := by
  rw [readEscape, if_neg (ne_u_of_shortEscape? h), h]

/-- A code unit stands alone, opens a pair, or is refused if it can only close one. -/
theorem readEscape_unit {digits : Text} {n : Nat} (h : hexNumber? digits = some n) (t : Text) :
    readEscape ('u' :: (digits ++ t)) =
      if isTrailing n then .error (.before .loneSurrogate t)
      else if isLeading n then readTrailing n t
      else .ok (Char.ofNat n, t) := by
  rw [readEscape, if_pos rfl, readCodeUnits, readHex_append h]
  rfl

/-- The second code unit of a pair has to be one that closes it. -/
theorem readTrailing_unit {digits : Text} {m : Nat} (h : hexNumber? digits = some m) (n : Nat)
    (t : Text) :
    readTrailing n ('\\' :: 'u' :: (digits ++ t)) =
      if isTrailing m then .ok (pairChar n m, t) else .error (.before .loneSurrogate t) := by
  rw [readTrailing, readHex_append h]
  rfl

/-! ## Strings -/

theorem toOption_map {α β : Type} (x : Except Fault α) (f : α → β) :
    (x.map f).toOption = x.toOption.map f := by
  cases x <;> rfl

/-- A character that needs no escape stands for itself. -/
theorem readCharacters_plain {c : Char} (h : 0x20 ≤ c.toNat ∧ c ≠ '"' ∧ c ≠ '\\') (fuel : Nat)
    (t : Text) :
    readCharacters (fuel + 1) (c :: t) =
      (readCharacters fuel t).map fun p => (c :: p.1, p.2) := by
  rw [readCharacters, if_neg h.2.1, if_neg h.2.2, if_neg (Nat.not_lt.mpr h.1)]
  cases readCharacters fuel t <;> rfl

/-- An escape stands for one character. -/
theorem readCharacters_backslash {t rest : Text} {c : Char} (h : readEscape t = .ok (c, rest))
    (fuel : Nat) :
    readCharacters (fuel + 1) ('\\' :: t) =
      (readCharacters fuel rest).map fun p => (c :: p.1, p.2) := by
  rw [readCharacters, if_neg (by decide), if_pos rfl]
  simp only [h, bind, Except.bind]
  cases readCharacters fuel rest <;> rfl

theorem readCharacters_backslash_error {t : Text} {f : Fault} (h : readEscape t = .error f)
    (fuel : Nat) : readCharacters (fuel + 1) ('\\' :: t) = .error f := by
  rw [readCharacters, if_neg (by decide), if_pos rfl]
  simp only [h, bind, Except.bind]

/-- A leading code unit that no other code unit follows is read as nothing. -/
theorem readTrailing_error {s : WrittenString} (h : ∀ digits m hm qs, s ≠ .unit digits m hm :: qs)
    (n : Nat) (t : Text) : ∃ f, readTrailing n (s.inner ++ '"' :: t) = .error f := by
  cases s with
  | nil => exact ⟨_, rfl⟩
  | cons p ps =>
    -- only an escaped unit can be the second half of a pair
    cases p with
    | plain c hc =>
      have hcons : WrittenString.inner (.plain c hc :: ps) ++ '"' :: t =
          c :: (WrittenString.inner ps ++ '"' :: t) := rfl
      rw [hcons, readTrailing.eq_def]
      split
      · exact ⟨_, rfl⟩
      · exact ⟨_, rfl⟩
      · rename_i heq
        exact absurd (List.cons.inj heq).1 hc.2.2
      · exact ⟨_, rfl⟩
      · exact ⟨_, rfl⟩
    | short letter c hc =>
      have hcons : WrittenString.inner (.short letter c hc :: ps) ++ '"' :: t =
          '\\' :: letter :: (WrittenString.inner ps ++ '"' :: t) := rfl
      rw [hcons, readTrailing.eq_def]
      split
      · exact ⟨_, rfl⟩
      · exact ⟨_, rfl⟩
      · rename_i heq
        exact absurd (List.cons.inj (List.cons.inj heq).2).1 (ne_u_of_shortEscape? hc)
      · exact ⟨_, rfl⟩
      · exact ⟨_, rfl⟩
    | unit digits m hm => exact absurd rfl (h digits m hm ps)

/-- One more character in front, if the rest can be read. -/
theorem toOption_cons {x y : Except Fault (Text × Text)} {c : Char} {u : Option Text} {t : Text}
    (hx : x = y.map fun p => (c :: p.1, p.2)) (hy : y.toOption = u.map (·, t)) :
    x.toOption = (u.map (c :: ·)).map (·, t) := by
  rw [hx, toOption_map, hy, Option.map_map, Option.map_map]
  rfl

/-- The characters of a string are read as what the string stands for, and not at all if it stands
for nothing. The induction follows `decode`, which takes the two code units of a pair at once. -/
theorem toOption_readCharacters (s : WrittenString) {fuel : Nat} (hfuel : s.length < fuel)
    (t : Text) :
    (readCharacters fuel (s.inner ++ '"' :: t)).toOption = s.decode.map (·, t) := by
  -- a code unit and what follows it
  have hunit : ∀ digits n hn ps, WrittenString.inner (.unit digits n hn :: ps) ++ '"' :: t =
      '\\' :: 'u' :: (digits ++ (WrittenString.inner ps ++ '"' :: t)) := by
    intro digits n hn ps
    simp [WrittenString.inner, StringPart.text]
  fun_induction WrittenString.decode s generalizing fuel <;>
    obtain ⟨fuel, rfl⟩ := Nat.exists_eq_add_one_of_ne_zero (Nat.ne_zero_of_lt hfuel)
  case case1 => rfl
  case case2 c hc ps ih =>
    exact toOption_cons (readCharacters_plain hc _ _) (ih (Nat.lt_of_succ_lt_succ hfuel))
  case case3 letter c hc ps ih =>
    exact toOption_cons (readCharacters_backslash (readEscape_short hc _) _)
      (ih (Nat.lt_of_succ_lt_succ hfuel))
  case case4 digits n hn ps htrailing =>
    rw [hunit, readCharacters_backslash_error (by rw [readEscape_unit hn, if_pos htrailing])]
    rfl
  case case5 digits n hn htrailing hleading digits' m hm qs hpair ih =>
    rw [hunit, hunit]
    refine toOption_cons (readCharacters_backslash ?_ _) (ih (by simp at hfuel; omega))
    rw [readEscape_unit hn, if_neg htrailing, if_pos hleading, readTrailing_unit hm, if_pos hpair]
  case case6 digits n hn htrailing hleading digits' m hm qs hpair =>
    rw [hunit, hunit, readCharacters_backslash_error (by
      rw [readEscape_unit hn, if_neg htrailing, if_pos hleading, readTrailing_unit hm,
        if_neg hpair])]
    rfl
  case case7 digits n hn ps htrailing hleading hother =>
    obtain ⟨f, hf⟩ := readTrailing_error hother n t
    rw [hunit, readCharacters_backslash_error (by
      rw [readEscape_unit hn, if_neg htrailing, if_pos hleading, hf])]
    rfl
  case case8 digits n hn ps htrailing hleading ih =>
    rw [hunit]
    refine toOption_cons (readCharacters_backslash ?_ _) (ih (Nat.lt_of_succ_lt_succ hfuel))
    rw [readEscape_unit hn, if_neg htrailing, if_neg hleading]

/-- Each part of a string takes up at least one character, so the length of a text is fuel enough.
-/
theorem WrittenString.length_le_inner (s : WrittenString) : s.length ≤ (inner s).length := by
  induction s with
  | nil => exact Nat.le_refl 0
  | cons p ps ih =>
    have hpos : 0 < p.text.length := by cases p <;> exact Nat.succ_pos _
    have hcons : inner (p :: ps) = p.text ++ inner ps := List.flatMap_cons
    rw [hcons, List.length_append, List.length_cons]
    omega

/-- A string is read exactly if it can be decoded, and then to the decoded text. -/
theorem toOption_readString (s : WrittenString) (t : Text) :
    (readString (s.inner ++ '"' :: t)).toOption = s.decode.map (·, t) := by
  refine toOption_readCharacters s ?_ t
  have h := s.length_le_inner
  rw [List.length_append]
  omega

/-- A string is read as what it stands for, up to its closing quote, and only so. -/
theorem readString_inner_iff {s : WrittenString} {t : Text} {p : Text × Text} :
    readString (s.inner ++ '"' :: t) = .ok p ↔ s.decode = some p.1 ∧ p.2 = t := by
  have hread := toOption_readString s t
  -- the reader fails exactly where nothing is decoded
  cases hs : readString (s.inner ++ '"' :: t) with
  | error f =>
    rw [hs] at hread
    have hnone : s.decode = none := Option.map_eq_none_iff.mp hread.symm
    simp [hnone]
  | ok q =>
    rw [hs] at hread
    obtain ⟨u, hu, rfl⟩ := Option.map_eq_some_iff.mp hread.symm
    obtain ⟨p, rest⟩ := p
    simp [hu, eq_comm]

/-- Any string is passed over, whatever its code units are. -/
theorem skipCharacters_inner (s : WrittenString) {fuel : Nat} (hfuel : s.length < fuel) (t : Text) :
    skipCharacters fuel (s.inner ++ '"' :: t) = .ok t := by
  induction s generalizing fuel with
  | nil =>
    obtain ⟨fuel, rfl⟩ := Nat.exists_eq_add_one_of_ne_zero (Nat.ne_zero_of_lt hfuel)
    rfl
  | cons p ps ih =>
    obtain ⟨fuel, rfl⟩ := Nat.exists_eq_add_one_of_ne_zero (Nat.ne_zero_of_lt hfuel)
    have hrest := ih (Nat.lt_of_succ_lt_succ hfuel)
    have hcons : WrittenString.inner (p :: ps) ++ '"' :: t =
        p.text ++ (WrittenString.inner ps ++ '"' :: t) := by simp [WrittenString.inner]
    rw [hcons]
    -- what follows the piece does not matter, only that it is skipped
    generalize WrittenString.inner ps ++ '"' :: t = u at hrest ⊢
    cases p with
    | plain c hc =>
      show skipCharacters (fuel + 1) (c :: u) = _
      rw [skipCharacters, if_neg hc.2.1, if_neg hc.2.2, if_neg (Nat.not_lt.mpr hc.1), hrest]
    | short letter c hc =>
      show skipCharacters (fuel + 1) ('\\' :: letter :: u) = _
      rw [skipCharacters, if_neg (by decide), if_pos rfl, skipEscape,
        if_neg (ne_u_of_shortEscape? hc), hc]
      exact hrest
    | unit digits n hn =>
      show skipCharacters (fuel + 1) ('\\' :: 'u' :: (digits ++ u)) = _
      rw [skipCharacters, if_neg (by decide), if_pos rfl, skipEscape, if_pos rfl,
        readHex_append hn]
      exact hrest

/-- A string is skipped whether or not it can be decoded. -/
theorem skipString_inner (s : WrittenString) (t : Text) :
    skipString (s.inner ++ '"' :: t) = .ok t := by
  refine skipCharacters_inner s ?_ t
  have h := s.length_le_inner
  rw [List.length_append]
  omega

/-! ## Numbers -/

/-- The text does not start with a digit. -/
def StopsDigits (t : Text) : Prop :=
  ∀ c ∈ t.head?, c.isDigit = false

namespace Digits

/-- Digits are taken up to what ends them. -/
theorem takeWhile_append (ds : Digits) {t : Text} (h : StopsDigits t) :
    (ds.text ++ t).takeWhile Char.isDigit = ds.text := by
  rw [List.takeWhile_append_of_pos ds.isDigit_of_mem]
  cases t with
  | nil => simp
  | cons c t => simp [h c rfl]

theorem dropWhile_append (ds : Digits) {t : Text} (h : StopsDigits t) :
    (ds.text ++ t).dropWhile Char.isDigit = t := by
  rw [List.dropWhile_append_of_pos ds.isDigit_of_mem]
  cases t with
  | nil => rfl
  | cons c t => simp [h c rfl]

end Digits

namespace Numeral

/-- The digits before the point, where a zero stands alone. -/
theorem readWhole_digits (n : WrittenNumber) (atEnd : Cause) {t : Text} (h : StopsDigits t) :
    readWhole atEnd (n.whole.text ++ t) = .ok (n.whole.text, t) := by
  obtain ⟨c, ds, hds⟩ := List.exists_cons_of_ne_nil n.whole.ne_nil
  by_cases hzero : c = '0'
  · -- a zero stands alone
    subst hzero
    rw [n.zero_alone (by rw [hds]; rfl)]
    have hany : t.head?.any Char.isDigit = false := by
      cases ht : t.head? with
      | none => rfl
      | some c => exact h c ht
    simp [readWhole, hany]
  · have hdigit : c.isDigit = true := n.whole.isDigit_of_mem c (by simp [hds])
    have htake := n.whole.takeWhile_append h
    have hdrop := n.whole.dropWhile_append h
    rw [hds, List.cons_append] at htake hdrop
    rw [hds, List.cons_append, readWhole, if_neg hzero, if_pos hdigit, htake, hdrop]

/-- The digits behind the point, if there is one. -/
theorem readFraction_text (fraction : Option Digits) (atEnd : Cause) {t : Text}
    (h : StopsDigits t) (hpoint : t.head? ≠ some '.') :
    ∃ ds, readFraction atEnd (WrittenNumber.fractionText fraction ++ t) = .ok (ds, t) := by
  cases fraction with
  | none =>
    refine ⟨[], ?_⟩
    rw [WrittenNumber.fractionText, List.nil_append, readFraction.eq_def]
    split
    · exact absurd rfl hpoint
    · rfl
  | some ds =>
    -- there is a digit behind the point
    obtain ⟨c, cs, hcs⟩ := List.exists_cons_of_ne_nil ds.ne_nil
    have hdigit : c.isDigit = true := ds.isDigit_of_mem c (by simp [hcs])
    have htake := ds.takeWhile_append h
    have hdrop := ds.dropWhile_append h
    refine ⟨ds.text, ?_⟩
    rw [hcs, List.cons_append] at htake hdrop
    rw [WrittenNumber.fractionText, List.cons_append, hcs, List.cons_append, readFraction,
      if_pos hdigit, htake, hdrop]

/-- The sign of an exponent is passed over, if there is one. -/
theorem readSign_append (e : WrittenExponent) (t : Text) :
    (readSign (e.sign ++ (e.digits.text ++ t))).2 = e.digits.text ++ t := by
  obtain ⟨c, cs, hcs⟩ := List.exists_cons_of_ne_nil e.digits.ne_nil
  have hdigit : c.isDigit = true := e.digits.isDigit_of_mem c (by simp [hcs])
  -- without a sign the first digit must not be taken for one
  rcases e.sign_eq with h | h | h <;> rw [h]
  · rw [List.nil_append, hcs, List.cons_append, readSign.eq_def]
    split
    · rename_i heq
      obtain rfl := (List.cons.inj heq).1
      exact absurd hdigit (by decide)
    · rename_i heq
      obtain rfl := (List.cons.inj heq).1
      exact absurd hdigit (by decide)
    · rfl
  · rfl
  · rfl

/-- The exponent, if there is one, with or without a sign. -/
theorem readExponent_text (exponent : Option WrittenExponent) (atEnd : Cause) {t : Text}
    (h : StopsNumber t) :
    ∃ e, readExponent atEnd (WrittenNumber.exponentText exponent ++ t) = .ok (e, t) := by
  cases exponent with
  | none =>
    refine ⟨none, ?_⟩
    rw [WrittenNumber.exponentText, List.nil_append]
    cases t with
    | nil => rfl
    | cons c t =>
      have hc := h c rfl
      rw [readExponent, if_neg (not_or.mpr hc.2.2)]
  | some e =>
    obtain ⟨c, cs, hcs⟩ := List.exists_cons_of_ne_nil e.digits.ne_nil
    have hdigit : c.isDigit = true := e.digits.isDigit_of_mem c (by simp [hcs])
    have hstops : StopsDigits t := fun c hc => (h c hc).1
    have htake := e.digits.takeWhile_append hstops
    have hdrop := e.digits.dropWhile_append hstops
    have hsign := readSign_append e t
    rw [WrittenNumber.exponentText, List.cons_append, List.append_assoc, readExponent,
      if_pos e.mark_eq]
    -- the sign is read apart from the digits
    generalize readSign (e.sign ++ (e.digits.text ++ t)) = p at hsign ⊢
    obtain ⟨sign, digits⟩ := p
    obtain rfl : digits = e.digits.text ++ t := hsign
    refine ⟨some (sign, e.digits.text), ?_⟩
    rw [hcs, List.cons_append] at htake hdrop ⊢
    dsimp only
    rw [if_pos hdigit, htake, hdrop]

/-- The digits of a number are read to their end. -/
theorem read_unsigned (n : WrittenNumber) (atEnd : Cause) {rest : Text} (h : StopsNumber rest) :
    ∃ m, read atEnd (n.unsigned ++ rest) = .ok (m, rest) := by
  -- an exponent starts like no digit and no fraction
  have hexponent : ∀ c ∈ (WrittenNumber.exponentText n.exponent ++ rest).head?,
      c.isDigit = false ∧ c ≠ '.' := by
    cases n.exponent with
    | none => exact fun c hc => ⟨(h c hc).1, (h c hc).2.1⟩
    | some e =>
      rintro c ⟨⟩
      rcases e.mark_eq with hmark | hmark <;> rw [hmark] <;> decide
  have hfraction : StopsDigits (WrittenNumber.fractionText n.fraction ++
      (WrittenNumber.exponentText n.exponent ++ rest)) := by
    cases n.fraction with
    | none => exact fun c hc => (hexponent c hc).1
    | some ds =>
      rintro c ⟨⟩
      decide
  obtain ⟨ds, hds⟩ := readFraction_text n.fraction atEnd (fun c hc => (hexponent c hc).1)
    (fun hpoint => (hexponent '.' hpoint).2 rfl)
  obtain ⟨e, he⟩ := readExponent_text n.exponent atEnd h
  refine ⟨⟨n.whole.text, ds, e⟩, ?_⟩
  rw [WrittenNumber.unsigned, List.append_assoc, List.append_assoc]
  simp only [read, readWhole_digits n atEnd hfraction, hds, he, bind, Except.bind]
  rfl

end Numeral

/-! ## Values -/

/-- A colon may have blanks before it. -/
theorem readColon_append (b : Blanks) (t : Text) : readColon (b.text ++ ':' :: t) = .ok t := by
  have hcolon : skipBlanks (':' :: t) = ':' :: t := skipBlanks_cons rfl t
  simp only [readColon, Blanks.skipBlanks_append, hcolon]

/-- With enough steps, a value is passed over, and nothing else. -/
def Skipped (v : WrittenValue) : Prop :=
  ∀ (b : Blanks) {fuel : Nat} {rest : Text}, 2 * v.text.length ≤ fuel → StopsNumber rest →
    skipValueWithin fuel (b.text ++ (v.text ++ rest)) = .ok rest

/-- A value is passed over if it is without blanks before it, by one step and more. -/
theorem Skipped.of_text {v : WrittenValue}
    (h : ∀ {fuel : Nat} {rest : Text}, 2 * v.text.length ≤ fuel + 1 → StopsNumber rest →
      skipValueWithin (fuel + 1) (v.text ++ rest) = .ok rest) : Skipped v := by
  intro b fuel rest hfuel hrest
  have hpos := v.length_text_pos
  obtain ⟨fuel, rfl⟩ : ∃ n, fuel = n + 1 := ⟨fuel - 1, by omega⟩
  rw [← h hfuel hrest]
  simp only [skipValueWithin, Blanks.skipBlanks_append]

/-- A number is skipped, with or without a sign. -/
theorem skipped_number (n : WrittenNumber) : Skipped (.number n) := by
  refine .of_text fun {fuel rest} hfuel hrest => ?_
  obtain ⟨m, hm⟩ := Numeral.read_unsigned n .badNumber hrest
  rw [WrittenValue.text_number]
  cases hsign : n.isNegative with
  | true =>
    have hminus : ∀ t, skipBlanks ('-' :: t) = '-' :: t := skipBlanks_cons rfl
    rw [WrittenNumber.text, if_pos hsign, List.cons_append, skipValueWithin, hminus]
    show (Numeral.read .badNumber (n.unsigned ++ rest)).map Prod.snd = _
    rw [hm]
    rfl
  | false =>
    obtain ⟨c, t, htext, hdigit⟩ := n.exists_unsigned_eq
    -- a digit starts none of the words
    have hne : ∀ {d : Char}, d ≠ '-' → d.isDigit = false → c ≠ d :=
      ne_of_startsNumber (.inr hdigit)
    have hminus : c ≠ '-' := by
      rintro rfl
      exact absurd hdigit (by decide)
    rw [htext, List.cons_append] at hm
    rw [WrittenNumber.text, hsign, if_neg (by decide), htext, List.cons_append]
    simp only [skipValueWithin, skipBlanks_cons (Codec.isBlank_of_isDigit hdigit),
      if_neg (hne (d := 'n') (by decide) (by decide)),
      if_neg (hne (d := 't') (by decide) (by decide)),
      if_neg (hne (d := 'f') (by decide) (by decide)), if_neg hminus, hdigit, if_true, hm, Except.map]

theorem skipped_string (s : WrittenString) : Skipped (.string s) := by
  refine .of_text fun {fuel rest} hfuel hrest => ?_
  rw [WrittenValue.text_string, WrittenString.text, List.cons_append, List.append_assoc,
    skipValueWithin, skipBlanks_cons (c := '"') rfl]
  exact skipString_inner s rest

/-- Items that are passed over one by one are passed over as a list. -/
theorem skipItemsWithin_text {p : Padded WrittenValue} {ps : List (Padded WrittenValue)}
    (h : ∀ q ∈ p :: ps, Skipped q.content) {fuel : Nat}
    (hfuel : 2 * (WrittenValue.itemsText (p :: ps)).length + 1 ≤ fuel) (rest : Text) :
    skipItemsWithin fuel (WrittenValue.itemsText (p :: ps) ++ ']' :: rest) = .ok rest := by
  induction ps generalizing p fuel with
  | nil =>
    obtain ⟨fuel, rfl⟩ : ∃ n, fuel = n + 1 := ⟨fuel - 1, by omega⟩
    rw [WrittenValue.itemsText_cons] at hfuel ⊢
    simp only [List.length_append] at hfuel
    have hbound : 2 * p.content.text.length ≤ fuel := by omega
    have hvalue := h p List.mem_cons_self p.before hbound
      (p.after.stopsNumber (WrittenValue.stopsNumber_moreItems [] rest))
    rw [WrittenValue.moreItemsText_nil, List.nil_append] at hvalue
    simp only [List.append_assoc, WrittenValue.moreItemsText_nil, List.nil_append, skipItemsWithin,
      hvalue, bind, Except.bind, Blanks.skipBlanks_append, skipBlanks_cons (c := ']') rfl]
  | cons q ps ih =>
    obtain ⟨fuel, rfl⟩ : ∃ n, fuel = n + 1 := ⟨fuel - 1, by omega⟩
    rw [WrittenValue.itemsText_cons] at hfuel ⊢
    simp only [List.length_append, WrittenValue.moreItemsText_cons, List.length_cons] at hfuel
    have hbound : 2 * p.content.text.length ≤ fuel := by omega
    have hvalue := h p List.mem_cons_self p.before hbound
      (p.after.stopsNumber (WrittenValue.stopsNumber_moreItems (q :: ps) rest))
    -- the comma pays for the round it takes
    have hbound' : 2 * (WrittenValue.itemsText (q :: ps)).length + 1 ≤ fuel := by omega
    have hmore := ih (fun r hr => h r (List.mem_cons_of_mem p hr)) hbound'
    rw [WrittenValue.moreItemsText_cons] at hvalue ⊢
    simp only [List.append_assoc, List.cons_append] at hvalue ⊢
    simp only [skipItemsWithin, hvalue, bind, Except.bind, Blanks.skipBlanks_append,
      skipBlanks_cons (c := ',') rfl, hmore]

/-- An array is skipped if its items are. -/
theorem skipped_array (inside : Blanks) {items : List (Padded WrittenValue)}
    (h : ∀ q ∈ items, Skipped q.content) : Skipped (.array inside items) := by
  refine .of_text fun {fuel rest} hfuel hrest => ?_
  have hopen : ∀ t, skipBlanks ('[' :: t) = '[' :: t := skipBlanks_cons rfl
  rw [WrittenValue.text_array] at hfuel ⊢
  rw [List.cons_append, List.append_assoc, List.append_assoc, List.singleton_append,
    skipValueWithin, hopen]
  dsimp only
  rw [if_neg (by decide), if_neg (by decide), if_neg (by decide), if_neg (by decide),
    if_neg (by decide), if_neg (by decide), if_pos rfl, inside.skipBlanks_append]
  cases items with
  | nil =>
    rw [WrittenValue.itemsText_nil, List.nil_append, skipBlanks_cons (c := ']') rfl]
    rfl
  | cons p ps =>
    have hskipped : ∀ q ∈ p.flush :: ps, Skipped q.content := by
      rwa [List.forall_mem_cons] at h ⊢
    -- the brackets are not part of the items, so fuel is left for them
    have hbound : 2 * (WrittenValue.itemsText (p.flush :: ps)).length + 1 ≤ fuel := by
      simp only [List.length_cons, List.length_append, WrittenValue.itemsText_cons, Padded.flush,
        Blanks.none, List.length_nil] at hfuel ⊢
      omega
    have hitems := skipItemsWithin_text hskipped hbound rest
    obtain ⟨c, t, htext, hbracket, -⟩ := WrittenValue.exists_itemsText_eq p ps (']' :: rest)
    rw [WrittenValue.skipBlanks_itemsText]
    rw [htext] at hitems ⊢
    split
    · rename_i heq
      cases heq
    · rename_i heq
      exact absurd (List.cons.inj heq).1 hbracket
    · exact hitems

/-- A key, its colon and a value are passed over, if the end of the object follows or more members
that are passed over. -/
theorem skipMembersWithin_member {m : WrittenMember} (h : Skipped m.2.content) {fuel : Nat}
    (hfuel : 2 * m.2.content.text.length ≤ fuel) {t next rest : Text}
    (ht : skipBlanks t = WrittenValue.memberText m ++ next) (hstops : StopsNumber next)
    (hnext : skipBlanks next = '\x7d' :: rest ∨
      ∃ u, skipBlanks next = ',' :: u ∧ skipMembersWithin fuel u = .ok rest) :
    skipMembersWithin (fuel + 1) t = .ok rest := by
  have hkey := skipString_inner m.1.content (m.1.after.text ++
    ':' :: (m.2.before.text ++ (m.2.content.text ++ next)))
  have hvalue := h m.2.before hfuel hstops
  simp only [WrittenValue.memberText, WrittenString.text, List.cons_append, List.append_assoc,
    List.nil_append] at ht
  -- the last member, or one with others behind it
  rcases hnext with hend | ⟨u, hcomma, hmore⟩
  · simp only [skipMembersWithin, ht, hkey, bind, Except.bind, readColon_append, hvalue, hend]
  · simp only [skipMembersWithin, ht, hkey, bind, Except.bind, readColon_append, hvalue, hcomma,
      hmore]

/-- Members with values that are passed over are passed over as an object. -/
theorem skipMembersWithin_text {m : WrittenMember} {ms : List WrittenMember}
    (h : ∀ x ∈ m :: ms, Skipped x.2.content) {fuel : Nat}
    (hfuel : 2 * (WrittenValue.membersText (m :: ms)).length + 1 ≤ fuel) {t rest : Text}
    (ht : skipBlanks t = skipBlanks (WrittenValue.membersText (m :: ms) ++ '\x7d' :: rest)) :
    skipMembersWithin fuel t = .ok rest := by
  induction ms generalizing m fuel t with
  | nil =>
    obtain ⟨fuel, rfl⟩ : ∃ n, fuel = n + 1 := ⟨fuel - 1, by omega⟩
    -- blanks in front of the member are skipped with those before
    rw [WrittenValue.skipBlanks_membersText] at ht
    simp only [WrittenValue.membersText_cons, WrittenValue.memberText, List.length_append,
      List.length_cons] at hfuel
    refine skipMembersWithin_member (h m List.mem_cons_self) (by omega) ht
      (m.2.after.stopsNumber (WrittenValue.stopsNumber_moreMembers [] rest)) (.inl ?_)
    rw [Blanks.skipBlanks_append, WrittenValue.moreMembersText_nil, List.nil_append,
      skipBlanks_cons rfl]
  | cons x ms ih =>
    obtain ⟨fuel, rfl⟩ : ∃ n, fuel = n + 1 := ⟨fuel - 1, by omega⟩
    rw [WrittenValue.skipBlanks_membersText] at ht
    rw [WrittenValue.membersText_cons, WrittenValue.moreMembersText_cons] at hfuel
    simp only [WrittenValue.memberText, List.length_append, List.length_cons] at hfuel
    refine skipMembersWithin_member (h m List.mem_cons_self) (by omega) ht
      (m.2.after.stopsNumber (WrittenValue.stopsNumber_moreMembers (x :: ms) rest))
      (.inr ⟨WrittenValue.membersText (x :: ms) ++ '\x7d' :: rest, ?_, ?_⟩)
    · rw [Blanks.skipBlanks_append, WrittenValue.moreMembersText_cons, List.cons_append,
        skipBlanks_cons rfl]
    · exact ih (fun y hy => h y (List.mem_cons_of_mem m hy)) (by omega) rfl

/-- An object is skipped if its values are. -/
theorem skipped_object (inside : Blanks) {members : List WrittenMember}
    (h : ∀ m ∈ members, Skipped m.2.content) : Skipped (.object inside members) := by
  refine .of_text fun {fuel rest} hfuel hrest => ?_
  have hopen : ∀ t, skipBlanks ('\x7b' :: t) = '\x7b' :: t := skipBlanks_cons rfl
  rw [WrittenValue.text_object] at hfuel ⊢
  rw [List.cons_append, List.append_assoc, List.append_assoc, List.singleton_append,
    skipValueWithin, hopen]
  dsimp only
  rw [if_neg (by decide), if_neg (by decide), if_neg (by decide), if_neg (by decide),
    if_neg (by decide), if_neg (by decide), if_neg (by decide), if_pos rfl,
    inside.skipBlanks_append]
  cases members with
  | nil =>
    rw [WrittenValue.membersText_nil, List.nil_append, skipBlanks_cons (c := '\x7d') rfl]
    rfl
  | cons m ms =>
    simp only [List.length_cons, List.length_append] at hfuel
    have hbound : 2 * (WrittenValue.membersText (m :: ms)).length + 1 ≤ fuel := by omega
    have hmembers := skipMembersWithin_text h hbound
      (skipBlanks_skipBlanks (WrittenValue.membersText (m :: ms) ++ '\x7d' :: rest))
    -- the first member starts with the quote of its key
    rw [WrittenValue.skipBlanks_membersText, WrittenValue.memberText, WrittenString.text] at hmembers ⊢
    exact hmembers

/-- The value of an item is smaller than the list of items. -/
theorem sizeOf_content_lt {p : Padded WrittenValue} {ps : List (Padded WrittenValue)}
    (h : p ∈ ps) : sizeOf p.content < sizeOf ps := by
  have hlt := List.sizeOf_lt_of_mem h
  obtain ⟨before, v, after⟩ := p
  simp only [Padded.mk.sizeOf_spec] at hlt ⊢
  omega

theorem sizeOf_value_lt {m : WrittenMember} {ms : List WrittenMember} (h : m ∈ ms) :
    sizeOf m.2.content < sizeOf ms := by
  have hlt := List.sizeOf_lt_of_mem h
  obtain ⟨key, before, v, after⟩ := m
  simp only [Prod.mk.sizeOf_spec, Padded.mk.sizeOf_spec] at hlt ⊢
  omega

/-- Any value is passed over. -/
theorem skipped : (v : WrittenValue) → Skipped v
  | .null => .of_text fun _ _ => rfl
  | .bool true => .of_text fun _ _ => rfl
  | .bool false => .of_text fun _ _ => rfl
  | .number n => skipped_number n
  | .string s => skipped_string s
  | .array inside items => skipped_array inside fun q hq =>
    have := sizeOf_content_lt hq
    skipped q.content
  | .object inside members => skipped_object inside fun m hm =>
    have := sizeOf_value_lt hm
    skipped m.2.content

/-- Skipping consumes exactly the value that is written, with the blanks before it. -/
theorem skipValue_text (b : Blanks) (v : WrittenValue) {rest : Text} (hrest : StopsNumber rest) :
    skipValue (b.text ++ (v.text ++ rest)) = .ok rest := by
  refine skipped v b ?_ hrest
  simp only [List.length_append]
  omega

end NamingLint.Json
