import NamingLint.Json.Codec
import NamingLint.Proofs.Text.Lines

/-!
# NamingLint — written strings and counters

What is written for a string or a counter is read back, whatever follows it, except that a counter
must not run into more of a number. A counter that was read has at most 64 bits.

Main results:

* `readString_flatMap_escape` — every string is read back from its escaped characters.
* `readNumber_toDigits` — every counter is read back from its digits.
* `le_greatest_of_readNumber` — whole numbers that are read fit into 64 bits.
-/

namespace NamingLint.Json

/-! ## Strings -/

/-- Hexadecimal digits are read back. -/
theorem hexValue?_hexDigit : ∀ n < 16, hexValue? (hexDigit n) = some n := by
  decide

/-- The four digits of a control character are read back. -/
theorem readCodeUnits_control {n : Nat} (h : n < 0x20) (t : Text) :
    readCodeUnits ('0' :: '0' :: hexDigit (n / 16) :: hexDigit (n % 16) :: t) =
      .ok (Char.ofNat n, t) := by
  have hzero : hexValue? '0' = some 0 := by decide
  have hhigh : hexValue? (hexDigit (n / 16)) = some (n / 16) := hexValue?_hexDigit _ (by omega)
  have hlow : hexValue? (hexDigit (n % 16)) = some (n % 16) := hexValue?_hexDigit _ (by omega)
  have hnumber : hexNumber? ['0', '0', hexDigit (n / 16), hexDigit (n % 16)] = some n := by
    simp only [hexNumber?, hzero, hhigh, hlow, Option.bind_eq_bind, Option.bind_some]
    show some _ = some n
    congr 1
    omega
  have hsize : ¬ Text.size ('0' :: '0' :: hexDigit (n / 16) :: hexDigit (n % 16) :: t) < 4 := by
    have h1 := (hexDigit (n / 16)).utf8Size_pos
    have h2 := (hexDigit (n % 16)).utf8Size_pos
    have h3 : '0'.utf8Size = 1 := by decide
    simp only [Text.size_cons, h3]
    omega
  have hhex : readHex ('0' :: '0' :: hexDigit (n / 16) :: hexDigit (n % 16) :: t) = .ok (n, t) := by
    simp only [readHex, if_neg hsize, List.take_succ_cons, List.take_zero, hnumber,
      List.drop_succ_cons, List.drop_zero]
  -- a control character is neither half of a pair
  have htrailing : isTrailing n = false := by
    simp only [isTrailing, Bool.and_eq_false_imp, decide_eq_true_eq, decide_eq_false_iff_not]
    omega
  have hleading : isLeading n = false := by
    simp only [isLeading, Bool.and_eq_false_imp, decide_eq_true_eq, decide_eq_false_iff_not]
    omega
  simp only [readCodeUnits, hhex, bind, Except.bind, htrailing, hleading]
  rfl

/-- One step reads what is written for one character. -/
theorem readCharacters_escape (c : Char) (fuel : Nat) (t : Text) :
    readCharacters (fuel + 1) (escape c ++ t) =
      (readCharacters fuel t).map fun (ds, rest) => (c :: ds, rest) := by
  -- an escape that is read as `c` goes in front of what follows it
  have hescape : ∀ u, readEscape u = .ok (c, t) →
      readCharacters (fuel + 1) ('\\' :: u) =
        (readCharacters fuel t).map fun (ds, rest) => (c :: ds, rest) := by
    intro u hu
    simp only [readCharacters, hu, bind, Except.bind]
    cases readCharacters fuel t <;> rfl
  unfold escape
  split
  · exact hescape _ (by subst c; rfl)
  split
  · exact hescape _ (by subst c; rfl)
  split
  · exact hescape _ (by subst c; rfl)
  split
  · exact hescape _ (by subst c; rfl)
  split
  · exact hescape _ (by subst c; rfl)
  split
  · exact hescape _ (by subst c; rfl)
  split
  · exact hescape _ (by subst c; rfl)
  split
  · rename_i hcontrol
    apply hescape
    have h := readCodeUnits_control hcontrol t
    rwa [Char.ofNat_toNat] at h
  · rename_i hquote hbackslash _ _ _ _ _ hcontrol
    simp only [List.cons_append, List.nil_append, readCharacters, if_neg hquote,
      if_neg hbackslash, if_neg hcontrol]
    cases readCharacters fuel t <;> rfl

/-- Escaping makes no text shorter. -/
theorem length_le_flatMap_escape (s : Text) : s.length ≤ (s.flatMap escape).length := by
  induction s with
  | nil => exact Nat.le_refl 0
  | cons c s ih =>
    -- no character is escaped to nothing
    have hne : 0 < (escape c).length := by
      unfold escape
      repeat' split
      all_goals exact Nat.succ_pos _
    rw [List.flatMap_cons, List.length_append, List.length_cons]
    omega

/-- A string is read back from its escaped characters and the closing quote. -/
theorem readString_flatMap_escape (s t : Text) :
    readString (s.flatMap escape ++ '"' :: t) = .ok (s, t) := by
  -- one unit of fuel for each character of the text, however long its escape is
  have hfuel : ∀ fuel, s.length < fuel →
      readCharacters fuel (s.flatMap escape ++ '"' :: t) = .ok (s, t) := by
    induction s with
    | nil =>
      intro fuel hlt
      obtain ⟨fuel, rfl⟩ := Nat.exists_eq_add_one_of_ne_zero (Nat.ne_of_gt hlt)
      rfl
    | cons c s ih =>
      intro fuel hlt
      obtain ⟨fuel, rfl⟩ := Nat.exists_eq_add_one_of_ne_zero (Nat.ne_of_gt (Nat.zero_lt_of_lt hlt))
      rw [List.flatMap_cons, List.append_assoc, readCharacters_escape,
        ih fuel (Nat.lt_of_succ_lt_succ hlt)]
      rfl
  apply hfuel
  have h := length_le_flatMap_escape s
  simp only [List.length_append]
  omega

/-! ## Counters -/

/-- The text does not start with what could be more of a number. -/
def StopsNumber (t : Text) : Prop :=
  ∀ c ∈ t.head?, c.isDigit = false ∧ c ≠ '.' ∧ c ≠ 'e' ∧ c ≠ 'E'

theorem stopsNumber_nil : StopsNumber [] := by
  simp [StopsNumber]

/-- A character that goes on with no number ends it. -/
theorem stopsNumber_cons {c : Char} {t : Text}
    (h : c.isDigit = false ∧ c ≠ '.' ∧ c ≠ 'e' ∧ c ≠ 'E') : StopsNumber (c :: t) := by
  simpa [StopsNumber] using h

/-- Digits of a positive number start with another digit than zero. -/
theorem toDigits_eq_cons {n : Nat} (h : 0 < n) :
    ∃ c ds, Nat.toDigits 10 n = c :: ds ∧ c ≠ '0' := by
  induction n using Nat.strongRecOn with
  | ind n ih =>
    rw [Nat.toDigits_eq_if (by decide)]
    split
    · refine ⟨n.digitChar, [], rfl, ?_⟩
      rw [Ne, Nat.digitChar_eq_zero]
      omega
    · obtain ⟨c, ds, heq, hc⟩ := ih (n / 10) (by omega) (by omega)
      exact ⟨c, ds ++ [(n % 10).digitChar], by rw [heq]; rfl, hc⟩

namespace Numeral

/-- Digits are collected one after the other, as long as they are within bounds. -/
theorem collect_append {bound n m : Nat} {ds : Text} (h : collect bound n ds = (m, []))
    (es : Text) : collect bound n (ds ++ es) = collect bound m es := by
  induction ds generalizing n with
  | nil =>
    obtain ⟨rfl, -⟩ := Prod.mk.inj h
    rfl
  | cons d ds ih =>
    rw [collect] at h
    split at h
    · simp at h
    · rename_i hle
      rw [List.cons_append, collect, if_neg hle, ih h]

/-- The digits of a number within the bound are collected to that number. -/
theorem collect_toDigits {bound n : Nat} (h : n ≤ bound) :
    collect bound 0 (Nat.toDigits 10 n) = (n, []) := by
  have hdigit : ∀ d < 10, digit d.digitChar = d := fun d hd =>
    Nat.toNat_digitChar_sub_48_of_lt_ten hd
  induction n using Nat.strongRecOn with
  | ind n ih =>
    rw [Nat.toDigits_eq_if (by decide)]
    split
    · rename_i hlt
      rw [collect, hdigit n hlt, if_neg (by omega), collect, Nat.mul_zero, Nat.zero_add]
    · -- the digits of `n / 10` come first, and then the last digit of `n`
      have hdiv := ih (n / 10) (by omega) (by omega)
      have hmod : 10 * (n / 10) + n % 10 = n := Nat.div_add_mod n 10
      rw [collect_append hdiv, collect, hdigit _ (Nat.mod_lt _ (by decide)), hmod,
        if_neg (by omega), collect]

/-- What is collected stays within bounds. -/
theorem collect_le {bound n : Nat} (h : n ≤ bound) (ds : Text) : (collect bound n ds).1 ≤ bound := by
  induction ds generalizing n with
  | nil => exact h
  | cons d ds ih =>
    rw [collect]
    split
    · exact h
    · rename_i hle
      exact ih (by omega)

/-- The digits of a number are read up to what ends it. -/
theorem readWhole_toDigits (atEnd : Cause) (n : Nat) {rest : Text} (h : StopsNumber rest) :
    readWhole atEnd (Nat.toDigits 10 n ++ rest) = .ok (Nat.toDigits 10 n, rest) := by
  have hrest : ∀ c ∈ rest.head?, c.isDigit = false := fun c hc => (h c hc).1
  rcases Nat.eq_zero_or_pos n with rfl | hpos
  · -- a zero is a digit of its own, and no other may follow it
    have hany : rest.head?.any Char.isDigit = false := by
      cases hc : rest.head? with
      | none => rfl
      | some c => exact hrest c hc
    simp [readWhole, hany]
  · have hall : ∀ c ∈ Nat.toDigits 10 n, c.isDigit = true :=
      fun c hc => Nat.isDigit_of_mem_toDigits (by decide) (by decide) hc
    have htake : (Nat.toDigits 10 n ++ rest).takeWhile Char.isDigit = Nat.toDigits 10 n := by
      rw [List.takeWhile_append_of_pos hall]
      cases rest with
      | nil => simp
      | cons c rest => simp [hrest c rfl]
    have hdrop : (Nat.toDigits 10 n ++ rest).dropWhile Char.isDigit = rest := by
      rw [List.dropWhile_append_of_pos hall]
      cases rest with
      | nil => rfl
      | cons c rest => simp [hrest c rfl]
    obtain ⟨c, ds, heq, hc⟩ := toDigits_eq_cons hpos
    have hdigit : c.isDigit = true := hall c (by simp [heq])
    rw [heq] at htake hdrop ⊢
    simp only [List.cons_append, readWhole, if_neg hc, hdigit, if_true]
    rw [← List.cons_append, htake, hdrop]

/-- Digits that nothing of a number follows are a numeral of their own. -/
theorem read_toDigits (atEnd : Cause) (n : Nat) {rest : Text} (h : StopsNumber rest) :
    read atEnd (Nat.toDigits 10 n ++ rest) = .ok (⟨Nat.toDigits 10 n, [], none⟩, rest) := by
  -- what stops a number opens neither a fraction nor an exponent
  have hfraction : readFraction atEnd rest = .ok ([], rest) := by
    unfold readFraction
    split
    · exact absurd rfl (h '.' rfl).2.1
    · rfl
  have hexponent : readExponent atEnd rest = .ok (none, rest) := by
    cases rest with
    | nil => rfl
    | cons c rest =>
      have hc := h c rfl
      simp [readExponent, hc.2.2.1, hc.2.2.2]
  simp only [read, readWhole_toDigits atEnd n h, hfraction, hexponent, bind, Except.bind]
  rfl

/-- A number within bounds is read as an integer. -/
theorem value_toDigits {n : Nat} (h : n ≤ greatest) (rest : Text) :
    value false ⟨Nat.toDigits 10 n, [], none⟩ rest = .ok (.int n) := by
  simp [value, collect_toDigits h, integer?]

/-- A numeral with a whole value has one of at most 64 bits. -/
theorem le_greatest_of_value {negative : Bool} {num : Numeral} {rest : Text} {n : Nat}
    (h : value negative num rest = .ok (.int n)) : n ≤ greatest := by
  have hdouble : ∀ (s : Nat) (e : Int), double negative s e rest ≠ .ok (.int n) := by
    intro s e
    unfold double
    split <;> simp
  have hwhole : (collect greatest 0 num.whole).1 ≤ greatest :=
    collect_le (Nat.zero_le _) num.whole
  rw [value] at h
  dsimp only at h
  split at h
  · split at h
    · -- the whole part itself, or its negative, which is no natural number
      rename_i i hi
      obtain rfl : i = n := by simpa using h
      unfold integer? at hi
      split at hi
      · have heq := Option.some.inj hi
        omega
      · split at hi
        · simp at hi
        · have heq := Option.some.inj hi
          omega
    · exact absurd h (hdouble _ _)
  · split at h
    · exact absurd h (hdouble _ _)
    · split at h
      · exact absurd h (hdouble _ _)
      · split at h <;> simp at h

end Numeral

/-- A number within bounds is read back. -/
theorem readNumber_toDigits {n : Nat} (h : n ≤ Numeral.greatest) {rest : Text}
    (hrest : StopsNumber rest) :
    readNumber false (Nat.toDigits 10 n ++ rest) = .ok (.int n, rest) := by
  simp only [readNumber, Numeral.read_toDigits .endInValue n hrest, Numeral.value_toDigits h rest,
    bind, Except.bind]
  rfl

/-- No integer beyond the bounds is read. -/
theorem le_greatest_of_readNumber {negative : Bool} {t rest : Text} {n : Nat}
    (h : readNumber negative t = .ok (.int n, rest)) : n ≤ Numeral.greatest := by
  simp only [readNumber, bind, Except.bind] at h
  split at h
  · cases h
  · rename_i p hp
    split at h
    · cases h
    · rename_i v hv
      obtain ⟨rfl, -⟩ : v = .int n ∧ p.2 = rest := by simpa [pure, Except.pure] using h
      exact Numeral.le_greatest_of_value hv

end NamingLint.Json
