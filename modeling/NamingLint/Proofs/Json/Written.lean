import NamingLint.Json.Reader
import NamingLint.Proofs.Json.Faithful

/-!
# NamingLint — JSON texts as they are written

One value can be written in many ways: with blanks between all parts, with escapes in strings, with
any number of digits. A written value keeps all of this. The conditions on its parts are those of the
grammar and are part of the types, so its text is always a JSON text.

* `Blanks`, `WrittenString`, `WrittenNumber`, `WrittenValue` — the parts, each with its `text`.
* `WrittenString.decode` — the characters that a string stands for. There are none if a code unit
  that needs a partner stands alone.

Main results:

* `WrittenValue.exists_text_eq`, `WrittenNumber.exists_text_eq` — how a value starts.
* `WrittenValue.stopsNumber_moreItems`, `WrittenValue.stopsNumber_moreMembers` — what follows a value
  within brackets is no more of a number.
-/

namespace NamingLint.Json

/-! ## Blanks -/

/-- Blanks between the parts of a text. -/
structure Blanks where
  text : Text
  isBlank_of_mem : ∀ c ∈ text, isBlank c = true

namespace Blanks

/-- No blanks. -/
def none : Blanks := ⟨[], by simp⟩

@[simp] theorem skipBlanks_append (b : Blanks) (t : Text) :
    skipBlanks (b.text ++ t) = skipBlanks t :=
  Json.skipBlanks_append b.isBlank_of_mem t

theorem skipBlanks_text (b : Blanks) : skipBlanks b.text = [] := by
  have h := b.skipBlanks_append []
  rwa [List.append_nil] at h

/-- A number may be followed by blanks, since no blank goes on with it. -/
theorem stopsNumber (b : Blanks) {t : Text} (h : StopsNumber t) : StopsNumber (b.text ++ t) := by
  cases hb : b.text with
  | nil => exact h
  | cons c u =>
    -- there are four blanks, and none is a digit, a point or an exponent
    have hc := b.isBlank_of_mem c (by simp [hb])
    refine stopsNumber_cons ?_
    simp only [isBlank, Bool.or_eq_true, decide_eq_true_eq] at hc
    rcases hc with ((rfl | rfl) | rfl) | rfl <;> decide

end Blanks

/-- Something with the blanks before and after it. -/
structure Padded (α : Type) where
  before : Blanks
  content : α
  after : Blanks

/-- The same without the blanks before it. -/
def Padded.flush {α : Type} (p : Padded α) : Padded α :=
  ⟨Blanks.none, p.content, p.after⟩

/-! ## Strings -/

/-- A part of a string. -/
inductive StringPart where
  /-- A character that stands for itself. -/
  | plain (c : Char) (h : 0x20 ≤ c.toNat ∧ c ≠ '"' ∧ c ≠ '\\')
  /-- A backslash and the letter of a character. -/
  | short (letter c : Char) (h : shortEscape? letter = some c)
  /-- A backslash, the letter `u` and the four digits of a code unit. -/
  | unit (digits : Text) (n : Nat) (h : hexNumber? digits = some n)

/-- What stands between the quotes of a string. -/
abbrev WrittenString := List StringPart

/-- The characters of a part. -/
def StringPart.text : StringPart → Text
  | plain c _ => [c]
  | short letter _ _ => ['\\', letter]
  | unit digits _ _ => '\\' :: 'u' :: digits

namespace WrittenString

/-- The characters between the quotes. -/
def inner (s : WrittenString) : Text :=
  s.flatMap StringPart.text

/-- The characters of a string. -/
def text (s : WrittenString) : Text :=
  '"' :: (inner s ++ ['"'])

/-- A string whose characters all stand for themselves. -/
def plain (w : String)
    (h : w.toList.all fun c => 0x20 ≤ c.toNat ∧ c ≠ '"' ∧ c ≠ '\\') : WrittenString :=
  w.toList.pmap StringPart.plain fun c hc => of_decide_eq_true (List.all_eq_true.mp h c hc)

/-- The characters that a string stands for. A leading code unit makes a character with the trailing
one that follows it, and neither of them stands for anything alone. -/
def decode : WrittenString → Option Text
  | [] => some []
  | .plain c _ :: ps => (decode ps).map (c :: ·)
  | .short _ c _ :: ps => (decode ps).map (c :: ·)
  | .unit _ n _ :: ps =>
    if isTrailing n then none
    else if isLeading n then
      match ps with
      | .unit _ m _ :: qs => if isTrailing m then (decode qs).map (pairChar n m :: ·) else none
      | _ => none
    else (decode ps).map (Char.ofNat n :: ·)

end WrittenString

/-! ## Numbers -/

/-- Digits, at least one. -/
structure Digits where
  text : Text
  ne_nil : text ≠ []
  isDigit_of_mem : ∀ c ∈ text, c.isDigit = true

/-- An exponent: its mark, a sign that may be absent, and digits. -/
structure WrittenExponent where
  mark : Char
  mark_eq : mark = 'e' ∨ mark = 'E'
  sign : Text
  sign_eq : sign = [] ∨ sign = ['+'] ∨ sign = ['-']
  digits : Digits

/-- A number. A whole part that starts with a zero is a zero. -/
structure WrittenNumber where
  isNegative : Bool
  whole : Digits
  zero_alone : whole.text.head? = some '0' → whole.text = ['0']
  fraction : Option Digits
  exponent : Option WrittenExponent

namespace WrittenNumber

/-- The characters of a fraction. -/
def fractionText : Option Digits → Text
  | none => []
  | some ds => '.' :: ds.text

/-- The characters of an exponent. -/
def exponentText : Option WrittenExponent → Text
  | none => []
  | some e => e.mark :: (e.sign ++ e.digits.text)

/-- The characters after the sign. -/
def unsigned (n : WrittenNumber) : Text :=
  n.whole.text ++ (fractionText n.fraction ++ exponentText n.exponent)

/-- The characters of a number. -/
def text (n : WrittenNumber) : Text :=
  if n.isNegative then '-' :: n.unsigned else n.unsigned

end WrittenNumber

/-! ## Values -/

/-- A value. `inside` are the blanks after an opening bracket. -/
inductive WrittenValue where
  | null
  | bool (b : Bool)
  | number (n : WrittenNumber)
  | string (s : WrittenString)
  | array (inside : Blanks) (items : List (Padded WrittenValue))
  | object (inside : Blanks) (members : List (Padded WrittenString × Padded WrittenValue))

/-- A member of an object: a key and a value. -/
abbrev WrittenMember := Padded WrittenString × Padded WrittenValue

/-- A member without blanks. -/
def bareMember (key : WrittenString) (v : WrittenValue) : WrittenMember :=
  (⟨Blanks.none, key, Blanks.none⟩, ⟨Blanks.none, v, Blanks.none⟩)

namespace WrittenValue

mutual

/-- The characters of a value. -/
def text : WrittenValue → Text
  | null => "null".toList
  | bool true => "true".toList
  | bool false => "false".toList
  | number n => n.text
  | string s => WrittenString.text s
  | array inside items => '[' :: (inside.text ++ (itemsText items ++ [']']))
  | object inside members => '\x7b' :: (inside.text ++ (membersText members ++ ['\x7d']))

/-- The items of a list, with the commas between them. -/
def itemsText : List (Padded WrittenValue) → Text
  | [] => []
  | ⟨before, v, after⟩ :: ps => before.text ++ (text v ++ (after.text ++ moreItemsText ps))

/-- Items with a comma before each of them. -/
def moreItemsText : List (Padded WrittenValue) → Text
  | [] => []
  | ⟨before, v, after⟩ :: ps =>
    ',' :: (before.text ++ (text v ++ (after.text ++ moreItemsText ps)))

/-- The members of an object, with the commas between them. -/
def membersText : List (Padded WrittenString × Padded WrittenValue) → Text
  | [] => []
  | (key, ⟨before, v, after⟩) :: ms =>
    key.before.text ++ (WrittenString.text key.content ++ (key.after.text ++
      ':' :: (before.text ++ (text v ++ (after.text ++ moreMembersText ms)))))

/-- Members with a comma before each of them. -/
def moreMembersText : List (Padded WrittenString × Padded WrittenValue) → Text
  | [] => []
  | (key, ⟨before, v, after⟩) :: ms =>
    ',' :: (key.before.text ++ (WrittenString.text key.content ++ (key.after.text ++
      ':' :: (before.text ++ (text v ++ (after.text ++ moreMembersText ms))))))

end

theorem text_number (n : WrittenNumber) : (number n).text = n.text :=
  rfl

theorem text_string (s : WrittenString) : (string s).text = WrittenString.text s :=
  rfl

/-- An array stands in brackets, with blanks of its own before the first item. -/
theorem text_array (inside : Blanks) (items : List (Padded WrittenValue)) :
    (array inside items).text = '[' :: (inside.text ++ (itemsText items ++ [']'])) :=
  rfl

/-- An object stands in braces, with blanks of its own before the first member. -/
theorem text_object (inside : Blanks) (members : List WrittenMember) :
    (object inside members).text = '\x7b' :: (inside.text ++ (membersText members ++ ['\x7d'])) :=
  rfl

@[simp] theorem itemsText_nil : itemsText [] = [] :=
  rfl

@[simp] theorem moreItemsText_nil : moreItemsText [] = [] :=
  rfl

@[simp] theorem membersText_nil : membersText [] = [] :=
  rfl

@[simp] theorem moreMembersText_nil : moreMembersText [] = [] :=
  rfl

@[simp] theorem itemsText_cons (p : Padded WrittenValue) (ps : List (Padded WrittenValue)) :
    itemsText (p :: ps) =
      p.before.text ++ (p.content.text ++ (p.after.text ++ moreItemsText ps)) :=
  rfl

@[simp] theorem moreItemsText_cons (p : Padded WrittenValue) (ps : List (Padded WrittenValue)) :
    moreItemsText (p :: ps) = ',' :: itemsText (p :: ps) :=
  rfl

/-- A member from the opening quote of its key to the end of its value. -/
def memberText (m : WrittenMember) : Text :=
  WrittenString.text m.1.content ++ (m.1.after.text ++
    ':' :: (m.2.before.text ++ m.2.content.text))

theorem memberText_append (m : WrittenMember) (t : Text) :
    memberText m ++ t = (string m.1.content).text ++ (m.1.after.text ++
      ':' :: (m.2.before.text ++ (m.2.content.text ++ t))) := by
  simp [memberText, text_string]

/-- A member has blanks before and after it, and the others follow. -/
@[simp] theorem membersText_cons (m : WrittenMember) (ms : List WrittenMember) :
    membersText (m :: ms) =
      m.1.before.text ++ (memberText m ++ (m.2.after.text ++ moreMembersText ms)) := by
  -- the definition has the parts of a member one by one
  have hmember : membersText (m :: ms) = m.1.before.text ++ (WrittenString.text m.1.content ++
      (m.1.after.text ++ ':' :: (m.2.before.text ++ (m.2.content.text ++ (m.2.after.text ++
        moreMembersText ms))))) := rfl
  simp only [hmember, memberText, List.append_assoc, List.cons_append]

@[simp] theorem moreMembersText_cons (m : WrittenMember) (ms : List WrittenMember) :
    moreMembersText (m :: ms) = ',' :: membersText (m :: ms) :=
  rfl

/-- What follows an item is no more of a number. -/
theorem stopsNumber_moreItems (ps : List (Padded WrittenValue)) (rest : Text) :
    StopsNumber (moreItemsText ps ++ ']' :: rest) := by
  cases ps with
  | nil => exact stopsNumber_cons (by decide)
  | cons p ps =>
    rw [moreItemsText_cons]
    exact stopsNumber_cons (by decide)

/-- After a member there is a comma or the closing brace, and no number goes on there. -/
theorem stopsNumber_moreMembers (ms : List WrittenMember) (rest : Text) :
    StopsNumber (moreMembersText ms ++ '\x7d' :: rest) := by
  cases ms with
  | nil => exact stopsNumber_cons (by decide)
  | cons m ms =>
    rw [moreMembersText_cons]
    exact stopsNumber_cons (by decide)

end WrittenValue

/-! ## First characters -/

/-- A number without its sign starts with a digit. -/
theorem WrittenNumber.exists_unsigned_eq (n : WrittenNumber) :
    ∃ c t, n.unsigned = c :: t ∧ c.isDigit = true := by
  obtain ⟨c, ds, hds⟩ := List.exists_cons_of_ne_nil n.whole.ne_nil
  exact ⟨c, _, by rw [unsigned, hds]; rfl, n.whole.isDigit_of_mem c (by simp [hds])⟩

/-- A number starts with a minus or a digit. -/
theorem WrittenNumber.exists_text_eq (n : WrittenNumber) :
    ∃ c t, n.text = c :: t ∧ (c = '-' ∨ c.isDigit = true) := by
  rw [text]
  split
  · exact ⟨'-', n.unsigned, rfl, .inl rfl⟩
  · obtain ⟨c, t, ht, hc⟩ := n.exists_unsigned_eq
    exact ⟨c, t, ht, .inr hc⟩

/-- The first character of a number is none of those that other parts of a text start with. -/
theorem ne_of_startsNumber {c d : Char} (h : c = '-' ∨ c.isDigit = true) (hminus : d ≠ '-')
    (hdigit : d.isDigit = false) : c ≠ d := by
  rintro rfl
  rcases h with h | h
  · exact hminus h
  · rw [hdigit] at h
    exact absurd h (by decide)

namespace WrittenValue

/-- A value starts with a character that is no blank, and that neither ends a list nor goes on with
one. -/
theorem exists_text_eq (v : WrittenValue) :
    ∃ c t, v.text = c :: t ∧ isBlank c = false ∧ c ≠ ']' ∧ c ≠ ',' := by
  cases v with
  | null => exact ⟨'n', "ull".toList, rfl, rfl, by decide, by decide⟩
  | bool b =>
    cases b
    · exact ⟨'f', "alse".toList, rfl, rfl, by decide, by decide⟩
    · exact ⟨'t', "rue".toList, rfl, rfl, by decide, by decide⟩
  | number n =>
    obtain ⟨c, t, htext, hc⟩ := n.exists_text_eq
    -- a number starts with a minus or a digit
    have hblank : isBlank c = false := by
      rcases hc with rfl | hdigit
      · rfl
      · exact Codec.isBlank_of_isDigit hdigit
    exact ⟨c, t, by rw [text_number, htext], hblank, ne_of_startsNumber hc (by decide) (by decide),
      ne_of_startsNumber hc (by decide) (by decide)⟩
  | string s => exact ⟨'"', _, rfl, rfl, by decide, by decide⟩
  | array inside items => exact ⟨'[', _, text_array inside items, rfl, by decide, by decide⟩
  | object inside members =>
    exact ⟨'\x7b', _, text_object inside members, rfl, by decide, by decide⟩

/-- No value starts with a blank. -/
@[simp] theorem skipBlanks_text_append (v : WrittenValue) (t : Text) :
    skipBlanks (v.text ++ t) = v.text ++ t := by
  obtain ⟨c, u, hv, hc, -⟩ := v.exists_text_eq
  rw [hv, List.cons_append, skipBlanks_cons hc]

theorem text_string_append (s : WrittenString) (t : Text) :
    (string s).text ++ t = '"' :: (s.inner ++ '"' :: t) := by
  simp [text_string, WrittenString.text]

theorem text_array_append (inside : Blanks) (items : List (Padded WrittenValue)) (t : Text) :
    (array inside items).text ++ t = '[' :: (inside.text ++ (itemsText items ++ ']' :: t)) := by
  simp [text_array]

theorem text_object_append (inside : Blanks) (members : List WrittenMember) (t : Text) :
    (object inside members).text ++ t =
      '\x7b' :: (inside.text ++ (membersText members ++ '\x7d' :: t)) := by
  simp [text_object]

/-- The first character of a text tells what kind of value is written. -/
theorem kind_of_text_append {v : WrittenValue} {c : Char} {t rest : Text}
    (h : v.text ++ rest = c :: t) :
    (c = 'n' → v = null) ∧ (c = '"' → ∃ s, v = string s) ∧
      (c = '[' → ∃ inside items, v = array inside items) ∧
      (c = '\x7b' → ∃ inside members, v = object inside members) := by
  cases v with
  | null =>
    obtain rfl : 'n' = c := (List.cons.inj h).1
    simp
  | bool b =>
    cases b with
    | false =>
      obtain rfl : 'f' = c := (List.cons.inj h).1
      simp
    | true =>
      obtain rfl : 't' = c := (List.cons.inj h).1
      simp
  | number n =>
    obtain ⟨d, u, htext, hd⟩ := n.exists_text_eq
    rw [text_number, htext] at h
    obtain rfl : d = c := (List.cons.inj h).1
    -- a number starts like no other value
    have hne : ∀ {e : Char}, e ≠ '-' → e.isDigit = false → d ≠ e := ne_of_startsNumber hd
    simp [hne (e := 'n') (by decide) (by decide), hne (e := '"') (by decide) (by decide),
      hne (e := '[') (by decide) (by decide), hne (e := '\x7b') (by decide) (by decide)]
  | string s =>
    rw [text_string_append] at h
    cases h
    simp
  | array inside items =>
    rw [text_array_append] at h
    cases h
    simp
  | object inside members =>
    rw [text_object_append] at h
    cases h
    simp

/-- Only `null` starts with the letter n. -/
theorem eq_null_of_text {v : WrittenValue} {t rest : Text} (h : v.text ++ rest = 'n' :: t) :
    v = null :=
  (kind_of_text_append h).1 rfl

/-- What starts with a quote is a string, up to the quote that closes it. -/
theorem exists_string_of_text {v : WrittenValue} {t rest : Text}
    (h : v.text ++ rest = '"' :: t) : ∃ s, v = string s ∧ t = s.inner ++ '"' :: rest := by
  -- the first character tells the kind of value
  obtain ⟨s, rfl⟩ := (kind_of_text_append h).2.1 rfl
  rw [text_string_append] at h
  exact ⟨s, rfl, (List.cons.inj h).2.symm⟩

/-- What starts with a bracket is an array. -/
theorem exists_array_of_text {v : WrittenValue} {t rest : Text} (h : v.text ++ rest = '[' :: t) :
    ∃ inside items, v = array inside items ∧
      t = inside.text ++ (itemsText items ++ ']' :: rest) := by
  obtain ⟨inside, items, rfl⟩ := (kind_of_text_append h).2.2.1 rfl
  rw [text_array_append] at h
  exact ⟨inside, items, rfl, (List.cons.inj h).2.symm⟩

/-- What starts with a brace is an object. -/
theorem exists_object_of_text {v : WrittenValue} {t rest : Text}
    (h : v.text ++ rest = '\x7b' :: t) :
    ∃ inside members, v = object inside members ∧
      t = inside.text ++ (membersText members ++ '\x7d' :: rest) := by
  obtain ⟨inside, members, rfl⟩ := (kind_of_text_append h).2.2.2 rfl
  rw [text_object_append] at h
  exact ⟨inside, members, rfl, (List.cons.inj h).2.symm⟩

/-- The items of a list without the blanks before them. -/
theorem skipBlanks_itemsText (p : Padded WrittenValue) (ps : List (Padded WrittenValue))
    (t : Text) : skipBlanks (itemsText (p :: ps) ++ t) = itemsText (p.flush :: ps) ++ t := by
  simp only [itemsText_cons, List.append_assoc, Blanks.skipBlanks_append, skipBlanks_text_append,
    Padded.flush, Blanks.none, List.nil_append]

/-- Leaving out the blanks before the first item leaves the rest as it is. -/
theorem itemsText_flush (p : Padded WrittenValue) (ps : List (Padded WrittenValue)) (t : Text) :
    itemsText (p.flush :: ps) ++ t = p.content.text ++ (p.after.text ++ (moreItemsText ps ++ t)) := by
  simp [Padded.flush, Blanks.none]

/-- Without the blanks before them, items start like no end of a list. -/
theorem exists_itemsText_eq (p : Padded WrittenValue) (ps : List (Padded WrittenValue)) (t : Text) :
    ∃ c u, itemsText (p.flush :: ps) ++ t = c :: u ∧ c ≠ ']' ∧ c ≠ ',' := by
  obtain ⟨c, u, hc, -, hbracket, hcomma⟩ := p.content.exists_text_eq
  refine ⟨c, u ++ (p.after.text ++ (moreItemsText ps ++ t)), ?_, hbracket, hcomma⟩
  rw [itemsText_flush, hc, List.cons_append]

/-- The members of an object without the blanks before them start with a quote. -/
theorem skipBlanks_membersText (m : WrittenMember) (ms : List WrittenMember) (t : Text) :
    skipBlanks (membersText (m :: ms) ++ t) =
      memberText m ++ (m.2.after.text ++ (moreMembersText ms ++ t)) := by
  rw [membersText_cons, List.append_assoc, Blanks.skipBlanks_append, List.append_assoc,
    List.append_assoc, memberText, WrittenString.text, List.cons_append, List.cons_append,
    skipBlanks_cons (c := '"') rfl]

theorem length_text_pos (v : WrittenValue) : 0 < v.text.length := by
  obtain ⟨c, u, hv, -⟩ := v.exists_text_eq
  rw [hv]
  exact Nat.succ_pos _

end WrittenValue

end NamingLint.Json
