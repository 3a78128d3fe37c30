import Mathlib.Data.List.DropRight
import Mathlib.Data.List.Nodup
import NamingLint.Json.Record
import NamingLint.Proofs.Json.Scalar

/-!
# NamingLint — faithful codecs

A codec is faithful if it reads back what it writes, in either layout, at any level of nesting and in
front of anything that is not more of a number. What may be written is bounded, since counters are
read up to 64 bits only; and whatever is read is within these bounds again.

* `Codec.Faithful` — the laws of a codec. Next to reading back they say what codecs built over it
  need: blanks in front are passed, and a written value does not start like the end of a list.
* `ReadsMembers` — the written members of an object, read one after the other.
* `Members.Lawful` — the laws of a record: labels are told apart, and what is left out in writing is
  what an absent member stands for.

Main results:

* `Codec.Faithful.list`, `Codec.Faithful.orNull`, `Codec.Faithful.via` — faithful codecs from others.
* `Members.Lawful.faithful` — the codec of a lawful record is faithful.
* `Codec.Faithful.parse_write`, `Codec.Faithful.fits_of_parse` — the laws for whole texts.
-/

namespace NamingLint.Json

variable {α β σ : Type}

/-- Where a step and the steps after it succeed, the first one does. -/
theorem bind_eq_ok {x : Except Fault α} {f : α → Except Fault β} {b : β}
    (h : x.bind f = .ok b) : ∃ a, x = .ok a ∧ f a = .ok b := by
  cases x with
  | error e => cases h
  | ok a => exact ⟨a, rfl, h⟩

theorem map_eq_ok {x : Except Fault α} {f : α → β} {b : β} (h : x.map f = .ok b) :
    ∃ a, x = .ok a ∧ f a = b := by
  cases x with
  | error e => cases h
  | ok a => exact ⟨a, rfl, Except.ok.inj h⟩

/-! ## Blanks and layouts -/

@[simp] theorem skipBlanks_skipBlanks (t : Text) : skipBlanks (skipBlanks t) = skipBlanks t :=
  List.dropWhile_idempotent ..

/-- A text that starts with no blank stays as it is. -/
theorem skipBlanks_cons {c : Char} (h : isBlank c = false) (t : Text) :
    skipBlanks (c :: t) = c :: t := by
  simp [skipBlanks, h]

theorem skipBlanks_append {b : Text} (h : ∀ c ∈ b, isBlank c = true) (t : Text) :
    skipBlanks (b ++ t) = skipBlanks t :=
  List.dropWhile_append_of_pos h

/-- Line breaks and indentation are blanks. -/
theorem isBlank_of_mem_lineBreak {l : Layout} {level : Nat} :
    ∀ c ∈ l.lineBreak level, isBlank c = true := by
  intro c hc
  cases l with
  | compact => simp [Layout.lineBreak] at hc
  | pretty =>
    simp only [Layout.lineBreak, List.mem_cons, List.mem_replicate] at hc
    rcases hc with rfl | ⟨-, rfl⟩ <;> rfl

@[simp] theorem skipBlanks_lineBreak (l : Layout) (level : Nat) (t : Text) :
    skipBlanks (l.lineBreak level ++ t) = skipBlanks t :=
  skipBlanks_append isBlank_of_mem_lineBreak t

/-- A line break ends a number, and where there is none, what follows does. -/
theorem stopsNumber_lineBreak (l : Layout) (level : Nat) {t : Text} (h : StopsNumber t) :
    StopsNumber (l.lineBreak level ++ t) := by
  cases l with
  | compact => exact h
  | pretty => exact stopsNumber_cons (by decide)

/-- The colon that is written after a key is passed, but for a blank. -/
theorem readColon_colon (l : Layout) (t : Text) :
    ∃ u, readColon (l.colon ++ t) = .ok u ∧ skipBlanks u = skipBlanks t := by
  cases l with
  | compact => exact ⟨t, rfl, rfl⟩
  | pretty => exact ⟨' ' :: t, rfl, rfl⟩

/-- A key that was written is read back. -/
theorem readKey_writeString (k : String) (t : Text) :
    readKey (writeString k ++ t) = .ok (k.toList, t) := by
  have h : writeString k ++ t = '"' :: (k.toList.flatMap escape ++ '"' :: t) := by
    simp [writeString]
  rw [h, readKey, readString_flatMap_escape]

/-! ## Laws -/

/-- However it is set, the written value starts with a character that is neither a blank nor the end
of a list. -/
def Value.Opens (v : Value) : Prop :=
  ∀ l level, ∃ c t, v.writeAt l level = c :: t ∧ isBlank c = false ∧ c ≠ ']'

namespace Codec

/-- Values that fit are read back from what is written for them. -/
structure ReadsBack (c : Codec α) (fits : α → Prop) : Prop where
  read_write : ∀ a, fits a → ∀ l level rest, StopsNumber rest →
    c.read ((c.write a).writeAt l level ++ rest) = .ok (a, rest)
  opens : ∀ a, fits a → (c.write a).Opens
  read_skipBlanks : ∀ t, c.read (skipBlanks t) = c.read t

/-- Values that fit are read back from what is written for them, and values that are read fit. -/
structure Faithful (c : Codec α) (fits : α → Prop) : Prop extends ReadsBack c fits where
  fits_of_read : ∀ t a rest, c.read t = .ok (a, rest) → fits a

namespace ReadsBack

variable {c : Codec α} {fits : α → Prop}

/-- A written value is read back from a text in which only blanks follow it. -/
theorem parse_write_append (h : c.ReadsBack fits) {a : α} (ha : fits a) (l : Layout) {rest : Text}
    (hrest : skipBlanks rest = []) (hstops : StopsNumber rest) :
    c.parse ((c.write a).write l ++ rest) = .ok a := by
  have hread := h.read_write a ha l 0 rest hstops
  simp only [parse, readAll, Value.write, hread, bind, Except.bind, hrest]
  rfl

/-- What is written by a codec that reads back is parsed to the same value. -/
theorem parse_write (h : c.ReadsBack fits) {a : α} (ha : fits a) (l : Layout) :
    c.parse ((c.write a).write l) = .ok a := by
  have hparse := h.parse_write_append ha l rfl stopsNumber_nil
  rwa [List.append_nil] at hparse

/-- Behind its colon, a written value is read back. -/
theorem read_member (h : c.ReadsBack fits) {a : α} (ha : fits a) (l : Layout) (level : Nat)
    {rest : Text} (hrest : StopsNumber rest) :
    ∃ u, readColon (l.colon ++ ((c.write a).writeAt l level ++ rest)) = .ok u ∧
      c.read u = .ok (a, rest) := by
  obtain ⟨u, hcolon, hu⟩ := readColon_colon l ((c.write a).writeAt l level ++ rest)
  refine ⟨u, hcolon, ?_⟩
  rw [← h.read_skipBlanks, hu, h.read_skipBlanks, h.read_write a ha l level rest hrest]

end ReadsBack

namespace Faithful

variable {c : Codec α} {fits : α → Prop}

/-- A faithful codec parses only values that fit. -/
theorem fits_of_parse (h : c.Faithful fits) {t : Text} {a : α} (ht : c.parse t = .ok a) : fits a := by
  obtain ⟨⟨b, rest⟩, hread, hend⟩ := bind_eq_ok ht
  dsimp only at hend
  split at hend
  · cases hend
    exact h.fits_of_read t a rest hread
  · cases hend

/-- The form of a type whose values correspond to those of another one. -/
theorem via (h : c.Faithful fits) {fits' : β → Prop} {toForm : β → α} {ofForm : α → β}
    (hinverse : ∀ b, ofForm (toForm b) = b) (hto : ∀ b, fits' b → fits (toForm b))
    (hof : ∀ a, fits a → fits' (ofForm a)) : (c.via toForm ofForm).Faithful fits' where
  read_write b hb l level rest hrest := by
    show (c.read _).map _ = _
    rw [show (c.via toForm ofForm).write b = c.write (toForm b) from rfl,
      h.read_write _ (hto b hb) l level rest hrest]
    simp only [Except.map, hinverse]
  opens b hb := h.opens _ (hto b hb)
  read_skipBlanks t := by
    show (c.read _).map _ = (c.read _).map _
    rw [h.read_skipBlanks]
  fits_of_read t b rest hread := by
    -- what is read was made of something that fits
    obtain ⟨⟨a, u⟩, ha, heq⟩ := map_eq_ok hread
    cases heq
    exact hof a (h.fits_of_read t a rest ha)

end Faithful

/-! ## Scalars -/

theorem isBlank_of_isDigit {c : Char} (h : c.isDigit = true) : isBlank c = false := by
  rw [Bool.eq_false_iff]
  intro hblank
  simp only [isBlank, Bool.or_eq_true, decide_eq_true_eq] at hblank
  rcases hblank with ((rfl | rfl) | rfl) | rfl <;> exact absurd h (by decide)

theorem exists_toDigits_eq (n : Nat) : ∃ c ds, Nat.toDigits 10 n = c :: ds ∧ c.isDigit = true := by
  obtain ⟨c, ds, hds⟩ := List.exists_cons_of_ne_nil (Nat.toDigits_ne_nil (n := n) (b := 10))
  have hmem : c ∈ Nat.toDigits 10 n := by simp [hds]
  exact ⟨c, ds, hds, Nat.isDigit_of_mem_toDigits (by decide) (by decide) hmem⟩

/-- Counts up to the greatest one are read back, and no greater one is read. -/
theorem faithful_count : count.Faithful (· ≤ Numeral.greatest) where
  read_write n hn l level rest hrest := by
    have hwrite : (count.write n).writeAt l level = Nat.toDigits 10 n := rfl
    have hread := readNumber_toDigits hn hrest
    -- the first digit tells a number from anything else
    obtain ⟨c, ds, hds, hdigit⟩ := exists_toDigits_eq n
    have hminus : c ≠ '-' := by
      rintro rfl
      exact absurd hdigit (by decide)
    rw [hwrite]
    rw [hds, List.cons_append] at hread ⊢
    simp only [count, readCount, skipBlanks_cons (isBlank_of_isDigit hdigit), if_neg hminus, hdigit,
      if_true, hread, Except.bind]
  opens n _ l level := by
    obtain ⟨c, ds, hds, hdigit⟩ := exists_toDigits_eq n
    refine ⟨c, ds, hds, isBlank_of_isDigit hdigit, ?_⟩
    rintro rfl
    exact absurd hdigit (by decide)
  read_skipBlanks t := by simp only [count, readCount, skipBlanks_skipBlanks]
  fits_of_read t n rest hread := by
    simp only [count, readCount] at hread
    split at hread
    · cases hread
    · split at hread
      · obtain ⟨p, hp, hjudge⟩ := bind_eq_ok hread
        split at hjudge <;> cases hjudge
        exact le_greatest_of_readNumber hp
      · split at hread
        · obtain ⟨p, hp, hjudge⟩ := bind_eq_ok hread
          split at hjudge <;> cases hjudge
          exact le_greatest_of_readNumber hp
        · cases hread

theorem skipBlanks_writeString (s : String) (t : Text) :
    skipBlanks (writeString s ++ t) = '"' :: (s.toList.flatMap escape ++ '"' :: t) := by
  simp [writeString, skipBlanks, isBlank]

theorem opens_string (s : String) : (Value.string s).Opens := by
  intro l level
  exact ⟨'"', s.toList.flatMap escape ++ ['"'], rfl, rfl, by decide⟩

/-- Every text is read back. -/
theorem faithful_text (wanted : String) : (text wanted).Faithful fun _ => True where
  read_write s _ l level rest _ := by
    have hwrite : ((text wanted).write s).writeAt l level = writeString s := rfl
    rw [hwrite]
    simp only [text, readText, skipBlanks_writeString, readString_flatMap_escape, Except.map,
      String.ofList_toList]
  opens s _ := opens_string s
  read_skipBlanks t := by simp only [text, readText, skipBlanks_skipBlanks]
  fits_of_read _ _ _ _ := trivial

/-- Both flags are read back. -/
theorem faithful_flag : flag.Faithful fun _ => True where
  read_write b _ l level rest _ := by cases b <;> rfl
  opens b _ l level := by
    cases b
    · exact ⟨'f', "alse".toList, rfl, rfl, by decide⟩
    · exact ⟨'t', "rue".toList, rfl, rfl, by decide⟩
  read_skipBlanks t := by simp only [flag, skipBlanks_skipBlanks]
  fits_of_read _ _ _ _ := trivial

/-- A type with a word for each value, if looking the word up gives the value. -/
theorem faithful_word {label : α → String} {choices : List (String × α)}
    (h : ∀ a, (choices.find? fun c => c.1.toList = (label a).toList).map Prod.snd = some a) :
    (word label choices).Faithful fun _ => True where
  read_write a _ l level rest _ := by
    obtain ⟨c, hfind, rfl⟩ := Option.map_eq_some_iff.mp (h a)
    have hwrite : ((word label choices).write c.2).writeAt l level = writeString (label c.2) := rfl
    rw [hwrite]
    simp only [word, readWord, skipBlanks_writeString, readString_flatMap_escape, bind, Except.bind,
      choose, hfind]
  opens a _ := opens_string (label a)
  read_skipBlanks t := by simp only [word, readWord, skipBlanks_skipBlanks]
  fits_of_read _ _ _ _ := trivial

end Codec

/-! ## Lists -/

namespace Codec.ReadsBack

variable {c : Codec α} {fits : α → Prop}

/-- After an item there is a comma, a line break or the closing bracket. -/
theorem stopsNumber_writeItems (l : Layout) (level outer : Nat) (vs : List Value) (rest : Text) :
    StopsNumber (Value.writeItems l level vs ++ (l.lineBreak outer ++ ']' :: rest)) := by
  cases vs with
  | nil => exact stopsNumber_lineBreak l outer (stopsNumber_cons (by decide))
  | cons v vs => exact stopsNumber_cons (by decide)

/-- The items after the first are read back, up to the end of the list. -/
theorem readMoreItems_writeItems (h : c.ReadsBack fits) {as : List α} (has : ∀ a ∈ as, fits a)
    (l : Layout) (level outer : Nat) (rest : Text) {fuel : Nat} (hfuel : as.length < fuel) :
    readMoreItems c.read fuel (Value.writeItems l level (as.map c.write) ++
      (l.lineBreak outer ++ ']' :: rest)) = .ok (as, rest) := by
  induction as generalizing fuel with
  | nil =>
    obtain ⟨fuel, rfl⟩ := Nat.exists_eq_add_one_of_ne_zero (Nat.ne_of_gt hfuel)
    have hend : skipBlanks (']' :: rest) = ']' :: rest := skipBlanks_cons rfl rest
    simp only [List.map_nil, Value.writeItems, List.nil_append, readMoreItems, skipBlanks_lineBreak,
      hend]
  | cons a as ih =>
    obtain ⟨fuel, rfl⟩ :=
      Nat.exists_eq_add_one_of_ne_zero (Nat.ne_of_gt (Nat.zero_lt_of_lt hfuel))
    have ha : fits a := has a List.mem_cons_self
    have hmore := ih (fun b hb => has b (List.mem_cons_of_mem a hb)) (Nat.lt_of_succ_lt_succ hfuel)
    have hitem := h.read_write a ha l level _
      (stopsNumber_writeItems l level outer (as.map c.write) rest)
    -- the item starts like no end of a list, so it is read as an item
    obtain ⟨d, u, hopen, hblank, hbracket⟩ := h.opens a ha l level
    rw [hopen, List.cons_append] at hitem
    have hcomma : ∀ t, skipBlanks (',' :: t) = ',' :: t := skipBlanks_cons rfl
    simp only [List.map_cons, Value.writeItems, List.cons_append, List.append_assoc, hopen,
      readMoreItems, hcomma, skipBlanks_lineBreak, skipBlanks_cons hblank]
    split
    · rename_i heq
      cases heq
    · rename_i heq
      exact absurd (List.cons.inj heq).1 hbracket
    · simp only [hitem, bind, Except.bind, hmore]
      rfl

/-- Each item takes up at least one character, so the length of a text is fuel enough. -/
theorem length_le_writeItems (l : Layout) (level : Nat) (vs : List Value) :
    vs.length ≤ (Value.writeItems l level vs).length := by
  induction vs with
  | nil => exact Nat.le_refl 0
  | cons v vs ih =>
    simp only [Value.writeItems, List.length_append, List.length_cons, List.cons_append]
    omega

/-- The text of a list is its opening bracket and what its items are read from. -/
theorem readItems_write (h : c.ReadsBack fits) {as : List α} (has : ∀ a ∈ as, fits a) (l : Layout)
    (level : Nat) (rest : Text) :
    ∃ t, (Value.array (as.map c.write)).writeAt l level ++ rest = '[' :: t ∧
      readItems c.read t = .ok (as, rest) := by
  cases as with
  | nil => exact ⟨']' :: rest, rfl, rfl⟩
  | cons a as =>
    obtain ⟨ha, has⟩ := List.forall_mem_cons.mp has
    have hitem := h.read_write a ha l (level + 1) _
      (stopsNumber_writeItems l (level + 1) level (as.map c.write) rest)
    -- an item is longer than one character, so the fuel lasts
    have hfuel : as.length < (Value.writeItems l (level + 1) (as.map c.write) ++
        (l.lineBreak level ++ ']' :: rest)).length + 1 := by
      have hle := length_le_writeItems l (level + 1) (as.map c.write)
      rw [List.length_map] at hle
      rw [List.length_append]
      omega
    have hmore := h.readMoreItems_writeItems has l (level + 1) level rest hfuel
    obtain ⟨d, u, hopen, hblank, hbracket⟩ := h.opens a ha l (level + 1)
    rw [hopen, List.cons_append] at hitem
    refine ⟨l.lineBreak (level + 1) ++ ((c.write a).writeAt l (level + 1) ++
      (Value.writeItems l (level + 1) (as.map c.write) ++ (l.lineBreak level ++ ']' :: rest))),
      by simp [Value.writeAt], ?_⟩
    simp only [readItems, hopen, List.cons_append, skipBlanks_lineBreak, skipBlanks_cons hblank]
    split
    · rename_i heq
      cases heq
    · rename_i heq
      -- no item starts with the bracket that ends the list
      exact absurd (List.cons.inj heq).1 hbracket
    · simp only [hitem, bind, Except.bind, hmore]
      rfl

end Codec.ReadsBack

namespace Codec.Faithful

variable {c : Codec α} {fits : α → Prop}

/-- All items that are read fit. -/
theorem fits_of_readMoreItems (h : c.Faithful fits) {fuel : Nat} {t rest : Text} {as : List α}
    (hread : readMoreItems c.read fuel t = .ok (as, rest)) : ∀ a ∈ as, fits a := by
  induction fuel generalizing t as with
  | zero => cases hread
  | succ fuel ih =>
    rw [readMoreItems] at hread
    split at hread
    · cases hread
    · cases hread
      simp
    · split at hread
      · cases hread
      · cases hread
      · -- one more item, and then the others with less fuel
        obtain ⟨⟨a, u⟩, ha, hread⟩ := bind_eq_ok hread
        obtain ⟨⟨bs, u'⟩, hbs, hread⟩ := bind_eq_ok hread
        cases hread
        exact List.forall_mem_cons.mpr ⟨h.fits_of_read _ a u ha, ih hbs⟩
    · cases hread

/-- A list is faithful if its items are. -/
theorem list (h : c.Faithful fits) : c.list.Faithful fun as => ∀ a ∈ as, fits a where
  read_write as has l level rest _ := by
    obtain ⟨t, htext, hread⟩ := h.readItems_write has l level rest
    have hopening : skipBlanks ('[' :: t) = '[' :: t := skipBlanks_cons rfl t
    have hwrite : (c.list.write as).writeAt l level ++ rest = '[' :: t := htext
    rw [hwrite]
    simp only [Codec.list, hopening]
    exact hread
  opens as _ l level := by
    cases as with
    | nil => exact ⟨'[', [']'], rfl, rfl, by decide⟩
    | cons a as => exact ⟨'[', _, rfl, rfl, by decide⟩
  read_skipBlanks t := by simp only [Codec.list, skipBlanks_skipBlanks]
  fits_of_read t as rest hread := by
    simp only [Codec.list] at hread
    split at hread
    · cases hread
    · rw [readItems] at hread
      split at hread
      · cases hread
      · cases hread
        simp
      · -- the first item fits since it was read, and so do the others
        obtain ⟨⟨a, u⟩, ha, hread⟩ := bind_eq_ok hread
        obtain ⟨⟨bs, u'⟩, hbs, hread⟩ := bind_eq_ok hread
        cases hread
        exact List.forall_mem_cons.mpr ⟨h.fits_of_read _ a u ha, h.fits_of_readMoreItems hbs⟩
    · cases hread

/-! ## Values that may be lacking -/

/-- Written strings are not taken for `null`. -/
theorem orNull (h : c.Faithful fits) (hstring : ∀ a, ∃ s, c.write a = .string s) :
    c.orNull.Faithful fun o => ∀ a ∈ o, fits a where
  read_write o ho l level rest hrest := by
    cases o with
    | none => rfl
    | some a =>
      -- a string starts with a quote, so it cannot be taken for `null`
      obtain ⟨s, hs⟩ := hstring a
      have hwrite : c.orNull.write (some a) = .string s := hs
      have htext : (Value.string s).writeAt l level ++ rest =
          '"' :: (s.toList.flatMap escape ++ ['"'] ++ rest) := rfl
      have hquote : ∀ t, skipBlanks ('"' :: t) = '"' :: t := skipBlanks_cons rfl
      have hread := h.read_write a (ho a rfl) l level rest hrest
      rw [hs, htext] at hread
      rw [hwrite, htext]
      simp only [Codec.orNull, hquote]
      show (c.read _).map _ = _
      rw [hread]
      rfl
  opens o ho := by
    cases o with
    | none => exact fun l level => ⟨'n', "ull".toList, rfl, rfl, by decide⟩
    | some a => exact h.opens a (ho a rfl)
  read_skipBlanks t := by simp only [Codec.orNull, skipBlanks_skipBlanks]
  fits_of_read t o rest hread := by
    simp only [Codec.orNull] at hread
    split at hread
    · obtain ⟨u, -, heq⟩ := map_eq_ok hread
      cases heq
      simp
    · obtain ⟨⟨a, u⟩, ha, heq⟩ := map_eq_ok hread
      cases heq
      rintro b hb
      cases hb
      exact h.fits_of_read _ a u ha

end Codec.Faithful

/-! ## Objects -/

/-- From `s`, reading the written members one after the other leads to a state. -/
inductive ReadsMembers (member : σ → Reader σ) (l : Layout) (level : Nat) :
    σ → List (String × Value) → σ → Prop where
  | nil (s : σ) : ReadsMembers member l level s [] s
  | cons {s s' s'' : σ} {k : String} {v : Value} {ms : List (String × Value)}
      (hmember : ∀ rest, StopsNumber rest →
        member s (writeString k ++ (l.colon ++ (v.writeAt l level ++ rest))) = .ok (s', rest))
      (hmore : ReadsMembers member l level s' ms s'') :
      ReadsMembers member l level s ((k, v) :: ms) s''

/-- After a member there is a comma, a line break or the closing brace. -/
theorem stopsNumber_writeMembers (l : Layout) (level outer : Nat) (ms : List (String × Value))
    (rest : Text) :
    StopsNumber (Value.writeMembers l level ms ++ (l.lineBreak outer ++ '\x7d' :: rest)) := by
  cases ms with
  | nil => exact stopsNumber_lineBreak l outer (stopsNumber_cons (by decide))
  | cons m ms => exact stopsNumber_cons (by decide)

/-- Each member takes up at least one character. -/
theorem length_le_writeMembers (l : Layout) (level : Nat) (ms : List (String × Value)) :
    ms.length ≤ (Value.writeMembers l level ms).length := by
  induction ms with
  | nil => exact Nat.le_refl 0
  | cons m ms ih =>
    simp only [Value.writeMembers, List.length_append, List.length_cons, List.cons_append]
    omega

/-- The members after the first are read, up to the end of the object. -/
theorem ReadsMembers.readMoreMembers {member : σ → Reader σ} {l : Layout} {level : Nat} {s s' : σ}
    {ms : List (String × Value)} (h : ReadsMembers member l level s ms s') (outer : Nat)
    (rest : Text) {fuel : Nat} (hfuel : ms.length < fuel) :
    Json.readMoreMembers member fuel s (Value.writeMembers l level ms ++
      (l.lineBreak outer ++ '\x7d' :: rest)) = .ok (s', rest) := by
  -- each member takes one unit of fuel
  induction h generalizing fuel with
  | nil s =>
    obtain ⟨fuel, rfl⟩ := Nat.exists_eq_add_one_of_ne_zero (Nat.ne_of_gt hfuel)
    have hend : skipBlanks ('\x7d' :: rest) = '\x7d' :: rest := skipBlanks_cons rfl rest
    simp only [Value.writeMembers, List.nil_append, Json.readMoreMembers, skipBlanks_lineBreak, hend]
  | @cons s s' s'' k v ms hmember hmore ih =>
    obtain ⟨fuel, rfl⟩ :=
      Nat.exists_eq_add_one_of_ne_zero (Nat.ne_of_gt (Nat.zero_lt_of_lt hfuel))
    have hfirst := hmember _ (stopsNumber_writeMembers l level outer ms rest)
    have hrest := ih (Nat.lt_of_succ_lt_succ hfuel)
    have hcomma : ∀ t, skipBlanks (',' :: t) = ',' :: t := skipBlanks_cons rfl
    have hquote : ∀ t, skipBlanks ('"' :: t) = '"' :: t := skipBlanks_cons rfl
    simp only [writeString, List.cons_append, List.append_assoc] at hfirst
    simp only [Value.writeMembers, writeString, List.cons_append, List.append_assoc,
      Json.readMoreMembers, hcomma, skipBlanks_lineBreak, hquote]
    simp only [hfirst, bind, Except.bind, hrest]

/-- The text of an object is its opening brace and what its members are read from. -/
theorem ReadsMembers.readMembers {member : σ → Reader σ} {l : Layout} {level : Nat} {s s' : σ}
    {ms : List (String × Value)} (h : ReadsMembers member l (level + 1) s ms s') (rest : Text) :
    ∃ t, (Value.object ms).writeAt l level ++ rest = '\x7b' :: t ∧
      Json.readMembers member s t = .ok (s', rest) := by
  cases h with
  | nil s => exact ⟨'\x7d' :: rest, rfl, rfl⟩
  | @cons s s' s'' k v ms hmember hmore =>
    refine ⟨l.lineBreak (level + 1) ++ (writeString k ++ (l.colon ++ (v.writeAt l (level + 1) ++
      (Value.writeMembers l (level + 1) ms ++ (l.lineBreak level ++ '\x7d' :: rest))))), ?_, ?_⟩
    · simp [Value.writeAt]
    · have hfirst := hmember _ (stopsNumber_writeMembers l (level + 1) level ms rest)
      -- a member is longer than one character, so the fuel lasts
      have hfuel : ms.length < (Value.writeMembers l (level + 1) ms ++
          (l.lineBreak level ++ '\x7d' :: rest)).length + 1 := by
        have hle := length_le_writeMembers l (level + 1) ms
        rw [List.length_append]
        omega
      have hrest := hmore.readMoreMembers level rest hfuel
      have hquote : ∀ t, skipBlanks ('"' :: t) = '"' :: t := skipBlanks_cons rfl
      simp only [writeString, List.cons_append, List.append_assoc] at hfirst
      simp only [writeString, List.cons_append, List.append_assoc, Json.readMembers,
        skipBlanks_lineBreak, hquote]
      simp only [hfirst, bind, Except.bind, hrest]

/-- What reading a member keeps, reading an object keeps. -/
theorem readMembers_keeps {member : σ → Reader σ} {P : σ → Prop}
    (hmember : ∀ s t s' rest, P s → member s t = .ok (s', rest) → P s') {s s' : σ} {t rest : Text}
    (hs : P s) (h : readMembers member s t = .ok (s', rest)) : P s' := by
  -- by the fuel: `P` is kept from member to member
  have hmore : ∀ fuel s t, P s → readMoreMembers member fuel s t = .ok (s', rest) → P s' := by
    intro fuel
    induction fuel with
    | zero =>
      intro s t _ h
      cases h
    | succ fuel ih =>
      intro s t hs h
      rw [readMoreMembers] at h
      split at h
      · cases h
      · cases h
        exact hs
      · split at h
        · cases h
        · obtain ⟨⟨s'', u⟩, hfirst, h⟩ := bind_eq_ok h
          exact ih s'' u (hmember _ _ _ _ hs hfirst) h
        · cases h
        · cases h
      · cases h
  rw [readMembers] at h
  split at h
  · cases h
  · cases h
    exact hs
  · obtain ⟨⟨s'', u⟩, hfirst, h⟩ := bind_eq_ok h
    exact hmore _ s'' u (hmember _ _ _ _ hs hfirst) h
  · cases h

/-! ## Records -/

section Records

variable {κ : Type} {T : κ → Type}

namespace Draft

/-- Every member that was read fits. -/
def Fits (fits : (k : κ) → T k → Prop) (d : Draft T) : Prop :=
  ∀ k v, d k = some v → fits k v

variable [DecidableEq κ]

@[simp] theorem set_self (d : Draft T) (k : κ) (v : T k) : d.set k v k = some v := by
  simp [set]

theorem set_of_ne (d : Draft T) {j k : κ} (h : j ≠ k) (v : T k) : d.set k v j = d j := by
  simp [set, h]

/-- A draft still fits when a value that fits is set. -/
theorem Fits.set {fits : (k : κ) → T k → Prop} {d : Draft T} (h : d.Fits fits) {k : κ} {v : T k}
    (hv : fits k v) : (d.set k v).Fits fits := by
  intro j w hw
  by_cases hjk : j = k
  · subst hjk
    rw [set_self] at hw
    exact Option.some.inj hw ▸ hv
  · rw [set_of_ne d hjk] at hw
    exact h j w hw

end Draft

namespace Members

/-- A draft is complete if every member has a value, be it the one that stands for a missing member.
-/
theorem complete_eq_ok {m : Members κ T} {d : Draft T} {r : (k : κ) → T k}
    (h : ∀ k, m.valueOf d k = some (r k)) : m.complete d = .ok r := by
  unfold complete
  split
  · rename_i k hk
    have hnone := List.find?_some hk
    simp [h] at hnone
  · congr 1
    funext k
    simp [h]

/-- A record has the values of the draft it was completed from. -/
theorem valueOf_of_complete {m : Members κ T} {d : Draft T} {r : (k : κ) → T k}
    (h : m.complete d = .ok r) (k : κ) : m.valueOf d k = some (r k) := by
  unfold complete at h
  split at h
  · cases h
  · cases h
    simp

/-- Where labels are told apart, a text belongs to the key that has it as its label. -/
theorem keyOf?_eq_some_iff {m : Members κ T} (h : (m.keys.map m.label).Nodup) {t : Text} {k : κ} :
    m.keyOf? t = some k ↔ t = (m.label k).toList := by
  unfold keyOf?
  constructor
  · intro hfind
    have hlabel := List.find?_some hfind
    exact (decide_eq_true_eq.mp hlabel).symm
  · rintro rfl
    -- some key has the label, and no two have the same
    cases hfind : m.keys.find? fun j => (m.label j).toList = (m.label k).toList with
    | none =>
      have hnone := List.find?_eq_none.mp hfind k (m.mem_keys k)
      simp at hnone
    | some j =>
      have hlabel := List.find?_some hfind
      rw [decide_eq_true_eq, String.toList_inj] at hlabel
      rw [List.inj_on_of_nodup_map h (m.mem_keys j) (m.mem_keys k) hlabel]

/-- Labels are told apart, what is left out in writing is what an absent member stands for, and the
codecs of the members are faithful. -/
structure Lawful (m : Members κ T) (fits : (k : κ) → T k → Prop) : Prop where
  labels : (m.keys.map m.label).Nodup
  absent_of_omitted : ∀ k v, m.isOmitted k v = true → m.absent k = some v
  fits_absent : ∀ k v, m.absent k = some v → fits k v
  form : ∀ k, (m.form k).Faithful (fits k)

namespace Lawful

variable {m : Members κ T} {fits : (k : κ) → T k → Prop}

theorem keyOf?_label (h : m.Lawful fits) (k : κ) : m.keyOf? (m.label k).toList = some k :=
  (keyOf?_eq_some_iff h.labels).mpr rfl

/-- A record that was completed fits, values for missing members included. -/
theorem fits_complete (h : m.Lawful fits) {d : Draft T} (hd : d.Fits fits) {r : (k : κ) → T k}
    (hr : m.complete d = .ok r) (k : κ) : fits k (r k) := by
  have hvalue := valueOf_of_complete hr k
  unfold valueOf at hvalue
  cases hdk : d k with
  | some v =>
    rw [hdk] at hvalue
    exact hd k (r k) (hdk.trans hvalue)
  | none =>
    rw [hdk] at hvalue
    -- the member is missing, and its default fits
    exact h.fits_absent k (r k) hvalue

variable [DecidableEq κ]

/-- A written member that was not read yet is added to the draft. -/
theorem readMember_write (h : m.Lawful fits) {k : κ} {v : T k} (hv : fits k v) {d : Draft T}
    (hd : d k = none) (l : Layout) (level : Nat) {rest : Text} (hrest : StopsNumber rest) :
    m.readMember d (writeString (m.label k) ++
      (l.colon ++ (((m.form k).write v).writeAt l level ++ rest))) = .ok (d.set k v, rest) := by
  obtain ⟨u, hcolon, hu⟩ := (h.form k).read_member hv l level hrest
  simp only [readMember, readKey_writeString, bind, Except.bind, h.keyOf?_label k, hd, hcolon, hu]
  rfl

/-- The written members of some keys, read into a draft that has none of them. -/
theorem readsMembers (h : m.Lawful fits) {r : (k : κ) → T k} (hr : ∀ k, fits k (r k)) (l : Layout)
    (level : Nat) {ks : List κ} (hks : ks.Nodup) {d : Draft T} (hd : ∀ k ∈ ks, d k = none) :
    ∃ d', ReadsMembers m.readMember l level d (ks.filterMap fun k =>
        if m.isOmitted k (r k) then none else some (m.label k, (m.form k).write (r k))) d' ∧
      (∀ k ∈ ks, d' k = if m.isOmitted k (r k) then none else some (r k)) ∧
      ∀ k, k ∉ ks → d' k = d k := by
  induction ks generalizing d with
  | nil => exact ⟨d, .nil d, by simp, fun _ _ => rfl⟩
  | cons k ks ih =>
    obtain ⟨hk, hks⟩ := List.nodup_cons.mp hks
    obtain ⟨hdk, hd⟩ := List.forall_mem_cons.mp hd
    cases homit : m.isOmitted k (r k) with
    | true =>
      obtain ⟨d', hreads, hin, hout⟩ := ih hks hd
      refine ⟨d', by simpa [homit] using hreads, ?_, ?_⟩
      · rw [List.forall_mem_cons]
        exact ⟨by rw [hout k hk, hdk, homit]; rfl, hin⟩
      · intro j hj
        exact hout j fun hmem => hj (List.mem_cons_of_mem k hmem)
    | false =>
      have hne : ∀ j ∈ ks, j ≠ k := fun j hj hjk => hk (hjk ▸ hj)
      -- a key comes once, so the others are still not set
      have hdset : ∀ j ∈ ks, d.set k (r k) j = none := by
        intro j hj
        rw [Draft.set_of_ne d (hne j hj), hd j hj]
      obtain ⟨d', hreads, hin, hout⟩ := ih hks hdset
      refine ⟨d', ?_, ?_, ?_⟩
      · simp only [List.filterMap_cons, homit]
        exact .cons (fun rest hrest => h.readMember_write (hr k) hdk l level hrest) hreads
      · rw [List.forall_mem_cons]
        exact ⟨by rw [hout k hk, Draft.set_self, homit]; rfl, hin⟩
      · intro j hj
        rw [List.mem_cons, not_or] at hj
        rw [hout j hj.2, Draft.set_of_ne d hj.1]

/-- Reading a member keeps the draft fit, whether the member is known or not. -/
theorem fits_readMember (h : m.Lawful fits) {d d' : Draft T} {t rest : Text} (hd : d.Fits fits)
    (hread : m.readMember d t = .ok (d', rest)) : d'.Fits fits := by
  obtain ⟨⟨label, u⟩, -, hread⟩ := bind_eq_ok hread
  dsimp only at hread
  split at hread
  · -- an unknown member is skipped and leaves the draft alone
    obtain ⟨u, -, hread⟩ := bind_eq_ok hread
    obtain ⟨u, -, hread⟩ := bind_eq_ok hread
    cases hread
    exact hd
  · split at hread
    · cases hread
    · obtain ⟨u, -, hread⟩ := bind_eq_ok hread
      obtain ⟨⟨v, u⟩, hv, hread⟩ := bind_eq_ok hread
      cases hread
      exact hd.set ((h.form _).fits_of_read _ v u hv)

/-- Members that are read in order, from an array, fit their keys. -/
theorem fits_readElements (h : m.Lawful fits) {ks : List κ} {isFirst : Bool} {d d' : Draft T}
    {t rest : Text} (hd : d.Fits fits)
    (hread : m.readElements ks isFirst d t = .ok (d', rest)) : d'.Fits fits := by
  induction ks generalizing isFirst d t with
  | nil =>
    cases hread
    exact hd
  | cons k ks ih =>
    obtain ⟨next, -, hread⟩ := bind_eq_ok hread
    -- an array may end before all keys have a value
    cases next with
    | none =>
      cases hread
      exact hd
    | some next =>
      obtain ⟨⟨v, u⟩, hv, hread⟩ := bind_eq_ok hread
      exact ih (hd.set ((h.form k).fits_of_read _ v u hv)) hread

/-- Records are read back from their object form. The list form is never written, but may be read. -/
theorem faithful (h : m.Lawful fits) : m.codec.Faithful fun r => ∀ k, fits k (r k) where
  read_write r hr l level rest _ := by
    obtain ⟨d, hreads, hin, -⟩ :=
      h.readsMembers hr l (level + 1) h.labels.of_map (d := Draft.empty) fun _ _ => rfl
    obtain ⟨t, htext, hread⟩ := hreads.readMembers rest
    -- what was left out is what a missing member stands for
    have hvalue : ∀ k, m.valueOf d k = some (r k) := by
      intro k
      rw [valueOf, hin k (m.mem_keys k)]
      split
      · rename_i homit
        exact h.absent_of_omitted k (r k) homit
      · rfl
    have hbrace : skipBlanks ('\x7b' :: t) = '\x7b' :: t := skipBlanks_cons rfl t
    have hwrite : (m.codec.write r).writeAt l level ++ rest = '\x7b' :: t := htext
    rw [hwrite]
    change m.read ('\x7b' :: t) = .ok (r, rest)
    simp only [Members.read, hbrace, readObject, hread, bind, Except.bind, complete_eq_ok hvalue]
    rfl
  opens r _ l level := by
    show ∃ c t, (m.write r).writeAt l level = c :: t ∧ _
    rw [Members.write]
    cases m.keys.filterMap _ with
    | nil => exact ⟨'\x7b', ['\x7d'], rfl, rfl, by decide⟩
    | cons p ms => exact ⟨'\x7b', _, rfl, rfl, by decide⟩
  read_skipBlanks t := by
    show m.read _ = m.read _
    simp only [Members.read, skipBlanks_skipBlanks]
  fits_of_read t r rest hread := by
    have hempty : Draft.Fits fits (Draft.empty : Draft T) := fun k v hv => by cases hv
    replace hread : m.read t = .ok (r, rest) := hread
    rw [Members.read] at hread
    split at hread
    · cases hread
    · obtain ⟨⟨d, u⟩, hd, hread⟩ := bind_eq_ok hread
      dsimp only at hread
      split at hread
      · rename_i r' hr
        obtain ⟨u, -, hread⟩ := bind_eq_ok hread
        cases hread
        exact h.fits_complete (h.fits_readElements hempty hd) hr
      · cases hread
    · obtain ⟨⟨d, u⟩, hd, hread⟩ := bind_eq_ok hread
      dsimp only at hread
      split at hread
      · rename_i r' hr
        cases hread
        -- each member was read by the form of its key
        have hfits : d.Fits fits :=
          readMembers_keeps (fun s t s' rest hs => h.fits_readMember hs) hempty hd
        exact h.fits_complete hfits hr
      · cases hread
    · cases hread

end Lawful

end Members

end Records

end NamingLint.Json
