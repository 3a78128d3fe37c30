import NamingLint.Proofs.Json.Skip

/-!
# NamingLint — codecs and written values

A codec reads a value from many texts. Two things are said about a codec here. It accepts a way to
stand for values if it reads a value from every text that stands for it, up to the end of that text.
It is exact if it never leaves a part of a value behind and never takes more than a value, whether it
is a value of its type or not; a codec that fails is exact too.

* `Codec.Accepts`, `Codec.Exact` — these two.
* `RunsMembers` — members that are read one after the other.

Main results:

* `Codec.Accepts.list`, `Codec.Accepts.orNull`, `Codec.Exact.list`, `Codec.Exact.orNull` — codecs
  built over others.
* `RunsMembers.readMembers`, `readMembers_exact` — the members of an object.
-/

namespace NamingLint.Json

variable {α β σ : Type}

namespace Codec

/-- Blanks before a value make no difference. -/
def PassesBlanks (c : Codec α) : Prop :=
  ∀ t, c.read (skipBlanks t) = c.read t

/-- Blanks before a value are of no matter to a codec that skips them. -/
theorem PassesBlanks.read_append {c : Codec α} (h : c.PassesBlanks) (b : Blanks) (t : Text) :
    c.read (b.text ++ t) = c.read t := by
  rw [← h, Blanks.skipBlanks_append, h]

/-- Values are read from the texts that stand for them. -/
structure Accepts (c : Codec α) (stands : WrittenValue → α → Prop) : Prop where
  read_text : ∀ {v : WrittenValue} {a : α} {rest : Text}, stands v a → StopsNumber rest →
    c.read (v.text ++ rest) = .ok (a, rest)

/-- Where reading a written value succeeds, just this value is consumed. -/
structure Exact (c : Codec α) : Prop where
  rest_eq : ∀ {v : WrittenValue} {p : α × Text} {rest : Text}, StopsNumber rest →
    c.read (v.text ++ rest) = .ok p → p.2 = rest

/-- A codec that accepts what stands for a value accepts less, too. -/
theorem Accepts.mono {c : Codec α} {stands stands' : WrittenValue → α → Prop}
    (h : c.Accepts stands) (himp : ∀ {v a}, stands' v a → stands v a) : c.Accepts stands' :=
  ⟨fun hv hrest => h.read_text (himp hv) hrest⟩

/-- A codec of another form accepts what the form stands for. -/
theorem Accepts.via {c : Codec α} {stands : WrittenValue → α → Prop} (h : c.Accepts stands)
    {toForm : β → α} {ofForm : α → β} (hinverse : ∀ b, ofForm (toForm b) = b) :
    (c.via toForm ofForm).Accepts fun v b => stands v (toForm b) := by
  refine ⟨fun {v b rest} hv hrest => ?_⟩
  show (c.read _).map _ = _
  rw [h.read_text hv hrest]
  simp only [Except.map, hinverse]

/-- Another form is read as far as before. -/
theorem Exact.via {c : Codec α} (h : c.Exact) (toForm : β → α) (ofForm : α → β) :
    (c.via toForm ofForm).Exact := by
  refine ⟨fun {v p rest} hrest hread => ?_⟩
  obtain ⟨q, hq, rfl⟩ := map_eq_ok hread
  exact h.rest_eq hrest hq

/-! ## Scalars -/

/-- A flag is accepted as `true` or `false`. -/
theorem accepts_flag : flag.Accepts fun v b => v = .bool b := by
  refine ⟨?_⟩
  rintro v b rest rfl -
  cases b <;> rfl

/-- A flag is read to its end, and nothing else is taken for one. -/
theorem exact_flag : flag.Exact := by
  refine ⟨fun {v p rest} hrest h => ?_⟩
  cases v with
  | bool b => cases b <;> cases h <;> rfl
  | number n =>
    -- a minus sign or a digit starts neither `true` nor `false`
    obtain ⟨c, t, htext, hc⟩ := n.exists_text_eq
    have hblank := (WrittenValue.number n).skipBlanks_text_append rest
    rw [WrittenValue.text_number, htext, List.cons_append] at h hblank
    simp only [flag, hblank, if_neg (ne_of_startsNumber hc (d := 't') (by decide) (by decide)),
      if_neg (ne_of_startsNumber hc (d := 'f') (by decide) (by decide))] at h
    cases h
  | _ => cases h

/-- The value is a string that stands for these characters. -/
def IsString (v : WrittenValue) (t : Text) : Prop :=
  ∃ s : WrittenString, v = .string s ∧ s.decode = some t

/-- A string is read to its closing quote, with its escapes resolved. -/
theorem readText_string {v : WrittenValue} {t : Text} (h : IsString v t) (wanted : String)
    (rest : Text) : readText wanted (v.text ++ rest) = .ok (t, rest) := by
  obtain ⟨s, rfl, hs⟩ := h
  have hread := (readString_inner_iff (t := rest) (p := (t, rest))).mpr ⟨hs, rfl⟩
  have hquote := (WrittenValue.string s).skipBlanks_text_append rest
  rw [WrittenValue.text_string_append] at hquote ⊢
  rw [readText, hquote]
  exact hread

theorem readText_skipBlanks (wanted : String) (t : Text) :
    readText wanted (skipBlanks t) = readText wanted t := by
  simp only [readText, skipBlanks_skipBlanks]

/-- A value that is read as a string is one, and all of it is consumed. -/
theorem isString_of_readText {v : WrittenValue} {wanted : String} {p : Text × Text} {rest : Text}
    (h : readText wanted (v.text ++ rest) = .ok p) : IsString v p.1 ∧ p.2 = rest := by
  rw [readText, v.skipBlanks_text_append] at h
  split at h
  · cases h
  · rename_i t htext
    obtain ⟨s, rfl, rfl⟩ := WrittenValue.exists_string_of_text htext
    obtain ⟨hs, hrest⟩ := readString_inner_iff.mp h
    exact ⟨⟨s, rfl, hs⟩, hrest⟩
  · cases h

/-- A text is accepted as a string, however it is escaped. -/
theorem accepts_text (wanted : String) : (text wanted).Accepts fun v s => IsString v s.toList := by
  refine ⟨fun {v s rest} hv hrest => ?_⟩
  show (readText wanted _).map _ = _
  rw [readText_string hv]
  simp only [Except.map, String.ofList_toList]

/-- A text is read to its closing quote. -/
theorem exact_text (wanted : String) : (text wanted).Exact := by
  refine ⟨fun {v p rest} hrest h => ?_⟩
  obtain ⟨q, hq, rfl⟩ := map_eq_ok h
  exact (isString_of_readText hq).2

/-! ## Words -/

/-- A word is accepted if it is one of the choices, the first of its spelling. -/
theorem accepts_word (label : α → String) (choices : List (String × α)) :
    (word label choices).Accepts fun v a => ∃ t, IsString v t ∧
      (choices.find? fun c => c.1.toList = t).map Prod.snd = some a := by
  refine ⟨?_⟩
  rintro v a rest ⟨t, ⟨s, rfl, hs⟩, hfind⟩ -
  obtain ⟨c, hc, rfl⟩ := Option.map_eq_some_iff.mp hfind
  have hread := (readString_inner_iff (t := rest) (p := (t, rest))).mpr ⟨hs, rfl⟩
  have hquote := (WrittenValue.string s).skipBlanks_text_append rest
  rw [WrittenValue.text_string_append] at hquote ⊢
  simp only [word, readWord, hquote, hread, bind, Except.bind, choose, hc]

/-- A string that is none of the words is not read. -/
theorem readWord_unknown {choices : List (String × α)} {s : WrittenString}
    (h : ∀ c ∈ choices, s.decode ≠ some c.1.toList) (rest : Text) (p : α × Text) :
    readWord choices ((WrittenValue.string s).text ++ rest) ≠ .ok p := by
  intro hread
  have hquote := (WrittenValue.string s).skipBlanks_text_append rest
  rw [WrittenValue.text_string_append] at hquote hread
  rw [readWord, hquote] at hread
  obtain ⟨q, hq, hread⟩ := bind_eq_ok hread
  dsimp only [choose] at hread
  split at hread
  · rename_i c hc
    -- a choice that is found is spelled like the string
    have hword := List.find?_some hc
    rw [decide_eq_true_eq] at hword
    refine h c (List.mem_of_find?_eq_some hc) ?_
    rw [hword, (readString_inner_iff.mp hq).1]
  · cases hread

/-- Choosing a word reads no further. -/
theorem rest_of_choose {choices : List (String × α)} {t rest : Text} {p : α × Text}
    (h : choose choices t rest = .ok p) : p.2 = rest := by
  rw [choose] at h
  split at h
  · cases h
    rfl
  · cases h

/-- Of the values, only `null` is nothing. -/
theorem rest_of_readNothing {b : Blanks} {v : WrittenValue} {t rest : Text}
    (h : readNothing (b.text ++ (v.text ++ t)) = .ok rest) : rest = t := by
  rw [readNothing, b.skipBlanks_append, v.skipBlanks_text_append] at h
  split at h
  · cases h
  · rename_i u htext
    -- only `null` starts with this letter
    obtain rfl := WrittenValue.eq_null_of_text htext
    obtain rfl := (List.cons.inj htext).2
    cases h
    rfl
  · cases h

/-- A word is read to its end, as a string or as the key of an object. -/
theorem exact_word (label : α → String) (choices : List (String × α)) :
    (word label choices).Exact := by
  refine ⟨fun {v p rest} hrest h => ?_⟩
  change readWord choices (v.text ++ rest) = .ok p at h
  rw [readWord, v.skipBlanks_text_append] at h
  split at h
  · cases h
  · -- a string
    rename_i t htext
    obtain ⟨s, rfl, rfl⟩ := WrittenValue.exists_string_of_text htext
    obtain ⟨q, hq, h⟩ := bind_eq_ok h
    rw [rest_of_choose h, (readString_inner_iff.mp hq).2]
  · -- an object with the word as its key
    rename_i t htext
    obtain ⟨inside, ms, rfl, rfl⟩ := WrittenValue.exists_object_of_text htext
    obtain ⟨⟨key, t₁⟩, hkey, h⟩ := bind_eq_ok h
    obtain ⟨⟨a, t₂⟩, hchoose, h⟩ := bind_eq_ok h
    obtain ⟨t₃, hcolon, h⟩ := bind_eq_ok h
    obtain ⟨t₄, hnothing, h⟩ := bind_eq_ok h
    rw [← readText_skipBlanks, inside.skipBlanks_append] at hkey
    cases ms with
    | nil => cases hkey
    | cons m ms =>
      rw [WrittenValue.skipBlanks_membersText, WrittenValue.memberText_append] at hkey
      obtain rfl : t₁ = _ := (isString_of_readText hkey).2
      obtain rfl : t₂ = _ := rest_of_choose hchoose
      rw [readColon_append] at hcolon
      cases hcolon
      obtain rfl := rest_of_readNothing hnothing
      -- the object has to end after its first member
      rw [Blanks.skipBlanks_append] at h
      cases ms with
      | nil =>
        cases h
        rfl
      | cons x ms =>
        rw [WrittenValue.moreMembersText_cons, List.cons_append] at h
        cases h
  · cases h

/-! ## Values that may be lacking -/

/-- `null` stands for nothing. -/
theorem Accepts.orNull {c : Codec α} {stands : WrittenValue → α → Prop} (h : c.Accepts stands)
    (hnull : ∀ {v a}, stands v a → v ≠ .null) :
    c.orNull.Accepts fun v o => o.elim (v = .null) (stands v) := by
  refine ⟨fun {v o rest} hv hrest => ?_⟩
  simp only [Codec.orNull, v.skipBlanks_text_append]
  cases o with
  | none =>
    obtain rfl : v = .null := hv
    rfl
  | some a =>
    split
    · rename_i t htext
      -- no other value can be taken for `null`
      exact absurd (WrittenValue.eq_null_of_text htext) (hnull hv)
    · rw [h.read_text hv hrest]
      rfl

/-- A codec that also takes `null` reads as far. -/
theorem Exact.orNull {c : Codec α} (h : c.Exact) : c.orNull.Exact := by
  refine ⟨fun {v p rest} hrest hread => ?_⟩
  simp only [Codec.orNull, v.skipBlanks_text_append] at hread
  split at hread
  · rename_i t htext
    -- only `null` starts with this letter
    obtain rfl := WrittenValue.eq_null_of_text htext
    obtain rfl := (List.cons.inj htext).2
    cases hread
    rfl
  · obtain ⟨q, hq, rfl⟩ := map_eq_ok hread
    exact h.rest_eq hrest hq

/-- A string is read as a value that is not lacking. -/
theorem read_of_read_orNull {c : Codec α} {s : WrittenString} {rest : Text}
    {p : Option α × Text}
    (h : c.orNull.read ((WrittenValue.string s).text ++ rest) = .ok p) :
    ∃ q, c.read ((WrittenValue.string s).text ++ rest) = .ok q := by
  have hquote := (WrittenValue.string s).skipBlanks_text_append rest
  simp only [Codec.orNull, hquote] at h
  split at h
  · rename_i t htext
    cases WrittenValue.eq_null_of_text htext
  · obtain ⟨q, hq, -⟩ := map_eq_ok h
    exact ⟨q, hq⟩

/-- A value with nothing but blanks around it is a whole text. -/
theorem Accepts.parse {c : Codec α} {stands : WrittenValue → α → Prop} (h : c.Accepts stands)
    (hblanks : c.PassesBlanks) {p : Padded WrittenValue} {a : α} (hp : stands p.content a) :
    c.parse (p.before.text ++ (p.content.text ++ p.after.text)) = .ok a := by
  have hstops := p.after.stopsNumber stopsNumber_nil
  rw [List.append_nil] at hstops
  have hread := h.read_text hp hstops
  rw [← hblanks.read_append p.before] at hread
  simp only [Codec.parse, readAll, hread, bind, Except.bind, p.after.skipBlanks_text]
  rfl

end Codec

/-! ## Items -/

theorem readMoreItems_nil (item : Reader α) (fuel : Nat) (b : Blanks) (rest : Text) :
    readMoreItems item (fuel + 1) (b.text ++ (WrittenValue.moreItemsText [] ++ ']' :: rest)) =
      .ok ([], rest) := by
  simp only [WrittenValue.moreItemsText_nil, List.nil_append, readMoreItems, b.skipBlanks_append,
    skipBlanks_cons (c := ']') rfl]

/-- After a comma, an item is read, and then the items after it. -/
theorem readMoreItems_cons (item : Reader α) (fuel : Nat) (b : Blanks) (p : Padded WrittenValue)
    (ps : List (Padded WrittenValue)) (rest : Text) :
    readMoreItems item (fuel + 1) (b.text ++ (WrittenValue.moreItemsText (p :: ps) ++ ']' :: rest)) =
      (item (p.content.text ++ (p.after.text ++ (WrittenValue.moreItemsText ps ++ ']' :: rest)))).bind
        fun q => (readMoreItems item fuel q.2).map fun r => (q.1 :: r.1, r.2) := by
  obtain ⟨c, t, htext, hbracket, -⟩ := WrittenValue.exists_itemsText_eq p ps (']' :: rest)
  -- an item does not start with a bracket that closes the list, so the comma does not trail
  rw [← WrittenValue.itemsText_flush]
  simp only [WrittenValue.moreItemsText_cons, List.cons_append, readMoreItems, b.skipBlanks_append,
    skipBlanks_cons (c := ',') rfl, WrittenValue.skipBlanks_itemsText, htext]
  split
  · rename_i heq
    cases heq
  · rename_i heq
    exact absurd (List.cons.inj heq).1 hbracket
  · cases item (c :: t) with
    | error f => rfl
    | ok q =>
      show (readMoreItems item fuel q.2 >>= _) = (readMoreItems item fuel q.2).map _
      cases readMoreItems item fuel q.2 <;> rfl

theorem readItems_nil (item : Reader α) (b : Blanks) (rest : Text) :
    readItems item (b.text ++ (WrittenValue.itemsText [] ++ ']' :: rest)) = .ok ([], rest) := by
  simp only [WrittenValue.itemsText_nil, List.nil_append, readItems, b.skipBlanks_append,
    skipBlanks_cons (c := ']') rfl]

/-- The first item is read, and then the items after it. -/
theorem readItems_cons (item : Reader α) (b : Blanks) (p : Padded WrittenValue)
    (ps : List (Padded WrittenValue)) (rest : Text) :
    readItems item (b.text ++ (WrittenValue.itemsText (p :: ps) ++ ']' :: rest)) =
      (item (p.content.text ++ (p.after.text ++ (WrittenValue.moreItemsText ps ++ ']' :: rest)))).bind
        fun q => (readMoreItems item (q.2.length + 1) q.2).map fun r => (q.1 :: r.1, r.2) := by
  obtain ⟨c, t, htext, hbracket, -⟩ := WrittenValue.exists_itemsText_eq p ps (']' :: rest)
  rw [← WrittenValue.itemsText_flush]
  simp only [readItems, b.skipBlanks_append, WrittenValue.skipBlanks_itemsText, htext]
  split
  · rename_i heq
    cases heq
  · rename_i heq
    -- no item starts with the bracket that ends the list
    exact absurd (List.cons.inj heq).1 hbracket
  · cases item (c :: t) with
    | error f => rfl
    | ok q =>
      show (readMoreItems item (q.2.length + 1) q.2 >>= _) =
        (readMoreItems item (q.2.length + 1) q.2).map _
      cases readMoreItems item (q.2.length + 1) q.2 <;> rfl

/-- Each item takes up at least its comma, so the length of a text is fuel enough. -/
theorem WrittenValue.length_le_moreItemsText (ps : List (Padded WrittenValue)) :
    ps.length ≤ (moreItemsText ps).length := by
  induction ps with
  | nil => exact Nat.zero_le _
  | cons p ps ih =>
    simp only [moreItemsText_cons, itemsText_cons, List.length_cons, List.length_append]
    omega

namespace Codec

variable {c : Codec α}

/-- The items stand for these values, one for one. -/
def StandFor (stands : WrittenValue → α → Prop) (ps : List (Padded WrittenValue)) (as : List α) :
    Prop :=
  List.Forall₂ (fun p a => stands p.content a) ps as

/-- Items that stand for values are read one by one, up to the closing bracket. -/
theorem Accepts.readMoreItems {stands : WrittenValue → α → Prop} (h : c.Accepts stands)
    {ps : List (Padded WrittenValue)} {as : List α} (hps : StandFor stands ps as) {fuel : Nat}
    (hfuel : ps.length < fuel) (b : Blanks) (rest : Text) :
    Json.readMoreItems c.read fuel (b.text ++ (WrittenValue.moreItemsText ps ++ ']' :: rest)) =
      .ok (as, rest) := by
  induction hps generalizing fuel b with
  | nil =>
    obtain ⟨fuel, rfl⟩ := Nat.exists_eq_add_one_of_ne_zero (Nat.ne_zero_of_lt hfuel)
    exact readMoreItems_nil c.read fuel b rest
  | @cons p a ps as hp hps ih =>
    obtain ⟨fuel, rfl⟩ := Nat.exists_eq_add_one_of_ne_zero (Nat.ne_zero_of_lt hfuel)
    -- behind the item there are blanks and then a comma or the end, so a number ends there
    have hitem := h.read_text hp (p.after.stopsNumber (WrittenValue.stopsNumber_moreItems ps rest))
    rw [readMoreItems_cons, hitem]
    show (Json.readMoreItems c.read fuel _).map _ = _
    rw [ih (Nat.lt_of_succ_lt_succ hfuel)]
    rfl

/-- A list stands for the values that its items stand for. -/
theorem Accepts.list {stands : WrittenValue → α → Prop} (h : c.Accepts stands) :
    c.list.Accepts fun v as => ∃ inside items, v = .array inside items ∧ StandFor stands items as := by
  refine ⟨?_⟩
  rintro v as rest ⟨inside, items, rfl, hitems⟩ -
  have hopen := (WrittenValue.array inside items).skipBlanks_text_append rest
  rw [WrittenValue.text_array_append] at hopen ⊢
  simp only [Codec.list, hopen]
  cases hitems with
  | nil => exact readItems_nil c.read inside rest
  | @cons p a ps as hp hps =>
    have hitem := h.read_text hp (p.after.stopsNumber (WrittenValue.stopsNumber_moreItems ps rest))
    rw [readItems_cons, hitem]
    show (Json.readMoreItems c.read _ _).map _ = _
    rw [h.readMoreItems hps]
    · rfl
    · -- the text that is left has a comma for each item that is left
      have hle := WrittenValue.length_le_moreItemsText ps
      simp only [List.length_append]
      omega

/-- Items are read up to the closing bracket and no further. -/
theorem Exact.readMoreItems (h : c.Exact) {ps : List (Padded WrittenValue)} {fuel : Nat}
    {b : Blanks} {q : List α × Text} {rest : Text}
    (hread : Json.readMoreItems c.read fuel
      (b.text ++ (WrittenValue.moreItemsText ps ++ ']' :: rest)) = .ok q) : q.2 = rest := by
  induction ps generalizing fuel b q with
  | nil =>
    cases fuel with
    | zero => cases hread
    | succ fuel =>
      rw [readMoreItems_nil] at hread
      cases hread
      rfl
  | cons p ps ih =>
    cases fuel with
    | zero => cases hread
    | succ fuel =>
      rw [readMoreItems_cons] at hread
      obtain ⟨⟨a, u⟩, hitem, hread⟩ := bind_eq_ok hread
      obtain ⟨r, hmore, rfl⟩ := map_eq_ok hread
      -- an exact form leaves what stands behind the item
      obtain rfl : u = _ :=
        h.rest_eq (p.after.stopsNumber (WrittenValue.stopsNumber_moreItems ps rest)) hitem
      show r.2 = rest
      exact ih hmore

/-- A list is read up to its closing bracket. -/
theorem Exact.list (h : c.Exact) : c.list.Exact := by
  refine ⟨fun {v q rest} hrest hread => ?_⟩
  simp only [Codec.list, v.skipBlanks_text_append] at hread
  split at hread
  · cases hread
  · rename_i t htext
    -- only an array starts with a bracket
    obtain ⟨inside, items, rfl, rfl⟩ := WrittenValue.exists_array_of_text htext
    cases items with
    | nil =>
      rw [readItems_nil] at hread
      cases hread
      rfl
    | cons p ps =>
      rw [readItems_cons] at hread
      obtain ⟨⟨a, u⟩, hitem, hread⟩ := bind_eq_ok hread
      obtain ⟨r, hmore, rfl⟩ := map_eq_ok hread
      obtain rfl : u = _ :=
        h.rest_eq (p.after.stopsNumber (WrittenValue.stopsNumber_moreItems ps rest)) hitem
      show r.2 = rest
      exact h.readMoreItems hmore
  · cases hread

end Codec

/-! ## Members -/

theorem readMoreMembers_nil (member : σ → Reader σ) (fuel : Nat) (s : σ) (b : Blanks)
    (rest : Text) :
    readMoreMembers member (fuel + 1) s
      (b.text ++ (WrittenValue.moreMembersText [] ++ '\x7d' :: rest)) = .ok (s, rest) := by
  simp only [WrittenValue.moreMembersText_nil, List.nil_append, readMoreMembers, b.skipBlanks_append,
    skipBlanks_cons (c := '\x7d') rfl]

/-- After a comma, a member is read, and then the members after it. -/
theorem readMoreMembers_cons (member : σ → Reader σ) (fuel : Nat) (s : σ) (b : Blanks)
    (m : WrittenMember) (ms : List WrittenMember) (rest : Text) :
    readMoreMembers member (fuel + 1) s
      (b.text ++ (WrittenValue.moreMembersText (m :: ms) ++ '\x7d' :: rest)) =
      (member s (WrittenValue.memberText m ++ (m.2.after.text ++
        (WrittenValue.moreMembersText ms ++ '\x7d' :: rest)))).bind
        fun p => readMoreMembers member fuel p.1 p.2 := by
  have hmember := WrittenValue.skipBlanks_membersText m ms ('\x7d' :: rest)
  rw [WrittenValue.memberText_append, WrittenValue.text_string_append] at hmember ⊢
  simp only [WrittenValue.moreMembersText_cons, List.cons_append, readMoreMembers,
    b.skipBlanks_append, skipBlanks_cons (c := ',') rfl, hmember]
  rfl

theorem readMembers_nil (member : σ → Reader σ) (s : σ) (b : Blanks) (rest : Text) :
    readMembers member s (b.text ++ (WrittenValue.membersText [] ++ '\x7d' :: rest)) =
      .ok (s, rest) := by
  simp only [WrittenValue.membersText_nil, List.nil_append, readMembers, b.skipBlanks_append,
    skipBlanks_cons (c := '\x7d') rfl]

/-- The first member is read, and then the members after it. -/
theorem readMembers_cons (member : σ → Reader σ) (s : σ) (b : Blanks) (m : WrittenMember)
    (ms : List WrittenMember) (rest : Text) :
    readMembers member s (b.text ++ (WrittenValue.membersText (m :: ms) ++ '\x7d' :: rest)) =
      (member s (WrittenValue.memberText m ++ (m.2.after.text ++
        (WrittenValue.moreMembersText ms ++ '\x7d' :: rest)))).bind
        fun p => readMoreMembers member (p.2.length + 1) p.1 p.2 := by
  have hmember := WrittenValue.skipBlanks_membersText m ms ('\x7d' :: rest)
  rw [WrittenValue.memberText_append, WrittenValue.text_string_append] at hmember ⊢
  simp only [readMembers, b.skipBlanks_append, hmember]
  rfl

/-- From `s`, reading members one after the other leads to a state. -/
inductive RunsMembers (member : σ → Reader σ) : σ → List WrittenMember → σ → Prop where
  | nil (s : σ) : RunsMembers member s [] s
  | cons {s s' s'' : σ} {m : WrittenMember} {ms : List WrittenMember}
      (hmember : ∀ rest, StopsNumber rest →
        member s (WrittenValue.memberText m ++ rest) = .ok (s', rest))
      (hmore : RunsMembers member s' ms s'') : RunsMembers member s (m :: ms) s''

/-- Each member takes up at least its comma. -/
theorem WrittenValue.length_le_moreMembersText (ms : List WrittenMember) :
    ms.length ≤ (moreMembersText ms).length := by
  induction ms with
  | nil => exact Nat.zero_le _
  | cons m ms ih =>
    simp only [moreMembersText_cons, membersText_cons, List.length_cons, List.length_append]
    omega

/-- Members that a reader goes through are read up to the closing brace. -/
theorem RunsMembers.readMoreMembers {member : σ → Reader σ} {s s' : σ} {ms : List WrittenMember}
    (h : RunsMembers member s ms s') {fuel : Nat} (hfuel : ms.length < fuel) (b : Blanks)
    (rest : Text) :
    Json.readMoreMembers member fuel s
      (b.text ++ (WrittenValue.moreMembersText ms ++ '\x7d' :: rest)) = .ok (s', rest) := by
  -- each member takes one unit of fuel
  induction h generalizing fuel b with
  | nil s =>
    obtain ⟨fuel, rfl⟩ := Nat.exists_eq_add_one_of_ne_zero (Nat.ne_zero_of_lt hfuel)
    exact readMoreMembers_nil member fuel s b rest
  | @cons s s' s'' m ms hmember hmore ih =>
    obtain ⟨fuel, rfl⟩ := Nat.exists_eq_add_one_of_ne_zero (Nat.ne_zero_of_lt hfuel)
    rw [readMoreMembers_cons, hmember _
      (m.2.after.stopsNumber (WrittenValue.stopsNumber_moreMembers ms rest))]
    exact ih (Nat.lt_of_succ_lt_succ hfuel) m.2.after

/-- The members of an object are read one after the other, up to its end. -/
theorem RunsMembers.readMembers {member : σ → Reader σ} {s s' : σ} {ms : List WrittenMember}
    (h : RunsMembers member s ms s') (b : Blanks) (rest : Text) :
    Json.readMembers member s (b.text ++ (WrittenValue.membersText ms ++ '\x7d' :: rest)) =
      .ok (s', rest) := by
  cases h with
  | nil s => exact readMembers_nil member s b rest
  | @cons s s' s'' m ms hmember hmore =>
    rw [readMembers_cons, hmember _
      (m.2.after.stopsNumber (WrittenValue.stopsNumber_moreMembers ms rest))]
    refine hmore.readMoreMembers ?_ m.2.after rest
    -- a member is longer than one character, so the fuel lasts
    have hle := WrittenValue.length_le_moreMembersText ms
    simp only [List.length_append]
    omega

/-- Reading this member leaves just what follows it, if it succeeds. -/
def ExactMember (member : σ → Reader σ) (m : WrittenMember) : Prop :=
  ∀ {s : σ} {p : σ × Text} {rest : Text}, StopsNumber rest →
    member s (WrittenValue.memberText m ++ rest) = .ok p → p.2 = rest

/-- Reading this member succeeds at some place. -/
def ReadableMember (member : σ → Reader σ) (m : WrittenMember) : Prop :=
  ∃ s p rest, StopsNumber rest ∧ member s (WrittenValue.memberText m ++ rest) = .ok p

/-- Members are read up to the closing brace, each of them being one that can be read. -/
theorem readMoreMembers_exact {member : σ → Reader σ} {ms : List WrittenMember}
    (h : ∀ m, ExactMember member m) {fuel : Nat} {s : σ} {b : Blanks} {p : σ × Text} {rest : Text}
    (hread : readMoreMembers member fuel s
      (b.text ++ (WrittenValue.moreMembersText ms ++ '\x7d' :: rest)) = .ok p) :
    p.2 = rest ∧ ∀ m ∈ ms, ReadableMember member m := by
  induction ms generalizing fuel s b with
  | nil =>
    cases fuel with
    | zero => cases hread
    | succ fuel =>
      rw [readMoreMembers_nil] at hread
      cases hread
      simp
  | cons m ms ih =>
    cases fuel with
    | zero => cases hread
    | succ fuel =>
      have hstops := m.2.after.stopsNumber (WrittenValue.stopsNumber_moreMembers ms rest)
      rw [readMoreMembers_cons] at hread
      obtain ⟨⟨s', u⟩, hmember, hread⟩ := bind_eq_ok hread
      -- the members that follow are still all there
      obtain rfl : u = _ := h m hstops hmember
      obtain ⟨hrest, hms⟩ := ih hread
      exact ⟨hrest, List.forall_mem_cons.mpr ⟨⟨s, _, _, hstops, hmember⟩, hms⟩⟩

/-- Where an object is read, each of its members is read, and the object is consumed. -/
theorem readMembers_exact {member : σ → Reader σ} {ms : List WrittenMember}
    (h : ∀ m, ExactMember member m) {s : σ} {b : Blanks} {p : σ × Text} {rest : Text}
    (hread : readMembers member s
      (b.text ++ (WrittenValue.membersText ms ++ '\x7d' :: rest)) = .ok p) :
    p.2 = rest ∧ ∀ m ∈ ms, ReadableMember member m := by
  cases ms with
  | nil =>
    rw [readMembers_nil] at hread
    cases hread
    simp
  | cons m ms =>
    have hstops := m.2.after.stopsNumber (WrittenValue.stopsNumber_moreMembers ms rest)
    rw [readMembers_cons] at hread
    obtain ⟨⟨s', u⟩, hmember, hread⟩ := bind_eq_ok hread
    obtain rfl : u = _ := h m hstops hmember
    obtain ⟨hrest, hms⟩ := readMoreMembers_exact h hread
    exact ⟨hrest, List.forall_mem_cons.mpr ⟨⟨s, _, _, hstops, hmember⟩, hms⟩⟩

end NamingLint.Json
