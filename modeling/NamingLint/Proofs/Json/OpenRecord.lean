import NamingLint.Proofs.Json.Accept

/-!
# NamingLint — records among other members

A record is read from an object that has the members of the record in any order, with any number of
other members between them. Members that have the value they have when they are absent may be left
out.

* `GivesRecord` — the members of an object give a record.

Main results:

* `Members.accepts` — the codec of a record reads it from every such object.
* `Members.exact` — it consumes just one value, be it an object, a list or something else.
* `Members.read_of_mem`, `Members.read_of_head` — where a record is read, its members are read.
-/

namespace NamingLint.Json

/-- The characters that the key of a member stands for. -/
def keyText (x : WrittenMember) : Option Text :=
  x.1.content.decode

section

variable {κ : Type} {T : κ → Type}

/-- The members of an object give a record, where `stands` tells the values of members from their
texts. Members that have another key than the labels may stand among them. -/
structure GivesRecord (label : κ → String) (default : (k : κ) → T k)
    (stands : (k : κ) → WrittenValue → T k → Prop) (xs : List WrittenMember)
    (r : (k : κ) → T k) : Prop where
  /-- Every key stands for some characters. -/
  key : ∀ x ∈ xs, ∃ t, keyText x = some t
  /-- No label stands twice. -/
  once : xs.Pairwise fun x y =>
    ∀ k, keyText x = some (label k).toList → keyText y ≠ some (label k).toList
  value : ∀ x ∈ xs, ∀ k, keyText x = some (label k).toList → stands k x.2.content (r k)
  absent : ∀ k, (∀ x ∈ xs, keyText x ≠ some (label k).toList) → r k = default k

namespace GivesRecord

variable {label : κ → String} {default r r' : (k : κ) → T k}
  {stands : (k : κ) → WrittenValue → T k → Prop} {xs : List WrittenMember} {x : WrittenMember}

/-- An object without members gives what is there by default. -/
theorem nil : GivesRecord label default stands [] default :=
  ⟨nofun, .nil, nofun, fun _ _ => rfl⟩

/-- One more member with another key changes nothing. -/
theorem other (h : GivesRecord label default stands xs r) {t : Text} (hkey : keyText x = some t)
    (hother : ∀ k, t ≠ (label k).toList) : GivesRecord label default stands (x :: xs) r := by
  -- the new member has the label of no key
  have hx : ∀ k, keyText x ≠ some (label k).toList := by
    intro k hk
    rw [hkey] at hk
    exact hother k (Option.some.inj hk)
  refine ⟨List.forall_mem_cons.mpr ⟨⟨t, hkey⟩, h.key⟩,
    List.pairwise_cons.mpr ⟨fun y _ k hk => absurd hk (hx k), h.once⟩,
    List.forall_mem_cons.mpr ⟨fun k hk => absurd hk (hx k), h.value⟩, ?_⟩
  intro k hk
  exact h.absent k (List.forall_mem_cons.mp hk).2

/-- One more member with a new label changes the value under that label. -/
theorem member (hlabel : ∀ j k, (label j).toList = (label k).toList → j = k)
    (h : GivesRecord label default stands xs r) {k : κ}
    (hkey : keyText x = some (label k).toList)
    (hnew : ∀ y ∈ xs, keyText y ≠ some (label k).toList) (hvalue : stands k x.2.content (r' k))
    (hkeep : ∀ j, j ≠ k → r' j = r j) : GivesRecord label default stands (x :: xs) r' := by
  -- the new member has the label of this key only
  have hx : ∀ {j}, keyText x = some (label j).toList → j = k := by
    intro j hj
    rw [hkey] at hj
    exact hlabel j k (Option.some.inj hj).symm
  refine ⟨List.forall_mem_cons.mpr ⟨⟨_, hkey⟩, h.key⟩,
    List.pairwise_cons.mpr ⟨?_, h.once⟩, List.forall_mem_cons.mpr ⟨?_, ?_⟩, ?_⟩
  · intro y hy j hj
    rw [hx hj]
    exact hnew y hy
  · intro j hj
    obtain rfl := hx hj
    exact hvalue
  · intro y hy j hj
    have hne : j ≠ k := by
      rintro rfl
      exact hnew y hy hj
    rw [hkeep j hne]
    exact h.value y hy j hj
  · intro j hj
    obtain ⟨hxj, hxs⟩ := List.forall_mem_cons.mp hj
    have hne : j ≠ k := by
      rintro rfl
      exact hxj hkey
    rw [hkeep j hne, h.absent j hxs]

end GivesRecord

namespace Members

variable {m : Members κ T}

/-! ## One member -/

/-- A key is read like a string. -/
theorem readKey_memberText (x : WrittenMember) (rest : Text) :
    readKey (WrittenValue.memberText x ++ rest) =
      readString (x.1.content.inner ++ '"' :: (x.1.after.text ++
        ':' :: (x.2.before.text ++ (x.2.content.text ++ rest)))) := by
  rw [WrittenValue.memberText_append, WrittenValue.text_string_append, readKey]

/-- The key of a member is read as what it stands for, and only so. -/
theorem readKey_memberText_iff {x : WrittenMember} {rest : Text} {p : Text × Text} :
    readKey (WrittenValue.memberText x ++ rest) = .ok p ↔ keyText x = some p.1 ∧
      p.2 = x.1.after.text ++ ':' :: (x.2.before.text ++ (x.2.content.text ++ rest)) := by
  rw [readKey_memberText, readString_inner_iff, keyText]

/-- A key with a text is read, up to the colon. -/
theorem readKey_of_keyText {x : WrittenMember} {t : Text} (h : keyText x = some t) (rest : Text) :
    readKey (WrittenValue.memberText x ++ rest) = .ok (t, x.1.after.text ++
      ':' :: (x.2.before.text ++ (x.2.content.text ++ rest))) :=
  readKey_memberText_iff.mpr ⟨h, rfl⟩

variable [DecidableEq κ]

/-- A member with another key is skipped. -/
theorem readMember_other {x : WrittenMember} {t : Text} (hkey : keyText x = some t)
    (hother : m.keyOf? t = none) (d : Draft T) {rest : Text} (hrest : StopsNumber rest) :
    m.readMember d (WrittenValue.memberText x ++ rest) = .ok (d, rest) := by
  simp only [readMember, readKey_of_keyText hkey, bind, Except.bind, hother, readColon_append,
    skipValue_text x.2.before x.2.content hrest]
  rfl

/-- A member with a label is read by the codec of its key. -/
theorem readMember_known (hlabels : (m.keys.map m.label).Nodup) {x : WrittenMember} {k : κ}
    (hkey : keyText x = some (m.label k).toList) {d : Draft T} (hd : d k = none) {v : T k}
    {rest : Text}
    (hread : (m.form k).read (x.2.before.text ++ (x.2.content.text ++ rest)) = .ok (v, rest)) :
    m.readMember d (WrittenValue.memberText x ++ rest) = .ok (d.set k v, rest) := by
  have hk : m.keyOf? (m.label k).toList = some k := (keyOf?_eq_some_iff hlabels).mpr rfl
  simp only [readMember, readKey_of_keyText hkey, bind, Except.bind, hk, hd, readColon_append, hread]
  rfl

/-- A member that is read has a key that stands for something. If that is a label, the codec of its
key has read the value. -/
theorem exists_of_readMember {d d' : Draft T} {x : WrittenMember} {u rest : Text}
    (h : m.readMember d (WrittenValue.memberText x ++ rest) = .ok (d', u)) :
    ∃ t, keyText x = some t ∧
      ((m.keyOf? t = none ∧ skipValue (x.2.before.text ++ (x.2.content.text ++ rest)) = .ok u) ∨
        ∃ k v, m.keyOf? t = some k ∧
          (m.form k).read (x.2.before.text ++ (x.2.content.text ++ rest)) = .ok (v, u)) := by
  obtain ⟨⟨t, w⟩, hkey, h⟩ := bind_eq_ok h
  obtain ⟨hkey, rfl⟩ := readKey_memberText_iff.mp hkey
  refine ⟨t, hkey, ?_⟩
  dsimp only at h
  split at h
  · -- skipped if it is not known, else read in the form of its key
    rename_i hother
    rw [readColon_append] at h
    obtain ⟨w, hskip, h⟩ := bind_eq_ok (x := skipValue _) h
    cases h
    exact .inl ⟨hother, hskip⟩
  · rename_i k hk
    split at h
    · cases h
    · rw [readColon_append] at h
      obtain ⟨⟨v, w⟩, hread, h⟩ := bind_eq_ok (x := (m.form k).read _) h
      cases h
      exact .inr ⟨k, v, hk, hread⟩

/-- Members of an open record are read to their end, whether they are known or not. -/
theorem exactMember (hforms : ∀ k, (m.form k).Exact) (hblanks : ∀ k, (m.form k).PassesBlanks)
    (x : WrittenMember) : ExactMember m.readMember x := by
  rintro d ⟨d', u⟩ rest hrest h
  obtain ⟨t, -, ⟨-, hskip⟩ | ⟨k, v, -, hread⟩⟩ := exists_of_readMember h
  · -- an unknown member is skipped
    rw [skipValue_text x.2.before x.2.content hrest] at hskip
    exact (Except.ok.inj hskip).symm
  · -- a known one is read in its own form
    rw [(hblanks k).read_append] at hread
    exact (hforms k).rest_eq hrest hread

/-! ## Objects -/

/-- The members of an object are read into a draft that has none of them yet. -/
theorem runsMembers (hlabels : (m.keys.map m.label).Nodup)
    {stands : (k : κ) → WrittenValue → T k → Prop} (hforms : ∀ k, (m.form k).Accepts (stands k))
    (hblanks : ∀ k, (m.form k).PassesBlanks) {r : (k : κ) → T k} {xs : List WrittenMember}
    (hkey : ∀ x ∈ xs, ∃ t, keyText x = some t)
    (honce : xs.Pairwise fun x y =>
      ∀ k, keyText x = some (m.label k).toList → keyText y ≠ some (m.label k).toList)
    (hvalue : ∀ x ∈ xs, ∀ k, keyText x = some (m.label k).toList → stands k x.2.content (r k))
    {d : Draft T} (hd : ∀ x ∈ xs, ∀ k, keyText x = some (m.label k).toList → d k = none) :
    ∃ d', RunsMembers m.readMember d xs d' ∧ ∀ k,
      ((∃ x ∈ xs, keyText x = some (m.label k).toList) → d' k = some (r k)) ∧
      ((∀ x ∈ xs, keyText x ≠ some (m.label k).toList) → d' k = d k) := by
  induction xs generalizing d with
  | nil => exact ⟨d, .nil d, fun k => ⟨by simp, fun _ => rfl⟩⟩
  | cons x xs ih =>
    rw [List.forall_mem_cons] at hkey hvalue hd
    obtain ⟨honce, hmore⟩ := List.pairwise_cons.mp honce
    obtain ⟨t, ht⟩ := hkey.1
    have hlabel : ∀ {k}, keyText x = some (m.label k).toList ↔ m.keyOf? t = some k := by
      intro k
      rw [ht, Option.some.injEq, keyOf?_eq_some_iff hlabels]
    cases hk : m.keyOf? t with
    | none =>
      -- another key: the draft stays as it is
      obtain ⟨d', hruns, hd'⟩ := ih hkey.2 hmore hvalue.2 hd.2
      refine ⟨d', .cons (fun rest hrest => readMember_other ht hk d hrest) hruns, ?_⟩
      intro k
      have hx : keyText x ≠ some (m.label k).toList := by
        rw [Ne, hlabel, hk]
        exact nofun
      simpa [hx] using hd' k
    | some k =>
      -- a label: its member is added, and no other member has the label
      have hx : keyText x = some (m.label k).toList := hlabel.mpr hk
      have hset : ∀ y ∈ xs, ∀ j, keyText y = some (m.label j).toList →
          d.set k (r k) j = none := by
        intro y hy j hj
        have hne : j ≠ k := by
          rintro rfl
          exact honce y hy j hx hj
        rw [Draft.set_of_ne d hne, hd.2 y hy j hj]
      obtain ⟨d', hruns, hd'⟩ := ih hkey.2 hmore hvalue.2 hset
      refine ⟨d', .cons (fun rest hrest => readMember_known hlabels hx (hd.1 k hx) ?_) hruns, ?_⟩
      · rw [(hblanks k).read_append, (hforms k).read_text (hvalue.1 k hx) hrest]
      · intro j
        by_cases hjk : j = k
        · subst hjk
          have hself := (hd' j).2 fun y hy => honce y hy j hx
          rw [Draft.set_self] at hself
          simp [hself, hx]
        · have hxj : keyText x ≠ some (m.label j).toList := by
            rw [Ne, hlabel, hk, Option.some.injEq]
            exact fun h => hjk h.symm
          have hother := hd' j
          rw [Draft.set_of_ne d hjk] at hother
          simpa [hxj] using hother

theorem codec_read (t : Text) : m.codec.read t = m.read t :=
  rfl

/-- A record is read from its members, in any order and among others. -/
theorem accepts (hlabels : (m.keys.map m.label).Nodup) {default : (k : κ) → T k}
    (habsent : ∀ k, m.absent k = some (default k))
    {stands : (k : κ) → WrittenValue → T k → Prop} (hforms : ∀ k, (m.form k).Accepts (stands k))
    (hblanks : ∀ k, (m.form k).PassesBlanks) :
    m.codec.Accepts fun v r => ∃ inside xs, v = .object inside xs ∧
      GivesRecord m.label default stands xs r := by
  refine ⟨?_⟩
  rintro v r rest ⟨inside, xs, rfl, hgives⟩ -
  obtain ⟨d, hruns, hd⟩ := runsMembers hlabels hforms hblanks hgives.key hgives.once hgives.value
    (d := Draft.empty) fun _ _ _ _ => rfl
  -- given by a member, or by the default
  have hvalue : ∀ k, m.valueOf d k = some (r k) := by
    intro k
    by_cases hmem : ∃ x ∈ xs, keyText x = some (m.label k).toList
    · rw [valueOf, (hd k).1 hmem]
      rfl
    · have hnone : ∀ x ∈ xs, keyText x ≠ some (m.label k).toList :=
        fun x hx hlabel => hmem ⟨x, hx, hlabel⟩
      rw [valueOf, (hd k).2 hnone, hgives.absent k hnone]
      exact habsent k
  have hopen := (WrittenValue.object inside xs).skipBlanks_text_append rest
  rw [WrittenValue.text_object_append] at hopen ⊢
  rw [codec_read]
  simp only [Members.read, hopen, readObject, hruns.readMembers, bind, Except.bind,
    complete_eq_ok hvalue]
  rfl

/-! ## Lists -/

/-- What is left of a list: its items from the first on, or items after a comma. -/
def listText (isFirst : Bool) (b : Blanks) (ps : List (Padded WrittenValue)) (rest : Text) : Text :=
  b.text ++ ((if isFirst then WrittenValue.itemsText ps else WrittenValue.moreItemsText ps) ++
    ']' :: rest)

/-- A list without items ends. -/
theorem nextItem?_nil (isFirst : Bool) (b : Blanks) (rest : Text) :
    nextItem? isFirst (listText isFirst b [] rest) = .ok none := by
  cases isFirst <;>
    simp only [listText, nextItem?, b.skipBlanks_append, WrittenValue.itemsText_nil,
      WrittenValue.moreItemsText_nil, ite_self, List.nil_append, skipBlanks_cons (c := ']') rfl]

/-- The next item, with what follows it. -/
theorem nextItem?_cons (isFirst : Bool) (b : Blanks) (p : Padded WrittenValue)
    (ps : List (Padded WrittenValue)) (rest : Text) :
    nextItem? isFirst (listText isFirst b (p :: ps) rest) =
      .ok (some (p.content.text ++ listText false p.after ps rest)) := by
  have hitems := WrittenValue.skipBlanks_itemsText p ps (']' :: rest)
  have hflush := WrittenValue.itemsText_flush p ps (']' :: rest)
  obtain ⟨c, t, htext, hbracket, hcomma⟩ := WrittenValue.exists_itemsText_eq p ps (']' :: rest)
  -- the item is handed out with the blanks in front of it gone
  have hnext : p.content.text ++ listText false p.after ps rest = c :: t := by
    rw [← htext, hflush]
    rfl
  rw [htext] at hitems
  rw [hnext]
  cases isFirst with
  | true =>
    have hlist : skipBlanks (listText true b (p :: ps) rest) = c :: t := by
      rw [listText, b.skipBlanks_append, if_pos rfl, hitems]
    rw [nextItem?, hlist]
    split
    · rename_i heq
      cases heq
    · rename_i heq
      exact absurd (List.cons.inj heq).1 hbracket
    · rfl
  | false =>
    have hlist : skipBlanks (listText false b (p :: ps) rest) =
        ',' :: (WrittenValue.itemsText (p :: ps) ++ ']' :: rest) := by
      rw [listText, b.skipBlanks_append, if_neg (by decide), WrittenValue.moreItemsText_cons,
        List.cons_append, skipBlanks_cons (c := ',') rfl]
    rw [nextItem?, hlist]
    split
    · rename_i heq
      cases heq
    · rename_i heq
      exact absurd (List.cons.inj heq).1 (by decide)
    · simp only [Bool.false_eq_true, if_false, hitems]
      split
      · rename_i heq
        cases heq
      · rename_i heq
        exact absurd (List.cons.inj heq).1 hbracket
      · rfl

/-- A list is closed only where it has no more items. -/
theorem rest_of_readListEnd {isFirst : Bool} {b : Blanks} {ps : List (Padded WrittenValue)}
    {u rest : Text} (h : readListEnd (listText isFirst b ps rest) = .ok u) : u = rest := by
  rw [readListEnd, listText, b.skipBlanks_append] at h
  cases ps with
  | nil =>
    rw [WrittenValue.itemsText_nil, WrittenValue.moreItemsText_nil, ite_self, List.nil_append,
      skipBlanks_cons (c := ']') rfl] at h
    cases h
    rfl
  | cons p ps =>
    -- another item or the comma before it stands where the end should be
    cases isFirst with
    | true =>
      obtain ⟨c, t, htext, hbracket, hcomma⟩ := WrittenValue.exists_itemsText_eq p ps (']' :: rest)
      rw [if_pos rfl, WrittenValue.skipBlanks_itemsText, htext] at h
      split at h
      · cases h
      · rename_i heq
        exact absurd (List.cons.inj heq).1 hbracket
      · rename_i heq
        exact absurd (List.cons.inj heq).1 hcomma
      · cases h
    | false =>
      rw [if_neg (by decide), WrittenValue.moreItemsText_cons, List.cons_append,
        skipBlanks_cons (c := ',') rfl] at h
      split at h
      · cases h
      · rename_i heq
        exact absurd (List.cons.inj heq).1 (by decide)
      · split at h <;> cases h
      · cases h

/-- Whatever items are read, what is left is a part of the list. -/
theorem exists_of_readElements (hforms : ∀ k, (m.form k).Exact) {ks : List κ} {isFirst : Bool}
    {d d' : Draft T} {b : Blanks} {ps : List (Padded WrittenValue)} {u rest : Text}
    (h : m.readElements ks isFirst d (listText isFirst b ps rest) = .ok (d', u)) :
    ∃ isFirst' b' ps', u = listText isFirst' b' ps' rest := by
  induction ks generalizing isFirst d b ps with
  | nil =>
    cases h
    exact ⟨isFirst, b, ps, rfl⟩
  | cons k ks ih =>
    rw [readElements] at h
    cases ps with
    | nil =>
      rw [nextItem?_nil] at h
      cases h
      exact ⟨isFirst, b, [], rfl⟩
    | cons p ps =>
      rw [nextItem?_cons] at h
      obtain ⟨⟨v, w⟩, hread, h⟩ := bind_eq_ok (x := (m.form k).read _) h
      -- the form of the item leaves the rest of the list
      obtain rfl : w = _ :=
        (hforms k).rest_eq (p.after.stopsNumber (WrittenValue.stopsNumber_moreItems ps rest)) hread
      exact ih h

/-! ## Either form -/

/-- Whatever is written for a record or in its place, reading takes one value or fails. -/
theorem exact (hforms : ∀ k, (m.form k).Exact) (hblanks : ∀ k, (m.form k).PassesBlanks) :
    m.codec.Exact := by
  refine ⟨fun {v p rest} hrest h => ?_⟩
  rw [codec_read, Members.read, v.skipBlanks_text_append] at h
  split at h
  · cases h
  · -- a list
    rename_i t htext
    obtain ⟨inside, items, rfl, rfl⟩ := WrittenValue.exists_array_of_text htext
    obtain ⟨⟨d, u⟩, helements, h⟩ := bind_eq_ok h
    change m.readElements m.keys true Draft.empty (listText true inside items rest) = _ at helements
    obtain ⟨isFirst, b, ps, rfl⟩ := exists_of_readElements hforms helements
    dsimp only at h
    split at h
    · obtain ⟨w, hend, h⟩ := bind_eq_ok h
      cases h
      exact rest_of_readListEnd hend
    · cases h
  · -- an object
    rename_i t htext
    obtain ⟨inside, xs, rfl, rfl⟩ := WrittenValue.exists_object_of_text htext
    obtain ⟨⟨d, u⟩, hmembers, h⟩ := bind_eq_ok h
    have hend := (readMembers_exact (exactMember hforms hblanks) hmembers).1
    dsimp only at h hend
    split at h
    · cases h
      exact hend
    · cases h
  · cases h

/-- Where a record is read from an object, the value under each label is read. -/
theorem read_of_mem (hlabels : (m.keys.map m.label).Nodup) (hforms : ∀ k, (m.form k).Exact)
    (hblanks : ∀ k, (m.form k).PassesBlanks) {inside : Blanks} {xs : List WrittenMember}
    {rest : Text} {p : ((k : κ) → T k) × Text}
    (h : m.codec.read ((WrittenValue.object inside xs).text ++ rest) = .ok p) {x : WrittenMember}
    (hx : x ∈ xs) {k : κ} (hkey : keyText x = some (m.label k).toList) :
    ∃ q rest', StopsNumber rest' ∧ (m.form k).read (x.2.content.text ++ rest') = .ok q := by
  have hopen := (WrittenValue.object inside xs).skipBlanks_text_append rest
  rw [WrittenValue.text_object_append] at hopen h
  rw [codec_read, Members.read, hopen] at h
  obtain ⟨⟨d, u⟩, hmembers, -⟩ := bind_eq_ok (x := readMembers m.readMember Draft.empty _) h
  obtain ⟨s, ⟨d', w⟩, rest', hrest', hread⟩ :=
    (readMembers_exact (exactMember hforms hblanks) hmembers).2 x hx
  obtain ⟨t, ht, ⟨hother, -⟩ | ⟨j, v, hj, hvalue⟩⟩ := exists_of_readMember hread
  · -- the label is one of the keys
    rw [hkey] at ht
    rw [(keyOf?_eq_some_iff hlabels).mpr (Option.some.inj ht).symm] at hother
    cases hother
  · rw [hkey] at ht
    rw [(keyOf?_eq_some_iff hlabels).mpr (Option.some.inj ht).symm] at hj
    cases hj
    rw [(hblanks k).read_append] at hvalue
    exact ⟨_, rest', hrest', hvalue⟩

/-- Where a record is read from a list, the first item is read as the first member. -/
theorem read_of_head {k : κ} {ks : List κ} (hkeys : m.keys = k :: ks) {inside : Blanks}
    {i : Padded WrittenValue} {items : List (Padded WrittenValue)} {rest : Text}
    {p : ((k : κ) → T k) × Text}
    (h : m.codec.read ((WrittenValue.array inside (i :: items)).text ++ rest) = .ok p) :
    ∃ q rest', StopsNumber rest' ∧ (m.form k).read (i.content.text ++ rest') = .ok q := by
  have hopen := (WrittenValue.array inside (i :: items)).skipBlanks_text_append rest
  rw [WrittenValue.text_array_append] at hopen h
  rw [codec_read, Members.read, hopen] at h
  obtain ⟨⟨d, u⟩, helements, -⟩ := bind_eq_ok (x := m.readElements m.keys true Draft.empty _) h
  -- the first item of an array is read for the first key
  rw [hkeys, readElements] at helements
  change (nextItem? true (listText true inside (i :: items) rest) >>= _) = _ at helements
  rw [nextItem?_cons] at helements
  obtain ⟨q, hread, -⟩ := bind_eq_ok (x := (m.form k).read _) helements
  exact ⟨q, _, i.after.stopsNumber (WrittenValue.stopsNumber_moreItems items rest), hread⟩

end Members

end

end NamingLint.Json
