import NamingLint.Proofs.Json.Faithful

/-!
# NamingLint — any JSON value, read back

A value without doubles is read back from its text, in either layout, if no more brackets are open at
a time than the reader has room for.

* `Value.IsPlain` — what such a value is: its integers are those of 64-bit words, and the members of
  its objects are sorted by key.

Main results:

* `Value.sortedObject_eq` — members that are sorted stay as they are.
* `readsBack_any` — plain values are read back.
-/

namespace NamingLint.Json

/-! ## Plain values -/

/-- A value without doubles, with at most `room` brackets open at a time. Integers are in the range
of 64-bit words, signed or unsigned, and members are sorted by key. -/
def Value.IsPlain : Nat → Value → Prop
  | _, .null => True
  | _, .bool _ => True
  | _, .number (.int n) => -9223372036854775808 ≤ n ∧ n ≤ Numeral.greatest
  | _, .number (.double _) => False
  | _, .string _ => True
  | 0, .array _ => False
  | 0, .object _ => False
  | room + 1, .array vs => ∀ v ∈ vs, v.IsPlain room
  | room + 1, .object ms =>
    (ms.map Prod.fst).Pairwise (· < ·) ∧ ∀ m ∈ ms, m.2.IsPlain room

/-- The form of any value, with room for some brackets. -/
def Codec.any (room : Nat) : Codec Value where
  write := id
  read := readValue room

/-! ## Sorted members -/

namespace Value

/-- A member whose key is greater than the others goes to the end. -/
theorem insertMember_of_lt {key : String} (v : Value) {ms : List (String × Value)}
    (h : ∀ m ∈ ms, m.1 < key) : insertMember key v ms = ms ++ [(key, v)] := by
  induction ms with
  | nil => rfl
  | cons m ms ih =>
    obtain ⟨k, w⟩ := m
    have hk : k < key := h (k, w) List.mem_cons_self
    -- the key comes behind all that are there
    have hne : key ≠ k := by
      rintro rfl
      exact String.lt_irrefl key hk
    rw [insertMember, if_neg (String.lt_asymm hk), if_neg hne,
      ih fun m hm => h m (List.mem_cons_of_mem _ hm)]
    rfl

/-- Members that are sorted by key stay as they are. -/
theorem sortedObject_eq {ms : List (String × Value)}
    (h : (ms.map Prod.fst).Pairwise (· < ·)) : sortedObject ms = .object ms := by
  -- the members that are inserted already come before all others
  have hfold : ∀ done : List (String × Value), (∀ m ∈ done, ∀ m' ∈ ms, m.1 < m'.1) →
      ms.foldl (fun ms m => insertMember m.1 m.2 ms) done = done ++ ms := by
    induction ms with
    | nil => exact fun done _ => (List.append_nil done).symm
    | cons m ms ih =>
      intro done hdone
      rw [List.map_cons, List.pairwise_cons] at h
      have hinsert : insertMember m.1 m.2 done = done ++ [m] :=
        insertMember_of_lt m.2 fun d hd => hdone d hd m List.mem_cons_self
      rw [List.foldl_cons, hinsert, ih h.2, List.append_assoc]
      · rfl
      · intro d hd m' hm'
        rcases List.mem_append.mp hd with hd | hd
        · exact hdone d hd m' (List.mem_cons_of_mem m hm')
        · rw [List.mem_singleton.mp hd]
          exact h.1 m'.1 (List.mem_map_of_mem hm')
  rw [sortedObject, hfold [] (by simp)]
  rfl

end Value

/-! ## Numbers -/

/-- Negative integers are read back if they are in range. -/
theorem readNumber_negative {n : Nat} (h : n + 1 ≤ 9223372036854775808) {rest : Text}
    (hrest : StopsNumber rest) :
    readNumber true (Nat.toDigits 10 (n + 1) ++ rest) = .ok (.int (.negSucc n), rest) := by
  have hgreatest : n + 1 ≤ Numeral.greatest := by
    unfold Numeral.greatest
    omega
  have hvalue : Numeral.value true ⟨Nat.toDigits 10 (n + 1), [], none⟩ rest =
      .ok (.int (.negSucc n)) := by
    -- minus zero would be a float, and so would what is out of range
    have hrange : ¬(n + 1 = 0 ∨ 9223372036854775808 < n + 1) := by omega
    simp only [Numeral.value, Numeral.collect_toDigits hgreatest, Numeral.integer?, and_self,
      if_true, Bool.not_true, Bool.false_eq_true, if_false, if_neg hrange]
    rfl
  simp only [readNumber, Numeral.read_toDigits .endInValue (n + 1) hrest, hvalue, bind, Except.bind]
  rfl

/-! ## Values -/

/-- The readers of lists and objects that a value with some room is read by. -/
theorem exists_readValueWith (room : Nat) :
    ∃ list object, readValue room = readValueWith list object := by
  cases room with
  | zero => exact ⟨_, _, rfl⟩
  | succ room => exact ⟨_, _, rfl⟩

/-- Integers in range are read back. -/
theorem readValue_number (room : Nat) {n : Int} (hlow : -9223372036854775808 ≤ n)
    (hhigh : n ≤ Numeral.greatest) {rest : Text} (hrest : StopsNumber rest) :
    readValue room ((Number.int n).text ++ rest) = .ok (.number (.int n), rest) := by
  obtain ⟨list, object, hread⟩ := exists_readValueWith room
  rw [hread]
  cases n with
  | ofNat n =>
    have hnumber := readNumber_toDigits (Int.ofNat_le.mp hhigh) hrest
    obtain ⟨c, ds, hds, hdigit⟩ := Codec.exists_toDigits_eq n
    -- the reader asks for the first characters of other values first
    have hword : c ≠ 'n' ∧ c ≠ 't' ∧ c ≠ 'f' ∧ c ≠ '-' := by
      refine ⟨?_, ?_, ?_, ?_⟩ <;>
      · rintro rfl
        exact absurd hdigit (by decide)
    show readValueWith list object (Nat.toDigits 10 n ++ rest) = _
    rw [hds, List.cons_append] at hnumber ⊢
    simp only [readValueWith, skipBlanks_cons (Codec.isBlank_of_isDigit hdigit), if_neg hword.1,
      if_neg hword.2.1, if_neg hword.2.2.1, if_neg hword.2.2.2, hdigit, if_true, hnumber, Except.map]
    rfl
  | negSucc n =>
    have hnumber := readNumber_negative (n := n) (by omega) hrest
    show readValueWith list object ('-' :: (Nat.toDigits 10 (n + 1) ++ rest)) = _
    have hminus : ∀ t, skipBlanks ('-' :: t) = '-' :: t := skipBlanks_cons rfl
    simp only [readValueWith, hminus, hnumber, Except.map]
    rfl

/-- The written members of an object are added one after the other. -/
theorem readsMembers_any {room : Nat} {fits : Value → Prop}
    (h : (Codec.any room).ReadsBack fits) (l : Layout) (level : Nat)
    {ms : List (String × Value)} (hms : ∀ m ∈ ms, fits m.2) (done : List (String × Value)) :
    ReadsMembers (readAnyMember (readValue room)) l level done ms (done ++ ms) := by
  induction ms generalizing done with
  | nil =>
    rw [List.append_nil]
    exact .nil done
  | cons m ms ih =>
    obtain ⟨k, v⟩ := m
    have hrest := ih (fun m hm => hms m (List.mem_cons_of_mem _ hm)) (done ++ [(k, v)])
    rw [List.append_assoc, List.singleton_append] at hrest
    -- members are collected in the order they are read
    refine .cons (fun rest hstops => ?_) hrest
    obtain ⟨u, hcolon, hvalue⟩ := h.read_member (hms (k, v) List.mem_cons_self) l level hstops
    have hwrite : (Codec.any room).write v = v := rfl
    have hreader : (Codec.any room).read u = readValue room u := rfl
    rw [hwrite] at hcolon
    rw [hreader] at hvalue
    simp only [readAnyMember, readKey_writeString, bind, Except.bind, hcolon, hvalue,
      String.ofList_toList]
    rfl

/-- An integer starts with a digit or a minus. -/
theorem opens_number (n : Int) : (Value.number (.int n)).Opens := by
  intro l level
  cases n with
  | ofNat n =>
    obtain ⟨c, ds, hds, hdigit⟩ := Codec.exists_toDigits_eq n
    refine ⟨c, ds, hds, Codec.isBlank_of_isDigit hdigit, ?_⟩
    rintro rfl
    exact absurd hdigit (by decide)
  | negSucc n => exact ⟨'-', _, rfl, rfl, by decide⟩

/-- A plain value starts with no blank and with no end of a list. -/
theorem opens_of_isPlain {room : Nat} {v : Value} (h : v.IsPlain room) : v.Opens := by
  intro l level
  cases v with
  | null => exact ⟨'n', "ull".toList, rfl, rfl, by decide⟩
  | bool b => exact Codec.faithful_flag.opens b trivial l level
  | number n =>
    cases n with
    | int n => exact opens_number n l level
    | double d => exact (by simp [Value.IsPlain] at h : False).elim
  | string s => exact Codec.opens_string s l level
  | array vs =>
    cases vs with
    | nil => exact ⟨'[', [']'], rfl, rfl, by decide⟩
    | cons v vs => exact ⟨'[', _, rfl, rfl, by decide⟩
  | object ms =>
    cases ms with
    | nil => exact ⟨'\x7b', ['\x7d'], rfl, rfl, by decide⟩
    | cons m ms => exact ⟨'\x7b', _, rfl, rfl, by decide⟩

theorem readValue_skipBlanks (room : Nat) (t : Text) :
    readValue room (skipBlanks t) = readValue room t := by
  obtain ⟨list, object, hread⟩ := exists_readValueWith room
  simp only [hread, readValueWith, skipBlanks_skipBlanks]

/-- An array is read back if its items are. -/
theorem readValue_array {room : Nat} (h : (Codec.any room).ReadsBack (Value.IsPlain room))
    {vs : List Value} (hvs : ∀ v ∈ vs, v.IsPlain room) (l : Layout) (level : Nat) (rest : Text) :
    readValue (room + 1) ((Value.array vs).writeAt l level ++ rest) = .ok (.array vs, rest) := by
  obtain ⟨t, htext, hread⟩ := h.readItems_write hvs l level rest
  have hwrite : vs.map (Codec.any room).write = vs := List.map_id vs
  have hopening : skipBlanks ('[' :: t) = '[' :: t := skipBlanks_cons rfl t
  rw [hwrite] at htext
  rw [htext]
  show readValueWith _ _ _ = _
  simp only [readValueWith, hopening]
  show (readItems (Codec.any room).read t).map _ = _
  rw [hread]
  rfl

/-- An object is read back if its values are and its keys are in order. -/
theorem readValue_object {room : Nat} (h : (Codec.any room).ReadsBack (Value.IsPlain room))
    {ms : List (String × Value)} (hsorted : (ms.map Prod.fst).Pairwise (· < ·))
    (hms : ∀ m ∈ ms, m.2.IsPlain room) (l : Layout) (level : Nat) (rest : Text) :
    readValue (room + 1) ((Value.object ms).writeAt l level ++ rest) = .ok (.object ms, rest) := by
  obtain ⟨t, htext, hread⟩ := (readsMembers_any h l (level + 1) hms []).readMembers rest
  have hopening : skipBlanks ('\x7b' :: t) = '\x7b' :: t := skipBlanks_cons rfl t
  rw [htext]
  show readValueWith _ _ _ = _
  simp only [readValueWith, hopening]
  show (readMembers (readAnyMember (readValue room)) [] t).map _ = _
  rw [hread, List.nil_append]
  simp only [Except.map, Value.sortedObject_eq hsorted]

/-- Strings are read back. -/
theorem readValue_string (room : Nat) (s : String) (l : Layout) (level : Nat) (rest : Text) :
    readValue room ((Value.string s).writeAt l level ++ rest) = .ok (.string s, rest) := by
  obtain ⟨list, object, hread⟩ := exists_readValueWith room
  have hwrite : (Value.string s).writeAt l level = writeString s := rfl
  rw [hread, hwrite]
  simp only [readValueWith, Codec.skipBlanks_writeString]
  show (readString _).map _ = _
  rw [readString_flatMap_escape]
  simp only [Except.map, String.ofList_toList]

/-- A plain value is read back if the values within its brackets are. -/
theorem readValue_writeAt {room : Nat}
    (hinner : ∀ r, room = r + 1 → (Codec.any r).ReadsBack (Value.IsPlain r)) {v : Value}
    (hv : v.IsPlain room) (l : Layout) (level : Nat) {rest : Text} (hrest : StopsNumber rest) :
    readValue room (v.writeAt l level ++ rest) = .ok (v, rest) := by
  obtain ⟨list, object, hread⟩ := exists_readValueWith room
  cases v with
  | null =>
    rw [hread]
    rfl
  | bool b =>
    rw [hread]
    cases b <;> rfl
  | number n =>
    cases n with
    | int n =>
      obtain ⟨hlow, hhigh⟩ : -9223372036854775808 ≤ n ∧ n ≤ Numeral.greatest := by
        simpa only [Value.IsPlain] using hv
      exact readValue_number room hlow hhigh hrest
    | double d => exact (by simp [Value.IsPlain] at hv : False).elim
  | string s => exact readValue_string room s l level rest
  | array vs =>
    -- values inside of others are read with less room
    cases room with
    | zero => exact (by simp [Value.IsPlain] at hv : False).elim
    | succ room =>
      have hvs : ∀ v ∈ vs, v.IsPlain room := by simpa only [Value.IsPlain] using hv
      exact readValue_array (hinner room rfl) hvs l level rest
  | object ms =>
    cases room with
    | zero => exact (by simp [Value.IsPlain] at hv : False).elim
    | succ room =>
      obtain ⟨hsorted, hms⟩ : (ms.map Prod.fst).Pairwise (· < ·) ∧ ∀ m ∈ ms, m.2.IsPlain room := by
        simpa only [Value.IsPlain] using hv
      exact readValue_object (hinner room rfl) hsorted hms l level rest

/-- Plain values are read back. -/
theorem readsBack_any (room : Nat) : (Codec.any room).ReadsBack (Value.IsPlain room) := by
  -- within brackets there is room for one bracket less
  have hstep : ∀ room, (∀ r, room = r + 1 → (Codec.any r).ReadsBack (Value.IsPlain r)) →
      (Codec.any room).ReadsBack (Value.IsPlain room) := fun room hinner =>
    ⟨fun v hv l level rest hrest => readValue_writeAt hinner hv l level hrest,
      fun v => opens_of_isPlain, readValue_skipBlanks room⟩
  induction room with
  | zero => exact hstep 0 fun r hr => absurd hr (by omega)
  | succ room ih =>
    refine hstep (room + 1) ?_
    rintro r ⟨⟩
    exact ih

end NamingLint.Json
