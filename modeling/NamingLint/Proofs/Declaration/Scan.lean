import NamingLint.Proofs.Declaration.Split
import NamingLint.Proofs.Text.Utf8

/-!
# NamingLint — scans over bytes

Parentheses, commas and identifiers can be searched for in the bytes of a text as well as in its
characters. A scan over bytes ends at some index, and a text cannot be cut at every index; it counts
parentheses, and a count cannot be lowered below zero. Here every cut and every subtraction is
checked: one that cannot be made is a trap. The scans meet no trap and find what the searches over
characters find, since no byte of a longer character looks like one of the characters searched for.

* `Trap`, `cut`, `minus` — what can go wrong, and the two operations in which it can.
* `closingByte`, `openingByte`, `splitBytes`, `identSize` — the scans.

Main results:

* `closingByte_size`, `openingByte_size` — the two searches for a parenthesis.
* `splitBytes_eq` — the segments of a list.
* `identSize_eq` — the size of the identifier in front of a text.
-/

namespace NamingLint

open Text

/-! ## Traps -/

/-- What stops a scan in the middle of its work. -/
inductive Trap where
  /-- A number is to be lowered below zero. -/
  | negative
  /-- A range of bytes is not in order, leaves the text or splits a character. -/
  | range (s : Span)
  /-- A loop goes on after the steps it was given. -/
  | endless
  deriving DecidableEq, Repr

/-- A scan goes on after a step that meets no trap. -/
theorem Trap.ok_bind {α β : Type} (a : α) (f : α → Except Trap β) : (Except.ok a >>= f) = f a :=
  rfl

/-- The characters of a range, which must be one that can be cut out. -/
def Text.cut (t : Text) (s : Span) : Except Trap Text :=
  match t.slice? s with
  | some u => .ok u
  | none => .error (.range s)

/-- The difference of two numbers, which must not be below zero. -/
def minus (n m : Nat) : Except Trap Nat :=
  if m ≤ n then .ok (n - m) else .error .negative

theorem Text.cut_size (a u b : Text) :
    cut (a ++ (u ++ b)) ⟨size a, size a + size u⟩ = .ok u := by
  rw [cut, slice?_size]

example : Text.cut "über".toList ⟨1, 3⟩ = .error (.range ⟨1, 3⟩) := by rfl

/-- Bounds that lie between characters are cut without a panic. -/
theorem Text.cut_eq_slice {t a u b : Text} {s : Span} (ht : t = a ++ (u ++ b))
    (hs : s = ⟨size a, size a + size u⟩) : t.cut s = .ok (t.slice s) := by
  rw [ht, hs, cut_size, slice_size]

theorem Text.cut_front (u b : Text) : cut (u ++ b) ⟨0, size u⟩ = .ok u := by
  have h := cut_size [] u b
  rwa [List.nil_append, size_nil, Nat.zero_add] at h

theorem Text.cut_back (a u : Text) : cut (a ++ u) ⟨size a, size (a ++ u)⟩ = .ok u := by
  have h := cut_size a u []
  rwa [List.append_nil, ← size_append] at h

theorem minus_add (n m : Nat) : minus (n + m) m = .ok n := by
  rw [minus, if_pos (Nat.le_add_left m n), Nat.add_sub_cancel]

/-! ## Parentheses -/

/-- Runs over bytes from index `i` on, counting parentheses, to the closing one that brings the count
to zero. -/
def closingByteFrom : Nat → Nat → List UInt8 → Except Trap (Option Nat)
  | _, _, [] => .ok none
  | depth, i, b :: bs =>
    if b = '('.toUInt8 then closingByteFrom (depth + 1) (i + 1) bs
    else if b = ')'.toUInt8 then do
      let depth ← minus depth 1
      if depth = 0 then return some i else closingByteFrom depth (i + 1) bs
    else closingByteFrom depth (i + 1) bs

/-- Index of the byte that closes the parenthesis opened at a byte. -/
def closingByte (t : Text) (opened : Nat) : Except Trap (Option Nat) :=
  closingByteFrom 0 opened (t.bytes.drop opened)

/-- Runs back over bytes, the first of which ends at index `i`, counting parentheses, to the opening
one that brings the count to zero. -/
def openingByteFrom : Nat → Nat → List UInt8 → Option Nat
  | _, _, [] => none
  | depth, i, b :: bs =>
    if b = ')'.toUInt8 then openingByteFrom (depth + 1) (i - 1) bs
    else if b = '('.toUInt8 then
      if depth - 1 = 0 then some (i - 1) else openingByteFrom (depth - 1) (i - 1) bs
    else openingByteFrom depth (i - 1) bs

/-- Index of the byte that opens the parenthesis closed at a byte, which must be one of the text. -/
def openingByte (t : Text) (closed : Nat) : Except Trap (Option Nat) :=
  if closed < t.size then
    .ok (openingByteFrom 0 (closed + 1) (t.bytes.take (closed + 1)).reverse)
  else .error (.range ⟨0, closed + 1⟩)

/-- Bytes that are no parentheses are passed over. -/
theorem closingByteFrom_append {l : List UInt8} (hopen : '('.toUInt8 ∉ l) (hclose : ')'.toUInt8 ∉ l)
    (depth i : Nat) (bs : List UInt8) :
    closingByteFrom depth i (l ++ bs) = closingByteFrom depth (i + l.length) bs := by
  induction l generalizing i with
  | nil => rfl
  | cons b l ih =>
    rw [List.mem_cons, not_or] at hopen hclose
    rw [List.cons_append, closingByteFrom, if_neg (Ne.symm hopen.1), if_neg (Ne.symm hclose.1),
      ih hopen.2 hclose.2, List.length_cons]
    congr 1
    omega

/-- Bytes that are no parentheses are passed over. -/
theorem openingByteFrom_append {l : List UInt8} (hopen : '('.toUInt8 ∉ l) (hclose : ')'.toUInt8 ∉ l)
    (depth i : Nat) (bs : List UInt8) :
    openingByteFrom depth i (l ++ bs) = openingByteFrom depth (i - l.length) bs := by
  induction l generalizing i with
  | nil => rfl
  | cons b l ih =>
    rw [List.mem_cons, not_or] at hopen hclose
    rw [List.cons_append, openingByteFrom, if_neg (Ne.symm hclose.1), if_neg (Ne.symm hopen.1),
      ih hopen.2 hclose.2, List.length_cons]
    congr 1
    omega

/-- Where a parenthesis is open, the count is never lowered below zero: the scan ends as soon as it
comes to zero. -/
theorem closingByteFrom_bytes {depth : Nat} (hdepth : 0 < depth) (i : Nat) (t : Text) :
    closingByteFrom depth i t.bytes = .ok (closingParenFrom depth i t) := by
  induction t generalizing depth i with
  | nil => rfl
  | cons c t ih =>
    rw [bytes_cons, closingParenFrom]
    by_cases hopen : c = '('
    · subst hopen
      exact ih (Nat.succ_pos depth) (i + 1)
    by_cases hclose : c = ')'
    · subst hclose
      -- the depth is above zero, so it can go down without a trap
      have hminus : minus depth 1 = .ok (depth - 1) := if_pos hdepth
      have hcast : (depth : Int) - 1 = (depth - 1 : Nat) := by omega
      show (minus depth 1 >>= fun depth =>
        if depth = 0 then pure (some i) else closingByteFrom depth (i + 1) (bytes t)) = _
      rw [if_neg (by decide), if_pos rfl, hminus, Trap.ok_bind, hcast]
      simp only [Int.natCast_eq_zero]
      split
      · rfl
      · exact ih (by omega) (i + 1)
    · -- no byte of another character looks like a parenthesis
      have hopen' := mt (mem_utf8EncodeChar_iff (a := '(') rfl c).mp hopen
      have hclose' := mt (mem_utf8EncodeChar_iff (a := ')') rfl c).mp hclose
      rw [if_neg hopen, if_neg hclose, closingByteFrom_append hopen' hclose',
        String.length_utf8EncodeChar, ih hdepth]

/-- The scan over bytes from behind finds what the search over characters finds. -/
theorem openingByteFrom_bytes (depth : Nat) (r : Text) :
    openingByteFrom depth (size r) (bytes r.reverse).reverse = openingParenFrom depth (size r) r := by
  induction r generalizing depth with
  | nil => rfl
  | cons c r ih =>
    have hoffset : size (c :: r) - c.utf8Size = size r := by simp
    have hbytes : (bytes (c :: r).reverse).reverse =
        (String.utf8EncodeChar c).reverse ++ (bytes r.reverse).reverse := by simp
    rw [hbytes, openingParenFrom, hoffset]
    -- a parenthesis is one byte, so one step of the scan is one step of the search
    have hback : c.utf8Size = 1 → size (c :: r) - 1 = size r := by
      intro hone
      rw [hone] at hoffset
      exact hoffset
    by_cases hclose : c = ')'
    · subst hclose
      have hbyte : (String.utf8EncodeChar ')').reverse = [')'.toUInt8] := rfl
      rw [hbyte, List.singleton_append, openingByteFrom, if_pos rfl, if_pos rfl, hback rfl, ih]
    by_cases hopen : c = '('
    · subst hopen
      have hbyte : (String.utf8EncodeChar '(').reverse = ['('.toUInt8] := rfl
      rw [hbyte, List.singleton_append, openingByteFrom, if_neg (by decide), if_pos rfl,
        if_neg hclose, if_pos rfl, hback rfl, ih]
    · -- the bytes of another character are no parentheses, whatever their number
      have hopen' := mt (mem_utf8EncodeChar_iff (a := '(') rfl c).mp hopen
      have hclose' := mt (mem_utf8EncodeChar_iff (a := ')') rfl c).mp hclose
      rw [if_neg hclose, if_neg hopen, openingByteFrom_append (by simpa using hopen')
        (by simpa using hclose'), List.length_reverse, String.length_utf8EncodeChar, hoffset, ih]

/-- The search for the partner of an opening parenthesis never lowers its count below zero. -/
theorem closingByte_size (pre post : Text) :
    closingByte (pre ++ '(' :: post) (size pre) =
      .ok (closingParen (pre ++ '(' :: post) (size pre)) := by
  have hopen : String.utf8EncodeChar '(' = ['('.toUInt8] := rfl
  rw [closingByte, bytes_append, bytes_cons, hopen, List.singleton_append,
    List.drop_left' (length_bytes pre), closingByteFrom, if_pos rfl, closingByteFrom_bytes (by decide),
    closingParen, dropBytes_size, closingParenFrom, if_pos rfl]
  rfl

example : closingByte ")".toList 0 = .error .negative := by rfl

/-- The search for the partner of a closing parenthesis stays within the text. -/
theorem openingByte_size (pre post : Text) :
    openingByte (pre ++ ')' :: post) (size pre) =
      .ok (openingParen (pre ++ ')' :: post) (size pre)) := by
  have hclose : String.utf8EncodeChar ')' = [')'.toUInt8] := rfl
  have hsize : size pre < size (pre ++ ')' :: post) := by
    rw [size_append, size_cons]
    have := ')'.utf8Size_pos
    omega
  have hlength : (bytes (pre ++ [')'])).length = size pre + 1 := by
    rw [length_bytes, size_append]
    rfl
  -- the scan starts with the bytes up to the closing parenthesis
  have htake : (bytes (pre ++ ')' :: post)).take (size pre + 1) = bytes (pre ++ [')']) := by
    rw [List.append_cons, bytes_append, List.take_left' hlength]
  rw [openingByte, if_pos hsize, htake, openingParen_size, ← size_reverse pre,
    ← openingByteFrom_bytes, bytes_append, bytes_cons, hclose, bytes_nil, List.append_nil,
    List.reverse_concat, openingByteFrom, if_pos rfl, Nat.add_sub_cancel, List.reverse_reverse]

/-! ## Segments -/

/-- Bracket depth after one more byte. -/
def depthAfterByte (depth : Nat) (previous b : UInt8) : Nat :=
  if b = '('.toUInt8 ∨ b = '['.toUInt8 ∨ b = '\x7b'.toUInt8 ∨ b = '<'.toUInt8 then depth + 1
  else if b = '>'.toUInt8 ∧ previous = '='.toUInt8 then depth
  else if b = ')'.toUInt8 ∨ b = ']'.toUInt8 ∨ b = '\x7d'.toUInt8 ∨ b = '>'.toUInt8 then depth - 1
  else depth

/-- Runs over the bytes of a list from index `i` on and cuts it at the commas of depth zero. The
segment at hand starts at `start`. -/
def splitBytesFrom (list : Text) (start depth : Nat) (previous : UInt8) (i : Nat) :
    List UInt8 → Except Trap (List Segment)
  | [] => do
    let last ← list.cut ⟨start, list.size⟩
    return [⟨start, last⟩]
  | b :: bs =>
    if b = ','.toUInt8 ∧ depth = 0 then do
      let segment ← list.cut ⟨start, i⟩
      let more ← splitBytesFrom list (i + 1) depth b (i + 1) bs
      return ⟨start, segment⟩ :: more
    else splitBytesFrom list start (depthAfterByte depth previous b) b (i + 1) bs

/-- The segments of a list. -/
def splitBytes (list : Text) : Except Trap (List Segment) :=
  splitBytesFrom list 0 0 0 0 list.bytes

/-- The byte of a character of one byte counts as the character does. -/
theorem depthAfterByte_toUInt8 {c : Char} (hc : c.utf8Size = 1) {p : UInt8} {previous : Option Char}
    (hp : p = '='.toUInt8 ↔ previous = some '=') (depth : Nat) :
    depthAfterByte depth p c.toUInt8 = depthAfter depth previous c := by
  simp only [depthAfterByte, depthAfter, hp, toUInt8_inj (a := '(') rfl hc,
    toUInt8_inj (a := '[') rfl hc, toUInt8_inj (a := '\x7b') rfl hc, toUInt8_inj (a := '<') rfl hc,
    toUInt8_inj (a := ')') rfl hc, toUInt8_inj (a := ']') rfl hc, toUInt8_inj (a := '\x7d') rfl hc,
    toUInt8_inj (a := '>') rfl hc]

/-- A byte of a longer character is no bracket and no comma. -/
theorem ne_toUInt8_of_high {b : UInt8} (hb : 128 ≤ b.toNat) {a : Char} (ha : a.utf8Size = 1) :
    b ≠ a.toUInt8 := by
  rintro rfl
  have hlow := toNat_le_of_size_one ha
  rw [toNat_toUInt8 ha] at hb
  omega

/-- No byte of a longer character is a bracket. -/
theorem depthAfterByte_of_high {b : UInt8} (hb : 128 ≤ b.toNat) (depth : Nat) (p : UInt8) :
    depthAfterByte depth p b = depth := by
  have hne : ∀ {a : Char}, a.utf8Size = 1 → b ≠ a.toUInt8 := ne_toUInt8_of_high hb
  simp [depthAfterByte, hne (a := '(') rfl, hne (a := '[') rfl, hne (a := '\x7b') rfl,
    hne (a := '<') rfl, hne (a := ')') rfl, hne (a := ']') rfl, hne (a := '\x7d') rfl,
    hne (a := '>') rfl]

/-- No longer character is a bracket. -/
theorem depthAfter_of_long {c : Char} (hc : c.utf8Size ≠ 1) (depth : Nat) (previous : Option Char) :
    depthAfter depth previous c = depth := by
  have hne : ∀ {a : Char}, a.utf8Size = 1 → c ≠ a := by
    rintro a ha rfl
    exact hc ha
  simp [depthAfter, hne (a := '(') rfl, hne (a := '[') rfl, hne (a := '\x7b') rfl,
    hne (a := '<') rfl, hne (a := ')') rfl, hne (a := ']') rfl, hne (a := '\x7d') rfl,
    hne (a := '>') rfl]

/-- The bytes of a longer character are passed over, and leave no byte behind that is an equals
sign. -/
theorem splitBytesFrom_append {l : List UInt8} (hl : ∀ b ∈ l, 128 ≤ b.toNat) (hne : l ≠ [])
    (list : Text) (start depth : Nat) (p : UInt8) (i : Nat) :
    ∃ q : UInt8, q ≠ '='.toUInt8 ∧ ∀ bs, splitBytesFrom list start depth p i (l ++ bs) =
      splitBytesFrom list start depth q (i + l.length) bs := by
  induction l generalizing p i with
  | nil => exact absurd rfl hne
  | cons b l ih =>
    rw [List.forall_mem_cons] at hl
    have hstep : ∀ bs, splitBytesFrom list start depth p i (b :: bs) =
        splitBytesFrom list start depth b (i + 1) bs := by
      intro bs
      rw [splitBytesFrom, if_neg (fun h => ne_toUInt8_of_high hl.1 rfl h.1),
        depthAfterByte_of_high hl.1]
    -- the last byte is what the next one is compared with, so there must be one
    by_cases hmore : l = []
    · subst hmore
      exact ⟨b, ne_toUInt8_of_high hl.1 rfl, hstep⟩
    · obtain ⟨q, hq, hrest⟩ := ih hl.2 hmore b (i + 1)
      refine ⟨q, hq, fun bs => ?_⟩
      rw [List.cons_append, hstep, hrest, List.length_cons, Nat.add_assoc, Nat.add_comm 1]

/-- A character that is not cut at is passed over. -/
theorem splitBytesFrom_char {c : Char} {depth : Nat} (hc : ¬ (c = ',' ∧ depth = 0)) {p : UInt8}
    {previous : Option Char} (hp : p = '='.toUInt8 ↔ previous = some '=') (list : Text)
    (start i : Nat) :
    ∃ q : UInt8, (q = '='.toUInt8 ↔ some c = some '=') ∧
      ∀ bs, splitBytesFrom list start depth p i (String.utf8EncodeChar c ++ bs) =
        splitBytesFrom list start (depthAfter depth previous c) q (i + c.utf8Size) bs := by
  by_cases hone : c.utf8Size = 1
  · have hcomma : ¬ (c.toUInt8 = ','.toUInt8 ∧ depth = 0) := by
      rwa [toUInt8_inj (a := ',') rfl hone]
    refine ⟨c.toUInt8, ?_, fun bs => ?_⟩
    · rw [toUInt8_inj (a := '=') rfl hone, Option.some.injEq]
    · rw [String.utf8EncodeChar_eq_singleton hone, List.singleton_append, hone, splitBytesFrom]
      show (if c.toUInt8 = ','.toUInt8 ∧ depth = 0 then _ else
        splitBytesFrom list start (depthAfterByte depth p c.toUInt8) c.toUInt8 (i + 1) bs) = _
      rw [if_neg hcomma, depthAfterByte_toUInt8 hone hp]
  · obtain ⟨q, hq, hrest⟩ := splitBytesFrom_append
      (fun b hb => le_of_mem_utf8EncodeChar hone hb) String.utf8EncodeChar_ne_nil list start depth p i
    -- a longer character is no equals sign and neither is its last byte
    have hequals : c ≠ '=' := by
      rintro rfl
      exact hone rfl
    refine ⟨q, ⟨fun h => absurd h hq, fun h => absurd (Option.some.inj h) hequals⟩, fun bs => ?_⟩
    rw [hrest, String.length_utf8EncodeChar, depthAfter_of_long hone]

/-- From a place inside a segment on, the scan finds what is left of the segment and the ones after
it. Both ends of every cut are sizes of prefixes of the list. -/
theorem splitBytesFrom_eq {list done now rest : Text} (hlist : list = done ++ (now ++ rest))
    {depth : Nat} {p : UInt8} {previous : Option Char}
    (hp : p = '='.toUInt8 ↔ previous = some '=') {first : Text} {more : List Text}
    (hcut : cutAtCommas depth previous rest = first :: more) :
    splitBytesFrom list (size done) depth p (size done + size now) (bytes rest) =
      .ok (withStarts (size done) ((now ++ first) :: more)) := by
  induction rest generalizing done now depth p previous first more with
  | nil =>
    rw [cutAtCommas, List.cons.injEq] at hcut
    obtain ⟨rfl, rfl⟩ := hcut
    rw [List.append_nil] at hlist
    subst hlist
    rw [bytes_nil, splitBytesFrom, cut_back, List.append_nil]
    rfl
  | cons c rest ih =>
    by_cases hc : c = ',' ∧ depth = 0
    · -- the segment ends here, and the next one starts behind the comma
      obtain ⟨rfl, rfl⟩ := hc
      rw [cutAtCommas, if_pos ⟨rfl, rfl⟩, List.cons.injEq] at hcut
      obtain ⟨rfl, rfl⟩ := hcut
      obtain ⟨q, qs, hq⟩ := List.exists_cons_of_ne_nil (cutAtCommas_ne_nil 0 (some ',') rest)
      have hlist' : list = done ++ (now ++ [',']) ++ ([] ++ rest) := by simp [hlist]
      have hnext := ih hlist'
        (p := ','.toUInt8) (by decide) hq
      have hsize : size (done ++ (now ++ [','])) = size done + size now + 1 := by
        rw [size_append, size_append, Nat.add_assoc]
        rfl
      rw [hsize, size_nil, Nat.add_zero, List.nil_append] at hnext
      have hcomma : String.utf8EncodeChar ',' = [','.toUInt8] := rfl
      rw [bytes_cons, hcomma, List.singleton_append, splitBytesFrom, if_pos ⟨rfl, rfl⟩, hnext, hlist,
        cut_size, hq, List.append_nil]
      rfl
    · obtain ⟨q, qs, hq, hcons⟩ := cutAtCommas_cons hc previous rest
      rw [hcons, List.cons.injEq] at hcut
      obtain ⟨rfl, rfl⟩ := hcut
      obtain ⟨p', hp', hstep⟩ := splitBytesFrom_char hc hp list (size done) (size done + size now)
      have hlist' : list = done ++ (now ++ [c] ++ rest) := by simp [hlist]
      have hnext := ih hlist' hp' hq
      rw [size_append, size_cons, size_nil, Nat.add_zero, ← Nat.add_assoc] at hnext
      rw [bytes_cons, hstep, hnext, List.append_assoc, List.singleton_append]

/-- The scan over the bytes of a list finds its segments. -/
theorem splitBytes_eq (list : Text) : splitBytes list = .ok (segments list) := by
  obtain ⟨q, qs, hq⟩ := List.exists_cons_of_ne_nil (cutAtCommas_ne_nil 0 none list)
  have hlist : list = [] ++ ([] ++ list) := rfl
  have h := splitBytesFrom_eq hlist (p := 0) (by decide) hq
  rw [segments, hq]
  exact h

/-! ## Identifiers -/

/-- Number of bytes in front of a text that may stand in an identifier. -/
def identSize (t : Text) : Nat :=
  (t.bytes.takeWhile fun b => isIdent (Char.ofUInt8 b)).length

/-- The characters of identifiers are one byte each. -/
theorem size_of_isIdent {c : Char} (h : isIdent c = true) : c.utf8Size = 1 := by
  have hcode := toNat_of_isIdent h
  rw [Char.utf8Size_eq_one_iff, UInt32.le_iff_toNat_le]
  show c.toNat ≤ 127
  omega

/-- A byte of a longer character is in no identifier. -/
theorem not_isIdent_of_high {b : UInt8} (hb : 128 ≤ b.toNat) : isIdent (Char.ofUInt8 b) = false := by
  rw [Bool.eq_false_iff]
  intro hident
  have hcode := toNat_of_isIdent hident
  have hnat : (Char.ofUInt8 b).toNat = b.toNat := UInt8.toNat_toUInt32 b
  omega

theorem ofUInt8_toUInt8 {c : Char} (hc : c.utf8Size = 1) : Char.ofUInt8 c.toUInt8 = c := by
  have hnat : (Char.ofUInt8 c.toUInt8).toNat = c.toUInt8.toNat := UInt8.toNat_toUInt32 _
  rw [← Char.toNat_inj, hnat, toNat_toUInt8 hc]

/-- The bytes of identifiers are their characters. -/
theorem identSize_eq (t : Text) : identSize t = size (t.takeWhile isIdent) := by
  induction t with
  | nil => rfl
  | cons c t ih =>
    unfold identSize at ih ⊢
    by_cases hone : c.utf8Size = 1
    · rw [bytes_cons, String.utf8EncodeChar_eq_singleton hone, List.singleton_append]
      show (List.takeWhile _ (c.toUInt8 :: bytes t)).length = _
      by_cases hident : isIdent c = true
      · rw [List.takeWhile_cons_of_pos (by rwa [ofUInt8_toUInt8 hone]),
          List.takeWhile_cons_of_pos hident, List.length_cons, ih, size_cons, hone, Nat.add_comm]
      · rw [List.takeWhile_cons_of_neg (by rwa [ofUInt8_toUInt8 hone]),
          List.takeWhile_cons_of_neg hident]
        rfl
    · -- the first byte of a longer character ends the run
      have hident : ¬ isIdent c = true := mt size_of_isIdent hone
      obtain ⟨b, bs, hb⟩ := List.exists_cons_of_ne_nil (String.utf8EncodeChar_ne_nil (c := c))
      have hhigh : 128 ≤ b.toNat := le_of_mem_utf8EncodeChar hone (by rw [hb]; exact .head bs)
      rw [bytes_cons, hb, List.cons_append,
        List.takeWhile_cons_of_neg (by rw [not_isIdent_of_high hhigh]; decide),
        List.takeWhile_cons_of_neg hident]
      rfl

end NamingLint
