import NamingLint.Proofs.Declaration.Parameter
import NamingLint.Proofs.Text.Cut
import NamingLint.Proofs.Text.Utf8

/-!
# NamingLint — partners of parentheses

A parenthesis and its partner enclose a balanced text. The search for a closing parenthesis runs
forward and the one for an opening parenthesis runs back; both stop at the first place where what
they have passed is balanced. That a balanced text never has more closing than opening parentheses
in front is the same as that it never has more opening than closing ones at its end, so the two
searches agree, whatever stands around the parentheses.

* `excess` — opening parentheses less closing ones.
* `Balanced` — the text between two partners.
* `Partners` — two offsets of a text with parentheses around a balanced text.
* `Encloses` — the same, told by counting bytes.

Main results:

* `closingParen_eq_some_iff`, `openingParen_eq_some_iff` — both searches find partners.
* `encloses_of_partners`, `partners_of_encloses` — partners are what counting bytes says.
* `parentheses_have_partners` — the two searches are inverse to each other and exact.
-/

namespace NamingLint

open Text

/-! ## Counting -/

/-- Opening parentheses less closing ones. -/
def excess (t : Text) : Int :=
  t.count '(' - t.count ')'

@[simp] theorem excess_nil : excess [] = 0 := rfl

@[simp] theorem excess_append (t u : Text) : excess (t ++ u) = excess t + excess u := by
  simp only [excess, List.count_append]
  omega

theorem excess_cons (c : Char) (t : Text) : excess (c :: t) = excess [c] + excess t :=
  excess_append [c] t

@[simp] theorem excess_open : excess ['('] = 1 := rfl

@[simp] theorem excess_close : excess [')'] = -1 := rfl

theorem excess_of_ne {c : Char} (hopen : c ≠ '(') (hclose : c ≠ ')') : excess [c] = 0 := by
  simp [excess, hopen, hclose]

theorem count_eq_iff {t : Text} : t.count '(' = t.count ')' ↔ excess t = 0 := by
  unfold excess
  omega

theorem count_lt_iff {t : Text} : t.count ')' < t.count '(' ↔ 0 < excess t := by
  unfold excess
  omega

theorem excess_reverse (t : Text) : excess t.reverse = excess t := by
  simp [excess]

/-- As many parentheses are closed as opened, and none is closed before it is opened. -/
structure Balanced (t : Text) : Prop where
  settled : excess t = 0
  ahead : ∀ p, p <+: t → 0 ≤ excess p

/-- Read backwards, no parenthesis is opened before it is closed. -/
theorem balanced_iff_suffix {t : Text} :
    Balanced t ↔ excess t = 0 ∧ ∀ s, s <:+ t → excess s ≤ 0 := by
  constructor
  · intro h
    refine ⟨h.settled, ?_⟩
    rintro s ⟨p, rfl⟩
    -- the two parts of a settled text have opposite excess
    have hahead := h.ahead p (List.prefix_append p s)
    have hsettled := h.settled
    rw [excess_append] at hsettled
    omega
  · rintro ⟨hsettled, hbehind⟩
    refine ⟨hsettled, ?_⟩
    rintro p ⟨s, rfl⟩
    have hs := hbehind s (List.suffix_append p s)
    rw [excess_append] at hsettled
    omega

/-! ## The search forward -/

/-- A step that leaves the count positive goes on. -/
theorem closingParenFrom_cons {depth : Int} {c : Char} (h : 0 < depth + excess [c]) (offset : Nat)
    (t : Text) : closingParenFrom depth offset (c :: t) =
      closingParenFrom (depth + excess [c]) (offset + c.utf8Size) t := by
  rw [closingParenFrom]
  split
  · rename_i hc
    rw [hc, excess_open]
  · split
    · rename_i hc
      rw [hc, excess_close] at h
      rw [hc, excess_close, if_neg (by omega), Int.sub_eq_add_neg]
    · rename_i hopen hclose
      rw [excess_of_ne hopen hclose, Int.add_zero]

/-- As long as the count stays positive, the search runs on; it ends at the parenthesis that brings
it to zero. -/
theorem closingParenFrom_append {depth : Int} {a : Text} (hend : depth + excess a = 1)
    (hahead : ∀ p, p <+: a → 0 < depth + excess p) (offset : Nat) (b : Text) :
    closingParenFrom depth offset (a ++ ')' :: b) = some (offset + size a) := by
  induction a generalizing depth offset with
  | nil =>
    rw [excess_nil, Int.add_zero] at hend
    subst hend
    simp [closingParenFrom]
  | cons c a ih =>
    have hc : 0 < depth + excess [c] := hahead [c] ⟨a, rfl⟩
    rw [excess_cons] at hend
    rw [List.cons_append, closingParenFrom_cons hc, ih (by omega), size_cons, Nat.add_assoc]
    intro p hp
    -- a start of the rest is a start of the whole behind `c`
    have hcp := hahead (c :: p) ((List.prefix_cons_inj c).mpr hp)
    rw [excess_cons] at hcp
    omega

/-- The parenthesis found is the first one that brings the count to zero. -/
theorem exists_of_closingParenFrom {depth : Int} (hdepth : 0 < depth) {offset closed : Nat}
    {t : Text} (h : closingParenFrom depth offset t = some closed) :
    ∃ a b, t = a ++ ')' :: b ∧ closed = offset + size a ∧ depth + excess a = 1 ∧
      ∀ p, p <+: a → 0 < depth + excess p := by
  induction t generalizing depth offset with
  | nil => simp [closingParenFrom] at h
  | cons c t ih =>
    by_cases hc : 0 < depth + excess [c]
    · rw [closingParenFrom_cons hc] at h
      obtain ⟨a, b, rfl, hclosed, hend, hahead⟩ := ih hc h
      refine ⟨c :: a, b, rfl, by rw [size_cons]; omega, by rw [excess_cons]; omega, ?_⟩
      intro p hp
      rcases List.prefix_cons_iff.mp hp with rfl | ⟨q, rfl, hq⟩
      · rw [excess_nil]
        omega
      · have hpos := hahead q hq
        rw [excess_cons]
        omega
    · -- only a closing parenthesis can take the count to zero, and it does so from one
      have hclose : c = ')' := by
        by_contra hne
        by_cases hopen : c = '('
        · rw [hopen, excess_open] at hc
          omega
        · rw [excess_of_ne hopen hne] at hc
          omega
      subst hclose
      rw [excess_close] at hc
      obtain rfl : depth = 1 := by omega
      have hfound : some offset = some closed := by simpa [closingParenFrom] using h
      cases hfound
      refine ⟨[], t, rfl, rfl, rfl, ?_⟩
      intro p hp
      rw [List.prefix_nil.mp hp]
      decide

/-! ## The search back -/

/-- A step backwards that does not reach the partner changes the depth by the excess. -/
theorem openingParenFrom_cons {depth : Nat} {c : Char} (h : 0 < depth - excess [c]) (r : Text) :
    openingParenFrom depth (size (c :: r)) (c :: r) =
      openingParenFrom (depth - excess [c]).toNat (size r) r := by
  have hoffset : size (c :: r) - c.utf8Size = size r := by simp
  rw [openingParenFrom, hoffset]
  split
  · rename_i hc
    rw [hc, excess_close]
    rfl
  · split
    · rename_i hc
      rw [hc, excess_open] at h
      have hdepth : ((depth : Int) - 1).toNat = depth - 1 := by omega
      rw [hc, excess_open, if_neg (by omega), hdepth]
    · -- any other character leaves the depth as it is
      rename_i hclose hopen
      rw [excess_of_ne hopen hclose, Int.sub_zero, Int.toNat_natCast]

/-- The search ends where the depth goes down to zero for the first time. -/
theorem openingParenFrom_append {depth : Nat} {b : Text} (hend : depth - excess b = 1)
    (hahead : ∀ p, p <+: b → 0 < depth - excess p) (a : Text) :
    openingParenFrom depth (size (b ++ '(' :: a)) (b ++ '(' :: a) = some (size a) := by
  induction b generalizing depth with
  | nil =>
    rw [excess_nil, Int.sub_zero] at hend
    obtain rfl : depth = 1 := by omega
    simp [openingParenFrom]
  | cons c b ih =>
    have hc : 0 < depth - excess [c] := hahead [c] ⟨b, rfl⟩
    have hcount : ((depth - excess [c]).toNat : Int) = depth - excess [c] := by omega
    rw [excess_cons] at hend
    rw [List.cons_append, openingParenFrom_cons hc, ih (by omega)]
    -- a part of the rest is a part of the whole with one more character
    intro p hp
    have hcp := hahead (c :: p) ((List.prefix_cons_inj c).mpr hp)
    rw [excess_cons] at hcp
    omega

/-- What the search finds is the first place where all is balanced. -/
theorem exists_of_openingParenFrom {depth : Nat} (hdepth : 0 < depth) {opened : Nat} {r : Text}
    (h : openingParenFrom depth (size r) r = some opened) :
    ∃ b a, r = b ++ '(' :: a ∧ opened = size a ∧ depth - excess b = 1 ∧
      ∀ p, p <+: b → 0 < depth - excess p := by
  induction r generalizing depth with
  | nil => simp [openingParenFrom] at h
  | cons c r ih =>
    by_cases hc : 0 < depth - excess [c]
    · have hcount : ((depth - excess [c]).toNat : Int) = depth - excess [c] := by omega
      rw [openingParenFrom_cons hc] at h
      obtain ⟨b, a, rfl, hopened, hend, hahead⟩ := ih (by omega) h
      refine ⟨c :: b, a, rfl, hopened, by rw [excess_cons]; omega, ?_⟩
      intro p hp
      rcases List.prefix_cons_iff.mp hp with rfl | ⟨q, rfl, hq⟩
      · rw [excess_nil]
        omega
      · have hpos := hahead q hq
        rw [excess_cons]
        omega
    · -- only an opening parenthesis brings the depth down to zero
      have hopen : c = '(' := by
        by_contra hne
        by_cases hclose : c = ')'
        · rw [hclose, excess_close] at hc
          omega
        · rw [excess_of_ne hne hclose] at hc
          omega
      subst hopen
      rw [excess_open] at hc
      obtain rfl : depth = 1 := by omega
      have hfound : size r = opened := by simpa [openingParenFrom] using h
      refine ⟨[], r, rfl, hfound.symm, rfl, ?_⟩
      intro p hp
      rw [List.prefix_nil.mp hp]
      decide

/-! ## Partners -/

/-- The parentheses at the two offsets stand around a balanced text. -/
def Partners (t : Text) (opened closed : Nat) : Prop :=
  ∃ before list after, t = before ++ '(' :: (list ++ ')' :: after) ∧ Balanced list ∧
    opened = size before ∧ closed = size before + 1 + size list

/-- The search forward finds the partner, and fails only if there is none. -/
theorem closingParen_eq_some_iff {pre post : Text} {closed : Nat} :
    closingParen (pre ++ '(' :: post) (size pre) = some closed ↔
      Partners (pre ++ '(' :: post) (size pre) closed := by
  have hstart : closingParen (pre ++ '(' :: post) (size pre) =
      closingParenFrom 1 (size pre + 1) post := by
    rw [closingParen, dropBytes_size, closingParenFrom, if_pos rfl]
    rfl
  rw [hstart]
  constructor
  · intro h
    obtain ⟨list, after, rfl, rfl, hend, hahead⟩ := exists_of_closingParenFrom (by decide) h
    refine ⟨pre, list, after, rfl, ⟨by omega, ?_⟩, rfl, rfl⟩
    intro p hp
    have hp := hahead p hp
    omega
  · rintro ⟨before, list, after, ht, hbalanced, hopened, rfl⟩
    -- the text is cut at one byte, so the two cuts are one
    obtain ⟨rfl, hpost⟩ := append_inj_of_size ht hopened
    obtain rfl : post = list ++ ')' :: after := (List.cons.inj hpost).2
    refine closingParenFrom_append (by rw [hbalanced.settled]; rfl) ?_ _ after
    intro p hp
    have hp := hbalanced.ahead p hp
    omega

/-- The search back finds the partner, and fails only if there is none. -/
theorem openingParen_eq_some_iff {pre post : Text} {opened : Nat} :
    openingParen (pre ++ ')' :: post) (size pre) = some opened ↔
      Partners (pre ++ ')' :: post) opened (size pre) := by
  rw [openingParen_size]
  constructor
  · intro h
    rw [← size_reverse] at h
    obtain ⟨b, a, hr, rfl, hend, hahead⟩ := exists_of_openingParenFrom (by decide) h
    obtain rfl : pre = a.reverse ++ '(' :: b.reverse := by
      rw [← List.reverse_reverse pre, hr]
      simp
    refine ⟨a.reverse, b.reverse, post, by simp, ?_, (size_reverse a).symm, ?_⟩
    · -- what the search has passed is the end of the text between the two
      rw [balanced_iff_suffix, excess_reverse]
      refine ⟨by omega, ?_⟩
      intro s hs
      have hs := hahead s.reverse (by rwa [← List.reverse_suffix, List.reverse_reverse])
      rw [excess_reverse] at hs
      omega
    · have hsize : '('.utf8Size = 1 := rfl
      rw [size_append, size_cons, hsize, Nat.add_assoc]
  · rintro ⟨before, list, after, ht, hbalanced, rfl, hclosed⟩
    have hsize : size pre = size (before ++ '(' :: list) := by
      have hone : '('.utf8Size = 1 := rfl
      rw [hclosed, size_append, size_cons, hone, Nat.add_assoc]
    have htext : before ++ '(' :: (list ++ ')' :: after) =
        before ++ '(' :: list ++ ')' :: after := by simp
    obtain ⟨rfl, -⟩ := append_inj_of_size (ht.trans htext) hsize
    obtain ⟨hsettled, hbehind⟩ := balanced_iff_suffix.mp hbalanced
    have hreverse : (before ++ '(' :: list).reverse = list.reverse ++ '(' :: before.reverse := by
      simp
    rw [← size_reverse, hreverse, openingParenFrom_append, size_reverse]
    · rw [excess_reverse, hsettled]
      rfl
    · intro p hp
      have hp := hbehind p.reverse (by rwa [← List.reverse_prefix, List.reverse_reverse])
      rw [excess_reverse] at hp
      omega

/-! ## Bytes -/

/-- The bytes from one offset up to another one, which is included. -/
def byteRange (t : Text) (first last : Nat) : List UInt8 :=
  (t.bytes.drop first).take (last + 1 - first)

/-- The bytes of the range open as many parentheses as they close, and every part of it from its
start on, short of the whole, opens more. -/
structure Encloses (t : Text) (opened closed : Nat) : Prop where
  lt : opened < closed
  settled : (byteRange t opened closed).count '('.toUInt8 =
    (byteRange t opened closed).count ')'.toUInt8
  ahead : ∀ n, 0 < n → n < closed + 1 - opened →
    ((byteRange t opened closed).take n).count ')'.toUInt8 <
      ((byteRange t opened closed).take n).count '('.toUInt8

/-- The range of two parentheses, in bytes and in characters. -/
theorem byteRange_parentheses (before list after : Text) :
    byteRange (before ++ '(' :: (list ++ ')' :: after)) (size before) (size before + 1 + size list) =
      bytes ('(' :: (list ++ [')'])) := by
  have htext : before ++ '(' :: (list ++ ')' :: after) =
      before ++ ('(' :: (list ++ [')']) ++ after) := by simp
  have hsize : size before + 1 + size list + 1 - size before = size ('(' :: (list ++ [')'])) := by
    have hopen : '('.utf8Size = 1 := rfl
    have hclose : ')'.utf8Size = 1 := rfl
    rw [size_cons, size_append, size_cons, size_nil, hopen, hclose]
    omega
  rw [byteRange, htext, hsize, take_drop_bytes]

/-- Partners enclose a balanced stretch, counted in bytes. -/
theorem encloses_of_partners {t : Text} {opened closed : Nat} (h : Partners t opened closed) :
    Encloses t opened closed := by
  obtain ⟨before, list, after, rfl, hbalanced, rfl, rfl⟩ := h
  have hopen : '('.utf8Size = 1 := rfl
  have hclose : ')'.utf8Size = 1 := rfl
  refine ⟨by omega, ?_, ?_⟩
  · rw [byteRange_parentheses, count_bytes hopen, count_bytes hclose, count_eq_iff, excess_cons,
      excess_append, hbalanced.settled, excess_open, excess_close]
    rfl
  · intro n hpos hlt
    -- the characters that lie in the first `n` bytes are the first parenthesis and a part of the list
    have hfirst : fitting n ('(' :: (list ++ [')'])) = '(' :: fitting (n - 1) (list ++ [')']) := by
      rw [fitting, hopen, if_pos (Nat.one_le_iff_ne_zero.mpr (Nat.ne_of_gt hpos))]
    have hpart : fitting (n - 1) (list ++ [')']) <+: list := by
      refine isPrefix_of_size_le (fitting_isPrefix _ _) (List.prefix_append _ _) ?_
      have hle := size_fitting_le (n - 1) (list ++ [')'])
      omega
    have hahead := hbalanced.ahead _ hpart
    rw [byteRange_parentheses, count_take_bytes hopen, count_take_bytes hclose, hfirst,
      count_lt_iff, excess_cons, excess_open]
    omega

/-- Only partners enclose a balanced stretch. -/
theorem partners_of_encloses {t : Text} {opened closed : Nat}
    (hopened : t.bytes[opened]? = some '('.toUInt8) (hclosed : t.bytes[closed]? = some ')'.toUInt8)
    (h : Encloses t opened closed) : Partners t opened closed := by
  have hopen : '('.utf8Size = 1 := rfl
  have hclose : ')'.utf8Size = 1 := rfl
  obtain ⟨before, post, ht, rfl⟩ := exists_of_getElem?_bytes hopen hopened
  obtain ⟨pre, after, ht', rfl⟩ := exists_of_getElem?_bytes hclose hclosed
  -- the closing parenthesis stands behind the opening one, with the list between them
  obtain ⟨list, rfl⟩ : before ++ ['('] <+: pre := by
    refine isPrefix_of_size_le ⟨post, by rw [ht]; simp⟩ ⟨')' :: after, ht'.symm⟩ ?_
    have hlt := h.lt
    rw [size_append, size_cons, size_nil, hopen]
    omega
  have htext : t = before ++ '(' :: (list ++ ')' :: after) := by
    rw [ht']
    simp
  have hsize : size (before ++ ['('] ++ list) = size before + 1 + size list := by
    rw [size_append, size_append, size_cons, size_nil, hopen]
  rw [hsize] at h ⊢
  subst htext
  obtain ⟨-, hsettled, hahead⟩ := h
  rw [byteRange_parentheses] at hsettled hahead
  refine ⟨before, list, after, rfl, ⟨?_, ?_⟩, rfl, rfl⟩
  · rw [count_bytes hopen, count_bytes hclose, count_eq_iff, excess_cons, excess_append, excess_open,
      excess_close] at hsettled
    omega
  · rintro p ⟨q, rfl⟩
    -- the parenthesis and the part `p` are the first bytes of the range
    have hcut := hahead (size ('(' :: p)) (by rw [size_cons, hopen]; omega) (by
      rw [size_cons, size_append, hopen]
      omega)
    have hbytes : (bytes ('(' :: (p ++ q ++ [')']))).take (size ('(' :: p)) = bytes ('(' :: p) := by
      have hcuts := take_drop_bytes [] ('(' :: p) (q ++ [')'])
      simpa using hcuts
    rw [hbytes, count_bytes hopen, count_bytes hclose, count_lt_iff, excess_cons, excess_open] at hcut
    omega

/-- Parentheses are matched exactly, whatever stands around them. The search forward from an opening
parenthesis ends at a closing one if and only if the search back from there ends at the first; and
it does so if and only if the bytes from the one to the other open as many parentheses as they
close, while every part from the start on, short of the whole, opens more. It fails exactly when
there is no such closing parenthesis. -/
theorem parentheses_have_partners {t : Text} {opened : Nat}
    (hopened : t.bytes[opened]? = some '('.toUInt8) :
    (∀ closed, t.bytes[closed]? = some ')'.toUInt8 →
      (closingParen t opened = some closed ↔ openingParen t closed = some opened) ∧
      (closingParen t opened = some closed ↔ Encloses t opened closed)) ∧
    (closingParen t opened = none ↔
      ¬ ∃ closed, t.bytes[closed]? = some ')'.toUInt8 ∧ Encloses t opened closed) := by
  have hopen : '('.utf8Size = 1 := rfl
  have hclose : ')'.utf8Size = 1 := rfl
  have hforward : ∀ closed, closingParen t opened = some closed ↔ Partners t opened closed := by
    obtain ⟨pre, post, rfl, rfl⟩ := exists_of_getElem?_bytes hopen hopened
    exact fun closed => closingParen_eq_some_iff
  have hencloses : ∀ closed, t.bytes[closed]? = some ')'.toUInt8 →
      (closingParen t opened = some closed ↔ Encloses t opened closed) := by
    intro closed hclosed
    rw [hforward]
    exact ⟨encloses_of_partners, partners_of_encloses hopened hclosed⟩
  refine ⟨?_, ?_⟩
  · intro closed hclosed
    refine ⟨?_, hencloses closed hclosed⟩
    rw [hforward]
    obtain ⟨pre, post, rfl, rfl⟩ := exists_of_getElem?_bytes hclose hclosed
    exact openingParen_eq_some_iff.symm
  · rw [Option.eq_none_iff_forall_ne_some]
    constructor
    · rintro hnone ⟨closed, hclosed, hranges⟩
      exact hnone closed ((hencloses closed hclosed).mpr hranges)
    · intro hnot closed hfound
      -- what is found is a closing parenthesis
      obtain ⟨before, list, after, ht, -, -, hat⟩ := (hforward closed).mp hfound
      have hclosed : t.bytes[closed]? = some ')'.toUInt8 := by
        have hcut := getElem?_bytes hclose (before ++ '(' :: list) after
        rw [ht, hat]
        simpa [hopen, Nat.add_assoc] using hcut
      exact hnot ⟨closed, hclosed, (hencloses closed hclosed).mp hfound⟩

/-- The parenthesis behind a character of two bytes, with unmatched ones before and after it. -/
theorem nested_parenthesis_has_partner :
    (bytes "é)(ü(b)c)(".toList)[3]? = some '('.toUInt8 ∧
    (bytes "é)(ü(b)c)(".toList)[10]? = some ')'.toUInt8 ∧
    openingParen "é)(ü(b)c)(".toList 10 = some 3 ∧ Encloses "é)(ü(b)c)(".toList 3 10 := by
  have hopened : (bytes "é)(ü(b)c)(".toList)[3]? = some '('.toUInt8 := by decide
  have hclosed : (bytes "é)(ü(b)c)(".toList)[10]? = some ')'.toUInt8 := by decide
  have hfound : closingParen "é)(ü(b)c)(".toList 3 = some 10 := by decide
  obtain ⟨hback, hencloses⟩ := (parentheses_have_partners hopened).1 10 hclosed
  exact ⟨hopened, hclosed, hback.mp hfound, hencloses.mp hfound⟩

end NamingLint
