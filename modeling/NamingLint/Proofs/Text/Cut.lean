import NamingLint.Proofs.Text.Bytes

/-!
# NamingLint — cuts that are checked

`slice` gives something for every range of bytes. A range that is not in order, that leaves the text
or that splits a character is a mistake all the same, and `slice?` refuses it.

* `isCut` — may a text be cut at a byte?
* `slice?` — the characters of a range whose two ends are in order and may both be cut at.

Main results:

* `isCut_iff` — cuts are made at the sizes of prefixes.
* `slice?_eq_some_iff` — what is cut out is a part of the text, at its offset.
-/

namespace NamingLint.Text

/-- A text is cut in one way only at a byte. -/
theorem append_inj_of_size {a b a' b' : Text} (h : a ++ b = a' ++ b') (hsize : size a = size a') :
    a = a' ∧ b = b' := by
  have ha := takeBytes_size a b
  have hb := dropBytes_size a b
  rw [h, hsize, takeBytes_size] at ha
  rw [h, hsize, dropBytes_size] at hb
  exact ⟨ha.symm, hb.symm⟩

/-- Of two prefixes, the one of smaller size is a prefix of the other. -/
theorem isPrefix_of_size_le {a b t : Text} (ha : a <+: t) (hb : b <+: t) (hsize : size a ≤ size b) :
    a <+: b := by
  rcases List.prefix_or_prefix_of_prefix ha hb with h | ⟨u, rfl⟩
  · exact h
  · -- the longer one cannot have more bytes, so nothing is left over
    cases u with
    | nil => exact ⟨[], by simp⟩
    | cons c u =>
      obtain ⟨n, hn⟩ := exists_size_cons c u
      rw [size_append, hn] at hsize
      omega

/-! ## Places of cuts -/

/-- Does a character start at byte `n`, or does the text end there? -/
def isCut : Nat → Text → Bool
  | 0, _ => true
  | _ + 1, [] => false
  | n + 1, c :: t => c.utf8Size ≤ n + 1 && isCut (n + 1 - c.utf8Size) t

/-- A text can be cut behind each of its starts. -/
theorem isCut_size (a b : Text) : isCut (size a) (a ++ b) = true := by
  induction a with
  | nil => simp [isCut]
  | cons c a ih =>
    obtain ⟨n, hn⟩ := exists_size_cons c a
    rw [hn, List.cons_append, isCut, ← hn, size_cons, Nat.add_sub_cancel_left, ih]
    simp

/-- A text may be cut at the sizes of its prefixes. -/
theorem isCut_iff {n : Nat} {t : Text} :
    isCut n t = true ↔ ∃ a b, t = a ++ b ∧ n = size a := by
  constructor
  · intro h
    induction t generalizing n with
    | nil =>
      cases n with
      | zero => exact ⟨[], [], rfl, rfl⟩
      | succ n => cases h
    | cons c t ih =>
      cases n with
      | zero => exact ⟨[], c :: t, rfl, rfl⟩
      | succ n =>
        rw [isCut, Bool.and_eq_true, decide_eq_true_eq] at h
        -- a cut behind `c` is a cut of the rest, that many bytes further on
        obtain ⟨a, b, rfl, ha⟩ := ih h.2
        exact ⟨c :: a, b, rfl, by rw [size_cons]; omega⟩
  · rintro ⟨a, b, rfl, rfl⟩
    exact isCut_size a b

/-! ## Slices -/

/-- The characters of a byte range; there are none if the range is not in order, leaves the text or
splits a character. -/
def slice? (t : Text) (s : Span) : Option Text :=
  if s.start ≤ s.stop ∧ isCut s.start t = true ∧ isCut s.stop t = true then
    some (t.slice s)
  else none

/-- Bounds that lie between characters give a slice. -/
theorem slice?_size (a u b : Text) :
    slice? (a ++ (u ++ b)) ⟨size a, size a + size u⟩ = some u := by
  have hstop : isCut (size a + size u) (a ++ (u ++ b)) = true := by
    rw [← size_append, ← List.append_assoc]
    exact isCut_size _ b
  rw [slice?, if_pos ⟨Nat.le_add_right _ _, isCut_size _ _, hstop⟩, slice_size]

/-- What is cut out is a part of the text, at its offset. -/
theorem slice?_eq_some_iff {t u : Text} {s : Span} :
    t.slice? s = some u ↔ ∃ a b, t = a ++ (u ++ b) ∧ s = ⟨size a, size a + size u⟩ := by
  constructor
  · intro h
    unfold slice? at h
    split at h
    · rename_i hs
      obtain ⟨a, r, rfl, hstart⟩ := isCut_iff.mp hs.2.1
      obtain ⟨p, b, hp, hstop⟩ := isCut_iff.mp hs.2.2
      -- the end is cut behind the start, so the part lies between the two
      obtain ⟨v, rfl⟩ : a <+: p :=
        isPrefix_of_size_le (List.prefix_append a r) ⟨b, hp.symm⟩ (by omega)
      rw [List.append_assoc] at hp
      obtain rfl : r = v ++ b := List.append_cancel_left hp
      have hspan : s = ⟨size a, size a + size v⟩ := by
        rw [← size_append, ← hstart, ← hstop]
      rw [hspan, slice_size] at h
      cases h
      exact ⟨a, b, rfl, hspan⟩
    · cases h
  · rintro ⟨a, b, rfl, rfl⟩
    exact slice?_size a u b

end NamingLint.Text
