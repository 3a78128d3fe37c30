import NamingLint.Proofs.Text.Bytes

/-!
# NamingLint — the UTF-8 form of a text

Offsets count bytes of the UTF-8 form. A character of one byte is the byte with its code, and no byte
of a longer character looks like one. So a byte that looks like such a character is one, and a run of
bytes has as many of them as the characters that lie in it whole.

* `bytes` — the UTF-8 form.
* `fitting` — the characters that lie within the first bytes as a whole.

Main results:

* `exists_of_getElem?_bytes` — a byte that looks like a character of one byte is that character.
* `count_take_bytes` — characters of one byte, counted in the bytes and in the text.
-/

namespace NamingLint.Text

/-- The UTF-8 form of a text. -/
def bytes (t : Text) : List UInt8 :=
  t.flatMap String.utf8EncodeChar

@[simp] theorem bytes_nil : bytes [] = [] := rfl

@[simp] theorem bytes_cons (c : Char) (t : Text) :
    bytes (c :: t) = String.utf8EncodeChar c ++ bytes t := rfl

@[simp] theorem bytes_append (t u : Text) : bytes (t ++ u) = bytes t ++ bytes u :=
  List.flatMap_append

@[simp] theorem length_bytes (t : Text) : (bytes t).length = size t := by
  induction t with
  | nil => rfl
  | cons c t ih => rw [bytes_cons, List.length_append, String.length_utf8EncodeChar, ih, size_cons]

/-! ## Single characters -/

theorem toNat_le_of_size_one {a : Char} (h : a.utf8Size = 1) : a.toNat ≤ 127 :=
  UInt32.le_iff_toNat_le.mp (Char.utf8Size_eq_one_iff.mp h)

theorem toNat_toUInt8 {a : Char} (h : a.utf8Size = 1) : a.toUInt8.toNat = a.toNat := by
  have hle := toNat_le_of_size_one h
  have hmod : a.toUInt8.toNat = a.toNat % 256 := UInt32.toNat_toUInt8 a.val
  omega

theorem toUInt8_inj {a c : Char} (ha : a.utf8Size = 1) (hc : c.utf8Size = 1) :
    c.toUInt8 = a.toUInt8 ↔ c = a := by
  rw [← UInt8.toNat_inj, toNat_toUInt8 ha, toNat_toUInt8 hc, Char.toNat_inj]

/-- No byte of a longer character looks like a character of one byte. -/
theorem le_of_mem_utf8EncodeChar {c : Char} (h : c.utf8Size ≠ 1) {b : UInt8}
    (hb : b ∈ String.utf8EncodeChar c) : 128 ≤ b.toNat := by
  have hlong : ¬ c.val.toNat ≤ 127 := by
    intro hle
    exact h (Char.utf8Size_eq_one_iff.mpr (UInt32.le_iff_toNat_le.mpr hle))
  -- every byte is some bits above an offset of at least 128
  unfold String.utf8EncodeChar at hb
  simp only [if_neg hlong] at hb
  split at hb
  · simp only [List.mem_cons, List.not_mem_nil, or_false] at hb
    rcases hb with rfl | rfl <;> (rw [UInt8.toNat_ofNat']; omega)
  · split at hb
    · simp only [List.mem_cons, List.not_mem_nil, or_false] at hb
      rcases hb with rfl | rfl | rfl <;> (rw [UInt8.toNat_ofNat']; omega)
    · simp only [List.mem_cons, List.not_mem_nil, or_false] at hb
      rcases hb with rfl | rfl | rfl | rfl <;> (rw [UInt8.toNat_ofNat']; omega)

/-- The only character with the byte of a character of one byte is that character. -/
theorem mem_utf8EncodeChar_iff {a : Char} (ha : a.utf8Size = 1) (c : Char) :
    a.toUInt8 ∈ String.utf8EncodeChar c ↔ c = a := by
  by_cases hc : c.utf8Size = 1
  · rw [String.utf8EncodeChar_eq_singleton hc, List.mem_singleton, eq_comm]
    exact toUInt8_inj ha hc
  · constructor
    · intro hmem
      -- the bytes of longer characters are all above 127
      have hhigh := le_of_mem_utf8EncodeChar hc hmem
      have hlow := toNat_le_of_size_one ha
      rw [toNat_toUInt8 ha] at hhigh
      omega
    · rintro rfl
      exact absurd ha hc

/-- The byte of such a character stands in no other's encoding. -/
theorem count_utf8EncodeChar {a : Char} (ha : a.utf8Size = 1) (c : Char) :
    (String.utf8EncodeChar c).count a.toUInt8 = [c].count a := by
  by_cases hc : c = a
  · subst hc
    rw [String.utf8EncodeChar_eq_singleton ha, List.count_singleton_self]
    exact List.count_singleton_self
  · rw [List.count_eq_zero_of_not_mem (fun h => hc ((mem_utf8EncodeChar_iff ha c).mp h)),
      List.count_eq_zero_of_not_mem (by simpa using Ne.symm hc)]

/-! ## Texts -/

/-- A byte that looks like a character of one byte is that character. -/
theorem exists_of_getElem?_bytes {a : Char} (ha : a.utf8Size = 1) {t : Text} {n : Nat}
    (h : (bytes t)[n]? = some a.toUInt8) : ∃ pre post, t = pre ++ a :: post ∧ n = size pre := by
  induction t generalizing n with
  | nil => simp at h
  | cons c t ih =>
    rw [bytes_cons, List.getElem?_append, String.length_utf8EncodeChar] at h
    split at h
    · -- the byte is one of `c`, or further on
      rename_i hlt
      obtain rfl : c = a := (mem_utf8EncodeChar_iff ha c).mp (List.mem_of_getElem? h)
      exact ⟨[], t, rfl, by rw [size_nil]; omega⟩
    · obtain ⟨pre, post, ht, hn⟩ := ih h
      exact ⟨c :: pre, post, by rw [ht, List.cons_append], by rw [size_cons]; omega⟩

/-- The byte of such a character stands at its offset. -/
theorem getElem?_bytes {a : Char} (ha : a.utf8Size = 1) (pre post : Text) :
    (bytes (pre ++ a :: post))[size pre]? = some a.toUInt8 := by
  rw [bytes_append, ← length_bytes, List.getElem?_append_right (Nat.le_refl _), Nat.sub_self,
    bytes_cons, String.utf8EncodeChar_eq_singleton ha]
  rfl

/-- The bytes of a text have the byte of such a character as often as the text has it. -/
theorem count_bytes {a : Char} (ha : a.utf8Size = 1) (t : Text) :
    (bytes t).count a.toUInt8 = t.count a := by
  induction t with
  | nil => rfl
  | cons c t ih =>
    rw [bytes_cons, List.count_append, count_utf8EncodeChar ha, ih, ← List.count_append]
    rfl

/-- The bytes of a part of a text. -/
theorem take_drop_bytes (a u b : Text) :
    ((bytes (a ++ (u ++ b))).drop (size a)).take (size u) = bytes u := by
  rw [bytes_append, bytes_append, ← length_bytes a, ← length_bytes u, List.drop_left, List.take_left]

/-- The characters that lie within the first `n` bytes as a whole. -/
def fitting : Nat → Text → Text
  | _, [] => []
  | n, c :: t => if c.utf8Size ≤ n then c :: fitting (n - c.utf8Size) t else []

/-- What fits is the start of the text. -/
theorem fitting_isPrefix (n : Nat) (t : Text) : fitting n t <+: t := by
  fun_induction fitting n t with
  | case1 => exact List.nil_prefix
  | case2 n c t h ih => exact (List.prefix_cons_inj c).mpr ih
  | case3 => exact List.nil_prefix

/-- What fits is within the bound. -/
theorem size_fitting_le (n : Nat) (t : Text) : size (fitting n t) ≤ n := by
  fun_induction fitting n t with
  | case1 => exact Nat.zero_le _
  | case2 n c t h ih => rw [size_cons]; omega
  | case3 => exact Nat.zero_le _

/-- The first bytes have as many characters of one byte as the characters that lie in them whole:
a character that is cut off has no such byte. -/
theorem count_take_bytes {a : Char} (ha : a.utf8Size = 1) (n : Nat) (t : Text) :
    ((bytes t).take n).count a.toUInt8 = (fitting n t).count a := by
  fun_induction fitting n t with
  | case1 n => simp
  | case2 n c t h ih =>
    rw [bytes_cons, List.take_append, String.length_utf8EncodeChar, List.count_append, ih,
      List.take_of_length_le (by rw [String.length_utf8EncodeChar]; exact h),
      count_utf8EncodeChar ha, ← List.count_append]
    rfl
  | case3 n c t h =>
    -- a character cut in two is longer than a byte, so none of its bytes counts
    have hnot : a.toUInt8 ∉ (bytes (c :: t)).take n := by
      rw [bytes_cons, List.take_append_of_le_length (by rw [String.length_utf8EncodeChar]; omega)]
      intro hmem
      have hpos : n ≠ 0 := by
        rintro rfl
        simp at hmem
      obtain rfl : c = a := (mem_utf8EncodeChar_iff ha c).mp (List.mem_of_mem_take hmem)
      omega
    rw [List.count_eq_zero_of_not_mem hnot, List.count_nil]

end NamingLint.Text
