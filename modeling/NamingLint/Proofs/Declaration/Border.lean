import NamingLint.Proofs.Declaration.Occurrence

/-!
# NamingLint — the borders of names

What stands before a name is put together from pieces. Most of them end in blanks or in marks, so no
identifier runs over from there into the name. After a word without blanks, one may.

* `Text.EndsApart` — no identifier goes on at the end of a text, unless the text ends in one of some
  words.
* `Piece.EndsApart`, `Piece.Separates` — what a piece takes ends so; a piece that separates takes
  something.
* `Shape.Delimits` — the names of a shape stand apart from what is before them, and name and rest
  are as told.

Main results:

* `Piece.modifiers_endsApart`, … — the pieces that stand before names.
* `exists_of_mem_occurrences_of_delimits` — the name of an occurrence between its borders.
-/

namespace NamingLint

/-! ## Texts -/

namespace Text

/-- No identifier goes on at the end of the text, unless one of some words stands there. -/
def EndsApart (words : List String) (t : Text) : Prop :=
  t.getLast?.any isIdent = true → ∃ w ∈ words, w.toList <:+ t

variable {words : List String} {t u : Text}

/-- A text that ends in no identifier character ends apart. -/
theorem endsApart_of_false (h : t.getLast?.any isIdent = false) : EndsApart words t := by
  intro hlast
  rw [h] at hlast
  simp at hlast

/-- Without words, no identifier goes on. -/
theorem EndsApart.eq_false (h : EndsApart [] t) : t.getLast?.any isIdent = false := by
  rw [Bool.eq_false_iff]
  intro hlast
  obtain ⟨w, hw, -⟩ := h hlast
  simp at hw

theorem EndsApart.nil : EndsApart words [] :=
  endsApart_of_false rfl

/-- What a text ends in does not depend on what stands before it. -/
theorem EndsApart.append_left (h : EndsApart words u) (hu : u ≠ []) (t : Text) :
    EndsApart words (t ++ u) := by
  intro hlast
  rw [List.getLast?_append_of_ne_nil t hu] at hlast
  obtain ⟨w, hw, hsuffix⟩ := h hlast
  exact ⟨w, hw, hsuffix.trans (List.suffix_append t u)⟩

/-- Texts that end apart do so together, the second one being empty or not. -/
theorem EndsApart.append (ht : EndsApart words t) (hu : EndsApart words u) :
    EndsApart words (t ++ u) := by
  by_cases hnil : u = []
  · -- an empty second text leaves the end to the first
    rwa [hnil, List.append_nil]
  · exact hu.append_left hnil t

/-- A text without identifier characters ends apart. -/
theorem endsApart_of_forall (h : ∀ c ∈ t, isIdent c = false) : EndsApart words t := by
  apply endsApart_of_false
  cases hlast : t.getLast? with
  | none => rfl
  | some c => exact h c (List.mem_of_getLast? hlast)

/-- Many texts that end apart, one after the other. -/
theorem EndsApart.flatten {ts : List Text} (h : ∀ t ∈ ts, EndsApart words t) :
    EndsApart words ts.flatten := by
  induction ts with
  | nil => exact .nil
  | cons t ts ih =>
    rw [List.flatten_cons]
    exact (h t List.mem_cons_self).append (ih fun u hu => h u (List.mem_cons_of_mem t hu))

/-- A word that is allowed to stand before a name. -/
theorem endsApart_of_mem {w : String} (h : w ∈ words) : EndsApart words w.toList :=
  fun _ => ⟨w, h, List.suffix_refl _⟩

theorem not_isIdent_of_isBlank {c : Char} (h : isBlank c = true) : isIdent c = false := by
  rw [Bool.eq_false_iff]
  intro hc
  rw [not_isBlank_of_isIdent hc] at h
  simp at h

/-- After all characters of a class there is none of the class. -/
theorem any_head?_dropWhile (p : Char → Bool) (t : Text) : (t.dropWhile p).head?.any p = false := by
  have h := List.head?_dropWhile_not p t
  cases hhead : (t.dropWhile p).head? with
  | none => rfl
  | some c =>
    rw [hhead] at h
    exact h

/-- Nothing of a class in front of two texts is nothing of it in front of both. -/
theorem any_head?_append {p : Char → Bool} (ht : t.head?.any p = false)
    (hu : u.head?.any p = false) : (t ++ u).head?.any p = false := by
  cases t with
  | nil => exact hu
  | cons c t => exact ht

end Text

open Text

/-! ## Pieces -/

namespace Piece

variable {words : List String} {p q : Piece}

/-- What the piece takes ends apart. -/
def EndsApart (words : List String) (p : Piece) : Prop :=
  ∀ ⦃t a r : Text⦄, p.take t = some (a, r) → Text.EndsApart words a

/-- The piece takes something, and that ends apart. -/
def Separates (words : List String) (p : Piece) : Prop :=
  ∀ ⦃t a r : Text⦄, p.take t = some (a, r) → a ≠ [] ∧ Text.EndsApart words a

theorem Separates.endsApart (h : p.Separates words) : p.EndsApart words :=
  fun _ _ _ htake => (h htake).2

theorem EndsApart.andThen (hp : p.EndsApart words) (hq : q.EndsApart words) :
    (p.andThen q).EndsApart words := by
  intro t a r h
  obtain ⟨a₁, r₁, a₂, h₁, h₂, rfl⟩ := take_andThen h
  exact (hp h₁).append (hq h₂)

/-- A piece that separates does so after whatever piece. -/
theorem Separates.after (hq : q.Separates words) (p : Piece) : (p.andThen q).Separates words := by
  intro t a r h
  obtain ⟨a₁, r₁, a₂, -, h₂, rfl⟩ := take_andThen h
  obtain ⟨hne, hapart⟩ := hq h₂
  exact ⟨by simp [hne], hapart.append_left hne a₁⟩

/-- A piece that separates may be followed by one that only ends apart. -/
theorem Separates.andThen (hp : p.Separates words) (hq : q.EndsApart words) :
    (p.andThen q).Separates words := by
  intro t a r h
  obtain ⟨a₁, r₁, a₂, h₁, h₂, rfl⟩ := take_andThen h
  obtain ⟨hne, hapart⟩ := hp h₁
  exact ⟨by simp [hne], hapart.append (hq h₂)⟩

theorem nothing_endsApart : nothing.EndsApart words := by
  intro t a r h
  simp only [nothing, Option.some.injEq, Prod.mk.injEq] at h
  exact h.1 ▸ .nil

/-- The end of a word takes nothing, and no word character follows it. -/
theorem take_wordEnd {t a r : Text} (h : wordEnd.take t = some (a, r)) :
    a = [] ∧ r.head?.any isWord = false := by
  simp only [wordEnd] at h
  split at h
  · simp at h
  · rename_i hhead
    simp only [Option.some.injEq, Prod.mk.injEq] at h
    obtain ⟨rfl, rfl⟩ := h
    exact ⟨rfl, by simpa using hhead⟩

theorem wordEnd_endsApart : wordEnd.EndsApart words := by
  intro t a r h
  rw [(take_wordEnd h).1]
  exact .nil

/-- An optional piece that is missing takes nothing. -/
theorem optional_endsApart (hp : p.EndsApart words) : (optional p).EndsApart words := by
  intro t a r h
  rcases take_optional h with h | rfl
  · exact hp h
  · exact .nil

/-- A run of other characters than those of identifiers. -/
theorem many_endsApart {f : Char → Bool} (hf : ∀ c, f c = true → isIdent c = false) :
    (many f).EndsApart words := by
  intro t a r h
  simp only [many, Option.some.injEq, Prod.mk.injEq] at h
  rw [← h.1]
  exact endsApart_of_forall fun c hc => hf c (List.mem_takeWhile_imp hc)

theorem many1_separates {f : Char → Bool} (hf : ∀ c, f c = true → isIdent c = false) :
    (many1 f).Separates words := by
  intro t a r h
  obtain ⟨hne, rfl, -⟩ := take_many1 h
  exact ⟨hne, endsApart_of_forall fun c hc => hf c (List.mem_takeWhile_imp hc)⟩

/-- A single character that is none of an identifier. -/
theorem one_separates {f : Char → Bool} (hf : ∀ c, f c = true → isIdent c = false) :
    (one f).Separates words := by
  intro t a r h
  cases t with
  | nil => simp [one] at h
  | cons c t =>
    simp only [one] at h
    split at h
    · rename_i hc
      cases h
      -- the character is taken, so it is in the class
      exact ⟨List.cons_ne_nil _ _, endsApart_of_false (by simp [hf c hc])⟩
    · simp at h

/-- A fixed word takes itself. -/
theorem take_word {w : String} {t a r : Text} (h : (word w).take t = some (a, r)) :
    a = w.toList := by
  simp only [word] at h
  split at h
  · rename_i hprefix
    simp only [Option.some.injEq, Prod.mk.injEq] at h
    rw [← h.1]
    exact (List.prefix_iff_eq_take.mp (List.isPrefixOf_iff_prefix.mp hprefix)).symm
  · simp at h

/-- A word that is not empty and ends apart. -/
theorem word_separates {w : String} (hw : w.toList ≠ []) (hapart : Text.EndsApart words w.toList) :
    (word w).Separates words := by
  intro t a r h
  rw [take_word h]
  exact ⟨hw, hapart⟩

theorem blanks_endsApart : blanks.EndsApart words :=
  many_endsApart fun _ => not_isIdent_of_isBlank

theorem blanks1_separates : blanks1.Separates words :=
  many1_separates fun _ => not_isIdent_of_isBlank

theorem indent_endsApart : indent.EndsApart words := by
  apply many_endsApart
  intro c hc
  simp only [Bool.or_eq_true, decide_eq_true_eq] at hc
  rcases hc with rfl | rfl <;> decide

/-- Every modifier of a run has blanks at its end. -/
theorem modifierRun_endsApart (modifiers : List String) (fuel : Nat) (t : Text) :
    ∀ m ∈ (modifierRun modifiers fuel t).1, Text.EndsApart words m := by
  induction fuel generalizing t with
  | zero => simp [modifierRun]
  | succ fuel ih =>
    rw [modifierRun]
    split
    · simp
    · rename_i modifier rest h
      split
      · intro m hm
        rcases List.mem_cons.mp hm with rfl | hm
        · -- a modifier comes with the blanks after it
          exact (blanks1_separates.after identifier).endsApart h
        · exact ih rest m hm
      · simp

/-- The modifiers that are taken end apart, and so does the text of all of them. -/
theorem modifiers_endsApart (modifierWords : List String) (least : Nat) :
    (modifiers modifierWords least).EndsApart words := by
  intro t a r h
  simp only [modifiers] at h
  split at h
  · simp only [Option.some.injEq, Prod.mk.injEq] at h
    -- whether or not the last modifier of the run is the name, those before it are whole
    rw [← h.1]
    exact .flatten fun m hm => modifierRun_endsApart _ _ t m (List.mem_of_mem_take hm)
  · simp at h

end Piece

/-! ## Shapes -/

namespace Shape

variable {words : List String} {after : Text → Text → Prop}

/-- What stands before the names that the shape finds ends apart, and a name and what comes after it
are as told. -/
def Delimits (s : Shape) (words : List String) (after : Text → Text → Prop) : Prop :=
  ∀ ⦃pre post : Text⦄ ⦃m : Match⦄, s.find pre.getLast? (m.text ++ post) = some m →
    EndsApart words (pre ++ m.lead) ∧ after m.name (m.tail ++ post)

/-- Each alternative delimits its names. -/
theorem Delimits.orElse {s r : Shape} (hs : s.Delimits words after) (hr : r.Delimits words after) :
    (s.orElse r).Delimits words after := by
  intro pre post m h
  rcases find_orElse h with h | h
  · exact hs h
  · exact hr h

variable {starts : Option Char → Bool} {lead name tail : Piece}

/-- A shape of pieces delimits its names if its start and lead do on the left, and its name does on
the right. -/
theorem delimits_ofPieces
    (hlead : ∀ {pre t a r : Text}, starts pre.getLast? = true → lead.take t = some (a, r) →
      EndsApart words (pre ++ a))
    (hname : ∀ {t a r : Text}, name.take t = some (a, r) → after a r) :
    (ofPieces starts lead name tail).Delimits words after := by
  intro pre post m h
  obtain ⟨hstart, r₁, r₂, r₃, hl, hn, ht⟩ := find_ofPieces h
  refine ⟨hlead hstart hl, ?_⟩
  -- what the three pieces left of the text is what stands after the match
  have hrest : r₂ = m.tail ++ post := by
    have htext : m.lead ++ (m.name ++ r₂) = m.text ++ post := by
      rw [name.append_eq hn, lead.append_eq hl]
    simpa [Match.text] using htext
  rw [← hrest]
  exact hname hn

/-- A lead that takes something in any case. -/
theorem delimits_of_separates (hlead : lead.Separates words)
    (hname : ∀ {t a r : Text}, name.take t = some (a, r) → after a r) :
    (ofPieces starts lead name tail).Delimits words after := by
  refine delimits_ofPieces ?_ hname
  intro pre t a r _ h
  obtain ⟨hne, hapart⟩ := hlead h
  exact hapart.append_left hne pre

/-- A lead that may take nothing, at places where nothing goes on. -/
theorem delimits_of_endsApart
    (hstart : ∀ {pre : Text}, starts pre.getLast? = true → EndsApart words pre)
    (hlead : lead.EndsApart words)
    (hname : ∀ {t a r : Text}, name.take t = some (a, r) → after a r) :
    (ofPieces starts lead name tail).Delimits words after :=
  delimits_ofPieces (fun hs h => (hstart hs).append (hlead h)) hname

/-- At the start of a line nothing stands before, or a line feed. -/
theorem endsApart_of_atLineStart {pre : Text} (h : atLineStart pre.getLast? = true) :
    EndsApart words pre := by
  apply endsApart_of_false
  simp only [atLineStart, Bool.or_eq_true, decide_eq_true_eq] at h
  rcases h with h | h <;> rw [h] <;> rfl

end Shape

/-- The name of an occurrence, between its borders. -/
theorem exists_of_mem_occurrences_of_delimits {shape : Shape} {words : List String}
    {after : Text → Text → Prop} (hs : shape.Delimits words after) {o : Occurrence} {t : Text}
    (h : o ∈ occurrences shape t) :
    ∃ pre post, t = pre ++ o.found.name ++ post ∧ o.nameStart = size pre ∧
      EndsApart words pre ∧ after o.found.name post := by
  obtain ⟨pre, post, ht, hstart, hfind⟩ := exists_of_mem_occurrences h
  obtain ⟨hapart, hafter⟩ := hs hfind
  refine ⟨pre ++ o.found.lead, o.found.tail ++ post, ?_, ?_, hapart, hafter⟩
  · rw [ht, Match.text]
    simp
  · rw [Occurrence.nameStart, hstart, size_append]

end NamingLint
