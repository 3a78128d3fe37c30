import NamingLint.Proofs.Declaration.Contract
import NamingLint.Rule.Construct

/-!
# NamingLint — names are whole identifiers

The name of a declaration is all of an identifier: none goes on behind it, and none runs over into it
from the left. There are two exceptions on the left, where a word is taken without blanks after it:
`function` before a name that starts with a dollar sign, and `return` or `async` before a bare
parameter. The word `any` has an exception on the right, where a dollar sign ends a word and goes on
in an identifier.

* `Kind.gluedWords` — the words that may stand glued to names of a kind.
* `Declaration.WholeIn` — a name that is whole, up to glued words.

Main results:

* `wholeIn_of_mem_declarations` — the declarations of every kind.
* `exists_of_mem_anyOffsets` — the word `any`.
* `names_are_whole_unless_glued` — for every text, where exactly names are not whole.
-/

namespace NamingLint

open Text

/-! ## Declarations of a shape -/

/-- A name is an identifier, and none goes on after it. -/
def EndsName (name rest : Text) : Prop :=
  IsIdentifier name ∧ rest.head?.any isIdent = false

/-- An identifier is taken to its end. -/
theorem Piece.endsName_of_identifier {t a r : Text} (h : identifier.take t = some (a, r)) :
    EndsName a r := by
  obtain ⟨hident, rfl⟩ := take_identifier h
  exact ⟨hident, any_head?_dropWhile isIdent t⟩

/-- The name of the declaration stands at its offset. No identifier goes on behind it, and none runs
over into it, unless one of some words stands right before it. -/
def Declaration.WholeIn (d : Declaration) (words : List String) (t : Text) : Prop :=
  ∃ pre post, t = pre ++ d.name ++ post ∧ d.offset = size pre ∧ EndsApart words pre ∧
    EndsName d.name post

/-- What a delimiting shape finds are whole names. -/
theorem wholeIn_of_mem_declarationsOf {shape : Shape} {words : List String}
    (hs : shape.Delimits words EndsName) {t : Text} {d : Declaration}
    (h : d ∈ declarationsOf shape t) : d.WholeIn words t := by
  obtain ⟨o, ho, rfl⟩ := List.mem_map.mp h
  exact exists_of_mem_occurrences_of_delimits hs ho

section Shapes

variable {words : List String} {starts : Option Char → Bool} {lead tail : Piece}

/-- A lead that takes something, and a name. -/
theorem delimits_of_lead (hlead : lead.Separates words) :
    (Shape.ofPieces starts lead .identifier tail).Delimits words EndsName :=
  Shape.delimits_of_separates hlead Piece.endsName_of_identifier

/-- A lead at the start of a line, and a name. -/
theorem delimits_of_line (hlead : lead.EndsApart words) :
    (Shape.ofPieces Shape.atLineStart lead .identifier tail).Delimits words EndsName :=
  Shape.delimits_of_endsApart Shape.endsApart_of_atLineStart hlead Piece.endsName_of_identifier

/-- Behind a word and blanks a name is whole. -/
theorem delimits_introducedShape (word : String) (tail : Piece) :
    (introducedShape word tail).Delimits words EndsName :=
  delimits_of_lead (Piece.blanks1_separates.after _)

/-- Behind one of the words of bindings a name is whole. -/
theorem delimits_bindingWord (tail : Piece) :
    (Shape.ofPieces starts .bindingWord .identifier tail).Delimits words EndsName :=
  delimits_of_lead (Piece.blanks1_separates.after _)

/-- Indentation and modifiers at the start of a line. -/
theorem delimits_modifiers (modifiers : List String) (least : Nat) :
    (Shape.ofPieces Shape.atLineStart (.seq [.indent, .modifiers modifiers least]) .identifier
      tail).Delimits words EndsName :=
  delimits_of_line (Piece.indent_endsApart.andThen (Piece.modifiers_endsApart modifiers least))

/-- Behind `function` a name is whole, the word itself glued to it aside. -/
theorem delimits_namedFunctionShape : namedFunctionShape.Delimits ["function"] EndsName := by
  have hword : (Piece.word "function").Separates ["function"] :=
    Piece.word_separates (by decide) (endsApart_of_mem List.mem_cons_self)
  have hstar : (Piece.char '*').EndsApart ["function"] :=
    (Piece.one_separates (by simp; decide)).endsApart
  -- star and blanks may all be missing, and then the word stands right before the name
  refine delimits_of_lead (hword.andThen (Piece.wordEnd_endsApart.andThen ?_))
  exact Piece.blanks_endsApart.andThen
    ((Piece.optional_endsApart hstar).andThen Piece.blanks_endsApart)

theorem delimits_assignmentShape : assignmentShape.Delimits words EndsName :=
  delimits_of_lead (Piece.word_separates (by decide) (endsApart_of_false (by decide)))

theorem delimits_bareParameterShape (hlead : lead.Separates words) :
    (bareParameterShape starts lead).Delimits words EndsName :=
  delimits_of_lead (hlead.andThen Piece.blanks_endsApart)

/-- The marks in front of a bare parameter are in no identifier. -/
theorem not_isIdent_of_mayPrecedeBare {c : Char} (h : mayPrecedeBare c = true) :
    isIdent c = false := by
  have hmarks : ['=', '(', ',', '[', '\x7b', '?', '>'].all (fun d => !isIdent d) = true := by decide
  simpa using List.all_eq_true.mp hmarks c (List.contains_iff_mem.mp h)

/-- Bare parameters are whole, but for `return` and `async` glued to them. -/
theorem delimits_bareArrowShape : bareArrowShape.Delimits ["return", "async"] EndsName := by
  refine (delimits_of_line (Piece.nothing_endsApart.andThen Piece.blanks_endsApart)).orElse ?_
  -- after a mark nothing runs over, after a word without blanks something may
  refine (delimits_bareParameterShape (Piece.one_separates fun _ =>
    not_isIdent_of_mayPrecedeBare)).orElse ?_
  refine (delimits_bareParameterShape (Piece.word_separates (by decide) ?_)).orElse
    (delimits_bareParameterShape (Piece.word_separates (by decide) ?_))
  · exact endsApart_of_mem (by decide)
  · exact endsApart_of_mem (by decide)

end Shapes

/-! ## Declarations of a kind -/

/-- Words that may stand glued to a name of this kind. -/
def Kind.gluedWords : Kind → List String
  | .functions => ["function"]
  | .parameters => ["return", "async"]
  | _ => []

/-- Functions are whole names, but for `function` glued to them. -/
theorem wholeIn_of_mem_functionDeclarations {t : Text} {d : Declaration}
    (h : d ∈ functionDeclarations t) : d.WholeIn ["function"] t := by
  have hd := Declaration.mem_of_mem_inOrder h
  rw [List.mem_append, List.mem_append] at hd
  rcases hd with (hd | hd) | hd
  · exact wholeIn_of_mem_declarationsOf delimits_namedFunctionShape hd
  · exact wholeIn_of_mem_declarationsOf (delimits_bindingWord _) hd
  · exact wholeIn_of_mem_declarationsOf (delimits_modifiers _ _) (List.mem_filter.mp hd).1

/-- Properties are whole names. -/
theorem wholeIn_of_mem_propertyMatches {t : Text} {d : Declaration}
    (h : d ∈ declarationsOf fieldShape t ++ declarationsOf assignmentShape t) : d.WholeIn [] t := by
  rcases List.mem_append.mp h with hd | hd
  · exact wholeIn_of_mem_declarationsOf (delimits_modifiers _ _) hd
  · exact wholeIn_of_mem_declarationsOf delimits_assignmentShape hd

/-- Parameters are whole names, but for the two words glued to them. -/
theorem wholeIn_of_mem_parameterMatches {t : Text} {d : Declaration}
    (h : d ∈ (parameterLists t).flatMap (listDeclarations t) ++ declarationsOf bareArrowShape t) :
    d.WholeIn ["return", "async"] t := by
  rcases List.mem_append.mp h with hd | hd
  · -- in a list, parentheses, commas, blanks and rest marks stand before names
    obtain ⟨l, hl, hd⟩ := List.mem_flatMap.mp hd
    obtain ⟨hn, before, a, b, after, ht, hoffset, -, hleft, hright⟩ :=
      exists_of_mem_listDeclarations (standsIn_of_mem_parameterLists hl) hd
    refine ⟨before ++ a, b ++ after, ?_, hoffset, endsApart_of_false hleft.eq_false, hn, hright⟩
    rw [ht]
    simp
  · exact wholeIn_of_mem_declarationsOf delimits_bareArrowShape hd

/-- Whatever the kind, a name that is found is whole, up to the words of the kind. -/
theorem wholeIn_of_mem_declarations {k : Kind} {t : Text} {d : Declaration}
    (h : d ∈ k.declarations t) : d.WholeIn k.gluedWords t := by
  cases k with
  | functions => exact wholeIn_of_mem_functionDeclarations h
  | parameters => exact wholeIn_of_mem_parameterMatches (Declaration.mem_of_mem_inOrder h)
  | properties =>
    -- of the properties only the first of each name is kept
    have hmem := Declaration.mem_of_mem_inOrder (mem_of_mem_firstOfEachName h)
    exact wholeIn_of_mem_propertyMatches hmem
  | bindings =>
    exact wholeIn_of_mem_declarationsOf (delimits_bindingWord _) (Declaration.mem_of_mem_inOrder h)
  | classes | typeAliases | interfaces | enums =>
    exact wholeIn_of_mem_declarationsOf (delimits_introducedShape _ _)
      (Declaration.mem_of_mem_inOrder h)

/-- A glued word ends in a character of identifiers. -/
theorem any_isIdent_of_glued {k : Kind} {pre : Text}
    (h : ∃ w ∈ k.gluedWords, w.toList <:+ pre) : pre.getLast?.any isIdent = true := by
  obtain ⟨w, hw, x, rfl⟩ := h
  -- the words are identifiers themselves
  have hend : w.toList ≠ [] ∧ w.toList.getLast?.any isIdent = true := by
    revert w
    cases k <;> decide
  rw [List.getLast?_append_of_ne_nil x hend.1]
  exact hend.2

/-! ## The word `any` -/

/-- A character of an identifier is part of a word, but for the dollar sign. -/
theorem isWord_of_isIdent {c : Char} (h : isIdent c = true) (hc : c ≠ '$') : isWord c = true := by
  have hcode := toNat_of_isIdent h
  have hlow : c.toNat < 0x80 := by omega
  have hdollar : (c == '$') = false := by simpa using hc
  rw [isWord, if_pos hlow]
  rwa [isIdent, hdollar, Bool.or_false] at h

namespace ConstructRule

/-- The word `any`, where no word goes on. -/
def EndsAny (name rest : Text) : Prop :=
  name = "any".toList ∧ rest.head?.any isWord = false

theorem endsAny_of_anyWord {t a r : Text} (h : anyWord.take t = some (a, r)) : EndsAny a r := by
  obtain ⟨a₁, r₁, a₂, hword, hend, rfl⟩ := Piece.take_andThen h
  obtain ⟨rfl, hrest⟩ := Piece.take_wordEnd hend
  exact ⟨by rw [Piece.take_word hword, List.append_nil], hrest⟩

/-- Each `any` that is found is delimited on both sides. -/
theorem delimits_anyShape : anyShape.Delimits [] EndsAny := by
  refine Shape.Delimits.orElse ?_ ?_
  · -- at the start of the text nothing stands in front
    refine Shape.delimits_of_endsApart ?_ Piece.nothing_endsApart endsAny_of_anyWord
    intro pre hstart
    rw [Shape.atTextStart, Option.isNone_iff_eq_none] at hstart
    exact endsApart_of_false (by rw [hstart]; rfl)
  · -- elsewhere the character in front is none of a name
    refine Shape.delimits_of_separates (Piece.one_separates ?_) endsAny_of_anyWord
    intro c hc
    simp only [mayPrecedeAny, Bool.not_eq_true', Bool.or_eq_false_iff] at hc
    exact hc.1

/-- The place of a word `any` that is reported: no identifier runs over into it, and only a dollar
sign may go on behind it. -/
theorem exists_of_mem_anyOffsets {t : Text} {offset : Nat} (h : offset ∈ anyOffsets t) :
    ∃ pre post, t = pre ++ "any".toList ++ post ∧ offset = size pre ∧
      pre.getLast?.any isIdent = false ∧
      (post.head?.any isIdent = true ↔ post.head? = some '$') := by
  obtain ⟨o, ho, rfl⟩ := List.mem_map.mp h
  obtain ⟨pre, post, ht, hstart, hapart, hname, hword⟩ :=
    exists_of_mem_occurrences_of_delimits delimits_anyShape ho
  refine ⟨pre, post, by rw [ht, hname], hstart, hapart.eq_false, ?_⟩
  cases hhead : post.head? with
  | none => simp
  | some c =>
    rw [hhead] at hword
    simp only [Option.any_some, Option.some.injEq] at hword ⊢
    -- the word ended here, and among identifier characters only the dollar sign ends words
    constructor
    · intro hc
      by_contra hdollar
      rw [isWord_of_isIdent hc hdollar] at hword
      simp at hword
    · rintro rfl
      decide

end ConstructRule

/-! ## Whole names -/

/-- A name that is declared is all of an identifier, at its offset, except that one runs over into it
exactly where a word of its kind stands glued to it: `function` to the name of a function, `return`
or `async` to a parameter. The word `any` that is reported is all of an identifier, except exactly
where a dollar sign goes on behind it. -/
theorem names_are_whole_unless_glued (t : Text) :
    (∀ (k : Kind), ∀ d ∈ k.declarations t, IsIdentifier d.name ∧
      ∃ pre post, t = pre ++ d.name ++ post ∧ d.offset = size pre ∧
        post.head?.any isIdent = false ∧
        (pre.getLast?.any isIdent = true ↔ ∃ w ∈ k.gluedWords, w.toList <:+ pre)) ∧
    ∀ offset ∈ ConstructRule.anyOffsets t,
      ∃ pre post, t = pre ++ "any".toList ++ post ∧ offset = size pre ∧
        pre.getLast?.any isIdent = false ∧
        (post.head?.any isIdent = true ↔ post.head? = some '$') := by
  refine ⟨?_, fun offset h => ConstructRule.exists_of_mem_anyOffsets h⟩
  intro k d hd
  obtain ⟨pre, post, ht, hoffset, hleft, hident, hright⟩ := wholeIn_of_mem_declarations hd
  exact ⟨hident, pre, post, ht, hoffset, hright, hleft, any_isIdent_of_glued⟩

/-- Each exception occurs: the end of `function$foo`, the end of `asyncJob` and the start of `any$T`
are found, with an identifier running on at their borders. -/
theorem fragments_are_reported :
    (∃ d ∈ Kind.functions.declarations " x = function$foo(1);".toList,
      ∃ pre post, " x = function$foo(1);".toList = pre ++ d.name ++ post ∧ d.offset = size pre ∧
        pre.getLast?.any isIdent = true) ∧
    (∃ d ∈ Kind.parameters.declarations "y ? z : asyncJob => 1".toList,
      ∃ pre post, "y ? z : asyncJob => 1".toList = pre ++ d.name ++ post ∧ d.offset = size pre ∧
        pre.getLast?.any isIdent = true) ∧
    ∃ offset ∈ ConstructRule.anyOffsets "let x: any$T = 1;".toList,
      ∃ pre post, "let x: any$T = 1;".toList = pre ++ "any".toList ++ post ∧ offset = size pre ∧
        post.head?.any isIdent = true := by
  refine ⟨⟨⟨"$foo".toList, "function$foo(".toList, 13⟩, by decide, " x = function".toList,
    "(1);".toList, by decide, by decide, by decide⟩, ?_, ?_⟩
  · exact ⟨⟨"Job".toList, "asyncJob =>".toList, 13⟩, by decide, "y ? z : async".toList,
      " => 1".toList, by decide, by decide, by decide⟩
  · exact ⟨7, by decide, "let x: ".toList, "$T = 1;".toList, by decide, by decide, by decide⟩

end NamingLint
