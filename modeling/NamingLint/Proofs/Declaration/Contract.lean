import NamingLint.Proofs.Declaration.Parameter
import NamingLint.Declaration.Detect

/-!
# NamingLint — what detectors promise

Whatever the kind, a declaration that is found stands in the text: its name is an identifier at its
offset, inside the text of the declaration. Several shapes and parameter lists may find one and the
same name; it is put into the list by its offset, so it is there once.

Main results:

* `standsIn_of_mem_declarations` — declarations stand in the text.
* `ordered_declarations` — they come with increasing offsets.
* `declarations_keep_contract` — both, for every kind and text.
-/

namespace NamingLint

/-- Keeping the first declaration of each name leaves some out and makes none up. -/
theorem firstOfEachName_sublist (seen : List Text) (ds : List Declaration) :
    (firstOfEachName seen ds).Sublist ds := by
  induction ds generalizing seen with
  | nil => exact .slnil
  | cons d ds ih =>
    rw [firstOfEachName]
    split
    · exact (ih seen).cons d
    · exact (ih (d.name :: seen)).cons_cons d

theorem mem_of_mem_firstOfEachName {seen : List Text} {ds : List Declaration} {d : Declaration}
    (h : d ∈ firstOfEachName seen ds) : d ∈ ds :=
  (firstOfEachName_sublist seen ds).subset h

theorem namesIdentifiers_bareArrowShape : bareArrowShape.NamesIdentifiers :=
  (Shape.namesIdentifiers_ofPieces _ _ _).orElse <|
  (Shape.namesIdentifiers_ofPieces _ _ _).orElse <|
  (Shape.namesIdentifiers_ofPieces _ _ _).orElse <|
  Shape.namesIdentifiers_ofPieces _ _ _

/-- A declaration of a shape with a lead, an identifier and a tail. -/
theorem standsIn_of_pieces {starts : Option Char → Bool} {lead tail : Piece} {t : Text}
    {d : Declaration} (h : d ∈ declarationsOf (.ofPieces starts lead .identifier tail) t) :
    d.StandsIn t :=
  standsIn_of_mem_declarationsOf (Shape.namesIdentifiers_ofPieces starts lead tail) h

/-- Functions stand where they are reported, whichever of the three shapes found them. -/
theorem standsIn_of_mem_functionMatches {t : Text} {d : Declaration}
    (h : d ∈ declarationsOf namedFunctionShape t ++ declarationsOf boundFunctionShape t ++
      methodDeclarations t) : d.StandsIn t := by
  rw [List.mem_append, List.mem_append] at h
  rcases h with (hd | hd) | hd
  · exact standsIn_of_pieces hd
  · exact standsIn_of_pieces hd
  · exact standsIn_of_pieces (List.mem_filter.mp hd).1

/-- Properties stand where they are reported. -/
theorem standsIn_of_mem_propertyMatches {t : Text} {d : Declaration}
    (h : d ∈ declarationsOf fieldShape t ++ declarationsOf assignmentShape t) : d.StandsIn t := by
  rcases List.mem_append.mp h with hd | hd
  · exact standsIn_of_pieces hd
  · exact standsIn_of_pieces hd

/-- Parameters stand where they are reported, in a list or in front of an arrow. -/
theorem standsIn_of_mem_parameterMatches {t : Text} {d : Declaration}
    (h : d ∈ (parameterLists t).flatMap (listDeclarations t) ++ declarationsOf bareArrowShape t) :
    d.StandsIn t := by
  rcases List.mem_append.mp h with hd | hd
  · obtain ⟨l, hl, hd⟩ := List.mem_flatMap.mp hd
    exact standsIn_of_mem_listDeclarations (standsIn_of_mem_parameterLists hl) hd
  · exact standsIn_of_mem_declarationsOf namesIdentifiers_bareArrowShape hd

/-- Whatever the kind, a declaration that is found stands in the text. -/
theorem standsIn_of_mem_declarations {k : Kind} {t : Text} {d : Declaration}
    (h : d ∈ k.declarations t) : d.StandsIn t := by
  cases k with
  | bindings => exact standsIn_of_pieces (Declaration.mem_of_mem_inOrder h)
  | functions => exact standsIn_of_mem_functionMatches (Declaration.mem_of_mem_inOrder h)
  | classes => exact standsIn_of_pieces (Declaration.mem_of_mem_inOrder h)
  | properties =>
    -- of the properties only the first of each name is kept
    have hmem := Declaration.mem_of_mem_inOrder (mem_of_mem_firstOfEachName h)
    exact standsIn_of_mem_propertyMatches hmem
  | parameters => exact standsIn_of_mem_parameterMatches (Declaration.mem_of_mem_inOrder h)
  | typeAliases => exact standsIn_of_pieces (Declaration.mem_of_mem_inOrder h)
  | interfaces => exact standsIn_of_pieces (Declaration.mem_of_mem_inOrder h)
  | enums => exact standsIn_of_pieces (Declaration.mem_of_mem_inOrder h)

/-! ## Order -/

namespace Declaration

/-- Offsets increase along the list. -/
def Ordered (ds : List Declaration) : Prop :=
  ds.Pairwise fun d e => d.offset < e.offset

/-- A declaration is placed in order. -/
theorem ordered_place (d : Declaration) {es : List Declaration} (h : Ordered es) :
    Ordered (place d es) := by
  induction es with
  | nil => exact List.pairwise_singleton _ d
  | cons e es ih =>
    obtain ⟨hfirst, hrest⟩ := List.pairwise_cons.mp h
    rw [place]
    split
    · -- `d` comes first of all
      rename_i hlt
      refine List.pairwise_cons.mpr ⟨?_, h⟩
      intro f hf
      rcases List.mem_cons.mp hf with rfl | hf
      · exact hlt
      · have hef := hfirst f hf
        omega
    · split
      · -- `d` takes the place of `e`
        rename_i heq
        refine List.pairwise_cons.mpr ⟨?_, hrest⟩
        intro f hf
        rw [heq]
        exact hfirst f hf
      · -- `d` comes later
        rename_i hnlt hne
        refine List.pairwise_cons.mpr ⟨?_, ih hrest⟩
        intro f hf
        rcases mem_of_mem_place hf with rfl | hf
        · omega
        · exact hfirst f hf

theorem ordered_inOrder (ds : List Declaration) : Ordered (inOrder ds) := by
  induction ds with
  | nil => exact .nil
  | cons d ds ih => exact ordered_place d ih

end Declaration

/-- The declarations of each kind come in the order of their starts. -/
theorem ordered_declarations (k : Kind) (t : Text) : Declaration.Ordered (k.declarations t) := by
  cases k with
  | properties =>
    -- what is kept of a list in order is in order
    have hmatches : Declaration.Ordered (propertyMatches t) := Declaration.ordered_inOrder _
    exact hmatches.sublist (firstOfEachName_sublist [] _)
  | bindings => exact Declaration.ordered_inOrder _
  | functions => exact Declaration.ordered_inOrder _
  | classes => exact Declaration.ordered_inOrder _
  | parameters => exact Declaration.ordered_inOrder _
  | typeAliases => exact Declaration.ordered_inOrder _
  | interfaces => exact Declaration.ordered_inOrder _
  | enums => exact Declaration.ordered_inOrder _

/-! ## The contract -/

/-- Every detector finds declarations with strictly increasing offsets, so no place of the text is
counted twice. The name of each is a non-empty run of identifier characters. The text of each is a
contiguous part of the text searched, and the name stands in it at the offset, which is the size of
what comes before it. -/
theorem declarations_keep_contract (k : Kind) (t : Text) :
    ((k.detector.detect t).Pairwise fun d e => d.offset < e.offset) ∧
    ∀ d ∈ k.detector.detect t,
      d.name ≠ [] ∧ (∀ c ∈ d.name, Text.isIdent c = true) ∧
      ∃ before lead tail after, t = before ++ d.matched ++ after ∧
        d.matched = lead ++ d.name ++ tail ∧ d.offset = Text.size (before ++ lead) := by
  refine ⟨ordered_declarations k t, ?_⟩
  intro d hd
  have hstands : d.StandsIn t := standsIn_of_mem_declarations hd
  obtain ⟨before, lead, tail, after, ht, hmatched, hoffset⟩ := hstands.place
  refine ⟨hstands.ident.ne_nil, hstands.ident.all_ident, before, lead, tail, after, ?_, hmatched,
    hoffset⟩
  rw [hmatched]
  exact ht

/-- The parameter is found twice, behind the head of a function and in front of an arrow, after a
character of two bytes. It is there once, with the text of the function. -/
theorem twice_found_parameter_keeps_contract :
    Kind.parameters.detector.detect "é function f(x) =>".toList =
        [⟨"x".toList, "function f(x)".toList, 14⟩] ∧
      ∃ before lead tail after, "é function f(x) =>".toList =
        before ++ "function f(x)".toList ++ after ∧
        "function f(x)".toList = lead ++ "x".toList ++ tail ∧ 14 = Text.size (before ++ lead) := by
  have hfound : Kind.parameters.detector.detect "é function f(x) =>".toList =
      [⟨"x".toList, "function f(x)".toList, 14⟩] := by decide
  refine ⟨hfound, ?_⟩
  obtain ⟨-, hall⟩ := declarations_keep_contract .parameters "é function f(x) =>".toList
  exact (hall ⟨"x".toList, "function f(x)".toList, 14⟩ (by rw [hfound]; decide)).2.2

end NamingLint
