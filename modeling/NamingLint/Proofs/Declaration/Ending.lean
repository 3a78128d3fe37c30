import NamingLint.Proofs.Declaration.EndingParameter

/-!
# NamingLint — declarations and line endings

The declarations of every kind in a text and in the plain text correspond one by one. They have the
same names. Only the text of an assignment may end inside of a line ending.

Main results:

* `declarations_plain` — the declarations of a kind in the plain text.
* `assignment_of_return` — a text that ends in a carriage return is that of an assignment.
-/

namespace NamingLint

open Text

variable {u : Text}

/-! ## Kinds with several shapes -/

/-- Words that are no method names are left out by name, so by the same names on both sides. -/
theorem methodDeclarations_plain (hu : Paired u) :
    methodDeclarations (plain u) = (methodDeclarations u).map (Declaration.mended u) := by
  rw [methodDeclarations, methodDeclarations,
    declarationsOf_plain firm_methodShape.toSettled.steady hu, List.filter_map]
  rfl

/-- Functions are found in three ways and put in order of their offsets. -/
theorem functionDeclarations_plain (hu : Paired u) :
    functionDeclarations (plain u) = (functionDeclarations u).map (Declaration.mended u) := by
  rw [functionDeclarations, functionDeclarations,
    Declaration.inOrder_mended hu fun d => standsIn_of_mem_functionMatches,
    declarationsOf_plain firm_namedFunctionShape.toSettled.steady hu,
    declarationsOf_plain firm_boundFunctionShape.toSettled.steady hu, methodDeclarations_plain hu,
    List.map_append, List.map_append]

/-- The first declaration of each name stays the first. -/
theorem firstOfEachName_mended (seen : List Text) (ds : List Declaration) :
    firstOfEachName seen (ds.map (Declaration.mended u)) =
      (firstOfEachName seen ds).map (Declaration.mended u) := by
  induction ds generalizing seen with
  | nil => rfl
  | cons d ds ih =>
    -- names decide, and they are the same
    have hname : (d.mended u).name = d.name := rfl
    rw [List.map_cons, firstOfEachName, firstOfEachName, hname]
    split
    · exact ih seen
    · rw [List.map_cons, ih]

/-- Fields and assignments, of which each name counts once. -/
theorem propertyDeclarations_plain (hu : Paired u) :
    propertyDeclarations (plain u) = (propertyDeclarations u).map (Declaration.mended u) := by
  -- in order first, since the first of each name is taken then
  have hmatches : propertyMatches (plain u) = (propertyMatches u).map (Declaration.mended u) := by
    rw [propertyMatches, propertyMatches,
      Declaration.inOrder_mended hu fun d => standsIn_of_mem_propertyMatches,
      declarationsOf_plain firm_fieldShape.toSettled.steady hu,
      declarationsOf_plain settled_assignmentShape.steady hu, List.map_append]
  rw [propertyDeclarations, hmatches, firstOfEachName_mended, propertyDeclarations]

/-- Parameters in lists, and bare ones before an arrow. -/
theorem parameterDeclarations_plain (hu : Paired u) :
    parameterDeclarations (plain u) = (parameterDeclarations u).map (Declaration.mended u) := by
  -- list by list; each list is read on its own
  have hlists : (parameterLists (plain u)).flatMap (listDeclarations (plain u)) =
      ((parameterLists u).flatMap (listDeclarations u)).map (Declaration.mended u) := by
    rw [parameterLists_plain hu, List.flatMap_map, List.map_flatMap]
    apply List.flatMap_congr
    intro l hl
    exact listDeclarations_plain hu (standsIn_of_mem_parameterLists hl)
  rw [parameterDeclarations, parameterDeclarations,
    Declaration.inOrder_mended hu fun d => standsIn_of_mem_parameterMatches, hlists,
    declarationsOf_plain firm_bareArrowShape.toSettled.steady hu, List.map_append]

/-! ## All kinds -/

/-- A word and a name after it, with no tail. -/
theorem firm_bareIntroduced (word : String) (hfeed : '\n' ∉ word.toList)
    (hreturn : '\r' ∉ word.toList) (hne : word.toList ≠ []) :
    (introducedShape word .nothing).Firm :=
  firm_introducedShape hfeed hreturn hne Piece.nothing_steady
    (Piece.identifier_firm.andThen Piece.nothing_sealed) Piece.nothing_sealed

theorem firm_classShape : (introducedShape "class" .nothing).Firm :=
  firm_bareIntroduced "class" (by decide) (by decide) (by decide)

theorem firm_interfaceShape : (introducedShape "interface" .nothing).Firm :=
  firm_bareIntroduced "interface" (by decide) (by decide) (by decide)

theorem firm_enumShape : (introducedShape "enum" .nothing).Firm :=
  firm_bareIntroduced "enum" (by decide) (by decide) (by decide)

/-- Every kind finds the same declarations with either line ending, up to carriage returns. -/
theorem declarations_plain (k : Kind) (hu : Paired u) :
    k.declarations (plain u) = (k.declarations u).map (Declaration.mended u) := by
  -- five kinds are found by one shape each
  have hone : ∀ {starts lead tail}, (Shape.ofPieces starts lead .identifier tail).Firm →
      Declaration.inOrder (declarationsOf (.ofPieces starts lead .identifier tail) (plain u)) =
        (Declaration.inOrder (declarationsOf (.ofPieces starts lead .identifier tail) u)).map
          (Declaration.mended u) := by
    intro starts lead tail hfirm
    rw [declarationsOf_plain hfirm.toSettled.steady hu, Declaration.inOrder_mended hu]
    exact fun d => standsIn_of_pieces
  cases k with
  | bindings => exact hone firm_bindingShape
  | functions => exact functionDeclarations_plain hu
  | classes => exact hone firm_classShape
  | properties => exact propertyDeclarations_plain hu
  | parameters => exact parameterDeclarations_plain hu
  | typeAliases => exact hone firm_typeAliasShape
  | interfaces => exact hone firm_interfaceShape
  | enums => exact hone firm_enumShape

/-- The text of a declaration ends with the carriage return of a line ending only if it is an
assignment with nothing more on its line. -/
theorem assignment_of_return {k : Kind} (hu : Paired u) {d : Declaration} (h : d ∈ k.declarations u)
    (hlast : d.matched.getLast? = some '\r') :
    k = .properties ∧ d ∈ declarationsOf assignmentShape u := by
  -- no firm shape has found it
  have hfirm : ∀ {s : Shape}, s.Firm → ¬ d ∈ declarationsOf s u := fun hs hd =>
    getLast?_of_mem_declarationsOf hs hu hd hlast
  cases k with
  | bindings => exact absurd (Declaration.mem_of_mem_inOrder h) (hfirm firm_bindingShape)
  | functions =>
    have hd := Declaration.mem_of_mem_inOrder h
    rw [List.mem_append, List.mem_append] at hd
    rcases hd with (hd | hd) | hd
    · exact absurd hd (hfirm firm_namedFunctionShape)
    · exact absurd hd (hfirm firm_boundFunctionShape)
    · exact absurd (List.mem_filter.mp hd).1 (hfirm firm_methodShape)
  | classes => exact absurd (Declaration.mem_of_mem_inOrder h) (hfirm firm_classShape)
  | properties =>
    have hd := Declaration.mem_of_mem_inOrder (mem_of_mem_firstOfEachName h)
    rcases List.mem_append.mp hd with hd | hd
    · exact absurd hd (hfirm firm_fieldShape)
    · exact ⟨rfl, hd⟩
  | parameters =>
    rcases List.mem_append.mp (Declaration.mem_of_mem_inOrder h) with hd | hd
    · obtain ⟨l, -, hd⟩ := List.mem_flatMap.mp hd
      exact absurd hlast (getLast?_of_mem_listDeclarations hd)
    · exact absurd hd (hfirm firm_bareArrowShape)
  | typeAliases => exact absurd (Declaration.mem_of_mem_inOrder h) (hfirm firm_typeAliasShape)
  | interfaces => exact absurd (Declaration.mem_of_mem_inOrder h) (hfirm firm_interfaceShape)
  | enums => exact absurd (Declaration.mem_of_mem_inOrder h) (hfirm firm_enumShape)

end NamingLint
