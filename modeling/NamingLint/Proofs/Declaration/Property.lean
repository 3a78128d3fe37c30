import NamingLint.Proofs.Declaration.Ordered

/-!
# NamingLint — the first match of each property

A property is matched where it is declared as a field and wherever it is assigned to. Its name counts
once, at the first of these places.

* `propertyFinds` — all fields and assignments that are matched in a text.

Main results:

* `mem_names_firstOfEachName`, `nodup_names_firstOfEachName`, `offset_le_of_mem_firstOfEachName` —
  which declarations are kept.
* `mem_names_properties` — no name that is matched is lost.
* `offset_le_of_mem_properties`, `eq_of_mem_fields` — which match of a name is kept.
-/

namespace NamingLint

open Text

/-! ## The first of each name -/

section FirstOfEachName

variable {seen : List Text} {ds : List Declaration}

/-- A name is kept if it occurs and was not seen before. -/
theorem mem_names_firstOfEachName {n : Text} :
    n ∈ (firstOfEachName seen ds).map (·.name) ↔ n ∈ ds.map (·.name) ∧ n ∉ seen := by
  induction ds generalizing seen with
  | nil => simp [firstOfEachName]
  | cons d ds ih =>
    rw [firstOfEachName, List.map_cons, List.mem_cons]
    split
    · rename_i hseen
      have hseen : d.name ∈ seen := by simpa using hseen
      rw [ih]
      -- the name of `d` itself is not asked for, since it was seen
      refine and_congr_left fun hn => (or_iff_right ?_).symm
      rintro rfl
      exact hn hseen
    · rename_i hseen
      have hseen : d.name ∉ seen := by simpa using hseen
      rw [List.map_cons, List.mem_cons, ih, List.mem_cons]
      constructor
      · rintro (rfl | ⟨hn, hnew⟩)
        · exact ⟨.inl rfl, hseen⟩
        · exact ⟨.inr hn, fun h => hnew (.inr h)⟩
      · rintro ⟨hn, hnew⟩
        by_cases heq : n = d.name
        · exact .inl heq
        · exact .inr ⟨hn.resolve_left heq, fun h => h.elim heq hnew⟩

theorem nodup_names_firstOfEachName (seen : List Text) (ds : List Declaration) :
    ((firstOfEachName seen ds).map (·.name)).Nodup := by
  induction ds generalizing seen with
  | nil => exact List.nodup_nil
  | cons d ds ih =>
    rw [firstOfEachName]
    split
    · exact ih seen
    · rw [List.map_cons, List.nodup_cons]
      -- from here on the name counts as seen
      exact ⟨fun h => (mem_names_firstOfEachName.mp h).2 List.mem_cons_self, ih _⟩

/-- What is kept of a name stands before everything else of that name. -/
theorem offset_le_of_mem_firstOfEachName (hds : Declaration.Ordered ds) {d e : Declaration}
    (hd : d ∈ firstOfEachName seen ds) (he : e ∈ ds) (hname : e.name = d.name) :
    d.offset ≤ e.offset := by
  induction ds generalizing seen with
  | nil => cases he
  | cons f ds ih =>
    obtain ⟨hfirst, hrest⟩ := List.pairwise_cons.mp hds
    -- a name that was seen before `d` is not the name of `d`
    have hnew : ∀ {seen : List Text}, d ∈ firstOfEachName seen ds → d.name ∉ seen := fun hd =>
      (mem_names_firstOfEachName.mp (List.mem_map_of_mem hd)).2
    rw [firstOfEachName] at hd
    split at hd
    · rename_i hseen
      rcases List.mem_cons.mp he with rfl | he
      · exact absurd (by simpa [hname] using hseen) (hnew hd)
      · exact ih hrest hd he
    · rcases List.mem_cons.mp hd with rfl | hd
      · rcases List.mem_cons.mp he with rfl | he
        · exact Nat.le_refl _
        · exact Nat.le_of_lt (hfirst e he)
      · rcases List.mem_cons.mp he with rfl | he
        · exact absurd (hname ▸ List.mem_cons_self) (hnew hd)
        · exact ih hrest hd he

end FirstOfEachName

/-! ## Properties -/

/-- Every field and every assignment that is matched in a text. -/
def propertyFinds (t : Text) : List Declaration :=
  declarationsOf fieldShape t ++ declarationsOf assignmentShape t

theorem nodup_names_properties (t : Text) : ((propertyDeclarations t).map (·.name)).Nodup :=
  nodup_names_firstOfEachName [] _

/-- The names of the properties of a text are those of all its matches. -/
theorem mem_names_properties {t n : Text} :
    n ∈ (propertyDeclarations t).map (·.name) ↔ n ∈ (propertyFinds t).map (·.name) := by
  rw [propertyDeclarations, mem_names_firstOfEachName, List.mem_map, List.mem_map]
  constructor
  · rintro ⟨⟨d, hd, rfl⟩, -⟩
    exact ⟨d, Declaration.mem_of_mem_inOrder hd, rfl⟩
  · rintro ⟨e, he, rfl⟩
    obtain ⟨d, hd, hname, -⟩ :=
      Declaration.exists_same_of_mem (fun _ => wholeIn_of_mem_propertyMatches) he
    exact ⟨⟨d, hd, hname⟩, List.not_mem_nil⟩

/-- The property kept for a name is the first match of that name. -/
theorem offset_le_of_mem_properties {t : Text} {d e : Declaration} (hd : d ∈ propertyDeclarations t)
    (he : e ∈ propertyFinds t) (hname : e.name = d.name) : d.offset ≤ e.offset := by
  obtain ⟨f, hf, hfname, hfoffset⟩ :=
    Declaration.exists_same_of_mem (fun _ => wholeIn_of_mem_propertyMatches) he
  rw [← hfoffset]
  exact offset_le_of_mem_firstOfEachName (Declaration.ordered_inOrder _) hd hf (hfname.trans hname)

/-- Where a field is matched, the property kept at that offset is the field. -/
theorem eq_of_mem_fields {t : Text} {d e : Declaration} (hd : d ∈ propertyDeclarations t)
    (he : e ∈ declarationsOf fieldShape t) (hoffset : e.offset = d.offset) : d = e := by
  have hordered : Declaration.Ordered (declarationsOf fieldShape t) :=
    ordered_declarationsOf (Shape.namesIdentifiers_ofPieces _ _ _) t
  have hfind := Declaration.find?_of_mem_inOrder (mem_of_mem_firstOfEachName hd)
  -- fields are looked at first, and the only one at this offset is `e`
  rw [List.find?_append, ← hoffset, hordered.find?_eq he, Option.some_or, Option.some.injEq] at hfind
  exact hfind.symm

end NamingLint
