import NamingLint.Proofs.Declaration.Contract
import NamingLint.Proofs.Rule.Outcome
import NamingLint.Proofs.Source.Strip

/-!
# NamingLint — the lines of violations

A violation is located by searching the file for the first line of the declaration's text. Where no
line holds it, the offset of the name in the stripped text tells the line.

* `SourceFile.Holds` — a line of the file holds a text.
* `Source.StandsWhole` — a name of the stripped text stands in the source in one piece.

Main results:

* `exists_line_of_name` — the line that an offset tells exists, and shows a name that stands whole.
* `violation_line_shows_name` — so does the line of every violation whose name stands in the text
  that was searched for.
* `glued_name_is_in_no_line` — a name that only arises where a comment is dropped is in no line.
-/

namespace NamingLint

open Text Source

/-! ## Lines told by offsets -/

/-- The `n` characters at byte `offset` of the stripped text are neighbours in the source. -/
def Source.StandsWhole (raw : Text) (offset n : Nat) : Prop :=
  ∃ i, size ((strip raw).take i) = offset ∧ Unbroken raw i n

/-- Prefixes of one text that have the same size are the same. -/
theorem Text.eq_of_prefix_of_size_eq {a b t : Text} (ha : a <+: t) (hb : b <+: t)
    (h : size a = size b) : a = b := by
  -- every character has a size, so a longer text has a greater one
  have hshort : ∀ {x y : Text}, x <+: y → size x = size y → x = y := by
    rintro x y ⟨z, rfl⟩ hxy
    cases z with
    | nil => simp
    | cons c z =>
      have hpos : 0 < c.utf8Size := c.utf8Size_pos
      rw [size_append, size_cons] at hxy
      omega
  rcases List.prefix_or_prefix_of_prefix ha hb with hab | hba
  · exact hshort hab h
  · exact (hshort hba h.symm).symm

/-- A place of the stripped text is known by its offset. -/
theorem Source.StandsWhole.unbroken {raw pre w post : Text} {n : Nat}
    (hs : strip raw = pre ++ w ++ post) (hw : w ≠ []) (h : StandsWhole raw (size pre) n) :
    Unbroken raw pre.length n := by
  obtain ⟨i, hi, hu⟩ := h
  have hpre : pre <+: strip raw := ⟨w ++ post, by rw [hs, List.append_assoc]⟩
  have htake : (strip raw).take i = pre :=
    eq_of_prefix_of_size_eq (List.take_prefix i _) hpre hi
  -- the offset is inside of the text, so it says how many characters come before
  have hlength : i = pre.length := by
    have hwpos : 0 < w.length := List.length_pos_iff.mpr hw
    have htotal : (strip raw).length = pre.length + w.length + post.length := by
      rw [hs, List.length_append, List.length_append]
    have hmin := congrArg List.length htake
    rw [List.length_take] at hmin
    omega
  rwa [← hlength]

/-- A word that stands whole is in the line of its first character. -/
theorem exists_line_of_unbroken {raw pre w post : Text} (hs : strip raw = pre ++ w ++ post)
    (hw : IsIdentifier w) (hu : Unbroken raw pre.length w.length) :
    ∃ line, (lines raw)[(raw.take (origin raw pre.length)).count '\n']? = some line ∧
      contains w line = true := by
  have hlength : pre.length + w.length ≤ (strip raw).length := by
    rw [hs, List.length_append, List.length_append]
    omega
  -- the word stands in the raw text as it does in the stripped one
  have hslice : (raw.drop (origin raw pre.length)).take w.length = w := by
    rw [hu.slice_eq hlength, hs, List.append_assoc, List.drop_left, List.take_left]
  have hraw : raw = raw.take (origin raw pre.length) ++ w ++
      (raw.drop (origin raw pre.length)).drop w.length := by
    conv_lhs => rw [← List.take_append_drop (origin raw pre.length) raw,
      ← List.take_append_drop w.length (raw.drop (origin raw pre.length)), hslice]
    rw [List.append_assoc]
  obtain ⟨a, b, hline⟩ := exists_line_of_word hw.ne_nil hw.feed_not_mem hw.return_not_mem
    (raw.take (origin raw pre.length)) ((raw.drop (origin raw pre.length)).drop w.length)
  rw [← hraw] at hline
  exact ⟨a ++ w ++ b, hline, contains_iff.mpr ⟨a, b, rfl⟩⟩

namespace SourceFile

/-- The line that the offset of a name tells exists, and shows the name if it stands whole. -/
theorem exists_line_of_name (f : SourceFile) {pre w post : Text}
    (hs : f.stripped = pre ++ w ++ post) (hw : IsIdentifier w) :
    ∃ line, f.content.lines[f.lineAt (size pre) - 1]? = some line ∧
      (StandsWhole f.content (size pre) w.length → contains w line = true) := by
  rw [f.stripped_eq] at hs
  have hline : f.lineAt (size pre) - 1 =
      (f.content.take (origin f.content pre.length)).count '\n' := by
    have htake : (strip f.content).take pre.length = pre := by
      rw [hs, List.append_assoc, List.take_left]
    have h := lineAt_strip f.content pre.length
    rw [htake] at h
    rw [lineAt, f.stripped_eq, h, Nat.add_sub_cancel_left]
  -- the first character alone always stands whole, so there is a line
  obtain ⟨c, v, hcv⟩ := List.exists_cons_of_ne_nil hw.ne_nil
  have hfirst : IsIdentifier [c] := by
    refine ⟨by simp, ?_⟩
    intro d hd
    rw [List.mem_singleton] at hd
    exact hw.all_ident d (by simp [hd, hcv])
  have hsc : strip f.content = pre ++ [c] ++ (v ++ post) := by
    rw [hs, hcv]
    simp
  have hone : Unbroken f.content pre.length 1 := by
    intro k hk
    have hk0 : k = 0 := by omega
    rw [hk0, Nat.add_zero, Nat.add_zero]
  obtain ⟨line, hat, -⟩ := exists_line_of_unbroken hsc hfirst hone
  rw [hline]
  refine ⟨line, hat, ?_⟩
  intro hwhole
  obtain ⟨line', hat', hin⟩ := exists_line_of_unbroken hs hw (hwhole.unbroken hs hw.ne_nil)
  rw [hat, Option.some.injEq] at hat'
  rwa [hat']

/-! ## Lines found by searching -/

/-- Some line of the file holds a text, and the text is not empty. -/
def Holds (f : SourceFile) (w : Text) : Prop :=
  w ≠ [] ∧ ∃ line ∈ f.content.lines, contains w line = true

/-- A search that succeeds gives a line with the first line of the declaration's text. -/
theorem locate_of_holds {f : SourceFile} {matched : Text} (h : f.Holds (needle matched))
    (offset : Nat) :
    1 ≤ f.locate matched offset ∧ ∃ line, f.content.lines[f.locate matched offset - 1]? = some line ∧
      contains (needle matched) line = true := by
  obtain ⟨hne, line, hmem, hin⟩ := h
  -- some line holds it, so a first one does
  have hsome : (f.lines.findIdx? (contains (needle matched))).isSome = true := by
    rw [List.findIdx?_isSome, f.lines_eq]
    exact List.any_eq_true.mpr ⟨line, hmem, hin⟩
  obtain ⟨n, hn⟩ := Option.isSome_iff_exists.mp hsome
  have hlocate : f.locate matched offset = n + 1 := by
    rw [locate, if_neg hne, lineHolding?, hn, Option.map_some, Option.getD_some]
  obtain ⟨hlt, hat, -⟩ := List.findIdx?_eq_some_iff_getElem.mp hn
  rw [hlocate, ← f.lines_eq]
  exact ⟨by omega, f.lines[n], List.getElem?_eq_getElem hlt, hat⟩

/-- A search that fails leaves the line to the offset. -/
theorem locate_of_not_holds {f : SourceFile} {matched : Text} (h : ¬ f.Holds (needle matched))
    (offset : Nat) : f.locate matched offset = f.lineAt offset := by
  rw [locate]
  split
  · rfl
  · rename_i hne
    have hnone : f.lines.findIdx? (contains (needle matched)) = none := by
      rw [List.findIdx?_eq_none_iff, f.lines_eq]
      intro line hline
      rw [Bool.eq_false_iff]
      intro hin
      exact h ⟨hne, line, hline, hin⟩
    rw [lineHolding?, hnone, Option.map_none, Option.getD_none]

end SourceFile

/-! ## Violations -/

/-- The line of a violation exists. Where the file holds the first line of the declaration's text
and that line has the name in it, so has the line of the violation. Where the file does not hold it,
the line of the violation has the name in it if the name stands in the source in one piece. -/
theorem violation_line_shows_name {kind : Kind} {convention : Convention} {r : CasingRule}
    (hr : CasingRule.of? kind convention = some r) (f : SourceFile) {v : Violation}
    (hv : v ∈ (r.check f).violations) :
    ∃ d ∈ r.declarations f, r.passes d = false ∧ v = r.violation f d ∧
      1 ≤ v.location.line ∧ ∃ line, f.content.lines[v.location.line - 1]? = some line ∧
        (f.Holds (SourceFile.needle d.matched) →
          contains v.name.toList (SourceFile.needle d.matched) = true →
            contains v.name.toList line = true) ∧
        (¬ f.Holds (SourceFile.needle d.matched) →
          StandsWhole f.content d.offset v.name.toList.length →
            contains v.name.toList line = true) := by
  obtain ⟨d, hd, hfails, rfl⟩ := CasingRule.mem_violations_check.mp hv
  have hname : (r.violation f d).name.toList = d.name := by
    rw [CasingRule.violation, String.toList_ofList]
  have hline : (r.violation f d).location.line = f.locate d.matched d.offset := rfl
  refine ⟨d, hd, hfails, rfl, ?_⟩
  rw [hname, hline]
  -- the line that holds the match is reported, or else the line of the offset
  by_cases hfound : f.Holds (SourceFile.needle d.matched)
  · obtain ⟨hpos, line, hat, hin⟩ := SourceFile.locate_of_holds hfound d.offset
    exact ⟨hpos, line, hat, fun _ hshown => contains_trans hshown hin,
      fun hnot => absurd hfound hnot⟩
  · have hstands : d.StandsIn f.stripped := by
      rw [CasingRule.declarations, CasingRule.detector_of? hr] at hd
      exact standsIn_of_mem_declarations hd
    obtain ⟨pre, post, hs, hoffset⟩ := hstands.name_at
    obtain ⟨line, hat, hshows⟩ := f.exists_line_of_name hs hstands.ident
    rw [SourceFile.locate_of_not_holds hfound, hoffset]
    exact ⟨Nat.le_add_right 1 _, line, hat, fun h => absurd h hfound, fun _ hwhole => hshows hwhole⟩

/-- The rule that holds the names of a kind to camel case. -/
def camelRule (kind : Kind) : CasingRule :=
  ⟨kind.detector, .camel, Convention.isCamel, rfl⟩

/-- A script with a given text. -/
def script (text : Text) : SourceFile :=
  SourceFile.ofContent ⟨"/proj/app.ts"⟩ ⟨"/proj"⟩ .typescript text

/-- The value is a literal whose body is dropped, so no line holds the declaration's text and the
offset tells the line. -/
theorem violation_line_shows_name_literal :
    ∃ v ∈ ((camelRule .bindings).check (script "f();\nlet B_x = 's';".toList)).violations,
      v.location.line = 2 ∧ ∃ line, (script "f();\nlet B_x = 's';".toList).content.lines[1]? =
        some line ∧ contains v.name.toList line = true := by
  refine ⟨⟨"B_x", .bindings, .camel, ⟨⟨"/proj/app.ts"⟩, 2⟩⟩, by decide, rfl, ?_⟩
  obtain ⟨d, hd, -, -, -, line, hat, -, hshows⟩ :=
    @violation_line_shows_name .bindings .camel (camelRule .bindings) rfl
      (script "f();\nlet B_x = 's';".toList)
      ⟨"B_x", .bindings, .camel, ⟨⟨"/proj/app.ts"⟩, 2⟩⟩ (by decide)
  have hdecl : d = ⟨"B_x".toList, "let B_x = '';".toList, 9⟩ := by
    have hall : (camelRule .bindings).declarations (script "f();\nlet B_x = 's';".toList) =
        [⟨"B_x".toList, "let B_x = '';".toList, 9⟩] := by decide
    rw [hall] at hd
    simpa using hd
  subst hdecl
  refine ⟨line, hat, hshows ?_ ⟨9, by decide, by decide⟩⟩
  rintro ⟨-, other, hother, hin⟩
  revert other
  decide

/-- A comment inside a name is dropped and its ends meet: the name that is reported is in no line of
the file. -/
theorem glued_name_is_in_no_line :
    ∃ v ∈ ((camelRule .classes).check (script "class Fo/**/o_x".toList)).violations,
      ∀ line ∈ (script "class Fo/**/o_x".toList).content.lines,
        contains v.name.toList line = false := by
  exact ⟨⟨"Foo_x", .classes, .camel, ⟨⟨"/proj/app.ts"⟩, 1⟩⟩, by decide, by decide⟩

end NamingLint
