import NamingLint.Proofs.Declaration.Search
import NamingLint.Proofs.Declaration.Segment
import NamingLint.Proofs.Rule.WholeName

/-!
# NamingLint — one declaration for each offset

Declarations from several sources are put in order by their offsets, and at each offset the first one
counts. Nothing is lost by it: where two declarations stand at one offset, their names both reach as
far as the identifier does, so they are the same.

Main results:

* `Declaration.find?_of_mem_inOrder` — which declaration is kept at an offset.
* `Declaration.exists_mem_inOrder` — every offset keeps one.
* `Declaration.exists_same_of_mem` — and it has the name that stands there.
* `ordered_declarationsOf` — the declarations of one shape come with increasing offsets.
-/

namespace NamingLint

open Text

namespace Declaration

variable {d e : Declaration} {ds : List Declaration}

/-! ## Order -/

theorem mem_place_iff (hds : Ordered ds) :
    e ∈ place d ds ↔ e = d ∨ e ∈ ds ∧ e.offset ≠ d.offset := by
  induction ds with
  | nil => simp [place]
  | cons f ds ih =>
    obtain ⟨hfirst, hrest⟩ := List.pairwise_cons.mp hds
    rw [place]
    split
    · -- all others stand behind `d`
      rename_i hlt
      have hne : ∀ g ∈ f :: ds, g.offset ≠ d.offset := by
        intro g hg
        rcases List.mem_cons.mp hg with rfl | hg
        · omega
        · have := hfirst g hg
          omega
      rw [List.mem_cons]
      exact or_congr_right ⟨fun h => ⟨h, hne e h⟩, And.left⟩
    · split
      · -- `d` takes the place of `f`, and of nothing else
        rename_i heq
        have hne : ∀ g ∈ ds, g.offset ≠ d.offset := by
          intro g hg
          have := hfirst g hg
          omega
        rw [List.mem_cons, List.mem_cons]
        constructor
        · rintro (h | h)
          · exact .inl h
          · exact .inr ⟨.inr h, hne e h⟩
        · rintro (h | ⟨rfl | h, hoffset⟩)
          · exact .inl h
          · exact absurd heq.symm hoffset
          · exact .inr h
      · rename_i hne
        rw [List.mem_cons, ih hrest, List.mem_cons]
        constructor
        · rintro (rfl | h | ⟨h, hoffset⟩)
          · exact .inr ⟨.inl rfl, fun h => hne h.symm⟩
          · exact .inl h
          · exact .inr ⟨.inr h, hoffset⟩
        · rintro (h | ⟨h | h, hoffset⟩)
          · exact .inr (.inl h)
          · exact .inl h
          · exact .inr (.inr ⟨h, hoffset⟩)

/-- Of the declarations at one offset, the first is kept. -/
theorem find?_of_mem_inOrder (h : d ∈ inOrder ds) :
    ds.find? (fun e => e.offset = d.offset) = some d := by
  induction ds with
  | nil => simp [inOrder] at h
  | cons e ds ih =>
    rw [inOrder, mem_place_iff (ordered_inOrder ds)] at h
    rcases h with rfl | ⟨h, hoffset⟩
    · exact List.find?_cons_of_pos (by simp)
    · rw [List.find?_cons_of_neg (by simpa using hoffset.symm), ih h]

/-- Declarations in order are told by their offsets. -/
theorem Ordered.find?_eq (hds : Ordered ds) (h : e ∈ ds) :
    ds.find? (fun d => d.offset = e.offset) = some e := by
  rw [← inOrder_eq_self hds] at h
  exact find?_of_mem_inOrder h

/-- Where a declaration stands, one is kept. -/
theorem exists_mem_inOrder (h : e ∈ ds) : ∃ d ∈ inOrder ds, d.offset = e.offset := by
  induction ds with
  | nil => cases h
  | cons f ds ih =>
    have hf : f ∈ inOrder (f :: ds) := (mem_place_iff (ordered_inOrder ds)).mpr (.inl rfl)
    rcases List.mem_cons.mp h with rfl | h
    · exact ⟨e, hf, rfl⟩
    · obtain ⟨d, hd, hoffset⟩ := ih h
      -- a declaration that is replaced gives way to one at the same offset
      by_cases hne : d.offset = f.offset
      · exact ⟨f, hf, hne.symm.trans hoffset⟩
      · exact ⟨d, (mem_place_iff (ordered_inOrder ds)).mpr (.inr ⟨hd, hne⟩), hoffset⟩

/-! ## Names -/

variable {words : List String} {t : Text}

/-- A name that ends where no identifier goes on is told by its offset. -/
theorem WholeIn.name_eq (h : d.WholeIn words t) :
    d.name = (dropBytes d.offset t).takeWhile isIdent := by
  obtain ⟨pre, post, ht, hoffset, -, hident, hpost⟩ := h
  rw [ht, hoffset, List.append_assoc, dropBytes_size,
    takeWhile_append_of_stops hident.all_ident hpost]

/-- A declaration is kept, or another one of the same name at the same offset is. -/
theorem exists_same_of_mem (hds : ∀ d ∈ ds, d.WholeIn words t) (h : e ∈ ds) :
    ∃ d ∈ inOrder ds, d.name = e.name ∧ d.offset = e.offset := by
  obtain ⟨d, hd, hoffset⟩ := exists_mem_inOrder h
  refine ⟨d, hd, ?_, hoffset⟩
  rw [(hds d (mem_of_mem_inOrder hd)).name_eq, (hds e h).name_eq, hoffset]

end Declaration

/-! ## Declarations of a shape -/

/-- Names that are not empty come one behind the other. -/
theorem pairwise_nameStart {s : Shape}
    (hs : ∀ {previous : Option Char} {t : Text} {m : Match}, s.find previous t = some m →
      m.name ≠ []) (t : Text) :
    (occurrences s t).Pairwise fun o o' => o.nameStart < o'.nameStart := by
  refine (pairwise_occurrences s t).imp_of_mem ?_
  intro o o' ho _ hle
  obtain ⟨pre, post, -, -, hfind⟩ := exists_of_mem_occurrences ho
  -- the name of the first stands between its start and its end
  obtain ⟨c, n, hname⟩ := List.exists_cons_of_ne_nil (hs hfind)
  have hpos : 0 < c.utf8Size := c.utf8Size_pos
  have hstop : o.nameStart < o.stop := by
    rw [Occurrence.stop, Occurrence.nameStart, Match.text, hname]
    simp only [size_append, size_cons]
    omega
  have hstart : o'.start ≤ o'.nameStart := Nat.le_add_right _ _
  omega

theorem ordered_declarationsOf {s : Shape} (hs : s.NamesIdentifiers) (t : Text) :
    Declaration.Ordered (declarationsOf s t) := by
  rw [declarationsOf, Declaration.Ordered, List.pairwise_map]
  exact pairwise_nameStart (fun h => (hs _ _ _ h).ne_nil) t

end NamingLint
