import NamingLint.Proofs.Declaration.Contract
import NamingLint.Proofs.Declaration.EndingShape

/-!
# NamingLint — occurrences and line endings

The search for a steady shape over a text and the one over the plain text find the same things, one by
one. Of an occurrence only its offset and its line endings differ.

* `Occurrence.mended`, `Declaration.mended` — what stands for it in the plain text.

Main results:

* `occurrences_plain` — the occurrences of a steady shape.
* `declarationsOf_plain` — the declarations that they stand for.
* `Declaration.inOrder_mended` — their order is the same.
-/

namespace NamingLint

open Text

/-! ## Steps of a search -/

section Search

variable {s : Shape} {previous : Option Char} {offset : Nat}

/-- Where nothing matches the search goes on with the next character. -/
theorem occurrencesFrom_of_none {c : Char} {t : Text} (h : s.find previous (c :: t) = none) :
    occurrencesFrom s 0 previous offset (c :: t) =
      occurrencesFrom s 0 (some c) (offset + c.utf8Size) t := by
  rw [occurrencesFrom, h]

/-- Behind a match the search goes on where the match ends. -/
theorem occurrencesFrom_skip (a r : Text) :
    occurrencesFrom s a.length previous offset (a ++ r) =
      occurrencesFrom s 0 (a.getLast?.or previous) (offset + size a) r := by
  induction a generalizing previous offset with
  | nil => rfl
  | cons c a ih =>
    rw [List.length_cons, List.cons_append, occurrencesFrom, ih, size_cons, Nat.add_assoc,
      List.getLast?_cons]
    cases a.getLast? <;> rfl

/-- After a match the search goes on behind it. -/
theorem occurrencesFrom_of_some {m : Match} {r : Text}
    (h : s.find previous (m.text ++ r) = some m) (hne : m.text ≠ []) :
    occurrencesFrom s 0 previous offset (m.text ++ r) =
      ⟨offset, m⟩ :: occurrencesFrom s 0 m.text.getLast? (offset + size m.text) r := by
  obtain ⟨c, a, hcons⟩ := List.exists_cons_of_ne_nil hne
  rw [hcons, List.cons_append] at h ⊢
  rw [occurrencesFrom, h]
  dsimp only
  rw [hcons, List.length_cons, Nat.add_sub_cancel, occurrencesFrom_skip, size_cons, Nat.add_assoc,
    List.getLast?_cons]
  cases a.getLast? <;> rfl

end Search

/-! ## Searches side by side -/

/-- The occurrence in the plain text that stands for this one in `t`. -/
def Occurrence.mended (t : Text) (o : Occurrence) : Occurrence :=
  ⟨plainOffset t o.start, o.found.mended⟩

namespace Shape

/-- The searches behind `w` agree on the text `u`. -/
def Agrees (s : Shape) (u : Text) : Prop :=
  ∀ (w : Text) (previous : Option Char),
    occurrencesFrom s 0 previous (size (plain w)) (plain u) =
      (occurrencesFrom s 0 previous (size w) u).map (Occurrence.mended (w ++ u))

variable {s : Shape}

/-- Matches that stand for each other, and what the searches find behind them. -/
theorem Steady.agrees_after_match (hs : s.Steady) {v w : Text} {previous previous' : Option Char}
    {m : Match} (hv : Paired v) (hm : s.find previous v = some m)
    (hm' : s.find previous' (plain v) = some m.mended)
    (ih : ∀ r, Paired r → r.length < v.length → s.Agrees r) :
    occurrencesFrom s 0 previous' (size (plain w)) (plain v) =
      (occurrencesFrom s 0 previous (size w) v).map (Occurrence.mended (w ++ v)) := by
  have hne : m.text ≠ [] := hs.ne_nil hv hm
  have htext : m.mended.text = m.text.mended :=
    Match.text_mended (hs.name hm) (hs.tail hv hm)
  obtain ⟨r, rfl⟩ := s.isPrefix hm
  -- the match takes something, so what is left is shorter
  have hlength : r.length < (m.text ++ r).length := by
    have := List.length_pos_of_ne_nil hne
    simp only [List.length_append]
    omega
  have hfirst : Occurrence.mended (w ++ (m.text ++ r)) ⟨size w, m⟩ = ⟨size (plain w), m.mended⟩ := by
    rw [Occurrence.mended, plainOffset_size]
  rw [occurrencesFrom_of_some hm hne, List.map_cons, hfirst]
  by_cases hlast : m.text.getLast? = some '\r'
  · -- the match in the plain text has the line feed as well
    obtain ⟨r, rfl⟩ := hv.feed_of_return hlast
    have hr : Paired r := (Paired.cons_iff.mp hv.append_right).2
    have hmend : m.mended.text = plain m.text ++ ['\n'] := by rw [htext, Text.mended, if_pos hlast]
    have hsplit : plain (m.text ++ '\n' :: r) = m.mended.text ++ plain r := by simp [hmend]
    have hnext := ih r hr (by simp at hlength ⊢; omega) (w ++ m.text ++ ['\n']) (some '\n')
    rw [hsplit] at hm' ⊢
    rw [occurrencesFrom_of_some hm' (by simp [hmend]), hlast,
      occurrencesFrom_of_none (hs.apart hv hm hlast r)]
    simpa [hmend, Nat.add_assoc] using hnext
  · -- both matches end at the same place
    have hmend : m.mended.text = plain m.text := by rw [htext, mended_of_ne hlast]
    have hlast' : (plain m.text).getLast? = m.text.getLast? := getLast?_plain hlast
    have hsplit : plain (m.text ++ r) = m.mended.text ++ plain r := by rw [hmend, plain_append]
    have hne' : m.mended.text ≠ [] := by
      rw [hmend, ← List.getLast?_isSome, hlast', List.getLast?_isSome]
      exact hne
    have hnext := ih r hv.append_right hlength (w ++ m.text) m.text.getLast?
    rw [hsplit] at hm' ⊢
    rw [occurrencesFrom_of_some hm' hne', hmend, hlast']
    simpa [Nat.add_assoc] using hnext

/-- A steady shape is found at the same places under both line endings. -/
theorem Steady.agrees (hs : s.Steady) {u : Text} (hu : Paired u) : s.Agrees u := by
  -- on the length: a match may take any part of the text
  induction hlength : u.length using Nat.strong_induction_on generalizing u with
  | _ n ih =>
    have ih : ∀ r, Paired r → r.length < u.length → s.Agrees r := fun r hr hlt =>
      ih r.length (hlength ▸ hlt) hr rfl
    intro w previous
    cases hu with
    | nil => rfl
    | @keep c t hc ht =>
      have hu : Paired (c :: t) := .keep hc ht
      have hkeep := hs.keep previous hc ht
      rw [← plain_cons hc] at hkeep
      cases hfind : s.find previous (c :: t) with
      | some m =>
        rw [hfind, Option.map_some] at hkeep
        exact hs.agrees_after_match hu hfind hkeep ih
      | none =>
        rw [hfind, Option.map_none, plain_cons hc] at hkeep
        have hnext := ih t ht (by simp) (w ++ [c]) (some c)
        rw [plain_cons hc, occurrencesFrom_of_none hkeep, occurrencesFrom_of_none hfind]
        simpa [plain_cons hc] using hnext
    | @pair t ht =>
      have hu : Paired ('\r' :: '\n' :: t) := .pair ht
      -- nothing at the line ending: both searches go on behind the line feed
      have hnothing : s.find previous ('\n' :: plain t) = none →
          s.find previous ('\r' :: '\n' :: t) = none → s.find (some '\r') ('\n' :: t) = none →
          occurrencesFrom s 0 previous (size (plain w)) (plain ('\r' :: '\n' :: t)) =
            (occurrencesFrom s 0 previous (size w) ('\r' :: '\n' :: t)).map
              (Occurrence.mended (w ++ '\r' :: '\n' :: t)) := by
        intro hplain hreturn hfeed
        have hshorter : t.length < ('\r' :: '\n' :: t).length := by
          simp only [List.length_cons]
          omega
        have hnext := ih t ht hshorter (w ++ ['\r', '\n']) (some '\n')
        rw [plain_return, plain_feed, occurrencesFrom_of_none hplain, occurrencesFrom_of_none hreturn,
          occurrencesFrom_of_none hfeed]
        simpa [Nat.add_assoc] using hnext
      rcases hs.pair previous ht with ⟨hplain, hfeed⟩ | ⟨hreturn, hplain⟩
      · cases hfind : s.find previous ('\r' :: '\n' :: t) with
        | some m =>
          rw [hfind, Option.map_some] at hplain
          exact hs.agrees_after_match hu hfind hplain ih
        | none =>
          rw [hfind, Option.map_none] at hplain
          exact hnothing hplain hfind hfeed
      · -- a match at the line feed: the carriage return is passed over before it
        cases hfind : s.find (some '\r') ('\n' :: t) with
        | some m =>
          rw [hfind, Option.map_some] at hplain
          have hfeed : Paired ('\n' :: t) := .keep (by decide) ht
          have hmatch := hs.agrees_after_match (w := w ++ ['\r']) hfeed hfind hplain
            fun r hr hlt => ih r hr (Nat.lt_succ_of_lt hlt)
          rw [occurrencesFrom_of_none hreturn]
          simpa using hmatch
        | none =>
          rw [hfind, Option.map_none] at hplain
          exact hnothing hplain hreturn hfind

end Shape

/-- The occurrences in the plain text. -/
theorem occurrences_plain {s : Shape} (hs : s.Steady) {u : Text} (hu : Paired u) :
    occurrences s (plain u) = (occurrences s u).map (Occurrence.mended u) :=
  hs.agrees hu [] none

section Offsets

variable {s : Shape} {u : Text} {o : Occurrence}

theorem nameStart_mended (ho : o ∈ occurrences s u) :
    (o.mended u).nameStart = plainOffset u o.nameStart := by
  obtain ⟨pre, post, hplace, hstart, -⟩ := exists_of_mem_occurrences ho
  -- the name starts behind the lead, and the offset there is that of the plain lead
  have hlead : u = pre ++ o.found.lead ++ (o.found.name ++ o.found.tail ++ post) := by
    rw [hplace, Match.text]
    simp
  have hat : plainOffset u o.start = size (plain pre) := by rw [hstart, hplace, plainOffset_size]
  have hname : plainOffset u o.nameStart = size (plain (pre ++ o.found.lead)) := by
    rw [Occurrence.nameStart, hstart, ← size_append, hlead, plainOffset_size]
  rw [hname, plain_append, size_append, ← hat]
  rfl

theorem text_mended_of_mem (hs : s.Clear) (hu : Paired u) (ho : o ∈ occurrences s u) :
    o.found.mended.text = o.found.text.mended := by
  obtain ⟨pre, post, hplace, -, hfind⟩ := exists_of_mem_occurrences ho
  have hpaired : Paired (o.found.text ++ post) := Paired.append_right (t := pre) (hplace ▸ hu)
  exact Match.text_mended (hs.name hfind) (hs.tail hpaired hfind)

/-- No match of a firm shape ends inside of a line ending. -/
theorem getLast?_of_mem_occurrences (hs : s.Firm) (hu : Paired u) (ho : o ∈ occurrences s u) :
    o.found.text.getLast? ≠ some '\r' := by
  obtain ⟨pre, post, hplace, -, hfind⟩ := exists_of_mem_occurrences ho
  exact hs.last (Paired.append_right (t := pre) (hplace ▸ hu)) hfind

theorem stop_mended (hs : s.Firm) (hu : Paired u) (ho : o ∈ occurrences s u) :
    (o.mended u).stop = plainOffset u o.stop := by
  obtain ⟨pre, post, hplace, hstart, -⟩ := exists_of_mem_occurrences ho
  have htext : o.found.mended.text = plain o.found.text := by
    rw [text_mended_of_mem hs.toClear hu ho, mended_of_ne (getLast?_of_mem_occurrences hs hu ho)]
  have hat : plainOffset u o.start = size (plain pre) := by rw [hstart, hplace, plainOffset_size]
  have hstop : plainOffset u o.stop = size (plain (pre ++ o.found.text)) := by
    rw [Occurrence.stop, hstart, ← size_append, hplace, ← List.append_assoc, plainOffset_size]
  rw [hstop, plain_append, size_append, ← hat, ← htext]
  rfl

end Offsets

/-! ## Declarations side by side -/

namespace Declaration

/-- The declaration in the plain text that stands for this one in `t`. -/
def mended (t : Text) (d : Declaration) : Declaration :=
  ⟨d.name, d.matched.mended, plainOffset t d.offset⟩

/-- What keeps the order of offsets keeps places. -/
theorem map_place {f : Declaration → Declaration} {d : Declaration} {es : List Declaration}
    (h : ∀ e ∈ es, ((f d).offset < (f e).offset ↔ d.offset < e.offset) ∧
      ((f e).offset < (f d).offset ↔ e.offset < d.offset)) :
    (place d es).map f = place (f d) (es.map f) := by
  induction es with
  | nil => rfl
  | cons e es ih =>
    obtain ⟨hbefore, hafter⟩ := h e List.mem_cons_self
    -- neither is before the other, so the offsets are the same
    have heq : (f d).offset = (f e).offset ↔ d.offset = e.offset := by omega
    have ih := ih fun e he => h e (List.mem_cons_of_mem _ he)
    simp only [place, List.map_cons, hbefore, heq]
    split
    · rfl
    · split
      · rfl
      · rw [List.map_cons, ih]

theorem map_inOrder {f : Declaration → Declaration} {ds : List Declaration}
    (h : ∀ d ∈ ds, ∀ e ∈ ds, (f d).offset < (f e).offset ↔ d.offset < e.offset) :
    (inOrder ds).map f = inOrder (ds.map f) := by
  induction ds with
  | nil => rfl
  | cons d ds ih =>
    have ih := ih fun e he e' he' => h e (List.mem_cons_of_mem _ he) e' (List.mem_cons_of_mem _ he')
    -- `d` is compared with declarations of the list only
    have hplace : (place d (inOrder ds)).map f = place (f d) ((inOrder ds).map f) := by
      apply map_place
      intro e he
      have he : e ∈ d :: ds := List.mem_cons_of_mem d (mem_of_mem_inOrder he)
      exact ⟨h d List.mem_cons_self e he, h e he d List.mem_cons_self⟩
    rw [inOrder, hplace, ih, List.map_cons, inOrder]

variable {u : Text}

/-- In front of a name no carriage return stands. -/
theorem StandsIn.exists_before {d : Declaration} (h : d.StandsIn u) (hu : Paired u) :
    ∃ w x, u = w ++ x ∧ d.offset = size w ∧ w.getLast? ≠ some '\r' := by
  obtain ⟨pre, post, hplace, hoffset⟩ := h.name_at
  obtain ⟨c, v, hname, hc⟩ := h.ident.exists_cons
  rw [List.append_assoc] at hplace
  refine ⟨pre, d.name ++ post, hplace, hoffset, ?_⟩
  apply Paired.getLast?_ne (hplace ▸ hu)
  rw [hname]
  -- a carriage return there would need a line feed for the first character of the name
  intro hfeed
  have hfeed : c = '\n' := by simpa using hfeed
  rw [hfeed] at hc
  exact absurd hc (by decide)

/-- Declarations that stand in a text keep their order. -/
theorem inOrder_mended (hu : Paired u) {ds : List Declaration} (h : ∀ d ∈ ds, d.StandsIn u) :
    (inOrder ds).map (mended u) = inOrder (ds.map (mended u)) := by
  apply map_inOrder
  intro d hd e he
  obtain ⟨w, x, hw, hdoffset, hwlast⟩ := (h d hd).exists_before hu
  obtain ⟨v, y, hv, heoffset, hvlast⟩ := (h e he).exists_before hu
  simp only [mended, hdoffset, heoffset]
  exact plainOffset_lt_iff hw hv hwlast hvlast

end Declaration

section Declarations

variable {s : Shape} {u : Text}

/-- The declarations in the plain text. -/
theorem declarationsOf_plain (hs : s.Steady) (hu : Paired u) :
    declarationsOf s (plain u) = (declarationsOf s u).map (Declaration.mended u) := by
  rw [declarationsOf, declarationsOf, occurrences_plain hs hu, List.map_map, List.map_map]
  apply List.map_congr_left
  intro o ho
  rw [Function.comp_apply, Function.comp_apply, Declaration.ofOccurrence, Declaration.ofOccurrence,
    Declaration.mended, nameStart_mended ho, ← text_mended_of_mem hs.toClear hu ho]
  rfl

theorem getLast?_of_mem_declarationsOf (hs : s.Firm) (hu : Paired u) {d : Declaration}
    (h : d ∈ declarationsOf s u) : d.matched.getLast? ≠ some '\r' := by
  obtain ⟨o, ho, rfl⟩ := List.mem_map.mp h
  exact getLast?_of_mem_occurrences hs hu ho

end Declarations

end NamingLint
