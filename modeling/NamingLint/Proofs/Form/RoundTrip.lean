import NamingLint.Form.Config
import NamingLint.Form.Result
import NamingLint.Proofs.Json.Faithful
import NamingLint.Proofs.Result.Tally

/-!
# NamingLint — written forms are read back

Every form of reports, results and configurations is faithful: a value whose counters have at most 64
bits is read back from what is written for it. What is read has such counters, so a text that was
read settles at once: written, read and written again, it stays the same.

* `Location.Fits`, …, `RunResult.Fits` — all counters have at most 64 bits.
* `Codec.RoundTrips` — values are read back, and texts settle.

Main results:

* `TallySet.faithful`, `FileStatus.faithful` — the two forms that are no records: a set that may lack
  kinds, and a tag with a content.
* `forms_round_trip` — the forms of all types.
-/

namespace NamingLint

open Json (Codec Members ReadsMembers Numeral Layout StopsNumber)

/-! ## Words -/

theorem Kind.faithful : Kind.codec.Faithful fun _ => True :=
  Codec.faithful_word fun k => by cases k <;> rfl

/-- Of the two spellings of the Pascal convention, one is written and both are read. -/
theorem Convention.faithful : Convention.codec.Faithful fun _ => True :=
  Codec.faithful_word fun c => by cases c <;> rfl

theorem FileType.faithful : FileType.codec.Faithful fun _ => True :=
  Codec.faithful_word fun t => by cases t <;> rfl

theorem FileStatus.Tag.faithful : Tag.codec.Faithful fun _ => True :=
  Codec.faithful_word fun t => by cases t <;> rfl

theorem Path.faithful : Path.codec.Faithful fun _ => True :=
  (Codec.faithful_text _).via (fun _ => rfl) (fun _ _ => trivial) fun _ _ => trivial

/-! ## Locations, violations, findings -/

/-- The line number has at most 64 bits. -/
def Location.Fits (l : Location) : Prop :=
  l.line ≤ Numeral.greatest

def Violation.Fits (v : Violation) : Prop :=
  v.location.Fits

def Finding.Fits (f : Finding) : Prop :=
  f.location.Fits

/-- Places are read back if their line is within bounds. -/
theorem Location.faithful : Location.codec.Faithful Location.Fits := by
  have hlawful : members.Lawful fun
      | .line => (· ≤ Numeral.greatest)
      | _ => fun _ => True :=
    { labels := by decide
      absent_of_omitted := by simp [members]
      fits_absent := by simp [members]
      form := fun
        | .filePath => Path.faithful
        | .line => Codec.faithful_count }
  -- the line is all that has to be within bounds
  refine hlawful.faithful.via (fun _ => rfl) ?_ fun r hr => hr .line
  intro l hl k
  cases k with
  | filePath => trivial
  | line => exact hl

/-- Violations are read back if their place is. -/
theorem Violation.faithful : Violation.codec.Faithful Violation.Fits := by
  have hlawful : members.Lawful fun
      | .location => Location.Fits
      | _ => fun _ => True :=
    { labels := by decide
      absent_of_omitted := by simp [members]
      fits_absent := by simp [members]
      form := fun
        | .identifierName => Codec.faithful_text _
        | .kind => Kind.faithful
        | .convention => Convention.faithful
        | .location => Location.faithful }
  -- only a location can fail to fit
  refine hlawful.faithful.via (fun _ => rfl) ?_ fun r hr => hr .location
  intro v hv k
  cases k with
  | location => exact hv
  | _ => trivial

/-- Findings are read back if their place is. -/
theorem Finding.faithful : Finding.codec.Faithful Finding.Fits := by
  have hlawful : members.Lawful fun
      | .location => Location.Fits
      | _ => fun _ => True :=
    { labels := by decide
      absent_of_omitted := by simp [members]
      fits_absent := by simp [members]
      form := fun
        | .rule => Codec.faithful_text _
        | .message => Codec.faithful_text _
        | .location => Location.faithful }
  refine hlawful.faithful.via (fun _ => rfl) ?_ fun r hr => hr .location
  intro f hf k
  cases k with
  | location => exact hf
  | _ => trivial

/-! ## Tallies -/

structure Tally.Fits (t : Tally) : Prop where
  valid : t.valid ≤ Numeral.greatest
  invalid : t.invalid ≤ Numeral.greatest

/-- The tallies of the kinds that are present fit. -/
def TallySet.Fits (s : TallySet) : Prop :=
  ∀ k, ∀ t ∈ s.get? k, t.Fits

/-- Tallies are read back if both counts are within bounds. -/
theorem Tally.faithful : Tally.codec.Faithful Tally.Fits := by
  have hlawful : members.Lawful fun _ => (· ≤ Numeral.greatest) :=
    { labels := by decide
      absent_of_omitted := by simp [members]
      fits_absent := by simp [members]
      form := fun _ => Codec.faithful_count }
  refine hlawful.faithful.via (fun _ => rfl) ?_ fun r hr => ⟨hr .valid, hr .invalid⟩
  intro t ht k
  cases k with
  | valid => exact ht.valid
  | invalid => exact ht.invalid

namespace TallySet

/-- Setting a tally changes its kind only. -/
theorem get?_set (s : TallySet) (k j : Kind) (t : Tally) :
    (s.set k t).get? j = if j = k then some t else s.get? j := by
  simp only [get?, set, PerKind.get_set]

theorem Fits.set {s : TallySet} (h : s.Fits) {t : Tally} (ht : t.Fits) (k : Kind) :
    (s.set k t).Fits := by
  intro j u hu
  rw [get?_set] at hu
  split at hu
  · cases hu
    exact ht
  · exact h j u hu

/-- A written row is read into a set. -/
theorem readMember_write {t : Tally} (ht : t.Fits) (s : TallySet) (k : Kind) (l : Layout)
    (level : Nat) {rest : Text} (hrest : StopsNumber rest) :
    readMember s (Json.writeString k.label ++
      (l.colon ++ ((Tally.codec.write t).writeAt l level ++ rest))) = .ok (s.set k t, rest) := by
  obtain ⟨u, hcolon, hu⟩ := Tally.faithful.read_member ht l level hrest
  have hstops : StopsNumber (l.colon ++ ((Tally.codec.write t).writeAt l level ++ rest)) := by
    cases l <;> exact Json.stopsNumber_cons (by decide)
  have hkind := Kind.faithful.read_write k trivial l level _ hstops
  have hlabel : (Kind.codec.write k).writeAt l level = Json.writeString k.label := rfl
  rw [hlabel] at hkind
  simp only [readMember, hkind, bind, Except.bind, hcolon, hu]
  rfl

/-- The written rows of some kinds, read one after the other. -/
theorem readsMembers {s : TallySet} (hs : s.Fits) (l : Layout) (level : Nat) (ks : List Kind)
    (start : TallySet) :
    ∃ s', ReadsMembers readMember l level start
        ((ks.filterMap fun k => (s.get? k).map fun t => (k, t)).map fun r =>
          (r.1.label, Tally.codec.write r.2)) s' ∧
      ∀ j, s'.get? j = if j ∈ ks then (s.get? j).or (start.get? j) else start.get? j := by
  induction ks generalizing start with
  | nil => exact ⟨start, .nil start, by simp⟩
  | cons k ks ih =>
    cases hk : s.get? k with
    | none =>
      obtain ⟨s', hreads, hget⟩ := ih start
      refine ⟨s', by simpa [hk] using hreads, ?_⟩
      intro j
      rw [hget j]
      -- a kind without a tally is not written and changes nothing
      by_cases hjk : j = k
      · simp [hjk, hk]
      · simp [hjk]
    | some t =>
      obtain ⟨s', hreads, hget⟩ := ih (start.set k t)
      have hfirst := fun rest (hrest : StopsNumber rest) =>
        readMember_write (hs k t hk) start k l level hrest
      refine ⟨s', ?_, ?_⟩
      · simp only [List.filterMap_cons, hk, Option.map_some, List.map_cons]
        exact .cons hfirst hreads
      · intro j
        rw [hget j, get?_set]
        by_cases hjk : j = k
        · simp [hjk, hk]
        · simp [hjk]

/-- A set is read back with the kinds it has. -/
theorem faithful : TallySet.codec.Faithful Fits where
  read_write s hs l level rest _ := by
    obtain ⟨s', hreads, hget⟩ := readsMembers hs l (level + 1) Kind.all empty
    -- all kinds are asked for, so nothing of the start is left
    obtain rfl : s' = s := by
      apply ext_get?
      intro k
      rw [hget k, if_pos (Kind.mem_all k)]
      simp [empty, get?]
    obtain ⟨t, htext, hread⟩ := hreads.readMembers rest
    have hwrite : (codec.write s').writeAt l level ++ rest = '\x7b' :: t := htext
    have hbrace : Json.skipBlanks ('\x7b' :: t) = '\x7b' :: t := Json.skipBlanks_cons rfl t
    rw [hwrite]
    simp only [codec, hbrace, hread]
  opens s _ l level := by
    show ∃ c t, (Json.Value.object (s.rows.map _)).writeAt l level = c :: t ∧ _
    cases s.rows with
    | nil => exact ⟨'\x7b', ['\x7d'], rfl, rfl, by decide⟩
    | cons r rs => exact ⟨'\x7b', _, rfl, rfl, by decide⟩
  read_skipBlanks t := by simp only [codec, Json.skipBlanks_skipBlanks]
  fits_of_read t s rest hread := by
    -- whatever the members are, each tally that is read fits
    have hmember : ∀ (s : TallySet) t s' rest, s.Fits → readMember s t = .ok (s', rest) → s'.Fits := by
      intro s t s' rest hs hread
      obtain ⟨⟨k, u⟩, -, hread⟩ := Json.bind_eq_ok hread
      obtain ⟨u, -, hread⟩ := Json.bind_eq_ok hread
      obtain ⟨⟨tally, u⟩, htally, hread⟩ := Json.bind_eq_ok hread
      cases hread
      exact hs.set (Tally.faithful.fits_of_read _ tally _ htally) k
    have hempty : empty.Fits := fun k t ht => by simp [empty, get?] at ht
    simp only [codec] at hread
    split at hread
    · cases hread
    · exact Json.readMembers_keeps hmember hempty hread
    · cases hread

end TallySet

/-! ## Statuses -/

namespace FileStatus

/-- The written tag comes first. -/
theorem readMember_tag (room : Nat) (t : Tag) (l : Layout) (level : Nat) {rest : Text}
    (hrest : StopsNumber rest) :
    readMember room .nothing (Json.writeString tagKey ++
      (l.colon ++ ((Json.Value.string t.label).writeAt l level ++ rest))) = .ok (.tagged t, rest) := by
  obtain ⟨u, hcolon, hu⟩ := Tag.faithful.read_member (a := t) trivial l level hrest
  have hlabel : Tag.codec.write t = .string t.label := rfl
  rw [hlabel] at hcolon
  simp only [readMember, Json.readKey_writeString, bind, Except.bind, if_true, hcolon, hu]
  rfl

/-- The content follows the tag that calls for it. -/
theorem readMember_content (room : Nat) (e : String) (l : Layout) (level : Nat) {rest : Text}
    (hrest : StopsNumber rest) :
    readMember room (.tagged .unreadable) (Json.writeString contentKey ++
      (l.colon ++ ((Json.Value.string e).writeAt l level ++ rest))) =
        .ok (.done (.unreadable e), rest) := by
  obtain ⟨u, hcolon, hu⟩ :=
    (Codec.faithful_text "a string").read_member (a := e) trivial l level hrest
  have hwrite : (Codec.text "a string").write e = .string e := rfl
  have hkey : ¬ contentKey.toList = tagKey.toList := by decide
  rw [hwrite] at hcolon
  simp only [readMember, Json.readKey_writeString, bind, Except.bind, if_neg hkey, if_true, hcolon,
    readContent, Tag.bare?, Codec.string, hu]
  rfl

/-- A status is read back, whatever room there is for contents of unknown tags. -/
theorem faithful (room : Nat) : (codec room).Faithful fun _ => True where
  read_write s _ l level rest _ := by
    -- a draft that makes up the status, and the members it is read from
    obtain ⟨ms, d, hms, hreads, hdone⟩ : ∃ ms d, write s = .object ms ∧
        ReadsMembers (readMember (room - 1)) l (level + 1) .nothing ms d ∧
        d.complete rest = .ok s := by
      have htag := fun (t : Tag) rest (hrest : StopsNumber rest) =>
        readMember_tag (room - 1) t l (level + 1) hrest
      cases s with
      | unreadable e =>
        refine ⟨_, .done (.unreadable e), rfl, .cons (htag .unreadable) (.cons ?_ (.nil _)), rfl⟩
        exact fun rest hrest => readMember_content (room - 1) e l (level + 1) hrest
      | completed => exact ⟨_, .tagged .completed, rfl, .cons (htag .completed) (.nil _), rfl⟩
      | notSource => exact ⟨_, .tagged .notSource, rfl, .cons (htag .notSource) (.nil _), rfl⟩
      | suppressed => exact ⟨_, .tagged .suppressed, rfl, .cons (htag .suppressed) (.nil _), rfl⟩
    obtain ⟨t, htext, hread⟩ := hreads.readMembers rest
    have hwrite : ((codec room).write s).writeAt l level ++ rest = '\x7b' :: t := by
      rw [← htext, ← hms]
      rfl
    have hbrace : Json.skipBlanks ('\x7b' :: t) = '\x7b' :: t := Json.skipBlanks_cons rfl t
    rw [hwrite]
    simp only [codec, hbrace, readObject, hread, bind, Except.bind, hdone]
    rfl
  opens s _ l level := by cases s <;> exact ⟨'\x7b', _, rfl, rfl, by decide⟩
  read_skipBlanks t := by simp only [codec, Json.skipBlanks_skipBlanks]
  fits_of_read _ _ _ _ := trivial

end FileStatus

/-! ## Reports and results -/

structure FileReport.Fits (r : FileReport) : Prop where
  tallies : r.tallies.Fits
  violations : ∀ v ∈ r.violations, v.Fits
  findings : ∀ f ∈ r.findings, f.Fits

structure RunResult.Fits (r : RunResult) : Prop where
  tallies : r.tallies.Fits
  violations : ∀ v ∈ r.violations, v.Fits
  findings : ∀ f ∈ r.findings, f.Fits
  checked : r.checked ≤ Numeral.greatest
  suppressed : r.suppressed ≤ Numeral.greatest
  unreadable : r.unreadable ≤ Numeral.greatest
  notSource : r.notSource ≤ Numeral.greatest

/-- Reports of files are read back, their lists item by item. -/
theorem FileReport.faithful : FileReport.codec.Faithful FileReport.Fits := by
  have hlawful : members.Lawful fun
      | .tallies => TallySet.Fits
      | .violations => fun vs => ∀ v ∈ vs, v.Fits
      | .findings => fun fs => ∀ f ∈ fs, f.Fits
      | _ => fun _ => True :=
    { labels := by decide
      absent_of_omitted := by simp [members]
      fits_absent := by simp [members]
      form := fun
        | .path => Path.faithful
        | .fileType => FileType.faithful
        | .status => FileStatus.faithful _
        | .tallies => TallySet.faithful
        | .violations => Violation.faithful.list
        | .findings => Finding.faithful.list }
  refine hlawful.faithful.via (fun _ => rfl) ?_ fun r hr =>
    ⟨hr .tallies, hr .violations, hr .findings⟩
  intro r hr k
  cases k with
  | tallies => exact hr.tallies
  | violations => exact hr.violations
  | findings => exact hr.findings
  | _ => trivial

theorem Gap.faithful : Gap.codec.Faithful fun _ => True := by
  have hlawful : members.Lawful fun _ _ => True :=
    { labels := by decide
      absent_of_omitted := by simp [members]
      fits_absent := by simp
      form := fun
        | .kind => Kind.faithful
        | .convention => Convention.faithful }
  exact hlawful.faithful.via (fun _ => rfl) (fun _ _ _ => trivial) fun _ _ => trivial

/-- Listing a set and collecting the list gives the set. -/
theorem GapSet.ofList_toList (s : GapSet) : ofList s.toList = s := by
  apply ext_has
  intro g
  have hmem : g ∈ candidates :=
    List.mem_flatMap.mpr ⟨g.kind, Kind.mem_all g.kind,
      List.mem_map.mpr ⟨g.convention, Convention.mem_all g.convention, rfl⟩⟩
  rw [ofList, has_ofFn, Bool.eq_iff_iff, List.contains_iff_mem, toList, List.mem_filter]
  exact and_iff_right hmem

/-- A set of gaps is written as a list and read back as a set. -/
theorem GapSet.faithful : GapSet.codec.Faithful fun _ => True :=
  Gap.faithful.list.via ofList_toList (fun _ _ _ _ => trivial) fun _ _ => trivial

namespace RunResult

/-- What a member of a result has to be to fit. -/
def Key.Fits : (k : Key) → Member k → Prop
  | tallies => TallySet.Fits
  | violations => fun vs => ∀ v ∈ vs, v.Fits
  | findings => fun fs => ∀ f ∈ fs, f.Fits
  | filesChecked => (· ≤ Numeral.greatest)
  | filesSuppressed => (· ≤ Numeral.greatest)
  | filesErrored => (· ≤ Numeral.greatest)
  | filesIgnored => (· ≤ Numeral.greatest)
  | unimplemented => fun _ => True

/-- Each member of a result is read back in its own form. -/
theorem Key.faithful (k : Key) : k.form.Faithful k.Fits := by
  cases k with
  | tallies => exact TallySet.faithful
  | violations => exact Violation.faithful.list
  | findings => exact Finding.faithful.list
  | filesChecked => exact Codec.faithful_count
  | filesSuppressed => exact Codec.faithful_count
  | filesErrored => exact Codec.faithful_count
  | filesIgnored => exact Codec.faithful_count
  | unimplemented => exact GapSet.faithful

theorem Fits.toMembers {r : RunResult} (h : r.Fits) (k : Key) : k.Fits (r.toMembers k) := by
  cases k with
  | tallies => exact h.tallies
  | violations => exact h.violations
  | findings => exact h.findings
  | filesChecked => exact h.checked
  | filesSuppressed => exact h.suppressed
  | filesErrored => exact h.unreadable
  | filesIgnored => exact h.notSource
  | unimplemented => trivial

/-- Results are read back if all counts and lines are within bounds. -/
theorem faithful : RunResult.codec.Faithful Fits := by
  -- the labels differ, and no member has a default that does not fit
  have hlawful : members.Lawful Key.Fits :=
    { labels := by decide
      absent_of_omitted := by simp [members]
      fits_absent := by simp [members]
      form := Key.faithful }
  exact hlawful.faithful.via (fun _ => rfl) (fun r hr => hr.toMembers) fun r hr =>
    ⟨hr .tallies, hr .violations, hr .findings, hr .filesChecked, hr .filesSuppressed,
      hr .filesErrored, hr .filesIgnored⟩

end RunResult

/-! ## Configurations -/

/-- A kind without a convention is left out, and read back as one without. -/
theorem Casing.faithful : Casing.codec.Faithful fun _ => True := by
  have hlawful : members.Lawful fun _ o => ∀ c ∈ o, True :=
    { labels := by decide
      absent_of_omitted := by
        intro k v hv
        rw [Option.isNone_iff_eq_none.mp hv]
        rfl
      fits_absent := by simp
      form := fun _ => Convention.faithful.orNull fun c => ⟨c.label, rfl⟩ }
  -- a kind that is left out reads as unset, which is how it was written
  refine hlawful.faithful.via ?_ (fun _ _ _ _ _ => trivial) fun _ _ => trivial
  intro p
  exact PerKind.ext_get fun k => PerKind.get_ofFn _ k

theorem Options.faithful : Options.codec.Faithful fun _ => True := by
  have hlawful : members.Lawful fun _ _ => True :=
    { labels := by decide
      absent_of_omitted := by simp [members]
      fits_absent := by simp
      form := fun _ => Codec.faithful_flag }
  exact hlawful.faithful.via (fun _ => rfl) (fun _ _ _ => trivial) fun _ _ => trivial

/-- Every configuration is read back. -/
theorem Config.faithful : Config.codec.Faithful fun _ => True := by
  have hlawful : members.Lawful fun
      | .ignoredDirectories => fun names => ∀ name ∈ names, True
      | .ignoredFiles => fun names => ∀ name ∈ names, True
      | _ => fun _ => True :=
    { labels := by decide
      absent_of_omitted := by simp [members]
      fits_absent := by intro k; cases k <;> simp
      form := fun
        | .casing => Casing.faithful
        | .options => Options.faithful
        | .ignoredDirectories => (Codec.faithful_text _).list
        | .ignoredFiles => (Codec.faithful_text _).list }
  refine hlawful.faithful.via (fun _ => rfl) ?_ fun _ _ => trivial
  intro c _ k
  cases k <;> simp

/-! ## Round trips -/

/-- Values that fit are read back from either layout. And a text that is read settles: written, read
and written again, it is the same. -/
structure Json.Codec.RoundTrips {α : Type} (c : Codec α) (fits : α → Prop) : Prop where
  parse_write : ∀ a, fits a → ∀ l, c.parse ((c.write a).write l) = .ok a
  settles : ∀ t a, c.parse t = .ok a → ∀ l, ∃ b, c.parse ((c.write a).write l) = .ok b ∧
    (c.write b).write l = (c.write a).write l

/-- A faithful form reads back what it writes, and writing settles what was read. -/
theorem Json.Codec.Faithful.roundTrips {α : Type} {c : Codec α} {fits : α → Prop}
    (h : c.Faithful fits) : c.RoundTrips fits where
  parse_write _ ha l := h.parse_write ha l
  settles _ a ht l := ⟨a, h.parse_write (h.fits_of_parse ht) l, rfl⟩

/-- The forms of all types round-trip, as long as counters have at most 64 bits. -/
theorem forms_round_trip :
    Location.codec.RoundTrips Location.Fits ∧
    Violation.codec.RoundTrips Violation.Fits ∧
    Finding.codec.RoundTrips Finding.Fits ∧
    Tally.codec.RoundTrips Tally.Fits ∧
    TallySet.codec.RoundTrips TallySet.Fits ∧
    (∀ room, (FileStatus.codec room).RoundTrips fun _ => True) ∧
    FileReport.codec.RoundTrips FileReport.Fits ∧
    (Gap.codec.RoundTrips fun _ => True) ∧
    RunResult.codec.RoundTrips RunResult.Fits ∧
    (Casing.codec.RoundTrips fun _ => True) ∧
    (Options.codec.RoundTrips fun _ => True) ∧
    (Config.codec.RoundTrips fun _ => True) :=
  ⟨Location.faithful.roundTrips, Violation.faithful.roundTrips, Finding.faithful.roundTrips,
    Tally.faithful.roundTrips, TallySet.faithful.roundTrips,
    fun room => (FileStatus.faithful room).roundTrips, FileReport.faithful.roundTrips,
    Gap.faithful.roundTrips, RunResult.faithful.roundTrips, Casing.faithful.roundTrips,
    Options.faithful.roundTrips, Config.faithful.roundTrips⟩

/-- Names with quotes, control characters and characters outside of ASCII; a kind that is
lacking; the greatest counters; a gap. -/
def awkwardResult : RunResult where
  tallies := TallySet.empty.set .enums ⟨18446744073709551615, 0⟩
  violations := [⟨"a\"\\b\x00\n", .enums, .pascal, ⟨⟨"src/\u03b1 \x7f.ts"⟩, 1⟩⟩]
  findings := [⟨"no-any", "\t", ⟨⟨""⟩, 18446744073709551615⟩⟩]
  checked := 18446744073709551615
  suppressed := 0
  unreadable := 10
  notSource := 7
  gaps := GapSet.ofList [⟨.functions, .kebab⟩]

theorem awkwardResult_round_trips : awkwardResult.Fits ∧ ∀ l,
    RunResult.codec.parse ((RunResult.codec.write awkwardResult).write l) = .ok awkwardResult := by
  have hfits : awkwardResult.Fits := by
    refine ⟨?_, ?_, ?_, by decide, by decide, by decide, by decide⟩
    · have hempty : TallySet.empty.Fits := fun k t ht => by simp [TallySet.empty, TallySet.get?] at ht
      exact hempty.set ⟨by decide, by decide⟩ .enums
    · intro v hv
      obtain rfl := List.mem_singleton.mp hv
      show 1 ≤ Numeral.greatest
      decide
    · intro f hf
      obtain rfl := List.mem_singleton.mp hf
      show 18446744073709551615 ≤ Numeral.greatest
      decide
  obtain ⟨-, -, -, -, -, -, -, -, hresult, -⟩ := forms_round_trip
  exact ⟨hfits, hresult.parse_write awkwardResult hfits⟩

end NamingLint
