import NamingLint.Config.Error
import NamingLint.Proofs.Form.RoundTrip
import NamingLint.Proofs.Json.OpenRecord

/-!
# NamingLint — configurations among other members

A configuration is read from every object text that has its members, in any order. Any number of
members with other keys may stand among them, at the top, within `casing` and within `options`. They
may hold any values, also such as would not be read elsewhere. A member that is absent has its
standard value; an empty list of names is no absent one.

* `Config.GivenBy` — the value gives the configuration.
* `Config.MisspelledIn` — the value assigns a kind a string that spells no convention.

Main result:

* `configuration_is_read_by_its_members` — a configuration is read where it is given, and a text with
  a misspelled convention is rejected.
-/

namespace NamingLint

open Json

/-! ## Conventions -/

/-- How a convention may be spelled. -/
def Convention.spelledAs : Convention → List String
  | camel => ["camelCase"]
  | pascal => ["PascalCase", "pascalCase"]
  | snake => ["snake_case"]
  | kebab => ["kebab-case"]

namespace Convention

/-- The value is a string that spells the convention. -/
def GivenBy (v : WrittenValue) (c : Convention) : Prop :=
  ∃ w ∈ c.spelledAs, Codec.IsString v w.toList

/-- The form of a convention accepts its spellings. -/
theorem accepts : codec.Accepts GivenBy := by
  refine (Codec.accepts_word label spellings).mono ?_
  rintro v c ⟨w, hw, hv⟩
  refine ⟨w.toList, hv, ?_⟩
  -- no spelling is listed for two conventions, so the first entry found is the one that is meant
  have hfind : ∀ c : Convention, ∀ w ∈ c.spelledAs,
      (spellings.find? fun p => p.1.toList = w.toList).map Prod.snd = some c := by
    intro c
    cases c <;> decide
  exact hfind c w hw

/-- Whatever is read as a convention is one of its spellings. -/
theorem mem_spelledAs : ∀ p ∈ spellings, p.1 ∈ p.2.spelledAs := by
  decide

end Convention

/-! ## Conventions of kinds -/

namespace Casing

/-- The value assigns these conventions to kinds. A kind without a convention may be absent or
`null`. -/
def GivenBy (v : WrittenValue) (c : Casing) : Prop :=
  ∃ inside xs, v = .object inside xs ∧
    GivesRecord Kind.casingKey (fun _ => none)
      (fun _ v o => o.elim (v = .null) (Convention.GivenBy v)) xs c.get

/-- The value assigns a kind a string that spells no convention. -/
def MisspelledIn (v : WrittenValue) : Prop :=
  ∃ inside xs, v = .object inside xs ∧ ∃ x ∈ xs, ∃ (k : Kind) (s : WrittenString),
    keyText x = some k.casingKey.toList ∧ x.2.content = .string s ∧
      ∀ c : Convention, ∀ w ∈ c.spelledAs, s.decode ≠ some w.toList

theorem labels_nodup : (members.keys.map members.label).Nodup := by
  decide

/-- Blanks before a convention, or before `null`, are skipped. -/
theorem passesBlanks_form (k : Kind) : (members.form k).PassesBlanks :=
  (Convention.faithful.orNull fun c => ⟨c.label, rfl⟩).read_skipBlanks

/-- The form of a casing member reads a value to its end, or fails. -/
theorem exact_form (k : Kind) : (members.form k).Exact :=
  (Codec.exact_word Convention.label Convention.spellings).orNull

/-- The form of the casing accepts objects that give each kind a convention or leave it out. -/
theorem accepts : codec.Accepts GivenBy := by
  -- a convention is never written as `null`, so the two are told apart
  have hnull : ∀ {v : WrittenValue} {c : Convention}, Convention.GivenBy v c → v ≠ .null := by
    rintro v c ⟨w, -, s, rfl, -⟩
    exact nofun
  have hmembers := Members.accepts labels_nodup (fun _ => rfl)
    (fun _ => Convention.accepts.orNull hnull) passesBlanks_form
  exact hmembers.via fun c => PerKind.ext_get fun k => PerKind.get_ofFn _ k

theorem exact : codec.Exact :=
  (Members.exact exact_form passesBlanks_form).via _ _

/-- A misspelled convention is not read, wherever it stands. -/
theorem read_ne_ok {v : WrittenValue} (h : MisspelledIn v) (rest : Text) (p : Casing × Text) :
    codec.read (v.text ++ rest) ≠ .ok p := by
  intro hread
  obtain ⟨inside, xs, rfl, x, hx, k, s, hkey, hvalue, hspelling⟩ := h
  obtain ⟨q, hq, -⟩ := map_eq_ok hread
  -- then the member would have been read, and its string as the name of a convention
  obtain ⟨q', rest', -, hform⟩ :=
    Members.read_of_mem labels_nodup exact_form passesBlanks_form hq hx hkey
  rw [hvalue] at hform
  obtain ⟨r, hr⟩ := Codec.read_of_read_orNull hform
  exact Codec.readWord_unknown (fun p hp => hspelling p.2 p.1 (Convention.mem_spelledAs p hp))
    rest' r hr

end Casing

/-! ## Options -/

namespace Options

/-- The name of a switch in a configuration. -/
def Key.name : Key → String
  | silent => "silent"
  | noAny => "noAny"

/-- The value gives these options. A switch that is absent is off. -/
def GivenBy (v : WrittenValue) (o : Options) : Prop :=
  ∃ inside xs, v = .object inside xs ∧
    GivesRecord Key.name (fun _ => false) (fun _ v b => v = .bool b) xs o.toMembers

theorem passesBlanks_form (k : Key) : (members.form k).PassesBlanks :=
  Codec.faithful_flag.read_skipBlanks

/-- The form of the options accepts objects that give each flag or leave it out. -/
theorem accepts : codec.Accepts GivenBy := by
  have hmembers := Members.accepts (m := members) (by decide) (fun _ => rfl)
    (fun _ => Codec.accepts_flag) passesBlanks_form
  refine (hmembers.via fun o => rfl).mono ?_
  rintro v o ⟨inside, xs, hv, hgives⟩
  -- the labels of the form are the names that the statement uses
  have hname : members.label = Key.name := by
    funext k
    cases k <;> rfl
  exact ⟨inside, xs, hv, hname ▸ hgives⟩

theorem exact : codec.Exact :=
  (Members.exact (fun _ => Codec.exact_flag) passesBlanks_form).via _ _

end Options

/-! ## Configurations -/

namespace Config

/-- The name of a member of a configuration. -/
def Key.name : Key → String
  | casing => "casing"
  | options => "options"
  | ignoredDirectories => "ignoredDirectories"
  | ignoredFiles => "ignoredFiles"

/-- The value is a list of strings that stand for these names. -/
def NamesGivenBy (v : WrittenValue) (names : List String) : Prop :=
  ∃ inside items, v = .array inside items ∧
    Codec.StandFor (fun v s => Codec.IsString v s.toList) items names

/-- The value gives a member of a configuration. -/
def MemberGivenBy : (k : Key) → WrittenValue → Member k → Prop
  | .casing => Casing.GivenBy
  | .options => Options.GivenBy
  | .ignoredDirectories => NamesGivenBy
  | .ignoredFiles => NamesGivenBy

/-- The value gives the configuration. A member that is absent has its standard value. -/
def GivenBy (v : WrittenValue) (c : Config) : Prop :=
  ∃ inside xs, v = .object inside xs ∧
    GivesRecord Key.name standard.toMembers MemberGivenBy xs c.toMembers

/-- The value assigns a kind a string that spells no convention: under the key `casing`, or as the
first item where the members stand in a list. -/
def MisspelledIn (v : WrittenValue) : Prop :=
  (∃ inside xs, v = .object inside xs ∧
    ∃ x ∈ xs, keyText x = some "casing".toList ∧ Casing.MisspelledIn x.2.content) ∨
  ∃ inside i items, v = .array inside (i :: items) ∧ Casing.MisspelledIn i.content

theorem labels_nodup : (members.keys.map members.label).Nodup := by
  decide

/-- Blanks before the value of each member are skipped. -/
theorem passesBlanks_form (k : Key) : (members.form k).PassesBlanks := by
  cases k with
  | casing => exact Casing.faithful.read_skipBlanks
  | options => exact Options.faithful.read_skipBlanks
  | ignoredDirectories => exact (Codec.faithful_text _).list.read_skipBlanks
  | ignoredFiles => exact (Codec.faithful_text _).list.read_skipBlanks

/-- Each member of a configuration is accepted in the form that is its own. -/
theorem accepts_form (k : Key) : (members.form k).Accepts (MemberGivenBy k) := by
  cases k with
  | casing => exact Casing.accepts
  | options => exact Options.accepts
  | ignoredDirectories => exact (Codec.accepts_text _).list
  | ignoredFiles => exact (Codec.accepts_text _).list

/-- Each member of a configuration is read to its end, or fails. -/
theorem exact_form (k : Key) : (members.form k).Exact := by
  cases k with
  | casing => exact Casing.exact
  | options => exact Options.exact
  | ignoredDirectories => exact (Codec.exact_text _).list
  | ignoredFiles => exact (Codec.exact_text _).list

/-- The form of a configuration accepts objects that give its members, among others. -/
theorem accepts : codec.Accepts GivenBy := by
  have hmembers := Members.accepts labels_nodup (fun _ => rfl) accepts_form passesBlanks_form
  refine (hmembers.via fun c => rfl).mono ?_
  rintro v c ⟨inside, xs, hv, hgives⟩
  have hname : members.label = Key.name := by
    funext k
    cases k <;> rfl
  exact ⟨inside, xs, hv, hname ▸ hgives⟩

/-- A casing with an unknown convention spoils the configuration, in an object and in an array. -/
theorem read_ne_ok {v : WrittenValue} (h : MisspelledIn v) (rest : Text) (p : Config × Text) :
    codec.read (v.text ++ rest) ≠ .ok p := by
  intro hread
  obtain ⟨q, hq, -⟩ := map_eq_ok hread
  rcases h with ⟨inside, xs, rfl, x, hx, hkey, hcasing⟩ | ⟨inside, i, items, rfl, hcasing⟩
  · obtain ⟨q', rest', -, hform⟩ :=
      Members.read_of_mem labels_nodup exact_form passesBlanks_form hq hx (k := .casing) hkey
    exact Casing.read_ne_ok hcasing rest' q' hform
  · -- in an array the casing is the first item
    obtain ⟨q', rest', -, hform⟩ := Members.read_of_head (k := .casing) rfl hq
    exact Casing.read_ne_ok hcasing rest' q' hform

end Config

/-- Only the members of a configuration decide what is read. Where they give a configuration, in any
order and among any others, that configuration is read; where a kind is assigned a string that spells
no convention, the text is rejected. -/
theorem configuration_is_read_by_its_members (p : Padded WrittenValue) :
    (∀ c, Config.GivenBy p.content c →
      Config.parse (p.before.text ++ (p.content.text ++ p.after.text)) = .ok c) ∧
    (Config.MisspelledIn p.content → ∃ message,
      Config.parse (p.before.text ++ (p.content.text ++ p.after.text)) =
        .error (.malformed message)) := by
  constructor
  · intro c hc
    have hparse := Config.accepts.parse Config.faithful.read_skipBlanks hc
    rw [Config.parse, hparse]
    rfl
  · intro hmisspelled
    rw [Config.parse]
    cases hparse : Config.codec.parse
        (p.before.text ++ (p.content.text ++ p.after.text)) with
    | error f => exact ⟨_, rfl⟩
    | ok c =>
      obtain ⟨q, hread, -⟩ := bind_eq_ok hparse
      have hblanks : Config.codec.PassesBlanks := Config.faithful.read_skipBlanks
      -- whatever follows the value, it cannot be read
      rw [hblanks.read_append] at hread
      exact absurd hread (Config.read_ne_ok hmisspelled p.after.text q)

/-- A string assigned to classes, after another member. -/
def Casing.classesAs (s : WrittenString) : WrittenValue :=
  .object Blanks.none
    [bareMember (.plain "note" (by decide)) (.object Blanks.none []),
     bareMember (.plain "classCasing" (by decide)) (.string s)]

/-- The same within a configuration, before another member and with an escape in its key. -/
def Config.classesAs (s : WrittenString) : Padded WrittenValue :=
  ⟨Blanks.none, .object Blanks.none
    [bareMember (WrittenString.plain "casin" (by decide) ++ [.unit "0067".toList 0x67 (by decide)])
       (Casing.classesAs s),
     bareMember (.plain "casings" (by decide)) (.bool true)], Blanks.none⟩

theorem classes_are_read_among_other_members :
    Config.parse ("\x7b\"casin\\u0067\":\x7b\"note\":\x7b\x7d,\"classCasing\":\"pascalCase\"\x7d," ++
        "\"casings\":true\x7d").toList =
      .ok { Config.standard with casing := Casing.unset.set .classes (some .pascal) } ∧
    ∃ message, Config.parse
        ("\x7b\"casin\\u0067\":\x7b\"note\":\x7b\x7d,\"classCasing\":\"Pascal\"\x7d," ++
          "\"casings\":true\x7d").toList =
      .error (.malformed message) := by
  constructor
  · refine (configuration_is_read_by_its_members
      (Config.classesAs (.plain "pascalCase" (by decide)))).1 _ ?_
    have hcasing : Casing.GivenBy (Casing.classesAs (.plain "pascalCase" (by decide)))
        (Casing.unset.set .classes (some .pascal)) := by
      refine ⟨_, _, rfl, .other (t := "note".toList) (.member ?_ .nil (k := .classes)
        (by decide) nofun ⟨"pascalCase", by decide, _, rfl, by decide⟩ ?_) (by decide) ?_⟩
      · intro j k
        cases j <;> cases k <;> decide
      · intro j
        cases j <;> decide
      · intro k
        cases k <;> decide
    refine ⟨_, _, rfl, .member ?_ (.other (t := "casings".toList) .nil (by decide) ?_)
      (k := .casing) (by decide) (by decide) hcasing ?_⟩
    · intro j k
      cases j <;> cases k <;> decide
    · intro k
      cases k <;> decide
    · intro j hj
      cases j with
      | casing => exact absurd rfl hj
      | options => rfl
      | ignoredDirectories => rfl
      | ignoredFiles => rfl
  · refine (configuration_is_read_by_its_members
      (Config.classesAs (.plain "Pascal" (by decide)))).2 ?_
    refine .inl ⟨_, _, rfl, _, .head _, by decide, _, _, rfl, _, .tail _ (.head _), .classes, _,
      by decide, rfl, ?_⟩
    intro c
    cases c <;> decide

end NamingLint
