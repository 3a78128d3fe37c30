import NamingLint.Json.Record
import NamingLint.Result.FileReport

/-!
# NamingLint — written file statuses

A status is an object of a tag and, for files that could not be read, a content. The content may
stand before the tag; it is then kept as a value and looked at when the tag is known.
-/

namespace NamingLint.FileStatus

open Json (Codec Fault Found Reader Value)

/-- The word that says which status it is. -/
inductive Tag where
  | completed
  | notSource
  | suppressed
  | unreadable
  deriving DecidableEq, Repr

namespace Tag

/-- Every tag. -/
def all : List Tag :=
  [completed, notSource, suppressed, unreadable]

/-- The word for a tag. -/
def label : Tag → String
  | completed => "completed"
  | notSource => "not-source"
  | suppressed => "skipped-suppressed"
  | unreadable => "errored"

/-- The form of a tag. -/
def codec : Codec Tag :=
  Codec.word label (Codec.labelled label all)

/-- The status of a tag without content; none if the tag needs one. -/
def bare? : Tag → Option FileStatus
  | completed => some .completed
  | notSource => some .notSource
  | suppressed => some .suppressed
  | unreadable => none

/-- What a fault says about the content of a tag. -/
def wanted : Tag → String
  | completed => "unit variant FileStatus::Completed"
  | notSource => "unit variant FileStatus::NotSource"
  | suppressed => "unit variant FileStatus::SkippedSuppressed"
  | unreadable => "a string"

end Tag

/-- The tag of a status. -/
def tag : FileStatus → Tag
  | completed => .completed
  | notSource => .notSource
  | suppressed => .suppressed
  | unreadable _ => .unreadable

/-- Key of the tag. -/
def tagKey : String := "status"

/-- Key of the content. -/
def contentKey : String := "error"

/-- What a fault says about a status. -/
def wanted : String := "adjacently tagged enum FileStatus"

/-! ## Contents -/

/-- The status of a tag with a content that was kept as a value. -/
def ofContent (tag : Tag) (content : Value) (rest : Text) : Except Fault FileStatus :=
  match tag.bare?, content with
  | some s, .null => .ok s
  | none, .string e => .ok (.unreadable e)
  | _, v => .error (.before (.wrongType (Found.ofValue v) tag.wanted) (Json.pastObjectEnd rest))

/-- Reads the content of a tag that takes none: only `null` will do. A list or an object is seen to be
wrong after its opening bracket. -/
def readNull (wanted : String) (t : Text) : Except Fault Text :=
  match Json.skipBlanks t with
  | [] => .error (.atNext .endInValue [])
  | 'n' :: rest => Json.expectWord "ull".toList rest
  | '[' :: rest => .error (.before (.wrongType .sequence wanted) (Json.pastListEnd rest))
  | '\x7b' :: rest => .error (.before (.wrongType .map wanted) (Json.pastObjectEnd rest))
  | other => .error (Json.mismatch wanted other)

/-- Reads the content of a tag. -/
def readContent (tag : Tag) (t : Text) : Except Fault (FileStatus × Text) :=
  match tag.bare? with
  | some s => (readNull tag.wanted t).map (s, ·)
  | none => (Codec.string.read t).map fun (e, rest) => (.unreadable e, rest)

/-! ## Objects -/

/-- What is known of a status while its members are read. -/
inductive Draft where
  | nothing
  | tagged (tag : Tag)
  /-- A content whose tag is not known yet. -/
  | content (content : Value)
  | done (status : FileStatus)

/-- Reads one member. At most `room` brackets may be open in a content that is kept. -/
def readMember (room : Nat) (d : Draft) : Reader Draft := fun t => do
  let (key, rest) ← Json.readKey t
  if key = tagKey.toList then
    match d with
    | .nothing =>
      let (tag, rest) ← Tag.codec.read (← Json.readColon rest)
      return (.tagged tag, rest)
    | .content v =>
      let (tag, rest) ← Tag.codec.read (← Json.readColon rest)
      return (.done (← ofContent tag v rest), rest)
    | _ => .error (.before (.repeatedMember tagKey) (Json.pastObjectEnd rest))
  else if key = contentKey.toList then
    match d with
    | .nothing =>
      let (v, rest) ← Json.readValue room (← Json.readColon rest)
      return (.content v, rest)
    | .tagged tag =>
      let (s, rest) ← readContent tag (← Json.readColon rest)
      return (.done s, rest)
    | _ => .error (.before (.repeatedMember contentKey) (Json.pastObjectEnd rest))
  else
    let rest ← Json.skipValue (← Json.readColon rest)
    return (d, rest)

/-- The status that a draft makes up at the end of its object. -/
def Draft.complete (rest : Text) : Draft → Except Fault FileStatus
  | .done s => .ok s
  | .tagged tag =>
    match tag.bare? with
    | some s => .ok s
    | none => .error (.before (.missingMember contentKey) rest)
  | _ => .error (.before (.missingMember tagKey) rest)

/-- Reads the object form after its opening brace. -/
def readObject (room : Nat) : Reader FileStatus := fun t => do
  let (d, rest) ← Json.readMembers (readMember room) .nothing t
  return (← d.complete rest, rest)

/-! ## Lists -/

/-- Reads the list form after its opening bracket: the tag, then the content. -/
def readList : Reader FileStatus := fun t => do
  match ← Json.nextItem? true t with
  | none => .error (.before (.wrongLength 0 wanted) (Json.pastListEnd t))
  | some next =>
    let (tag, rest) ← Tag.codec.read next
    match ← Json.nextItem? false rest with
    | none => .error (.before (.wrongLength 1 wanted) (Json.pastListEnd rest))
    | some next =>
      let (s, rest) ← readContent tag next
      return (s, ← Json.readListEnd rest)

/-! ## Form -/

/-- The written form: the tag, and the content where there is one. -/
def write (s : FileStatus) : Value :=
  let tagged := (tagKey, Value.string s.tag.label)
  match s with
  | .unreadable e => .object [tagged, (contentKey, .string e)]
  | _ => .object [tagged]

/-- The form of a status inside of which at most `room` brackets may be open. -/
def codec (room : Nat) : Codec FileStatus where
  write := write
  read t :=
    match Json.skipBlanks t with
    | [] => .error (.atNext .endInValue [])
    | '[' :: rest => readList rest
    | '\x7b' :: rest => readObject (room - 1) rest
    | other => .error (Json.mismatch wanted other)

end NamingLint.FileStatus
