import NamingLint.Json.Codec

/-!
# NamingLint — records in JSON

A record is written as an object with one member for each of its keys. It may also be read from a
list of the members' values in order.

* `Members` — the keys of a record, each with its label, its codec, and the value it has when it is
  absent.
* `Members.codec` — the form of the record. Members with other keys are skipped; a key may stand only
  once; the first key that is lacking without a value of its own is reported.
-/

namespace NamingLint.Json

/-- The members of a record: `T k` is the type of the member with key `k`. -/
structure Members (κ : Type) (T : κ → Type) where
  /-- The name of the record in messages. -/
  name : String
  /-- The keys in the order in which members are written. -/
  keys : List κ
  mem_keys : ∀ k, k ∈ keys
  label : κ → String
  form : (k : κ) → Codec (T k)
  /-- The value of a member that is absent; a member without one has to be present. -/
  absent : (k : κ) → Option (T k) := fun _ => none
  /-- Is a member with this value left out in writing? -/
  isOmitted : (k : κ) → T k → Bool := fun _ _ => false

/-- The members of a record that were read so far. -/
abbrev Draft {κ : Type} (T : κ → Type) := (k : κ) → Option (T k)

namespace Draft

variable {κ : Type} {T : κ → Type}

/-- Nothing read. -/
def empty : Draft T := fun _ => none

/-- Adds a member. -/
def set [DecidableEq κ] (d : Draft T) (k : κ) (v : T k) : Draft T := fun j =>
  if h : j = k then some (h ▸ v) else d j

end Draft

/-- Passes the closing bracket of a list whose items have all been read. -/
def readListEnd (t : Text) : Except Fault Text :=
  match skipBlanks t with
  | [] => .error (.atNext .endInList [])
  | ']' :: rest => .ok rest
  | ',' :: rest =>
    match skipBlanks rest with
    | ']' :: more => .error (.atNext .trailingComma (']' :: more))
    | other => .error (.atNext .trailingCharacters other)
  | other => .error (.atNext .trailingCharacters other)

/-- Moves to the next item of a list, if there is one. -/
def nextItem? (isFirst : Bool) (t : Text) : Except Fault (Option Text) :=
  match skipBlanks t with
  | [] => .error (.atNext .endInList [])
  | ']' :: _ => .ok none
  | next =>
    if isFirst then .ok (some next)
    else
      match next with
      | ',' :: rest =>
        match skipBlanks rest with
        | [] => .error (.atNext .endInValue [])
        | ']' :: more => .error (.atNext .trailingComma (']' :: more))
        | next => .ok (some next)
      | other => .error (.atNext .wantedItemOrEnd other)

namespace Members

variable {κ : Type} {T : κ → Type}

/-- The key with a label. -/
def keyOf? (m : Members κ T) (label : Text) : Option κ :=
  m.keys.find? fun k => (m.label k).toList = label

/-- The value of a member: the one that was read, or the one it has when it is absent. -/
def valueOf (m : Members κ T) (d : Draft T) (k : κ) : Option (T k) :=
  (d k).orElse fun _ => m.absent k

/-- The record that a draft makes up, or the first key that is lacking. -/
def complete (m : Members κ T) (d : Draft T) : Except κ ((k : κ) → T k) :=
  match h : m.keys.find? fun k => (m.valueOf d k).isNone with
  | some k => .error k
  | none => .ok fun k => (m.valueOf d k).get (by
      have := List.find?_eq_none.1 h k (m.mem_keys k)
      simpa [Option.isSome_iff_ne_none] using this)

variable [DecidableEq κ]

/-- Reads one member of the object form. -/
def readMember (m : Members κ T) (d : Draft T) : Reader (Draft T) := fun t => do
  let (label, rest) ← readKey t
  match m.keyOf? label with
  | none =>
    let rest ← readColon rest
    let rest ← skipValue rest
    return (d, rest)
  | some k =>
    if (d k).isSome then .error (.before (.repeatedMember (m.label k)) (pastObjectEnd rest))
    else
      let rest ← readColon rest
      let (v, rest) ← (m.form k).read rest
      return (d.set k v, rest)

/-- Reads the object form after its opening brace. -/
def readObject (m : Members κ T) : Reader ((k : κ) → T k) := fun t => do
  let (d, rest) ← readMembers m.readMember Draft.empty t
  match m.complete d with
  | .ok r => return (r, rest)
  | .error k => .error (.before (.missingMember (m.label k)) rest)

/-- Reads items of the list form into the members with the given keys, as far as items go. -/
def readElements (m : Members κ T) : List κ → Bool → Draft T → Reader (Draft T)
  | [], _, d, t => .ok (d, t)
  | k :: ks, isFirst, d, t => do
    match ← nextItem? isFirst t with
    | none => return (d, t)
    | some next =>
      let (v, rest) ← (m.form k).read next
      readElements m ks false (d.set k v) rest

/-- What is said about a list form that is too short. -/
def wantedLength (m : Members κ T) : String :=
  s!"struct {m.name} with {m.keys.length} elements"

/-- Reads the list form after its opening bracket. -/
def readList (m : Members κ T) : Reader ((k : κ) → T k) := fun t => do
  let (d, rest) ← m.readElements m.keys true Draft.empty t
  match m.complete d with
  | .ok r => return (r, ← readListEnd rest)
  | .error k => .error (.before (.wrongLength (m.keys.idxOf k) m.wantedLength) (pastListEnd rest))

/-- Reads either form. -/
def read (m : Members κ T) : Reader ((k : κ) → T k) := fun t =>
  match skipBlanks t with
  | [] => .error (.atNext .endInValue [])
  | '[' :: rest => m.readList rest
  | '\x7b' :: rest => m.readObject rest
  | other => .error (mismatch s!"struct {m.name}" other)

/-- The written members. -/
def write (m : Members κ T) (r : (k : κ) → T k) : Value :=
  .object (m.keys.filterMap fun k =>
    if m.isOmitted k (r k) then none else some (m.label k, (m.form k).write (r k)))

/-- The form of the record. -/
def codec (m : Members κ T) : Codec ((k : κ) → T k) where
  write := m.write
  read := m.read

end Members

end NamingLint.Json
