import NamingLint.Disk.Change
import NamingLint.Proofs.Disk.Tree

/-!
# NamingLint — what a change leaves alone

A tree is looked at through its marks: what stands at some names, without what is below it. A change
in one directory is seen at the names below that directory and nowhere else, so what a change leaves
alone is told by marks.

* `Entries.nodeAt`, `Entries.markAt` — what stands at some names.
* `Entries.AgreeOff` — two trees that differ at and below some names only.
* `Entries.Grows`, `Entries.KeepsWays` — everything in one tree, or all but its files, stands in
  another one as well.

Main results:

* `nodeAt_modifyAt`, `markAt_modifyAt_cases` — what is seen of a change.
* `agreeOff_put`, `agreeOff_remove`, `agreeOff_modifyAt` — what the changes of a tree leave alone.
* `IsProper.put`, `IsProper.remove`, `IsProper.modifyAt` — changes keep a tree proper.
-/

namespace NamingLint

/-! ## Marks -/

/-- What an entry of a tree is, without what is below it. -/
inductive Mark where
  | file (content : Content)
  | link (target : String)
  | directory
  /-- What is in a locked directory belongs to it: no names lead there. -/
  | locked (entries : Entries)

namespace Node

/-- What a node is, without what is below it. -/
def mark : Node → Mark
  | file content => .file content
  | link target => .link target
  | directory _ => .directory
  | locked es => .locked es

/-- The node that names lead to from a node, without links. -/
def find : List String → Node → Option Node
  | [], node => some node
  | n :: ns, .directory es => (es.lookup n).bind (find ns)
  | _ :: _, _ => none

/-- Changes the entries of a node that is a directory. -/
def mapEntries (f : Entries → Entries) : Node → Node
  | directory es => .directory (f es)
  | node => node

/-- Names are followed one after the other. -/
theorem find_append (ms ns : List String) (node : Node) :
    node.find (ms ++ ns) = (node.find ms).bind (find ns) := by
  induction ms generalizing node with
  | nil => rfl
  | cons m ms ih =>
    cases node with
    | directory es =>
      show (es.lookup m).bind (find (ms ++ ns)) = ((es.lookup m).bind (find ms)).bind (find ns)
      rw [Option.bind_assoc]
      exact Option.bind_congr fun inner _ => ih inner
    -- nothing is below a file, a link or a locked directory
    | file content => rfl
    | link target => rfl
    | locked es => rfl

end Node

namespace Entries

/-- What stands at some names. -/
def nodeAt (ns : List String) (root : Entries) : Option Node :=
  (Node.directory root).find ns

/-- What stands at some names, without what is below it. -/
def markAt (ns : List String) (root : Entries) : Option Mark :=
  (root.nodeAt ns).map Node.mark

@[simp] theorem nodeAt_nil (root : Entries) : root.nodeAt [] = some (.directory root) := rfl

theorem nodeAt_cons (n : String) (ns : List String) (root : Entries) :
    root.nodeAt (n :: ns) = (root.lookup n).bind (Node.find ns) := rfl

@[simp] theorem nodeAt_singleton (n : String) (root : Entries) :
    root.nodeAt [n] = root.lookup n := by
  cases hlookup : root.lookup n <;> simp [nodeAt_cons, hlookup, Node.find]

theorem nodeAt_append (ms ns : List String) (root : Entries) :
    root.nodeAt (ms ++ ns) = (root.nodeAt ms).bind (Node.find ns) :=
  Node.find_append ms ns _

@[simp] theorem markAt_nil (root : Entries) : root.markAt [] = some .directory := rfl

/-- To descend is to find a directory that can be entered. -/
theorem descend_eq_some_iff {ns : List String} {root inner : Entries} :
    root.descend ns = some inner ↔ root.nodeAt ns = some (.directory inner) := by
  induction ns generalizing root with
  | nil => simp [descend]
  | cons n ns ih =>
    rw [descend, nodeAt_cons]
    cases root.lookup n with
    | none => simp
    | some node =>
      -- only directories are entered, and nothing stands below the others
      cases node with
      | directory es => exact ih
      | file content => cases ns <;> simp [Node.find]
      | link target => cases ns <;> simp [Node.find]
      | locked es => cases ns <;> simp [Node.find]

/-- The mark of a directory says that one can descend there, not what is in it. -/
theorem markAt_eq_directory_iff {ns : List String} {root : Entries} :
    root.markAt ns = some .directory ↔ ∃ inner, root.descend ns = some inner := by
  constructor
  · intro h
    obtain ⟨node, hnode, hmark⟩ := Option.map_eq_some_iff.mp h
    -- each kind of node has a mark of its own
    cases node with
    | directory es => exact ⟨es, descend_eq_some_iff.mpr hnode⟩
    | file content => simp [Node.mark] at hmark
    | link target => simp [Node.mark] at hmark
    | locked es => simp [Node.mark] at hmark
  · rintro ⟨inner, hinner⟩
    rw [markAt, descend_eq_some_iff.mp hinner]
    rfl

/-- The mark of a file has its content, so it tells the file. -/
theorem markAt_eq_file_iff {ns : List String} {root : Entries} {content : Content} :
    root.markAt ns = some (.file content) ↔ root.nodeAt ns = some (.file content) := by
  constructor
  · intro h
    obtain ⟨node, hnode, hmark⟩ := Option.map_eq_some_iff.mp h
    cases node with
    | directory es => simp [Node.mark] at hmark
    | file content' =>
      cases hmark
      exact hnode
    | link target => simp [Node.mark] at hmark
    | locked es => simp [Node.mark] at hmark
  · intro h
    rw [markAt, h]
    rfl

/-- The mark of a locked directory has all that is in it. -/
theorem markAt_eq_locked_iff {ns : List String} {root es : Entries} :
    root.markAt ns = some (.locked es) ↔ root.nodeAt ns = some (.locked es) := by
  constructor
  · intro h
    obtain ⟨node, hnode, hmark⟩ := Option.map_eq_some_iff.mp h
    cases node with
    | directory _ | file _ | link _ => simp [Node.mark] at hmark
    | locked fs =>
      cases hmark
      exact hnode
  · intro h
    rw [markAt, h]
    rfl

/-- What stands under a name in the directory that some names lead to. -/
theorem bind_lookup_descend (ns : List String) (n : String) (root : Entries) :
    ((root.descend ns).bind fun es => es.lookup n) = root.nodeAt (ns ++ [n]) := by
  rw [nodeAt_append]
  cases hdescend : root.descend ns with
  | some es =>
    rw [descend_eq_some_iff.mp hdescend]
    exact (nodeAt_singleton n es).symm
  | none =>
    cases hnode : root.nodeAt ns with
    | none => rfl
    | some node =>
      -- there is no directory, so nothing has a name in it
      cases node with
      | directory es => simp [descend_eq_some_iff.mpr hnode] at hdescend
      | file content => rfl
      | link target => rfl
      | locked es => rfl

/-- What stands below something else stands in a directory. -/
theorem exists_descend_of_nodeAt {ns : List String} {n : String} {root : Entries} {node : Node}
    (h : root.nodeAt (ns ++ [n]) = some node) :
    ∃ es : Entries, root.descend ns = some es ∧ es.lookup n = some node := by
  rw [← bind_lookup_descend] at h
  exact Option.bind_eq_some_iff.mp h

/-! ## Changes of a tree -/

theorem lookup_entry (m n : String) (node : Node) (es : Entries) :
    ((n, node) :: es).lookup m = if m = n then some node else es.lookup m := by
  rw [List.lookup_cons]
  by_cases hm : m = n
  · simp [hm]
  · rw [if_neg hm, beq_false_of_ne hm]

/-- Entries that have another name keep what stands under a name. -/
theorem lookup_map_put {name other : String} (hother : other ≠ name) (node : Node)
    (es : Entries) :
    (es.map fun e => if e.1 = name then (name, node) else e).lookup other = es.lookup other := by
  induction es with
  | nil => rfl
  | cons e es ih =>
    obtain ⟨m, inner⟩ := e
    rw [List.map_cons]
    split
    · rename_i hm
      -- an entry that is replaced keeps its name
      have hm : m = name := hm
      rw [lookup_entry, if_neg hother, ih, lookup_entry, if_neg (by rw [hm]; exact hother)]
    · rw [lookup_entry, ih, lookup_entry]

/-- Putting a node in place changes what is found under its name only. -/
theorem lookup_put (name other : String) (node : Node) (es : Entries) :
    (es.put name node).lookup other = if other = name then some node else es.lookup other := by
  unfold put
  by_cases hother : other = name
  · subst hother
    rw [if_pos rfl]
    split
    · -- the first entry with the name is replaced
      rename_i hany
      induction es with
      | nil => simp at hany
      | cons e es ih =>
        obtain ⟨m, inner⟩ := e
        rw [List.map_cons]
        split
        · rw [lookup_entry, if_pos rfl]
        · rename_i hm
          have hm : m ≠ other := hm
          rw [lookup_entry, if_neg (Ne.symm hm), ih (by simpa [hm] using hany)]
    · -- no entry has the name, and the new one is found at the end
      rename_i hany
      have hnone : es.lookup other = none := by
        rw [List.lookup_eq_none_iff]
        intro e he
        have habsent : e.1 ≠ other := fun h => hany (List.any_eq_true.mpr ⟨e, he, by simpa using h⟩)
        exact bne_iff_ne.mpr (Ne.symm habsent)
      rw [List.lookup_append, hnone, lookup_entry, if_pos rfl]
      rfl
  · rw [if_neg hother]
    split
    · exact lookup_map_put hother node es
    · rw [List.lookup_append, lookup_entry, if_neg hother]
      simp

/-- Removing a name changes what is found under it only. -/
theorem lookup_remove (name other : String) (es : Entries) :
    (es.remove name).lookup other = if other = name then none else es.lookup other := by
  unfold remove
  induction es with
  | nil => simp
  | cons e es ih =>
    obtain ⟨m, node⟩ := e
    by_cases hm : m = name
    · -- this entry goes, and others of the name with it
      rw [List.filter_cons_of_neg (by simpa using hm), ih, lookup_entry]
      split
      · rfl
      · rename_i hother
        rw [if_neg (by rw [hm]; exact hother)]
    · rw [List.filter_cons_of_pos (by simpa using hm), lookup_entry, lookup_entry, ih]
      split
      · rename_i hother
        rw [if_neg (by rw [hother]; exact hm)]
      · rfl

/-- A change further down keeps every name and every kind. -/
theorem lookup_modifyAt_cons (f : Entries → Entries) (n : String) (ns : List String) (m : String)
    (es : Entries) :
    (modifyAt f (n :: ns) es).lookup m =
      if m = n then (es.lookup m).map (Node.mapEntries (modifyAt f ns)) else es.lookup m := by
  rw [modifyAt]
  induction es with
  | nil => simp
  | cons e es ih =>
    obtain ⟨k, node⟩ := e
    rw [List.map_cons]
    -- only directories are changed, and only those with the name
    cases node with
    | directory inner =>
      dsimp only
      split <;> rename_i hk
      · subst hk
        rw [lookup_entry, ih, lookup_entry]
        split <;> rfl
      · rw [lookup_entry, ih, lookup_entry]
        split
        · rename_i hm
          rw [if_neg (by rw [hm]; exact hk)]
        · rfl
    | file _ | link _ | locked _ =>
      dsimp only
      rw [lookup_entry, ih, lookup_entry]
      by_cases hm : m = k
      · simp [hm, Node.mapEntries]
      · simp [hm]

/-- What stands where a directory is changed. -/
theorem nodeAt_modifyAt (f : Entries → Entries) (ns : List String) (root : Entries) :
    (modifyAt f ns root).nodeAt ns = (root.nodeAt ns).map (Node.mapEntries f) := by
  induction ns generalizing root with
  | nil => rfl
  | cons n ns ih =>
    rw [nodeAt_cons, nodeAt_cons, lookup_modifyAt_cons, if_pos rfl]
    cases root.lookup n with
    | none => rfl
    | some node =>
      -- the way goes through directories, which are changed on it
      cases node with
      | directory es => exact ih es
      | file content => cases ns <;> rfl
      | link target => cases ns <;> rfl
      | locked es => cases ns <;> rfl

/-- Below a directory that is changed, the change is what one finds. -/
theorem nodeAt_modifyAt_append (f : Entries → Entries) (ns ms : List String) (root : Entries) :
    (modifyAt f ns root).nodeAt (ns ++ ms) =
      (root.nodeAt ns).bind fun node => (node.mapEntries f).find ms := by
  rw [nodeAt_append, nodeAt_modifyAt, Option.bind_map]
  rfl

/-- After a removal nothing is there. -/
theorem nodeAt_remove (parent : List String) (name : String) (root : Entries) :
    (modifyAt (remove name) parent root).nodeAt (parent ++ [name]) = none := by
  rw [nodeAt_modifyAt_append]
  -- no directory, no entry
  cases root.nodeAt parent with
  | none => rfl
  | some node =>
    cases node with
    | directory es =>
      show nodeAt [name] (remove name es) = none
      rw [nodeAt_singleton, lookup_remove, if_pos rfl]
    | file content => rfl
    | link target => rfl
    | locked es => rfl

/-- A change is seen below its directory only. -/
theorem markAt_modifyAt {f : Entries → Entries} {ns ms : List String} (h : ¬ns <+: ms)
    (root : Entries) : (modifyAt f ns root).markAt ms = root.markAt ms := by
  induction ns generalizing ms root with
  | nil => simp at h
  | cons n ns ih =>
    cases ms with
    | nil => rfl
    | cons m ms =>
      rw [markAt, markAt, nodeAt_cons, nodeAt_cons, lookup_modifyAt_cons]
      split
      · rename_i hm
        subst hm
        -- the names agree so far, so they must part further down
        have hms : ¬ns <+: ms := by simpa using h
        cases root.lookup m with
        | none => rfl
        | some node =>
          cases node with
          | directory es => exact ih hms es
          | file content => rfl
          | link target => rfl
          | locked es => rfl
      · rfl

/-- A change of a directory is seen at and below that directory only, and there as it is seen from
the directory. -/
theorem markAt_modifyAt_cases (f : Entries → Entries) (ns ms : List String) (root : Entries) :
    (modifyAt f ns root).markAt ms = root.markAt ms ∨
      ∃ inner rest, root.descend ns = some inner ∧ ms = ns ++ rest ∧
        root.markAt ms = inner.markAt rest ∧
        (modifyAt f ns root).markAt ms = (f inner).markAt rest := by
  by_cases hprefix : ns <+: ms
  · obtain ⟨rest, rfl⟩ := hprefix
    rw [markAt, markAt, nodeAt_modifyAt_append, nodeAt_append]
    -- below `ns` all depends on what is there
    cases hnode : root.nodeAt ns with
    | none => exact .inl rfl
    | some node =>
      cases node with
      | directory inner => exact .inr ⟨inner, rest, descend_eq_some_iff.mpr hnode, rfl, rfl, rfl⟩
      | file content => exact .inl rfl
      | link target => exact .inl rfl
      | locked es => exact .inl rfl
  · exact .inl (markAt_modifyAt hprefix root)

/-- A change further down is a change of the directories on the way. -/
theorem modifyAt_append (f : Entries → Entries) (ms ns : List String) (root : Entries) :
    modifyAt f (ms ++ ns) root = modifyAt (modifyAt f ns) ms root := by
  induction ms generalizing root with
  | nil => rfl
  | cons m ms ih =>
    rw [List.cons_append, modifyAt, modifyAt]
    apply List.map_congr_left
    rintro ⟨k, node⟩ -
    -- entry by entry, with the induction below directories
    cases node with
    | directory es => simp only [ih]
    | file content => rfl
    | link target => rfl
    | locked es => rfl

/-- Two changes of one directory are one change. -/
theorem modifyAt_modifyAt (f g : Entries → Entries) (ns : List String) (root : Entries) :
    modifyAt f ns (modifyAt g ns root) = modifyAt (fun es => f (g es)) ns root := by
  induction ns generalizing root with
  | nil => rfl
  | cons n ns ih =>
    rw [modifyAt, modifyAt, modifyAt, List.map_map]
    apply List.map_congr_left
    rintro ⟨k, node⟩ -
    -- the same directories are changed twice
    cases node with
    | directory es => by_cases hk : k = n <;> simp [hk, ih]
    | file content => rfl
    | link target => rfl
    | locked es => rfl

/-! ## Trees that agree off some names -/

/-- Two trees that differ at and below some names only. -/
def AgreeOff (place : List String) (root root' : Entries) : Prop :=
  ∀ ms, ¬place <+: ms → root'.markAt ms = root.markAt ms

theorem AgreeOff.refl (place : List String) (root : Entries) : AgreeOff place root root :=
  fun _ _ => rfl

theorem AgreeOff.trans {place : List String} {root root' root'' : Entries}
    (h : AgreeOff place root root') (h' : AgreeOff place root' root'') :
    AgreeOff place root root'' :=
  fun ms hms => (h' ms hms).trans (h ms hms)

/-- What is done in a directory below some names is not seen elsewhere. -/
theorem agreeOff_modifyAt (f : Entries → Entries) {place ns : List String} (h : place <+: ns)
    (root : Entries) : AgreeOff place root (modifyAt f ns root) :=
  fun _ hms => markAt_modifyAt (fun hns => hms (h.trans hns)) root

/-- What changes under one name of a directory only is not seen elsewhere. -/
theorem agreeOff_of_lookup {f : Entries → Entries} {name : String}
    (hf : ∀ es : Entries, ∀ other ≠ name, (f es).lookup other = es.lookup other)
    (parent : List String) (root : Entries) :
    AgreeOff (parent ++ [name]) root (modifyAt f parent root) := by
  intro ms hms
  rcases markAt_modifyAt_cases f parent ms root with hsame | ⟨inner, rest, -, rfl, hold, hnew⟩
  · exact hsame
  · rw [hold, hnew]
    cases rest with
    | nil => rfl
    | cons m rest =>
      -- the names leave the directory under another name
      have hm : m ≠ name := by
        rintro rfl
        exact hms (by simp)
      rw [markAt, markAt, nodeAt_cons, nodeAt_cons, hf inner m hm]

/-- Putting a node in place leaves all other places alone. -/
theorem agreeOff_put (parent : List String) (name : String) (node : Node) (root : Entries) :
    AgreeOff (parent ++ [name]) root (modifyAt (put name node) parent root) :=
  agreeOff_of_lookup (fun es other hother => by rw [lookup_put, if_neg hother]) parent root

theorem agreeOff_remove (parent : List String) (name : String) (root : Entries) :
    AgreeOff (parent ++ [name]) root (modifyAt (remove name) parent root) :=
  agreeOff_of_lookup (fun es other hother => by rw [lookup_remove, if_neg hother]) parent root

/-! ## Trees that grow -/

/-- Everything in one tree stands in another one as well. -/
def Grows (root root' : Entries) : Prop :=
  ∀ ms mark, root.markAt ms = some mark → root'.markAt ms = some mark

theorem Grows.refl (root : Entries) : Grows root root :=
  fun _ _ h => h

theorem Grows.trans {root root' root'' : Entries} (h : Grows root root')
    (h' : Grows root' root'') : Grows root root'' :=
  fun ms mark hmark => h' ms mark (h ms mark hmark)

/-- Every directory and every link of one tree stands in another one as well. -/
def KeepsWays (root root' : Entries) : Prop :=
  ∀ ms mark, (∀ c, mark ≠ .file c) → root.markAt ms = some mark → root'.markAt ms = some mark

/-- A tree that grows keeps its directories and links. -/
theorem Grows.keepsWays {root root' : Entries} (h : Grows root root') : KeepsWays root root' :=
  fun ms mark _ hmark => h ms mark hmark

/-- Directories stay, though what is in them may change. -/
theorem KeepsWays.descend {root root' : Entries} (h : KeepsWays root root') {ns : List String}
    {inner : Entries} (hinner : root.descend ns = some inner) :
    ∃ inner', root'.descend ns = some inner' := by
  have hmark := markAt_eq_directory_iff.mpr ⟨inner, hinner⟩
  exact markAt_eq_directory_iff.mp (h ns .directory (by simp) hmark)

/-- Links stay, and with them where they lead. -/
theorem KeepsWays.link {root root' : Entries} (h : KeepsWays root root') {ns : List String}
    {target : String} (hlink : root.nodeAt ns = some (.link target)) :
    root'.nodeAt ns = some (.link target) := by
  have hmark := h ns (.link target) (by simp) (by rw [markAt, hlink]; rfl)
  obtain ⟨node, hnode, hkind⟩ := Option.map_eq_some_iff.mp hmark
  -- only a link has the mark of a link
  cases node with
  | link other =>
    cases hkind
    exact hnode
  | file content => simp [Node.mark] at hkind
  | directory es => simp [Node.mark] at hkind
  | locked es => simp [Node.mark] at hkind

/-- Nothing in an empty tree is missing from another one. -/
theorem grows_nil (root : Entries) : Grows [] root := by
  intro ms mark h
  cases ms with
  | nil => exact h
  | cons m ms => simp [markAt, nodeAt_cons] at h

/-- Entries that keep what is found under each name grow. -/
theorem grows_of_lookup {es es' : Entries}
    (h : ∀ n node, es.lookup n = some node → es'.lookup n = some node) : Grows es es' := by
  intro ms mark hmark
  cases ms with
  | nil => exact hmark
  | cons m ms =>
    rw [markAt, nodeAt_cons] at hmark ⊢
    cases hlookup : es.lookup m with
    | none => simp [hlookup] at hmark
    | some node =>
      rw [h m node hlookup, ← hlookup]
      exact hmark

/-- A tree grows if one of its directories does. -/
theorem grows_modifyAt {f : Entries → Entries} {ns : List String} {root : Entries}
    (h : ∀ inner, root.descend ns = some inner → Grows inner (f inner)) :
    Grows root (modifyAt f ns root) := by
  intro ms mark hmark
  rcases markAt_modifyAt_cases f ns ms root with hsame | ⟨inner, rest, hinner, -, hold, hnew⟩
  · rwa [hsame]
  · rw [hold] at hmark
    rw [hnew]
    exact h inner hinner rest mark hmark

/-- A tree has grown if one of its directories has. -/
theorem modifyAt_grows {f : Entries → Entries} {ns : List String} {root : Entries}
    (h : ∀ inner, root.descend ns = some inner → Grows (f inner) inner) :
    Grows (modifyAt f ns root) root := by
  intro ms mark hmark
  rcases markAt_modifyAt_cases f ns ms root with hsame | ⟨inner, rest, hinner, -, hold, hnew⟩
  · rwa [hsame] at hmark
  · rw [hnew] at hmark
    rw [hold]
    exact h inner hinner rest mark hmark

/-- Putting a node under a free name lets the tree grow. -/
theorem grows_put {parent : List String} {name : String} {root : Entries}
    (h : root.nodeAt (parent ++ [name]) = none) (node : Node) :
    Grows root (modifyAt (put name node) parent root) := by
  apply grows_modifyAt
  intro inner hinner
  apply grows_of_lookup
  intro n found hfound
  rw [lookup_put, if_neg, hfound]
  -- nothing was found under the name before
  rintro rfl
  rw [← bind_lookup_descend, hinner, Option.bind_some, hfound] at h
  simp at h

/-- A tree with an entry less grows into the tree. -/
theorem remove_grows (parent : List String) (name : String) (root : Entries) :
    Grows (modifyAt (remove name) parent root) root := by
  apply modifyAt_grows
  intro inner _
  apply grows_of_lookup
  intro n found hfound
  rw [lookup_remove] at hfound
  split at hfound
  · simp at hfound
  · exact hfound

/-! ## Proper trees -/

/-- Proper entries have different names, and each of them is proper. -/
theorem isProper_iff {es : Entries} :
    IsProper es ↔ (es.map Prod.fst).Nodup ∧ ∀ e ∈ es, IsEntryName e.1 ∧ e.2.IsProper := by
  induction es with
  | nil => simp [IsProper]
  | cons e es ih =>
    obtain ⟨name, node⟩ := e
    rw [IsProper, ih, List.map_cons, List.nodup_cons, List.forall_mem_cons, List.mem_map]
    -- the same facts, entry by entry on one side and as a whole on the other
    constructor
    · rintro ⟨hname, hdistinct, hnode, hnodup, hes⟩
      exact ⟨⟨fun ⟨e, he, heq⟩ => hdistinct e he heq, hnodup⟩, ⟨hname, hnode⟩, hes⟩
    · rintro ⟨⟨hdistinct, hnodup⟩, ⟨hname, hnode⟩, hes⟩
      exact ⟨hname, fun e he heq => hdistinct ⟨e, he, heq⟩, hnode, hnodup, hes⟩

/-- Putting a node under a free name adds it at the end. -/
theorem put_of_lookup {es : Entries} {name : String} (h : es.lookup name = none)
    (node : Node) : es.put name node = es ++ [(name, node)] := by
  have hany : (es.any fun e => e.1 = name) = false := by
    rw [List.any_eq_false]
    intro e he
    have hne : name ≠ e.1 := by simpa using List.lookup_eq_none_iff.mp h e he
    simpa using Ne.symm hne
  unfold put
  rw [hany]
  rfl

/-- A new name keeps entries proper. -/
theorem IsProper.put {es : Entries} (h : IsProper es) {name : String} {node : Node}
    (hfree : es.lookup name = none) (hname : IsEntryName name) (hnode : node.IsProper) :
    IsProper (es.put name node) := by
  rw [put_of_lookup hfree, isProper_iff]
  obtain ⟨hnodup, hes⟩ := isProper_iff.mp h
  refine ⟨?_, ?_⟩
  · -- the new name comes last and is none of the old ones
    rw [List.map_append, List.nodup_append]
    refine ⟨hnodup, by simp, ?_⟩
    rintro n hn m hm rfl
    obtain ⟨e, he, rfl⟩ := List.mem_map.mp hn
    rw [List.map_singleton, List.mem_singleton] at hm
    have hne : name ≠ e.1 := by simpa using List.lookup_eq_none_iff.mp hfree e he
    exact hne hm.symm
  · intro e he
    rcases List.mem_append.mp he with he | he
    · exact hes e he
    · rw [List.mem_singleton.mp he]
      exact ⟨hname, hnode⟩

/-- Removing entries keeps the others proper. -/
theorem IsProper.remove {es : Entries} (h : IsProper es) (name : String) :
    IsProper (es.remove name) := by
  obtain ⟨hnodup, hes⟩ := isProper_iff.mp h
  rw [isProper_iff]
  refine ⟨hnodup.sublist (List.filter_sublist.map Prod.fst), ?_⟩
  exact fun e he => hes e (List.mem_of_mem_filter he)

/-- A change of one directory keeps a tree proper if it keeps that directory proper. -/
theorem IsProper.modifyAt {root : Entries} (h : IsProper root) {f : Entries → Entries}
    {ns : List String}
    (hf : ∀ inner, root.descend ns = some inner → IsProper inner → IsProper (f inner)) :
    IsProper (modifyAt f ns root) := by
  induction ns generalizing root with
  | nil => exact hf root rfl h
  | cons n ns ih =>
    obtain ⟨hnodup, hes⟩ := isProper_iff.mp h
    rw [Entries.modifyAt, isProper_iff]
    refine ⟨?_, ?_⟩
    · -- no name changes
      rw [List.map_map]
      convert hnodup using 1
      apply List.map_congr_left
      rintro ⟨m, node⟩ -
      cases node with
      -- the entry with the name is the one the way leads through
      | directory inner => by_cases hm : m = n <;> simp [hm]
      | file content => rfl
      | link target => rfl
      | locked es => rfl
    · intro e he
      obtain ⟨⟨m, node⟩, hmem, rfl⟩ := List.mem_map.mp he
      have hentry := hes _ hmem
      cases node with
      | file content => exact hentry
      | link target => exact hentry
      | locked es => exact hentry
      | directory inner =>
        by_cases hm : m = n
        · subst hm
          have hlookup := (lookup_eq_some_iff h).mpr hmem
          have hinner : IsProper (Entries.modifyAt f ns inner) := by
            refine ih hentry.2 fun deeper hdeeper => hf deeper ?_
            rw [descend, hlookup]
            exact hdeeper
          dsimp only
          rw [if_pos rfl]
          exact ⟨hentry.1, hinner⟩
        · simpa [hm] using hentry

/-- A change of one directory that leaves its entries as they are leaves a proper tree as it is. -/
theorem modifyAt_eq_self {root : Entries} (h : IsProper root) {f : Entries → Entries}
    {ns : List String} (hf : ∀ inner, root.descend ns = some inner → f inner = inner) :
    modifyAt f ns root = root := by
  induction ns generalizing root with
  | nil => exact hf root rfl
  | cons n ns ih =>
    rw [modifyAt]
    conv_rhs => rw [← List.map_id root]
    apply List.map_congr_left
    rintro ⟨m, node⟩ hmem
    cases node with
    | file content => rfl
    | link target => rfl
    | locked es => rfl
    | directory inner =>
      -- entries with other names are not touched at all
      by_cases hm : m = n
      · subst hm
        have hlookup := (lookup_eq_some_iff h).mpr hmem
        have hinner : modifyAt f ns inner = inner := by
          refine ih ((isProper_iff.mp h).2 _ hmem).2 fun deeper hdeeper => hf deeper ?_
          rw [descend, hlookup]
          exact hdeeper
        simp [hinner]
      · simp [hm]

/-- A free name that is taken and given up again leaves a directory as it was. -/
theorem remove_put {es : Entries} {name : String} (hfree : es.lookup name = none) (node : Node) :
    remove name (es.put name node) = es := by
  rw [put_of_lookup hfree]
  unfold remove
  rw [List.filter_append, List.filter_eq_self.mpr]
  · simp
  · intro e he
    have hne : name ≠ e.1 := by simpa using List.lookup_eq_none_iff.mp hfree e he
    simpa using Ne.symm hne

end Entries

end NamingLint
