import RecordGuard.Filter.Evaluation
import RecordGuard.Identifier
import RecordGuard.Json.Printer
import RecordGuard.Json.Reader
import RecordGuard.Query

/-!
# Collections of documents

A collection keeps the texts of documents under the texts of their identifiers and is searched in
the order of these keys. A search reads the texts, so what it finds of a document is what reading
gives back of it, and it fails at a text that cannot be read; adding a document and updating one
return the document as it is written. A document without an identifier is given a generated one. An
update sets members of the first matching document and never its identifier; its key stays what it
was.

Operations that can fail return the new collection with their result, so that after a failure the
collection is what it was.
-/

namespace RecordGuard

open Json (Value)

/-- Why an operation on a collection fails. -/
inductive CollectionError where
  | documentNotObject
  | updateNotObject
  | badIdentifier (id : Value)
  | duplicateId (key : String)
  /-- The text of a document cannot be read: its containers are nested too deep, or one of its
  numbers is too large. -/
  | unreadable
  /-- The sorter gives up. Nobody handles this: the program breaks off. -/
  | unsortable

/-- The report of a failure, without what the reader of a text has to say about it. -/
def CollectionError.message : CollectionError → String
  | .documentNotObject => "invalid document: document must be an object"
  | .updateNotObject => "invalid document: update must be an object"
  | .badIdentifier id =>
    "invalid document: identifier must be a string or number, got " ++ id.compact
  | .duplicateId key => "invalid document: duplicate id: " ++ key
  | .unreadable => "serialization error"
  | .unsortable => "user-provided comparison function does not correctly implement a total order"

/-- Documents by the text of their identifiers. -/
structure Collection where
  /-- The member that holds the identifier. -/
  idField : String
  /-- The text of each document. -/
  entries : Entries String
  /-- Where identifiers for new documents come from. -/
  ids : IdSource
  /-- How the library sorts. -/
  sorter : Sorter Value

/-- How the result of a search is put together. -/
structure FindOptions where
  selection : Option Selection := none
  sort : List SortKey := []
  skip : Nat := 0
  limit : Option Nat := none

namespace Collection

/-- A collection without documents. -/
def empty (idField : String) (ids : IdSource) (sorter : Sorter Value) : Collection :=
  ⟨idField, [], ids, sorter⟩

variable (c : Collection)

/-- The documents that can be read, in the order of their keys. -/
def documents : List Value := c.entries.filterMap fun entry => Value.read? entry.2

def size : Nat := c.entries.length

def isEmpty : Bool := c.entries.isEmpty

/-- Reads the document of an entry. -/
def load (entry : String × String) : Except CollectionError (String × Value) :=
  match Value.read? entry.2 with
  | some document => .ok (entry.1, document)
  | none => .error .unreadable

/-- The key of an identifier. -/
def keyOf : Value → Except CollectionError String
  | .string s => .ok s
  | .number n => .ok (String.ofList n.text)
  | id => .error (.badIdentifier id)

/-- Adds a document and returns it with its identifier. -/
def insert (document : Value) : Except CollectionError (Value × Collection) :=
  match document with
  | .object members =>
    let (id, members, ids) :=
      match Entries.get? members c.idField with
      | some id => (id, members, c.ids)
      | none =>
        let id := Value.string c.ids.next
        (id, Entries.insert members c.idField id, c.ids.advance)
    match keyOf id with
    | .error e => .error e
    | .ok key =>
      if Entries.has c.entries key then .error (.duplicateId key)
      else
        let text := (Value.object members).compact
        .ok (.object members, { c with entries := Entries.insert c.entries key text, ids := ids })
  | _ => .error .documentNotObject

/-- The entries that match, in the order of their keys. Every text is read. -/
def matching (filter : Option Filter) : Except CollectionError (Entries Value) := do
  let contents ← c.entries.mapM load
  return contents.filter fun entry => Filter.accepts filter entry.2

/-- The first of the entries that matches. The texts behind it are not read. -/
def firstOf (filter : Option Filter) :
    Entries String → Except CollectionError (Option (String × Value))
  | [] => .ok none
  | entry :: rest =>
    match load entry with
    | .error e => .error e
    | .ok found => if Filter.accepts filter found.2 then .ok (some found) else firstOf filter rest

/-- The first entry that matches. -/
def firstMatch (filter : Option Filter) : Except CollectionError (Option (String × Value)) :=
  firstOf filter c.entries

/-- What a selection gives out of a document. -/
def give (selection : Option Selection) (document : Value) : Value :=
  match selection with
  | some s => s.apply c.idField document
  | none => document

/-- At most `limit` items, if there is a limit. -/
def upTo {α : Type} (limit : Option Nat) (items : List α) : List α :=
  match limit with
  | some n => items.take n
  | none => items

/-- The documents that match. -/
def find (filter : Option Filter) (options : FindOptions) :
    Except CollectionError (List Value) := do
  let found ← c.matching filter
  match SortKey.sort c.sorter options.sort (found.map Prod.snd) with
  | none => .error .unsortable
  | some sorted =>
    return (upTo options.limit (sorted.drop options.skip)).map (c.give options.selection)

/-- The first document that matches. -/
def findOne (filter : Option Filter) (selection : Option Selection) :
    Except CollectionError (Option Value) := do
  let found ← c.firstMatch filter
  return found.map fun entry => c.give selection entry.2

/-- How many documents match. -/
def count (filter : Option Filter) : Except CollectionError Nat := do
  return (← c.matching filter).length

/-- A document with members set, except the identifier. -/
def setMembers (idField : String) (update : Entries Value) (document : Value) : Value :=
  match document with
  | .object members =>
    .object (update.foldl
      (fun members entry =>
        if entry.1 = idField then members else Entries.insert members entry.1 entry.2)
      members)
  | v => v

/-- Sets members of the first document that matches, and returns the document. -/
def updateOne (filter : Option Filter) (update : Value) :
    Except CollectionError (Option Value × Collection) :=
  match update with
  | .object members =>
    match c.firstMatch filter with
    | .error e => .error e
    | .ok none => .ok (none, c)
    | .ok (some (key, document)) =>
      let updated := setMembers c.idField members document
      .ok (some updated, { c with entries := Entries.insert c.entries key updated.compact })
  | _ => .error .updateNotObject

/-- Removes the first document that matches, and returns it. -/
def deleteOne (filter : Option Filter) : Except CollectionError (Option Value × Collection) :=
  match c.firstMatch filter with
  | .error e => .error e
  | .ok none => .ok (none, c)
  | .ok (some (key, document)) =>
    .ok (some document, { c with entries := Entries.erase c.entries key })

/-- Removes every document. -/
def clear : Collection := { c with entries := [] }

/-- Adds documents one after the other up to the first that cannot be stored: how many were added,
or why the next one was not, and the collection that results. -/
def insertAll (c : Collection) : List Value → Except CollectionError Nat × Collection
  | [] => (.ok 0, c)
  | document :: rest =>
    match c.insert document with
    | .error e => (.error e, c)
    | .ok (_, c) =>
      let (result, c) := insertAll c rest
      (result.map (· + 1), c)

end Collection

end RecordGuard
