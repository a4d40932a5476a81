import Activation.Json.Reader
import Activation.Json.Writer
import Activation.Source.Index

/-!
# Indexes and records as JSON

An index is an object whose member `candidates` maps ids to entries. An entry is an object with the
members `order`, `before`, `after` and `replaced_by`, each of which may be missing, or an array of
the same values in this order, of which the last ones may be missing. Other members are ignored; a
known member may stand only once.

A record is an object with exactly six known members, or an array of their six values.
-/

namespace Activation

namespace Format.Json

open Activation.Json

/-- The values of the named members, absent ones as `none`. Every name must be text, and a name that
is asked for may stand only once. -/
def members? (names : List String) (members : List (Option String × Value)) :
    Option (List (Option Value)) :=
  if members.all fun (name, _) => name.isSome then
    names.mapM fun name =>
      match members.filter fun member => member.1 == some name with
      | [] => some none
      | [(_, value)] => some (some value)
      | _ => none
  else none

/-- The values of an array in the place of members, those that are missing at its end as `none`. -/
def places? (count : Nat) (items : List Value) : Option (List (Option Value)) :=
  if items.length ≤ count then
    some (items.map some ++ List.replicate (count - items.length) none)
  else none

/-- The values of an object or an array in the place of the named members. -/
def fields? (names : List String) : Value → Option (List (Option Value))
  | .object members => members? names members
  | .array items => places? names.length items
  | _ => none

def readId? : Value → Option CandidateId
  | .string (some text) => some ⟨text⟩
  | _ => none

def readIds? : Value → Option (List CandidateId)
  | .array items => items.mapM readId?
  | _ => none

def readInt32? : Value → Option Int32
  | .number (.integer value) => orderValue? value
  | _ => none

/-- An order value; `null` stands for none. -/
def readOrder? : Value → Option (Option Int32)
  | .null => some none
  | value => (readInt32? value).map some

def optional? {α : Type} (read? : Value → Option α) (absent : α) : Option Value → Option α
  | none => some absent
  | some value => read? value

def readEntry? (value : Value) : Option IndexEntry := do
  match ← fields? ["order", "before", "after", "replaced_by"] value with
  | [order, before, after, replacedBy] =>
    return {
      order := ← optional? readOrder? none order
      before := ← optional? readIds? [] before
      after := ← optional? readIds? [] after
      replacedBy := ← optional? readIds? [] replacedBy }
  | _ => none

/-- Entries by id; of two entries with one id the later counts, in the place of the earlier. -/
def readEntries? : Value → Option CandidateIndex
  | .object members => do
    let entries ← members.mapM fun (name, value) => do
      return (CandidateId.mk (← name), ← readEntry? value)
    return CandidateIndex.ofEntries entries
  | _ => none

def readIndex? (value : Value) : Option CandidateIndex := do
  match ← fields? ["candidates"] value with
  | [candidates] => optional? readEntries? ∅ candidates
  | _ => none

def readBool? : Value → Option Bool
  | .bool value => some value
  | _ => none

def readRecord? (value : Value) : Option CandidateRecord := do
  match ← fields? ["id", "order", "before", "after", "replacements", "available"] value with
  | [some id, some order, some before, some after, some replacements, some available] =>
    return {
      id := ← readId? id
      order := ← readInt32? order
      before := IdSet.ofList (← readIds? before)
      after := IdSet.ofList (← readIds? after)
      replacements := IdSet.ofList (← readIds? replacements)
      available := ← readBool? available }
  | _ => none

def ofId (id : CandidateId) : Value := .string (some id.text)

def ofIds (ids : List CandidateId) : Value := .array (ids.map ofId)

def ofInt32 (n : Int32) : Value := .number (.integer n.toInt)

def record (members : List (String × Value)) : Value :=
  .object (members.map fun (name, value) => (some name, value))

def ofEntry (entry : IndexEntry) : Value :=
  record [("order", (entry.order.map ofInt32).getD .null), ("before", ofIds entry.before),
    ("after", ofIds entry.after), ("replaced_by", ofIds entry.replacedBy)]

def ofIndex (index : CandidateIndex) : Value :=
  record [("candidates", record
    (index.candidates.entries.map fun (id, entry) => (id.text, ofEntry entry)))]

def ofRecord (r : CandidateRecord) : Value :=
  record [("id", ofId r.id), ("order", ofInt32 r.order), ("before", ofIds r.before.toList),
    ("after", ofIds r.after.toList), ("replacements", ofIds r.replacements.toList),
    ("available", .bool r.available)]

end Format.Json

def CandidateIndex.toJson (index : CandidateIndex) : String := (Format.Json.ofIndex index).text

def CandidateIndex.ofJson? (text : String) : Option CandidateIndex := do
  Format.Json.readIndex? (← Json.Value.parse? text)

def CandidateRecord.toJson (r : CandidateRecord) : String := (Format.Json.ofRecord r).text

def CandidateRecord.ofJson? (text : String) : Option CandidateRecord := do
  Format.Json.readRecord? (← Json.Value.parse? text)

end Activation
