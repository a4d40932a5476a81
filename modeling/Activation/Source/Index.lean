import Activation.Candidate.IdMap
import Activation.Event
import Activation.Source.Basic

/-!
# Candidate indexes

A candidate index is a precomputed source: every answer is a look-up, and a candidate is available
exactly when the index has an entry for it. Entries keep their lists as they were written.
-/

namespace Activation

/-- Precomputed ordering attributes of one candidate. -/
structure IndexEntry where
  order : Option Int32 := none
  before : List CandidateId := []
  after : List CandidateId := []
  replacedBy : List CandidateId := []
deriving DecidableEq

namespace IndexEntry

/-- The entry that says what a record says, availability aside. -/
def ofRecord (r : CandidateRecord) : IndexEntry where
  order := some r.order
  before := r.before.toList
  after := r.after.toList
  replacedBy := r.replacements.toList

end IndexEntry

/-- Entries by candidate id, in the order in which the ids were first written. -/
structure CandidateIndex where
  candidates : IdMap IndexEntry

namespace CandidateIndex

def empty : CandidateIndex := ⟨∅⟩

instance : EmptyCollection CandidateIndex := ⟨empty⟩

instance : Inhabited CandidateIndex := ⟨empty⟩

def get? (index : CandidateIndex) (id : CandidateId) : Option IndexEntry := index.candidates.get? id

def contains (index : CandidateIndex) (id : CandidateId) : Bool := index.candidates.contains id

def ids (index : CandidateIndex) : List CandidateId := index.candidates.keys

def size (index : CandidateIndex) : Nat := index.candidates.size

def isEmpty (index : CandidateIndex) : Bool := index.candidates.isEmpty

/-- Writes an entry. An id that is already there keeps its place. -/
def insert (index : CandidateIndex) (id : CandidateId) (entry : IndexEntry) : CandidateIndex :=
  ⟨index.candidates.insert id entry⟩

def insertRecord (index : CandidateIndex) (r : CandidateRecord) : CandidateIndex :=
  index.insert r.id (IndexEntry.ofRecord r)

/-- Writes an entry and gives back the one that it replaces, if there is one. -/
def exchange (index : CandidateIndex) (id : CandidateId) (entry : IndexEntry) :
    Option IndexEntry × CandidateIndex :=
  let (replaced, candidates) := index.candidates.exchange id entry
  (replaced, ⟨candidates⟩)

/-- The index that the entries leave when written one after another. -/
def ofEntries (entries : List (CandidateId × IndexEntry)) : CandidateIndex :=
  ⟨IdMap.ofList entries⟩

def ofRecords (records : List CandidateRecord) : CandidateIndex := records.foldl insertRecord ∅

/-- Writes the entries of another index over this one. Each entry that is replaced is reported
together with the origin of its successor. -/
def merge (index other : CandidateIndex) (origin : String) : Reported CandidateIndex :=
  other.candidates.entries.foldlM (fun (merged : CandidateIndex) (id, entry) => do
    if merged.contains id then
      Reported.report (.indexEntryOverridden id origin)
    return merged.insert id entry) index

/-- Whether two indexes give each id the same entry, whatever the order of the ids. -/
def sameAs (index other : CandidateIndex) : Bool := index.candidates.sameEntries other.candidates

def source (index : CandidateIndex) : Source where
  isAvailable id := index.contains id
  order id := ((index.get? id).bind IndexEntry.order).getD defaultOrder
  before id := ((index.get? id).map IndexEntry.before).getD []
  after id := ((index.get? id).map IndexEntry.after).getD []
  replacements id := ((index.get? id).map IndexEntry.replacedBy).getD []

theorem get?_insert (index : CandidateIndex) (id other : CandidateId) (entry : IndexEntry) :
    (index.insert id entry).get? other = if other = id then some entry else index.get? other :=
  IdMap.get?_insert index.candidates id other entry

theorem source_finite (index : CandidateIndex) : index.source.Finite := by
  refine Source.Finite.of_keys index.ids fun id unknown => ?_
  have absent : index.candidates.get? id = none := IdMap.get?_eq_none_iff.mpr unknown
  simp [source, contains, get?, IdMap.contains, absent, CandidateRecord.withReplacements,
    CandidateRecord.unavailable]

end CandidateIndex

end Activation
