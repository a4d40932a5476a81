import Activation.Source.Index
import Activation.Text.Blank

/-!
# Validation

Validation finds mistakes that would later surface as a confusing ordering failure: an index entry
that orders itself is a guaranteed cycle, and a blank id never matches a candidate. Every problem is
reported, so that a broken file can be mended in one pass.
-/

namespace Activation

/-- The lists of an index entry. -/
inductive Relation where
  | before
  | after
  | replacedBy
deriving DecidableEq, Repr

namespace Relation

def name : Relation → String
  | before => "before"
  | after => "after"
  | replacedBy => "replaced_by"

def targets (entry : IndexEntry) : Relation → List CandidateId
  | before => entry.before
  | after => entry.after
  | replacedBy => entry.replacedBy

end Relation

/-- Where a blank id was found. -/
inductive BlankPlace where
  /-- The candidate of a run at a position, counted from zero. -/
  | candidate (position : Nat)
  | indexKey
  | target (id : CandidateId) (relation : Relation)
deriving DecidableEq, Repr

namespace BlankPlace

def description : BlankPlace → String
  | candidate position => s!"candidates[{position}]"
  | indexKey => "index keys"
  | target id relation => s!"'{id}' {relation.name}"

end BlankPlace

inductive ValidationError where
  | duplicateCandidateId (id : CandidateId)
  /-- An id is empty or white space. -/
  | blankCandidateId (place : BlankPlace)
  /-- A candidate names itself in one of its edges. -/
  | selfReference (id : CandidateId) (relation : Relation)
  /-- A retired candidate is its own replacement. -/
  | selfReplacement (id : CandidateId)
  | noCandidates
deriving DecidableEq, Repr

namespace ValidationError

def message : ValidationError → String
  | duplicateCandidateId id => s!"Duplicate candidate ID: '{id}'"
  | blankCandidateId place => s!"Blank candidate ID in {place.description}"
  | selfReference id relation => s!"Candidate '{id}' lists itself in '{relation.name}'"
  | selfReplacement id => s!"Candidate '{id}' is deprecated in favor of itself"
  | noCandidates => "No candidates to order"

end ValidationError

namespace CandidateId

def isBlank (id : CandidateId) : Bool := Text.isBlank id.text

end CandidateId

/-- The problem of a candidate that names itself in a relation. -/
def selfError (id : CandidateId) : Relation → ValidationError
  | .replacedBy => .selfReplacement id
  | relation => .selfReference id relation

/-- The problems of one list of an entry: at most one for its blank ids, however many, and at most
one for the entry's own id, however often it is there. -/
def validateTargets (id : CandidateId) (entry : IndexEntry) (relation : Relation) :
    List ValidationError :=
  let targets := relation.targets entry
  (if targets.any CandidateId.isBlank then [.blankCandidateId (.target id relation)] else []) ++
    (if id ∈ targets then [selfError id relation] else [])

/-- The problems of one entry. The lists of an entry with a blank key are not looked at. -/
def validateEntry (id : CandidateId) (entry : IndexEntry) : List ValidationError :=
  if id.isBlank then [.blankCandidateId .indexKey]
  else [Relation.before, Relation.after, Relation.replacedBy].flatMap (validateTargets id entry)

/-- The problems of an index, entry by entry. An index without problems is valid. -/
def validateIndex (index : CandidateIndex) : List ValidationError :=
  index.candidates.entries.flatMap fun (id, entry) => validateEntry id entry

/-- The problems of the candidates of a run from a position on, where `seen` were listed before. -/
def validateFrom (position : Nat) (seen : List CandidateId) :
    List CandidateId → List ValidationError
  | [] => []
  | id :: rest =>
    if id.isBlank then
      .blankCandidateId (.candidate position) :: validateFrom (position + 1) seen rest
    else if id ∈ seen then
      .duplicateCandidateId id :: validateFrom (position + 1) seen rest
    else validateFrom (position + 1) (id :: seen) rest

/-- The problems of the candidates of a run. A run without problems is valid. -/
def validateCandidates : List CandidateId → List ValidationError
  | [] => [.noCandidates]
  | candidates => validateFrom 0 [] candidates

end Activation
