import Activation.Order.Sort
import Activation.Source.Index

/-!
# Orders over finite sources

A source that knows only finitely many ids can be explored from any ids, so its candidates can
always be put in order or refused. An index is such a source.
-/

namespace Activation

theorem Source.Finite.explorable {source : Source} (finite : source.Finite)
    (ids : List CandidateId) : source.Explorable ids :=
  Walk.halts_of_finite finite ids

def CandidateIndex.orderCandidates (index : CandidateIndex) (ids : List CandidateId) :
    Reported (Except OrderingError (List CandidateId)) :=
  Activation.orderCandidates index.source ids (index.source_finite.explorable ids)

end Activation
