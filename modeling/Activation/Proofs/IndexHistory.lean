import Activation.Proofs.Erasure
import Activation.Proofs.FirstOccurrences
import Activation.Proofs.Interchange
import Mathlib.Data.Finset.Card

/-!
# The history of an index

An index is filled by insertions and merges. Whatever these were, and in whatever order they came,
it is described by the plain list of the entries that they wrote: its ids stand where they were first
written, and each has the entry that was written last (`CandidateIndex.candidates_after`).

`index_follows_history` adds what the changes answered on the way. An insertion gives back the entry
that it replaced. A merge reports the ids that were there before it, each one once, although it looks
for them in the index that it is writing to (`CandidateIndex.events_merge`).
-/

namespace Activation

/-! ### Maps that are written in a row -/

namespace IdMap

variable {α : Type}

def keySet (m : IdMap α) : IdSet := ⟨m.keys, m.nodup_keys⟩

theorem keySet_insert (m : IdMap α) (id : CandidateId) (value : α) :
    (m.insert id value).keySet = m.keySet.insert id := by
  ext1
  rw [IdSet.toList_insert]
  exact m.keys_insert id value

theorem keySet_insertAll (m : IdMap α) (entries : List (CandidateId × α)) :
    (m.insertAll entries).keySet = m.keySet.insertAll (entries.map Prod.fst) := by
  induction entries generalizing m with
  | nil => rfl
  | cons entry entries ih =>
    rw [List.map_cons, IdSet.insertAll_cons, ← m.keySet_insert entry.1 entry.2]
    exact ih (m.insert entry.1 entry.2)

/-- What was written last for an id. -/
def lastWritten? (entries : List (CandidateId × α)) (id : CandidateId) : Option α :=
  ((entries.filter fun entry => decide (entry.1 = id)).getLast?).map Prod.snd

theorem get?_insertAll_eq_lastWritten? (m : IdMap α) (entries : List (CandidateId × α))
    (id : CandidateId) :
    (m.insertAll entries).get? id = (lastWritten? entries id).or (m.get? id) := by
  induction entries using List.reverseRecOn with
  | nil => rfl
  | append_singleton entries entry ih =>
    have last : m.insertAll (entries ++ [entry]) = (m.insertAll entries).insert entry.1 entry.2 :=
      List.foldl_append
    rw [last, get?_insert, ih, lastWritten?, lastWritten?, List.filter_append]
    by_cases same : id = entry.1
    · simp [same]
    · have differ : entry.1 ≠ id := Ne.symm same
      simp [same, differ]

/-- Writing a map over another one and the result over a third one comes to the same as writing the
one after the other. -/
theorem insertAll_insertAll (m n : IdMap α) (entries : List (CandidateId × α)) :
    m.insertAll (n.insertAll entries).entries = (m.insertAll n.entries).insertAll entries := by
  apply eq_of_views
  · have keys : (m.insertAll (n.insertAll entries).entries).keySet =
        ((m.insertAll n.entries).insertAll entries).keySet := by
      have inner := n.keySet_insertAll entries
      rw [keySet_insertAll, keySet_insertAll, keySet_insertAll]
      have grouped := IdSet.insertAll_insertAll m.keySet n.keySet (entries.map Prod.fst)
      rwa [← inner] at grouped
    exact congrArg IdSet.toList keys
  · intro id
    rw [get?_insertAll_entries, get?_insertAll_eq_lastWritten?, get?_insertAll_eq_lastWritten?,
      get?_insertAll_entries, Option.or_assoc]

end IdMap

/-! ### Changes -/

/-- A change to an index. -/
inductive IndexChange where
  | insert (id : CandidateId) (entry : IndexEntry)
  | insertRecord (r : CandidateRecord)
  | merge (other : CandidateIndex) (origin : String)

namespace IndexChange

/-- The entries that a change writes, one after another. -/
def writes : IndexChange → List (CandidateId × IndexEntry)
  | insert id entry => [(id, entry)]
  | insertRecord r => [(r.id, .ofRecord r)]
  | merge other _ => other.candidates.entries

/-- The result of a change, together with the entry that an insertion gives back. -/
def apply (index : CandidateIndex) : IndexChange → Reported (Option IndexEntry × CandidateIndex)
  | insert id entry => pure (index.exchange id entry)
  | insertRecord r => pure (index.exchange r.id (.ofRecord r))
  | merge other origin => (fun merged => (none, merged)) <$> index.merge other origin

end IndexChange

namespace CandidateIndex

/-- Makes changes to an empty index, one after another, and collects what they give back. -/
def replay (history : List IndexChange) : Reported (List (Option IndexEntry) × CandidateIndex) :=
  history.foldlM (fun (answers, index) change => do
    let (answer, next) ← change.apply index
    return (answers ++ [answer], next)) ([], ∅)

/-- The index that a history leaves. -/
def after (history : List IndexChange) : CandidateIndex := (replay history).value.2

theorem exchange_eq (index : CandidateIndex) (id : CandidateId) (entry : IndexEntry) :
    index.exchange id entry = (index.get? id, index.insert id entry) := by
  rw [exchange, IdMap.exchange_eq]
  rfl

/-- A merge reports the ids that are there before it, in the order of the index that is written. -/
theorem events_merge (index other : CandidateIndex) (origin : String) :
    (index.merge other origin).events =
      (other.ids.filter fun id => index.contains id).map (.indexEntryOverridden · origin) := by
  unfold merge ids IdMap.keys
  have distinct := other.candidates.nodup
  -- No id is met again, so what the loop has written does not hide what was there before it.
  generalize other.candidates.entries = entries at distinct
  induction entries generalizing index with
  | nil => rfl
  | cons written entries ih =>
    obtain ⟨id, entry⟩ := written
    obtain ⟨absent, distinct⟩ := List.nodup_cons.mp distinct
    have rest := ih (index.insert id entry) distinct
    have before : (entries.map Prod.fst).filter (fun other => (index.insert id entry).contains other) =
        (entries.map Prod.fst).filter fun other => index.contains other := by
      apply List.filter_congr
      intro other member
      have differ : other ≠ id := fun same => absent (same ▸ member)
      exact congrArg Option.isSome (IdMap.get?_insert_of_ne index.candidates entry differ)
    rw [before] at rest
    rw [List.foldlM_cons, Reported.events_bind]
    by_cases present : index.contains id = true
    · simpa [present] using rest
    · simpa [present] using rest

/-- A merge leaves the ids that are there in their places and puts the new ones behind them. -/
theorem ids_merge (index other : CandidateIndex) (origin : String) :
    (index.merge other origin).value.ids =
      index.ids ++ other.ids.filter fun id => decide (id ∉ index.ids) := by
  have keys : (index.merge other origin).value.candidates.keySet =
      index.candidates.keySet.insertAll other.ids := by
    rw [candidates_merge, IdMap.keySet_insertAll]
    rfl
  exact (congrArg IdSet.toList keys).trans
    (IdSet.toList_insertAll_of_distinct other.candidates.nodup_keys)

/-- It makes no difference which of two merges is made first. -/
theorem merge_assoc (first second third : CandidateIndex) (o₁ o₂ o₃ o₄ : String) :
    ((first.merge second o₁).value.merge third o₂).value =
      (first.merge (second.merge third o₃).value o₄).value := by
  apply congrArg CandidateIndex.mk
  simp only [candidates_merge, IdMap.insertAll_insertAll]

theorem replay_concat (history : List IndexChange) (change : IndexChange) :
    (replay (history ++ [change])).events =
        (replay history).events ++ (change.apply (after history)).events ∧
      (replay (history ++ [change])).value =
        ((replay history).value.1 ++ [(change.apply (after history)).value.1],
          (change.apply (after history)).value.2) := by
  simp [replay, after, List.foldlM_append]

theorem candidates_apply (index : CandidateIndex) (change : IndexChange) :
    (change.apply index).value.2.candidates = index.candidates.insertAll change.writes := by
  cases change with
  | insert id entry =>
    rw [IndexChange.apply, exchange_eq]
    rfl
  | insertRecord r =>
    rw [IndexChange.apply, exchange_eq]
    rfl
  | merge other origin => exact candidates_merge index other origin

/-- An index holds what its history wrote, and nothing else counts. -/
theorem candidates_after (history : List IndexChange) :
    (after history).candidates = IdMap.ofList (history.flatMap IndexChange.writes) := by
  induction history using List.reverseRecOn with
  | nil => rfl
  | append_singleton history change ih =>
    have step : (after (history ++ [change])).candidates =
        (after history).candidates.insertAll change.writes := by
      rw [← candidates_apply, after, (replay_concat history change).2]
    rw [step, ih, List.flatMap_append, List.flatMap_singleton]
    exact List.foldl_append.symm

theorem ids_after (history : List IndexChange) :
    (after history).ids =
      ((history.flatMap IndexChange.writes).map Prod.fst).eraseDups := by
  have keys : (after history).candidates.keySet =
      .ofList ((history.flatMap IndexChange.writes).map Prod.fst) := by
    rw [candidates_after, IdMap.ofList, IdMap.keySet_insertAll]
    rfl
  exact (congrArg IdSet.toList keys).trans (IdSet.toList_ofList _)

theorem size_after (history : List IndexChange) :
    (after history).size =
      ((history.flatMap IndexChange.writes).map Prod.fst).toFinset.card := by
  have same : ((history.flatMap IndexChange.writes).map Prod.fst).toFinset =
      (after history).ids.toFinset := by
    ext id
    simp [ids_after]
  have distinct : (after history).ids.Nodup := (after history).candidates.nodup_keys
  rw [same, List.toFinset_card_of_nodup distinct]
  exact (after history).candidates.length_keys.symm

theorem get?_after (history : List IndexChange) (id : CandidateId) :
    (after history).get? id =
      IdMap.lastWritten? (history.flatMap IndexChange.writes) id := by
  rw [get?, candidates_after, IdMap.ofList, IdMap.get?_insertAll_eq_lastWritten?]
  exact Option.or_none

theorem after_insertRecord (records : List CandidateRecord) :
    after (records.map .insertRecord) = .ofRecords records := by
  have candidates : (after (records.map .insertRecord)).candidates =
      (ofRecords records).candidates := by
    rw [candidates_after, ofRecords_eq_ofEntries, List.flatMap_map, List.map_eq_flatMap]
    rfl
  exact congrArg CandidateIndex.mk candidates

end CandidateIndex

open CandidateIndex

/-- After any history an index has each id once, where it was first written, with the entry that was
written last, and it is as large as there are ids that were written. An insertion gives back the entry
that was there just before and reports nothing. A merge puts the new ids behind the old ones, in their
order, and reports for each id of the other index that was there before it, in the order of that index,
that its entry is overridden, and nothing else. Merges may be grouped at will. -/
theorem index_follows_history :
    (∀ history : List IndexChange,
      (after history).ids.Nodup ∧
      (after history).ids = ((history.flatMap IndexChange.writes).map Prod.fst).eraseDups ∧
      (after history).size = ((history.flatMap IndexChange.writes).map Prod.fst).toFinset.card ∧
      ∀ id, (after history).get? id =
        IdMap.lastWritten? (history.flatMap IndexChange.writes) id) ∧
    (replay []).events = [] ∧
    (∀ (history : List IndexChange) (id : CandidateId) (entry : IndexEntry),
      (replay (history ++ [.insert id entry])).events = (replay history).events ∧
      (replay (history ++ [.insert id entry])).value.1 =
        (replay history).value.1 ++ [(after history).get? id]) ∧
    (∀ (history : List IndexChange) (r : CandidateRecord),
      (replay (history ++ [.insertRecord r])).events = (replay history).events ∧
      (replay (history ++ [.insertRecord r])).value.1 =
        (replay history).value.1 ++ [(after history).get? r.id]) ∧
    (∀ (history : List IndexChange) (other : CandidateIndex) (origin : String),
      (replay (history ++ [.merge other origin])).events = (replay history).events ++
        (other.ids.filter fun id => decide (id ∈ (after history).ids)).map
          (.indexEntryOverridden · origin) ∧
      (after (history ++ [.merge other origin])).ids = (after history).ids ++
        other.ids.filter fun id => decide (id ∉ (after history).ids)) ∧
    (∀ records : List CandidateRecord, after (records.map .insertRecord) = .ofRecords records) ∧
    ∀ (first second third : CandidateIndex) (o₁ o₂ o₃ o₄ : String),
      ((first.merge second o₁).value.merge third o₂).value =
        (first.merge (second.merge third o₃).value o₄).value := by
  have inserted (index : CandidateIndex) (id : CandidateId) (entry : IndexEntry) :
      (index.exchange id entry).1 = index.get? id := by rw [exchange_eq]
  refine ⟨fun history => ⟨(after history).candidates.nodup_keys, ids_after history,
      size_after history, get?_after history⟩, rfl, fun history id entry => ?_,
    fun history r => ?_, fun history other origin => ?_, after_insertRecord, merge_assoc⟩
  · obtain ⟨events, value⟩ := replay_concat history (.insert id entry)
    rw [events, value]
    simp [IndexChange.apply, inserted]
  · obtain ⟨events, value⟩ := replay_concat history (.insertRecord r)
    rw [events, value]
    simp [IndexChange.apply, inserted]
  · obtain ⟨events, value⟩ := replay_concat history (.merge other origin)
    have present : (fun id => decide (id ∈ (after history).ids)) = (after history).contains := by
      funext id
      rw [Bool.eq_iff_iff, decide_eq_true_eq]
      exact IdMap.contains_iff.symm
    constructor
    · rw [events, present, ← events_merge, IndexChange.apply, Reported.events_map]
    · rw [after, value]
      exact ids_merge (after history) other origin

end Activation
