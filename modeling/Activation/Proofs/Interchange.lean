import Activation.Proofs.Layers
import Activation.Source.Inspector
import Mathlib.Data.List.Induction

/-!
# Precomputed and live answers

An index and a live inspector are two ways to hold the same declarations. An inspector mirrors an
index (`LiveInspector.Mirrors`) when it has a candidate for the same ids and each candidate declares
what the entry of its id says. It then is the same source (`LiveInspector.Mirrors.source_eq`), so
that nothing that is asked of the one can tell it from the other.

An index that is built from records gives each id its last record back, availability aside
(`CandidateIndex.record_ofRecords`).
-/

namespace Activation

namespace CandidateRecord

/-- The record that counts for the id, when later records replace earlier ones. -/
def lastOf? (records : List CandidateRecord) (id : CandidateId) : Option CandidateRecord :=
  (records.filter fun r => r.id = id).getLast?

@[simp] theorem lastOf?_nil (id : CandidateId) : lastOf? [] id = none := rfl

theorem lastOf?_concat (records : List CandidateRecord) (r : CandidateRecord) (id : CandidateId) :
    lastOf? (records ++ [r]) id = if id = r.id then some r else lastOf? records id := by
  unfold lastOf?
  rw [List.filter_append]
  by_cases same : id = r.id
  · simp [same]
  · have differ : r.id ≠ id := Ne.symm same
    simp [same, differ]

theorem id_of_lastOf? {records : List CandidateRecord} {id : CandidateId} {r : CandidateRecord}
    (last : lastOf? records id = some r) : r.id = id := by
  have member : r ∈ records.filter fun r => r.id = id := List.mem_of_getLast? last
  simpa using (List.mem_filter.mp member).2

end CandidateRecord

/-- The declaration of a candidate that lists what the record holds. -/
def Declaration.ofRecord (r : CandidateRecord) : Declaration where
  id := r.id
  order := r.order
  before := r.before.toList
  after := r.after.toList
  replacedBy := r.replacements.toList

/-- Sets that are listed and collected again are the same sets. -/
theorem Declaration.record_ofRecord (r : CandidateRecord) :
    (Declaration.ofRecord r).record = { r with available := true } := by
  have collected (s : IdSet) : (∅ : IdSet).insertAll s.toList = s := s.ofList_toList
  simp only [record, ofRecord, CandidateRecord.withBefore, CandidateRecord.withAfter,
    CandidateRecord.withReplacements, collected]

/-- What a candidate with the id declares when the entry speaks for it. -/
def IndexEntry.declaration (entry : IndexEntry) (id : CandidateId) : Declaration where
  id := id
  order := entry.order.getD defaultOrder
  before := entry.before
  after := entry.after
  replacedBy := entry.replacedBy

/-! ### Records of an index -/

namespace CandidateIndex

/-- An index answers with the record of what the entry declares. -/
theorem record_source (index : CandidateIndex) (id : CandidateId) :
    index.source.record id = ((index.get? id).map fun entry => (entry.declaration id).record).getD
      (CandidateRecord.unavailable id) := by
  have available : index.contains id = (index.get? id).isSome := rfl
  cases found : index.get? id with
  | none => simp [source, available, found, CandidateRecord.withReplacements,
      CandidateRecord.unavailable]
  | some entry => simp [source, available, found, IndexEntry.declaration]

theorem ofEntries_concat (entries : List (CandidateId × IndexEntry)) (id : CandidateId)
    (entry : IndexEntry) :
    ofEntries (entries ++ [(id, entry)]) = (ofEntries entries).insert id entry :=
  congrArg CandidateIndex.mk List.foldl_append

theorem ofRecords_concat (records : List CandidateRecord) (r : CandidateRecord) :
    ofRecords (records ++ [r]) = (ofRecords records).insertRecord r := List.foldl_append

theorem ofRecords_eq_ofEntries (records : List CandidateRecord) :
    ofRecords records = ofEntries (records.map fun r => (r.id, IndexEntry.ofRecord r)) := by
  induction records using List.reverseRecOn with
  | nil => rfl
  | append_singleton records r ih =>
    rw [ofRecords_concat, ih, List.map_append]
    exact (ofEntries_concat _ r.id (.ofRecord r)).symm

theorem get?_ofRecords (records : List CandidateRecord) (id : CandidateId) :
    (ofRecords records).get? id =
      (CandidateRecord.lastOf? records id).map IndexEntry.ofRecord := by
  -- The last record is the last one that is written.
  induction records using List.reverseRecOn with
  | nil => rfl
  | append_singleton records r ih =>
    rw [ofRecords_concat, insertRecord, get?_insert, CandidateRecord.lastOf?_concat, ih]
    split <;> rfl

/-- An index built from records keeps all but their availability. -/
theorem record_ofRecords (records : List CandidateRecord) (id : CandidateId) :
    (ofRecords records).source.record id =
      match CandidateRecord.lastOf? records id with
      | some r => { r with available := true }
      | none => CandidateRecord.unavailable id := by
  rw [record_source, get?_ofRecords]
  cases last : CandidateRecord.lastOf? records id with
  | none => rfl
  | some r =>
    obtain rfl := CandidateRecord.id_of_lastOf? last
    exact Declaration.record_ofRecord r

end CandidateIndex

/-! ### Mirrors -/

namespace LiveInspector

/-- The inspector has a candidate where the index has an entry, and it declares the same. -/
def Mirrors (inspector : LiveInspector) (index : CandidateIndex) : Prop :=
  ∀ id, inspector.get? id = (index.get? id).map fun entry => entry.declaration id

theorem get?_register (inspector : LiveInspector) (candidate : Declaration) (id : CandidateId) :
    (inspector.register candidate).get? id =
      if id = candidate.id then some candidate else inspector.get? id :=
  IdMap.get?_insert inspector.candidates candidate.id id candidate

namespace Mirrors

variable {inspector : LiveInspector} {index : CandidateIndex}

theorem empty : (∅ : LiveInspector).Mirrors ∅ := fun _ => rfl

/-- Registering a candidate keeps up with writing the entry. -/
theorem register (mirrors : inspector.Mirrors index) (id : CandidateId) (entry : IndexEntry) :
    (inspector.register (entry.declaration id)).Mirrors (index.insert id entry) := by
  intro asked
  rw [get?_register, CandidateIndex.get?_insert, mirrors asked]
  by_cases same : asked = id
  · subst same
    simp [IndexEntry.declaration]
  · have differ : asked ≠ (entry.declaration id).id := same
    rw [if_neg same, if_neg differ]

theorem ofCandidates (entries : List (CandidateId × IndexEntry)) :
    (LiveInspector.ofCandidates (entries.map fun (id, entry) => entry.declaration id)).Mirrors
      (.ofEntries entries) := by
  induction entries using List.reverseRecOn with
  | nil => exact empty
  | append_singleton entries entry ih =>
    obtain ⟨id, entry⟩ := entry
    rw [CandidateIndex.ofEntries_concat, List.map_append, LiveInspector.ofCandidates]
    rw [List.foldl_append]
    exact ih.register id entry

theorem ofRecords (records : List CandidateRecord) :
    (LiveInspector.ofCandidates (records.map Declaration.ofRecord)).Mirrors (.ofRecords records) := by
  have mirrors := ofCandidates (records.map fun r => (r.id, IndexEntry.ofRecord r))
  rw [List.map_map] at mirrors
  rw [CandidateIndex.ofRecords_eq_ofEntries]
  exact mirrors

/-- An inspector that mirrors an index is the same source. -/
theorem source_eq (mirrors : inspector.Mirrors index) : inspector.source = index.source := by
  have available (id : CandidateId) : inspector.candidates.contains id = index.contains id := by
    show (inspector.get? id).isSome = _
    rw [mirrors id, Option.isSome_map]
    rfl
  have order (id : CandidateId) : ((inspector.get? id).map Declaration.order).getD defaultOrder =
      ((index.get? id).bind IndexEntry.order).getD defaultOrder := by
    rw [mirrors id]
    cases index.get? id <;> rfl
  have lists (declared : Declaration → List CandidateId) (written : IndexEntry → List CandidateId)
      (same : ∀ entry id, declared (entry.declaration id) = written entry) (id : CandidateId) :
      ((inspector.get? id).map declared).getD [] = ((index.get? id).map written).getD [] := by
    rw [mirrors id]
    cases index.get? id with
    | none => rfl
    | some entry => exact same entry id
  have before := lists Declaration.before IndexEntry.before fun _ _ => rfl
  have after := lists Declaration.after IndexEntry.after fun _ _ => rfl
  have replacements := lists Declaration.replacedBy IndexEntry.replacedBy fun _ _ => rfl
  simp only [source, CandidateIndex.source, available, order, before, after, replacements]

end Mirrors

end LiveInspector

/-- An index that is built from records gives back the last record of each id, available and with its
sets as they were, and so does an inspector with which live candidates that list those sets are
registered. An inspector and an index with the same lists, duplicates and all, mirror one another,
and where one mirrors the other the records are the same, and so is what ordering makes of any
request: order, error and events. -/
theorem index_mirrored_by_inspector :
    (∀ (records : List CandidateRecord) (id : CandidateId),
      (CandidateIndex.ofRecords records).source.record id =
          (match CandidateRecord.lastOf? records id with
          | some r => { r with available := true }
          | none => CandidateRecord.unavailable id) ∧
        (LiveInspector.ofCandidates (records.map Declaration.ofRecord)).source.record id =
          (CandidateIndex.ofRecords records).source.record id) ∧
    (∀ entries : List (CandidateId × IndexEntry),
      (LiveInspector.ofCandidates (entries.map fun (id, entry) => entry.declaration id)).Mirrors
        (.ofEntries entries)) ∧
    ∀ (index : CandidateIndex) (inspector : LiveInspector), inspector.Mirrors index →
      (∀ id, inspector.source.record id = index.source.record id) ∧
      ∀ ids, orderCandidates inspector.source ids (inspector.source_finite.explorable ids) =
        index.orderCandidates ids := by
  refine ⟨fun records id => ⟨CandidateIndex.record_ofRecords records id, ?_⟩,
    LiveInspector.Mirrors.ofCandidates, fun index inspector mirrors => ⟨fun id => ?_, fun ids => ?_⟩⟩
  · rw [(LiveInspector.Mirrors.ofRecords records).source_eq]
  · rw [mirrors.source_eq]
  · exact orderCandidates_congr mirrors.source_eq _ _

/-- The service is written twice, the second time with an edge that is listed twice. -/
def rewritten : List (CandidateId × IndexEntry) :=
  [(⟨"web"⟩, { order := some 3, before := [⟨"log"⟩] }), (⟨"db"⟩, {}),
    (⟨"web"⟩, { after := [⟨"db"⟩, ⟨"log"⟩, ⟨"db"⟩], replacedBy := [] })]

/-- Candidates that declare what counts of the entries, registered in another order. -/
def running : LiveInspector := .ofCandidates
  [{ id := ⟨"db"⟩ }, { id := ⟨"web"⟩, after := [⟨"db"⟩, ⟨"log"⟩, ⟨"db"⟩] }]

/-- The inspector has the candidates in another order than the index, which does not show. -/
theorem index_mirrored_by_inspector_running :
    running.candidates.keys ≠ (CandidateIndex.ofEntries rewritten).ids ∧
    running.Mirrors (.ofEntries rewritten) ∧
    (running.source.record ⟨"web"⟩).after.toList = [⟨"db"⟩, ⟨"log"⟩] ∧
    running.source.record ⟨"web"⟩ = (CandidateIndex.ofEntries rewritten).source.record ⟨"web"⟩ ∧
    orderCandidates running.source [⟨"web"⟩, ⟨"db"⟩] (running.source_finite.explorable _) =
      (CandidateIndex.ofEntries rewritten).orderCandidates [⟨"web"⟩, ⟨"db"⟩] ∧
    (CandidateIndex.ofRecords [{ id := ⟨"web"⟩, order := 3 },
        { id := ⟨"web"⟩, order := 5, after := .ofList [⟨"db"⟩], available := false }]).source.record
      ⟨"web"⟩ = { id := ⟨"web"⟩, order := 5, after := .ofList [⟨"db"⟩] } := by
  obtain ⟨records, -, mirrored⟩ := index_mirrored_by_inspector
  have mirrors : running.Mirrors (.ofEntries rewritten) := by
    intro id
    by_cases known : id ∈ running.candidates.keys
    · have both : ∀ id ∈ running.candidates.keys, running.get? id =
          ((CandidateIndex.ofEntries rewritten).get? id).map fun entry => entry.declaration id := by
        decide
      exact both id known
    · have sameIds :
          (CandidateIndex.ofEntries rewritten).candidates.keys.Perm running.candidates.keys := by
        decide
      have here : running.get? id = none := IdMap.get?_eq_none_iff.mpr known
      have there : (CandidateIndex.ofEntries rewritten).get? id = none :=
        IdMap.get?_eq_none_iff.mpr fun written => known (sameIds.mem_iff.mp written)
      rw [here, there, Option.map_none]
  obtain ⟨same, ordered⟩ := mirrored _ _ mirrors
  exact ⟨by decide, mirrors, by decide, same ⟨"web"⟩, ordered _, (records _ ⟨"web"⟩).1⟩

end Activation
