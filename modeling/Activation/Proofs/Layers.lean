import Activation.Order.Finite
import Activation.Run.Loading

/-!
# Merged indexes as layers

An index that is written over another one answers like the two as layers, the written one preferred
(`CandidateIndex.source_merge`): both give an id wholly to the one or to the other. So the indexes
of a run, merged one after another, answer like a stack of layers with the last index on top
(`CandidateIndex.source_mergeEach`, `RunFile.source_mergeAll`).
-/

namespace Activation

/-- Sources on top of one another, the topmost asked first. The first of the list lies right on the
bottom. -/
def Source.stack (bottom : Source) (layers : List Source) : Source :=
  layers.foldl (fun below layer => Source.layered layer below) bottom

theorem Reported.value_foldlM {α β : Type} (f : β → α → Reported β) (b : β) (xs : List α) :
    (xs.foldlM f b).value = xs.foldl (fun b x => (f b x).value) b := by
  induction xs generalizing b with
  | nil => rfl
  | cons x xs ih => rw [List.foldlM_cons, value_bind, ih, List.foldl_cons]

/-- What follows a step that can fail sees its result and nothing of what it reported. -/
theorem Reported.value_run_bind {ε α β : Type} (first : ExceptT ε Reported α)
    (next : α → ExceptT ε Reported β) :
    (first >>= next).run.value = first.run.value >>= fun a => (next a).run.value := by
  rw [ExceptT.run_bind, value_bind]
  cases first.run.value <;> rfl

namespace CandidateIndex

theorem candidates_merge (lower upper : CandidateIndex) (origin : String) :
    (lower.merge upper origin).value.candidates =
      lower.candidates.insertAll upper.candidates.entries := by
  rw [merge, Reported.value_foldlM]
  -- Whether an override is reported has no influence on what is written.
  induction upper.candidates.entries generalizing lower with
  | nil => rfl
  | cons entry entries ih =>
    rw [List.foldl_cons, ih]
    apply congrArg (IdMap.insertAll · entries)
    dsimp only
    split <;> rfl

theorem get?_merge (lower upper : CandidateIndex) (origin : String) (id : CandidateId) :
    (lower.merge upper origin).value.get? id = (upper.get? id).or (lower.get? id) := by
  rw [get?, candidates_merge, IdMap.get?_insertAll_entries]
  rfl

/-- A merged index answers like the two on top of each other. -/
theorem source_merge (lower upper : CandidateIndex) (origin : String) :
    (lower.merge upper origin).value.source = Source.layered upper.source lower.source := by
  have answer := get?_merge lower upper origin
  have available : ∀ id, (lower.merge upper origin).value.contains id =
      (upper.contains id || lower.contains id) := fun id =>
    (congrArg Option.isSome (answer id)).trans Option.isSome_or
  -- An id that the upper index has is answered from there, any other one from below.
  simp only [source, Source.layered, Source.mk.injEq, available, answer]
  refine ⟨trivial, ?_, ?_, ?_, ?_, ?_⟩
  all_goals
    funext id
    cases found : upper.get? id with
    | none =>
      have outside : upper.contains id = false := congrArg Option.isSome found
      simp [outside]
    | some entry =>
      have inside : upper.contains id = true := congrArg Option.isSome found
      simp [inside, found]

theorem merge_empty (index : CandidateIndex) (origin : String) :
    ((∅ : CandidateIndex).merge index origin).value = index := by
  have candidates : ((∅ : CandidateIndex).merge index origin).value.candidates = index.candidates :=
    (candidates_merge ∅ index origin).trans index.candidates.ofList_entries
  exact congrArg CandidateIndex.mk candidates

/-- Merges indexes into an index one after another, each with the name of its origin. -/
def mergeEach (bottom : CandidateIndex) (layers : List (CandidateIndex × String)) :
    Reported CandidateIndex :=
  layers.foldlM (fun merged layer => merged.merge layer.1 layer.2) bottom

theorem source_mergeEach (bottom : CandidateIndex) (layers : List (CandidateIndex × String)) :
    (bottom.mergeEach layers).value.source =
      Source.stack bottom.source (layers.map fun layer => layer.1.source) := by
  rw [mergeEach, Reported.value_foldlM]
  induction layers generalizing bottom with
  | nil => rfl
  | cons layer layers ih =>
    rw [List.foldl_cons, ih, source_merge]
    rfl

end CandidateIndex

/-- Loading the indexes of a run gives the first failure, or the stack of all of them. -/
theorem RunFile.source_mergeAll (readers : Readers) (files : Files) (paths : List Path) :
    (mergeAll readers files paths).run.value.map CandidateIndex.source =
      (paths.mapM fun path => (CandidateIndex.loadValid readers files path).run.value).map
        fun layers =>
          Source.stack (∅ : CandidateIndex).source (layers.map CandidateIndex.source) := by
  rw [mergeAll]
  generalize (∅ : CandidateIndex) = merged
  induction paths generalizing merged with
  | nil => rfl
  | cons path paths ih =>
    -- Both sides read the first file; what follows starts from what was merged up to there.
    rw [List.foldlM_cons, List.mapM_cons, Reported.value_run_bind, Reported.value_run_bind]
    cases (CandidateIndex.loadValid readers files path).run.value with
    | error failure => rfl
    | ok index =>
      -- The first index is the lowest of the layers on top of what was merged.
      refine (ih (merged.merge index path.text).value).trans ?_
      rw [CandidateIndex.source_merge]
      show _ = Except.map _ (List.mapM _ paths >>= fun later => _)
      cases paths.mapM fun path => (CandidateIndex.loadValid readers files path).run.value with
      | error failure => rfl
      | ok later => rfl

theorem orderCandidates_congr {source other : Source} {ids : List CandidateId}
    (same : source = other) (explorable : source.Explorable ids)
    (explorable' : other.Explorable ids) :
    orderCandidates source ids explorable = orderCandidates other ids explorable' := by
  subst same
  rfl

/-- Merging indexes and layering them are the same to the orderer. A merged index answers every
question like the two layers, with the same orders, errors and events. Merged into an empty index
one after another, indexes answer like the stack in which later ones are preferred, and so do the
indexes of a run file, if all of them can be loaded. -/
theorem merge_eq_layered :
    (∀ (lower upper : CandidateIndex) (origin : String),
      (lower.merge upper origin).value.source = Source.layered upper.source lower.source ∧
      ∀ ids, (lower.merge upper origin).value.orderCandidates ids =
        orderCandidates (Source.layered upper.source lower.source) ids
          ((upper.source_finite.layered lower.source_finite).explorable ids)) ∧
    (∀ layers : List (CandidateIndex × String),
      ((∅ : CandidateIndex).mergeEach layers).value.source =
        Source.stack (∅ : CandidateIndex).source (layers.map fun layer => layer.1.source)) ∧
    (∀ (bottom : CandidateIndex × String) (layers : List (CandidateIndex × String)),
      ((∅ : CandidateIndex).mergeEach (bottom :: layers)).value.source =
        Source.stack bottom.1.source (layers.map fun layer => layer.1.source)) ∧
    ∀ (readers : Readers) (run : RunFile) (files : Files) (directory : Path),
      (run.loadIndexes readers files directory).run.value.map CandidateIndex.source =
        ((run.indexPaths directory).mapM fun path =>
          (CandidateIndex.loadValid readers files path).run.value).map fun layers =>
            Source.stack (∅ : CandidateIndex).source (layers.map CandidateIndex.source) := by
  refine ⟨fun lower upper origin => ⟨lower.source_merge upper origin, fun ids => ?_⟩,
    fun layers => CandidateIndex.source_mergeEach ∅ layers, fun bottom layers => ?_,
    fun readers run files directory =>
      RunFile.source_mergeAll readers files (run.indexPaths directory)⟩
  · exact orderCandidates_congr (lower.source_merge upper origin) _ _
  · -- The first index, written into the empty one, is that index itself.
    have first := CandidateIndex.merge_empty bottom.1 bottom.2
    rw [← CandidateIndex.source_mergeEach, CandidateIndex.mergeEach, CandidateIndex.mergeEach,
      Reported.value_foldlM, Reported.value_foldlM, List.foldl_cons, first]

/-- An entry without an order hides the order below it. -/
example :
    ((CandidateIndex.ofEntries [(⟨"db"⟩, { order := some 5 })]).merge
      (.ofEntries [(⟨"db"⟩, { before := [⟨"web"⟩] })]) "later").value.source.order ⟨"db"⟩ = 0 := by
  decide

end Activation
