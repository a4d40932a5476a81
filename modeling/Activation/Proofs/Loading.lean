import Activation.Proofs.Layers
import Activation.Proofs.Validation

/-!
# Loading the indexes of a run

The indexes of a run are loaded all or not at all. As long as files are accepted, loading them is
merging what they hold (`RunFile.run_foldlM_mergeFile`); the first one that is not ends it with its
own error. A merged index is not validated again, and need not be: each of its entries comes from an
index that was (`CandidateIndex.validateIndex_merge`).
-/

namespace Activation

/-! ### Steps that can fail -/

namespace Reported

variable {ε α β : Type} {first : ExceptT ε Reported α}

theorem run_bind_of_ok {result : α} (done : first.run.value = .ok result)
    (next : α → ExceptT ε Reported β) :
    (first >>= next).run = (do Reported.reportAll first.run.events; (next result).run) := by
  rw [ExceptT.run_bind]
  show Reported.bind _ _ = _
  rw [Reported.bind, done]
  rfl

/-- What follows a step that fails is not done, so it reports nothing. -/
theorem run_bind_of_error {failure : ε} (failed : first.run.value = .error failure)
    (next : α → ExceptT ε Reported β) :
    (first >>= next).run = ⟨first.run.events, .error failure⟩ := by
  rw [ExceptT.run_bind]
  show Reported.bind _ _ = _
  rw [Reported.bind, failed]
  exact congrArg (Reported.mk · _) (List.append_nil _)

/-- What follows a step counts only where the step has a result. -/
theorem bind_congr_of_ok {next next' : α → ExceptT ε Reported β}
    (same : ∀ a, first.run.value = .ok a → next a = next' a) :
    first >>= next = first >>= next' := by
  apply ExceptT.ext
  cases done : first.run.value with
  | error failure => rw [run_bind_of_error done, run_bind_of_error done]
  | ok a => rw [run_bind_of_ok done, run_bind_of_ok done, same a done]

/-- A result is there only where each step had one. -/
theorem value_run_bind_eq_ok_iff {next : α → ExceptT ε Reported β} {result : β} :
    (first >>= next).run.value = .ok result ↔
      ∃ a, first.run.value = .ok a ∧ (next a).run.value = .ok result := by
  rw [value_run_bind]
  cases first.run.value <;> simp [Bind.bind, Except.bind]

end Reported

namespace Loading

variable {α : Type} (step : Loading α) (problems : α → List ValidationError)

/-- Looking for problems reports nothing. -/
theorem events_checked :
    (do let result ← step; check (problems result); return result : Loading α).run.events =
      step.run.events := by
  cases done : step.run.value with
  | error failure => rw [Reported.run_bind_of_error done]
  | ok result =>
    rw [Reported.run_bind_of_ok done, check]
    split <;> exact List.append_nil _

theorem value_checked :
    (do let result ← step; check (problems result); return result : Loading α).run.value =
      match step.run.value with
      | .ok result =>
        if problems result = [] then .ok result else .error (.invalid (problems result))
      | .error failure => .error failure := by
  rw [Reported.value_run_bind]
  cases step.run.value with
  | error failure => rfl
  | ok result =>
    show (check (problems result) >>= fun _ => pure result).run.value = ite _ _ _
    rw [check]
    split <;> rfl

theorem checked_eq_ok_iff {result : α} :
    (do let result ← step; check (problems result); return result : Loading α).run.value =
      .ok result ↔ step.run.value = .ok result ∧ problems result = [] := by
  rw [value_checked]
  cases step.run.value with
  | error failure => simp
  | ok other => grind

end Loading

/-! ### One index file -/

namespace CandidateIndex

variable {readers : Readers} {files : Files} {path : Path} {index : CandidateIndex}
  {failure : LoadError}

/-- A file is reported when it has been read and parsed, be it valid or not. -/
theorem events_load (readers : Readers) (files : Files) (path : Path) :
    (load readers files path).run.events =
      match (load readers files path).run.value with
      | .ok index => [.indexLoaded path.text index.size]
      | .error _ => [] := by
  rw [load]
  cases IndexFormat.ofPath? path with
  | none => rfl
  | some format =>
    dsimp only
    cases files.readText path with
    | error missing => rfl
    | ok text =>
      have read : (Loading.ofExcept LoadError.unreadable (.ok text)).run.value = .ok text := rfl
      rw [Reported.run_bind_of_ok read]
      cases readers.index format text with
      | error detail => rfl
      | ok index => rfl

theorem events_loadValid (readers : Readers) (files : Files) (path : Path) :
    (loadValid readers files path).run.events = (load readers files path).run.events :=
  Loading.events_checked (load readers files path) validateIndex

/-- A file is accepted where it holds an index without problems. -/
theorem loadValid_eq_ok_iff :
    (loadValid readers files path).run.value = .ok index ↔
      (load readers files path).run.value = .ok index ∧ validateIndex index = [] :=
  Loading.checked_eq_ok_iff (load readers files path) validateIndex

/-- A file that is not accepted either is not an index, and then it is not reported, or is an index
with problems, and then it is. -/
theorem load_of_loadValid_eq_error
    (failed : (loadValid readers files path).run.value = .error failure) :
    ((load readers files path).run.value = .error failure ∧
        (loadValid readers files path).run.events = []) ∨
      ∃ index, (load readers files path).run.value = .ok index ∧ validateIndex index ≠ [] ∧
        failure = .invalid (validateIndex index) ∧
        (loadValid readers files path).run.events = [.indexLoaded path.text index.size] := by
  rw [loadValid, Loading.value_checked] at failed
  rw [events_loadValid, events_load]
  cases loaded : (load readers files path).run.value with
  | error unusable =>
    rw [loaded] at failed
    exact .inl ⟨failed, rfl⟩
  | ok index =>
    rw [loaded] at failed
    by_cases valid : validateIndex index = []
    · simp [valid] at failed
    · simp only [valid, if_false, Except.error.injEq] at failed
      exact .inr ⟨index, rfl, valid, failed.symm, rfl⟩

/-- Each entry of a merged index is one of the two that were merged, and was valid there for the
same id. -/
theorem validateIndex_merge {lower upper : CandidateIndex} (below : validateIndex lower = [])
    (above : validateIndex upper = []) (origin : String) :
    validateIndex (lower.merge upper origin).value = [] := by
  rw [validateIndex_eq_nil_iff] at below above ⊢
  intro id entry found
  rw [get?_merge, Option.or_eq_some_iff] at found
  obtain written | ⟨-, written⟩ := found
  · exact above id entry written
  · exact below id entry written

end CandidateIndex

/-! ### The index files of a run -/

/-- An index file that is accepted, and the index that it holds. -/
structure IndexFile (readers : Readers) (files : Files) where
  path : Path
  index : CandidateIndex
  accepted : (CandidateIndex.loadValid readers files path).run.value = .ok index

namespace IndexFile

variable {readers : Readers} {files : Files}

theorem valid (file : IndexFile readers files) : validateIndex file.index = [] :=
  (CandidateIndex.loadValid_eq_ok_iff.mp file.accepted).2

theorem events_loadValid (file : IndexFile readers files) :
    (CandidateIndex.loadValid readers files file.path).run.events =
      [.indexLoaded file.path.text file.index.size] := by
  rw [CandidateIndex.events_loadValid, CandidateIndex.events_load,
    (CandidateIndex.loadValid_eq_ok_iff.mp file.accepted).1]

/-- Merges accepted files into an index one after another, when nothing can fail any more. Of each
it is reported that it was loaded, and then which entries it overrides. -/
def mergeEach (merged : CandidateIndex) (accepted : List (IndexFile readers files)) :
    Reported CandidateIndex :=
  accepted.foldlM (fun merged file => do
    Reported.report (.indexLoaded file.path.text file.index.size)
    merged.merge file.index file.path.text) merged

theorem value_mergeEach (merged : CandidateIndex) (accepted : List (IndexFile readers files)) :
    (mergeEach merged accepted).value =
      (merged.mergeEach (accepted.map fun file => (file.index, file.path.text))).value := by
  rw [mergeEach, CandidateIndex.mergeEach, Reported.value_foldlM, Reported.value_foldlM,
    List.foldl_map]
  rfl

theorem validateIndex_mergeEach {merged : CandidateIndex} (valid : validateIndex merged = [])
    (accepted : List (IndexFile readers files)) :
    validateIndex (mergeEach merged accepted).value = [] := by
  induction accepted generalizing merged with
  | nil => exact valid
  | cons file later ih =>
    exact ih (CandidateIndex.validateIndex_merge valid file.valid file.path.text)

/-- Either all of the files are accepted, or there is a first one that is not. -/
theorem all_accepted_or (readers : Readers) (files : Files) (paths : List Path) :
    (∃ accepted : List (IndexFile readers files), paths = accepted.map IndexFile.path) ∨
      ∃ (accepted : List (IndexFile readers files)) (path : Path) (later : List Path)
        (failure : LoadError), paths = accepted.map IndexFile.path ++ path :: later ∧
          (CandidateIndex.loadValid readers files path).run.value = .error failure := by
  induction paths with
  | nil => exact .inl ⟨[], rfl⟩
  | cons path later ih =>
    cases outcome : (CandidateIndex.loadValid readers files path).run.value with
    | error failure => exact .inr ⟨[], path, later, failure, rfl, outcome⟩
    | ok index =>
      obtain ⟨accepted, rfl⟩ | ⟨accepted, failing, rest, failure, rfl, failed⟩ := ih
      · exact .inl ⟨⟨path, index, outcome⟩ :: accepted, rfl⟩
      · exact .inr ⟨⟨path, index, outcome⟩ :: accepted, failing, rest, failure, rfl, failed⟩

end IndexFile

namespace RunFile

variable {readers : Readers} {files : Files}

theorem indexPaths_eq (run : RunFile) (directory : Path) :
    run.indexPaths directory =
      run.indexes.map fun path => if path.isAbsolute then path else directory.join path := by
  apply List.map_congr_left
  intro path _
  split
  · exact if_pos ‹_›
  · rfl

/-- Reads an index file and merges it into those before it. -/
def mergeFile (readers : Readers) (files : Files) (merged : CandidateIndex) (path : Path) :
    Loading CandidateIndex := do
  let index ← CandidateIndex.loadValid readers files path
  Loading.ofReported (merged.merge index path.text)

theorem mergeAll_eq (readers : Readers) (files : Files) (paths : List Path) :
    mergeAll readers files paths = paths.foldlM (mergeFile readers files) ∅ := rfl

theorem run_mergeFile (merged : CandidateIndex) (file : IndexFile readers files) :
    (mergeFile readers files merged file.path).run = (do
      Reported.report (.indexLoaded file.path.text file.index.size)
      Except.ok <$> merged.merge file.index file.path.text) := by
  rw [mergeFile, Reported.run_bind_of_ok file.accepted, file.events_loadValid]
  rfl

/-- As long as the files are accepted, loading and merging them is merging what they hold. -/
theorem run_foldlM_mergeFile (merged : CandidateIndex) (accepted : List (IndexFile readers files))
    (paths : List Path) :
    ((accepted.map IndexFile.path ++ paths).foldlM (mergeFile readers files) merged).run = (do
      let merged ← IndexFile.mergeEach merged accepted
      (paths.foldlM (mergeFile readers files) merged).run) := by
  -- Each file is merged into a different index, so the index is left open.
  induction accepted generalizing merged with
  | nil => rfl
  | cons file later ih =>
    rw [List.map_cons, List.cons_append, List.foldlM_cons, ExceptT.run_bind, run_mergeFile,
      IndexFile.mergeEach, List.foldlM_cons]
    simp only [bind_assoc, bind_map_left, ih]
    rfl

theorem run_mergeAll_of_accepted (accepted : List (IndexFile readers files)) :
    (mergeAll readers files (accepted.map IndexFile.path)).run =
      Except.ok <$> IndexFile.mergeEach ∅ accepted := by
  have all := run_foldlM_mergeFile ∅ accepted []
  rw [List.append_nil, ← mergeAll_eq] at all
  exact all.trans (bind_pure_comp Except.ok (IndexFile.mergeEach ∅ accepted))

/-- The first file that is not accepted ends the loading. The files behind it are not read. -/
theorem run_mergeAll_of_error (accepted : List (IndexFile readers files)) {path : Path}
    {failure : LoadError}
    (failed : (CandidateIndex.loadValid readers files path).run.value = .error failure)
    (later : List Path) :
    (mergeAll readers files (accepted.map IndexFile.path ++ path :: later)).run =
      ⟨(IndexFile.mergeEach ∅ accepted).events ++
          (CandidateIndex.loadValid readers files path).run.events,
        .error failure⟩ := by
  have stopped (merged : CandidateIndex) :
      ((path :: later).foldlM (mergeFile readers files) merged).run =
        ⟨(CandidateIndex.loadValid readers files path).run.events, .error failure⟩ := by
    have step : (mergeFile readers files merged path).run =
        ⟨(CandidateIndex.loadValid readers files path).run.events, .error failure⟩ :=
      Reported.run_bind_of_error failed _
    have fails : (mergeFile readers files merged path).run.value = .error failure := by rw [step]
    rw [List.foldlM_cons, Reported.run_bind_of_error fails, step]
  have all := run_foldlM_mergeFile ∅ accepted (path :: later)
  simp only [stopped, ← mergeAll_eq] at all
  exact all

end RunFile

/-- Whatever the readers of files are, the indexes of a run are loaded all or not at all. There is a
merged index exactly where every listed file is accepted; it is valid although nobody looks at it
again. Otherwise the first file
that is not accepted decides about the error. The files before it have been loaded and merged by
then, and are reported; it is reported itself if it was an index, only not a valid one. -/
theorem loadIndexes_all_or_nothing (readers : Readers) (run : RunFile) (files : Files)
    (directory : Path) :
    run.indexPaths directory =
      run.indexes.map (fun path => if path.isAbsolute then path else directory.join path) ∧
    ((∃ merged, (run.loadIndexes readers files directory).run.value = .ok merged) ↔
      ∀ path ∈ run.indexPaths directory, ∃ index,
        (CandidateIndex.loadValid readers files path).run.value = .ok index) ∧
    (∀ merged, (run.loadIndexes readers files directory).run.value = .ok merged →
      ∃ accepted : List (IndexFile readers files),
        run.indexPaths directory = accepted.map IndexFile.path ∧
        merged = ((∅ : CandidateIndex).mergeEach
          (accepted.map fun file => (file.index, file.path.text))).value ∧
        validateIndex merged = [] ∧
        (run.loadIndexes readers files directory).run.events =
          (IndexFile.mergeEach ∅ accepted).events) ∧
    ∀ failure, (run.loadIndexes readers files directory).run.value = .error failure →
      ∃ (accepted : List (IndexFile readers files)) (path : Path) (later : List Path)
        (own : List Event),
        run.indexPaths directory = accepted.map IndexFile.path ++ path :: later ∧
        (CandidateIndex.loadValid readers files path).run.value = .error failure ∧
        (run.loadIndexes readers files directory).run.events =
          (IndexFile.mergeEach ∅ accepted).events ++ own ∧
        (((CandidateIndex.load readers files path).run.value = .error failure ∧ own = []) ∨
          ∃ index, (CandidateIndex.load readers files path).run.value = .ok index ∧
            validateIndex index ≠ [] ∧ failure = .invalid (validateIndex index) ∧
            own = [.indexLoaded path.text index.size]) := by
  refine ⟨run.indexPaths_eq directory, ?_⟩
  rw [RunFile.loadIndexes]
  obtain ⟨accepted, paths⟩ | ⟨accepted, path, later, failure, paths, failed⟩ :=
    IndexFile.all_accepted_or readers files (run.indexPaths directory)
  · -- Nothing fails, and what is left of loading is merging.
    rw [paths, RunFile.run_mergeAll_of_accepted, Reported.events_map, Reported.value_map]
    have listed : ∀ path ∈ accepted.map IndexFile.path, ∃ index,
        (CandidateIndex.loadValid readers files path).run.value = .ok index := by
      intro path member
      obtain ⟨file, -, rfl⟩ := List.mem_map.mp member
      exact ⟨file.index, file.accepted⟩
    refine ⟨⟨fun _ => listed, fun _ => ⟨_, rfl⟩⟩, fun merged same => ?_, nofun⟩
    cases same
    exact ⟨accepted, rfl, IndexFile.value_mergeEach ∅ accepted,
      IndexFile.validateIndex_mergeEach rfl accepted, rfl⟩
  · -- What is reported in the end is told by how far the failing file got.
    rw [paths, RunFile.run_mergeAll_of_error accepted failed]
    refine ⟨⟨nofun, fun listed => ?_⟩, nofun, fun other same => ?_⟩
    · obtain ⟨index, loaded⟩ := listed path (by simp)
      rw [failed] at loaded
      contradiction
    · cases same
      have own := CandidateIndex.load_of_loadValid_eq_error failed
      exact ⟨accepted, path, later, _, rfl, failed, rfl, own⟩

end Activation
