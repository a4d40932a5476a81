import Activation.CommandLine
import Activation.Proofs.IndexHistory
import Activation.Proofs.Loading
import Activation.Proofs.RunValidation
import Mathlib.Data.String.Basic

/-!
# Whole orders or nothing

The program is called with a run file, or with one index and the candidates to order. A run file is
validated, its indexes are looked for in its directory and are merged; a single index is loaded and
used as it is. Where both come to one index and the same candidates, they leave the same outcome,
and however the program is called, it prints a whole order or nothing
(`calls_agree_on_whole_orders`).

`CommandLine.Asks` is what arguments ask for before anything is ordered: an index, and ids to order
by it. A command that has an order went through all of its steps, so its arguments asked for
something.

The files that a command reads depend on what it finds in the first of them.
`CommandLine.Command.run_only_paths` says that they are no others than those of its paths.
-/

namespace Activation

/-- The directory at which the relative paths of a run file start. -/
def Path.directory (path : Path) : Path := path.parent?.getD ⟨"."⟩

/-! ### A run file with one index -/

/-- A single index is merged into an empty one, which leaves it as it is and overrides nothing. -/
theorem IndexFile.mergeEach_sole {readers : Readers} {files : Files}
    (file : IndexFile readers files) :
    mergeEach ∅ [file] = ⟨[.indexLoaded file.path.text file.index.size], file.index⟩ := by
  have overridden : ((∅ : CandidateIndex).merge file.index file.path.text).events = [] := by
    rw [CandidateIndex.events_merge, List.map_eq_nil_iff, List.filter_eq_nil_iff]
    intro id _ present
    cases present
  simp only [mergeEach, List.foldlM_cons, List.foldlM_nil, bind_pure]
  exact congrArg₂ Reported.mk (congrArg _ overridden) (CandidateIndex.merge_empty _ _)

namespace RunFile

variable {readers : Readers} {files : Files} {path directory : Path}

theorem loadValid_eq_ok_iff {run : RunFile} :
    (loadValid readers files path).run.value = .ok run ↔
      (load readers files path).run.value = .ok run ∧ validateCandidates run.candidates = [] :=
  Loading.checked_eq_ok_iff (load readers files path) fun run => validateCandidates run.candidates

/-- Only indexes are reported to be loaded. -/
theorem events_loadValid (readers : Readers) (files : Files) (path : Path) :
    (loadValid readers files path).run.events = [] := by
  refine (Loading.events_checked (load readers files path) _).trans ?_
  rw [load]
  cases files.readText path with
  | error missing => rfl
  | ok text =>
    have read : (Loading.ofExcept LoadError.unreadable (.ok text)).run.value = .ok text := rfl
    rw [Reported.run_bind_of_ok read]
    cases readers.run text with
    | error detail => rfl
    | ok run => rfl

theorem run_loadIndexes_sole {listed : Path} {index : CandidateIndex}
    (accepted :
      (CandidateIndex.loadValid readers files (directory.join listed)).run.value = .ok index)
    (candidates : List CandidateId) :
    (loadIndexes { indexes := [listed], candidates } readers files directory).run =
      ⟨[.indexLoaded (directory.join listed).text index.size], .ok index⟩ := by
  have merged := IndexFile.mergeEach_sole ⟨directory.join listed, index, accepted⟩
  exact (run_mergeAll_of_accepted [⟨directory.join listed, index, accepted⟩]).trans
    (congrArg (Except.ok <$> ·) merged)

end RunFile

namespace CommandLine

variable {readers : Readers} {files : Files} {path : Path} {index : CandidateIndex}
  {ids candidates out : List CandidateId} {arguments : List String} {program : String}

/-! ### Steps of a command -/

theorem value_loading_eq_ok_iff {α : Type} {context : String} {step : Loading α} {result : α} :
    (loading context step).run.value = .ok result ↔ step.run.value = .ok result := by
  show step.run.value.mapError (Failure.load context) = .ok result ↔ _
  cases step.run.value <;> simp [Except.mapError]

theorem value_ordering_eq_ok_iff :
    (ordering index ids).run.value = .ok out ↔ (index.orderCandidates ids).value = .ok out := by
  show (index.orderCandidates ids).value.mapError Failure.ordering = .ok out ↔ _
  cases (index.orderCandidates ids).value <;> simp [Except.mapError]

theorem run_loading_bind {α β : Type} {context : String} {step : Loading α} {result : α}
    (done : step.run.value = .ok result) (next : α → ExceptT Failure Reported β) :
    (loading context step >>= next).run =
      (do Reported.reportAll step.run.events; (next result).run) := by
  rw [Reported.run_bind_of_ok (value_loading_eq_ok_iff.mpr done)]
  exact congrArg (Reported.reportAll · >>= _) (Reported.events_map _ _)

theorem orderRunFile_eq (readers : Readers) (files : Files) (path : Path) :
    orderRunFile readers files path = (do
      let run ← loading s!"failed to load run file '{path.text}'"
        (RunFile.loadValid readers files path)
      let index ← loading s!"failed to load indexes for '{path.text}'"
        (run.loadIndexes readers files path.directory)
      ordering index run.candidates) := rfl

/-- The candidates of a run file are ordered by its merged index, once both are loaded. -/
theorem run_orderRunFile {run : RunFile}
    (read : (RunFile.loadValid readers files path).run.value = .ok run)
    (loaded : (run.loadIndexes readers files path.directory).run.value = .ok index) :
    (orderRunFile readers files path).run = (do
      Reported.reportAll (run.loadIndexes readers files path.directory).run.events
      (ordering index run.candidates).run) := by
  rw [orderRunFile_eq, run_loading_bind read, RunFile.events_loadValid, run_loading_bind loaded]
  rfl

theorem orderRunFile_eq_ok_iff :
    (orderRunFile readers files path).run.value = .ok out ↔
      ∃ run, (RunFile.loadValid readers files path).run.value = .ok run ∧
        ∃ index, (run.loadIndexes readers files path.directory).run.value = .ok index ∧
          (index.orderCandidates run.candidates).value = .ok out := by
  simp only [orderRunFile_eq, Reported.value_run_bind_eq_ok_iff, value_loading_eq_ok_iff,
    value_ordering_eq_ok_iff]

/-- Candidates that stand in the arguments are ordered by the index, once it is loaded. -/
theorem run_orderWithIndex (given : candidates ≠ [])
    (accepted : (CandidateIndex.loadValid readers files path).run.value = .ok index) :
    (orderWithIndex readers files path candidates).run = (do
      Reported.reportAll [.indexLoaded path.text index.size]
      (ordering index candidates).run) := by
  have events := IndexFile.events_loadValid ⟨path, index, accepted⟩
  rw [orderWithIndex, if_neg given, run_loading_bind accepted, events]

theorem orderWithIndex_eq_ok_iff :
    (orderWithIndex readers files path candidates).run.value = .ok out ↔
      candidates ≠ [] ∧
        ∃ index, (CandidateIndex.loadValid readers files path).run.value = .ok index ∧
          (index.orderCandidates candidates).value = .ok out := by
  rw [orderWithIndex]
  split
  next none => exact iff_of_false nofun fun both => both.1 none
  next given =>
    simp only [Reported.value_run_bind_eq_ok_iff, value_loading_eq_ok_iff,
      value_ordering_eq_ok_iff, ne_eq, given, not_false_eq_true, true_and]

/-! ### What arguments ask for -/

/-- The arguments that are not taken for the path of a run file. -/
def options : List String := ["--index", "--help", "-h"]

theorem ofArguments_eq_runFile_iff :
    Command.ofArguments arguments = .runFile path ↔
      arguments = [path.text] ∧ path.text ∉ options := by
  cases path
  unfold Command.ofArguments
  split <;> grind [options]

theorem map_mk_eq_iff {texts : List String} :
    texts.map CandidateId.mk = ids ↔ texts = ids.map CandidateId.text := by
  constructor
  · rintro rfl
    rw [List.map_map]
    exact (List.map_id texts).symm
  · rintro rfl
    rw [List.map_map]
    exact List.map_id ids

theorem ofArguments_eq_withIndex_iff :
    Command.ofArguments arguments = .withIndex path ids ↔
      arguments = "--index" :: path.text :: ids.map CandidateId.text := by
  cases path
  unfold Command.ofArguments
  split <;> grind [map_mk_eq_iff]

theorem ofArguments_eq_help_iff :
    Command.ofArguments arguments = .help ↔
      ∃ rest, arguments = "--help" :: rest ∨ arguments = "-h" :: rest := by
  unfold Command.ofArguments
  split <;> grind

/-- Arguments ask to order ids by an index: those of a run file by its merged indexes, or ids by an
index which all stand in the arguments themselves. Everything that is read is valid. -/
inductive Asks (readers : Readers) (files : Files) :
    List String → CandidateIndex → List CandidateId → Prop
  | runFile {path : Path} {run : RunFile} {index : CandidateIndex} (isPath : path.text ∉ options)
      (read : (RunFile.loadValid readers files path).run.value = .ok run)
      (loaded : (run.loadIndexes readers files path.directory).run.value = .ok index) :
      Asks readers files [path.text] index run.candidates
  | withIndex {path : Path} {index : CandidateIndex} {ids : List CandidateId} (given : ids ≠ [])
      (accepted : (CandidateIndex.loadValid readers files path).run.value = .ok index) :
      Asks readers files ("--index" :: path.text :: ids.map CandidateId.text) index ids

/-- What is asked for is done and decides about the outcome. -/
theorem Asks.value_run (asks : Asks readers files arguments index ids) (program : String) :
    (run readers program arguments files).value =
      Outcome.ofResult ((index.orderCandidates ids).value.mapError Failure.ordering) := by
  cases asks with
  | runFile isPath read loaded =>
    rw [run, ofArguments_eq_runFile_iff.mpr ⟨rfl, isPath⟩, Command.run,
      run_orderRunFile read loaded]
    rfl
  | withIndex given accepted =>
    rw [run, ofArguments_eq_withIndex_iff.mpr rfl, Command.run, run_orderWithIndex given accepted]
    rfl

/-- There is an order of what was asked for, or nothing is printed. Without an order the program
fails, unless it was asked for help. -/
theorem ordered_or_nothing (readers : Readers) (program : String) (arguments : List String)
    (files : Files) :
    (∃ index ids out, Asks readers files arguments index ids ∧
        (index.orderCandidates ids).value = .ok out) ∨
      (run readers program arguments files).value.output = "" ∧
        ((run readers program arguments files).value.code = 0 →
          ∃ rest, arguments = "--help" :: rest ∨ arguments = "-h" :: rest) := by
  have failing : (1 : UInt8) ≠ 0 := by decide
  rw [run]
  cases command : Command.ofArguments arguments with
  | runFile path =>
    obtain ⟨rfl, isPath⟩ := ofArguments_eq_runFile_iff.mp command
    rw [Command.run, Reported.value_map]
    -- An order is there only if the run file and its indexes are.
    cases done : (orderRunFile readers files path).run.value with
    | error failure => exact .inr ⟨rfl, fun success => absurd success failing⟩
    | ok out =>
      obtain ⟨run, read, index, loaded, ordered⟩ := orderRunFile_eq_ok_iff.mp done
      exact .inl ⟨index, run.candidates, out, .runFile isPath read loaded, ordered⟩
  | withIndex path candidates =>
    obtain rfl := ofArguments_eq_withIndex_iff.mp command
    rw [Command.run, Reported.value_map]
    cases done : (orderWithIndex readers files path candidates).run.value with
    | error failure => exact .inr ⟨rfl, fun success => absurd success failing⟩
    | ok out =>
      obtain ⟨given, index, accepted, ordered⟩ := orderWithIndex_eq_ok_iff.mp done
      exact .inl ⟨index, candidates, out, .withIndex given accepted, ordered⟩
  | help => exact .inr ⟨rfl, fun _ => ofArguments_eq_help_iff.mp command⟩
  | misuse => exact .inr ⟨rfl, fun success => absurd success failing⟩

/-! ### Whole orders -/

theorem map_reportAll_bind {α β : Type} (f : α → β) (events : List Event) (r : Reported α) :
    (f <$> do Reported.reportAll events; r) = ⟨events ++ r.events, f r.value⟩ :=
  congrArg (Reported.mk · (f r.value)) (Reported.events_map f _)

theorem lines_texts (ids : List CandidateId) :
    lines (ids.map CandidateId.text) = String.join (ids.map fun id => id.text ++ "\n") := by
  rw [lines, List.map_map]
  rfl

theorem lines_single (text : String) : lines [text] = text ++ "\n" := by simp [lines]

end CommandLine

open CommandLine

/-- Whatever the readers of files are, a run file that lists one index and valid candidates is as
good as that index and those candidates as arguments: the program ends with the same exit code,
output and diagnostics, and reports the same, but for the path under which it found the index.
Arguments that ask for ids to be ordered by an index have their whole order printed, one id to a
line, or nothing and the reason why there is none. Whatever the program is called with, it prints
nothing where it fails, and succeeds only with an order or when it is asked for help. -/
theorem calls_agree_on_whole_orders (readers : Readers) (program : String) (files : Files) :
    (∀ (path listed given : Path) (index : CandidateIndex) (candidates : List CandidateId),
      path.text ∉ options →
      (RunFile.load readers files path).run.value = .ok { indexes := [listed], candidates } →
      validateCandidates candidates = [] →
      (CandidateIndex.loadValid readers files (path.directory.join listed)).run.value = .ok index →
      (CandidateIndex.loadValid readers files given).run.value = .ok index →
      ∃ own outcome,
        run readers program [path.text] files =
          ⟨.indexLoaded (path.directory.join listed).text index.size :: own, outcome⟩ ∧
        run readers program ("--index" :: given.text :: candidates.map CandidateId.text) files =
          ⟨.indexLoaded given.text index.size :: own, outcome⟩) ∧
    (∀ arguments index ids, Asks readers files arguments index ids →
      (∀ out, (index.orderCandidates ids).value = .ok out →
        (run readers program arguments files).value =
          { code := 0, output := String.join (out.map fun id => id.text ++ "\n")
            diagnostics := "" }) ∧
      ∀ error, (index.orderCandidates ids).value = .error error →
        (run readers program arguments files).value =
          { code := 1, output := "", diagnostics := "❌ " ++ error.message ++ "\n" }) ∧
    ∀ arguments,
      ((run readers program arguments files).value.code ≠ 0 →
        (run readers program arguments files).value.output = "") ∧
      ((run readers program arguments files).value.code = 0 →
        (∃ index ids out, Asks readers files arguments index ids ∧
          (index.orderCandidates ids).value = .ok out) ∨
        (∃ rest, arguments = "--help" :: rest ∨ arguments = "-h" :: rest) ∧
          (run readers program arguments files).value.output = "") := by
  refine ⟨fun path listed given index candidates isPath read valid found accepted => ?_,
    fun arguments index ids asks => ⟨fun out ordered => ?_, fun error failed => ?_⟩,
    fun arguments => ?_⟩
  · have accepts : (RunFile.loadValid readers files path).run.value =
        .ok { indexes := [listed], candidates } := RunFile.loadValid_eq_ok_iff.mpr ⟨read, valid⟩
    have loaded := RunFile.run_loadIndexes_sole found candidates
    have present : candidates ≠ [] := (validateCandidates_eq_nil_iff.mp valid).1
    -- Behind the report of the index there is the same ordering.
    refine ⟨(ordering index candidates).run.events,
      Outcome.ofResult (ordering index candidates).run.value, ?_, ?_⟩
    · rw [run, ofArguments_eq_runFile_iff.mpr ⟨rfl, isPath⟩, Command.run,
        run_orderRunFile accepts (congrArg Reported.value loaded), loaded, map_reportAll_bind]
      rfl
    · rw [run, ofArguments_eq_withIndex_iff.mpr rfl, Command.run,
        run_orderWithIndex present accepted, map_reportAll_bind]
      rfl
  · -- The outcome of a result writes all of it at once.
    rw [asks.value_run, ordered, ← lines_texts]
    rfl
  · rw [asks.value_run, failed, ← lines_single]
    rfl
  · obtain ⟨index, ids, out, asks, ordered⟩ | ⟨silent, success⟩ :=
      ordered_or_nothing readers program arguments files
    · have printed := asks.value_run program
      rw [ordered] at printed
      refine ⟨fun failed => absurd ?_ failed, fun _ => .inl ⟨index, ids, out, asks, ordered⟩⟩
      rw [printed]
      rfl
    · exact ⟨fun _ => silent, fun done => .inr ⟨success done, silent⟩⟩

/-! ### A run file beside its index -/

variable {readers : Readers} {files other : Files} {path : Path}

open String in
theorem Text.splitOnAux_eq (c : Char) (passed part rest : List Char) (parts : List String) :
    splitOnAux (ofList (passed ++ part ++ rest)) (ofList [c]) ⟨utf8Len passed⟩
        ⟨utf8Len passed + utf8Len part⟩ 0 parts =
      parts.reverse ++ (List.splitOnPPrepend (· == c) rest part.reverse).map ofList := by
  have separator : Pos.Raw.get (ofList [c]) 0 = c := get_of_valid [] [c]
  have behind : Pos.Raw.next (ofList [c]) 0 = ⟨0 + c.utf8Size⟩ := next_of_valid [] c []
  have complete : Pos.Raw.atEnd (ofList [c]) ⟨0 + c.utf8Size⟩ = true := by
    simp [-ofList_cons, atEnd_iff]
  -- The part that is being read ends at a separator; until then it takes over from the rest.
  induction rest generalizing passed part parts with
  | nil =>
    have atEnd :
        Pos.Raw.atEnd (ofList (passed ++ part ++ [])) ⟨utf8Len passed + utf8Len part⟩ = true := by
      simp [-ofList_append, atEnd_iff]
    rw [splitOnAux, if_pos atEnd, extract_of_valid passed part []]
    simp
  | cons d rest ih =>
    have inside : ¬ Pos.Raw.atEnd (ofList (passed ++ part ++ d :: rest))
        ⟨utf8Len passed + utf8Len part⟩ = true := by
      have positive := d.utf8Size_pos
      simp only [atEnd_iff, rawEndPos_ofList, Pos.Raw.mk_le_mk, utf8Len_append, utf8Len_cons]
      omega
    have current := get_of_valid (passed ++ part) (d :: rest)
    have next := next_of_valid (passed ++ part) d rest
    rw [utf8Len_append] at current next
    rw [splitOnAux, if_neg inside, current, separator, behind, next]
    split
    next same =>
      obtain rfl : d = c := by simpa using same
      have back : Pos.Raw.unoffsetBy ⟨utf8Len passed + utf8Len part + d.utf8Size⟩
          ⟨0 + d.utf8Size⟩ = ⟨utf8Len passed + utf8Len part⟩ := by simp [Pos.Raw.unoffsetBy]
      dsimp only
      rw [if_pos complete, back, extract_of_valid passed part (d :: rest)]
      simpa [Nat.add_assoc, List.splitOnPPrepend_cons_eq_if, -ofList_append] using
        ih (passed ++ part ++ [d]) [] (ofList part :: parts)
    next other =>
      have differ : ¬ d = c := by simpa using other
      have stay : Pos.Raw.unoffsetBy ⟨utf8Len passed + utf8Len part⟩ 0 =
        ⟨utf8Len passed + utf8Len part⟩ := rfl
      rw [stay, next]
      simpa [Nat.add_assoc, List.splitOnPPrepend_cons_eq_if, -ofList_append, differ] using
        ih passed (part ++ [d]) parts

/-- Splitting a text at a character is splitting the list of its characters. -/
theorem Text.splitOn_eq (text : String) (c : Char) :
    text.splitOn (String.ofList [c]) = (text.toList.splitOnP (· == c)).map String.ofList := by
  have differ : ¬ (String.ofList [c] == "") = true := by simp
  have whole := splitOnAux_eq c [] [] text.toList []
  rw [String.splitOn, if_neg differ]
  simpa using whole

theorem Path.body_eq (path : Path) :
    path.body = trimEnd (((path.text.drop path.head.length).toString.toList.splitOnP (· == '/')).map
      String.ofList) :=
  congrArg trimEnd (Text.splitOn_eq _ '/')

theorem Files.readText_of_text {text : String} (found : files path = .ok text.toUTF8)
    (named : '\x00' ∉ path.text.toList) : files.readText path = .ok text := by
  have decoded : String.fromUTF8? text.toUTF8 = some text := dif_pos text.isValidUTF8
  have named : ¬ path.text.toList.contains '\x00' = true := by simpa using named
  rw [readText, if_neg named, found]
  simp only [Bind.bind, Except.bind, decoded]

theorem RunFile.load_of_text {text : String} {run : RunFile} (found : files path = .ok text.toUTF8)
    (named : '\x00' ∉ path.text.toList) (parsed : readers.run text = .ok run) :
    (load readers files path).run.value = .ok run := by
  rw [load, Files.readText_of_text found named, Reported.run_bind_of_ok rfl, parsed]
  rfl

theorem CandidateIndex.load_of_text {text : String} {format : IndexFormat} {index : CandidateIndex}
    (found : files path = .ok text.toUTF8) (named : '\x00' ∉ path.text.toList)
    (written : IndexFormat.ofPath? path = some format)
    (parsed : readers.index format text = .ok index) :
    (load readers files path).run.value = .ok index := by
  rw [load, written]
  dsimp only
  rw [Files.readText_of_text found named, Reported.run_bind_of_ok rfl, parsed]
  rfl

/-- A run file and the index that it lists, in one directory. -/
def siteFiles : Files := fun path =>
  if path = ⟨"conf/run.yaml"⟩ then
    .ok "indexes: [index.yaml]\ncandidates: [web, db]\n".toUTF8
  else if path = ⟨"conf/index.yaml"⟩ then .ok "candidates:\n  web:\n    after: [db]\n".toUTF8
  else .error .notFound

def siteIndex : CandidateIndex := .ofEntries [(⟨"web"⟩, { after := [⟨"db"⟩] })]

theorem body_siteIndex : (⟨"conf/index.yaml"⟩ : Path).body = ["conf", "index.yaml"] := by
  rw [Path.body_eq]
  decide +kernel

theorem directory_siteRun : (⟨"conf/run.yaml"⟩ : Path).directory = ⟨"conf"⟩ := by
  have body : (⟨"conf/run.yaml"⟩ : Path).body = ["conf", "run.yaml"] := by
    rw [Path.body_eq]
    decide +kernel
  rw [Path.directory, Path.parent?, body]
  decide +kernel

theorem ofPath?_siteIndex : IndexFormat.ofPath? ⟨"conf/index.yaml"⟩ = some .yaml := by
  have split : "index.yaml".splitOn "." = ["index", "yaml"] :=
    (Text.splitOn_eq "index.yaml" '.').trans (by decide)
  have extension : (⟨"conf/index.yaml"⟩ : Path).extension? = some "yaml" := by
    simp [Path.extension?, Path.fileName?, body_siteIndex, split]
  rw [IndexFormat.ofPath?, extension]
  decide +kernel

set_option maxRecDepth 10000 in
theorem load_siteRun : (RunFile.load .standard siteFiles ⟨"conf/run.yaml"⟩).run.value =
    .ok { indexes := [⟨"index.yaml"⟩], candidates := [⟨"web"⟩, ⟨"db"⟩] } :=
  RunFile.load_of_text (if_pos rfl) (by decide) (by cbv)

set_option maxRecDepth 10000 in
theorem loadValid_siteIndex :
    (CandidateIndex.loadValid .standard siteFiles ⟨"conf/index.yaml"⟩).run.value =
      .ok siteIndex := by
  have found : siteFiles ⟨"conf/index.yaml"⟩ =
      .ok "candidates:\n  web:\n    after: [db]\n".toUTF8 := rfl
  refine CandidateIndex.loadValid_eq_ok_iff.mpr ⟨?_, by decide⟩
  exact CandidateIndex.load_of_text found (by decide) ofPath?_siteIndex (by cbv)

/-- The two files are read alike, be the index listed or given. -/
theorem calls_agree_on_whole_orders_site :
    ∃ own outcome,
      run .standard "order" ["conf/run.yaml"] siteFiles =
        ⟨.indexLoaded "conf/index.yaml" 1 :: own, outcome⟩ ∧
      run .standard "order" ["--index", "conf/index.yaml", "web", "db"] siteFiles =
        ⟨.indexLoaded "conf/index.yaml" 1 :: own, outcome⟩ ∧
      outcome = { code := 0, output := "db\nweb\n", diagnostics := "" } := by
  obtain ⟨agree, printed, -⟩ := calls_agree_on_whole_orders .standard "order" siteFiles
  have joined : (⟨"conf/run.yaml"⟩ : Path).directory.join ⟨"index.yaml"⟩ = ⟨"conf/index.yaml"⟩ := by
    rw [directory_siteRun]
    decide +kernel
  obtain ⟨own, outcome, asFile, asArguments⟩ := agree ⟨"conf/run.yaml"⟩ ⟨"index.yaml"⟩
    ⟨"conf/index.yaml"⟩ siteIndex [⟨"web"⟩, ⟨"db"⟩] (by decide) load_siteRun (by decide)
    (joined ▸ loadValid_siteIndex) loadValid_siteIndex
  rw [joined] at asFile
  have given : [(⟨"web"⟩ : CandidateId), ⟨"db"⟩] ≠ [] := List.cons_ne_nil _ _
  have asks := Asks.withIndex given loadValid_siteIndex
  have ordered : (siteIndex.orderCandidates [⟨"web"⟩, ⟨"db"⟩]).value = .ok [⟨"db"⟩, ⟨"web"⟩] := by
    cbv
  have whole := (printed _ _ _ asks).1 _ ordered
  refine ⟨own, outcome, asFile, asArguments, ?_⟩
  exact (congrArg Reported.value asArguments).symm.trans whole

/-! ### The files that are read -/

namespace Files

/-- The files at some paths. All others are missing. -/
def only (files : Files) (paths : List Path) : Files := fun path =>
  if path ∈ paths then files path else .error .notFound

theorem only_of_mem {paths : List Path} (listed : path ∈ paths) :
    files.only paths path = files path :=
  if_pos listed

theorem readText_congr (same : other path = files path) :
    other.readText path = files.readText path := by
  rw [readText, readText, same]

end Files

theorem CandidateIndex.loadValid_congr (readers : Readers) (same : other path = files path) :
    loadValid readers other path = loadValid readers files path := by
  simp only [loadValid, load, Files.readText_congr same]

theorem RunFile.load_congr (readers : Readers) (same : other path = files path) :
    load readers other path = load readers files path := by
  rw [load, load, Files.readText_congr same]

theorem RunFile.mergeAll_congr (readers : Readers) {paths : List Path}
    (same : ∀ path ∈ paths, other path = files path) :
    mergeAll readers other paths = mergeAll readers files paths := by
  rw [mergeAll_eq, mergeAll_eq]
  -- What is merged up to a file makes no difference to how the file is read.
  generalize (∅ : CandidateIndex) = merged
  induction paths generalizing merged with
  | nil => rfl
  | cons path paths ih =>
    obtain ⟨first, rest⟩ := List.forall_mem_cons.mp same
    rw [List.foldlM_cons, List.foldlM_cons, mergeFile, mergeFile,
      CandidateIndex.loadValid_congr readers first]
    exact congrArg _ (funext fun merged => ih rest merged)

namespace CommandLine

variable {command : Command}

theorem mem_paths_runFile (readers : Readers) (files : Files) (path : Path) :
    path ∈ (Command.runFile path).paths readers files := by
  rw [Command.paths]
  split
  next => exact List.mem_cons_self
  next => exact List.mem_cons_self

/-- Whether a run file can be read is told by its own path, and the paths of its indexes count only
if it can. -/
theorem orderRunFile_congr
    (same : ∀ p ∈ (Command.runFile path).paths readers files, other p = files p) :
    orderRunFile readers other path = orderRunFile readers files path := by
  have first := RunFile.load_congr readers (same path (mem_paths_runFile readers files path))
  rw [orderRunFile_eq, orderRunFile_eq, RunFile.loadValid, RunFile.loadValid, first]
  apply Reported.bind_congr_of_ok
  intro run read
  have loaded := (RunFile.loadValid_eq_ok_iff.mp (value_loading_eq_ok_iff.mp read)).1
  simp only [Command.paths, loaded] at same
  have indexes := RunFile.mergeAll_congr readers (List.forall_mem_cons.mp same).2
  exact congrArg (loading _ · >>= fun index => ordering index run.candidates) indexes

theorem Command.run_congr (same : ∀ path ∈ command.paths readers files, other path = files path)
    (program : String) : command.run readers program other = command.run readers program files := by
  cases command with
  | runFile path => rw [Command.run, Command.run, orderRunFile_congr same]
  | withIndex path candidates =>
    have index := CandidateIndex.loadValid_congr readers (same path List.mem_cons_self)
    rw [Command.run, Command.run, orderWithIndex, orderWithIndex, index]
  | help => rfl
  | misuse => rfl

/-- Which files a command may read is known once those are that it names itself. -/
theorem Command.paths_congr
    (same : ∀ path ∈ command.paths readers fun _ => .error .notFound, other path = files path) :
    command.paths readers other = command.paths readers files := by
  cases command with
  | runFile path =>
    have first := RunFile.load_congr readers (same path (mem_paths_runFile readers _ path))
    rw [Command.paths, Command.paths, first]
  | withIndex path candidates => rfl
  | help => rfl
  | misuse => rfl

/-- It is enough to look at files twice: at those that a command names itself, and at those that it
may read as far as these tell. -/
theorem Command.run_only_paths (command : Command) (readers : Readers) (files : Files)
    (program : String) :
    command.run readers program
        (files.only (command.paths readers
          (files.only (command.paths readers fun _ => .error .notFound)))) =
      command.run readers program files := by
  rw [Command.paths_congr fun path => Files.only_of_mem]
  exact Command.run_congr (fun path => Files.only_of_mem) program

end CommandLine

end Activation
