import Activation.Candidate.Id

/-!
# Events

What ordering and loading report while they work. An event is a value: a function that reports
returns the events beside its result, in the order in which they happened. Each event has a level,
a text, and structured fields; a span carries the same fields under a name.
-/

namespace Activation

/-- How much attention an event asks for. -/
inductive Level where
  | debug
  | info
  | warn
  | error
deriving DecidableEq, Repr

/-- The value of a structured field. -/
inductive FieldValue where
  | number (value : Nat)
  | flag (value : Bool)
  | text (value : String)
deriving DecidableEq, Repr

/-- A span of work, tagged with the fields of an event. -/
structure Span where
  name : String
  level : Level
  fields : List (String × FieldValue)

/-- Something worth reporting. -/
inductive Event where
  /-- Construction of a graph began with so many requested ids, repetitions counted. -/
  | graphBuildStarted (initialCount : Nat)
  | graphBuildCompleted (primaryCount inheritedCount deprecatedCount : Nat)
  /-- The metadata source could not resolve a candidate, which is ordered with defaults. -/
  | candidateUnavailable (id : CandidateId) (primary : Bool)
  /-- A retired candidate was redirected to its replacements. -/
  | deprecatedCandidateRedirected (id : CandidateId) (replacements : List CandidateId)
  /-- Retired candidates redirect to each other in a loop, which aborts the ordering. -/
  | replacementCycleDetected (chain : List CandidateId)
  | indexLoaded (path : String) (entryCount : Nat)
  /-- An index entry was replaced by one of a later index. -/
  | indexEntryOverridden (id : CandidateId) (path : String)
  | orderingStarted (candidateCount workingSetSize : Nat)
  /-- Ordering ended with these outermost candidates, if any. -/
  | orderingCompleted (first last : Option CandidateId) (candidateCount : Nat)
  /-- Two candidates require each other to come first, which aborts the ordering. -/
  | orderingCycleDetected (current requestedAfter : CandidateId)
deriving DecidableEq, Repr

namespace Event

def level : Event → Level
  | graphBuildStarted .. => .debug
  | graphBuildCompleted .. => .debug
  | candidateUnavailable .. => .debug
  | deprecatedCandidateRedirected .. => .debug
  | replacementCycleDetected .. => .error
  | indexLoaded .. => .info
  | indexEntryOverridden .. => .warn
  | orderingStarted .. => .debug
  | orderingCompleted .. => .debug
  | orderingCycleDetected .. => .error

/-- The text of an event for a human reader. -/
def message : Event → String
  | graphBuildStarted initialCount =>
    s!"Building candidate graph from {initialCount} initial candidates"
  | graphBuildCompleted primaryCount inheritedCount deprecatedCount =>
    s!"Candidate graph built: {primaryCount} primary, {inheritedCount} inherited, " ++
      s!"{deprecatedCount} deprecated"
  | candidateUnavailable id primary =>
    let kind := if primary then "primary" else "inherited"
    s!"Candidate '{id}' ({kind}) is unavailable, ordering with defaults"
  | deprecatedCandidateRedirected id replacements =>
    s!"Deprecated candidate '{id}' redirected to [" ++ CandidateId.join ", " replacements ++ "]"
  | replacementCycleDetected chain =>
    "Deprecated replacement cycle detected: " ++ CandidateId.join " -> " chain
  | indexLoaded path entryCount => s!"Loaded candidate index '{path}' with {entryCount} entries"
  | indexEntryOverridden id path => s!"Index entry for '{id}' overridden by '{path}'"
  | orderingStarted candidateCount workingSetSize =>
    s!"Ordering {candidateCount} candidates over a working set of {workingSetSize}"
  | orderingCompleted first last candidateCount =>
    let shown (id : Option CandidateId) : String := (id.map CandidateId.text).getD "-"
    s!"Ordered {candidateCount} candidates (first: {shown first}, last: {shown last})"
  | orderingCycleDetected current requestedAfter =>
    s!"Ordering cycle detected between '{current}' and '{requestedAfter}'"

/-- The structured fields of an event. An absent id has no field. -/
def fields : Event → List (String × FieldValue)
  | graphBuildStarted initialCount => [("initial_count", .number initialCount)]
  | graphBuildCompleted primaryCount inheritedCount deprecatedCount =>
    [("primary_count", .number primaryCount), ("inherited_count", .number inheritedCount),
      ("deprecated_count", .number deprecatedCount)]
  | candidateUnavailable id primary => [("candidate_id", .text id.text), ("primary", .flag primary)]
  | deprecatedCandidateRedirected id replacements =>
    [("candidate_id", .text id.text), ("replacements", .text (CandidateId.join ", " replacements))]
  | replacementCycleDetected chain =>
    [("chain", .text (CandidateId.join ", " chain)), ("chain_length", .number chain.length)]
  | indexLoaded path entryCount => [("path", .text path), ("entry_count", .number entryCount)]
  | indexEntryOverridden id path => [("candidate_id", .text id.text), ("path", .text path)]
  | orderingStarted candidateCount workingSetSize =>
    [("candidate_count", .number candidateCount), ("working_set_size", .number workingSetSize)]
  | orderingCompleted first last candidateCount =>
    let present (name : String) (id : Option CandidateId) : List (String × FieldValue) :=
      (id.map fun id => (name, FieldValue.text id.text)).toList
    ("candidate_count", .number candidateCount) :: (present "first" first ++ present "last" last)
  | orderingCycleDetected current requestedAfter =>
    [("current", .text current.text), ("requested_after", .text requestedAfter.text)]

/-- The kind of work an event belongs to. -/
def activity : Event → String
  | graphBuildStarted .. => "graph_build"
  | graphBuildCompleted .. => "graph_build"
  | candidateUnavailable .. => "candidate"
  | deprecatedCandidateRedirected .. => "candidate"
  | replacementCycleDetected .. => "replacement_cycle"
  | indexLoaded .. => "index"
  | indexEntryOverridden .. => "index"
  | orderingStarted .. => "ordering"
  | orderingCompleted .. => "ordering"
  | orderingCycleDetected .. => "ordering_cycle"

/-- The span that carries an event's fields, with a label of the caller's choice. -/
def span (event : Event) (label : String) : Span where
  name := event.activity
  level := event.level
  fields := ("span_name", .text label) :: event.fields

end Event

/-- A result together with the events reported on the way to it. -/
structure Reported (α : Type) where
  events : List Event
  value : α

namespace Reported

variable {α β : Type}

def silent (value : α) : Reported α := ⟨[], value⟩

/-- Goes on from a result; what was reported before stays in front. -/
def bind (r : Reported α) (next : α → Reported β) : Reported β :=
  ⟨r.events ++ (next r.value).events, (next r.value).value⟩

def report (event : Event) : Reported Unit := ⟨[event], ()⟩

def reportAll (events : List Event) : Reported Unit := ⟨events, ()⟩

instance : Monad Reported where
  pure := silent
  bind := bind

instance : LawfulMonad Reported :=
  LawfulMonad.mk' Reported
    (fun r => by simp [Functor.map, bind, silent])
    (fun a f => by simp [Bind.bind, Pure.pure, bind, silent])
    (fun r f g => by simp [Bind.bind, bind])

@[simp] theorem events_pure (value : α) : (pure value : Reported α).events = [] := rfl

@[simp] theorem value_pure (value : α) : (pure value : Reported α).value = value := rfl

@[simp] theorem events_bind (r : Reported α) (next : α → Reported β) :
    (r >>= next).events = r.events ++ (next r.value).events := rfl

@[simp] theorem value_bind (r : Reported α) (next : α → Reported β) :
    (r >>= next).value = (next r.value).value := rfl

@[simp] theorem events_map (f : α → β) (r : Reported α) : (f <$> r).events = r.events := by
  rw [← bind_pure_comp, events_bind, events_pure, List.append_nil]

@[simp] theorem value_map (f : α → β) (r : Reported α) : (f <$> r).value = f r.value := rfl

@[simp] theorem events_reportAll (events : List Event) : (reportAll events).events = events := rfl

@[simp] theorem events_report (event : Event) : (report event).events = [event] := rfl

end Reported

end Activation
