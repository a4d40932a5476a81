import Activation.Proofs.Layers
import Activation.Source.Table

/-!
# Nested layers

Layers may be layered again, to any depth. However they are nested, an id is answered by one source
at the bottom: by the first one that has the id, the preferred layers coming first, or by the last
one where none has it (`LayerTree.agreesOn_leaf`). So only the sequence of these sources counts
(`LayerTree.source_eq_of_leaves_eq`), and a layered source whose leaves assemble their records from
their other answers does so itself (`LayerTree.assembled_source`).
-/

namespace Activation

namespace Source

/-- The record that the other answers of a source amount to. -/
def assembled (source : Source) (id : CandidateId) : CandidateRecord :=
  if source.isAvailable id then
    Declaration.record
      { id, order := source.order id, before := source.before id, after := source.after id,
        replacedBy := source.replacements id }
  else (CandidateRecord.unavailable id).withReplacements (source.replacements id)

/-- Each record of the source is assembled from its other answers. -/
def Assembled (source : Source) : Prop := ∀ id, source.record id = source.assembled id

/-- Two sources answer every question about an id in the same way. -/
structure AgreesOn (source other : Source) (id : CandidateId) : Prop where
  isAvailable : source.isAvailable id = other.isAvailable id
  order : source.order id = other.order id
  before : source.before id = other.before id
  after : source.after id = other.after id
  replacements : source.replacements id = other.replacements id
  record : source.record id = other.record id

variable {source other third preferred fallback : Source} {id : CandidateId}

namespace AgreesOn

theorem refl (source : Source) (id : CandidateId) : source.AgreesOn source id :=
  ⟨rfl, rfl, rfl, rfl, rfl, rfl⟩

theorem symm (agrees : source.AgreesOn other id) : other.AgreesOn source id :=
  ⟨agrees.isAvailable.symm, agrees.order.symm, agrees.before.symm, agrees.after.symm,
    agrees.replacements.symm, agrees.record.symm⟩

theorem trans (first : source.AgreesOn other id) (second : other.AgreesOn third id) :
    source.AgreesOn third id :=
  ⟨first.isAvailable.trans second.isAvailable, first.order.trans second.order,
    first.before.trans second.before, first.after.trans second.after,
    first.replacements.trans second.replacements, first.record.trans second.record⟩

theorem assembled_eq (agrees : source.AgreesOn other id) :
    source.assembled id = other.assembled id := by
  rw [assembled, assembled, agrees.isAvailable, agrees.order, agrees.before, agrees.after,
    agrees.replacements]

end AgreesOn

theorem eq_of_agreesOn (agrees : ∀ id, source.AgreesOn other id) : source = other := by
  cases source
  cases other
  simp only [mk.injEq]
  exact ⟨funext fun id => (agrees id).isAvailable, funext fun id => (agrees id).order,
    funext fun id => (agrees id).before, funext fun id => (agrees id).after,
    funext fun id => (agrees id).replacements, funext fun id => (agrees id).record⟩

theorem layered_agreesOn_preferred (has : preferred.isAvailable id = true) :
    (layered preferred fallback).AgreesOn preferred id := by
  constructor <;> simp [layered, has]

theorem layered_agreesOn_fallback (lacks : preferred.isAvailable id = false) :
    (layered preferred fallback).AgreesOn fallback id := by
  constructor <;> simp [layered, lacks]

end Source

/-- Sources that are layered, and layered again. -/
inductive LayerTree where
  | leaf (source : Source)
  | layered (preferred fallback : LayerTree)

namespace LayerTree

def source : LayerTree → Source
  | leaf source => source
  | layered preferred fallback => Source.layered preferred.source fallback.source

/-- The sources at the bottom, the most preferred one first. -/
def leaves : LayerTree → List Source
  | leaf source => [source]
  | layered preferred fallback => preferred.leaves ++ fallback.leaves

/-- The first leaf that has the id, or the last one if none has. -/
def answering (tree : LayerTree) (id : CandidateId) : Option Source :=
  (tree.leaves.find? fun leaf => leaf.isAvailable id).or tree.leaves.getLast?

variable {tree other : LayerTree} {id : CandidateId}

theorem isAvailable_source (tree : LayerTree) (id : CandidateId) :
    tree.source.isAvailable id = tree.leaves.any fun leaf => leaf.isAvailable id := by
  induction tree with
  | leaf bottom => simp [LayerTree.source, leaves]
  | layered preferred fallback ihPreferred ihFallback =>
    rw [leaves, List.any_append, ← ihPreferred, ← ihFallback]
    rfl

theorem answering_mem {leaf : Source} (answers : tree.answering id = some leaf) :
    leaf ∈ tree.leaves := by
  rcases Option.or_eq_some_iff.mp answers with found | ⟨-, last⟩
  · exact List.mem_of_find?_eq_some found
  · exact List.mem_of_getLast? last

/-- Where the preferred layer has the id, the leaf that answers is one of its leaves. -/
theorem answering_layered_of_available {preferred fallback : LayerTree}
    (has : preferred.source.isAvailable id = true) :
    (layered preferred fallback).answering id = preferred.answering id := by
  rw [isAvailable_source, List.any_eq_true] at has
  obtain ⟨leaf, found⟩ := Option.isSome_iff_exists.mp (List.find?_isSome.mpr has)
  rw [answering, answering, leaves, List.find?_append, found]
  rfl

theorem leaves_ne_nil (tree : LayerTree) : tree.leaves ≠ [] := by
  induction tree with
  | leaf bottom => exact List.cons_ne_nil _ _
  | layered preferred fallback ih _ => exact List.append_ne_nil_of_left_ne_nil ih _

/-- Otherwise it is a leaf of the other layer, also where no leaf has the id. -/
theorem answering_layered_of_unavailable {preferred fallback : LayerTree}
    (lacks : preferred.source.isAvailable id = false) :
    (layered preferred fallback).answering id = fallback.answering id := by
  have missing : preferred.leaves.find? (fun leaf => leaf.isAvailable id) = none := by
    rw [isAvailable_source, List.any_eq_false] at lacks
    exact List.find?_eq_none.mpr lacks
  have last : (preferred.leaves ++ fallback.leaves).getLast? = fallback.leaves.getLast? := by
    rw [List.getLast?_append, List.getLast?_eq_some_getLast fallback.leaves_ne_nil]
    rfl
  rw [answering, answering, leaves, List.find?_append, missing, last]
  rfl

/-- A nested source answers every question about an id like one of its leaves. -/
theorem agreesOn_leaf (tree : LayerTree) (id : CandidateId) :
    ∃ leaf, tree.answering id = some leaf ∧ tree.source.AgreesOn leaf id := by
  induction tree with
  | leaf bottom =>
    refine ⟨bottom, ?_, .refl bottom id⟩
    cases has : bottom.isAvailable id <;> simp [answering, leaves, has]
  | layered preferred fallback ihPreferred ihFallback =>
    cases has : preferred.source.isAvailable id with
    | true =>
      obtain ⟨leaf, answers, agrees⟩ := ihPreferred
      refine ⟨leaf, (answering_layered_of_available has).trans answers, ?_⟩
      exact (Source.layered_agreesOn_preferred has).trans agrees
    | false =>
      obtain ⟨leaf, answers, agrees⟩ := ihFallback
      refine ⟨leaf, (answering_layered_of_unavailable has).trans answers, ?_⟩
      exact (Source.layered_agreesOn_fallback has).trans agrees

/-- How the leaves are put together does not show. -/
theorem source_eq_of_leaves_eq (same : tree.leaves = other.leaves) : tree.source = other.source := by
  apply Source.eq_of_agreesOn
  intro id
  obtain ⟨leaf, answers, agrees⟩ := tree.agreesOn_leaf id
  obtain ⟨leaf', answers', agrees'⟩ := other.agreesOn_leaf id
  have answering : tree.answering id = other.answering id := by
    rw [answering, answering, same]
  obtain rfl : leaf = leaf' := Option.some.inj (answers.symm.trans (answering.trans answers'))
  exact agrees.trans agrees'.symm

theorem assembled_source (leaves : ∀ leaf ∈ tree.leaves, leaf.Assembled) : tree.source.Assembled := by
  intro id
  obtain ⟨leaf, answers, agrees⟩ := tree.agreesOn_leaf id
  rw [agrees.record, leaves leaf (answering_mem answers) id, agrees.assembled_eq]

end LayerTree

theorem Source.layered_assoc (first second third : Source) :
    layered (layered first second) third = layered first (layered second third) := by
  let left : LayerTree := .layered (.layered (.leaf first) (.leaf second)) (.leaf third)
  let right : LayerTree := .layered (.leaf first) (.layered (.leaf second) (.leaf third))
  have same : left.leaves = right.leaves := List.append_assoc [first] [second] [third]
  exact LayerTree.source_eq_of_leaves_eq same

/-- Nested layers answer each id like one of the sources at the bottom: the first one that has the id,
or the last one where none has, when the id is not available. So layering is associative, layers over
sources that assemble their records assemble them as well, and sources that are nested in different
ways lead to the same orders, errors and events. -/
theorem nested_layers_answer_like_leaf :
    (∀ (tree : LayerTree) (id : CandidateId),
      (tree.source.isAvailable id = true ↔ ∃ leaf ∈ tree.leaves, leaf.isAvailable id = true) ∧
      ∃ leaf, ((tree.leaves.find? fun leaf => leaf.isAvailable id).or tree.leaves.getLast?) =
          some leaf ∧
        tree.source.order id = leaf.order id ∧ tree.source.before id = leaf.before id ∧
        tree.source.after id = leaf.after id ∧
        tree.source.replacements id = leaf.replacements id ∧
        tree.source.record id = leaf.record id) ∧
    (∀ first second third : Source, Source.layered (Source.layered first second) third =
      Source.layered first (Source.layered second third)) ∧
    (∀ tree : LayerTree, (∀ leaf ∈ tree.leaves, leaf.Assembled) → tree.source.Assembled) ∧
    ∀ tree other : LayerTree, tree.leaves = other.leaves →
      ∀ ids (explorable : tree.source.Explorable ids),
        ∃ explorable' : other.source.Explorable ids,
          orderCandidates tree.source ids explorable =
            orderCandidates other.source ids explorable' := by
  refine ⟨fun tree id => ⟨?_, ?_⟩, Source.layered_assoc, fun tree => LayerTree.assembled_source,
    fun tree other same ids explorable => ?_⟩
  · rw [tree.isAvailable_source, List.any_eq_true]
  · obtain ⟨leaf, answers, agrees⟩ := tree.agreesOn_leaf id
    exact ⟨leaf, answers, agrees.order, agrees.before, agrees.after, agrees.replacements,
      agrees.record⟩
  · have sources := LayerTree.source_eq_of_leaves_eq same
    exact ⟨sources ▸ explorable, orderCandidates_congr sources _ _⟩

/-- The legacy service is retired, and it cannot be resolved any more. -/
def archive : List TableRow :=
  [{ id := ⟨"legacy"⟩, replacedBy := [⟨"web"⟩], available := false }]

def overrides : CandidateIndex := .ofEntries [(⟨"web"⟩, { after := [⟨"db"⟩] })]

def defaults : CandidateIndex := .ofEntries
  [(⟨"web"⟩, { order := some 3 }), (⟨"db"⟩, { order := some 7 })]

/-- Two indexes as one layer, above the archive. -/
def archivedBelow : LayerTree :=
  .layered (.layered (.leaf overrides.source) (.leaf defaults.source))
    (.leaf (Table.source archive))

/-- One index above the other one, which lies above the archive. -/
def archivedInside : LayerTree :=
  .layered (.leaf overrides.source)
    (.layered (.leaf defaults.source) (.leaf (Table.source archive)))

/-- No source has the legacy service, so the last one redirects it, however the sources are nested. -/
theorem nested_layers_answer_like_leaf_archive :
    archivedBelow.source.record ⟨"legacy"⟩ =
      (CandidateRecord.unavailable ⟨"legacy"⟩).withReplacements [⟨"web"⟩] ∧
    archivedBelow.source.order ⟨"web"⟩ = 0 ∧ archivedBelow.source.order ⟨"db"⟩ = 7 ∧
    archivedBelow.source.Assembled ∧
    ∃ (explorable : archivedBelow.source.Explorable [⟨"legacy"⟩, ⟨"db"⟩])
      (explorable' : archivedInside.source.Explorable [⟨"legacy"⟩, ⟨"db"⟩]),
      orderCandidates archivedBelow.source _ explorable =
        orderCandidates archivedInside.source _ explorable' := by
  obtain ⟨answers, -, assembled, nested⟩ := nested_layers_answer_like_leaf
  obtain ⟨-, legacy, last, -, -, -, -, redirected⟩ := answers archivedBelow ⟨"legacy"⟩
  obtain ⟨-, web, first, ofWeb, -⟩ := answers archivedBelow ⟨"web"⟩
  obtain ⟨-, db, second, ofDb, -⟩ := answers archivedBelow ⟨"db"⟩
  have leaves : ∀ leaf ∈ archivedBelow.leaves, leaf.Assembled := by
    intro leaf member
    simp only [archivedBelow, LayerTree.leaves, List.mem_append, List.mem_singleton] at member
    rcases member with (rfl | rfl) | rfl <;> exact fun _ => rfl
  have explorable : archivedBelow.source.Explorable [⟨"legacy"⟩, ⟨"db"⟩] :=
    ((overrides.source_finite.layered defaults.source_finite).layered
      (Table.source_finite archive)).explorable _
  cases last
  cases first
  cases second
  exact ⟨redirected, ofWeb, ofDb, assembled archivedBelow leaves, explorable,
    nested archivedBelow archivedInside rfl _ explorable⟩

end Activation
