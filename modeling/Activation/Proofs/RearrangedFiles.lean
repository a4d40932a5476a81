import Activation.Format.Index
import Activation.Proofs.AnchorNumbers
import Activation.Proofs.SameEntries
import Mathlib.Algebra.GroupWithZero.Nat

/-!
# Index files with entries in another order

Two index files may differ in nothing but the order of their entries (`IndexFormat.Rearranged`). If
one can be read, and no id stands twice in it, then so can the other, and the indexes are equal
(`IndexFormat.parse?_of_rearranged`).

Entries are read one by one in each format. In YAML what an entry costs counts against what the
document may cost as a whole, and the sum of the costs does not depend on their order. An entry in
another place has other numbers for its anchors, so the nodes of the two documents are not equal, but
alike.
-/

namespace Activation

/-! ### Entries -/

/-- A list is read item by item. -/
theorem mapM_eq_some_iff {α β : Type} {read : α → Option β} {xs : List α} {ys : List β} :
    xs.mapM read = some ys ↔ List.Forall₂ (fun x y => read x = some y) xs ys := by
  induction xs generalizing ys with
  | nil => simp [eq_comm]
  | cons x xs ih =>
    simp only [List.mapM_cons, Option.bind_eq_bind, Option.bind_eq_some_iff, Option.pure_def,
      Option.some.injEq, List.forall₂_cons_left_iff, ih]
    constructor
    · rintro ⟨y, here, rest, later, rfl⟩
      exact ⟨y, rest, here, later, rfl⟩
    · rintro ⟨y, rest, here, later, rfl⟩
      exact ⟨y, here, rest, later, rfl⟩

theorem exists_mapM_eq_some_of_perm {α β : Type} {read : α → Option β} {xs ys : List α}
    {results : List β} (arranged : xs.Perm ys) (done : xs.mapM read = some results) :
    results.length = xs.length ∧ ∃ others, ys.mapM read = some others ∧ results.Perm others := by
  have each := mapM_eq_some_iff.mp done
  obtain ⟨others, read, arranged⟩ := List.perm_comp_forall₂ arranged.symm each
  exact ⟨each.length_eq.symm, others, mapM_eq_some_iff.mpr read, arranged.symm⟩

theorem CandidateIndex.exists_sameAs_of_perm {α : Type}
    {read : α → Option (CandidateId × IndexEntry)} {xs ys : List α} {index : CandidateIndex}
    (arranged : xs.Perm ys)
    (listed : (do let written ← xs.mapM read; return ofEntries written) = some index)
    (size : index.size = xs.length) :
    ∃ other, (do let written ← ys.mapM read; return ofEntries written) = some other ∧
      index.sameAs other = true := by
  obtain ⟨written, done, same⟩ := Option.bind_eq_some_iff.mp listed
  cases same
  obtain ⟨long, others, done, arranged⟩ := exists_mapM_eq_some_of_perm arranged done
  have distinct := IdMap.nodup_of_size_ofList (size.trans long.symm)
  exact ⟨_, Option.bind_eq_some_iff.mpr ⟨others, done, rfl⟩, sameAs_insertAll _ distinct arranged⟩

/-- What members hold under a key, which may stand only once. -/
def sole? {κ ν : Type} [BEq κ] (members : List (κ × ν)) (key : κ) : Option (Option ν) :=
  match members.filter fun member => member.1 == key with
  | [] => some none
  | [(_, value)] => some (some value)
  | _ => none

/-- What a member holds is what is found, or it does not matter what it holds. -/
theorem sole?_around {κ ν : Type} [BEq κ] (before : List (κ × ν)) (name : κ)
    (after : List (κ × ν)) (key : κ) :
    (∃ result, ∀ value, sole? (before ++ (name, value) :: after) key = result) ∨
      ∀ value, sole? (before ++ (name, value) :: after) key = some (some value) := by
  simp only [sole?, List.filter_append, List.filter_cons]
  by_cases asked : (name == key) = true
  · simp only [asked, ↓reduceIte]
    cases before.filter fun member => member.1 == key with
    | nil =>
      cases after.filter fun member => member.1 == key with
      | nil => exact Or.inr fun value => rfl
      | cons => exact Or.inl ⟨none, fun value => rfl⟩
    | cons first rest =>
      refine Or.inl ⟨none, fun value => ?_⟩
      cases rest <;> rfl
  · simp only [asked, Bool.false_eq_true, ↓reduceIte]
    exact Or.inl ⟨_, fun value => rfl⟩

/-! ### Documents -/

namespace Format.Json

open Activation.Json

variable {front back entries entries' : List (Option String × Value)} {index : CandidateIndex}

theorem readEntries?_of_perm (arranged : entries.Perm entries')
    (read : readEntries? (.object entries) = some index) (size : index.size = entries.length) :
    ∃ other, readEntries? (.object entries') = some other ∧ index.sameAs other = true :=
  CandidateIndex.exists_sameAs_of_perm arranged read size

/-- A document with a member that lists candidates. -/
def document (front entries back : List (Option String × Value)) : Value :=
  .object (front ++ (some "candidates", .object entries) :: back)

theorem readIndex?_object (members : List (Option String × Value)) :
    readIndex? (.object members) =
      if members.all fun (name, _) => name.isSome then
        (sole? members (some "candidates")).bind (optional? readEntries? ∅)
      else none := by
  simp only [readIndex?, fields?, members?]
  split
  · simp only [List.mapM_cons, List.mapM_nil, sole?]
    cases members.filter fun member => member.1 == some "candidates" with
    | nil => rfl
    | cons first rest => cases rest <;> rfl
  · rfl

theorem readIndex?_of_perm (arranged : entries.Perm entries')
    (read : readIndex? (document front entries back) = some index)
    (size : index.size = entries.length) :
    ∃ other, readIndex? (document front entries' back) = some other ∧
      index.sameAs other = true := by
  simp only [document, readIndex?_object, List.all_append, List.all_cons, Option.isSome_some,
    Bool.true_and] at read ⊢
  split at read
  next named =>
    rw [if_pos named]
    rcases sole?_around front (some "candidates") back (some "candidates") with
      ⟨result, same⟩ | found
    · rw [same] at read ⊢
      exact ⟨index, read, index.sameAs_refl⟩
    · rw [found] at read ⊢
      exact readEntries?_of_perm arranged read size
  · cases read

end Format.Json

namespace Format.Toml

open Activation.Toml

variable {front back entries entries' : Entries} {kind : TableKind} {index : CandidateIndex}

theorem readEntries?_of_perm (arranged : entries.Perm entries')
    (read : readEntries? (.table kind entries) = some index) (size : index.size = entries.length) :
    ∃ other, readEntries? (.table kind entries') = some other ∧ index.sameAs other = true :=
  CandidateIndex.exists_sameAs_of_perm arranged read size

/-- The entries of a document that lists candidates. -/
def document (front : Entries) (kind : TableKind) (entries back : Entries) : Entries :=
  front ++ ("candidates", .table kind entries) :: back

theorem optional?_lookup_of_perm (arranged : entries.Perm entries')
    (read : optional? readEntries? ∅ ((document front kind entries back).lookup "candidates") =
      some index)
    (size : index.size = entries.length) :
    ∃ other, optional? readEntries? ∅
        ((document front kind entries' back).lookup "candidates") = some other ∧
      index.sameAs other = true := by
  simp only [document, List.lookup_append, List.lookup_cons, beq_self_eq_true] at read ⊢
  cases before : front.lookup "candidates" with
  | none =>
    rw [before] at read
    have listed : readEntries? (.table kind entries) = some index := read
    exact readEntries?_of_perm arranged listed size
  | some node =>
    rw [before] at read
    exact ⟨index, read, index.sameAs_refl⟩

end Format.Toml

namespace Format.Yaml

open Activation.Yaml Activation.Yaml.Node Activation.Yaml.Decoder

variable {front back entries others : List (Node × Node)} {key whole : Node}

/-- A document that lists candidates. -/
def document (front : List (Node × Node)) (key : Node) (entries back : List (Node × Node)) : Node :=
  .mapping (front ++ (key, .mapping entries) :: back)

/-- Entries are read one by one, and what they cost does not depend on their order. -/
theorem relates_readEntries_of_perm (arranged : entries.Perm others) :
    Relates whole whole (fun index other => index.size = entries.length → index.sameAs other = true)
      (readEntries (.mapping entries)) (readEntries (.mapping others)) := by
  have listed : Relates whole whole (fun listed listed' => listed = entries ∧ listed' = others)
      (Decoder.entries (.mapping entries)) (Decoder.entries (.mapping others)) :=
    relates_pure ⟨rfl, rfl⟩
  refine listed.bind ?_
  rintro _ _ ⟨rfl, rfl⟩
  have steady (entry : Node × Node) :=
    relates_member (aliasesAlike_refl whole) ⟨.refl entry.1, .refl entry.2⟩
  refine (relates_mapM_of_perm steady arranged).bind fun written written' ⟨arranged, long⟩ => ?_
  refine relates_pure fun size => ?_
  have distinct := IdMap.nodup_of_size_ofList (size.trans long.symm)
  exact CandidateIndex.sameAs_insertAll _ distinct arranged

/-- The values of two documents are the same, apart from the lists of their entries. -/
inductive SameButEntries (entries others : List (Node × Node)) : Node → Node → Prop
  | same (node : Node) : SameButEntries entries others node node
  | listed : SameButEntries entries others (.mapping entries) (.mapping others)

theorem relates_readIndex_of_perm (arranged : entries.Perm others) :
    Relates whole whole (fun index other => index.size = entries.length → index.sameAs other = true)
      (readIndex (document front key entries back))
      (readIndex (document front key others back)) := by
  have same (members : List (Node × Node)) :
      List.Forall₂ (Corresponds (Alike Eq) (SameButEntries entries others)) members members :=
    List.forall₂_same.mpr fun member _ => ⟨.refl member.1, .same member.2⟩
  have listed : Relates whole whole
      (List.Forall₂ (Corresponds (Alike Eq) (SameButEntries entries others)))
      (Decoder.entries (document front key entries back))
      (Decoder.entries (document front key others back)) :=
    relates_pure (List.rel_append (same front) (.cons ⟨.refl key, .listed⟩ (same back)))
  have found := relates_fields (aliasesAlike_refl whole) ["candidates"] listed
  refine found.bind fun values values' related => ?_
  rcases related with _ | ⟨candidates, _ | _⟩
  · exact relates_refuse
  · refine relates_optional (fun node node' related => ?_) (fun _ => CandidateIndex.sameAs_refl ∅)
      candidates
    cases related with
    | same =>
      refine (relates_readEntries (aliasesAlike_refl whole) (.refl node)).imp ?_
      rintro index - rfl -
      exact index.sameAs_refl
    | listed => exact relates_readEntries_of_perm arranged
  · exact relates_refuse

theorem sizeOfEntries_eq_sum (entries : List (Node × Node)) :
    sizeOfEntries entries = (entries.map fun entry => entry.1.size + entry.2.size).sum := by
  induction entries with
  | nil => rfl
  | cons entry entries ih => simp [sizeOfEntries, ih]

theorem size_document_of_perm (arranged : entries.Perm others) :
    (document front key entries back).size = (document front key others back).size := by
  have same := (arranged.map fun entry => entry.1.size + entry.2.size).sum_nat
  simp [document, Node.size, sizeOfEntries_eq_sum, same]

/-- Decoding costs the same over both documents, which are of one size, so both can afford it or
neither. -/
theorem decode?_of_perm {document' : Node} {pairs : Nat → Nat → Prop} {index : CandidateIndex}
    (arranged : entries.Perm others)
    (alike : Alike pairs (document front key others back) document')
    (aliases : AliasesAlike pairs (document front key entries back) document')
    (read : decode? readIndex (document front key entries back) = some index)
    (size : index.size = entries.length) :
    ∃ other, decode? readIndex document' = some other ∧ index.sameAs other = true := by
  have sizes := (size_document_of_perm arranged).trans alike.size_eq
  cases (relates_readIndex_of_perm arranged).trans (relates_readIndex aliases alike) with
  | refused left _ =>
    rw [decode?_of_yields left] at read
    cases read
  | given related left right =>
    obtain ⟨_, same, rfl⟩ := related
    rw [decode?_of_yields left, Option.bind_some] at read
    rw [decode?_of_yields right, Option.bind_some, ← sizes]
    split at read
    next paid =>
      cases read
      exact ⟨_, if_pos paid, same size⟩
    · cases read

end Format.Yaml

/-! ### Files -/

/-- Two texts of a format write documents that differ only in the order in which so many entries are
listed. In YAML the numbers of anchors may differ as well, since another order changes them; then
aliases with paired numbers have to stand for alike nodes. -/
inductive IndexFormat.Rearranged (count : Nat) : IndexFormat → String → String → Prop
  | json {text text' : String} {front entries entries' back : List (Option String × Json.Value)}
      (written : Json.Value.parse? text = some (Format.Json.document front entries back))
      (written' : Json.Value.parse? text' = some (Format.Json.document front entries' back))
      (arranged : entries.Perm entries') (size : entries.length = count) :
      Rearranged count .json text text'
  | toml {text text' : String} {front entries entries' back : Toml.Entries} {kind : Toml.TableKind}
      (written : Toml.parse? text = some (Format.Toml.document front kind entries back))
      (written' : Toml.parse? text' = some (Format.Toml.document front kind entries' back))
      (arranged : entries.Perm entries') (size : entries.length = count) :
      Rearranged count .toml text text'
  | yaml {text text' : String} {front entries others back : List (Yaml.Node × Yaml.Node)}
      {key document' : Yaml.Node} {pairs : Nat → Nat → Prop}
      (written : Yaml.parse? text = some (Format.Yaml.document front key entries back))
      (written' : Yaml.parse? text' = some document')
      (arranged : entries.Perm others)
      (alike : Yaml.Node.Alike pairs (Format.Yaml.document front key others back) document')
      (aliases :
        Yaml.Node.AliasesAlike pairs (Format.Yaml.document front key entries back) document')
      (size : entries.length = count) :
      Rearranged count .yaml text text'

theorem IndexFormat.parse?_of_rearranged {count : Nat} {format : IndexFormat} {text text' : String}
    {index : CandidateIndex} (rearranged : Rearranged count format text text')
    (read : format.parse? text = some index) (size : index.size = count) :
    ∃ other, format.parse? text' = some other ∧ index.sameAs other = true := by
  cases rearranged with
  | json written written' arranged long =>
    simp only [parse?, CandidateIndex.ofJson?, written, written', Option.bind_eq_bind,
      Option.bind_some] at read ⊢
    exact Format.Json.readIndex?_of_perm arranged read (size.trans long.symm)
  | toml written written' arranged long =>
    simp only [parse?, CandidateIndex.ofToml?, written, written', Option.bind_eq_bind,
      Option.bind_some] at read ⊢
    exact Format.Toml.optional?_lookup_of_perm arranged read (size.trans long.symm)
  | yaml written written' arranged alike aliases long =>
    simp only [parse?, CandidateIndex.ofYaml?, written, written', Option.bind_eq_bind,
      Option.bind_some] at read ⊢
    exact Format.Yaml.decode?_of_perm arranged alike aliases read (size.trans long.symm)

open Yaml.Node in
set_option maxRecDepth 8000 in
/-- Two small files in YAML in which the same anchors have different numbers. -/
example : IndexFormat.yaml.Rearranged 3 "candidates: {a: &x , b: &y , c: *x}"
    "candidates: {b: &y , a: &x , c: *x}" := by
  have written : Yaml.parse? "candidates: {a: &x , b: &y , c: *x}" =
      some (Format.Yaml.document [] (.scalar "candidates" .plain none)
        [(.scalar "a" .plain none, .anchored 0 .empty),
          (.scalar "b" .plain none, .anchored 1 .empty),
          (.scalar "c" .plain none, .reference 0)] []) := by
    cbv
  have written' : Yaml.parse? "candidates: {b: &y , a: &x , c: *x}" =
      some (Format.Yaml.document [] (.scalar "candidates" .plain none)
        [(.scalar "b" .plain none, .anchored 0 .empty),
          (.scalar "a" .plain none, .anchored 1 .empty),
          (.scalar "c" .plain none, .reference 1)] []) := by
    cbv
  have entries : Alike (fun number number' => number = 0 ∧ number' = 1)
      (.mapping [(.scalar "b" .plain none, .anchored 1 .empty),
        (.scalar "a" .plain none, .anchored 0 .empty), (.scalar "c" .plain none, .reference 0)])
      (.mapping [(.scalar "b" .plain none, .anchored 0 .empty),
        (.scalar "a" .plain none, .anchored 1 .empty), (.scalar "c" .plain none, .reference 1)]) :=
    .mapping (.cons (.scalar ..) (.cons (.scalar ..) (.cons (.scalar ..) .nil)))
      (.cons (.anchored 1 0 (.scalar ..)) (.cons (.anchored 0 1 (.scalar ..))
        (.cons (.reference ⟨rfl, rfl⟩) .nil)))
  refine .yaml written written' (.swap _ _ _)
    (.mapping (.cons (.scalar ..) .nil) (.cons entries .nil)) ?_ rfl
  rintro _ _ ⟨rfl, rfl⟩
  exact .some (.scalar ..)

end Activation
