import Activation.Candidate.IdSet

/-!
# Insertion-ordered maps keyed by candidate ids

An `IdMap` holds one value per id and lists its entries in the order in which the ids were first
written. Writing an id again replaces the value and keeps the place. A map is seen through `get?`
and `keys`; each operation has one lemma for either view.
-/

namespace Activation

/-- A finite map from ids that remembers the order in which its keys were first written. -/
structure IdMap (α : Type) where
  entries : List (CandidateId × α)
  nodup : (entries.map Prod.fst).Nodup

namespace IdMap

variable {α β : Type}

@[ext] theorem ext {m n : IdMap α} (same : m.entries = n.entries) : m = n := by
  cases m
  cases n
  cases same
  rfl

def empty : IdMap α := ⟨[], List.nodup_nil⟩

instance : EmptyCollection (IdMap α) := ⟨empty⟩

instance : Inhabited (IdMap α) := ⟨empty⟩

def keys (m : IdMap α) : List CandidateId := m.entries.map Prod.fst

def size (m : IdMap α) : Nat := m.entries.length

def isEmpty (m : IdMap α) : Bool := m.entries.isEmpty

def get? (m : IdMap α) (id : CandidateId) : Option α := m.entries.lookup id

def contains (m : IdMap α) (id : CandidateId) : Bool := (m.get? id).isSome

private def replace (id : CandidateId) (value : α) :
    List (CandidateId × α) → List (CandidateId × α)
  | [] => []
  | (key, old) :: rest =>
    if key = id then (key, value) :: rest else (key, old) :: replace id value rest

private theorem map_fst_replace (id : CandidateId) (value : α) (entries : List (CandidateId × α)) :
    (replace id value entries).map Prod.fst = entries.map Prod.fst := by
  induction entries with
  | nil => rfl
  | cons entry rest ih =>
    unfold replace
    split <;> simp [ih]

/-- A new id goes last; an id that has a value gets the new one in its old place. -/
def insert (m : IdMap α) (id : CandidateId) (value : α) : IdMap α :=
  if present : id ∈ m.keys then
    ⟨replace id value m.entries, by rw [map_fst_replace]; exact m.nodup⟩
  else
    ⟨m.entries ++ [(id, value)], by
      rw [List.map_append]
      refine List.nodup_append.mpr ⟨m.nodup, by simp, ?_⟩
      intro a member b single same
      have key : a = id := same.trans (List.mem_singleton.mp single)
      exact present (key ▸ member)⟩

/-- Puts a value in the place of the old one, or last where there is none, and gives the old one
back. -/
private def exchangeIn (id : CandidateId) (value : α) :
    List (CandidateId × α) → Option α × List (CandidateId × α)
  | [] => (none, [(id, value)])
  | (key, old) :: rest =>
    if key = id then (some old, (key, value) :: rest)
    else
      let (found, rest) := exchangeIn id value rest
      (found, (key, old) :: rest)

private theorem exchangeIn_eq (id : CandidateId) (value : α) (entries : List (CandidateId × α)) :
    exchangeIn id value entries = (entries.lookup id,
      if id ∈ entries.map Prod.fst then replace id value entries else entries ++ [(id, value)]) := by
  induction entries with
  | nil => rfl
  | cons entry rest ih =>
    obtain ⟨key, old⟩ := entry
    unfold exchangeIn replace
    by_cases same : key = id
    · simp [same]
    · have differ : (id == key) = false := by simpa using Ne.symm same
      -- The entry stays, and what is found and written lies behind it.
      simp only [same, ↓reduceIte, ih, List.lookup_cons, differ, List.map_cons, List.mem_cons,
        Ne.symm same, false_or]
      split <;> rfl

private theorem exchangeIn_entries (m : IdMap α) (id : CandidateId) (value : α) :
    exchangeIn id value m.entries = (m.get? id, (m.insert id value).entries) := by
  rw [exchangeIn_eq]
  by_cases present : id ∈ m.keys
  · have held : id ∈ m.entries.map Prod.fst := present
    simp only [insert, present, held, ↓reduceIte, ↓reduceDIte]
    rfl
  · have absent : id ∉ m.entries.map Prod.fst := present
    simp only [insert, present, absent, ↓reduceIte, ↓reduceDIte]
    rfl

/-- Writes a value and gives back the one that it replaces, if there is one. -/
def exchange (m : IdMap α) (id : CandidateId) (value : α) : Option α × IdMap α :=
  ((exchangeIn id value m.entries).1, ⟨(exchangeIn id value m.entries).2, by
    rw [exchangeIn_entries]
    exact (m.insert id value).nodup⟩)

/-- What is given back is what a look-up would have found, and the rest is an insertion. -/
theorem exchange_eq (m : IdMap α) (id : CandidateId) (value : α) :
    m.exchange id value = (m.get? id, m.insert id value) := by
  have entries : (exchangeIn id value m.entries).2 = (m.insert id value).entries := by
    rw [exchangeIn_entries]
  apply Prod.ext
  · simp only [exchange, exchangeIn_entries]
  · exact ext entries

def insertAll (m : IdMap α) (entries : List (CandidateId × α)) : IdMap α :=
  entries.foldl (fun m entry => m.insert entry.1 entry.2) m

def ofList (entries : List (CandidateId × α)) : IdMap α := empty.insertAll entries

def mapValues (f : α → β) (m : IdMap α) : IdMap β :=
  ⟨m.entries.map fun entry => (entry.1, f entry.2), by
    rw [List.map_map]
    exact m.nodup⟩

/-- Whether two maps give every id the same value, whatever the order of their entries. -/
def sameEntries [DecidableEq α] (m n : IdMap α) : Bool :=
  m.size == n.size && m.entries.all fun entry => decide (n.get? entry.1 = some entry.2)

/-! ### The two views -/

theorem nodup_keys (m : IdMap α) : m.keys.Nodup := m.nodup

@[simp] theorem keys_empty : (∅ : IdMap α).keys = [] := rfl

@[simp] theorem get?_empty (id : CandidateId) : (∅ : IdMap α).get? id = none := rfl

theorem length_keys (m : IdMap α) : m.keys.length = m.size := List.length_map _

private theorem isSome_lookup (entries : List (CandidateId × α)) (id : CandidateId) :
    (entries.lookup id).isSome = true ↔ id ∈ entries.map Prod.fst := by
  induction entries with
  | nil => simp
  | cons entry rest ih =>
    rw [List.lookup_cons, List.map_cons, List.mem_cons]
    by_cases same : id = entry.1
    · simp [same]
    · have differ : (id == entry.1) = false := by simpa using same
      simp [differ, ih, same]

theorem contains_iff {m : IdMap α} {id : CandidateId} : m.contains id = true ↔ id ∈ m.keys :=
  isSome_lookup m.entries id

theorem get?_eq_none_iff {m : IdMap α} {id : CandidateId} : m.get? id = none ↔ id ∉ m.keys := by
  rw [← contains_iff, contains, Bool.not_eq_true, Option.isSome_eq_false_iff,
    Option.isNone_iff_eq_none]

theorem mem_keys_iff {m : IdMap α} {id : CandidateId} :
    id ∈ m.keys ↔ ∃ value, m.get? id = some value := by
  rw [← contains_iff, contains, Option.isSome_iff_exists]

theorem mem_keys_of_get? {m : IdMap α} {id : CandidateId} {value : α}
    (found : m.get? id = some value) : id ∈ m.keys := mem_keys_iff.mpr ⟨value, found⟩

private theorem lookup_eq_some (entries : List (CandidateId × α))
    (distinct : (entries.map Prod.fst).Nodup) (id : CandidateId) (value : α) :
    entries.lookup id = some value ↔ (id, value) ∈ entries := by
  induction entries with
  | nil => simp
  | cons entry rest ih =>
    obtain ⟨key, old⟩ := entry
    rw [List.map_cons, List.nodup_cons] at distinct
    rw [List.lookup_cons, List.mem_cons]
    by_cases same : id = key
    · subst same
      have absent : (id, value) ∉ rest := fun member =>
        distinct.1 (List.mem_map.mpr ⟨_, member, rfl⟩)
      simp [absent, eq_comm]
    · have differ : (id == key) = false := by simpa using same
      simp [differ, ih distinct.2, same]

theorem get?_eq_some_iff {m : IdMap α} {id : CandidateId} {value : α} :
    m.get? id = some value ↔ (id, value) ∈ m.entries :=
  lookup_eq_some m.entries m.nodup id value

@[simp] theorem keys_insert (m : IdMap α) (id : CandidateId) (value : α) :
    (m.insert id value).keys = if id ∈ m.keys then m.keys else m.keys ++ [id] := by
  unfold insert
  split
  next => exact map_fst_replace id value m.entries
  next => simp [keys]

theorem mem_keys_insert {m : IdMap α} {a b : CandidateId} {value : α} :
    a ∈ (m.insert b value).keys ↔ a ∈ m.keys ∨ a = b := by
  rw [keys_insert]
  split
  next present =>
    constructor
    · exact Or.inl
    · rintro (old | rfl)
      · exact old
      · exact present
  next => simp

private theorem lookup_replace (entries : List (CandidateId × α)) (id other : CandidateId)
    (value : α) (present : id ∈ entries.map Prod.fst) :
    (replace id value entries).lookup other =
      if other = id then some value else entries.lookup other := by
  induction entries with
  | nil => simp at present
  | cons entry rest ih =>
    obtain ⟨key, old⟩ := entry
    unfold replace
    by_cases same : key = id
    · subst same
      rw [if_pos rfl, List.lookup_cons, List.lookup_cons]
      by_cases asked : other = key
      · simp [asked]
      · have differ : (other == key) = false := by simpa using asked
        simp [differ, asked]
    · have later : id ∈ rest.map Prod.fst := by
        rcases List.mem_cons.mp present with rfl | later
        · exact absurd rfl same
        · exact later
      rw [if_neg same, List.lookup_cons, List.lookup_cons, ih later]
      by_cases asked : other = key
      · subst asked
        simp [same]
      · have differ : (other == key) = false := by simpa using asked
        simp [differ]

private theorem lookup_append_single (entries : List (CandidateId × α)) (id other : CandidateId)
    (value : α) (absent : id ∉ entries.map Prod.fst) :
    (entries ++ [(id, value)]).lookup other =
      if other = id then some value else entries.lookup other := by
  induction entries with
  | nil =>
    by_cases asked : other = id
    · simp [asked]
    · have differ : (other == id) = false := by simpa using asked
      simp [List.lookup_cons, differ, asked]
  | cons entry rest ih =>
    obtain ⟨key, old⟩ := entry
    rw [List.map_cons, List.mem_cons, not_or] at absent
    rw [List.cons_append, List.lookup_cons, List.lookup_cons, ih absent.2]
    by_cases asked : other = key
    · subst asked
      simp [Ne.symm absent.1]
    · have differ : (other == key) = false := by simpa using asked
      simp [differ]

theorem get?_insert (m : IdMap α) (id other : CandidateId) (value : α) :
    (m.insert id value).get? other = if other = id then some value else m.get? other := by
  unfold insert
  split
  next present => exact lookup_replace m.entries id other value present
  next absent => exact lookup_append_single m.entries id other value absent

@[simp] theorem get?_insert_self (m : IdMap α) (id : CandidateId) (value : α) :
    (m.insert id value).get? id = some value := by
  rw [get?_insert, if_pos rfl]

theorem get?_insert_of_ne (m : IdMap α) {id other : CandidateId} (value : α) (differ : other ≠ id) :
    (m.insert id value).get? other = m.get? other := by
  rw [get?_insert, if_neg differ]

theorem entries_insert_of_not_mem {m : IdMap α} {id : CandidateId} (fresh : id ∉ m.keys)
    (value : α) : (m.insert id value).entries = m.entries ++ [(id, value)] := by
  simp [insert, fresh]

/-- Entries of new and pairwise distinct ids are appended as they stand. -/
theorem entries_insertAll_of_nodup {m : IdMap α} {entries : List (CandidateId × α)}
    (distinct : (entries.map Prod.fst).Nodup) (fresh : ∀ id ∈ entries.map Prod.fst, id ∉ m.keys) :
    (m.insertAll entries).entries = m.entries ++ entries := by
  induction entries generalizing m with
  | nil => exact (List.append_nil _).symm
  | cons entry entries ih =>
    obtain ⟨absent, distinct⟩ := List.nodup_cons.mp distinct
    have new : entry.1 ∉ m.keys := fresh entry.1 List.mem_cons_self
    have later : ∀ id ∈ entries.map Prod.fst, id ∉ (m.insert entry.1 entry.2).keys := by
      intro id member
      rw [mem_keys_insert]
      rintro (old | rfl)
      · exact fresh id (List.mem_cons_of_mem _ member) old
      · exact absent member
    calc (m.insertAll (entry :: entries)).entries
        = (m.insert entry.1 entry.2).entries ++ entries := ih distinct later
      _ = m.entries ++ entry :: entries := by
        rw [entries_insert_of_not_mem new, List.append_assoc]
        rfl

theorem ofList_entries (m : IdMap α) : ofList m.entries = m :=
  ext (entries_insertAll_of_nodup m.nodup fun _ _ => List.not_mem_nil)

theorem get?_insertAll {entries : List (CandidateId × α)} (distinct : (entries.map Prod.fst).Nodup)
    (m : IdMap α) (id : CandidateId) :
    (m.insertAll entries).get? id = (entries.lookup id).or (m.get? id) := by
  induction entries generalizing m with
  | nil => rfl
  | cons entry entries ih =>
    obtain ⟨absent, distinct⟩ := List.nodup_cons.mp distinct
    have later : (m.insertAll (entry :: entries)).get? id =
        (entries.lookup id).or ((m.insert entry.1 entry.2).get? id) := ih distinct _
    rw [later, List.lookup_cons, get?_insert]
    by_cases same : id = entry.1
    · subst same
      have unwritten : entries.lookup entry.1 = none := by
        rwa [← Option.isNone_iff_eq_none, ← Option.isSome_eq_false_iff, ← Bool.not_eq_true,
          isSome_lookup]
      simp [unwritten]
    · have differ : (id == entry.1) = false := by simpa using same
      simp [same, differ]

/-- Of two maps of which the second is written over the first, the second one counts. -/
theorem get?_insertAll_entries (m n : IdMap α) (id : CandidateId) :
    (m.insertAll n.entries).get? id = (n.get? id).or (m.get? id) := get?_insertAll n.nodup m id

@[simp] theorem keys_mapValues (f : α → β) (m : IdMap α) : (m.mapValues f).keys = m.keys := by
  simp only [keys, mapValues, List.map_map]
  rfl

private theorem lookup_map (f : α → β) (entries : List (CandidateId × α)) (id : CandidateId) :
    (entries.map fun entry => (entry.1, f entry.2)).lookup id = (entries.lookup id).map f := by
  induction entries with
  | nil => rfl
  | cons entry rest ih =>
    rw [List.map_cons, List.lookup_cons, List.lookup_cons]
    by_cases same : id = entry.1
    · simp [same]
    · have differ : (id == entry.1) = false := by simpa using same
      simp [differ, ih]

@[simp] theorem get?_mapValues (f : α → β) (m : IdMap α) (id : CandidateId) :
    (m.mapValues f).get? id = (m.get? id).map f := lookup_map f m.entries id

end IdMap

end Activation
