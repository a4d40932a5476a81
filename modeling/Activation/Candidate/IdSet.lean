import Activation.Candidate.Id

/-!
# Ordered sets of candidate ids

An `IdSet` lists each member once, in the order of first insertion. That order matters: placement
follows the edges of a candidate in the order in which they were declared, which decides where
unrelated candidates end up.
-/

namespace Activation

/-- A finite set of ids that remembers the order in which its members were first inserted. -/
structure IdSet where
  toList : List CandidateId
  nodup : toList.Nodup

namespace IdSet

@[ext] theorem ext {s t : IdSet} (same : s.toList = t.toList) : s = t := by
  cases s
  cases t
  cases same
  rfl

instance : DecidableEq IdSet := fun s t =>
  decidable_of_iff (s.toList = t.toList) ⟨IdSet.ext, fun h => h ▸ rfl⟩

instance : Membership CandidateId IdSet := ⟨fun s id => id ∈ s.toList⟩

instance (id : CandidateId) (s : IdSet) : Decidable (id ∈ s) :=
  inferInstanceAs (Decidable (id ∈ s.toList))

def empty : IdSet := ⟨[], List.nodup_nil⟩

instance : EmptyCollection IdSet := ⟨empty⟩

instance : Inhabited IdSet := ⟨empty⟩

def size (s : IdSet) : Nat := s.toList.length

def isEmpty (s : IdSet) : Bool := s.toList.isEmpty

/-- A new member goes last; a member that is already there keeps its place. -/
def insert (s : IdSet) (id : CandidateId) : IdSet :=
  if fresh : id ∈ s.toList then s
  else ⟨s.toList ++ [id], by
    refine List.nodup_append.mpr ⟨s.nodup, by simp, ?_⟩
    intro a member b single
    rw [List.mem_singleton.mp single]
    exact fun same => fresh (same ▸ member)⟩

def insertAll (s : IdSet) (ids : List CandidateId) : IdSet := ids.foldl insert s

/-- The set of the listed ids, in the order of their first occurrence. -/
def ofList (ids : List CandidateId) : IdSet := empty.insertAll ids

/-- Whether two sets have the same members, whatever the order. -/
def sameMembers (s t : IdSet) : Bool :=
  s.size == t.size && s.toList.all fun id => decide (id ∈ t)

theorem mem_toList {s : IdSet} {id : CandidateId} : id ∈ s.toList ↔ id ∈ s := Iff.rfl

@[simp] theorem toList_empty : (∅ : IdSet).toList = [] := rfl

@[simp] theorem not_mem_empty (id : CandidateId) : id ∉ (∅ : IdSet) := by
  intro member
  cases member

theorem isEmpty_iff {s : IdSet} : s.isEmpty = true ↔ s = ∅ := by
  constructor
  · intro h
    exact IdSet.ext (List.isEmpty_iff.mp h)
  · rintro rfl
    rfl

theorem insert_of_mem {s : IdSet} {id : CandidateId} (member : id ∈ s) : s.insert id = s := by
  unfold insert
  exact dif_pos member

theorem toList_insert_of_not_mem {s : IdSet} {id : CandidateId} (fresh : id ∉ s) :
    (s.insert id).toList = s.toList ++ [id] := by
  have absent : id ∉ s.toList := fresh
  simp [insert, absent]

theorem toList_insert (s : IdSet) (id : CandidateId) :
    (s.insert id).toList = if id ∈ s then s.toList else s.toList ++ [id] := by
  split
  next member => rw [insert_of_mem member]
  next fresh => exact toList_insert_of_not_mem fresh

@[simp] theorem mem_insert {s : IdSet} {a b : CandidateId} : a ∈ s.insert b ↔ a ∈ s ∨ a = b := by
  rw [← mem_toList, toList_insert]
  split
  next member =>
    constructor
    · exact Or.inl
    · rintro (old | rfl)
      · exact old
      · exact member
  next => simp [mem_toList]

@[simp] theorem insertAll_nil (s : IdSet) : s.insertAll [] = s := rfl

@[simp] theorem insertAll_cons (s : IdSet) (id : CandidateId) (ids : List CandidateId) :
    s.insertAll (id :: ids) = (s.insert id).insertAll ids := rfl

theorem insertAll_append (s : IdSet) (ids more : List CandidateId) :
    s.insertAll (ids ++ more) = (s.insertAll ids).insertAll more := List.foldl_append

@[simp] theorem mem_insertAll {s : IdSet} {a : CandidateId} {ids : List CandidateId} :
    a ∈ s.insertAll ids ↔ a ∈ s ∨ a ∈ ids := by
  induction ids generalizing s with
  | nil => simp
  | cons id ids ih => rw [insertAll_cons, ih, mem_insert, List.mem_cons, or_assoc]

@[simp] theorem mem_ofList {a : CandidateId} {ids : List CandidateId} :
    a ∈ ofList ids ↔ a ∈ ids := by
  unfold ofList
  rw [mem_insertAll]
  exact or_iff_right (not_mem_empty a)

/-- Ids that are new and pairwise distinct are appended as they stand. -/
theorem toList_insertAll_of_nodup {s : IdSet} {ids : List CandidateId} (distinct : ids.Nodup)
    (fresh : ∀ id ∈ ids, id ∉ s) : (s.insertAll ids).toList = s.toList ++ ids := by
  induction ids generalizing s with
  | nil => simp
  | cons id ids ih =>
    obtain ⟨absent, distinct⟩ := List.nodup_cons.mp distinct
    rw [insertAll_cons, ih distinct, toList_insert_of_not_mem (fresh id (by simp))]
    · simp
    · intro other member
      rw [mem_insert]
      rintro (old | rfl)
      · exact fresh other (by simp [member]) old
      · exact absent member

theorem toList_ofList_of_nodup {ids : List CandidateId} (distinct : ids.Nodup) :
    (ofList ids).toList = ids := by
  exact toList_insertAll_of_nodup distinct fun id _ => not_mem_empty id

theorem ofList_toList (s : IdSet) : ofList s.toList = s :=
  IdSet.ext (toList_ofList_of_nodup s.nodup)

end IdSet

end Activation
