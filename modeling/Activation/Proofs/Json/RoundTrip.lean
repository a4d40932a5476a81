import Activation.Format.Index
import Activation.Proofs.Json.Tokens
import Mathlib.Data.List.Basic

/-!
# JSON round trips

What is written as JSON reads back as it was (`parse?_toJson`): an index with its entries in their
order and every list as it stands, a record with the order inside its sets.

Three inverses make up the result. The lexer finds the tokens of the written value
(`Json.Value.list?_render`), the reader builds the value from its tokens
(`Json.Value.ofTokens?_tokens`), and the decoder takes the members of an object from where the
encoder put them (`Format.Json.fields?_record`).
-/

namespace Activation

namespace Json.Value

open Reader

/-! ### From tokens to values -/

/-- The reader can start a value, which belongs to these containers. -/
def Starts (r : Reader) (containers : List Container) : Prop :=
  ∀ token, token ≠ .closeBracket → r.next? token = begin? containers token

theorem starts_value (containers : List Container) : Starts ⟨containers, .value⟩ containers := by
  intro token _
  rfl

theorem starts_firstItem (outer : List Container) :
    Starts ⟨.array [] :: outer, .firstItem⟩ (.array [] :: outer) := by
  intro token open_
  cases token with
  | closeBracket => exact absurd rfl open_
  | _ => rfl

/-- Taking a token, if the reader accepts it. -/
theorem foldlM_cons {r s : Reader} {token : Token} (taken : r.next? token = some s)
    (tokens : List Token) : (token :: tokens).foldlM next? r = tokens.foldlM next? s := by
  rw [List.foldlM_cons, taken]
  rfl

mutual

/-- Where a value can start, its tokens supply the value to the open containers. -/
theorem foldlM_tokens : ∀ (v : Value) {r : Reader} {outer : List Container}, Starts r outer →
    ∀ rest, (v.tokens ++ rest).foldlM next? r = rest.foldlM next? (supply v outer)
  | .null, _, _, starts, rest => foldlM_cons (starts .null nofun) rest
  | .bool value, _, _, starts, rest => foldlM_cons (starts (.bool value) nofun) rest
  | .number value, _, _, starts, rest => foldlM_cons (starts (.number value) nofun) rest
  | .string text, _, _, starts, rest => foldlM_cons (starts (.string text) nofun) rest
  | .array [], _, _, starts, rest => by
    simp only [tokens, List.cons_append, List.nil_append]
    rw [foldlM_cons (starts .openBracket nofun), foldlM_cons rfl]
  | .array (item :: items), _, outer, starts, rest => by
    -- The first item starts right behind the bracket; the others go on where it left the reader.
    simp only [tokens, List.cons_append, List.append_assoc]
    rw [foldlM_cons (starts .openBracket nofun), foldlM_tokens item (starts_firstItem _)]
    exact foldlM_itemTokens items [item] outer rest
  | .object [], _, _, starts, rest => by
    simp only [tokens, List.cons_append, List.nil_append]
    rw [foldlM_cons (starts .openBrace nofun), foldlM_cons rfl]
  | .object ((name, value) :: members), _, outer, starts, rest => by
    simp only [tokens, List.cons_append, List.append_assoc]
    rw [foldlM_cons (starts .openBrace nofun), foldlM_cons rfl, foldlM_cons rfl,
      foldlM_tokens value (starts_value _)]
    exact foldlM_memberTokens members [(name, value)] name outer rest

/-- The items that are read stand in reverse in the innermost container. -/
theorem foldlM_itemTokens : ∀ (items read : List Value) (outer : List Container)
    (rest : List Token),
    (itemTokens items ++ rest).foldlM next? ⟨.array read :: outer, .separator⟩ =
      rest.foldlM next? (supply (.array (read.reverse ++ items)) outer)
  | [], read, outer, rest => by
    simp only [itemTokens, List.cons_append, List.nil_append, List.append_nil]
    exact foldlM_cons rfl rest
  | item :: items, read, outer, rest => by
    have others := foldlM_itemTokens items (item :: read) outer rest
    rw [List.reverse_cons, List.append_assoc] at others
    simp only [itemTokens, List.cons_append, List.append_assoc]
    rw [foldlM_cons rfl, foldlM_tokens item (starts_value _)]
    exact others

theorem foldlM_memberTokens : ∀ (members read : List (Option String × Value)) (name : Option String)
    (outer : List Container) (rest : List Token),
    (memberTokens members ++ rest).foldlM next? ⟨.object read name :: outer, .separator⟩ =
      rest.foldlM next? (supply (.object (read.reverse ++ members)) outer)
  | [], read, _, outer, rest => by
    simp only [memberTokens, List.cons_append, List.nil_append, List.append_nil]
    exact foldlM_cons rfl rest
  | (name, value) :: members, read, _, outer, rest => by
    have others := foldlM_memberTokens members ((name, value) :: read) name outer rest
    rw [List.reverse_cons, List.append_assoc] at others
    simp only [memberTokens, List.cons_append, List.append_assoc]
    rw [foldlM_cons rfl, foldlM_cons rfl, foldlM_cons rfl, foldlM_tokens value (starts_value _)]
    exact others

end

theorem ofTokens?_tokens (v : Value) : ofTokens? v.tokens = some v := by
  have read := foldlM_tokens v (starts_value []) []
  rw [List.append_nil] at read
  simp only [ofTokens?, start, read]
  rfl

/-- Every value reads back from its text. -/
theorem parse?_text (v : Value) : parse? v.text = some v := by
  have tokens := list?_render v Token.delimited_nil
  rw [List.append_nil, Token.list?_nil, Option.map_some, List.append_nil] at tokens
  simp only [parse?, text, String.toList_ofList, tokens, Option.bind_eq_bind, Option.bind_some,
    ofTokens?_tokens]

end Json.Value

/-! ### From values to indexes and records -/

theorem orderValue?_toInt (n : Int32) : orderValue? n.toInt = some n := by
  have low : highestPrecedence.toInt ≤ n.toInt := by
    rw [highestPrecedence, Int32.toInt_minValue]
    exact n.le_toInt
  have high : n.toInt ≤ lowestPrecedence.toInt := by
    rw [lowestPrecedence, Int32.toInt_maxValue]
    have := n.toInt_lt
    omega
  rw [orderValue?, if_pos ⟨low, high⟩, Int32.ofInt_toInt]

namespace Format.Json

open Activation.Json

/-- Reading what each item is written as keeps the items. -/
theorem mapM_map {α β γ : Type} {write : γ → α} {read? : α → Option β} {keep : γ → β} {xs : List γ}
    (each : ∀ x ∈ xs, read? (write x) = some (keep x)) :
    (xs.map write).mapM read? = some (xs.map keep) := by
  induction xs with
  | nil => rfl
  | cons x xs ih =>
    rw [List.map_cons, List.mapM_cons, each x List.mem_cons_self,
      ih fun y later => each y (List.mem_cons_of_mem _ later)]
    rfl

/-- Of members with distinct names just one answers to its name. -/
theorem filter_map_name {members : List (String × Value)} {name : String} {value : Value}
    (distinct : (members.map Prod.fst).Nodup) (member : (name, value) ∈ members) :
    (members.map fun (name, value) => (some name, value)).filter
      (fun member => member.1 == some name) = [(some name, value)] := by
  induction members with
  | nil => cases member
  | cons first members ih =>
    obtain ⟨absent, distinct⟩ := List.nodup_cons.mp distinct
    rcases List.mem_cons.mp member with rfl | later
    · have others : members.filter (fun other => some other.1 == some name) = [] := by
        rw [List.filter_eq_nil_iff]
        intro other found same
        exact absent (List.mem_map.mpr ⟨other, found, by simpa using same⟩)
      rw [List.map_cons, List.filter_cons_of_pos (by simp), List.filter_map]
      exact congrArg (fun others => (some name, value) :: List.map _ others) others
    · have differ : first.1 ≠ name := fun same =>
        absent (List.mem_map.mpr ⟨_, later, same.symm⟩)
      rw [List.map_cons, List.filter_cons_of_neg (by simpa using differ)]
      exact ih distinct later

/-- An object with distinct names holds each of them where it is asked for. -/
theorem fields?_record (members : List (String × Value))
    (distinct : (members.map Prod.fst).Nodup) :
    fields? (members.map Prod.fst) (record members) =
      some (members.map fun member => some member.2) := by
  simp only [fields?, record, members?]
  -- Every name is text.
  rw [if_pos (by simp)]
  apply mapM_map
  rintro ⟨name, value⟩ member
  simp only [filter_map_name distinct member]

theorem readIds?_ofIds (ids : List CandidateId) : readIds? (ofIds ids) = some ids := by
  have read : (ids.map ofId).mapM readId? = some (ids.map id) := mapM_map fun _ _ => rfl
  rwa [List.map_id] at read

theorem readInt32?_ofInt32 (n : Int32) : readInt32? (ofInt32 n) = some n := orderValue?_toInt n

theorem readOrder?_ofOrder (order : Option Int32) :
    readOrder? ((order.map ofInt32).getD .null) = some order := by
  cases order with
  | none => rfl
  | some n =>
    show (readInt32? (ofInt32 n)).map some = _
    rw [readInt32?_ofInt32]
    rfl

theorem readEntry?_ofEntry (entry : IndexEntry) : readEntry? (ofEntry entry) = some entry := by
  have fields := fields?_record [("order", (entry.order.map ofInt32).getD .null),
    ("before", ofIds entry.before), ("after", ofIds entry.after),
    ("replaced_by", ofIds entry.replacedBy)] (by simp)
  simp only [List.map_cons, List.map_nil] at fields
  simp only [ofEntry, readEntry?, fields, Option.bind_eq_bind, Option.bind_some, optional?,
    readOrder?_ofOrder, readIds?_ofIds]
  rfl

theorem readEntries?_entries (index : CandidateIndex) :
    readEntries? (record
      (index.candidates.entries.map fun (id, entry) => (id.text, ofEntry entry))) = some index := by
  have read : (index.candidates.entries.map fun (id, entry) => (some id.text, ofEntry entry)).mapM
      (fun (member : Option String × Value) => do
        return (CandidateId.mk (← member.1), ← readEntry? member.2)) =
      some (index.candidates.entries.map id) := by
    apply mapM_map
    intro entry _
    simp only [readEntry?_ofEntry]
    rfl
  rw [List.map_id] at read
  simp only [readEntries?, record, List.map_map, Function.comp_def]
  -- Written entries have distinct ids, so writing them one after another leaves the same map.
  have same := congrArg (fun candidates => some (CandidateIndex.mk candidates))
    (IdMap.ofList_entries index.candidates)
  exact (congrArg (Option.bind · (some <| CandidateIndex.ofEntries ·)) read).trans same

theorem readIndex?_ofIndex (index : CandidateIndex) : readIndex? (ofIndex index) = some index := by
  have fields := fields?_record [("candidates", record
    (index.candidates.entries.map fun (id, entry) => (id.text, ofEntry entry)))] (by simp)
  simp only [List.map_cons, List.map_nil] at fields
  simp only [readIndex?, ofIndex, fields, Option.bind_eq_bind, Option.bind_some, optional?,
    readEntries?_entries]

theorem readRecord?_ofRecord (r : CandidateRecord) : readRecord? (ofRecord r) = some r := by
  have fields := fields?_record [("id", ofId r.id), ("order", ofInt32 r.order),
    ("before", ofIds r.before.toList), ("after", ofIds r.after.toList),
    ("replacements", ofIds r.replacements.toList), ("available", .bool r.available)] (by simp)
  have readId : readId? (ofId r.id) = some r.id := rfl
  -- The sets are written as lists without repetitions, so they come back in their order.
  simp only [List.map_cons, List.map_nil] at fields
  simp only [readRecord?, ofRecord, fields, Option.bind_eq_bind, Option.bind_some, readId,
    readInt32?_ofInt32, readIds?_ofIds, IdSet.ofList_toList]
  rfl

end Format.Json

/-- Indexes and records read back from their JSON text as they were written. -/
theorem parse?_toJson :
    (∀ index : CandidateIndex, IndexFormat.json.parse? index.toJson = some index) ∧
      ∀ r : CandidateRecord, CandidateRecord.ofJson? r.toJson = some r := by
  constructor
  · intro index
    show (Json.Value.parse? (Format.Json.ofIndex index).text >>= Format.Json.readIndex?) = _
    rw [Json.Value.parse?_text, Option.bind_eq_bind, Option.bind_some,
      Format.Json.readIndex?_ofIndex]
  · intro r
    show (Json.Value.parse? (Format.Json.ofRecord r).text >>= Format.Json.readRecord?) = _
    rw [Json.Value.parse?_text, Option.bind_eq_bind, Option.bind_some,
      Format.Json.readRecord?_ofRecord]

end Activation
