import Activation.Proofs.AliasCosts

/-!
# The numbers of anchors

Anchors are numbered by their place in a document, so a node has other numbers in another place. Two
nodes are alike if they differ in nothing else (`Yaml.Node.Alike`). What is decoded does not depend
on the numbers: over two documents in which paired aliases stand for alike nodes, an index is
decoded from alike nodes alike, and at the same cost (`Format.Yaml.relates_readIndex`).
-/

namespace Activation

namespace Yaml.Node

/-- Nodes are alike if they differ only in the numbers of their anchors, where the numbers of their
aliases are paired. -/
inductive Alike (pairs : Nat → Nat → Prop) : Node → Node → Prop
  | reference {number number' : Nat} (paired : pairs number number') :
      Alike pairs (.reference number) (.reference number')
  | scalar (text : String) (style : Style) (tag : Option String) :
      Alike pairs (.scalar text style tag) (.scalar text style tag)
  | sequence {items items' : List Node} (alike : List.Forall₂ (Alike pairs) items items') :
      Alike pairs (.sequence items) (.sequence items')
  -- The keys apart from the values, because a relation on pairs cannot be nested here.
  | mapping {entries entries' : List (Node × Node)}
      (keys : List.Forall₂ (Alike pairs) (entries.map Prod.fst) (entries'.map Prod.fst))
      (values : List.Forall₂ (Alike pairs) (entries.map Prod.snd) (entries'.map Prod.snd)) :
      Alike pairs (.mapping entries) (.mapping entries')
  | anchored (number number' : Nat) {node node' : Node} (alike : Alike pairs node node') :
      Alike pairs (.anchored number node) (.anchored number' node')

variable {pairs : Nat → Nat → Prop}

theorem Alike.refl : ∀ node : Node, Alike Eq node node
  | .reference _ => .reference rfl
  | .scalar text style tag => .scalar text style tag
  | .sequence items => .sequence (reflItems items)
  | .mapping entries => .mapping (reflKeys entries) (reflValues entries)
  | .anchored number node => .anchored number number (Alike.refl node)
where
  reflItems : ∀ items : List Node, List.Forall₂ (Alike Eq) items items
    | [] => .nil
    | item :: items => .cons (Alike.refl item) (reflItems items)
  reflKeys : ∀ entries : List (Node × Node),
      List.Forall₂ (Alike Eq) (entries.map Prod.fst) (entries.map Prod.fst)
    | [] => .nil
    | (key, _) :: entries => .cons (Alike.refl key) (reflKeys entries)
  reflValues : ∀ entries : List (Node × Node),
      List.Forall₂ (Alike Eq) (entries.map Prod.snd) (entries.map Prod.snd)
    | [] => .nil
    | (_, value) :: entries => .cons (Alike.refl value) (reflValues entries)

mutual

theorem Alike.size_eq {node node' : Node} (alike : Alike pairs node node') :
    node.size = node'.size := by
  cases alike with
  | reference => rfl
  | scalar => rfl
  | sequence alike => exact congrArg (2 + ·) (sizeOfItems_eq alike)
  | mapping keys values => exact congrArg (2 + ·) (sizeOfEntries_eq keys values)
  | anchored _ _ alike => exact alike.size_eq

theorem sizeOfItems_eq {items items' : List Node}
    (alike : List.Forall₂ (Alike pairs) items items') :
    sizeOfItems items = sizeOfItems items' := by
  cases alike with
  | nil => rfl
  | cons first rest => rw [sizeOfItems, sizeOfItems, first.size_eq, sizeOfItems_eq rest]

theorem sizeOfEntries_eq {entries entries' : List (Node × Node)}
    (keys : List.Forall₂ (Alike pairs) (entries.map Prod.fst) (entries'.map Prod.fst))
    (values : List.Forall₂ (Alike pairs) (entries.map Prod.snd) (entries'.map Prod.snd)) :
    sizeOfEntries entries = sizeOfEntries entries' := by
  match entries, entries' with
  | [], [] => rfl
  | (key, value) :: entries, (key', value') :: entries' =>
    obtain ⟨key, keys⟩ := List.forall₂_cons.mp keys
    obtain ⟨value, values⟩ := List.forall₂_cons.mp values
    rw [sizeOfEntries, sizeOfEntries, key.size_eq, value.size_eq, sizeOfEntries_eq keys values]

end

/-- Entries correspond to each other if their keys and their values are related. -/
structure Corresponds {κ : Type} (K : κ → κ → Prop) (A : Node → Node → Prop)
    (entry entry' : κ × Node) : Prop where
  key : K entry.1 entry'.1
  value : A entry.2 entry'.2

theorem Alike.entries {entries entries' : List (Node × Node)}
    (alike : Alike pairs (.mapping entries) (.mapping entries')) :
    List.Forall₂ (Corresponds (Alike pairs) (Alike pairs)) entries entries' := by
  cases alike with
  | mapping keys values =>
    rw [List.forall₂_map_left_iff, List.forall₂_map_right_iff] at keys values
    induction keys with
    | nil => exact .nil
    | cons key _ ih =>
      obtain ⟨value, values⟩ := List.forall₂_cons.mp values
      exact .cons ⟨key, value⟩ (ih values)

/-- Paired aliases stand for alike nodes, or for none. -/
def AliasesAlike (pairs : Nat → Nat → Prop) (document document' : Node) : Prop :=
  ∀ number number', pairs number number' →
    Option.Rel (Alike pairs) (document.target? number) (document'.target? number')

theorem aliasesAlike_refl (document : Node) : AliasesAlike Eq document document := by
  rintro number - rfl
  cases document.target? number with
  | none => exact .none
  | some node => exact .some (.refl node)

end Yaml.Node

/-! ### Nodes -/

namespace Yaml.Decoder

open Yaml.Node

variable {pairs : Nat → Nat → Prop} {document document' : Node}

/-- An alias costs one. -/
theorem yields_reference (document : Node) (number : Nat) :
    Yields document (content (.reference number))
      ((document.target? number).map fun node => (node, 1)) := by
  intro left
  cases left with
  | zero => cases document.target? number <;> rfl
  | succ left => cases found : document.target? number <;> simp [content, found]

theorem relates_emptyList {α β : Type} {R : α → β → Prop} (text : String) (style : Style) :
    Relates document document' (List.Forall₂ R) (emptyList text style) (emptyList text style) := by
  rw [emptyList, emptyList]
  split
  · exact relates_pure .nil
  · exact relates_refuse

/-- What stands in the place of alike nodes is alike. -/
theorem relates_content (aliases : AliasesAlike pairs document document') {node node' : Node}
    (alike : Alike pairs node node') :
    Relates document document' (Alike pairs) (content node) (content node') := by
  cases alike with
  | @reference number number' paired =>
    have left := yields_reference document number
    have right := yields_reference document' number'
    have targets := aliases number number' paired
    generalize document.target? number = target at targets left
    generalize document'.target? number' = target' at targets right
    cases targets with
    | none => exact .refused left right
    | some alike => exact .given alike left right
  | scalar text style tag => exact relates_pure (.scalar text style tag)
  | sequence alike => exact relates_pure (.sequence alike)
  | mapping keys values => exact relates_pure (.mapping keys values)
  | anchored _ _ alike =>
    rw [content, content]
    exact relates_content aliases alike

variable {node node' : Node} (aliases : AliasesAlike pairs document document')
  (alike : Alike pairs node node')
include aliases

section

include alike

theorem relates_text : Relates document document' Eq (text node) (text node') := by
  refine (relates_content aliases alike).bind fun content content' alike => ?_
  cases alike with
  | scalar => exact relates_pure rfl
  | _ => exact relates_refuse

theorem relates_items :
    Relates document document' (List.Forall₂ (Alike pairs)) (items node) (items node') := by
  refine (relates_content aliases alike).bind fun content content' alike => ?_
  cases alike with
  | sequence alike => exact relates_pure alike
  | scalar text style => exact relates_emptyList text style
  | _ => exact relates_refuse

theorem relates_entries :
    Relates document document' (List.Forall₂ (Corresponds (Alike pairs) (Alike pairs)))
      (entries node) (entries node') := by
  refine (relates_content aliases alike).bind fun content content' alike => ?_
  cases alike with
  | mapping keys values => exact relates_pure (Alike.mapping keys values).entries
  | scalar text style => exact relates_emptyList text style
  | _ => exact relates_refuse

theorem relates_optionalInteger :
    Relates document document' Eq (optionalInteger node) (optionalInteger node') := by
  refine (relates_content aliases alike).bind fun content content' alike => ?_
  cases alike with
  | scalar text style tag =>
    dsimp only
    split
    · exact relates_pure rfl
    · exact relates_refuse
  | _ => exact relates_refuse

end

/-- What stands under names is related as all that stands in the mappings is. -/
theorem relates_fields {A : Node → Node → Prop} (names : List String)
    (related : Relates document document' (List.Forall₂ (Corresponds (Alike pairs) A))
      (entries node) (entries node')) :
    Relates document document' (List.Forall₂ (Option.Rel A)) (fields names node)
      (fields names node') := by
  refine related.bind fun entries entries' related => ?_
  refine (relates_mapM (S := Corresponds Eq A) (fun entry entry' related => ?_) related).bind ?_
  · refine (relates_text aliases related.key).bind fun name name' same => ?_
    exact relates_pure ⟨same, related.value⟩
  intro members members' related
  have same : List.Forall₂ Eq names names := List.forall₂_refl names
  refine relates_mapM (fun name name' same => ?_) same
  subst same
  have found : List.Forall₂ (Corresponds Eq A) (members.filter fun member => member.1 == name)
      (members'.filter fun member => member.1 == name) :=
    List.rel_filter (fun member member' related => by simp only [related.key]) related
  generalize (members.filter fun member => member.1 == name) = found at found
  generalize (members'.filter fun member => member.1 == name) = found' at found
  -- A name that is asked for stands for its value only where it stands once.
  rcases found with _ | ⟨⟨-, value⟩, _ | _⟩
  · exact relates_pure .none
  · exact relates_pure (.some value)
  · exact relates_refuse

end Yaml.Decoder

/-! ### Indexes -/

namespace Format.Yaml

open Activation.Yaml Activation.Yaml.Node Activation.Yaml.Decoder

variable {pairs : Nat → Nat → Prop} {document document' : Node}
  (aliases : AliasesAlike pairs document document')
include aliases

theorem relates_readId {node node' : Node} (alike : Alike pairs node node') :
    Relates document document' Eq (readId node) (readId node') :=
  (relates_text aliases alike).bind fun _ _ same => relates_pure (congrArg _ same)

theorem relates_readIds {node node' : Node} (alike : Alike pairs node node') :
    Relates document document' Eq (readIds node) (readIds node') := by
  refine (relates_items aliases alike).bind fun items items' alike => ?_
  have each (item item' : Node) (alike : Alike pairs item item') := relates_readId aliases alike
  refine (relates_mapM each alike).imp fun ids ids' same => ?_
  rwa [List.forall₂_eq_eq_eq] at same

theorem relates_readOrder {node node' : Node} (alike : Alike pairs node node') :
    Relates document document' Eq (readOrder node) (readOrder node') := by
  refine (relates_optionalInteger aliases alike).bind fun value value' same => ?_
  subst same
  cases value with
  | none => exact relates_pure rfl
  | some value =>
    dsimp only
    split
    · exact relates_pure rfl
    · exact relates_refuse

theorem relates_readEntry {node node' : Node} (alike : Alike pairs node node') :
    Relates document document' Eq (readEntry node) (readEntry node') := by
  have found := relates_fields aliases ["order", "before", "after", "replaced_by"]
    (relates_entries aliases alike)
  refine found.bind fun values values' related => ?_
  have ids (value value' : Option Node) (related : Option.Rel (Alike pairs) value value') :
      Relates document document' Eq (optional readIds [] value) (optional readIds [] value') :=
    relates_optional (fun _ _ alike => relates_readIds aliases alike) rfl related
  rcases related with _ | ⟨order, _ | ⟨before, _ | ⟨after, _ | ⟨replacedBy, _ | _⟩⟩⟩⟩
  case cons.cons.cons.cons.nil =>
    refine (relates_optional (fun _ _ alike => relates_readOrder aliases alike) rfl order).bind ?_
    rintro order - rfl
    refine (ids _ _ before).bind ?_
    rintro before - rfl
    refine (ids _ _ after).bind ?_
    rintro after - rfl
    refine (ids _ _ replacedBy).bind ?_
    rintro replacedBy - rfl
    exact relates_pure rfl
  all_goals exact relates_refuse

theorem relates_member {entry entry' : Node × Node}
    (related : Corresponds (Alike pairs) (Alike pairs) entry entry') :
    Relates document document' Eq
      (do return (← readId entry.1, ← readEntry entry.2))
      (do return (← readId entry'.1, ← readEntry entry'.2)) := by
  refine (relates_readId aliases related.key).bind ?_
  rintro id - rfl
  refine (relates_readEntry aliases related.value).bind ?_
  rintro entry - rfl
  exact relates_pure rfl

theorem relates_readEntries {node node' : Node} (alike : Alike pairs node node') :
    Relates document document' Eq (readEntries node) (readEntries node') := by
  refine (relates_entries aliases alike).bind fun entries entries' related => ?_
  have each (entry entry' : Node × Node)
      (related : Corresponds (Alike pairs) (Alike pairs) entry entry') :=
    relates_member aliases related
  refine (relates_mapM each related).bind fun members members' same => ?_
  rw [List.forall₂_eq_eq_eq] at same
  exact relates_pure (congrArg _ same)

/-- An index does not depend on how anchors are numbered. -/
theorem relates_readIndex {node node' : Node} (alike : Alike pairs node node') :
    Relates document document' Eq (readIndex node) (readIndex node') := by
  have found := relates_fields aliases ["candidates"] (relates_entries aliases alike)
  refine found.bind fun values values' related => ?_
  rcases related with _ | ⟨candidates, _ | _⟩
  · exact relates_refuse
  · exact relates_optional (fun _ _ alike => relates_readEntries aliases alike) rfl candidates
  · exact relates_refuse

end Format.Yaml

end Activation
