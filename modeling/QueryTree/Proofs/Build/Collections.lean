import QueryTree.Proofs.Build.Slots

/-!
# Collections are named like variables

Two patterns say what may stand as a name: one for variables, and one for collections that allows
an underscore before the name of a variable. The underscore adds nothing, for a name may begin with
one anyway, and so the two are one language (`collectionText_iff`).

What is offered as a collection is a string of that language or it is refused, and the error is
always about the name of a collection (`Operand.topic_of_toCollection`). All four modifications
ask this of their last slot and nothing else of it (`Draft.build_eq_ok_iff_collection`).
-/

set_option autoImplicit false

namespace QueryTree

/-! ## The language of names -/

theorem collectionText_iff {text : List Char} : CollectionText text ↔ IdentifierText text :=
  ⟨.of_collection, .bare⟩

/-- **The underscore of a collection's name adds nothing.** -/
theorem isCollectionName_iff_identifierText {name : String} :
    isCollectionName name = true ↔ IdentifierText name.toList :=
  isCollectionName_iff.trans collectionText_iff

/-- What is wrong with a text that is no name: there is nothing in it, or a foreign character at
    some place, or a digit at the first. -/
theorem not_identifierText_iff {text : List Char} :
    ¬ IdentifierText text ↔
      text = [] ∨ (∃ c ∈ text, ¬ (IsLetter c ∨ IsDecimal c ∨ c = '_')) ∨
        ∃ c ∈ text.head?, IsDecimal c := by
  constructor
  · intro h
    cases text with
    | nil => exact .inl rfl
    | cons c rest =>
      by_contra hnone
      rw [not_or, not_or] at hnone
      obtain ⟨-, hforeign, hdigit⟩ := hnone
      have hparts : ∀ d ∈ c :: rest, IsLetter d ∨ IsDecimal d ∨ d = '_' := fun d hd =>
        by_contra fun hbad => hforeign ⟨d, hd, hbad⟩
      have hstart : IsLetter c ∨ c = '_' := by
        rcases hparts c List.mem_cons_self with hc | hc | hc
        · exact .inl hc
        · exact absurd ⟨c, rfl, hc⟩ hdigit
        · exact .inr hc
      exact h (.mk hstart fun d hd => hparts d (List.mem_cons_of_mem _ hd))
  · rintro (rfl | ⟨c, hc, hforeign⟩ | ⟨c, hc, hdigit⟩) h
    · cases h
    · exact hforeign (isWordPart_iff.1 (h.isWordPart c hc))
    · obtain ⟨d, rest, rfl, hstart⟩ := h.exists_cons
      cases hc
      exact not_isDecimal_of_isWordStart hstart hdigit

/-! ## What is accepted as a collection -/

namespace Operand

variable {given : Operand} {name : String} {why : BuildError}

theorem toCollection_eq_ok_iff :
    given.toCollection = .ok name ↔ given = .value (.string name) ∧ IdentifierText name.toList := by
  unfold toCollection
  split
  · next text =>
    rw [collectionName, ← isCollectionName_iff_identifierText]
    split
    · next hspelled =>
      constructor
      · intro h
        cases h
        exact ⟨rfl, hspelled⟩
      · rintro ⟨h, -⟩
        cases h
        rfl
    · next hspelled =>
      refine ⟨fun h => (by cases h), ?_⟩
      rintro ⟨h, hname⟩
      cases h
      exact absurd hname hspelled
  · next hstring => exact ⟨fun h => (by cases h), fun h => absurd h.1 (hstring name)⟩

theorem toCollection_string_eq_error_iff :
    (value (.string name)).toCollection = .error why ↔
      ¬ IdentifierText name.toList ∧ why = .badCollection name := by
  rw [toCollection, collectionName, ← isCollectionName_iff_identifierText]
  split
  · next h => simp [h]
  · next h => simp [h, eq_comm]

theorem topic_of_toCollection (h : given.toCollection = .error why) :
    why.topic = .collectionName :=
  Slot.topic_of_refused (s := .collection given) (map_eq_error.2 h)

end Operand

theorem Expr.ofIdentifier_accepts_iff {name : String} :
    (∃ e, ofIdentifier name = .ok e) ↔ IdentifierText name.toList := by
  simp only [ofIdentifier, bind_pure_eq_ok, variableName_eq_ok_iff]
  constructor
  · rintro ⟨e, name', ⟨rfl, hname⟩, rfl⟩
    exact hname
  · intro hname
    exact ⟨_, name, ⟨rfl, hname⟩, rfl⟩

theorem Expr.ofCollection_eq_ok_iff {given : Operand} {e : Expr} :
    ofCollection given = .ok e ↔
      ∃ name, given = .value (.string name) ∧ IdentifierText name.toList ∧
        .collection name = e := by
  rw [ofCollection, bind_pure_eq_ok]
  simp only [Operand.toCollection_eq_ok_iff, and_assoc]

theorem Expr.ofCollection_eq_error_iff {given : Operand} {why : BuildError} :
    ofCollection given = .error why ↔ given.toCollection = .error why :=
  bind_pure_eq_error

/-! ## Modifications -/

namespace Draft

/-- What is offered as the collection of a modification. -/
def collection? : Draft → Option Operand
  | .remove _ collection | .insert _ collection | .modify _ _ _ collection => some collection
  | .forIn .. | .filter _ | .bind .. | .ret .. => none

/-- The slots of a call that adds the clause, but for that of the collection. -/
def slotsBefore (draft : Draft) (before : Option Expr) : List Slot :=
  .predecessor before :: draft.slots.dropLast

variable {draft : Draft} {given : Operand} {before : Option Expr}

/-- The collection of a modification is its last slot. -/
theorem slots_eq_of_collection? (h : draft.collection? = some given) (before : Option Expr) :
    .predecessor before :: draft.slots = draft.slotsBefore before ++ [.collection given] := by
  have hlast : draft.slots = draft.slots.dropLast ++ [.collection given] := by
    cases draft with
    | forIn | filter | bind | ret => cases h
    | remove | insert =>
      cases h
      rfl
    | modify verb target change collection =>
      cases h
      rw [slots, ← List.cons_append, List.dropLast_concat]
  rw [slotsBefore, List.cons_append, ← hlast]

theorem build_eq_ok_iff_collection (h : draft.collection? = some given) :
    (∃ q, draft.build before = .ok q) ↔
      (∀ s ∈ draft.slotsBefore before, s.Valid) ∧ ∃ e, Expr.ofCollection given = .ok e := by
  have hcollection : (∃ e, Expr.ofCollection given = .ok e) ↔ (Slot.collection given).Valid := by
    simp only [Expr.ofCollection_eq_ok_iff, Slot.Valid, Operand.toCollection_eq_ok_iff]
    constructor
    · rintro ⟨e, name, hgiven, hname, -⟩
      exact ⟨name, hgiven, hname⟩
    · rintro ⟨name, hgiven, hname⟩
      exact ⟨_, name, hgiven, hname, rfl⟩
  rw [(draft.tries_build before).accepted_iff, slots_eq_of_collection? h, List.forall_mem_append,
    hcollection]
  simp only [Slot.accepted_iff, List.forall_mem_singleton]

theorem build_eq_error_iff_collection (h : draft.collection? = some given) {why : BuildError}
    (hbefore : ∀ s ∈ draft.slotsBefore before, s.Valid) :
    draft.build before = .error why ↔ Expr.ofCollection given = .error why := by
  have haccepted : ∀ s ∈ draft.slotsBefore before, ∃ u, s.check = .ok u := fun s hs =>
    s.accepted_iff.2 (hbefore s hs)
  rw [(draft.tries_build before).refused_iff, slots_eq_of_collection? h,
    firstRefused_concat_iff haccepted, Slot.check, map_eq_error, Expr.ofCollection_eq_error_iff]

end Draft

/-- **A collection is named by the string of an identifier, and by nothing else.** The leaf is
    written as that string. Any other string is refused, and so is any other operand, for its name
    as a collection. A modification accepts the same collections, and refuses the others for the
    same reason. -/
theorem Operand.collection_iff_identifier (given : Operand) :
    ((∃ e, Expr.ofCollection given = .ok e) ↔
      ∃ name, given = .value (.string name) ∧ ∃ e, Expr.ofIdentifier name = .ok e) ∧
    (∀ e, Expr.ofCollection given = .ok e →
      ∃ name, given = .value (.string name) ∧ e = .collection name ∧ e.text = name) ∧
    (∀ why, Expr.ofCollection given = .error why → why.topic = .collectionName) ∧
    (∀ name, (∃ why, Expr.ofCollection (.value (.string name)) = .error why) ↔
      name.toList = [] ∨ (∃ c ∈ name.toList, ¬ (IsLetter c ∨ IsDecimal c ∨ c = '_')) ∨
        ∃ c ∈ name.toList.head?, IsDecimal c) ∧
    ∀ (before : Option Expr) (draft : Draft), draft.collection? = some given →
      ((∃ q, draft.build before = .ok q) ↔
        (∀ s ∈ draft.slotsBefore before, s.Valid) ∧ ∃ e, Expr.ofCollection given = .ok e) ∧
      ((∀ s ∈ draft.slotsBefore before, s.Valid) → ∀ why,
        draft.build before = .error why ↔ Expr.ofCollection given = .error why) := by
  refine ⟨?_, fun e he => ?_, fun why hwhy => ?_, fun name => ?_, fun before draft h => ?_⟩
  · simp only [Expr.ofCollection_eq_ok_iff, Expr.ofIdentifier_accepts_iff]
    constructor
    · rintro ⟨e, name, hgiven, hname, -⟩
      exact ⟨name, hgiven, hname⟩
    · rintro ⟨name, hgiven, hname⟩
      exact ⟨_, name, hgiven, hname, rfl⟩
  · obtain ⟨name, hgiven, -, rfl⟩ := Expr.ofCollection_eq_ok_iff.1 he
    exact ⟨name, hgiven, rfl, String.ofList_toList⟩
  · exact topic_of_toCollection (Expr.ofCollection_eq_error_iff.1 hwhy)
  · simp only [← not_identifierText_iff, Expr.ofCollection_eq_error_iff,
      toCollection_string_eq_error_iff]
    exact ⟨fun ⟨_, hname, _⟩ => hname, fun hname => ⟨_, hname, rfl⟩⟩
  · exact ⟨Draft.build_eq_ok_iff_collection h, fun hbefore why =>
      Draft.build_eq_error_iff_collection h hbefore⟩

/-- A name that begins with underscores, a letter of another script, and a removal from a node. -/
theorem Operand.collection_iff_identifier_removal :
    let removal (collection : Operand) : Draft := .remove (.value (.string "doc")) collection
    (∃ e, Expr.ofCollection (.value (.string "__1")) = .ok e ∧ e.text = "__1") ∧
    (∃ why, Expr.ofCollection (.value (.string "usérs")) = .error why ∧
      why.topic = .collectionName) ∧
    (removal (.expr (.identifier "users"))).build none =
      .error (.notCollection (.expr (.identifier "users"))) := by
  intro removal
  refine ⟨?_, ?_, ?_⟩
  · obtain ⟨haccepted, htext, -⟩ := collection_iff_identifier (.value (.string "__1"))
    obtain ⟨e, he⟩ := haccepted.2 ⟨_, rfl, .identifier "__1", rfl⟩
    obtain ⟨name, hname, -, htext⟩ := htext e he
    cases hname
    exact ⟨e, he, htext⟩
  · obtain ⟨-, -, htopic, hrefused, -⟩ := collection_iff_identifier (.value (.string "usérs"))
    obtain ⟨why, hwhy⟩ := (hrefused "usérs").2
      (.inr (.inl ⟨'é', by decide, by simp only [← isWordPart_iff]; decide⟩))
    exact ⟨why, hwhy, htopic why hwhy⟩
  · obtain ⟨-, -, -, -, hbuild⟩ := collection_iff_identifier (.expr (.identifier "users"))
    refine ((hbuild none (removal _) rfl).2 ?_ _).2 rfl
    simp only [Draft.slotsBefore, Draft.slots, removal, List.dropLast, List.forall_mem_cons,
      List.not_mem_nil, false_implies, implies_true, and_true]
    exact ⟨by simp [Slot.Valid], ⟨.identifier "doc", rfl⟩⟩

end QueryTree
