import QueryTree.Proofs.Tree.Parts

/-!
# A tree with one place open

A `Frame` is a node without one of its parts, and a `Context` is a tree without one node at any
depth: the frames on the way from the open place to the root. Three sorts of nodes can be left out.

* An operand (`OperandPlace`): of an operation, a list, an object, or the last clause of a query.
  Its place takes every node.
* The options of a clause, as the object that they are.
* The query that a clause follows.

A node is properly within another if and only if it is what a context of that tree leaves out
(`Expr.properlyWithin_iff`). So what holds of all contexts holds of all places in all trees.
-/

set_option autoImplicit false

namespace QueryTree

/-! ## Frames -/

/-- A clause with one operand left out. -/
inductive ClausePlace
  | forIn (name : String)
  | filter
  | bind (name : String)
  | ret (distinct : Bool)
  | remove (collection : String) (options : Option (Entries Expr))
  | insert (collection : String) (options : Option (Entries Expr))
  | target (verb : Verb) (change : Option Expr) (collection : String)
    (options : Option (Entries Expr))
  | change (verb : Verb) (target : Expr) (collection : String) (options : Option (Entries Expr))

def ClausePlace.fill (x : Expr) : ClausePlace → Clause
  | .forIn name => .forIn name x
  | .filter => .filter x
  | .bind name => .bind name x
  | .ret distinct => .ret distinct x
  | .remove collection options => .remove x collection options
  | .insert collection options => .insert x collection options
  | .target verb given collection options => .modify verb x given collection options
  | .change verb e collection options => .modify verb e (some x) collection options

/-- A node with one operand left out. -/
inductive OperandPlace
  | unary (op : UnaryOp)
  | left (op : BinaryOp) (right : Expr)
  | right (op : BinaryOp) (left : Expr)
  | condition (yes no : Expr)
  | yes (condition no : Expr)
  | no (condition yes : Expr)
  | argument (function : String) (before after : List Expr)
  | item (before after : List Expr)
  | value (key : String) (before after : Entries Expr)
  | clause (before : Option Query) (place : ClausePlace)

def OperandPlace.fill (x : Expr) : OperandPlace → Expr
  | .unary op => .unary op x
  | .left op r => .binary op x r
  | .right op l => .binary op l x
  | .condition y n => .conditional x y n
  | .yes c n => .conditional c x n
  | .no c y => .conditional c y x
  | .argument function before after => .call function (before ++ x :: after)
  | .item before after => .list (before ++ x :: after)
  | .value key before after => .object (before ++ (key, x) :: after)
  | .clause before place => .query (.follow before (place.fill x))

/-- A node with one part left out. -/
inductive Frame
  | operand (place : OperandPlace)
  | options (before : Option Query) (c : Clause)
  | predecessor (c : Clause)

/-- The node with `x` in the open place, if `x` fits: options are an object, and only a query can be
    followed. -/
def Frame.fill? (x : Expr) : Frame → Option Expr
  | .operand place => some (place.fill x)
  | .options before c =>
    match x with
    | .object entries => c.setOptions?.map fun set => .query (.follow before (set entries))
    | _ => none
  | .predecessor c =>
    match x with
    | .query q => some (.query (.andThen q c))
    | _ => none

/-- Frames around an open place, from the inside out. -/
abbrev Context := List Frame

def Context.fill? (x : Expr) (C : Context) : Option Expr := C.foldlM Frame.fill? x

/-! ## What fits -/

namespace Frame

variable {x e : Expr} {before : Option Query} {c : Clause}

theorem fill?_options_eq_some_iff :
    (options before c).fill? x = some e ↔
      ∃ entries set, x = .object entries ∧ c.setOptions? = some set ∧
        .query (.follow before (set entries)) = e := by
  cases x <;> simp [fill?]

theorem fill?_predecessor_eq_some_iff :
    (predecessor c).fill? x = some e ↔ ∃ q, x = .query q ∧ .query (.andThen q c) = e := by
  cases x <;> simp [fill?]

end Frame

/-! ## Kinds -/

theorem ClausePlace.kind_fill (place : ClausePlace) (x y : Expr) :
    (place.fill x).kind = (place.fill y).kind := by
  cases place with
  | remove _ options => cases options <;> rfl
  | _ => rfl

theorem Clause.kind_setOptions? {c : Clause} {set : Entries Expr → Clause}
    (h : c.setOptions? = some set) (options options' : Entries Expr) :
    (set options).kind = (set options').kind := by
  unfold setOptions? at h
  split at h <;> cases h <;> rfl

theorem Expr.kind_follow (before : Option Query) (c : Clause) :
    (query (.follow before c)).kind = c.kind := by
  cases before <;> rfl

/-- The kind of a node is settled while one place of it is open. -/
theorem Frame.exists_kind_fill? (F : Frame) :
    ∃ kind, ∀ x e, F.fill? x = some e → e.kind = kind := by
  cases F with
  | operand place =>
    refine ⟨(place.fill .null).kind, fun x e hx => ?_⟩
    cases hx
    cases place with
    | clause before place =>
      simp only [OperandPlace.fill, Expr.kind_follow]
      exact place.kind_fill x .null
    | _ => rfl
  | options before c =>
    cases hset : c.setOptions? with
    | none => exact ⟨.leaf, fun x e hx => by simp [fill?_options_eq_some_iff, hset] at hx⟩
    | some set =>
      refine ⟨(set []).kind, fun x e hx => ?_⟩
      obtain ⟨entries, set', rfl, hset', rfl⟩ := fill?_options_eq_some_iff.1 hx
      cases hset.symm.trans hset'
      rw [Expr.kind_follow]
      exact Clause.kind_setOptions? hset _ _
  | predecessor c =>
    refine ⟨c.kind, fun x e hx => ?_⟩
    obtain ⟨q, rfl, rfl⟩ := fill?_predecessor_eq_some_iff.1 hx
    rfl

/-! ## Contexts -/

namespace Context

variable {x y e : Expr} {F : Frame} {C : Context}

theorem fill?_cons : fill? x (F :: C) = (F.fill? x).bind fun s => C.fill? s := by
  rw [fill?, List.foldlM_cons]
  rfl

theorem fill?_cons_eq_some_iff :
    fill? x (F :: C) = some e ↔ ∃ s, F.fill? x = some s ∧ C.fill? s = some e := by
  rw [fill?_cons, Option.bind_eq_some_iff]

theorem fill?_singleton : fill? x [F] = F.fill? x := by
  rw [fill?_cons]
  exact Option.bind_fun_some _

/-- What a frame makes of two nodes fits into the same frames. -/
theorem isSome_fill?_of_fill? {f : Expr} (hx : F.fill? x = some e) (hy : F.fill? y = some f)
    (G : Frame) : (G.fill? e).isSome = (G.fill? f).isSome := by
  cases F with
  | operand place =>
    cases hx
    cases hy
    cases place <;> cases G <;> simp [Frame.fill?, OperandPlace.fill]
  | options before c =>
    obtain ⟨_, _, rfl, -, rfl⟩ := Frame.fill?_options_eq_some_iff.1 hx
    obtain ⟨_, _, rfl, -, rfl⟩ := Frame.fill?_options_eq_some_iff.1 hy
    cases G <;> rfl
  | predecessor c =>
    obtain ⟨_, rfl, rfl⟩ := Frame.fill?_predecessor_eq_some_iff.1 hx
    obtain ⟨_, rfl, rfl⟩ := Frame.fill?_predecessor_eq_some_iff.1 hy
    cases G <;> rfl

/-- Whether a node fits into a context depends on the innermost frame alone, once any node does. -/
theorem isSome_fill?_cons {f : Expr} (h : fill? x (F :: C) = some e) (hy : F.fill? y = some f) :
    (fill? y (F :: C)).isSome = true := by
  obtain ⟨s, hs, hC⟩ := fill?_cons_eq_some_iff.1 h
  rw [fill?_cons, hy, Option.bind_some]
  induction C generalizing F x y s f with
  | nil => rfl
  | cons G C ih =>
    obtain ⟨t, ht, hrest⟩ := fill?_cons_eq_some_iff.1 hC
    have hfits : (G.fill? f).isSome = true := by
      rw [← isSome_fill?_of_fill? hs hy G, ht]
      rfl
    obtain ⟨u, hu⟩ := Option.isSome_iff_exists.1 hfits
    rw [fill?_cons, hu, Option.bind_some]
    exact ih hC hu t ht hrest

end Context

/-! ## Every place is open in some context -/

theorem mem_optionNodes_iff {s : Expr} {options : Option (Entries Expr)} :
    s ∈ optionNodes options ↔ ∃ entries, s = .object entries ∧ options = some entries := by
  cases options <;> simp [optionNodes]

theorem Clause.mem_parts_iff {s : Expr} {c : Clause} :
    s ∈ c.parts ↔
      (∃ place : ClausePlace, place.fill s = c) ∨
        ∃ entries d set, s = .object entries ∧ setOptions? d = some set ∧ set entries = c := by
  constructor
  · intro h
    cases c with
    | forIn name e => exact .inl ⟨.forIn name, by rw [List.mem_singleton.1 h]; rfl⟩
    | filter e => exact .inl ⟨.filter, by rw [List.mem_singleton.1 h]; rfl⟩
    | bind name e => exact .inl ⟨.bind name, by rw [List.mem_singleton.1 h]; rfl⟩
    | ret distinct e => exact .inl ⟨.ret distinct, by rw [List.mem_singleton.1 h]; rfl⟩
    | remove e collection options =>
      rcases List.mem_cons.1 h with rfl | h
      · exact .inl ⟨.remove collection options, rfl⟩
      · obtain ⟨entries, rfl, rfl⟩ := mem_optionNodes_iff.1 h
        exact .inr ⟨entries, .remove e collection none, _, rfl, rfl, rfl⟩
    | insert e collection options =>
      rcases List.mem_cons.1 h with rfl | h
      · exact .inl ⟨.insert collection options, rfl⟩
      · obtain ⟨entries, rfl, rfl⟩ := mem_optionNodes_iff.1 h
        exact .inr ⟨entries, .insert e collection none, _, rfl, rfl, rfl⟩
    | modify verb e change collection options =>
      simp only [parts, List.cons_append, List.mem_cons, List.mem_append, Option.mem_toList] at h
      rcases h with rfl | rfl | h
      · exact .inl ⟨.target verb change collection options, rfl⟩
      · exact .inl ⟨.change verb e collection options, rfl⟩
      · obtain ⟨entries, rfl, rfl⟩ := mem_optionNodes_iff.1 h
        exact .inr ⟨entries, .modify verb e change collection none, _, rfl, rfl, rfl⟩
  · rintro (⟨place, rfl⟩ | ⟨entries, d, set, rfl, hset, rfl⟩)
    · cases place <;> simp [ClausePlace.fill, parts]
    · cases d with
      | forIn | filter | bind | ret => cases hset
      | remove e collection options =>
        cases options <;> cases hset
        simp [parts, optionNodes]
      | insert | modify =>
        cases hset
        simp [parts, optionNodes]

namespace Expr

variable {s e : Expr}

theorem mem_parts_follow_iff {before : Option Query} {c : Clause} :
    s ∈ (query (.follow before c)).parts ↔ (∃ q, before = some q ∧ s = .query q) ∨ s ∈ c.parts := by
  cases before <;> simp [parts, predecessors, operands, Query.follow, Query.last]

/-- A part is what some frame leaves out. -/
theorem isPart_iff : s.IsPart e ↔ ∃ F : Frame, F.fill? s = some e := by
  constructor
  · intro h
    cases e with
    | object entries =>
      obtain ⟨⟨key, v⟩, hmem, rfl⟩ := List.mem_map.1 (show s ∈ entries.map Prod.snd from h)
      obtain ⟨before, after, rfl⟩ := List.append_of_mem hmem
      exact ⟨.operand (.value key before after), rfl⟩
    | list items =>
      obtain ⟨before, after, rfl⟩ := List.append_of_mem (show s ∈ items from h)
      exact ⟨.operand (.item before after), rfl⟩
    | call function arguments =>
      obtain ⟨before, after, rfl⟩ := List.append_of_mem (show s ∈ arguments from h)
      exact ⟨.operand (.argument function before after), rfl⟩
    | unary op x =>
      obtain rfl : s = x := List.mem_singleton.1 h
      exact ⟨.operand (.unary op), rfl⟩
    | binary op l r =>
      obtain rfl | rfl : s = l ∨ s = r := by simpa [IsPart, parts, predecessors, operands] using h
      · exact ⟨.operand (.left op r), rfl⟩
      · exact ⟨.operand (.right op l), rfl⟩
    | conditional c y n =>
      obtain rfl | rfl | rfl : s = c ∨ s = y ∨ s = n := by
        simpa [IsPart, parts, predecessors, operands] using h
      · exact ⟨.operand (.condition y n), rfl⟩
      · exact ⟨.operand (.yes c n), rfl⟩
      · exact ⟨.operand (.no c y), rfl⟩
    | query q =>
      obtain ⟨before, c, rfl⟩ : ∃ before c, q = .follow before c := by
        cases q with
        | start c => exact ⟨none, c, rfl⟩
        | andThen q c => exact ⟨some q, c, rfl⟩
      rcases mem_parts_follow_iff.1 h with ⟨q, rfl, rfl⟩ | h
      · exact ⟨.predecessor c, rfl⟩
      · rcases Clause.mem_parts_iff.1 h with ⟨place, rfl⟩ | ⟨entries, d, set, rfl, hset, rfl⟩
        · exact ⟨.operand (.clause before place), rfl⟩
        · exact ⟨.options before d, Frame.fill?_options_eq_some_iff.2 ⟨_, _, rfl, hset, rfl⟩⟩
    | _ => simp [IsPart, parts, predecessors, operands] at h
  · rintro ⟨F, hF⟩
    cases F with
    | operand place =>
      cases hF
      cases place with
      | clause before place =>
        exact mem_parts_follow_iff.2 (.inr (Clause.mem_parts_iff.2 (.inl ⟨place, rfl⟩)))
      | _ => simp [IsPart, OperandPlace.fill, parts, predecessors, operands]
    | options before c =>
      obtain ⟨entries, set, rfl, hset, rfl⟩ := Frame.fill?_options_eq_some_iff.1 hF
      exact mem_parts_follow_iff.2 (.inr (Clause.mem_parts_iff.2 (.inr ⟨_, _, _, rfl, hset, rfl⟩)))
    | predecessor c =>
      obtain ⟨q, rfl, rfl⟩ := Frame.fill?_predecessor_eq_some_iff.1 hF
      exact List.mem_append_left _ List.mem_cons_self

/-- **The nodes properly within a tree are those that its contexts leave out.** -/
theorem properlyWithin_iff :
    s.ProperlyWithin e ↔ ∃ (F : Frame) (C : Context), Context.fill? s (F :: C) = some e := by
  simp only [Context.fill?_cons_eq_some_iff]
  constructor
  · intro h
    induction h using Relation.TransGen.head_induction_on with
    | single h =>
      obtain ⟨F, hF⟩ := isPart_iff.1 h
      exact ⟨F, [], e, hF, rfl⟩
    | @head s t h _ ih =>
      obtain ⟨F, hF⟩ := isPart_iff.1 h
      obtain ⟨G, C, u, hG, hC⟩ := ih
      exact ⟨F, G :: C, t, hF, Context.fill?_cons_eq_some_iff.2 ⟨u, hG, hC⟩⟩
  · rintro ⟨F, C, t, hF, hC⟩
    induction C generalizing F s t with
    | nil =>
      cases hC
      exact .single (isPart_iff.2 ⟨F, hF⟩)
    | cons G C ih =>
      obtain ⟨u, hG, hC⟩ := Context.fill?_cons_eq_some_iff.1 hC
      exact .head (isPart_iff.2 ⟨F, hF⟩) (ih G u hG hC)

end Expr

end QueryTree
