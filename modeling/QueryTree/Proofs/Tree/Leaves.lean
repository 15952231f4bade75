import QueryTree.Proofs.Tree.Parts
import QueryTree.Render

/-!
# Leaves of a tree

`Expr.mapLeaves f` puts `f e` in the place of every leaf `e` of a tree and leaves the rest as it is:
operators, clauses, names of variables in clauses, keys of objects. It is how the theory says that
two trees differ in some of their leaves only, and in nothing else.

Lists and objects are literals, but here they count as inner nodes.
-/

set_option autoImplicit false

namespace QueryTree

mutual

/-- The tree with its leaves replaced. -/
def Expr.mapLeaves (f : Expr → Expr) : Expr → Expr
  | .object entries => .object (Expr.mapEntries f entries)
  | .list items => .list (Expr.mapItems f items)
  | .unary op e => .unary op (e.mapLeaves f)
  | .binary op l r => .binary op (l.mapLeaves f) (r.mapLeaves f)
  | .conditional c y n => .conditional (c.mapLeaves f) (y.mapLeaves f) (n.mapLeaves f)
  | .call function arguments => .call function (Expr.mapItems f arguments)
  | .query q => .query (q.mapLeaves f)
  | leaf => f leaf

def Expr.mapItems (f : Expr → Expr) : List Expr → List Expr
  | [] => []
  | e :: rest => e.mapLeaves f :: Expr.mapItems f rest

def Expr.mapEntries (f : Expr → Expr) : List (String × Expr) → List (String × Expr)
  | [] => []
  | (key, e) :: rest => (key, e.mapLeaves f) :: Expr.mapEntries f rest

def Query.mapLeaves (f : Expr → Expr) : Query → Query
  | .start c => .start (c.mapLeaves f)
  | .andThen q c => .andThen (q.mapLeaves f) (c.mapLeaves f)

def Clause.mapLeaves (f : Expr → Expr) : Clause → Clause
  | .forIn name e => .forIn name (e.mapLeaves f)
  | .filter e => .filter (e.mapLeaves f)
  | .bind name e => .bind name (e.mapLeaves f)
  | .ret distinct e => .ret distinct (e.mapLeaves f)
  | .remove e collection options =>
      .remove (e.mapLeaves f) collection (Clause.mapOptions f options)
  | .insert e collection options =>
      .insert (e.mapLeaves f) collection (Clause.mapOptions f options)
  | .modify verb e change collection options =>
      .modify verb (e.mapLeaves f) (Clause.mapChange f change) collection
        (Clause.mapOptions f options)

def Clause.mapChange (f : Expr → Expr) : Option Expr → Option Expr
  | none => none
  | some e => some (e.mapLeaves f)

def Clause.mapOptions (f : Expr → Expr) :
    Option (List (String × Expr)) → Option (List (String × Expr))
  | none => none
  | some entries => some (Expr.mapEntries f entries)

end

variable {f : Expr → Expr}

theorem Expr.mapItems_eq_map (items : List Expr) :
    Expr.mapItems f items = items.map (Expr.mapLeaves f) := by
  induction items with
  | nil => rfl
  | cons e rest ih => rw [Expr.mapItems, ih]; rfl

theorem Expr.mapEntries_eq_map (entries : List (String × Expr)) :
    Expr.mapEntries f entries = entries.map fun pair => (pair.1, pair.2.mapLeaves f) := by
  induction entries with
  | nil => rfl
  | cons pair rest ih => rw [Expr.mapEntries, ih]; rfl

theorem Clause.kind_mapLeaves (c : Clause) : (c.mapLeaves f).kind = c.kind := by
  cases c with
  | remove _ _ options => cases options <;> rfl
  | _ => rfl

/-- New leaves for old ones make no other kind of node. -/
theorem Expr.kind_mapLeaves (hf : ∀ e : Expr, e.kind = .leaf → (f e).kind = .leaf) (e : Expr) :
    (e.mapLeaves f).kind = e.kind := by
  cases e with
  | query q =>
    cases q with
    | start c => exact Clause.kind_mapLeaves c
    | andThen q c => exact Clause.kind_mapLeaves c
  | object | list | unary | binary | conditional | call => rfl
  | _ => exact hf _ rfl

/-! ## The parts of the new tree -/

theorem Clause.parts_mapLeaves (c : Clause) :
    (c.mapLeaves f).parts = c.parts.map (Expr.mapLeaves f) := by
  have hoptions (options : Option (List (String × Expr))) :
      optionNodes (mapOptions f options) = (optionNodes options).map (Expr.mapLeaves f) := by
    cases options <;> rfl
  cases c with
  | forIn | filter | bind | ret => rfl
  | remove e _ options | insert e _ options =>
    show e.mapLeaves f :: optionNodes (mapOptions f options) = _
    rw [hoptions]
    rfl
  | modify _ e change _ options =>
    show e.mapLeaves f :: (mapChange f change).toList ++ optionNodes (mapOptions f options) = _
    rw [hoptions]
    cases change <;> rfl

namespace Expr

theorem operands_mapLeaves (hf : ∀ e : Expr, e.parts = [] → (f e).parts = []) (e : Expr) :
    (e.mapLeaves f).operands = e.operands.map (mapLeaves f) := by
  have hatom (e : Expr) (he : e.parts = []) : (f e).operands = [] :=
    (List.append_eq_nil_iff.1 (hf e he)).2
  cases e with
  | object entries =>
    show (mapEntries f entries).map Prod.snd = _
    rw [mapEntries_eq_map, List.map_map, operands, List.map_map]
    rfl
  | list items => exact mapItems_eq_map items
  | call _ arguments => exact mapItems_eq_map arguments
  | unary | binary | conditional => rfl
  | query q =>
    cases q with
    | start c => exact Clause.parts_mapLeaves c
    | andThen q c => exact Clause.parts_mapLeaves c
  | _ => exact hatom _ rfl

theorem predecessors_mapLeaves (hf : ∀ e : Expr, e.parts = [] → (f e).parts = []) (e : Expr) :
    (e.mapLeaves f).predecessors = e.predecessors.map (mapLeaves f) := by
  have hatom (e : Expr) (he : e.parts = []) : (f e).predecessors = [] :=
    (List.append_eq_nil_iff.1 (hf e he)).1
  cases e with
  | object | list | call | unary | binary | conditional => rfl
  | query q => cases q <;> rfl
  | _ => exact hatom _ rfl

/-- A property of the roots of all new trees is one of all nodes of a new tree. -/
theorem Everywhere.mapLeaves {p q : Expr → Prop}
    (hf : ∀ e : Expr, e.parts = [] → (f e).parts = []) (hroot : ∀ e, p e → q (e.mapLeaves f))
    {e : Expr} (h : e.Everywhere p) : (e.mapLeaves f).Everywhere q := by
  induction e using within_induction with | step e ih => ?_
  refine everywhere_iff.2 ⟨hroot e h.here, fun s hs => ?_⟩
  -- the parts of the new tree are the new trees of the parts
  rw [parts, operands_mapLeaves hf, predecessors_mapLeaves hf, ← List.map_append] at hs
  obtain ⟨t, ht, rfl⟩ := List.mem_map.1 hs
  exact ih t (.single ht) (h.part ht)

end Expr

/-! ## The text of the new tree -/

/-- A node whose text is the same with its new leaves. -/
def Expr.SameText (f : Expr → Expr) (e : Expr) : Prop :=
  (e.mapLeaves f).operandChars = e.operandChars

theorem Clause.optionsChars_mapOptions {options : Option (List (String × Expr))}
    (h : ∀ s ∈ optionNodes options, s.SameText f) :
    optionsChars (mapOptions f options) = optionsChars options := by
  cases options with
  | none => rfl
  | some entries =>
    have hobject : Expr.SameText f (.object entries) := h _ (by simp [optionNodes])
    show " OPTIONS ".toList ++ (Expr.mapLeaves f (.object entries)).operandChars = _
    rw [hobject]
    rfl

theorem Clause.changeChars_mapChange {change : Option Expr}
    (h : ∀ s ∈ change.toList, s.SameText f) :
    changeChars (mapChange f change) = changeChars change := by
  cases change with
  | none => rfl
  | some e =>
    have he : e.SameText f := h e (by simp)
    show " WITH ".toList ++ (e.mapLeaves f).operandChars = _
    rw [he]
    rfl

theorem Clause.chars_mapLeaves {c : Clause} (h : ∀ s ∈ c.parts, s.SameText f) :
    (c.mapLeaves f).chars = c.chars := by
  cases c with
  | forIn name e =>
    have he : e.SameText f := h e (by simp [parts])
    show "FOR ".toList ++ variableChars name ++ " IN ".toList ++ (e.mapLeaves f).operandChars = _
    rw [he]
    rfl
  | filter e =>
    have he : e.SameText f := h e (by simp [parts])
    show "FILTER ".toList ++ (e.mapLeaves f).operandChars = _
    rw [he]
    rfl
  | bind name e =>
    have he : e.SameText f := h e (by simp [parts])
    show "LET ".toList ++ variableChars name ++ " = ".toList ++ (e.mapLeaves f).operandChars = _
    rw [he]
    rfl
  | ret distinct e =>
    have he : e.SameText f := h e (by simp [parts])
    show "RETURN ".toList ++ (if distinct then "DISTINCT ".toList else []) ++
      (e.mapLeaves f).operandChars = _
    rw [he]
    rfl
  | remove e collection options =>
    have he : e.SameText f := h e (by simp [parts])
    show "REMOVE ".toList ++ (e.mapLeaves f).operandChars ++ " IN ".toList ++ collection.toList ++
      optionsChars (mapOptions f options) = _
    rw [he, optionsChars_mapOptions fun s hs => h s (List.mem_cons_of_mem _ hs)]
    rfl
  | insert e collection options =>
    have he : e.SameText f := h e (by simp [parts])
    show "INSERT ".toList ++ (e.mapLeaves f).operandChars ++ " INTO ".toList ++
      collection.toList ++ optionsChars (mapOptions f options) = _
    rw [he, optionsChars_mapOptions fun s hs => h s (List.mem_cons_of_mem _ hs)]
    rfl
  | modify verb e change collection options =>
    have he : e.SameText f := h e (by simp [parts])
    show verb.text.toList ++ ' ' :: (e.mapLeaves f).operandChars ++
      changeChars (mapChange f change) ++ " IN ".toList ++ collection.toList ++
      optionsChars (mapOptions f options) = _
    rw [he,
      changeChars_mapChange fun s hs => h s (List.mem_append_left _ (List.mem_cons_of_mem _ hs)),
      optionsChars_mapOptions fun s hs => h s (List.mem_append_right _ hs)]
    rfl

namespace Expr

theorem operandTexts_mapItems {items : List Expr} (h : ∀ s ∈ items, s.SameText f) :
    operandTexts (mapItems f items) = operandTexts items := by
  rw [operandTexts_eq_map, operandTexts_eq_map, mapItems_eq_map, List.map_map]
  exact List.map_congr_left h

theorem entryTexts_mapEntries {entries : List (String × Expr)}
    (h : ∀ s ∈ entries.map Prod.snd, s.SameText f) :
    entryTexts (mapEntries f entries) = entryTexts entries := by
  rw [entryTexts_eq_map, entryTexts_eq_map, mapEntries_eq_map, List.map_map]
  refine List.map_congr_left fun pair hpair => ?_
  have hvalue : pair.2.SameText f := h pair.2 (List.mem_map_of_mem hpair)
  show keyChars pair.1 ++ ':' :: ' ' :: (pair.2.mapLeaves f).operandChars = _
  rw [hvalue]

/-- **New leaves with the texts of the old ones leave the text of a tree as it is.** -/
theorem chars_mapLeaves
    (hf : ∀ e : Expr, e.kind = .leaf → (f e).kind = .leaf ∧ (f e).chars = e.chars) (e : Expr) :
    (e.mapLeaves f).chars = e.chars := by
  induction e using within_induction with | step e ih => ?_
  have same : ∀ s ∈ e.parts, s.SameText f := by
    intro s hs
    unfold SameText operandChars
    rw [kind_mapLeaves (fun e he => (hf e he).1), ih s (.single hs)]
  cases e with
  | object entries =>
    show '\x7b' :: commaSeparated (entryTexts (mapEntries f entries)) ++ ['\x7d'] = _
    rw [entryTexts_mapEntries same]
    rfl
  | list items =>
    have hitems : operandTexts (mapItems f items) = operandTexts items := operandTexts_mapItems same
    show '[' :: commaSeparated (operandTexts (mapItems f items)) ++ [']'] = _
    rw [hitems]
    rfl
  | call function arguments =>
    have harguments : operandTexts (mapItems f arguments) = operandTexts arguments :=
      operandTexts_mapItems same
    show function.toList ++ '(' :: commaSeparated (operandTexts (mapItems f arguments)) ++ [')'] = _
    rw [harguments]
    rfl
  | unary op e =>
    have he : e.SameText f := same e (by simp [parts, predecessors, operands])
    show op.text.toList ++ (e.mapLeaves f).operandChars = _
    rw [he]
    rfl
  | binary op l r =>
    have hl : l.SameText f := same l (by simp [parts, predecessors, operands])
    have hr : r.SameText f := same r (by simp [parts, predecessors, operands])
    show (l.mapLeaves f).operandChars ++ ' ' :: op.text.toList ++
      ' ' :: (r.mapLeaves f).operandChars = _
    rw [hl, hr]
    rfl
  | conditional c y n =>
    have hc : c.SameText f := same c (by simp [parts, predecessors, operands])
    have hy : y.SameText f := same y (by simp [parts, predecessors, operands])
    have hn : n.SameText f := same n (by simp [parts, predecessors, operands])
    show (c.mapLeaves f).operandChars ++ " ? ".toList ++ (y.mapLeaves f).operandChars ++
      " : ".toList ++ (n.mapLeaves f).operandChars = _
    rw [hc, hy, hn]
    rfl
  | query q =>
    cases q with
    | start c => exact Clause.chars_mapLeaves same
    | andThen q c =>
      have hbefore : (mapLeaves f (.query q)).chars = (query q).chars :=
        ih (.query q) (.single (by simp [IsPart, parts, predecessors]))
      have hclause := Clause.chars_mapLeaves fun s hs => same s (List.mem_append_right _ hs)
      show (mapLeaves f (.query q)).chars ++ ' ' :: (c.mapLeaves f).chars = _
      rw [hbefore, show (c.mapLeaves f).chars = c.chars from hclause]
      rfl
  | _ => exact (hf _ rfl).2

end Expr

end QueryTree
