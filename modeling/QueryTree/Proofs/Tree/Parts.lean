import Mathlib.Logic.Relation
import QueryTree.Build.Continuation

/-!
# The nodes within a node

A statement about a whole tree speaks of every node in it: of the operands of an operation, the
items of a list, the values of an object, and of the parts of a query. `Expr.parts` lists the nodes
that stand immediately in a node, `Expr.Within` is being a part at any depth, and
`Expr.Everywhere p` says that `p` holds of the node itself and of all nodes within it.

Two places are nodes although the tree has no expression for them: the query that a clause follows
is a part of the query with that clause, and the options of a clause are an object.

## The induction

`Expr` is nested in three ways, through lists, entries and optional places. `Expr.within_induction`
is the one induction that the theory of trees uses; it asks for a property of a node when all nodes
properly within it have the property, so a proof goes through the constructors and never through
the nesting.
-/

set_option autoImplicit false

namespace QueryTree

/-! ## Parts -/

/-- The options of a clause, as the object that they are. -/
def optionNodes : Option (List (String × Expr)) → List Expr
  | none => []
  | some entries => [.object entries]

/-- The nodes of a clause, in the order in which they are written. -/
def Clause.parts : Clause → List Expr
  | .forIn _ e | .filter e | .bind _ e | .ret _ e => [e]
  | .remove e _ options | .insert e _ options => e :: optionNodes options
  | .modify _ e change _ options => e :: change.toList ++ optionNodes options

namespace Expr

/-- The nodes in the places of a node that hold an operand. -/
def operands : Expr → List Expr
  | .object entries => entries.map Prod.snd
  | .list items => items
  | .unary _ e => [e]
  | .binary _ l r => [l, r]
  | .conditional c y n => [c, y, n]
  | .call _ arguments => arguments
  | .query q => q.last.parts
  | .integer _ | .number _ | .string _ | .boolean _ | .null | .identifier _ | .reference _
  | .raw _ | .keyword _ | .collection _ => []

/-- The query that the last clause of a query follows. -/
def predecessors : Expr → List Expr
  | .query (.andThen q _) => [.query q]
  | _ => []

def parts (e : Expr) : List Expr := e.predecessors ++ e.operands

def IsPart (s e : Expr) : Prop := s ∈ e.parts

/-- Being a node of a tree, at any depth; a node is within itself. -/
def Within (s e : Expr) : Prop := Relation.ReflTransGen IsPart s e

/-- Being a node of a tree below its root. -/
def ProperlyWithin (s e : Expr) : Prop := Relation.TransGen IsPart s e

/-- A property of all nodes of a tree. -/
def Everywhere (p : Expr → Prop) (e : Expr) : Prop := ∀ s, s.Within e → p s

/-! ## Everywhere in a tree -/

variable {p q : Expr → Prop} {s e : Expr}

theorem Everywhere.here (h : e.Everywhere p) : p e := h e .refl

theorem Everywhere.part (h : e.Everywhere p) (hs : s ∈ e.parts) : s.Everywhere p :=
  fun t ht => h t (ht.tail hs)

theorem Everywhere.within (h : e.Everywhere p) (hs : s.Within e) : s.Everywhere p :=
  fun t ht => h t (ht.trans hs)

theorem everywhere_iff : e.Everywhere p ↔ p e ∧ ∀ s ∈ e.parts, s.Everywhere p := by
  refine ⟨fun h => ⟨h.here, fun s hs => h.part hs⟩, fun ⟨he, hparts⟩ t ht => ?_⟩
  rcases Relation.ReflTransGen.cases_tail ht with rfl | ⟨s, hts, hse⟩
  · exact he
  · exact hparts s hse t hts

theorem Everywhere.imp (h : e.Everywhere p) (hpq : ∀ s, p s → q s) : e.Everywhere q :=
  fun s hs => hpq s (h s hs)

theorem Everywhere.and (hp : e.Everywhere p) (hq : e.Everywhere q) :
    e.Everywhere fun s => p s ∧ q s :=
  fun s hs => ⟨hp s hs, hq s hs⟩

theorem everywhere_of_parts_eq_nil (hparts : e.parts = []) (he : p e) : e.Everywhere p :=
  everywhere_iff.2 ⟨he, by simp [hparts]⟩

theorem everywhere_returned (hparts : e.parts = []) (he : p e)
    (hroot : p (.query (.start (.ret false e)))) :
    (Expr.query (.start (.ret false e))).Everywhere p := by
  refine everywhere_iff.2 ⟨hroot, fun s hs => ?_⟩
  rw [List.mem_singleton.1 hs]
  exact everywhere_of_parts_eq_nil hparts he

/-! ## A part is smaller than its whole -/

theorem sizeOf_le_of_mem_optionNodes {options : Option (List (String × Expr))}
    (h : s ∈ optionNodes options) : sizeOf s ≤ sizeOf options := by
  cases options with
  | none => simp [optionNodes] at h
  | some entries =>
    rw [List.mem_singleton.1 h]
    exact Nat.le_of_eq (by simp)

theorem sizeOf_lt_of_mem_clause {c : Clause} (h : s ∈ c.parts) : sizeOf s < sizeOf c := by
  cases c with
  | forIn _ e => rw [List.mem_singleton.1 h, Clause.forIn.sizeOf_spec]; omega
  | filter e => rw [List.mem_singleton.1 h, Clause.filter.sizeOf_spec]; omega
  | bind _ e => rw [List.mem_singleton.1 h, Clause.bind.sizeOf_spec]; omega
  | ret _ e => rw [List.mem_singleton.1 h, Clause.ret.sizeOf_spec]; omega
  | remove e _ options =>
    rw [Clause.remove.sizeOf_spec]
    rcases List.mem_cons.1 h with rfl | h
    · omega
    · have := sizeOf_le_of_mem_optionNodes h
      omega
  | insert e _ options =>
    rw [Clause.insert.sizeOf_spec]
    rcases List.mem_cons.1 h with rfl | h
    · omega
    · have := sizeOf_le_of_mem_optionNodes h
      omega
  | modify _ e change _ options =>
    simp only [Clause.parts, List.cons_append, List.mem_cons, List.mem_append,
      Option.mem_toList] at h
    rw [Clause.modify.sizeOf_spec]
    rcases h with rfl | rfl | h
    · omega
    · rw [Option.some.sizeOf_spec]
      omega
    · have := sizeOf_le_of_mem_optionNodes h
      omega

theorem sizeOf_last_lt (q : Query) : sizeOf q.last < sizeOf q := by
  cases q with
  | start c => rw [Query.last, Query.start.sizeOf_spec]; omega
  | andThen q c => rw [Query.last, Query.andThen.sizeOf_spec]; omega

theorem sizeOf_lt_of_mem_parts (h : s ∈ e.parts) : sizeOf s < sizeOf e := by
  rcases List.mem_append.1 h with hp | ho
  · unfold predecessors at hp
    split at hp
    · rw [List.mem_singleton.1 hp, query.sizeOf_spec, query.sizeOf_spec,
        Query.andThen.sizeOf_spec]
      omega
    · simp at hp
  · cases e with
    | object entries =>
      obtain ⟨⟨k, v⟩, hm, rfl⟩ := List.mem_map.1 ho
      have := List.sizeOf_lt_of_mem hm
      rw [Prod.mk.sizeOf_spec] at this
      show sizeOf v < _
      rw [object.sizeOf_spec]
      omega
    | list items =>
      have := List.sizeOf_lt_of_mem (show s ∈ items from ho)
      rw [list.sizeOf_spec]
      omega
    | unary _ e => rw [List.mem_singleton.1 ho, unary.sizeOf_spec]; omega
    | binary _ l r =>
      simp only [operands, List.mem_cons, List.not_mem_nil, or_false] at ho
      rw [binary.sizeOf_spec]
      rcases ho with rfl | rfl <;> omega
    | conditional c y n =>
      simp only [operands, List.mem_cons, List.not_mem_nil, or_false] at ho
      rw [conditional.sizeOf_spec]
      rcases ho with rfl | rfl | rfl <;> omega
    | call _ arguments =>
      have := List.sizeOf_lt_of_mem (show s ∈ arguments from ho)
      rw [call.sizeOf_spec]
      omega
    | query q =>
      have := sizeOf_lt_of_mem_clause ho
      have := sizeOf_last_lt q
      rw [query.sizeOf_spec]
      omega
    | _ => simp [operands] at ho

/-- **Induction over a tree.** A property that passes from all nodes properly within a node to the
    node itself holds of every node. -/
theorem within_induction {P : Expr → Prop}
    (step : ∀ e, (∀ s, s.ProperlyWithin e → P s) → P e) (e : Expr) : P e := by
  -- sizes only serve to show that going down from part to part comes to an end
  have wf : WellFounded IsPart :=
    Subrelation.wf (fun h => sizeOf_lt_of_mem_parts h) (measure (sizeOf : Expr → Nat)).wf
  exact wf.transGen.induction e step

end Expr

/-! ## The parts of all clauses -/

/-- Induction along a chain of clauses, from its first clause. The expressions in the clauses do not
    take part in it. -/
@[induction_eliminator]
theorem Query.chain_induction {P : Query → Prop} (start : ∀ c, P (.start c))
    (andThen : ∀ q c, P q → P (.andThen q c)) : ∀ q, P q
  | .start c => start c
  | .andThen q c => andThen q c (chain_induction start andThen q)

theorem Query.last_mem_clauses (q : Query) : q.last ∈ q.clauses := by
  cases q <;> simp [Query.last, Query.clauses]

theorem Query.clauses_ne_nil (q : Query) : q.clauses ≠ [] := List.ne_nil_of_mem q.last_mem_clauses

/-- A part of any clause of a query stands within the query, behind as many predecessors as there
    are clauses after it. -/
theorem Query.properlyWithin_of_mem_clauses {q : Query} {c : Clause} {s : Expr}
    (hc : c ∈ q.clauses) (hs : s ∈ c.parts) : s.ProperlyWithin (.query q) := by
  induction q with
  | start d =>
    simp only [Query.clauses, List.mem_singleton] at hc
    subst hc
    exact .single hs
  | andThen q d ih =>
    simp only [Query.clauses, List.mem_append, List.mem_singleton] at hc
    rcases hc with hc | rfl
    · exact (ih hc).tail (by simp [Expr.IsPart, Expr.parts, Expr.predecessors])
    · exact .single (by simpa [Expr.IsPart, Expr.parts, Expr.operands, Query.last] using Or.inr hs)

theorem Query.exists_within_of_mem_clauses {q : Query} {c : Clause} (hc : c ∈ q.clauses) :
    ∃ r : Query, r.last = c ∧ (Expr.query r).Within (.query q) := by
  induction q with
  | start d =>
    simp only [Query.clauses, List.mem_singleton] at hc
    exact ⟨.start d, hc.symm, .refl⟩
  | andThen q d ih =>
    simp only [Query.clauses, List.mem_append, List.mem_singleton] at hc
    rcases hc with hc | rfl
    · obtain ⟨r, hr, hw⟩ := ih hc
      exact ⟨r, hr, hw.tail (by simp [Expr.IsPart, Expr.parts, Expr.predecessors])⟩
    · exact ⟨.andThen q c, rfl, .refl⟩

end QueryTree
