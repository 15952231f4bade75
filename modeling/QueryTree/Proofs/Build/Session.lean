import QueryTree.Build.Leaf
import QueryTree.Build.Operator
import QueryTree.Proofs.Tree.Parts

/-!
# What a caller can build

A tree can only come about by calls of the functions that build, and each call may use the nodes
that earlier calls have given. `Call` lists the entry points, `Call.answer` is what each gives back,
and `Held` is the set of nodes in a caller's hands after any number of calls, successful and failing
ones in any order. So a statement about `Built` nodes is one about every run.

* A call that is refused gives no node; what is held stays as it was.
* Nodes are values. A call that changes an object gives the object with the change, and the object
  without it stays in the caller's hands: a caller may have kept a copy of it.
* The calls that a statement speaks of can be narrowed (`Call.isPlain`), and what is built from them
  is then narrowed with it.
-/

set_option autoImplicit false

namespace QueryTree

/-! ## Calls -/

def Operand.nodes : Operand → List Expr
  | .expr e => [e]
  | .value _ | .float _ => []

def Draft.nodes : Draft → List Expr
  | .forIn _ given | .filter given | .bind _ given | .ret _ given => given.nodes
  | .remove given collection | .insert given collection => given.nodes ++ collection.nodes
  | .modify _ given change collection =>
    given.nodes ++ change.toList.flatMap Operand.nodes ++ collection.nodes

/-- A use of one of the functions that build, with all it is given. -/
inductive Call
  | integer (value : Int64)
  | number (value : Binary64)
  | string (text : String)
  | boolean (value : Bool)
  | null
  | identifier (name : String)
  | reference (path : String)
  | raw (text : String)
  | keyword (word : String)
  | collection (given : Operand)
  /-- an object from its entries, written one after the other -/
  | entries (pairs : List (String × Operand))
  | items (given : List Operand)
  | compound (value : Value)
  | cast (given : Operand)
  | unary (op : UnaryOp) (operand : Operand)
  | binary (op : BinaryOp) (left right : Operand)
  | conditional (condition yes no : Operand)
  | invoke (function : String) (arguments : List Operand)
  | clause (before : Option Expr) (draft : Draft)
  /-- a clause after a query that is open -/
  | extend (receiver : Query) (draft : Draft)
  | options (receiver : Query) (given : Operand)
  | returning (receiver : Query) (image : Image) (name : String)
  | insert (receiver : Entries Expr) (key : String) (given : Operand)
  /-- a part of a node, as looking into it gives it -/
  | part (whole : Expr) (place : Nat)

namespace Call

def nodes : Call → List Expr
  | .collection given | .cast given | .unary _ given => given.nodes
  | .entries pairs => pairs.flatMap fun pair => pair.2.nodes
  | .items given | .invoke _ given => given.flatMap Operand.nodes
  | .binary _ left right => left.nodes ++ right.nodes
  | .conditional condition yes no => condition.nodes ++ yes.nodes ++ no.nodes
  | .clause before draft => before.toList ++ draft.nodes
  | .extend receiver draft => .query receiver :: draft.nodes
  | .options receiver given => .query receiver :: given.nodes
  | .returning receiver _ _ => [.query receiver]
  | .insert receiver _ given => .object receiver :: given.nodes
  | .part whole _ => [whole]
  | .integer _ | .number _ | .string _ | .boolean _ | .null | .identifier _ | .reference _
  | .raw _ | .keyword _ | .compound _ => []

/-- What a call gives back; nothing when the node that it is made on has no such function. -/
def answer : Call → Option (Except BuildError Expr)
  | .integer value => some (.ok (.integer value.toInt))
  | .number value => some (Expr.ofFloat value)
  | .string text => some (.ok (.string text))
  | .boolean value => some (.ok (.boolean value))
  | .null => some (.ok .null)
  | .identifier name => some (Expr.ofIdentifier name)
  | .reference path => some (Expr.ofPath path)
  | .raw text => some (.ok (.raw text))
  | .keyword word => some (Expr.ofKeyword word)
  | .collection given => some (Expr.ofCollection given)
  | .entries pairs => some (Expr.ofEntries pairs)
  | .items given => some (Expr.ofItems given)
  | .compound value => some value.toNested
  | .cast given => some given.toExpr
  | .unary op operand => some (op.apply operand)
  | .binary op left right => some (op.apply left right)
  | .conditional condition yes no => some (Expr.choose condition yes no)
  | .invoke function arguments => some (Expr.invoke function arguments)
  | .clause before draft => some (Expr.query <$> draft.build before)
  | .extend receiver draft =>
    if receiver.isOpen then some (Expr.query <$> receiver.extend draft) else none
  | .options receiver given => (receiver.withOptions? given).map (Expr.query <$> ·)
  | .returning receiver image name => (receiver.returning? image name).map (Expr.query <$> ·)
  | .insert receiver key given => some (Expr.object <$> Entries.insert key given receiver)
  | .part whole place => whole.parts[place]?.map .ok

/-- The calls whose leaves come from plain data: everything but the leaves that a caller spells out
    as raw text, as keyword, as collection, as reference or as number. References and numbers still
    come about by casting a string or a number. -/
def isPlain : Call → Bool
  | .raw _ | .keyword _ | .collection _ | .reference _ | .number _ => false
  | _ => true

/-- The nodes in a caller's hands after one more call. -/
def after (held : List Expr) (c : Call) : List Expr :=
  match c.answer with
  | some (.ok e) => e :: held
  | _ => held

end Call

/-! ## Runs -/

/-- The nodes that a caller holds after a run of calls of the allowed sort. Each call uses only
    nodes that are held by then. -/
inductive Held (allowed : Call → Prop) : List Expr → Prop
  | nothing : Held allowed []
  | call {held : List Expr} (before : Held allowed held) (c : Call) (sort : allowed c)
      (uses : ∀ e ∈ c.nodes, e ∈ held) : Held allowed (c.after held)

/-- A node that some run gives. -/
def Built (allowed : Call → Prop) (e : Expr) : Prop := ∃ held, Held allowed held ∧ e ∈ held

def anyCall (_ : Call) : Prop := True

/-- Only the calls whose leaves come from plain data are allowed. -/
def plainCall (c : Call) : Prop := c.isPlain = true

/-- What one call keeps, every run keeps. -/
theorem Held.invariant {allowed : Call → Prop} {P : Expr → Prop}
    (step : ∀ c e, allowed c → (∀ s ∈ c.nodes, P s) → c.answer = some (.ok e) → P e)
    {held : List Expr} (h : Held allowed held) : ∀ e ∈ held, P e := by
  induction h with
  | nothing => simp
  | @call held _ c sort uses ih =>
    intro e he
    unfold Call.after at he
    split at he
    · next e' hanswer =>
      rcases List.mem_cons.mp he with rfl | he
      · exact step c e sort (fun s hs => ih s (uses s hs)) hanswer
      · exact ih e he
    · -- a call that fails adds nothing
      exact ih e he

theorem Held.answer {allowed : Call → Prop} {held : List Expr} (h : Held allowed held) (c : Call)
    {e : Expr} (sort : allowed c) (uses : ∀ s ∈ c.nodes, s ∈ held)
    (hanswer : c.answer = some (.ok e)) : Held allowed (e :: held) := by
  have hafter : c.after held = e :: held := by rw [Call.after, hanswer]
  exact hafter ▸ h.call c sort uses

/-- What two callers hold, one caller can hold. -/
theorem Held.append {allowed : Call → Prop} {held more : List Expr} (h : Held allowed held)
    (hmore : Held allowed more) : Held allowed (more ++ held) := by
  induction hmore with
  | nothing => exact h
  | @call more _ c sort uses ih =>
    have hafter : c.after more ++ held = c.after (more ++ held) := by
      unfold Call.after
      split <;> rfl
    rw [hafter]
    exact ih.call c sort fun e he => List.mem_append_left _ (uses e he)

theorem Held.exists_of_built {allowed : Call → Prop} {es : List Expr}
    (h : ∀ e ∈ es, Built allowed e) : ∃ held, Held allowed held ∧ ∀ e ∈ es, e ∈ held := by
  induction es with
  | nil => exact ⟨[], .nothing, by simp⟩
  | cons e es ih =>
    obtain ⟨more, hmore, he⟩ := h e List.mem_cons_self
    obtain ⟨held, hheld, hes⟩ := ih fun s hs => h s (List.mem_cons_of_mem _ hs)
    refine ⟨more ++ held, hheld.append hmore, fun s hs => ?_⟩
    rcases List.mem_cons.1 hs with rfl | hs
    · exact List.mem_append_left _ he
    · exact List.mem_append_right _ (hes s hs)

/-- A call can be made as soon as all nodes that it uses can be built. -/
theorem Built.call {allowed : Call → Prop} {e : Expr} (c : Call) (sort : allowed c)
    (uses : ∀ s ∈ c.nodes, Built allowed s) (hanswer : c.answer = some (.ok e)) :
    Built allowed e := by
  obtain ⟨held, hheld, hmem⟩ := Held.exists_of_built uses
  exact ⟨_, hheld.answer c sort hmem hanswer, List.mem_cons_self⟩

/-- A call that uses no nodes can be made at any time. -/
theorem Built.of_answer {allowed : Call → Prop} {c : Call} {e : Expr} (sort : allowed c)
    (hnodes : c.nodes = []) (hanswer : c.answer = some (.ok e)) : Built allowed e :=
  .call c sort (by simp [hnodes]) hanswer

/-- Whatever is built can be returned. -/
theorem Built.returned {e : Expr} (h : Built plainCall e) :
    Built plainCall (.query (.start (.ret false e))) :=
  .call (.clause none (.ret false (.expr e))) rfl
    (by simpa [Call.nodes, Draft.nodes, Operand.nodes] using h) rfl

theorem Held.mono {few many : Call → Prop} (h : ∀ c, few c → many c) {held : List Expr}
    (hheld : Held few held) : Held many held := by
  induction hheld with
  | nothing => exact .nothing
  | call _ c sort uses ih => exact .call ih c (h c sort) uses

theorem Built.mono {few many : Call → Prop} (h : ∀ c, few c → many c) {e : Expr}
    (he : Built few e) : Built many e :=
  let ⟨held, hheld, hmem⟩ := he
  ⟨held, hheld.mono h, hmem⟩

end QueryTree
