import QueryTree.Proofs.Build.Calls
import QueryTree.Proofs.Name.Spelling

/-!
# Every built tree is valid

Writing a tree never looks at what the tree holds, so all that a query's text relies on has to be
true of the tree already. `Expr.Valid` collects it, node by node: names are spelled by their
grammars, numbers are finite, the keys of an object are distinct, and what a clause follows is
something that a clause can follow. `valid_of_held` says that no run of calls, with failures among
them or without, gives a tree in which any node at any depth breaks one of these rules.
-/

set_option autoImplicit false

namespace QueryTree

def Clause.ValidNames : Clause → Prop
  | .forIn name _ | .bind name _ => IdentifierText name.toList
  | .remove _ collection _ | .insert _ collection _ | .modify _ _ _ collection _ =>
    CollectionText collection.toList
  | .filter _ | .ret _ _ => True

/-- The rules for a query, beyond those for its parts. -/
structure Query.Valid (q : Query) : Prop where
  names : q.last.ValidNames
  /-- what the last clause follows can be followed -/
  before : ∀ r, q.before? = some r → (Expr.query r).kind.isFollowable = true
  /-- only a removal can be wrapped into options -/
  wrapped : (Expr.query q).kind = .optionsWrapper →
    ∃ target collection options, q.last = .remove target collection (some options)

/-- The rules for a node, beyond those for its parts. -/
def Expr.Valid : Expr → Prop
  | .number x => x.isFinite = true
  | .identifier name => IdentifierText name.toList
  | .reference path => PathText path.toList
  | .keyword word => KeywordText word.toList
  | .collection name => CollectionText name.toList
  | .object entries => (Entries.keys entries).Nodup
  | .call function _ => FunctionText function.toList
  | .query q => q.Valid
  | .integer _ | .string _ | .boolean _ | .null | .raw _ | .list _ | .unary .. | .binary ..
  | .conditional .. => True

theorem Query.isFollowable (q : Query) : (Expr.query q).kind.isFollowable = true := by
  show q.last.kind.isFollowable = true
  cases q.last with
  | remove _ _ options => cases options <;> rfl
  | _ => rfl

theorem Clause.eq_remove_of_kind {c : Clause} (h : c.kind = .optionsWrapper) :
    ∃ target collection options, c = .remove target collection (some options) := by
  cases c with
  | remove target collection options =>
    cases options with
    | none => cases h
    | some options => exact ⟨target, collection, options, rfl⟩
  | _ => cases h

theorem Clause.validNames_of_spelled {c : Clause} (h : c.NamesSpelled) : c.ValidNames := by
  cases c with
  | forIn name _ | bind name _ => exact isIdentifier_iff.1 h
  | remove _ collection _ | insert _ collection _ | modify _ _ _ collection _ =>
    exact isCollectionName_iff.1 h
  | filter _ | ret _ _ => trivial

theorem isFinite_of_floatExpr? {x : Binary64} {e : Expr} (h : floatExpr? x = some e) :
    x.isFinite = true := by
  unfold floatExpr? at h
  split at h
  · next hfinite => exact hfinite
  · cases h

/-- What a call puts on top of its parts obeys the rules. -/
theorem Fresh.valid {allowed : Call → Prop} {e : Expr} (h : Fresh allowed e) : e.Valid := by
  cases h with
  | number _ finite => exact finite
  | castNumber cast => exact isFinite_of_floatExpr? cast
  | identifier spelled => exact isIdentifier_iff.1 spelled
  | reference _ spelled | castReference _ spelled => exact pathText_of_isPath spelled
  | keyword _ spelled => exact keywordText_capitals spelled
  | collection _ spelled => exact isCollectionName_iff.1 spelled
  | object distinct => exact distinct
  | call _ spelled => exact functionText_of_isFunctionName spelled
  | @query q spelled =>
    exact ⟨Clause.validNames_of_spelled spelled, fun r _ => Query.isFollowable r,
      Clause.eq_remove_of_kind⟩
  | integer | string | boolean | null | raw | list | unary | binary | conditional => trivial

theorem Built.everywhere_valid {allowed : Call → Prop} {e : Expr} (h : Built allowed e) :
    e.Everywhere Expr.Valid :=
  h.everywhere fun _ => Fresh.valid

/-- **All that callers can hold is valid.** After any run of calls, successful and failing ones in
    any order, every node that is held obeys the rules, and so does every node within it. -/
theorem valid_of_held {held : List Expr} (h : Held anyCall held) :
    ∀ e ∈ held, ∀ s : Expr, s.Within e → s.Valid :=
  fun _ he => Built.everywhere_valid ⟨held, h, he⟩

/-- A run of four calls, the second of which fails. The last one wraps a removal into options. -/
theorem valid_of_held_removal :
    (Expr.query (.andThen (.start (.forIn "for" (.identifier "users")))
      (.remove (.identifier "for") "users" (some [("in", .integer 1)])))).Everywhere
        Expr.Valid := by
  let loop : Query := .start (.forIn "for" (.identifier "users"))
  let removal : Query := .andThen loop (.remove (.identifier "for") "users" none)
  have hloop : Held anyCall [.query loop] :=
    Held.nothing.answer (.clause none (.forIn "for" (.value (.string "users")))) trivial
      (by simp [Call.nodes, Draft.nodes, Operand.nodes]) rfl
  have hfailed : Held anyCall [.query loop] :=
    hloop.call (.cast (.value (.array []))) trivial (by simp [Call.nodes, Operand.nodes])
  have hremoval : Held anyCall [.query removal, .query loop] :=
    hfailed.answer
      (.extend loop (.remove (.value (.string "for")) (.value (.string "users")))) trivial
      (by simp [Call.nodes, Draft.nodes, Operand.nodes]) rfl
  have hwrapped := hremoval.answer
    (.options removal (.value (.object [("in", .integer 1)]))) trivial
    (by simp [Call.nodes, Operand.nodes]) rfl
  exact valid_of_held hwrapped _ List.mem_cons_self

end QueryTree
