import QueryTree.Expr

/-!
# Structural equality

Two trees are the same when they have the same shape and the same content at every place. Texts
are compared as they were given, entries in their order; floats are compared as numbers
(`Binary64.sameNumber`), so the two zeros are the same and a NaN is not the same as itself.
-/

set_option autoImplicit false

namespace QueryTree

mutual

/-- Whether two expressions are the same. -/
def Expr.same : Expr → Expr → Bool
  | .integer m, .integer n => m == n
  | .number x, .number y => x.sameNumber y
  | .string s, .string t => s == t
  | .boolean b, .boolean c => b == c
  | .null, .null => true
  | .identifier s, .identifier t => s == t
  | .reference s, .reference t => s == t
  | .raw s, .raw t => s == t
  | .keyword s, .keyword t => s == t
  | .collection s, .collection t => s == t
  | .object es, .object fs => Expr.sameEntries es fs
  | .list es, .list fs => Expr.sameItems es fs
  | .unary o e, .unary p f => o == p && e.same f
  | .binary o a b, .binary p c d => o == p && a.same c && b.same d
  | .conditional a b c, .conditional d e f => a.same d && b.same e && c.same f
  | .call s es, .call t fs => s == t && Expr.sameItems es fs
  | .query q, .query r => q.same r
  | _, _ => false
termination_by structural x => x

def Expr.sameItems : List Expr → List Expr → Bool
  | [], [] => true
  | e :: es, f :: fs => e.same f && Expr.sameItems es fs
  | _, _ => false
termination_by structural x => x

def Expr.sameEntries : List (String × Expr) → List (String × Expr) → Bool
  | [], [] => true
  | (k, e) :: es, (l, f) :: fs => k == l && e.same f && Expr.sameEntries es fs
  | _, _ => false
termination_by structural x => x

def Query.same : Query → Query → Bool
  | .start c, .start d => c.same d
  | .andThen q c, .andThen r d => q.same r && c.same d
  | _, _ => false
termination_by structural x => x

def Clause.same : Clause → Clause → Bool
  | .forIn s e, .forIn t f => s == t && e.same f
  | .filter e, .filter f => e.same f
  | .bind s e, .bind t f => s == t && e.same f
  | .ret b e, .ret c f => b == c && e.same f
  | .remove e s o, .remove f t p => e.same f && s == t && Clause.sameOptions o p
  | .insert e s o, .insert f t p => e.same f && s == t && Clause.sameOptions o p
  | .modify v e a s o, .modify w f b t p =>
      v == w && e.same f && Clause.sameChange a b && s == t && Clause.sameOptions o p
  | _, _ => false
termination_by structural x => x

def Clause.sameChange : Option Expr → Option Expr → Bool
  | none, none => true
  | some e, some f => e.same f
  | _, _ => false
termination_by structural x => x

def Clause.sameOptions :
    Option (List (String × Expr)) → Option (List (String × Expr)) → Bool
  | none, none => true
  | some es, some fs => Expr.sameEntries es fs
  | _, _ => false
termination_by structural x => x

end

end QueryTree
