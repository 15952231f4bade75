import Mathlib.Data.List.Forall2
import QueryTree.Equality
import QueryTree.Proofs.Build.Validity
import QueryTree.Proofs.Number.Text

/-!
# Structural equality is an equivalence

Two trees are the same when their roots are and their parts are, one by one (`Expr.same_iff`). What
holds of roots then holds of trees, by one induction each: being the same is symmetric and
transitive for all trees, and a tree is the same as itself if and only if there is no NaN in it
(`Expr.same_self_iff`). Numbers are checked on every way into a tree, so in what callers can build
there is none.
-/

set_option autoImplicit false

namespace QueryTree

/-! ## Numbers -/

namespace Binary64

variable {x y z : Binary64}

theorem sameNumber_self_iff : x.sameNumber x = true ↔ x.isNaN = false := by
  simp [sameNumber]

theorem sameNumber_symm (h : x.sameNumber y = true) : y.sameNumber x = true := by
  simp only [sameNumber, Bool.and_eq_true, Bool.or_eq_true, beq_iff_eq] at h ⊢
  obtain ⟨⟨⟨hx, hy⟩, hrank⟩, hsign⟩ := h
  exact ⟨⟨⟨hy, hx⟩, hrank.symm⟩, hsign.imp Eq.symm fun hzero => hrank ▸ hzero⟩

theorem sameNumber_trans (h : x.sameNumber y = true) (h' : y.sameNumber z = true) :
    x.sameNumber z = true := by
  simp only [sameNumber, Bool.and_eq_true, Bool.or_eq_true, beq_iff_eq] at h h' ⊢
  obtain ⟨⟨⟨hx, -⟩, hrank⟩, hsign⟩ := h
  obtain ⟨⟨⟨-, hz⟩, hrank'⟩, hsign'⟩ := h'
  refine ⟨⟨⟨hx, hz⟩, hrank.trans hrank'⟩, ?_⟩
  rcases hsign with hsign | hzero
  · exact hsign'.imp hsign.trans fun hzero => hrank.trans hzero
  · exact .inr hzero

end Binary64

/-! ## Roots -/

/-- The clause with nothing in its places. Which of its optional places are filled is still seen. -/
def Clause.shell : Clause → Clause
  | .forIn name _ => .forIn name .null
  | .filter _ => .filter .null
  | .bind name _ => .bind name .null
  | .ret distinct _ => .ret distinct .null
  | .remove _ collection options => .remove .null collection (options.map fun _ => [])
  | .insert _ collection options => .insert .null collection (options.map fun _ => [])
  | .modify verb _ change collection options =>
    .modify verb .null (change.map fun _ => .null) collection (options.map fun _ => [])

/-- The query with nothing in the places of its last clause, and any query for the one that the
    clause follows. -/
def Query.shell : Query → Query
  | .start c => .start c.shell
  | .andThen _ c => .andThen (.start (.filter .null)) c.shell

namespace Expr

/-- The node with nothing in its places. All numbers have one shell; any other leaf is all shell. -/
def shell : Expr → Expr
  | .number _ => .number default
  | .object entries => .object (entries.map fun pair => (pair.1, .null))
  | .list _ => .list []
  | .unary op _ => .unary op .null
  | .binary op _ _ => .binary op .null .null
  | .conditional _ _ _ => .conditional .null .null .null
  | .call function _ => .call function []
  | .query q => .query q.shell
  | leaf => leaf

/-- Two nodes that are the same but for their parts. -/
def SameRoot (e f : Expr) : Prop :=
  e.shell = f.shell ∧ ∀ x y, e = .number x → f = .number y → x.sameNumber y = true

abbrev Same (e f : Expr) : Prop := e.same f = true

variable {e f g : Expr}

theorem sameItems_iff {es fs : List Expr} :
    sameItems es fs = true ↔ List.Forall₂ Same es fs := by
  induction es generalizing fs with
  | nil => cases fs <;> simp [sameItems]
  | cons e es ih => cases fs <;> simp [sameItems, ih]

theorem sameEntries_iff {es fs : List (String × Expr)} :
    sameEntries es fs = true ↔
      es.map (fun pair => (pair.1, null)) = fs.map (fun pair => (pair.1, null)) ∧
        List.Forall₂ Same (es.map Prod.snd) (fs.map Prod.snd) := by
  induction es generalizing fs with
  | nil => cases fs <;> simp [sameEntries]
  | cons e es ih =>
    cases fs with
    | nil => simp [sameEntries]
    | cons f fs =>
      simp only [sameEntries, Bool.and_eq_true, beq_iff_eq, ih, List.map_cons, List.cons.injEq,
        Prod.mk.injEq, and_true, List.forall₂_cons]
      tauto

end Expr

namespace Clause

theorem sameOptions_iff {o p : Option (Entries Expr)} :
    sameOptions o p = true ↔
      o.map (fun _ => ([] : Entries Expr)) = p.map (fun _ => []) ∧
        List.Forall₂ Expr.Same (optionNodes o) (optionNodes p) := by
  cases o <;> cases p <;> simp [sameOptions, optionNodes, Expr.same]

/-- The nodes of a clause behind its change are told from it once it is known whether there is a
    change. -/
theorem sameChange_and_iff (a b : Option Expr) (es fs : List Expr) :
    sameChange a b = true ∧ List.Forall₂ Expr.Same es fs ↔
      a.map (fun _ => Expr.null) = b.map (fun _ => Expr.null) ∧
        List.Forall₂ Expr.Same (a.toList ++ es) (b.toList ++ fs) := by
  cases a <;> cases b <;> simp [sameChange]

theorem same_iff {c d : Clause} :
    c.same d = true ↔ c.shell = d.shell ∧ List.Forall₂ Expr.Same c.parts d.parts := by
  cases c with
  | forIn | filter | bind | ret => cases d <;> simp [Clause.same, shell, parts]
  | remove e s o =>
    cases d with
    | remove f t p =>
      simp only [Clause.same, shell, parts, sameOptions_iff, Bool.and_eq_true, beq_iff_eq,
        remove.injEq, List.forall₂_cons]
      tauto
    | _ => simp [Clause.same, shell]
  | insert e s o =>
    cases d with
    | insert f t p =>
      simp only [Clause.same, shell, parts, sameOptions_iff, Bool.and_eq_true, beq_iff_eq,
        insert.injEq, List.forall₂_cons]
      tauto
    | _ => simp [Clause.same, shell]
  | modify verb e change s o =>
    cases d with
    | modify verb' f change' t p =>
      have hchange := sameChange_and_iff change change' (optionNodes o) (optionNodes p)
      simp only [Clause.same, shell, parts, sameOptions_iff, Bool.and_eq_true, beq_iff_eq,
        modify.injEq, List.cons_append, List.forall₂_cons]
      tauto
    | _ => simp [Clause.same, shell]

end Clause

namespace Expr

variable {e f g : Expr}

/-- **Two trees are the same when their roots are and their parts are**, one by one. -/
theorem same_iff : e.same f = true ↔ e.SameRoot f ∧ List.Forall₂ Same e.parts f.parts := by
  cases e with
  | query q =>
    cases f with
    | query r =>
      cases q with
      | start c =>
        cases r <;>
          simp [same, Query.same, SameRoot, shell, Query.shell, parts, predecessors, operands,
            Query.last, Clause.same_iff]
      | andThen q c =>
        cases r with
        | start d => simp [same, Query.same, SameRoot, shell, Query.shell]
        | andThen r d =>
          have hroot : (query (.andThen q c)).SameRoot (.query (.andThen r d)) ↔
              c.shell = d.shell := by
            simp [SameRoot, shell, Query.shell]
          have hparts : List.Forall₂ Same (query (.andThen q c)).parts
              (query (.andThen r d)).parts ↔
                q.same r = true ∧ List.Forall₂ Same c.parts d.parts := List.forall₂_cons
          rw [hroot, hparts, same, Query.same, Bool.and_eq_true, Clause.same_iff, and_left_comm]
    | _ => simp [same, SameRoot, shell]
  | object es =>
    cases f <;> simp [same, SameRoot, shell, parts, predecessors, operands, sameEntries_iff]
  | list es | call s es =>
    cases f <;> simp [same, SameRoot, shell, parts, predecessors, operands, sameItems_iff]
  | _ => cases f <;> simp [same, SameRoot, shell, parts, predecessors, operands, and_assoc]

/-! ## The laws -/

theorem shell_eq_number_iff : e.shell = .number default ↔ ∃ x, e = .number x := by
  cases e <;> simp [shell]

theorem sameRoot_self_iff : e.SameRoot e ↔ ∀ x, e = .number x → x.isNaN = false := by
  refine ⟨fun h x hx => Binary64.sameNumber_self_iff.1 (h.2 x x hx hx), fun h => ⟨rfl, ?_⟩⟩
  rintro x y rfl hxy
  cases hxy
  exact Binary64.sameNumber_self_iff.2 (h x rfl)

theorem SameRoot.symm (h : e.SameRoot f) : f.SameRoot e :=
  ⟨h.1.symm, fun x y hf he => Binary64.sameNumber_symm (h.2 y x he hf)⟩

theorem SameRoot.trans (h : e.SameRoot f) (h' : f.SameRoot g) : e.SameRoot g := by
  refine ⟨h.1.trans h'.1, ?_⟩
  rintro x z rfl rfl
  obtain ⟨y, rfl⟩ : ∃ y, f = .number y := shell_eq_number_iff.1 h.1.symm
  exact Binary64.sameNumber_trans (h.2 x y rfl rfl) (h'.2 y z rfl rfl)

theorem forall₂_symm_of_mem {es fs : List Expr} (h : ∀ e ∈ es, ∀ f, e.Same f → f.Same e)
    (hsame : List.Forall₂ Same es fs) : List.Forall₂ Same fs es :=
  (((List.forall₂_and_left _ _).2 ⟨h, hsame⟩).imp fun _ f hf => hf.1 f hf.2).flip

theorem forall₂_trans_of_mem {es fs gs : List Expr}
    (h : ∀ e ∈ es, ∀ f g, e.Same f → f.Same g → e.Same g) (hsame : List.Forall₂ Same es fs)
    (hsame' : List.Forall₂ Same fs gs) : List.Forall₂ Same es gs := by
  induction hsame generalizing gs with
  | nil => exact hsame'
  | cons he _ ih =>
    cases hsame' with
    | cons hf hfs =>
      exact .cons (h _ List.mem_cons_self _ _ he hf)
        (ih (fun s hs => h s (List.mem_cons_of_mem _ hs)) hfs)

/-- **Only a NaN makes a tree differ from itself.** -/
theorem same_self_iff : e.same e = true ↔ ∀ x, (number x).Within e → x.isNaN = false := by
  have everywhere :
      e.same e = true ↔ e.Everywhere fun s => ∀ x, s = .number x → x.isNaN = false := by
    induction e using within_induction with | step e ih => ?_
    rw [same_iff, sameRoot_self_iff, List.forall₂_same, everywhere_iff]
    exact and_congr_right fun _ => forall₂_congr fun s hs => ih s (.single hs)
  rw [everywhere]
  exact ⟨fun h x hx => h _ hx x rfl, fun h s hs x hx => h x (hx ▸ hs)⟩

theorem same_symm (h : e.same f = true) : f.same e = true := by
  induction e using within_induction generalizing f with | step e ih => ?_
  obtain ⟨hroot, hparts⟩ := same_iff.1 h
  exact same_iff.2 ⟨hroot.symm, forall₂_symm_of_mem (fun s hs t => ih s (.single hs)) hparts⟩

theorem same_trans (h : e.same f = true) (h' : f.same g = true) : e.same g = true := by
  induction e using within_induction generalizing f g with | step e ih => ?_
  obtain ⟨hroot, hparts⟩ := same_iff.1 h
  obtain ⟨hroot', hparts'⟩ := same_iff.1 h'
  exact same_iff.2 ⟨hroot.trans hroot',
    forall₂_trans_of_mem (fun s hs t u => ih s (.single hs)) hparts hparts'⟩

end Expr

/-! ## What callers can build -/

/-- No run of calls stores a NaN, at any depth. -/
theorem Built.isNaN_eq_false {allowed : Call → Prop} {e : Expr} (h : Built allowed e)
    {x : Binary64} (hx : (Expr.number x).Within e) : x.isNaN = false :=
  Binary64.isNaN_of_isFinite (h.everywhere_valid _ hx)

/-- **Structural equality is an equivalence** on all that callers can build, by successful and
    failing calls in any order. Nothing that they hold contains a NaN, and a NaN is the only thing
    that could make a node differ from its own copy. -/
theorem Expr.same_equivalence :
    Equivalence (fun a b : { e : Expr // Built anyCall e } => a.val.same b.val = true) ∧
      (∀ held, Held anyCall held → ∀ e ∈ held, ∀ x, (Expr.number x).Within e →
        x.isNaN = false) ∧
      ∀ e : Expr, e.same e = true ↔ ∀ x, (Expr.number x).Within e → x.isNaN = false := by
  refine ⟨⟨?refl, fun h => same_symm h, fun h h' => same_trans h h'⟩, ?held, fun e => same_self_iff⟩
  case refl => exact fun a => same_self_iff.2 fun x hx => a.property.isNaN_eq_false hx
  case held => exact fun held hheld e he x hx => Built.isNaN_eq_false ⟨held, hheld, he⟩ hx

/-- Lists of the two zeros, each the same as the other. A NaN, which no call gives, would not be
    the same as itself. -/
theorem Expr.same_equivalence_zeros :
    (list [.number ⟨0⟩]).same (list [.number ⟨0x8000000000000000⟩]) = true ∧
      (list [.number ⟨0x8000000000000000⟩]).same (list [.number ⟨0⟩]) = true ∧
      (number ⟨0x7ff8000000000000⟩).same (.number ⟨0x7ff8000000000000⟩) ≠ true := by
  have hbuilt (x : Binary64) (hx : x.isFinite = true) : Built anyCall (list [.number x]) := by
    refine .call (.items [.expr (.number x)]) trivial ?_ rfl
    intro e he
    rw [List.mem_singleton.1 he]
    exact Built.of_answer (c := .number x) trivial rfl (congrArg some (if_pos hx))
  have hsame : (list [.number ⟨0⟩]).same (list [.number ⟨0x8000000000000000⟩]) = true := by decide
  refine ⟨hsame, ?_, fun hself => ?_⟩
  · exact same_equivalence.1.symm (x := ⟨_, hbuilt ⟨0⟩ (by decide)⟩)
      (y := ⟨_, hbuilt ⟨0x8000000000000000⟩ (by decide)⟩) hsame
  · exact absurd ((same_equivalence.2.2 _).1 hself _ .refl) (by decide)

end QueryTree
