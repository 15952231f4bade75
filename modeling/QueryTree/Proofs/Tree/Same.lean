import QueryTree.Equality
import QueryTree.Proofs.Number.Text
import QueryTree.Proofs.Tree.Parts

/-!
# Structural equality is equality

`Expr.same` compares trees place by place and floats as numbers, so it is equality wherever numbers
are equal as numbers only when they are the same float (`Expr.same_iff_eq`). Of the finite floats,
the two zeros are the only ones that are not.
-/

set_option autoImplicit false

namespace QueryTree

/-- A float that is the same number as no other, and as itself. -/
def Binary64.IsExact (x : Binary64) : Prop := ∀ y, x.sameNumber y = true ↔ x = y

theorem Binary64.eq_or_rank_eq_zero {x y : Binary64} (h : x.sameNumber y = true) :
    x = y ∨ (x.rank = 0 ∧ y.rank = 0 ∧ x.isNegative ≠ y.isNegative) := by
  simp only [sameNumber, Bool.and_eq_true, Bool.or_eq_true, beq_iff_eq] at h
  obtain ⟨⟨-, hrank⟩, hsign⟩ := h
  by_cases hsame : x.isNegative = y.isNegative
  · exact .inl (eq_of_rank_eq hsame hrank)
  · have hzero : x.rank = 0 := hsign.resolve_left hsame
    exact .inr ⟨hzero, hrank ▸ hzero, hsame⟩

theorem Binary64.isExact_of_rank_ne_zero {x : Binary64} (hfinite : x.isFinite = true)
    (hrank : x.rank ≠ 0) : x.IsExact := by
  have hnan : x.isNaN = false := isNaN_of_isFinite hfinite
  refine fun y => ⟨fun hsame => ?_, ?_⟩
  · exact (eq_or_rank_eq_zero hsame).resolve_right fun hzero => hrank hzero.1
  · rintro rfl
    simp [sameNumber, hnan]

/-- Whether a node is no number, or one that is the same as no other. -/
def Expr.IsExact : Expr → Prop
  | .number x => x.IsExact
  | _ => True

def Expr.SameIsEq (e : Expr) : Prop := ∀ f, e.same f = true ↔ e = f

theorem Expr.sameItems_iff_eq {es : List Expr} (h : ∀ e ∈ es, e.SameIsEq) (fs : List Expr) :
    Expr.sameItems es fs = true ↔ es = fs := by
  induction es generalizing fs with
  | nil => cases fs <;> simp [Expr.sameItems]
  | cons e es ih =>
    cases fs with
    | nil => simp [Expr.sameItems]
    | cons f fs =>
      have he : e.same f = true ↔ e = f := h e (by simp) f
      rw [Expr.sameItems, Bool.and_eq_true, he, ih fun s hs => h s (by simp [hs])]
      simp

theorem Expr.sameEntries_iff_eq {es : List (String × Expr)}
    (h : ∀ e ∈ es.map Prod.snd, e.SameIsEq) (fs : List (String × Expr)) :
    Expr.sameEntries es fs = true ↔ es = fs := by
  induction es generalizing fs with
  | nil => cases fs <;> simp [Expr.sameEntries]
  | cons pair es ih =>
    obtain ⟨key, e⟩ := pair
    cases fs with
    | nil => simp [Expr.sameEntries]
    | cons pair' fs =>
      obtain ⟨key', f⟩ := pair'
      have he : e.same f = true ↔ e = f := h e (by simp) f
      have hrest := ih (fun s hs => h s (List.mem_cons_of_mem _ hs)) fs
      rw [Expr.sameEntries, Bool.and_eq_true, Bool.and_eq_true, he, hrest]
      simp

theorem Clause.sameOptions_iff_eq {options : Option (List (String × Expr))}
    (h : ∀ s ∈ optionNodes options, s.SameIsEq) (options' : Option (List (String × Expr))) :
    sameOptions options options' = true ↔ options = options' := by
  cases options with
  | none => cases options' <;> simp [sameOptions]
  | some es =>
    cases options' with
    | none => simp [sameOptions]
    | some fs =>
      have hobject : (Expr.object es).same (.object fs) = true ↔ Expr.object es = .object fs :=
        h _ (by simp [optionNodes]) _
      simpa [sameOptions, Expr.same] using hobject

theorem Clause.sameChange_iff_eq {change : Option Expr} (h : ∀ s ∈ change.toList, s.SameIsEq)
    (change' : Option Expr) : sameChange change change' = true ↔ change = change' := by
  cases change with
  | none => cases change' <;> simp [sameChange]
  | some e =>
    cases change' with
    | none => simp [sameChange]
    | some f => simpa [sameChange] using h e (by simp) f

theorem Clause.same_iff_eq {c : Clause} (h : ∀ s ∈ c.parts, s.SameIsEq) (d : Clause) :
    c.same d = true ↔ c = d := by
  cases c with
  | forIn s e | filter e | bind s e | ret s e =>
    have he : ∀ f, e.same f = true ↔ e = f := h e (by simp [parts])
    cases d <;> simp [Clause.same, he]
  | remove e s options | insert e s options =>
    have he : ∀ f, e.same f = true ↔ e = f := h e (by simp [parts])
    have hoptions := sameOptions_iff_eq fun s hs => h s (List.mem_cons_of_mem _ hs)
    cases d <;> simp [Clause.same, he, hoptions, and_assoc]
  | modify verb e change s options =>
    have he : ∀ f, e.same f = true ↔ e = f := h e (by simp [parts])
    have hchange := sameChange_iff_eq fun s hs =>
      h s (List.mem_append_left _ (List.mem_cons_of_mem _ hs))
    have hoptions := sameOptions_iff_eq fun s hs => h s (List.mem_append_right _ hs)
    cases d <;> simp [Clause.same, he, hchange, hoptions, and_assoc]

/-- **Structural equality is equality**, except for numbers that are written in two ways. -/
theorem Expr.same_iff_eq {e : Expr} (h : e.Everywhere IsExact) : e.SameIsEq := by
  induction e using within_induction with | step e ih => ?_
  have part : ∀ s ∈ e.parts, s.SameIsEq := fun s hs => ih s (.single hs) (h.part hs)
  intro f
  cases e with
  | number x =>
    have hx : ∀ y, x.sameNumber y = true ↔ x = y := h.here
    cases f <;> simp [same, hx]
  | object entries =>
    have hentries : ∀ fs, sameEntries entries fs = true ↔ entries = fs := sameEntries_iff_eq part
    cases f <;> simp [same, hentries]
  | list items =>
    have hitems : ∀ fs, sameItems items fs = true ↔ items = fs := sameItems_iff_eq part
    cases f <;> simp [same, hitems]
  | unary op e =>
    have he : ∀ f, e.same f = true ↔ e = f := part e (by simp [parts, predecessors, operands])
    cases f <;> simp [same, he]
  | binary op l r =>
    have hl : ∀ f, l.same f = true ↔ l = f := part l (by simp [parts, predecessors, operands])
    have hr : ∀ f, r.same f = true ↔ r = f := part r (by simp [parts, predecessors, operands])
    cases f <;> simp [same, hl, hr, and_assoc]
  | conditional c y n =>
    have hc : ∀ f, c.same f = true ↔ c = f := part c (by simp [parts, predecessors, operands])
    have hy : ∀ f, y.same f = true ↔ y = f := part y (by simp [parts, predecessors, operands])
    have hn : ∀ f, n.same f = true ↔ n = f := part n (by simp [parts, predecessors, operands])
    cases f <;> simp [same, hc, hy, hn, and_assoc]
  | call function arguments =>
    have harguments : ∀ fs, sameItems arguments fs = true ↔ arguments = fs :=
      sameItems_iff_eq part
    cases f <;> simp [same, harguments]
  | query q =>
    cases f with
    | query r =>
      cases q with
      | start c =>
        have hc : ∀ d, c.same d = true ↔ c = d := Clause.same_iff_eq part
        cases r with
        | start d => simp [same, Query.same, hc]
        | andThen r d => simp [same, Query.same]
      | andThen q c =>
        have hq : ∀ f, (query q).same f = true ↔ query q = f :=
          part _ (by simp [parts, predecessors])
        have hc : ∀ d, c.same d = true ↔ c = d :=
          Clause.same_iff_eq fun s hs => part s (List.mem_append_right _ hs)
        cases r with
        | start d => simp [same, Query.same]
        | andThen r d =>
          have hbefore : q.same r = true ↔ q = r := by simpa [same] using hq (.query r)
          simp [same, Query.same, hbefore, hc]
    | _ => simp [same]
  | _ => cases f <;> simp [same]

end QueryTree
