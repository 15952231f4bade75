import QueryTree.Proofs.Text.ClauseMarks

/-!
# How many clauses a text has

The text of a query determines its marks, the clauses that stand outside of brackets. Which of them
are the query's own is another matter. A clause that ends with an options wrapper leaves it open
whether the next clause goes on in the wrapper or in the query (`clauses_of_text_ambiguous`). Where
no clause ends so, the query's own clauses are those that stand at depth zero, and their forms and
their number are determined as well. It is enough that one of two queries with one text has no such
clause, since it shows in the marks (`Query.endsInWrapper_iff`).
-/

set_option autoImplicit false

namespace QueryTree

/-- A clause that ends with its operand, where the operand is an options wrapper. -/
def Clause.EndsInWrapper : Clause → Prop
  | .forIn _ e | .filter e | .bind _ e | .ret _ e => e.kind = .optionsWrapper
  | .remove .. | .insert .. | .modify .. => False

/-! ## Depth -/

mutual

/-- What stands in an operand stands no less deep than the operand. -/
theorem Expr.le_depth_of_mem_marks : ∀ (e : Expr) (d : Nat), ∀ m ∈ e.marks d, d ≤ m.depth
  | .query q, d, m, hm => by
    rw [Expr.marks] at hm
    split at hm
    · exact Query.le_depth_of_mem_marks q d true m hm
    · exact absurd hm List.not_mem_nil
  | .integer _, _, _, hm | .number _, _, _, hm | .string _, _, _, hm | .boolean _, _, _, hm
  | .null, _, _, hm | .identifier _, _, _, hm | .reference _, _, _, hm | .raw _, _, _, hm
  | .keyword _, _, _, hm | .collection _, _, _, hm | .object _, _, _, hm | .list _, _, _, hm
  | .unary .., _, _, hm | .binary .., _, _, hm | .conditional .., _, _, hm
  | .call .., _, _, hm => absurd hm List.not_mem_nil

theorem Query.le_depth_of_mem_marks : ∀ (q : Query) (d : Nat) (leads : Bool),
    ∀ m ∈ q.marks d leads, d ≤ m.depth
  | .start c, d, leads, m, hm => by
    rcases List.mem_cons.1 hm with rfl | hm
    · exact Nat.le_refl d
    · exact Clause.le_depth_of_mem_innerMarks c d m hm
  | .andThen q c, d, leads, m, hm => by
    rcases List.mem_append.1 hm with hm | hm
    · exact Query.le_depth_of_mem_marks q d leads m hm
    · rcases List.mem_cons.1 hm with rfl | hm
      · exact Nat.le_refl d
      · exact Clause.le_depth_of_mem_innerMarks c d m hm

theorem Clause.le_depth_of_mem_innerMarks : ∀ (c : Clause) (d : Nat),
    ∀ m ∈ c.innerMarks d, d ≤ m.depth
  | .forIn _ e, d, m, hm | .filter e, d, m, hm | .bind _ e, d, m, hm | .ret _ e, d, m, hm =>
    Expr.le_depth_of_mem_marks e d m hm
  | .remove e _ _, d, m, hm | .insert e _ _, d, m, hm =>
    Nat.le_of_succ_le (Expr.le_depth_of_mem_marks e (d + 1) m hm)
  | .modify _ e change _ _, d, m, hm => by
    rcases List.mem_append.1 hm with hm | hm
    · exact Nat.le_of_succ_le (Expr.le_depth_of_mem_marks e (d + 1) m hm)
    · exact Nat.le_of_succ_le (Clause.le_depth_of_mem_changeMarks change (d + 1) m hm)

theorem Clause.le_depth_of_mem_changeMarks : ∀ (change : Option Expr) (d : Nat),
    ∀ m ∈ Clause.changeMarks d change, d ≤ m.depth
  | none, _, _, hm => absurd hm List.not_mem_nil
  | some e, d, m, hm => Expr.le_depth_of_mem_marks e d m hm

end

/-! ## The marks at the depth of a query -/

section

variable {q : Query} {c : Clause} {d : Nat}

theorem Query.marks_eq_flatMap (q : Query) (d : Nat) :
    q.marks d false = q.clauses.flatMap (Clause.marks d false) := by
  induction q with
  | start c => rw [marks, clauses, List.flatMap_singleton, Clause.marks]
  | andThen q c ih =>
    rw [marks, ih, clauses, List.flatMap_append, List.flatMap_singleton, Clause.marks]

theorem Query.exists_first_mark (q : Query) (d : Nat) (leads : Bool) :
    ∃ m ∈ q.marks d leads, m.depth = d ∧ m.leads = leads := by
  induction q with
  | start c => exact ⟨_, List.mem_cons_self, rfl, rfl⟩
  | andThen q c ih =>
    obtain ⟨m, hm, hdepth, hleads⟩ := ih
    exact ⟨m, List.mem_append_left _ hm, hdepth, hleads⟩

theorem Clause.exists_leading_mark (h : c.EndsInWrapper) (d : Nat) :
    ∃ m ∈ c.innerMarks d, m.depth = d ∧ m.leads = true := by
  have hoperand : ∀ e : Expr, e.kind = .optionsWrapper →
      ∃ m ∈ e.marks d, m.depth = d ∧ m.leads = true := by
    intro e hkind
    cases e with
    | query q =>
      rw [Expr.marks_of_wrapper hkind]
      exact q.exists_first_mark d true
    | _ => cases hkind
  cases c with
  | forIn _ e | filter e | bind _ e | ret _ e => exact hoperand e h
  | remove | insert | modify => exact h.elim

/-- Behind the keyword of such a clause nothing stands at its own depth. -/
theorem Clause.depth_ne_of_mem_innerMarks (h : ¬ c.EndsInWrapper) :
    ∀ m ∈ c.innerMarks d, m.depth ≠ d := by
  have hdeeper : ∀ m : Mark, d + 1 ≤ m.depth → m.depth ≠ d := fun m hm => by omega
  intro m hm
  cases c with
  | forIn _ e | filter e | bind _ e | ret _ e =>
    have hnone : e.marks d = [] := Expr.marks_of_kind h d
    rw [innerMarks, hnone] at hm
    exact absurd hm List.not_mem_nil
  | remove e _ _ | insert e _ _ => exact hdeeper m (Expr.le_depth_of_mem_marks e (d + 1) m hm)
  | modify _ e change _ _ =>
    rcases List.mem_append.1 hm with hm | hm
    · exact hdeeper m (Expr.le_depth_of_mem_marks e (d + 1) m hm)
    · exact hdeeper m (le_depth_of_mem_changeMarks change (d + 1) m hm)

/-- Whether a clause of a query ends with a wrapper shows in the marks. -/
theorem Query.endsInWrapper_iff : (∀ c ∈ q.clauses, ¬ c.EndsInWrapper) ↔
    ∀ m ∈ q.marks d false, m.depth = d → m.leads = false := by
  rw [marks_eq_flatMap]
  constructor
  · intro h m hm hdepth
    obtain ⟨c, hc, hm⟩ := List.mem_flatMap.1 hm
    rcases List.mem_cons.1 hm with rfl | hm
    · rfl
    · exact absurd hdepth (Clause.depth_ne_of_mem_innerMarks (h c hc) m hm)
  · intro h c hc hends
    obtain ⟨m, hm, hdepth, hleads⟩ := Clause.exists_leading_mark hends d
    have hmarks : m ∈ c.marks d false := List.mem_cons_of_mem _ hm
    rw [h m (List.mem_flatMap.2 ⟨c, hc, hmarks⟩) hdepth] at hleads
    cases hleads

/-- **The marks at the depth of a query are its own clauses.** -/
theorem Query.ownMarks_eq (h : ∀ c ∈ q.clauses, ¬ c.EndsInWrapper) (d : Nat) :
    (q.marks d false).filter (fun m => m.depth = d) =
      q.clauses.map fun c => ⟨c.form, d, false⟩ := by
  rw [marks_eq_flatMap, List.filter_flatMap, List.map_eq_flatMap]
  refine List.flatMap_congr fun c hc => ?_
  have hinner : (c.innerMarks d).filter (fun m => m.depth = d) = [] := by
    refine List.filter_eq_nil_iff.2 fun m hm => ?_
    rw [decide_eq_true_eq]
    exact Clause.depth_ne_of_mem_innerMarks (h c hc) m hm
  rw [Clause.marks, List.filter_cons_of_pos (by simp), hinner]

end

/-! ## What a run can write -/

/-- The calls of which all names are data; numbers may be spelled out. -/
def dataCall (c : Call) : Prop := plainCall c ∨ ∃ x, c = .number x

theorem Fresh.isReadable {e : Expr} (h : Fresh dataCall e) : e.IsReadable := by
  refine ⟨h.valid, ?_⟩
  cases h with
  | castReference compound => exact compound
  | reference sort | raw sort | keyword sort | collection sort =>
    rcases sort with sort | ⟨x, hx⟩
    · cases sort
    · cases hx
  | _ => trivial

section

variable {e : Expr} {name : String}

theorem Draft.toClause_removal (hname : isCollectionName name = true) :
    (Draft.remove (.expr e) (.value (.string name))).toClause = .ok (.remove e name none) := by
  have hcollection : Operand.toCollection (.value (.string name)) = .ok name := if_pos hname
  rw [Draft.toClause, hcollection]
  rfl

/-- A removal can follow any query, and its options can come at once. -/
theorem Built.removal (before : Option Query)
    (hbefore : ∀ q ∈ before, Built dataCall (.query q)) (he : Built dataCall e)
    (hname : isCollectionName name = true) :
    Built dataCall (.query (Query.follow before (.remove e name none))) := by
  refine .call (.clause (before.map .query) (.remove (.expr e) (.value (.string name))))
    (.inl rfl) ?_ ?_
  · intro s hs
    cases before with
    | none => exact List.mem_singleton.1 hs ▸ he
    | some q =>
      rcases List.mem_cons.1 hs with rfl | hs
      · exact hbefore q rfl
      · exact List.mem_singleton.1 hs ▸ he
  · rw [Call.answer, Draft.build, Draft.toClause_removal hname]
    cases before <;> rfl

theorem Built.removal_options (before : Option Query)
    (hbefore : ∀ q ∈ before, Built dataCall (.query q)) (he : Built dataCall e)
    (hname : isCollectionName name = true) :
    Built dataCall (.query (Query.follow before (.remove e name (some [])))) := by
  refine .call (.options (Query.follow before (.remove e name none)) (.value (.object [])))
    (.inl rfl) (fun s hs => ?_) (by cases before <;> rfl)
  exact List.mem_singleton.1 hs ▸ Built.removal before hbefore he hname

theorem Built.filter (he : Built dataCall e) :
    Built dataCall (.query (.start (.filter e))) :=
  .call (.clause none (.filter (.expr e))) (.inl rfl)
    (fun _ hs => List.mem_singleton.1 hs ▸ he) rfl

end

/-- **A text determines its clauses**, as far as it can. Two queries with one text have the same
    clauses outside of brackets, at the same depths and in the same order. When no clause of one of
    them ends with an options wrapper, none of the other does, and the queries have as many clauses
    of the same forms. -/
theorem Query.clauses_of_text {q r : Query} (hq : Built dataCall (.query q))
    (hr : Built dataCall (.query r)) (htext : (Expr.query q).text = (Expr.query r).text) :
    q.marks 0 false = r.marks 0 false ∧
    ((∀ c ∈ q.clauses, ¬ c.EndsInWrapper) → (∀ c ∈ r.clauses, ¬ c.EndsInWrapper) ∧
      q.clauses.map Clause.form = r.clauses.map Clause.form ∧
      q.clauses.length = r.clauses.length) := by
  have hreads := Query.reads (hq.everywhere fun _ => Fresh.isReadable) q rfl false 0
  have hreads' := Query.reads (hr.everywhere fun _ => Fresh.isReadable) r rfl false 0
  have hchars : q.chars = r.chars := String.ofList_inj.1 htext
  rw [hchars] at hreads
  have hmarks : q.marks 0 false = r.marks 0 false := (hreads.unique hreads').2
  refine ⟨hmarks, fun hends => ?_⟩
  have hends' : ∀ c ∈ r.clauses, ¬ c.EndsInWrapper := by
    rw [endsInWrapper_iff (d := 0), ← hmarks]
    exact endsInWrapper_iff.1 hends
  have hforms : q.clauses.map Clause.form = r.clauses.map Clause.form := by
    have hown := congrArg (List.map Mark.form) (ownMarks_eq hends 0)
    have hown' := congrArg (List.map Mark.form) (ownMarks_eq hends' 0)
    rw [hmarks, hown'] at hown
    simpa [List.map_map, Function.comp_def] using hown.symm
  refine ⟨hends', hforms, ?_⟩
  have hlength := congrArg List.length hforms
  rwa [List.length_map, List.length_map] at hlength

/-- A removal within a removal, of an integer and of the same number as a float. -/
theorem Query.clauses_of_text_nested :
    let inner (target : Expr) : Query := .start (.remove target "x" (some []))
    let q : Query := .start (.remove (.query (inner (.integer 1))) "y" none)
    let r : Query := .start (.remove (.query (inner (.number (.ofInt 1)))) "y" none)
    q.clauses.map Clause.form = r.clauses.map Clause.form ∧
      r.marks 0 false = [⟨.remove, 0, false⟩, ⟨.remove, 1, true⟩] := by
  intro inner q r
  have hinteger : Built dataCall (.integer 1) :=
    .of_answer (c := .integer 1) (.inl rfl) rfl rfl
  have hnumber : Built dataCall (.number (.ofInt 1)) :=
    .of_answer (c := .number (.ofInt 1)) (.inr ⟨_, rfl⟩) rfl rfl
  have hq : Built dataCall (.query q) :=
    .removal none (by simp) (.removal_options none (by simp) hinteger rfl) rfl
  have hr : Built dataCall (.query r) :=
    .removal none (by simp) (.removal_options none (by simp) hnumber rfl) rfl
  obtain ⟨hmarks, hcount⟩ := clauses_of_text hq hr (by decide +kernel)
  have hends : ∀ c ∈ q.clauses, ¬ c.EndsInWrapper := by
    intro c hc
    rw [List.mem_singleton.1 hc]
    exact id
  exact ⟨(hcount hends).2.1, hmarks ▸ rfl⟩

/-- A filter by one removal with another removal after it, and a filter by both: a text with two
    clauses or with one. -/
theorem clauses_of_text_ambiguous :
    let single : Query := .start (.remove (.identifier "a") "x" (some []))
    let both : Query := .andThen single (.remove (.identifier "a") "y" (some []))
    let q : Query := .andThen (.start (.filter (.query single)))
      (.remove (.identifier "a") "y" (some []))
    let r : Query := .start (.filter (.query both))
    Built dataCall (.query q) ∧ Built dataCall (.query r) ∧
      (Expr.query q).text = (Expr.query r).text ∧ q.clauses.length = 2 ∧ r.clauses.length = 1 := by
  intro single both q r
  have hname : Built dataCall (.identifier "a") :=
    .of_answer (c := .identifier "a") (.inl rfl) rfl rfl
  have hsingle : Built dataCall (.query single) :=
    .removal_options none (by simp) hname rfl
  have hboth : Built dataCall (.query both) :=
    .removal_options (some single) (fun _ h => Option.some.inj h ▸ hsingle) hname rfl
  have hq : Built dataCall (.query q) :=
    .removal_options (some (.start (.filter (.query single))))
      (fun _ h => Option.some.inj h ▸ hsingle.filter) hname rfl
  exact ⟨hq, hboth.filter, rfl, rfl, rfl⟩

end QueryTree
