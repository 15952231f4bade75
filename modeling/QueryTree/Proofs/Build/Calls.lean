import QueryTree.Proofs.Build.Fresh

/-!
# Every call gives a fresh root

The functions that build, with one lemma for each as before, and then all calls. So nothing but
fresh roots occurs in a built tree, at any depth (`Built.everywhere_fresh`), and a law for all of
them is a law for all nodes of all built trees (`Built.everywhere`).
-/

set_option autoImplicit false

namespace QueryTree

variable {allowed : Call → Prop}

/-! ## Leaves, objects and lists -/

theorem variableName_eq_ok {name name' : String} (h : variableName name = .ok name') :
    name' = name ∧ isIdentifier name = true := by
  unfold variableName at h
  split at h
  · next hname => cases h; exact ⟨rfl, hname⟩
  · cases h

theorem Operand.toCollection_eq_ok {given : Operand} {name : String}
    (h : given.toCollection = .ok name) : isCollectionName name = true := by
  unfold Operand.toCollection at h
  split at h
  · unfold collectionName at h
    split at h
    · next hname => cases h; exact hname
    · cases h
  · cases h

namespace Expr

theorem fresh_of_ofFloat {x : Binary64} {e : Expr} (sort : allowed (.number x))
    (h : ofFloat x = .ok e) : e.AllFresh allowed := by
  unfold ofFloat at h
  split at h
  · next hfinite => cases h; exact (Fresh.number sort hfinite).leaf rfl
  · cases h

theorem fresh_of_ofIdentifier {name : String} {e : Expr} (h : ofIdentifier name = .ok e) :
    e.AllFresh allowed := by
  obtain ⟨name', hname, rfl⟩ := bind_pure_eq_ok.1 h
  obtain ⟨rfl, hspelled⟩ := variableName_eq_ok hname
  exact (Fresh.identifier hspelled).leaf rfl

theorem fresh_of_ofPath {path : String} {e : Expr} (sort : allowed (.reference path))
    (h : ofPath path = .ok e) : e.AllFresh allowed := by
  unfold ofPath at h
  split at h
  · next hpath => cases h; exact (Fresh.reference sort hpath).leaf rfl
  · cases h

theorem fresh_of_ofKeyword {word : String} {e : Expr} (sort : allowed (.keyword word))
    (h : ofKeyword word = .ok e) : e.AllFresh allowed := by
  unfold ofKeyword at h
  split at h
  · next hword => cases h; exact (Fresh.keyword sort hword).leaf rfl
  · cases h

theorem fresh_of_ofCollection {given : Operand} {e : Expr} (sort : allowed (.collection given))
    (h : ofCollection given = .ok e) : e.AllFresh allowed := by
  obtain ⟨name, hname, rfl⟩ := bind_pure_eq_ok.1 h
  exact (Fresh.collection sort (Operand.toCollection_eq_ok hname)).leaf rfl

theorem fresh_of_ofEntries {pairs : List (String × Operand)} {e : Expr}
    (h : ofEntries pairs = .ok e)
    (hnodes : ∀ s ∈ pairs.flatMap fun pair => pair.2.nodes, s.AllFresh allowed) :
    e.AllFresh allowed := by
  obtain ⟨written, hwritten, rfl⟩ := bind_pure_eq_ok.1 h
  have hempty : (object []).AllFresh allowed :=
    (Fresh.object (by simp [Entries.keys])).leaf rfl
  refine Entries.fresh_of_foldlM hwritten hempty ?_
  intro pair hpair s hs
  exact hnodes s (List.mem_flatMap.2 ⟨pair, hpair, hs⟩)

theorem fresh_of_ofItems {given : List Operand} {e : Expr} (h : ofItems given = .ok e)
    (hnodes : ∀ s ∈ given.flatMap Operand.nodes, s.AllFresh allowed) : e.AllFresh allowed := by
  obtain ⟨es, hes, rfl⟩ := bind_pure_eq_ok.1 h
  exact (Fresh.list es).everywhere (Operand.fresh_of_mapM Operand.fresh_of_toNested hes hnodes)

end Expr

/-! ## Operations -/

theorem UnaryOp.fresh_of_apply {op : UnaryOp} {given : Operand} {e : Expr}
    (h : op.apply given = .ok e) (hnodes : ∀ s ∈ given.nodes, s.AllFresh allowed) :
    e.AllFresh allowed := by
  obtain ⟨operand, hoperand, rfl⟩ := bind_pure_eq_ok.1 h
  refine (Fresh.unary op operand).everywhere fun s hs => ?_
  rw [List.mem_singleton.1 hs]
  exact Operand.fresh_of_toExpr hoperand hnodes

theorem BinaryOp.fresh_of_apply {op : BinaryOp} {left right : Operand} {e : Expr}
    (h : op.apply left right = .ok e)
    (hnodes : ∀ s ∈ left.nodes ++ right.nodes, s.AllFresh allowed) : e.AllFresh allowed := by
  simp only [List.mem_append] at hnodes
  obtain ⟨l, hl, h⟩ := bind_eq_ok.1 h
  obtain ⟨r, hr, rfl⟩ := bind_pure_eq_ok.1 h
  have hleft := Operand.fresh_of_toExpr hl fun s hs => hnodes s (Or.inl hs)
  have hright := Operand.fresh_of_toExpr hr fun s hs => hnodes s (Or.inr hs)
  exact (Fresh.binary op l r).everywhere
    (by simpa [Expr.parts, Expr.predecessors, Expr.operands] using ⟨hleft, hright⟩)

theorem Expr.fresh_of_choose {condition yes no : Operand} {e : Expr}
    (h : choose condition yes no = .ok e)
    (hnodes : ∀ s ∈ condition.nodes ++ yes.nodes ++ no.nodes, s.AllFresh allowed) :
    e.AllFresh allowed := by
  simp only [List.mem_append] at hnodes
  obtain ⟨c, hc, h⟩ := bind_eq_ok.1 h
  obtain ⟨y, hy, h⟩ := bind_eq_ok.1 h
  obtain ⟨n, hn, rfl⟩ := bind_pure_eq_ok.1 h
  have hcondition := Operand.fresh_of_toExpr hc fun s hs => hnodes s (Or.inl (Or.inl hs))
  have hyes := Operand.fresh_of_toExpr hy fun s hs => hnodes s (Or.inl (Or.inr hs))
  have hno := Operand.fresh_of_toExpr hn fun s hs => hnodes s (Or.inr hs)
  exact (Fresh.conditional c y n).everywhere
    (by simpa [parts, predecessors, operands] using ⟨hcondition, hyes, hno⟩)

theorem Expr.fresh_of_invoke {function : String} {given : List Operand} {e : Expr}
    (h : invoke function given = .ok e)
    (hnodes : ∀ s ∈ given.flatMap Operand.nodes, s.AllFresh allowed) : e.AllFresh allowed := by
  unfold invoke at h
  split at h
  · next hfunction =>
    obtain ⟨es, hes, rfl⟩ := bind_pure_eq_ok.1 h
    exact (Fresh.call es hfunction).everywhere
      (Operand.fresh_of_mapM Operand.fresh_of_toExpr hes hnodes)
  · cases h

/-! ## Clauses -/

/-- A clause that is ready to become the last one of a query. -/
def Clause.Ready (allowed : Call → Prop) (c : Clause) : Prop :=
  c.NamesSpelled ∧ ∀ s ∈ c.parts, s.AllFresh allowed

theorem Draft.ready_of_toClause {draft : Draft} {c : Clause} (h : draft.toClause = .ok c)
    (hnodes : ∀ s ∈ draft.nodes, s.AllFresh allowed) : c.Ready allowed := by
  cases draft with
  | forIn name given | bind name given =>
    obtain ⟨name', hname, hrest⟩ := bind_eq_ok.1 h
    obtain ⟨e, he, rfl⟩ := bind_pure_eq_ok.1 hrest
    obtain ⟨rfl, hspelled⟩ := variableName_eq_ok hname
    have := Operand.fresh_of_toExpr he hnodes
    exact ⟨hspelled, by simpa [Clause.parts] using this⟩
  | filter given | ret _ given =>
    obtain ⟨e, he, rfl⟩ := bind_pure_eq_ok.1 h
    have := Operand.fresh_of_toExpr he hnodes
    exact ⟨trivial, by simpa [Clause.parts] using this⟩
  | remove given collection | insert given collection =>
    obtain ⟨e, he, h⟩ := bind_eq_ok.1 h
    obtain ⟨name, hname, rfl⟩ := bind_pure_eq_ok.1 h
    have := Operand.fresh_of_toExpr he fun s hs => hnodes s (List.mem_append_left _ hs)
    exact ⟨Operand.toCollection_eq_ok hname, by simpa [Clause.parts, optionNodes] using this⟩
  | modify verb given change collection =>
    simp only [Draft.nodes, List.mem_append] at hnodes
    obtain ⟨e, he, h⟩ := bind_eq_ok.1 h
    obtain ⟨change', hchange, h⟩ := bind_eq_ok.1 h
    obtain ⟨name, hname, rfl⟩ := bind_pure_eq_ok.1 h
    refine ⟨Operand.toCollection_eq_ok hname, fun s hs => ?_⟩
    simp only [Clause.parts, optionNodes, List.append_nil, List.mem_cons,
      Option.mem_toList] at hs
    rcases hs with rfl | hs
    · exact Operand.fresh_of_toExpr he fun t ht => hnodes t (Or.inl (Or.inl ht))
    · subst hs
      cases change with
      | none => cases hchange
      | some given' =>
        obtain ⟨s', hs', hchange⟩ := map_eq_ok.1 hchange
        cases hchange
        exact Operand.fresh_of_toExpr hs' fun t ht => hnodes t (Or.inl (Or.inr (by simpa using ht)))

theorem Query.fresh_start {c : Clause} (h : c.Ready allowed) :
    (Expr.query (.start c)).AllFresh allowed :=
  (Fresh.query (q := .start c) h.1).everywhere h.2

theorem Query.fresh_andThen {q : Query} {c : Clause} (hq : (Expr.query q).AllFresh allowed)
    (h : c.Ready allowed) : (Expr.query (.andThen q c)).AllFresh allowed := by
  have hroot : Fresh allowed (.query (.andThen q c)) := .query h.1
  refine hroot.everywhere fun s hs => ?_
  rcases List.mem_cons.mp hs with rfl | hs
  · exact hq
  · exact h.2 s hs

theorem Query.ready_last {q : Query} (h : (Expr.query q).AllFresh allowed) :
    q.last.Ready allowed := by
  cases h.here with
  | query spelled => exact ⟨spelled, fun s hs => h.part (List.mem_append_right _ hs)⟩

theorem Draft.fresh_of_build {before : Option Expr} {draft : Draft} {q : Query}
    (h : draft.build before = .ok q) (hbefore : ∀ e ∈ before, e.AllFresh allowed)
    (hnodes : ∀ s ∈ draft.nodes, s.AllFresh allowed) : (Expr.query q).AllFresh allowed := by
  obtain ⟨before', hpred, h⟩ := bind_eq_ok.1 h
  obtain ⟨c, hc, rfl⟩ := bind_pure_eq_ok.1 h
  have hready := Draft.ready_of_toClause hc hnodes
  unfold predecessor at hpred
  split at hpred
  · cases hpred; exact Query.fresh_start hready
  · cases hpred; exact Query.fresh_andThen (hbefore _ rfl) hready
  · cases hpred

/-! ## Going on from a query -/

theorem Query.fresh_setLast {q : Query} {c : Clause} (hq : (Expr.query q).AllFresh allowed)
    (h : c.Ready allowed) : (Expr.query (q.setLast c)).AllFresh allowed := by
  cases q with
  | start _ => exact Query.fresh_start h
  | andThen q _ => exact Query.fresh_andThen (hq.part (by simp [Expr.parts, Expr.predecessors])) h

theorem Clause.ready_of_setOptions? {c : Clause} {set : Entries Expr → Clause}
    (hset : c.setOptions? = some set) (hc : c.Ready allowed) {options : Entries Expr}
    (hoptions : (Expr.object options).AllFresh allowed) : (set options).Ready allowed := by
  obtain ⟨hnames, hparts⟩ := hc
  unfold Clause.setOptions? at hset
  split at hset <;> cases hset
  all_goals
    refine ⟨hnames, fun s hs => ?_⟩
    simp only [Clause.parts, optionNodes, List.mem_cons, List.cons_append, List.mem_append,
      Option.mem_toList, List.not_mem_nil, or_false] at hs hparts
  · rcases hs with rfl | rfl
    · exact hparts s rfl
    · exact hoptions
  · rcases hs with rfl | rfl
    · exact hparts s (Or.inl rfl)
    · exact hoptions
  · rcases hs with rfl | hs | rfl
    · exact hparts s (Or.inl rfl)
    · exact hparts s (Or.inr (Or.inl hs))
    · exact hoptions

theorem Query.fresh_of_withOptions? {q q' : Query} {given : Operand}
    (h : q.withOptions? given = some (.ok q')) (hq : (Expr.query q).AllFresh allowed)
    (hnodes : ∀ s ∈ given.nodes, s.AllFresh allowed) : (Expr.query q').AllFresh allowed := by
  obtain ⟨set, hset, h⟩ := Option.map_eq_some_iff.1 h
  obtain ⟨options, hoptions, rfl⟩ := bind_pure_eq_ok.1 h
  exact Query.fresh_setLast hq
    (Clause.ready_of_setOptions? hset (Query.ready_last hq)
      (Operand.fresh_of_toOptions hoptions hnodes))

/-- The path to an image is one that a cast could have given. -/
theorem Image.fresh_path (image : Image) : (Expr.reference image.path).AllFresh allowed := by
  cases image <;> exact (Fresh.castReference (by decide) (by decide +kernel)).leaf rfl

theorem Query.fresh_of_returning? {q q' : Query} {image : Image} {name : String}
    (h : q.returning? image name = some (.ok q')) (hq : (Expr.query q).AllFresh allowed) :
    (Expr.query q').AllFresh allowed := by
  unfold Query.returning? at h
  split at h
  · obtain ⟨name', hname, rfl⟩ := bind_pure_eq_ok.1 (Option.some.inj h)
    obtain ⟨rfl, hspelled⟩ := variableName_eq_ok hname
    -- `LET name = image` and then `RETURN name`
    have hvariable : (Expr.identifier name').AllFresh allowed :=
      (Fresh.identifier hspelled).leaf rfl
    refine Query.fresh_andThen (Query.fresh_andThen hq ⟨hspelled, ?_⟩) ⟨trivial, ?_⟩
    · simpa [Clause.parts] using Image.fresh_path image
    · simpa [Clause.parts] using hvariable
  · cases h

/-! ## Every call -/

/-- **One call keeps the law.** If all nodes that a call uses are fresh throughout, so is the node
    that it gives. -/
theorem Call.fresh_of_answer {c : Call} {e : Expr} (sort : allowed c)
    (hnodes : ∀ s ∈ c.nodes, s.AllFresh allowed) (h : c.answer = some (.ok e)) :
    e.AllFresh allowed := by
  cases c with
  | integer value => cases h; exact (Fresh.integer (isInt64_toInt value)).leaf rfl
  | string text => cases h; exact (Fresh.string text).leaf rfl
  | boolean value => cases h; exact (Fresh.boolean value).leaf rfl
  | null => cases h; exact Fresh.null.leaf rfl
  | raw text => cases h; exact (Fresh.raw sort).leaf rfl
  | number x => exact Expr.fresh_of_ofFloat sort (Option.some.inj h)
  | identifier name => exact Expr.fresh_of_ofIdentifier (Option.some.inj h)
  | reference path => exact Expr.fresh_of_ofPath sort (Option.some.inj h)
  | keyword word => exact Expr.fresh_of_ofKeyword sort (Option.some.inj h)
  | collection given => exact Expr.fresh_of_ofCollection sort (Option.some.inj h)
  | entries pairs => exact Expr.fresh_of_ofEntries (Option.some.inj h) hnodes
  | items given => exact Expr.fresh_of_ofItems (Option.some.inj h) hnodes
  | compound value => exact Value.fresh_of_toNested value (Option.some.inj h)
  | cast given => exact Operand.fresh_of_toExpr (Option.some.inj h) hnodes
  | unary op given => exact UnaryOp.fresh_of_apply (Option.some.inj h) hnodes
  | binary op left right => exact BinaryOp.fresh_of_apply (Option.some.inj h) hnodes
  | conditional condition yes no => exact Expr.fresh_of_choose (Option.some.inj h) hnodes
  | invoke function arguments => exact Expr.fresh_of_invoke (Option.some.inj h) hnodes
  | clause before draft =>
    simp only [Call.nodes, List.mem_append, Option.mem_toList] at hnodes
    obtain ⟨q, hq, rfl⟩ := map_eq_ok.1 (Option.some.inj h)
    exact Draft.fresh_of_build hq (fun s hs => hnodes s (Or.inl hs)) fun s hs =>
      hnodes s (Or.inr hs)
  | extend receiver draft =>
    simp only [Call.answer] at h
    split at h
    · obtain ⟨q, hq, rfl⟩ := map_eq_ok.1 (Option.some.inj h)
      refine Draft.fresh_of_build hq (fun s hs => ?_) fun s hs =>
        hnodes s (List.mem_cons_of_mem _ hs)
      exact hnodes s (by simp [Call.nodes, Option.mem_some.1 hs])
    · cases h
  | options receiver given =>
    obtain ⟨r, hr, h⟩ := Option.map_eq_some_iff.1 h
    obtain ⟨q, rfl, rfl⟩ := map_eq_ok.1 h
    exact Query.fresh_of_withOptions? hr (hnodes _ (by simp [Call.nodes])) fun s hs =>
      hnodes s (List.mem_cons_of_mem _ hs)
  | returning receiver image name =>
    obtain ⟨r, hr, h⟩ := Option.map_eq_some_iff.1 h
    obtain ⟨q, rfl, rfl⟩ := map_eq_ok.1 h
    exact Query.fresh_of_returning? hr (hnodes _ (by simp [Call.nodes]))
  | insert receiver key given =>
    obtain ⟨written, hwritten, rfl⟩ := map_eq_ok.1 (Option.some.inj h)
    exact Entries.fresh_of_insert hwritten (hnodes _ (by simp [Call.nodes])) fun s hs =>
      hnodes s (List.mem_cons_of_mem _ hs)
  | part whole place =>
    obtain ⟨s, hs, h⟩ := Option.map_eq_some_iff.1 h
    cases h
    exact (hnodes whole (by simp [Call.nodes])).part (List.mem_of_getElem? hs)

/-- **Every run keeps the law**: all roots in a built tree, at any depth, are fresh ones. -/
theorem Built.everywhere_fresh {e : Expr} (h : Built allowed e) : e.AllFresh allowed := by
  obtain ⟨held, hheld, he⟩ := h
  refine hheld.invariant ?_ e he
  intro _ _ sort hnodes hanswer
  exact Call.fresh_of_answer sort hnodes hanswer

theorem Built.everywhere {e : Expr} (h : Built allowed e) {p : Expr → Prop}
    (law : ∀ s, Fresh allowed s → p s) : e.Everywhere p :=
  h.everywhere_fresh.imp law

end QueryTree
