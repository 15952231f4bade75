import QueryTree.Proofs.Build.Chain
import QueryTree.Proofs.Build.Slots
import QueryTree.Proofs.Data.History
import QueryTree.Proofs.Tree.Context

/-!
# Every tree of fresh roots can be built

The roots that calls give are known (`Fresh`), and a tree that can be built has no others in it.
Conversely, a fresh root can be put on top of any parts that can be built (`Built.of_fresh`): its
operands are given as they are, its names have passed their checks, and the options of a clause are
set by a call of their own. So the trees that callers can build are the trees of fresh roots, and no
others (`built_iff_allFresh`).
-/

set_option autoImplicit false

namespace QueryTree

/-! ## Nodes given as they are -/

theorem mapM_expr {f : Operand → Except BuildError Expr} (hf : ∀ e, f (.expr e) = .ok e)
    (es : List Expr) : (es.map Operand.expr).mapM f = .ok es := by
  rw [mapM_eq_ok_iff, List.forall₂_map_left_iff, List.forall₂_same]
  exact fun e _ => hf e

theorem foldlM_insert_expr (pairs : List (String × Expr)) (written : Entries Expr) :
    (pairs.map fun pair => (pair.1, Operand.expr pair.2)).foldlM
        (fun written (key, given) => Entries.insert key given written) written =
      .ok (written.putAll pairs) := by
  induction pairs generalizing written with
  | nil => rfl
  | cons pair pairs ih =>
    rw [List.map_cons, List.foldlM_cons]
    exact ih _

theorem Expr.ofEntries_expr {entries : Entries Expr} (distinct : (Entries.keys entries).Nodup) :
    ofEntries (entries.map fun pair => (pair.1, .expr pair.2)) = .ok (.object entries) := by
  have hwritten : Entries.putAll [] entries = entries := Entries.ofPairs_of_nodup distinct
  rw [ofEntries, foldlM_insert_expr, hwritten]
  rfl

/-! ## Clauses -/

/-- The clause as it is asked for, by the operands that it has; options are not asked for. -/
def Clause.draft : Clause → Draft
  | .forIn name e => .forIn name (.expr e)
  | .filter e => .filter (.expr e)
  | .bind name e => .bind name (.expr e)
  | .ret distinct e => .ret distinct (.expr e)
  | .remove e collection _ => .remove (.expr e) (.value (.string collection))
  | .insert e collection _ => .insert (.expr e) (.value (.string collection))
  | .modify verb e change collection _ =>
    .modify verb (.expr e) (change.map .expr) (.value (.string collection))

theorem Clause.draft_makes {c : Clause} (h : c.NamesSpelled) :
    c.draft.Makes c.withoutOptions := by
  cases c with
  | forIn name e => exact .forIn (isIdentifier_iff.1 h) rfl
  | bind name e => exact .bind (isIdentifier_iff.1 h) rfl
  | filter e => exact .filter rfl
  | ret distinct e => exact .ret rfl
  | remove e collection options => exact .remove rfl (if_pos h)
  | insert e collection options => exact .insert rfl (if_pos h)
  | modify verb e change collection options =>
    cases change with
    | none => exact .modify rfl (if_pos h)
    | some f => exact .modifyWith rfl rfl (if_pos h)

theorem Clause.mem_parts_of_mem_draft {c : Clause} {s : Expr} (h : s ∈ c.draft.nodes) :
    s ∈ c.parts := by
  cases c with
  | modify verb e change collection options =>
    cases change with
    | none =>
      obtain rfl : s = e := by simpa [draft, Draft.nodes, Operand.nodes] using h
      exact List.mem_cons_self
    | some f =>
      obtain rfl | rfl : s = e ∨ s = f := by simpa [draft, Draft.nodes, Operand.nodes] using h
      · exact List.mem_cons_self
      · exact List.mem_cons_of_mem _ List.mem_cons_self
  | _ => simp_all [draft, Draft.nodes, Operand.nodes, parts]

/-- What a clause lacks without its options is set by giving it the options. -/
theorem Clause.eq_or_eq_set (c : Clause) :
    c.withoutOptions = c ∨
      ∃ options set, c.withoutOptions.setOptions? = some set ∧ set options = c ∧
        .object options ∈ c.parts := by
  cases c with
  | forIn | filter | bind | ret => exact .inl rfl
  | remove e collection options | insert e collection options
  | modify verb e change collection options =>
    cases options with
    | none => exact .inl rfl
    | some options => exact .inr ⟨options, _, rfl, rfl, by simp [parts, optionNodes]⟩

/-! ## Roots on top of parts -/

namespace Built

variable {e : Expr}

/-- Nodes that can be built can be given as operands. -/
theorem operands {α : Type} {xs : List α} {f : α → Expr} (h : ∀ x ∈ xs, Built anyCall (f x)) :
    ∀ s ∈ (xs.map fun x => Operand.expr (f x)).flatMap Operand.nodes, Built anyCall s := by
  intro s hs
  obtain ⟨given, hgiven, hs⟩ := List.mem_flatMap.1 hs
  obtain ⟨x, hx, rfl⟩ := List.mem_map.1 hgiven
  exact List.mem_singleton.1 hs ▸ h x hx

/-- A clause is added as it is without its options, which take a call of their own. -/
theorem query (before : Option Query) {c : Clause} (spelled : c.NamesSpelled)
    (hbefore : ∀ q ∈ before, Built anyCall (.query q)) (hparts : ∀ s ∈ c.parts, Built anyCall s) :
    Built anyCall (.query (.follow before c)) := by
  have hbare : Built anyCall (.query (.follow before c.withoutOptions)) := by
    refine .call (.clause (before.map .query) c.draft) trivial ?_ ?_
    · intro s hs
      rcases List.mem_append.1 hs with hs | hs
      · obtain ⟨q, hq, rfl⟩ : ∃ q, before = some q ∧ .query q = s := by simpa using hs
        exact hbefore q hq
      · exact hparts s (Clause.mem_parts_of_mem_draft hs)
    · have hbuild := Draft.build_eq_ok_iff.2 ⟨before, _, rfl, Clause.draft_makes spelled, rfl⟩
      exact congrArg (fun r => some (Expr.query <$> r)) hbuild
  rcases c.eq_or_eq_set with heq | ⟨options, set, hset, heq, hmem⟩
  · rwa [heq] at hbare
  · let bare : Query := .follow before c.withoutOptions
    have hanswer : bare.withOptions? (.expr (.object options)) = some (.ok (.follow before c)) := by
      rw [← heq]
      cases before <;> exact congrArg (Option.map _) hset
    refine .call (.options bare (.expr (.object options))) trivial ?_
      (congrArg (Option.map (Expr.query <$> ·)) hanswer)
    intro s hs
    rcases List.mem_cons.1 hs with rfl | hs
    · exact hbare
    · exact hparts s (List.mem_singleton.1 hs ▸ hmem)

/-- **A fresh root can be put on top of whatever can be built.** -/
theorem of_fresh (hroot : Fresh anyCall e) (hparts : ∀ s ∈ e.parts, Built anyCall s) :
    Built anyCall e := by
  have leaf (c : Call) (hnodes : c.nodes = []) (hanswer : c.answer = some (.ok e)) :
      Built anyCall e := .of_answer trivial hnodes hanswer
  cases hroot with
  | @integer n range =>
    have hcast : (Operand.value (.integer n)).toExpr = .ok (.integer n) := by
      simp [Operand.toExpr, Operand.expr?, integerExpr?, range]
    exact leaf (.cast _) rfl (congrArg some hcast)
  | number _ finite => exact leaf (.number _) rfl (congrArg some (if_pos finite))
  | @castNumber x cast =>
    have hcast : (Operand.float x).toExpr = .ok (.number x) := by
      simp [Operand.toExpr, Operand.expr?, cast]
    exact leaf (.cast _) rfl (congrArg some hcast)
  | string text => exact leaf (.string text) rfl rfl
  | boolean value => exact leaf (.boolean value) rfl rfl
  | null => exact leaf .null rfl rfl
  | @identifier name spelled =>
    have hname : variableName name = .ok name := if_pos spelled
    exact leaf (.identifier name) rfl (by rw [Call.answer, Expr.ofIdentifier, hname]; rfl)
  | reference _ spelled | castReference _ spelled =>
    exact leaf (.reference _) rfl (congrArg some (if_pos spelled))
  | raw => exact leaf (.raw _) rfl rfl
  | keyword _ spelled => exact leaf (.keyword _) rfl (congrArg some (if_pos spelled))
  | @collection _ name _ spelled =>
    have hname : (Operand.value (.string name)).toCollection = .ok name := if_pos spelled
    exact leaf (.collection (.value (.string name))) rfl
      (by rw [Call.answer, Expr.ofCollection, hname]; rfl)
  | @object entries distinct =>
    refine .call (.entries (entries.map fun pair => (pair.1, .expr pair.2))) trivial ?_
      (congrArg some (Expr.ofEntries_expr distinct))
    have hvalues := operands (f := Prod.snd) fun pair hpair => hparts _ (List.mem_map_of_mem hpair)
    simpa only [Call.nodes, List.flatMap_map] using hvalues
  | list items =>
    refine .call (.items (items.map .expr)) trivial (operands (f := id) hparts) ?_
    rw [Call.answer, Expr.ofItems, mapM_expr fun _ => rfl]
    rfl
  | unary op x => exact .call (.unary op (.expr x)) trivial hparts rfl
  | binary op l r => exact .call (.binary op (.expr l) (.expr r)) trivial hparts rfl
  | conditional c y n =>
    exact .call (.conditional (.expr c) (.expr y) (.expr n)) trivial hparts rfl
  | @call function arguments spelled =>
    refine .call (.invoke function (arguments.map .expr)) trivial (operands (f := id) hparts) ?_
    have hcall : Expr.invoke function (arguments.map .expr) = .ok (.call function arguments) :=
      Expr.invoke_eq_ok_iff.2 ⟨isFunctionName_iff.1 spelled, _, mapM_expr (fun _ => rfl) _, rfl⟩
    exact congrArg some hcall
  | @query q spelled =>
    cases q with
    | start c => exact query none spelled (by simp) hparts
    | andThen q c =>
      refine query (some q) spelled (fun r h => ?_) fun s hs => hparts s (.tail _ hs)
      cases h
      exact hparts _ (.head _)

end Built

/-- **The trees that callers can build are the trees of fresh roots.** -/
theorem built_iff_allFresh {e : Expr} : Built anyCall e ↔ e.AllFresh anyCall := by
  refine ⟨Built.everywhere_fresh, fun h => ?_⟩
  induction e using Expr.within_induction with | step e ih => ?_
  exact .of_fresh h.here fun s hs => ih s (.single hs) (h.part hs)

/-! ## Other nodes in the same place -/

namespace Clause

variable {c : Clause} {set : Entries Expr → Clause}

theorem namesSpelled_withoutOptions : c.withoutOptions.NamesSpelled ↔ c.NamesSpelled := by
  cases c <;> rfl

theorem parts_eq_options (c : Clause) :
    c.parts = c.withoutOptions.parts ++ optionNodes c.options? := by
  cases c with
  | modify verb e change collection options => simp [parts, withoutOptions, options?, optionNodes]
  | _ => rfl

theorem namesSpelled_setOptions? (h : c.setOptions? = some set) (options : Entries Expr) :
    (set options).NamesSpelled ↔ c.NamesSpelled := by
  rw [← namesSpelled_withoutOptions, (options?_setOptions? h options).2,
    namesSpelled_withoutOptions]

theorem parts_setOptions? (h : c.setOptions? = some set) (options : Entries Expr) :
    (set options).parts = c.withoutOptions.parts ++ [.object options] := by
  obtain ⟨hoptions, hrest⟩ := options?_setOptions? h options
  rw [parts_eq_options, hrest, hoptions]
  rfl

end Clause

namespace Frame

variable {F : Frame} {x y e f : Expr}

/-- A name or a key is no part, so other parts leave the root fresh. -/
theorem fresh_of_fill? (hx : F.fill? x = some e) (hy : F.fill? y = some f)
    (h : Fresh anyCall e) : Fresh anyCall f := by
  cases F with
  | operand place =>
    cases hx
    cases hy
    cases place with
    | unary | left | right | condition | yes | no => constructor
    | item before after => exact .list _
    | argument function before after =>
      cases h with | call _ spelled => ?_
      exact .call _ spelled
    | value key before after =>
      cases h with | object distinct => ?_
      exact .object (by simpa [Entries.keys] using distinct)
    | clause before place =>
      cases h with | query spelled => ?_
      refine .query ?_
      cases before <;> cases place <;> exact spelled
  | options before c =>
    obtain ⟨entries, set, rfl, hset, rfl⟩ := fill?_options_eq_some_iff.1 hx
    obtain ⟨entries', set', rfl, hset', rfl⟩ := fill?_options_eq_some_iff.1 hy
    cases h with | query spelled => ?_
    have hnames : (set' entries').NamesSpelled ↔ (set entries).NamesSpelled :=
      (Clause.namesSpelled_setOptions? hset' _).trans (Clause.namesSpelled_setOptions? hset _).symm
    refine .query ?_
    cases before <;> exact hnames.2 spelled
  | predecessor c =>
    obtain ⟨_, rfl, rfl⟩ := fill?_predecessor_eq_some_iff.1 hx
    obtain ⟨_, rfl, rfl⟩ := fill?_predecessor_eq_some_iff.1 hy
    cases h with | query spelled => ?_
    exact .query spelled

theorem mem_parts_of_fill? {s : Expr} (hx : F.fill? x = some e) (hy : F.fill? y = some f)
    (h : s ∈ f.parts) : s = y ∨ s ∈ e.parts := by
  cases F with
  | operand place =>
    cases hx
    cases hy
    cases place with
    | clause before place =>
      rcases Expr.mem_parts_follow_iff.1 h with h | h
      · exact .inr (Expr.mem_parts_follow_iff.2 (.inl h))
      · have hclause : s = y ∨ s ∈ (place.fill x).parts := by
          cases place <;> simp [ClausePlace.fill, Clause.parts] at h ⊢ <;> tauto
        exact hclause.imp_right fun h => Expr.mem_parts_follow_iff.2 (.inr h)
    | _ =>
      simp [OperandPlace.fill, Expr.parts, Expr.predecessors, Expr.operands] at h ⊢
      tauto
  | options before c =>
    obtain ⟨_, _, rfl, hset, rfl⟩ := fill?_options_eq_some_iff.1 hx
    obtain ⟨_, _, rfl, hset', rfl⟩ := fill?_options_eq_some_iff.1 hy
    simp only [Expr.mem_parts_follow_iff, Clause.parts_setOptions? hset,
      Clause.parts_setOptions? hset', List.mem_append, List.mem_singleton] at h ⊢
    rcases h with h | h | h
    exacts [.inr (.inl h), .inr (.inr (.inl h)), .inl h]
  | predecessor c =>
    obtain ⟨_, rfl, rfl⟩ := fill?_predecessor_eq_some_iff.1 hx
    obtain ⟨_, rfl, rfl⟩ := fill?_predecessor_eq_some_iff.1 hy
    rcases List.mem_cons.1 h with rfl | h
    · exact .inl rfl
    · exact .inr (.tail _ h)

theorem allFresh_of_fill? (hx : F.fill? x = some e) (hy : F.fill? y = some f)
    (he : e.AllFresh anyCall) (hfresh : y.AllFresh anyCall) : f.AllFresh anyCall := by
  refine (fresh_of_fill? hx hy he.here).everywhere fun s hs => ?_
  rcases mem_parts_of_fill? hx hy hs with rfl | hs
  · exact hfresh
  · exact he.part hs

end Frame

/-- **In the place of any node of a tree, any other can be built** that fits there. -/
theorem Built.fill? {F : Frame} {C : Context} {x y e f : Expr}
    (hx : Context.fill? x (F :: C) = some e) (hy : Context.fill? y (F :: C) = some f)
    (he : Built anyCall e) (hbuilt : Built anyCall y) : Built anyCall f := by
  rw [built_iff_allFresh] at he hbuilt ⊢
  induction C generalizing F x y with
  | nil =>
    rw [Context.fill?_singleton] at hx hy
    exact Frame.allFresh_of_fill? hx hy he hbuilt
  | cons G C ih =>
    obtain ⟨s, hs, hrest⟩ := Context.fill?_cons_eq_some_iff.1 hx
    obtain ⟨t, ht, hrest'⟩ := Context.fill?_cons_eq_some_iff.1 hy
    have hwithin : s.Within e := (Expr.properlyWithin_iff.2 ⟨G, C, hrest⟩).to_reflTransGen
    exact ih hrest hrest' (Frame.allFresh_of_fill? hs ht (he.within hwithin) hbuilt)

end QueryTree
