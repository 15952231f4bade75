import QueryTree.Proofs.Build.Chain
import QueryTree.Proofs.Data.Nested

/-!
# Options are given alike to every modification

A removal, an insertion, an update and a replacement take options in the same way. What can be
options is whatever becomes an object inside an object or a list (`Operand.toOptions_eq_ok_iff`), so
plain data and the object that is made of them give the same query. `Query.Gains` says what the
options do: they stand in the place of those that were there, as a whole, and nothing else changes
(`Query.withOptions?_eq_ok_iff`).

A removal that has options is wrapped by them and takes no others. The other modifications can be
given options any number of times. A run of such calls comes to its last one that is not refused
(`Query.run_options_eq_last`); the invariant of the run is that all but the options is as it was.
-/

set_option autoImplicit false

namespace QueryTree

/-! ## What can be options -/

theorem floatExpr?_ne_object (x : Binary64) (options : Entries Expr) :
    floatExpr? x ≠ some (.object options) := by
  unfold floatExpr?
  split
  · split
    · split <;> simp
    · simp
  · simp

theorem integerExpr?_ne_object (n : Int) (options : Entries Expr) :
    integerExpr? n ≠ some (.object options) := by
  unfold integerExpr?
  split
  · simp
  · exact floatExpr?_ne_object _ options

theorem stringExpr?_ne_object (text : String) (options : Entries Expr) :
    stringExpr? text ≠ some (.object options) := by
  unfold stringExpr?
  split
  · simp
  · split
    · simp
    · split <;> simp

namespace Operand

variable {given : Operand} {options : Entries Expr} {why : BuildError}

/-- What stands for an object on its own is an object that is already built. -/
theorem toExpr_eq_object_iff :
    given.toExpr = .ok (.object options) ↔ given = .expr (.object options) := by
  refine ⟨fun h => ?_, fun h => h ▸ rfl⟩
  unfold toExpr at h
  split at h
  · next e he =>
    cases h
    unfold expr? at he
    split at he
    · exact congrArg expr (Option.some.inj he)
    · exact absurd he (floatExpr?_ne_object _ options)
    · cases he
    · cases he
    · exact absurd he (integerExpr?_ne_object _ options)
    · exact absurd he (floatExpr?_ne_object _ options)
    · exact absurd he (stringExpr?_ne_object _ options)
    · cases he
    · cases he
  · cases h

/-- **Options are what would be an object inside an object.** -/
theorem toOptions_eq_ok_iff :
    given.toOptions = .ok options ↔ given.toNested = .ok (.object options) := by
  unfold toOptions
  split
  · next entries => simp [toNested, toExpr, expr?, pure_eq_ok]
  · next entries =>
    rw [toNested, Value.toNested, bind_pure_eq_ok, bind_pure_eq_ok]
    simp
  · next hexpr hdata =>
    refine ⟨fun h => (by cases h), fun h => ?_⟩
    have hbuilt : given.toExpr ≠ .ok (.object options) := fun h =>
      hexpr options (toExpr_eq_object_iff.1 h)
    cases given with
    | expr e => exact absurd h hbuilt
    | float x => exact absurd h hbuilt
    | value v =>
      cases v with
      | object entries => exact absurd rfl (hdata entries)
      | array items =>
        rw [toNested, Value.toNested] at h
        obtain ⟨es, -, h⟩ := bind_pure_eq_ok.1 h
        cases h
      | null | boolean | integer | float | string =>
        rw [toNested, Value.toNested_of_isScalar rfl] at h
        exact absurd h hbuilt

/-- Options are refused for the first bad scalar of an object of data, and else for being no object
    at all. -/
theorem toOptions_eq_error (h : given.toOptions = .error why) :
    (∃ entries, given = .value (.object entries) ∧
      FirstRefused Value.cast (Value.object entries).scalars why) ∨
    (∀ entries, given ≠ .value (.object entries)) ∧ why = .notOptions given := by
  unfold toOptions at h
  split at h
  · cases h
  · next entries =>
    have htries := Value.tries_toNested (.object entries)
    rw [bind_pure_eq_error] at h
    refine .inl ⟨entries, rfl, htries.refused ?_⟩
    rw [Value.toNested, bind_pure_eq_error]
    exact h
  · next hdata =>
    cases h
    exact .inr ⟨fun entries hgiven => hdata entries hgiven, rfl⟩

theorem topic_of_toOptions (h : given.toOptions = .error why) : why.topic = .conversion := by
  rcases toOptions_eq_error h with ⟨entries, -, hfirst⟩ | ⟨-, rfl⟩
  · obtain ⟨v, -, hv⟩ := hfirst.exists_mem
    rw [Value.cast_eq_error hv]
    rfl
  · rfl

end Operand

/-! ## What options change -/

namespace Clause

/-- A modification that takes options: any but a removal that has them already. -/
inductive TakesOptions : Clause → Prop
  | remove (target : Expr) (collection : String) : TakesOptions (.remove target collection none)
  | insert (document : Expr) (collection : String) (options : Option (Entries Expr)) :
    TakesOptions (.insert document collection options)
  | modify (verb : Verb) (target : Expr) (change : Option Expr) (collection : String)
    (options : Option (Entries Expr)) : TakesOptions (.modify verb target change collection options)

variable {c d : Clause}

theorem TakesOptions.exists_set (h : c.TakesOptions) : ∃ set, c.setOptions? = some set := by
  cases h <;> exact ⟨_, rfl⟩

/-- The options and the rest are all that a clause is made of. -/
theorem eq_of_withoutOptions (hrest : c.withoutOptions = d.withoutOptions)
    (hoptions : c.options? = d.options?) : c = d := by
  cases c <;> cases d <;> simp_all [withoutOptions, options?]

/-- Other options leave an open modification one, for whatever it had does not count. -/
theorem TakesOptions.of_withoutOptions (h : c.TakesOptions) (hopen : c.kind = .partialStatement)
    (hrest : d.withoutOptions = c.withoutOptions) :
    d.TakesOptions ∧ d.kind = .partialStatement := by
  cases h with
  | remove => cases hopen
  | insert document collection options =>
    cases d <;> cases hrest
    exact ⟨.insert _ _ _, rfl⟩
  | modify verb target change collection options =>
    cases d <;> cases hrest
    exact ⟨.modify _ _ _ _ _, rfl⟩

end Clause

namespace Query

/-- The query without the options of its last clause. -/
def withoutOptions (q : Query) : Query := q.setLast q.last.withoutOptions

/-- Two queries that differ in the options of their last clauses at most: what is modified and by
    what, the collection, and all clauses before are the same. -/
structure SameRest (q r : Query) : Prop where
  before : r.before? = q.before?
  last : r.last.withoutOptions = q.last.withoutOptions

/-- What options do: they are those of the last clause now, and all the rest is as it was. -/
structure Gains (q : Query) (options : Entries Expr) (r : Query) : Prop extends q.SameRest r where
  options : r.last.options? = some options

variable {q r s : Query} {options : Entries Expr} {given : Operand} {why : BuildError}

theorem SameRest.rfl : q.SameRest q := ⟨Eq.refl _, Eq.refl _⟩

theorem SameRest.trans (h : q.SameRest r) (h' : r.SameRest s) : q.SameRest s :=
  ⟨h'.before.trans h.before, h'.last.trans h.last⟩

theorem SameRest.gains (h : q.SameRest r) (h' : r.Gains options s) : q.Gains options s :=
  ⟨h.trans h'.toSameRest, h'.options⟩

theorem eq_of_last (hbefore : q.before? = r.before?) (hlast : q.last = r.last) : q = r := by
  cases q <;> cases r <;> simp_all [before?, last]

theorem Gains.unique (h : q.Gains options r) (h' : q.Gains options s) : r = s :=
  eq_of_last (h.before.trans h'.before.symm)
    (Clause.eq_of_withoutOptions (h.last.trans h'.last.symm) (h.options.trans h'.options.symm))

theorem gains_setLast {set : Entries Expr → Clause} (h : q.last.setOptions? = some set)
    (options : Entries Expr) : q.Gains options (q.setLast (set options)) := by
  obtain ⟨hoptions, hrest⟩ := Clause.options?_setOptions? h options
  rw [← last_setLast q (set options)] at hoptions hrest
  exact ⟨⟨before?_setLast q _, hrest⟩, hoptions⟩

theorem text_eq_elim (q : Query) :
    (Expr.query q).text =
      q.before?.elim "" (fun p => (Expr.query p).text ++ " ") ++ q.last.text := by
  cases q with
  | start c => exact (String.empty_append).symm
  | andThen p c => exact text_andThen p c

/-- Options are written behind all that the query was before. -/
theorem Gains.text (h : q.Gains options r) :
    (Expr.query r).text =
      (Expr.query q.withoutOptions).text ++ " OPTIONS " ++ (Expr.object options).text := by
  have hlast := Clause.text_eq_options h.options
  rw [text_eq_elim r, text_eq_elim q.withoutOptions, withoutOptions, before?_setLast, last_setLast,
    hlast, h.before, h.last]
  simp only [String.append_assoc]

/-! ## One call -/

section Call

variable (h : q.last.TakesOptions)
include h

theorem exists_withOptions? (given : Operand) : ∃ r, q.withOptions? given = some r := by
  obtain ⟨set, hset⟩ := h.exists_set
  rw [withOptions?, hset]
  exact ⟨_, rfl⟩

/-- **The options of a query are those that were given**, and nothing else changes. -/
theorem withOptions?_eq_ok_iff :
    q.withOptions? given = some (.ok r) ↔
      ∃ options, given.toOptions = .ok options ∧ q.Gains options r := by
  obtain ⟨set, hset⟩ := h.exists_set
  rw [withOptions?, hset, Option.map_some, Option.some.injEq, bind_pure_eq_ok]
  refine exists_congr fun options => and_congr_right fun _ => ⟨?_, fun hr => ?_⟩
  · rintro rfl
    exact gains_setLast hset options
  · exact (gains_setLast hset options).unique hr

theorem withOptions?_eq_error_iff :
    q.withOptions? given = some (.error why) ↔ given.toOptions = .error why := by
  obtain ⟨set, hset⟩ := h.exists_set
  rw [withOptions?, hset, Option.map_some, Option.some.injEq, bind_pure_eq_error]

end Call

/-! ## A run of calls -/

theorem run_append (q : Query) (before after : List Move) :
    q.run (before ++ after) = (q.run before).run after :=
  List.foldl_append

theorem run_options_cons (q : Query) (given : Operand) (rest : List Operand) :
    q.run ((given :: rest).map .options) =
      ((q.after? (.options given)).getD q).run (rest.map .options) := by
  rw [List.map_cons]
  rfl

theorem after?_of_accepted (h : q.withOptions? given = some (.ok r)) :
    q.after? (.options given) = some r := by
  rw [after?, Move.call, Call.answer, h]
  rfl

theorem after?_of_refused (h : q.withOptions? given = some (.error why)) :
    q.after? (.options given) = none := by
  rw [after?, Move.call, Call.answer, h]
  rfl

theorem run_options_refused {given : List Operand}
    (h : ∀ g ∈ given, ∃ why, q.withOptions? g = some (.error why)) :
    q.run (given.map .options) = q := by
  induction given with
  | nil => exact Eq.refl q
  | cons g rest ih =>
    obtain ⟨why, hwhy⟩ := h g List.mem_cons_self
    rw [run_options_cons, after?_of_refused hwhy, Option.getD_none]
    exact ih fun g' hg' => h g' (List.mem_cons_of_mem _ hg')

theorem SameRest.takesOptions (h : q.SameRest r) (htakes : q.last.TakesOptions)
    (hopen : q.isOpen = true) : r.last.TakesOptions ∧ r.isOpen = true := by
  have hkind : q.last.kind = .partialStatement := of_decide_eq_true hopen
  obtain ⟨htakes', hkind'⟩ := htakes.of_withoutOptions hkind h.last
  exact ⟨htakes', decide_eq_true hkind'⟩

/-- **One call keeps the rest**, accepted or not. -/
theorem sameRest_after? (htakes : q.last.TakesOptions) (given : Operand) :
    q.SameRest ((q.after? (.options given)).getD q) := by
  obtain ⟨answer, hanswer⟩ := exists_withOptions? htakes given
  cases answer with
  | error why =>
    rw [after?_of_refused hanswer]
    exact .rfl
  | ok r =>
    obtain ⟨options, -, hgains⟩ := (withOptions?_eq_ok_iff htakes).1 hanswer
    rw [after?_of_accepted hanswer]
    exact hgains.toSameRest

/-- **Every run keeps the rest.** -/
theorem sameRest_run (htakes : q.last.TakesOptions) (hopen : q.isOpen = true)
    (given : List Operand) : q.SameRest (q.run (given.map .options)) := by
  induction given generalizing q with
  | nil => exact .rfl
  | cons g rest ih =>
    have hstep := sameRest_after? htakes g
    obtain ⟨htakes', hopen'⟩ := hstep.takesOptions htakes hopen
    rw [run_options_cons]
    exact hstep.trans (ih htakes' hopen')

/-- Whether options are refused depends on nothing but the options. -/
theorem SameRest.refused (h : q.SameRest r) (htakes : q.last.TakesOptions)
    (hopen : q.isOpen = true) (hwhy : q.withOptions? given = some (.error why)) :
    r.withOptions? given = some (.error why) := by
  rw [withOptions?_eq_error_iff htakes] at hwhy
  exact (withOptions?_eq_error_iff (h.takesOptions htakes hopen).1).2 hwhy

/-- What options do to a query that differs in its options, they do to the query. -/
theorem SameRest.accepted (h : q.SameRest r) (htakes : q.last.TakesOptions)
    (hopen : q.isOpen = true) (hs : q.withOptions? given = some (.ok s)) :
    r.withOptions? given = some (.ok s) := by
  obtain ⟨options, hoptions, hgains⟩ := (withOptions?_eq_ok_iff htakes).1 hs
  have hback : r.SameRest q := ⟨h.before.symm, h.last.symm⟩
  exact (withOptions?_eq_ok_iff (h.takesOptions htakes hopen).1).2
    ⟨options, hoptions, hback.gains hgains⟩

/-- **A run comes to its last call that is not refused.** -/
theorem run_options_eq_last (htakes : q.last.TakesOptions) (hopen : q.isOpen = true)
    {before after : List Operand} (hs : q.withOptions? given = some (.ok s))
    (hafter : ∀ g ∈ after, ∃ why, q.withOptions? g = some (.error why)) :
    q.run ((before ++ given :: after).map .options) = s := by
  have hrest := sameRest_run htakes hopen before
  obtain ⟨options, -, hgains⟩ := (withOptions?_eq_ok_iff htakes).1 hs
  rw [List.map_append, run_append, run_options_cons,
    after?_of_accepted (hrest.accepted htakes hopen hs), Option.getD_some]
  refine run_options_refused fun g hg => ?_
  obtain ⟨why, hwhy⟩ := hafter g hg
  exact ⟨why, hgains.toSameRest.refused htakes hopen hwhy⟩

/-- **Options are the same to every modification.** They are accepted if and only if they become an
    object, or else refused for their first bad scalar or for being no object. They are then written
    behind the query as it was without options, and nothing but the options has changed. Plain data
    do what the object that is made of them does. A modification that stays open takes options over
    and over, and only those that are accepted last count. -/
theorem options_replace_whole {q : Query} (h : q.last.TakesOptions) :
    (∀ given : Operand, ∃ answer, q.withOptions? given = some answer ∧
      ((∃ r, answer = .ok r) ↔ ∃ options, given.toNested = .ok (.object options)) ∧
      (∀ r, answer = .ok r → ∃ options, given.toNested = .ok (.object options) ∧
        q.Gains options r ∧ (Expr.query r).text =
          (Expr.query q.withoutOptions).text ++ " OPTIONS " ++ (Expr.object options).text) ∧
      ∀ why, answer = .error why → why.topic = .conversion ∧
        ∀ entries, given = .value (.object entries) →
          FirstRefused Value.cast (Value.object entries).scalars why) ∧
    (∀ (entries : List (String × Value)) (e : Expr),
      Expr.ofEntries (entries.map fun pair => (pair.1, .value pair.2)) = .ok e →
        q.withOptions? (.value (.object entries)) = q.withOptions? (.expr e)) ∧
    (q.isOpen = true → ∀ before after : List Operand,
      (∀ g ∈ after, ∃ why, q.withOptions? g = some (.error why)) →
        q.run (after.map .options) = q ∧
        ∀ given r, q.withOptions? given = some (.ok r) →
          q.run ((before ++ given :: after).map .options) = r) := by
  refine ⟨fun given => ?_, fun entries e he => ?_, fun hopen before after hafter => ?_⟩
  · obtain ⟨answer, hanswer⟩ := exists_withOptions? h given
    have hok (r : Query) : answer = .ok r ↔
        ∃ options, given.toNested = .ok (.object options) ∧ q.Gains options r := by
      simp only [← Operand.toOptions_eq_ok_iff, ← withOptions?_eq_ok_iff h, hanswer,
        Option.some.injEq]
    refine ⟨answer, hanswer, ⟨?_, ?_⟩, fun r hr => ?_, fun why hwhy => ?_⟩
    · rintro ⟨r, hr⟩
      obtain ⟨options, hoptions, -⟩ := (hok r).1 hr
      exact ⟨options, hoptions⟩
    · rintro ⟨options, hoptions⟩
      obtain ⟨set, hset⟩ := h.exists_set
      exact ⟨_, (hok _).2 ⟨options, hoptions, gains_setLast hset options⟩⟩
    · obtain ⟨options, hoptions, hgains⟩ := (hok r).1 hr
      exact ⟨options, hoptions, hgains, hgains.text⟩
    · rw [hwhy] at hanswer
      have herror := (withOptions?_eq_error_iff h).1 hanswer
      refine ⟨Operand.topic_of_toOptions herror, ?_⟩
      rintro entries rfl
      rcases Operand.toOptions_eq_error herror with ⟨entries', heq, hfirst⟩ | ⟨hno, -⟩
      · cases heq
        exact hfirst
      · exact absurd rfl (hno entries)
  · rw [Expr.ofEntries_values] at he
    obtain ⟨pairs, -, rfl⟩ := bind_pure_eq_ok.1 he
    have hdata : (Operand.value (.object entries)).toOptions =
        (Operand.expr (.object (Entries.ofPairs pairs))).toOptions :=
      Operand.toOptions_eq_ok_iff.2 he
    rw [withOptions?, withOptions?, hdata]
  · exact ⟨run_options_refused hafter, fun given r hr => run_options_eq_last h hopen hr hafter⟩

/-- A removal is wrapped into options. An update that has options is given others, with a call that
    is refused before the last one that counts and another behind it. -/
theorem options_replace_whole_update :
    let loop : Query := .start (.forIn "doc" (.identifier "users"))
    let removal : Query := loop.andThen (.remove (.identifier "doc") "users" none)
    let update (options : Entries Expr) : Query := loop.andThen
      (.modify .update (.identifier "doc") (some (.identifier "other")) "users" (some options))
    let given (n : Int) : Operand := .value (.object [("in", .integer n)])
    let bad : Operand := .value (.object [("a", .array [.string "1"]), ("b", .string "")])
    (∃ r, removal.withOptions? (given 1) = some (.ok r) ∧
      (Expr.query r).text = "FOR doc IN users REMOVE doc IN users OPTIONS \x7b\"in\": 1\x7d") ∧
    FirstRefused Value.cast [.string "1", .string ""] (.notExpression (.value (.string "1"))) ∧
    (update [("old", .null)]).run ([given 1, bad, given 2, bad].map .options) =
      update [("in", .integer 2)] := by
  intro loop removal update given bad
  have hremoval : removal.last.TakesOptions := .remove _ _
  have hupdate (options : Entries Expr) : (update options).last.TakesOptions := .modify _ _ _ _ _
  refine ⟨?_, ?_, ?_⟩
  · obtain ⟨answer, hanswer, -, htext, -⟩ := (options_replace_whole hremoval).1 (given 1)
    obtain ⟨r, rfl⟩ : ∃ r, answer = .ok r := ⟨_, (Option.some.inj hanswer).symm⟩
    obtain ⟨options, hoptions, -, htext⟩ := htext r rfl
    cases hoptions
    exact ⟨r, hanswer, htext.trans (by decide +kernel)⟩
  · obtain ⟨answer, hanswer, -, -, hrefused⟩ := (options_replace_whole hremoval).1 bad
    exact (hrefused (.notExpression (.value (.string "1"))) (Option.some.inj hanswer).symm).2 _ rfl
  · have hbad : ∀ g ∈ [bad], ∃ why,
        (update [("old", .null)]).withOptions? g = some (.error why) := by
      rw [List.forall_mem_singleton]
      exact ⟨.notExpression (.value (.string "1")), rfl⟩
    exact ((options_replace_whole (hupdate _)).2.2 rfl [given 1, bad] [bad] hbad).2 (given 2) _ rfl

end Query

end QueryTree
