import Mathlib.Data.List.Forall2
import QueryTree.Proofs.Build.Order
import QueryTree.Proofs.Build.Validity
import QueryTree.Proofs.Name.Reading

/-!
# The first bad slot decides

A call that builds a clause or an operation fills a row of slots: what the clause is to follow, a
name, operands for its expressions, an operand for its collection. `Slot.check` is what is asked of
a slot on its own, `Slot.Valid` says what that is, and `Call.slots?` is the row of a call, in the
order in which the slots are checked.

Nothing but the row decides whether the call succeeds, and if it does not, with which error
(`Call.tries_slots`). A call that succeeds makes a node with each operand converted on its own and
put into its own place (`Call.Makes`). `Call.answer_by_slots` has all of it.
-/

set_option autoImplicit false

namespace QueryTree

/-! ## Slots -/

/-- What is given to one slot of a call. -/
inductive Slot
  /-- what a new clause is to follow, if anything -/
  | predecessor (before : Option Expr)
  /-- the name of a function to call -/
  | function (name : String)
  /-- the name of a variable to bind -/
  | binder (name : String)
  | expression (given : Operand)
  | collection (given : Operand)

namespace Slot

def check : Slot → Except BuildError Unit
  | .predecessor before => (fun _ => ()) <$> QueryTree.predecessor before
  | .function name => if isFunctionName name then .ok () else .error (.badFunction name)
  | .binder name => (fun _ => ()) <$> variableName name
  | .expression given => (fun _ => ()) <$> given.toExpr
  | .collection given => (fun _ => ()) <$> given.toCollection

def Valid : Slot → Prop
  | .predecessor before => ∀ e ∈ before, e.kind.isFollowable = true
  | .function name => FunctionText name.toList
  | .binder name => IdentifierText name.toList
  | .expression given => ∃ e, given.toExpr = .ok e
  | .collection given => ∃ name, given.toCollection = .ok name

/-- What an error about a slot is about. -/
def topic : Slot → ErrorTopic
  | .predecessor _ => .predecessor
  | .function _ | .binder _ => .identifier
  | .expression _ => .conversion
  | .collection _ => .collectionName

end Slot

theorem Expr.isFollowable_iff {e : Expr} :
    e.kind.isFollowable = true ↔ ∃ q, e = .query q := by
  constructor
  · intro h
    cases e with
    | query q => exact ⟨q, rfl⟩
    | _ => cases h
  · rintro ⟨q, rfl⟩
    exact q.isFollowable

/-- Only a query can be followed. -/
theorem predecessor_eq_ok_iff {before : Option Expr} {before' : Option Query} :
    predecessor before = .ok before' ↔ before = before'.map Expr.query := by
  unfold predecessor
  split
  · cases before' <;> simp
  · cases before' <;> simp
  · next e hquery =>
    cases before' with
    | none => simp
    | some q => simpa using hquery q

theorem variableName_eq_ok_iff {name name' : String} :
    variableName name = .ok name' ↔ name' = name ∧ IdentifierText name.toList := by
  rw [variableName, ← isIdentifier_iff]
  split
  · next h => simp [h, eq_comm]
  · next h => simp [h]

theorem map_unit_eq_ok {ε α : Type} {r : Except ε α} :
    (∃ u, (fun _ => ()) <$> r = .ok u) ↔ ∃ a, r = .ok a := by
  cases r <;> simp

theorem Slot.accepted_iff (s : Slot) : (∃ u, s.check = .ok u) ↔ s.Valid := by
  cases s with
  | predecessor before =>
    rw [check, map_unit_eq_ok, Valid]
    simp only [predecessor_eq_ok_iff, Expr.isFollowable_iff]
    cases before with
    | none => exact ⟨fun _ => by simp, fun _ => ⟨none, rfl⟩⟩
    | some e =>
      constructor
      · rintro ⟨q?, h⟩
        cases q? with
        | none => cases h
        | some q => simp [Option.some.inj h]
      · intro h
        obtain ⟨q, rfl⟩ := h e rfl
        exact ⟨some q, rfl⟩
  | function name =>
    rw [check, Valid, ← isFunctionName_iff]
    split <;> simp [*]
  | binder name =>
    rw [check, map_unit_eq_ok, Valid]
    simp [variableName_eq_ok_iff]
  | expression given | collection given => exact map_unit_eq_ok

theorem map_eq_error {ε α β : Type} {r : Except ε α} {g : α → β} {why : ε} :
    g <$> r = .error why ↔ r = .error why := by
  cases r <;> simp

/-- Each check has errors of one topic. -/
theorem Slot.topic_of_refused {s : Slot} {why : BuildError} (h : s.check = .error why) :
    why.topic = s.topic := by
  cases s with
  | predecessor before =>
    rw [check, map_eq_error] at h
    unfold QueryTree.predecessor at h
    split at h <;> cases h
    rfl
  | function name =>
    rw [check] at h
    split at h <;> cases h
    rfl
  | binder name =>
    rw [check, map_eq_error, variableName] at h
    split at h <;> cases h
    rfl
  | expression given =>
    rw [check, map_eq_error, Operand.toExpr] at h
    split at h <;> cases h
    rfl
  | collection given =>
    rw [check, map_eq_error] at h
    unfold Operand.toCollection collectionName at h
    split at h
    · split at h <;> cases h
      rfl
    · cases h
      rfl

/-! ## Rows of slots -/

/-- The slots of a draft. A change that is not asked for has no slot. -/
def Draft.slots : Draft → List Slot
  | .forIn name given | .bind name given => [.binder name, .expression given]
  | .filter given | .ret _ given => [.expression given]
  | .remove given collection | .insert given collection =>
    [.expression given, .collection collection]
  | .modify _ given change collection =>
    .expression given :: (change.toList.map .expression ++ [.collection collection])

namespace Call

/-- The slots of a call that builds a clause or an operation. -/
def slots? : Call → Option (List Slot)
  | .clause before draft => some (.predecessor before :: draft.slots)
  | .extend receiver draft => some (.predecessor (some (.query receiver)) :: draft.slots)
  | .returning _ _ name => some [.binder name]
  | .unary _ given => some [.expression given]
  | .binary _ left right => some [.expression left, .expression right]
  | .conditional condition yes no => some [.expression condition, .expression yes, .expression no]
  | .invoke function arguments => some (.function function :: arguments.map .expression)
  | _ => none

/-- The query that a call is made on, when it is a function of queries. -/
def receiver? : Call → Option Query
  | .extend receiver _ | .options receiver _ | .returning receiver _ _ => some receiver
  | _ => none

/-- Whether the query that a call is made on has the function at all. -/
def Offered : Call → Prop
  | .extend receiver _ => receiver.isOpen = true
  | .options receiver _ => receiver.last.setOptions?.isSome = true
  | .returning receiver image _ => receiver.last.hasImage image = true
  | _ => True

end Call

/-! ## What is made -/

/-- The clause of a draft: each operand converted on its own, in its own place, and no options. -/
inductive Draft.Makes : Draft → Clause → Prop
  | forIn {name : String} {source : Operand} {e : Expr} (word : IdentifierText name.toList)
    (cast : source.toExpr = .ok e) : Makes (.forIn name source) (.forIn name e)
  | filter {condition : Operand} {e : Expr} (cast : condition.toExpr = .ok e) :
    Makes (.filter condition) (.filter e)
  | bind {name : String} {value : Operand} {e : Expr} (word : IdentifierText name.toList)
    (cast : value.toExpr = .ok e) : Makes (.bind name value) (.bind name e)
  | ret {distinct : Bool} {value : Operand} {e : Expr} (cast : value.toExpr = .ok e) :
    Makes (.ret distinct value) (.ret distinct e)
  | remove {target collection : Operand} {e : Expr} {name : String}
    (cast : target.toExpr = .ok e) (named : collection.toCollection = .ok name) :
    Makes (.remove target collection) (.remove e name none)
  | insert {document collection : Operand} {e : Expr} {name : String}
    (cast : document.toExpr = .ok e) (named : collection.toCollection = .ok name) :
    Makes (.insert document collection) (.insert e name none)
  | modify {verb : Verb} {target collection : Operand} {e : Expr} {name : String}
    (cast : target.toExpr = .ok e) (named : collection.toCollection = .ok name) :
    Makes (.modify verb target none collection) (.modify verb e none name none)
  | modifyWith {verb : Verb} {target change collection : Operand} {e f : Expr} {name : String}
    (cast : target.toExpr = .ok e) (castChange : change.toExpr = .ok f)
    (named : collection.toCollection = .ok name) :
    Makes (.modify verb target (some change) collection) (.modify verb e (some f) name none)

/-- The node of a call that builds a clause or an operation. -/
inductive Call.Makes : Call → Expr → Prop
  | unary {op : UnaryOp} {given : Operand} {e : Expr} (cast : given.toExpr = .ok e) :
    Makes (.unary op given) (.unary op e)
  | binary {op : BinaryOp} {left right : Operand} {l r : Expr} (castLeft : left.toExpr = .ok l)
    (castRight : right.toExpr = .ok r) : Makes (.binary op left right) (.binary op l r)
  | conditional {condition yes no : Operand} {c y n : Expr}
    (castCondition : condition.toExpr = .ok c) (castYes : yes.toExpr = .ok y)
    (castNo : no.toExpr = .ok n) : Makes (.conditional condition yes no) (.conditional c y n)
  | invoke {function : String} {arguments : List Operand} {es : List Expr}
    (spelled : FunctionText function.toList)
    (casts : List.Forall₂ (fun given e => given.toExpr = .ok e) arguments es) :
    Makes (.invoke function arguments) (.call function es)
  | start {draft : Draft} {c : Clause} (clause : draft.Makes c) :
    Makes (.clause none draft) (.query (.start c))
  | follow {q : Query} {draft : Draft} {c : Clause} (clause : draft.Makes c) :
    Makes (.clause (some (.query q)) draft) (.query (.andThen q c))
  | extend {q : Query} {draft : Draft} {c : Clause} (clause : draft.Makes c) :
    Makes (.extend q draft) (.query (.andThen q c))
  | returning {q : Query} {image : Image} {name : String} (word : IdentifierText name.toList) :
    Makes (.returning q image name)
      (.query ((q.andThen (.bind name (.reference image.path))).andThen
        (.ret false (.identifier name))))

theorem mapM_eq_ok_iff {ε α β : Type} {f : α → Except ε β} {xs : List α} {ys : List β} :
    xs.mapM f = .ok ys ↔ List.Forall₂ (fun x y => f x = .ok y) xs ys := by
  induction xs generalizing ys with
  | nil => rw [List.mapM_nil, pure_eq_ok, List.forall₂_nil_left_iff, eq_comm]
  | cons x xs ih =>
    simp only [List.mapM_cons, bind_eq_ok, pure_eq_ok, ih, List.forall₂_cons_left_iff]
    constructor
    · rintro ⟨y, hy, ys, hys, rfl⟩
      exact ⟨y, ys, hy, hys, rfl⟩
    · rintro ⟨y, ys, hy, hys, rfl⟩
      exact ⟨y, hy, ys, hys, rfl⟩

theorem Draft.toClause_eq_ok_iff {draft : Draft} {c : Clause} :
    draft.toClause = .ok c ↔ draft.Makes c := by
  constructor
  · intro h
    cases draft with
    | forIn name given =>
      obtain ⟨name', hname, h⟩ := bind_eq_ok.1 h
      obtain ⟨e, he, rfl⟩ := bind_pure_eq_ok.1 h
      obtain ⟨rfl, word⟩ := variableName_eq_ok_iff.1 hname
      exact .forIn word he
    | bind name given =>
      obtain ⟨name', hname, h⟩ := bind_eq_ok.1 h
      obtain ⟨e, he, rfl⟩ := bind_pure_eq_ok.1 h
      obtain ⟨rfl, word⟩ := variableName_eq_ok_iff.1 hname
      exact .bind word he
    | filter given =>
      obtain ⟨e, he, rfl⟩ := bind_pure_eq_ok.1 h
      exact .filter he
    | ret distinct given =>
      obtain ⟨e, he, rfl⟩ := bind_pure_eq_ok.1 h
      exact .ret he
    | remove given collection =>
      obtain ⟨e, he, h⟩ := bind_eq_ok.1 h
      obtain ⟨name, hname, rfl⟩ := bind_pure_eq_ok.1 h
      exact .remove he hname
    | insert given collection =>
      obtain ⟨e, he, h⟩ := bind_eq_ok.1 h
      obtain ⟨name, hname, rfl⟩ := bind_pure_eq_ok.1 h
      exact .insert he hname
    | modify verb given change collection =>
      obtain ⟨e, he, h⟩ := bind_eq_ok.1 h
      obtain ⟨change', hchange, h⟩ := bind_eq_ok.1 h
      obtain ⟨name, hname, rfl⟩ := bind_pure_eq_ok.1 h
      cases change with
      | none =>
        cases hchange
        exact .modify he hname
      | some given' =>
        obtain ⟨f, hf, rfl⟩ := map_eq_ok.1 hchange
        exact .modifyWith he hf hname
  · intro h
    cases h with
    | forIn word cast | bind word cast =>
      rw [toClause, variableName_eq_ok_iff.2 ⟨rfl, word⟩, cast]
      rfl
    | filter cast | ret cast =>
      rw [toClause, cast]
      rfl
    | remove cast named | insert cast named | modify cast named =>
      rw [toClause, cast, named]
      rfl
    | modifyWith cast castChange named =>
      rw [toClause, cast, Option.mapM_some, castChange, named]
      rfl

theorem Draft.build_eq_ok_iff {before : Option Expr} {draft : Draft} {q : Query} :
    draft.build before = .ok q ↔
      ∃ before' c, before = before'.map Expr.query ∧ draft.Makes c ∧ q = .follow before' c := by
  simp only [build, bind_eq_ok, pure_eq_ok, predecessor_eq_ok_iff, toClause_eq_ok_iff]
  constructor
  · rintro ⟨before', hbefore, c, hc, rfl⟩
    exact ⟨before', c, hbefore, hc, rfl⟩
  · rintro ⟨before', c, hbefore, hc, rfl⟩
    exact ⟨before', hbefore, c, hc, rfl⟩

theorem Expr.invoke_eq_ok_iff {function : String} {arguments : List Operand} {e : Expr} :
    invoke function arguments = .ok e ↔
      FunctionText function.toList ∧ ∃ es, arguments.mapM Operand.toExpr = .ok es ∧
        e = .call function es := by
  rw [invoke, ← isFunctionName_iff]
  split
  · next h =>
    rw [bind_pure_eq_ok]
    simp only [h, true_and, eq_comm]
  · next h => simp [h]

/-- An image bound and returned by two clauses, each built as any caller could build it. -/
def Query.bindAndReturn (q : Query) (image : Image) (name : String) :
    Except BuildError Query := do
  let bound ← (Draft.bind name (.expr (.reference image.path))).build (some (.query q))
  (Draft.ret false (.expr (.identifier name))).build (some (.query bound))

theorem Query.returning?_eq (q : Query) (image : Image) (name : String) :
    q.returning? image name =
      if q.last.hasImage image then some (q.bindAndReturn image name) else none := by
  unfold returning?
  split
  · simp only [bindAndReturn, Draft.build, Draft.toClause, variableName]
    cases isIdentifier name <;> rfl
  · rfl

namespace Call

variable {c : Call} {slots : List Slot} {r : Except BuildError Expr}

/-- A call succeeds with the node that it makes. -/
theorem makes_iff (hslots : c.slots? = some slots) (hr : c.answer = some r) {e : Expr} :
    r = .ok e ↔ c.Makes e := by
  cases c with
  | unary op given =>
    cases hr
    simp only [UnaryOp.apply, bind_eq_ok, pure_eq_ok]
    constructor
    · rintro ⟨e, he, rfl⟩
      exact .unary he
    · intro h
      cases h with
      | unary he => exact ⟨_, he, rfl⟩
  | binary op left right =>
    cases hr
    simp only [BinaryOp.apply, bind_eq_ok, pure_eq_ok]
    constructor
    · rintro ⟨l, hl, r, hr, rfl⟩
      exact .binary hl hr
    · intro h
      cases h with
      | binary hl hr => exact ⟨_, hl, _, hr, rfl⟩
  | conditional condition yes no =>
    cases hr
    simp only [Expr.choose, bind_eq_ok, pure_eq_ok]
    constructor
    · rintro ⟨c, hc, y, hy, n, hn, rfl⟩
      exact .conditional hc hy hn
    · intro h
      cases h with
      | conditional hc hy hn => exact ⟨_, hc, _, hy, _, hn, rfl⟩
  | invoke function arguments =>
    cases hr
    simp only [Expr.invoke_eq_ok_iff, mapM_eq_ok_iff]
    constructor
    · rintro ⟨spelled, es, hes, rfl⟩
      exact .invoke spelled hes
    · intro h
      cases h with
      | invoke spelled hes => exact ⟨spelled, _, hes, rfl⟩
  | clause before draft =>
    cases hr
    simp only [map_eq_ok, Draft.build_eq_ok_iff]
    constructor
    · rintro ⟨q, ⟨before', c, rfl, hc, rfl⟩, rfl⟩
      cases before' with
      | none => exact .start hc
      | some q => exact .follow hc
    · intro h
      cases h with
      | start hc => exact ⟨_, ⟨none, _, rfl, hc, rfl⟩, rfl⟩
      | follow hc => exact ⟨_, ⟨some _, _, rfl, hc, rfl⟩, rfl⟩
  | extend receiver draft =>
    rw [answer] at hr
    split at hr <;> cases hr
    simp only [map_eq_ok, Query.extend, Draft.build_eq_ok_iff]
    constructor
    · rintro ⟨q, ⟨before', c, hbefore, hc, rfl⟩, rfl⟩
      cases before' with
      | none => cases hbefore
      | some q =>
        cases hbefore
        exact .extend hc
    · intro h
      cases h with
      | extend hc => exact ⟨_, ⟨some _, _, rfl, hc, rfl⟩, rfl⟩
  | returning receiver image name =>
    obtain ⟨r', hr', rfl⟩ := Option.map_eq_some_iff.1 hr
    unfold Query.returning? at hr'
    split at hr' <;> cases hr'
    simp only [map_eq_ok, bind_eq_ok, pure_eq_ok, variableName_eq_ok_iff]
    constructor
    · rintro ⟨q, ⟨name', ⟨rfl, word⟩, rfl⟩, rfl⟩
      exact .returning word
    · intro h
      cases h with
      | returning word => exact ⟨_, ⟨_, ⟨rfl, word⟩, rfl⟩, rfl⟩
  | _ => cases hslots

end Call

/-! ## The order of the checks -/

namespace Slot

theorem tries_predecessor (before : Option Expr) :
    Tries check [.predecessor before] (QueryTree.predecessor before) := .of_map rfl

theorem tries_binder (name : String) : Tries check [.binder name] (variableName name) :=
  .of_map rfl

theorem tries_expression (given : Operand) : Tries check [.expression given] given.toExpr :=
  .of_map rfl

theorem tries_collection (given : Operand) :
    Tries check [.collection given] given.toCollection := .of_map rfl

end Slot

open Slot (tries_predecessor tries_binder tries_expression tries_collection)

theorem Draft.tries_toClause (draft : Draft) :
    Tries Slot.check draft.slots draft.toClause := by
  -- the row of a draft is that of its first part and then that of the rest, as `bind` wants it
  cases draft with
  | forIn name given | bind name given =>
    exact (tries_binder name).bind fun _ _ => (tries_expression given).bind_pure
  | filter given | ret _ given => exact (tries_expression given).bind_pure
  | remove given collection | insert given collection =>
    exact (tries_expression given).bind fun _ _ => (tries_collection collection).bind_pure
  | modify _ given change collection =>
    refine (tries_expression given).bind fun _ _ => ?_
    exact (Tries.optionMapM tries_expression change).bind fun _ _ =>
      (tries_collection collection).bind_pure

theorem Draft.tries_build (before : Option Expr) (draft : Draft) :
    Tries Slot.check (.predecessor before :: draft.slots) (draft.build before) :=
  (tries_predecessor before).bind fun _ _ => draft.tries_toClause.bind_pure

/-- The name of a function is checked before its arguments. -/
theorem Expr.tries_invoke (function : String) (arguments : List Operand) :
    Tries Slot.check (.function function :: arguments.map .expression)
      (invoke function arguments) := by
  have harguments := (Tries.mapM tries_expression arguments).bind_pure (g := Expr.call function)
  have hinvoke : invoke function arguments =
      (Slot.function function).check >>= fun _ =>
        arguments.mapM Operand.toExpr >>= fun es => pure (.call function es) := by
    rw [invoke, Slot.check]
    split <;> rfl
  rw [hinvoke]
  exact (Tries.single Slot.check (.function function)).bind fun _ _ => harguments

theorem Draft.predecessor_notMem_slots (draft : Draft) (before : Option Expr) :
    .predecessor before ∉ draft.slots := by
  cases draft <;> simp [slots]

namespace Call

variable {c : Call} {slots : List Slot} {r : Except BuildError Expr}

/-- **A call tries its slots in order**, and nothing else is tried. -/
theorem tries_slots (hslots : c.slots? = some slots) (hr : c.answer = some r) :
    Tries Slot.check slots r := by
  cases c with
  | unary _ given =>
    cases hslots
    cases hr
    exact (tries_expression given).bind_pure
  | binary _ left right =>
    cases hslots
    cases hr
    exact (tries_expression left).bind fun _ _ => (tries_expression right).bind_pure
  | conditional condition yes no =>
    cases hslots
    cases hr
    exact (tries_expression condition).bind fun _ _ =>
      (tries_expression yes).bind fun _ _ => (tries_expression no).bind_pure
  | invoke function arguments =>
    cases hslots
    cases hr
    exact Expr.tries_invoke function arguments
  | clause before draft =>
    cases hslots
    cases hr
    exact (draft.tries_build before).map
  | extend receiver draft =>
    cases hslots
    rw [answer] at hr
    split at hr <;> cases hr
    exact (draft.tries_build (some (.query receiver))).map
  | returning receiver image name =>
    cases hslots
    obtain ⟨r', hr', rfl⟩ := Option.map_eq_some_iff.1 hr
    unfold Query.returning? at hr'
    split at hr' <;> cases hr'
    exact (tries_binder name).bind_pure.map
  | _ => cases hslots

theorem exists_answer (hslots : c.slots? = some slots) (hoffered : c.Offered) :
    ∃ r, c.answer = some r := by
  cases c with
  | extend receiver draft => exact ⟨_, if_pos hoffered⟩
  | returning receiver image name =>
    have himage : receiver.last.hasImage image = true := hoffered
    rw [answer, Query.returning?, if_pos himage]
    exact ⟨_, rfl⟩
  | unary | binary | conditional | invoke | clause => exact ⟨_, rfl⟩
  | _ => cases hslots

/-- The query that a call is made on is never to blame for what it is: a clause can follow it. -/
theorem topic_ne_predecessor (hslots : c.slots? = some slots) (hreceiver : c.receiver?.isSome)
    {why : BuildError} (hwhy : FirstRefused Slot.check slots why) : why.topic ≠ .predecessor := by
  obtain ⟨s, hs, hrefused⟩ := hwhy.exists_mem
  rw [Slot.topic_of_refused hrefused]
  intro htopic
  cases c with
  | extend receiver draft =>
    cases hslots
    rcases List.mem_cons.1 hs with rfl | hs
    · cases hrefused
    · cases s with
      | predecessor before => exact draft.predecessor_notMem_slots before hs
      | _ => cases htopic
  | returning receiver image name =>
    cases hslots
    rw [List.mem_singleton.1 hs] at htopic
    cases htopic
  | options receiver given => cases hslots
  | _ => cases hreceiver

/-- **A call succeeds if and only if each of its slots is valid on its own**, and then makes its
    node of the operands as they are converted one by one. Otherwise its error is the one that the
    first bad slot has on its own. A call that is made on a query is never refused because of that
    query. So an image is returned by any identifier, although two clauses are built for it. -/
theorem answer_by_slots (hslots : c.slots? = some slots) (hoffered : c.Offered) :
    ∃ r, c.answer = some r ∧
      ((∃ e, r = .ok e) ↔ ∀ s ∈ slots, s.Valid) ∧
      (∀ e, r = .ok e ↔ c.Makes e) ∧
      (∀ why, r = .error why ↔ FirstRefused Slot.check slots why) ∧
      (∀ why, c.receiver?.isSome → r = .error why → why.topic ≠ .predecessor) ∧
      ∀ receiver image name, c = .returning receiver image name →
        r = Expr.query <$> receiver.bindAndReturn image name ∧
        ((∃ why, r = .error why) ↔ ¬ IdentifierText name.toList) := by
  obtain ⟨r, hr⟩ := exists_answer hslots hoffered
  have htries := tries_slots hslots hr
  have hvalid : (∃ e, r = .ok e) ↔ ∀ s ∈ slots, s.Valid := by
    simp only [htries.accepted_iff, Slot.accepted_iff]
  refine ⟨r, hr, hvalid, fun e => makes_iff hslots hr, fun why => htries.refused_iff, ?_, ?_⟩
  · intro why hreceiver hwhy
    exact topic_ne_predecessor hslots hreceiver (htries.refused hwhy)
  · rintro receiver image name rfl
    cases hslots
    have himage : receiver.last.hasImage image = true := hoffered
    rw [answer, Query.returning?_eq, if_pos himage] at hr
    have hword : (∃ e, r = .ok e) ↔ IdentifierText name.toList := by
      simpa [Slot.Valid] using hvalid
    refine ⟨(Option.some.inj hr).symm, ?_⟩
    rw [← hword]
    cases r <;> simp

/-- An update with a change and a collection that are both bad is refused for the change. With good
    ones, target and change are in their own places. What was updated is not returned by a name that
    is no identifier. -/
theorem answer_by_slots_update :
    let loop : Query := .start (.forIn "doc" (.identifier "users"))
    let given (text : String) : Operand := .value (.string text)
    let update (change : Operand) (collection : String) : Call :=
      .extend loop (.modify .update (given "doc") (some change) (given collection))
    let updated : Query :=
      loop.andThen (.modify .update (.identifier "doc") (some (.identifier "other")) "users" none)
    let bad : Operand := .value (.array [])
    (update bad "no name").answer = some (.error (.notExpression bad)) ∧
    (update (given "other") "users").answer = some (.ok (.query updated)) ∧
    ∃ why, (Call.returning updated .new "1st").answer = some (.error why) ∧
      why.topic ≠ .predecessor := by
  intro loop given update updated bad
  refine ⟨?_, ?_, ?_⟩
  · obtain ⟨r, hr, -, -, hrefused, -⟩ := answer_by_slots (c := update bad "no name") rfl rfl
    have hfirst : ∀ s ∈ [Slot.predecessor (some (.query loop)), .expression (given "doc")],
        ∃ u, s.check = .ok u := by
      simp only [List.forall_mem_cons, List.not_mem_nil, false_implies, implies_true, and_true]
      exact ⟨⟨(), rfl⟩, ⟨(), rfl⟩⟩
    rw [hr, (hrefused _).2 ⟨_, .expression bad, [.collection (given "no name")], rfl, hfirst, rfl⟩]
  · obtain ⟨r, hr, -, hmade, -⟩ := answer_by_slots (c := update (given "other") "users") rfl rfl
    rw [hr, (hmade _).2 (.extend (.modifyWith rfl rfl rfl))]
  · obtain ⟨r, hr, -, -, -, htopic, hname⟩ :=
      answer_by_slots (c := .returning updated .new "1st") rfl rfl
    have hword : ¬ IdentifierText "1st".toList := fun word =>
      absurd (isIdentifier_iff.2 word) (by decide)
    obtain ⟨why, rfl⟩ := (hname _ _ _ rfl).2.2 hword
    exact ⟨why, hr, htopic why rfl rfl⟩

end Call

end QueryTree
