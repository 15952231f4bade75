import QueryTree.Proofs.Build.Session

/-!
# What the root of a new node can be

`Fresh allowed e` lists the nodes that a call of the allowed sort can put on top of the nodes that
it uses, each with the checks that it has passed by then. It is the inversion of all entry points at
once: the ways in which a leaf comes about stand apart (spelled out by its own call, or cast from
plain data), because the laws of plain trees tell them apart; a compound node is the same whichever
call has made it.

Here are the roots, and what the functions give that convert plain data and put it into objects and
lists. There is one lemma for each function, and no lemma looks into another function.
-/

set_option autoImplicit false

namespace QueryTree

/-! ## Computations that succeed -/

section Success

variable {ε α β : Type}

theorem bind_eq_ok {x : Except ε α} {f : α → Except ε β} {b : β} :
    x >>= f = .ok b ↔ ∃ a, x = .ok a ∧ f a = .ok b := by
  cases x <;> simp [bind, Except.bind]

theorem map_eq_ok {x : Except ε α} {f : α → β} {b : β} :
    f <$> x = .ok b ↔ ∃ a, x = .ok a ∧ f a = b := by
  cases x <;> simp [Functor.map, Except.map]

theorem pure_eq_ok {a b : α} : (pure a : Except ε α) = .ok b ↔ a = b := by
  simp [pure, Except.pure]

theorem bind_pure_eq_ok {x : Except ε α} {f : α → β} {b : β} :
    (x >>= fun a => pure (f a)) = .ok b ↔ ∃ a, x = .ok a ∧ f a = b := by
  simp only [bind_eq_ok, pure_eq_ok]

theorem bind_pure_eq_error {x : Except ε α} {f : α → β} {why : ε} :
    (x >>= fun a => pure (f a)) = .error why ↔ x = .error why := by
  cases x <;> simp [bind, Except.bind, pure, Except.pure]

/-- Every result of a traversal that succeeds is the result for one of its members. -/
theorem exists_of_mem_mapM {f : α → Except ε β} {xs : List α} {ys : List β}
    (h : xs.mapM f = .ok ys) : ∀ y ∈ ys, ∃ x ∈ xs, f x = .ok y := by
  induction xs generalizing ys with
  | nil =>
    rw [List.mapM_nil, pure_eq_ok] at h
    subst h
    simp
  | cons x xs ih =>
    rw [List.mapM_cons] at h
    obtain ⟨y, hy, h⟩ := bind_eq_ok.1 h
    obtain ⟨ys', hys, rfl⟩ := bind_pure_eq_ok.1 h
    intro z hz
    rcases List.mem_cons.mp hz with rfl | hz
    · exact ⟨x, by simp, hy⟩
    · obtain ⟨x', hx', hfx⟩ := ih hys z hz
      exact ⟨x', List.mem_cons_of_mem _ hx', hfx⟩

end Success

/-! ## The roots -/

def Clause.NamesSpelled : Clause → Prop
  | .forIn name _ | .bind name _ => isIdentifier name = true
  | .remove _ collection _ | .insert _ collection _ | .modify _ _ _ collection _ =>
    isCollectionName collection = true
  | .filter _ | .ret _ _ => True

/-- The root of a node that a call of the allowed sort gives, whatever its parts. -/
inductive Fresh (allowed : Call → Prop) : Expr → Prop
  | integer {n : Int} (range : isInt64 n = true) : Fresh allowed (.integer n)
  | number {x : Binary64} (sort : allowed (.number x)) (finite : x.isFinite = true) :
    Fresh allowed (.number x)
  | castNumber {x : Binary64} (cast : floatExpr? x = some (.number x)) : Fresh allowed (.number x)
  | string (text : String) : Fresh allowed (.string text)
  | boolean (value : Bool) : Fresh allowed (.boolean value)
  | null : Fresh allowed .null
  | identifier {name : String} (spelled : isIdentifier name = true) :
    Fresh allowed (.identifier name)
  | reference {path : String} (sort : allowed (.reference path)) (spelled : isPath path = true) :
    Fresh allowed (.reference path)
  /-- a string is a reference only when it is no identifier -/
  | castReference {path : String} (compound : isIdentifier path = false)
    (spelled : isPath path = true) : Fresh allowed (.reference path)
  | raw {text : String} (sort : allowed (.raw text)) : Fresh allowed (.raw text)
  | keyword {word : String} (sort : allowed (.keyword word))
    (spelled : isKeywordSpelling word = true) : Fresh allowed (.keyword (capitals word))
  | collection {given : Operand} {name : String} (sort : allowed (.collection given))
    (spelled : isCollectionName name = true) : Fresh allowed (.collection name)
  | object {entries : Entries Expr} (distinct : (Entries.keys entries).Nodup) :
    Fresh allowed (.object entries)
  | list (items : List Expr) : Fresh allowed (.list items)
  | unary (op : UnaryOp) (e : Expr) : Fresh allowed (.unary op e)
  | binary (op : BinaryOp) (l r : Expr) : Fresh allowed (.binary op l r)
  | conditional (c y n : Expr) : Fresh allowed (.conditional c y n)
  | call {function : String} (arguments : List Expr) (spelled : isFunctionName function = true) :
    Fresh allowed (.call function arguments)
  | query {q : Query} (spelled : q.last.NamesSpelled) : Fresh allowed (.query q)

/-- Every node in the tree has a root that a call of the allowed sort can give. -/
abbrev Expr.AllFresh (allowed : Call → Prop) (e : Expr) : Prop := e.Everywhere (Fresh allowed)

variable {allowed : Call → Prop}

theorem Fresh.everywhere {e : Expr} (h : Fresh allowed e)
    (parts : ∀ s ∈ e.parts, s.AllFresh allowed) : e.AllFresh allowed :=
  Expr.everywhere_iff.2 ⟨h, parts⟩

theorem Fresh.leaf {e : Expr} (h : Fresh allowed e) (hparts : e.parts = []) :
    e.AllFresh allowed :=
  h.everywhere (by simp [hparts])

/-! ## Conversions -/

theorem isInt64_toInt (n : Int64) : isInt64 n.toInt = true := by
  have hlow := n.le_toInt
  have hhigh := n.toInt_lt
  simp only [isInt64, Bool.and_eq_true, decide_eq_true_eq]
  omega

theorem fresh_of_floatExpr? {x : Binary64} {e : Expr} (h : floatExpr? x = some e) :
    e.AllFresh allowed := by
  have hcast := h
  unfold floatExpr? at h
  split at h
  · split at h
    · split at h
      · next hrange => cases h; exact (Fresh.integer hrange).leaf rfl
      · cases h; exact (Fresh.castNumber hcast).leaf rfl
    · cases h; exact (Fresh.castNumber hcast).leaf rfl
  · cases h

theorem fresh_of_integerExpr? {n : Int} {e : Expr} (h : integerExpr? n = some e) :
    e.AllFresh allowed := by
  unfold integerExpr? at h
  split at h
  · next hrange => cases h; exact (Fresh.integer hrange).leaf rfl
  · exact fresh_of_floatExpr? h

theorem fresh_of_stringExpr? {text : String} {e : Expr} (h : stringExpr? text = some e) :
    e.AllFresh allowed := by
  unfold stringExpr? at h
  split at h
  · obtain ⟨content, _, rfl⟩ := Option.map_eq_some_iff.1 h
    exact (Fresh.string _).leaf rfl
  · split at h
    · next hword => cases h; exact (Fresh.identifier hword).leaf rfl
    · next hword =>
      split at h
      · next hpath => cases h; exact (Fresh.castReference (by simpa using hword) hpath).leaf rfl
      · cases h

theorem Operand.fresh_of_toExpr {given : Operand} {e : Expr} (h : given.toExpr = .ok e)
    (hnodes : ∀ s ∈ given.nodes, s.AllFresh allowed) : e.AllFresh allowed := by
  unfold Operand.toExpr at h
  split at h
  · next e' hexpr =>
    cases h
    unfold Operand.expr? at hexpr
    split at hexpr
    · cases hexpr; exact hnodes e (by simp [Operand.nodes])
    · exact fresh_of_floatExpr? hexpr
    · cases hexpr; exact Fresh.null.leaf rfl
    · cases hexpr; exact (Fresh.boolean _).leaf rfl
    · exact fresh_of_integerExpr? hexpr
    · exact fresh_of_floatExpr? hexpr
    · exact fresh_of_stringExpr? hexpr
    · cases hexpr
    · cases hexpr
  · cases h

/-! ## Entries -/

theorem Entries.nodup_keys_put {α : Type} {key : String} {value : α} {entries : Entries α}
    (h : (keys entries).Nodup) : (keys (put key value entries)).Nodup := by
  rw [keys_put]
  split
  · exact h
  · next hkey =>
    refine List.nodup_append.2 ⟨h, by simp, fun k hk l hl => ?_⟩
    rw [List.mem_singleton.1 hl]
    exact fun heq => hkey (heq ▸ hk)

theorem Entries.mem_values_put {α : Type} {key : String} {value v : α} {entries : Entries α}
    (h : v ∈ (put key value entries).map Prod.snd) :
    v = value ∨ v ∈ entries.map Prod.snd := by
  induction entries with
  | nil => exact Or.inl (by simpa [put] using h)
  | cons pair rest ih =>
    obtain ⟨k, w⟩ := pair
    rw [put] at h
    split at h
    · rcases List.mem_cons.mp h with rfl | h
      · exact Or.inl rfl
      · exact Or.inr (List.mem_cons_of_mem _ h)
    · rcases List.mem_cons.mp h with rfl | h
      · exact Or.inr (by simp)
      · exact (ih h).imp id (List.mem_cons_of_mem _)

/-- Keys stay distinct and values stay fresh when pairs are written one after the other. -/
theorem Entries.fresh_putAll {pairs : List (String × Expr)} :
    ∀ {entries : Entries Expr}, (keys entries).Nodup →
      (∀ v ∈ entries.map Prod.snd, v.AllFresh allowed) →
      (∀ v ∈ pairs.map Prod.snd, v.AllFresh allowed) →
      (keys (putAll entries pairs)).Nodup ∧
        ∀ v ∈ (putAll entries pairs).map Prod.snd, v.AllFresh allowed := by
  induction pairs with
  | nil => intro entries hkeys hvalues _; exact ⟨hkeys, hvalues⟩
  | cons pair rest ih =>
    intro entries hkeys hvalues hpairs
    obtain ⟨key, value⟩ := pair
    refine ih (nodup_keys_put hkeys) (fun v hv => ?_)
      (fun v hv => hpairs v (List.mem_cons_of_mem _ hv))
    rcases mem_values_put hv with rfl | hv
    · exact hpairs v (by simp)
    · exact hvalues v hv

/-! ## Nested data -/

theorem Expr.fresh_object {entries : Entries Expr} (distinct : (Entries.keys entries).Nodup)
    (values : ∀ v ∈ entries.map Prod.snd, v.AllFresh allowed) :
    (Expr.object entries).AllFresh allowed :=
  (Fresh.object distinct).everywhere values

theorem Expr.fresh_ofPairs {pairs : List (String × Expr)}
    (values : ∀ v ∈ pairs.map Prod.snd, v.AllFresh allowed) :
    (Expr.object (Entries.ofPairs pairs)).AllFresh allowed := by
  have hempty : (Entries.keys ([] : Entries Expr)).Nodup := by simp [Entries.keys]
  obtain ⟨hkeys, hvalues⟩ := Entries.fresh_putAll hempty (by simp) values
  exact Expr.fresh_object hkeys hvalues

mutual

theorem Value.fresh_of_toNested : ∀ (v : Value) {e : Expr}, v.toNested = .ok e →
    e.AllFresh allowed
  | .object entries, e, h => by
    rw [Value.toNested] at h
    obtain ⟨pairs, hpairs, rfl⟩ := bind_pure_eq_ok.1 h
    exact Expr.fresh_ofPairs (Value.fresh_of_nestedEntries entries hpairs)
  | .array items, e, h => by
    rw [Value.toNested] at h
    obtain ⟨es, hes, rfl⟩ := bind_pure_eq_ok.1 h
    exact (Fresh.list es).everywhere (Value.fresh_of_nestedItems items hes)
  | .null, e, h | .boolean _, e, h | .integer _, e, h | .float _, e, h | .string _, e, h => by
    simp only [Value.toNested] at h
    exact Operand.fresh_of_toExpr h (by simp [Operand.nodes])

theorem Value.fresh_of_nestedItems : ∀ (items : List Value) {es : List Expr},
    Value.nestedItems items = .ok es → ∀ e ∈ es, e.AllFresh allowed
  | [], es, h => by
    rw [Value.nestedItems, pure_eq_ok] at h
    subst h
    simp
  | item :: rest, es, h => by
    rw [Value.nestedItems] at h
    obtain ⟨e, he, h⟩ := bind_eq_ok.1 h
    obtain ⟨es', hes, rfl⟩ := bind_pure_eq_ok.1 h
    intro s hs
    rcases List.mem_cons.mp hs with rfl | hs
    · exact Value.fresh_of_toNested item he
    · exact Value.fresh_of_nestedItems rest hes s hs

theorem Value.fresh_of_nestedEntries : ∀ (entries : List (String × Value))
    {pairs : List (String × Expr)}, Value.nestedEntries entries = .ok pairs →
    ∀ v ∈ pairs.map Prod.snd, v.AllFresh allowed
  | [], pairs, h => by
    rw [Value.nestedEntries, pure_eq_ok] at h
    subst h
    simp
  | (key, value) :: rest, pairs, h => by
    rw [Value.nestedEntries] at h
    obtain ⟨e, he, h⟩ := bind_eq_ok.1 h
    obtain ⟨pairs', hpairs, rfl⟩ := bind_pure_eq_ok.1 h
    intro v hv
    rcases List.mem_cons.mp hv with rfl | hv
    · exact Value.fresh_of_toNested value he
    · exact Value.fresh_of_nestedEntries rest hpairs v hv

end

theorem Operand.fresh_of_toNested {given : Operand} {e : Expr} (h : given.toNested = .ok e)
    (hnodes : ∀ s ∈ given.nodes, s.AllFresh allowed) : e.AllFresh allowed := by
  cases given with
  | value v => exact Value.fresh_of_toNested v h
  | expr _ | float _ =>
    simp only [Operand.toNested] at h
    exact Operand.fresh_of_toExpr h hnodes

theorem Operand.fresh_of_toOptions {given : Operand} {entries : Entries Expr}
    (h : given.toOptions = .ok entries) (hnodes : ∀ s ∈ given.nodes, s.AllFresh allowed) :
    (Expr.object entries).AllFresh allowed := by
  unfold Operand.toOptions at h
  split at h
  · rw [pure_eq_ok] at h
    subst h
    exact hnodes _ (by simp [Operand.nodes])
  · obtain ⟨pairs, hpairs, rfl⟩ := bind_pure_eq_ok.1 h
    exact Expr.fresh_ofPairs (Value.fresh_of_nestedEntries _ hpairs)
  · cases h

/-! ## Objects and lists of operands -/

theorem Entries.fresh_of_insert {key : String} {given : Operand} {entries written : Entries Expr}
    (h : Entries.insert key given entries = .ok written)
    (hentries : (Expr.object entries).AllFresh allowed)
    (hnodes : ∀ s ∈ given.nodes, s.AllFresh allowed) :
    (Expr.object written).AllFresh allowed := by
  obtain ⟨e, he, rfl⟩ := bind_pure_eq_ok.1 h
  cases hentries.here with
  | object distinct =>
    refine Expr.fresh_object (nodup_keys_put distinct) fun v hv => ?_
    rcases mem_values_put hv with rfl | hv
    · exact Operand.fresh_of_toNested he hnodes
    · exact hentries.part hv

theorem Entries.fresh_of_foldlM {pairs : List (String × Operand)} :
    ∀ {entries written : Entries Expr},
      pairs.foldlM (fun es (key, given) => Entries.insert key given es) entries = .ok written →
      (Expr.object entries).AllFresh allowed →
      (∀ pair ∈ pairs, ∀ s ∈ pair.2.nodes, s.AllFresh allowed) →
      (Expr.object written).AllFresh allowed := by
  induction pairs with
  | nil =>
    intro entries written h hentries _
    rw [List.foldlM_nil, pure_eq_ok] at h
    exact h ▸ hentries
  | cons pair rest ih =>
    intro entries written h hentries hnodes
    obtain ⟨key, given⟩ := pair
    rw [List.foldlM_cons] at h
    obtain ⟨middle, hmiddle, h⟩ := bind_eq_ok.1 h
    have hinsert := Entries.fresh_of_insert hmiddle hentries (hnodes (key, given) (by simp))
    exact ih h hinsert fun p hp => hnodes p (List.mem_cons_of_mem _ hp)

theorem Operand.fresh_of_mapM {convert : Operand → Except BuildError Expr}
    (hconvert : ∀ {given e}, convert given = .ok e →
      (∀ s ∈ given.nodes, s.AllFresh allowed) → e.AllFresh allowed)
    {given : List Operand} {es : List Expr} (h : given.mapM convert = .ok es)
    (hnodes : ∀ s ∈ given.flatMap Operand.nodes, s.AllFresh allowed) :
    ∀ e ∈ es, e.AllFresh allowed := by
  intro e he
  obtain ⟨x, hx, hxe⟩ := exists_of_mem_mapM h e he
  exact hconvert hxe fun s hs => hnodes s (List.mem_flatMap.2 ⟨x, hx, hs⟩)

end QueryTree
