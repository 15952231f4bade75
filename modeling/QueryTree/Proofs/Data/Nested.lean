import Mathlib.Data.List.Forall2
import QueryTree.Build.Leaf
import QueryTree.Proofs.Build.Order
import QueryTree.Proofs.Data.History

/-!
# Nested data

Arrays and objects become lists and objects, at any depth, and a scalar becomes what it becomes on
its own. `Value.Mirrors` is that relation between data and the expression made of them.

Nothing but the scalars can be refused. They are tried in reading order (`Value.tries_toNested`), so
an error is always that of the first bad scalar and never speaks of an array or an object around it.
-/

set_option autoImplicit false

namespace QueryTree

namespace Value

def isScalar : Value → Bool
  | .array _ | .object _ => false
  | .null | .boolean _ | .integer _ | .float _ | .string _ => true

/-- What becomes of a value that stands on its own. -/
def cast (v : Value) : Except BuildError Expr := (Operand.value v).toExpr

mutual

/-- All scalars in a value, in reading order. -/
def scalars : Value → List Value
  | .array items => itemScalars items
  | .object entries => entryScalars entries
  | v => [v]

def itemScalars : List Value → List Value
  | [] => []
  | item :: rest => item.scalars ++ itemScalars rest

def entryScalars : List (String × Value) → List Value
  | [] => []
  | (_, value) :: rest => value.scalars ++ entryScalars rest

end

mutual

/-- No object in a value has a key twice. -/
def KeysDistinct : Value → Prop
  | .array items => ItemKeysDistinct items
  | .object entries => (entries.map Prod.fst).Nodup ∧ EntryKeysDistinct entries
  | _ => True

def ItemKeysDistinct : List Value → Prop
  | [] => True
  | item :: rest => item.KeysDistinct ∧ ItemKeysDistinct rest

def EntryKeysDistinct : List (String × Value) → Prop
  | [] => True
  | (_, value) :: rest => value.KeysDistinct ∧ EntryKeysDistinct rest

end

/-- The expression has the shape of the data: the same keys in the same order, as many items in the
    same order, and in the place of each scalar what becomes of it on its own. -/
inductive Mirrors : Value → Expr → Prop
  | scalar {v : Value} {e : Expr} (plain : v.isScalar = true) (cast : v.cast = .ok e) : Mirrors v e
  | array {items : List Value} {es : List Expr} (each : List.Forall₂ Mirrors items es) :
    Mirrors (.array items) (.list es)
  | object {entries : List (String × Value)} {written : List (String × Expr)}
    (keys : written.map Prod.fst = entries.map Prod.fst)
    (each : List.Forall₂ Mirrors (entries.map Prod.snd) (written.map Prod.snd)) :
    Mirrors (.object entries) (.object written)

/-! ## What is tried -/

theorem scalars_of_isScalar {v : Value} (h : v.isScalar = true) : v.scalars = [v] := by
  cases v with
  | array | object => cases h
  | null | boolean | integer | float | string => rw [scalars] <;> simp

theorem toNested_of_isScalar {v : Value} (h : v.isScalar = true) : v.toNested = v.cast := by
  cases v with
  | array | object => cases h
  | null | boolean | integer | float | string => rw [toNested, cast] <;> simp

theorem cast_eq_error {v : Value} {why : BuildError} (h : v.cast = .error why) :
    why = .notExpression (.value v) := by
  unfold cast Operand.toExpr at h
  split at h
  · cases h
  · cases h
    rfl

mutual

theorem isScalar_of_mem_scalars : ∀ (v : Value), ∀ s ∈ v.scalars, s.isScalar = true
  | .array items, s, hs => isScalar_of_mem_itemScalars items s (by rwa [scalars] at hs)
  | .object entries, s, hs => isScalar_of_mem_entryScalars entries s (by rwa [scalars] at hs)
  | .null, s, hs | .boolean _, s, hs | .integer _, s, hs | .float _, s, hs | .string _, s, hs => by
    rw [scalars_of_isScalar rfl, List.mem_singleton] at hs
    rw [hs]
    rfl

theorem isScalar_of_mem_itemScalars : ∀ (items : List Value), ∀ s ∈ itemScalars items,
    s.isScalar = true
  | [], s, hs => by simp [itemScalars] at hs
  | item :: rest, s, hs => by
    rw [itemScalars, List.mem_append] at hs
    rcases hs with hs | hs
    · exact isScalar_of_mem_scalars item s hs
    · exact isScalar_of_mem_itemScalars rest s hs

theorem isScalar_of_mem_entryScalars : ∀ (entries : List (String × Value)),
    ∀ s ∈ entryScalars entries, s.isScalar = true
  | [], s, hs => by simp [entryScalars] at hs
  | (_, value) :: rest, s, hs => by
    rw [entryScalars, List.mem_append] at hs
    rcases hs with hs | hs
    · exact isScalar_of_mem_scalars value s hs
    · exact isScalar_of_mem_entryScalars rest s hs

end

mutual

/-- **Scalars are tried in reading order**, and nothing else is. -/
theorem tries_toNested : ∀ (v : Value), Tries cast v.scalars v.toNested
  | .array items => by
    rw [scalars, toNested]
    exact (tries_nestedItems items).bind_pure
  | .object entries => by
    rw [scalars, toNested]
    exact (tries_nestedEntries entries).bind_pure
  | .null | .boolean _ | .integer _ | .float _ | .string _ => by
    rw [scalars_of_isScalar rfl, toNested_of_isScalar rfl]
    exact .single cast _

theorem tries_nestedItems : ∀ (items : List Value),
    Tries cast (itemScalars items) (nestedItems items)
  | [] => .success []
  | item :: rest => by
    rw [itemScalars, nestedItems]
    exact (tries_toNested item).bind fun e _ => (tries_nestedItems rest).bind_pure

theorem tries_nestedEntries : ∀ (entries : List (String × Value)),
    Tries cast (entryScalars entries) (nestedEntries entries)
  | [] => .success []
  | (key, value) :: rest => by
    rw [entryScalars, nestedEntries]
    exact (tries_toNested value).bind fun e _ => (tries_nestedEntries rest).bind_pure

end

/-! ## What is made -/

theorem keys_nestedEntries {entries : List (String × Value)} {written : List (String × Expr)}
    (h : nestedEntries entries = .ok written) : written.map Prod.fst = entries.map Prod.fst := by
  induction entries generalizing written with
  | nil =>
    rw [nestedEntries, pure_eq_ok] at h
    rw [← h]
    rfl
  | cons pair rest ih =>
    obtain ⟨key, value⟩ := pair
    rw [nestedEntries] at h
    obtain ⟨e, -, h⟩ := bind_eq_ok.1 h
    obtain ⟨es, hes, rfl⟩ := bind_pure_eq_ok.1 h
    rw [List.map_cons, List.map_cons, ih hes]

mutual

theorem mirrors_of_toNested : ∀ (v : Value) {e : Expr}, v.KeysDistinct → v.toNested = .ok e →
    v.Mirrors e
  | .array items, e, hkeys, h => by
    rw [toNested] at h
    obtain ⟨es, hes, rfl⟩ := bind_pure_eq_ok.1 h
    rw [KeysDistinct] at hkeys
    exact .array (mirrors_of_nestedItems items hkeys hes)
  | .object entries, e, hkeys, h => by
    rw [toNested] at h
    obtain ⟨written, hwritten, rfl⟩ := bind_pure_eq_ok.1 h
    rw [KeysDistinct] at hkeys
    have hsame := keys_nestedEntries hwritten
    -- no key is written twice, so every pair keeps its place
    rw [Entries.ofPairs_of_nodup (hsame ▸ hkeys.1)]
    exact .object hsame (mirrors_of_nestedEntries entries hkeys.2 hwritten)
  | .null, e, _, h | .boolean _, e, _, h | .integer _, e, _, h | .float _, e, _, h
  | .string _, e, _, h => by
    rw [toNested_of_isScalar rfl] at h
    exact .scalar rfl h

theorem mirrors_of_nestedItems : ∀ (items : List Value) {es : List Expr}, ItemKeysDistinct items →
    nestedItems items = .ok es → List.Forall₂ Mirrors items es
  | [], es, _, h => by
    rw [nestedItems, pure_eq_ok] at h
    exact h ▸ .nil
  | item :: rest, es, hkeys, h => by
    rw [nestedItems] at h
    obtain ⟨e, he, h⟩ := bind_eq_ok.1 h
    obtain ⟨es', hes, rfl⟩ := bind_pure_eq_ok.1 h
    rw [ItemKeysDistinct] at hkeys
    exact .cons (mirrors_of_toNested item hkeys.1 he) (mirrors_of_nestedItems rest hkeys.2 hes)

theorem mirrors_of_nestedEntries : ∀ (entries : List (String × Value))
    {written : List (String × Expr)}, EntryKeysDistinct entries →
    nestedEntries entries = .ok written →
    List.Forall₂ Mirrors (entries.map Prod.snd) (written.map Prod.snd)
  | [], written, _, h => by
    rw [nestedEntries, pure_eq_ok] at h
    exact h ▸ .nil
  | (key, value) :: rest, written, hkeys, h => by
    rw [nestedEntries] at h
    obtain ⟨e, he, h⟩ := bind_eq_ok.1 h
    obtain ⟨written', hwritten, rfl⟩ := bind_pure_eq_ok.1 h
    rw [EntryKeysDistinct] at hkeys
    exact .cons (mirrors_of_toNested value hkeys.1 he)
      (mirrors_of_nestedEntries rest hkeys.2 hwritten)

end

end Value

/-! ## Objects and lists of data -/

theorem Operand.toNested_of_toExpr {given : Operand} {e : Expr} (h : given.toExpr = .ok e) :
    given.toNested = .ok e := by
  cases given with
  | expr _ | float _ => exact h
  | value v =>
    cases v with
    | array | object => cases h
    | null | boolean | integer | float | string =>
      rw [toNested, Value.toNested_of_isScalar rfl]
      exact h

theorem Value.nestedItems_eq_mapM (items : List Value) :
    nestedItems items = items.mapM toNested := by
  induction items with
  | nil => rw [nestedItems, List.mapM_nil]
  | cons item rest ih => rw [nestedItems, List.mapM_cons, ih]

theorem Expr.ofItems_values (items : List Value) :
    ofItems (items.map .value) = (Value.array items).toNested := by
  have hcomp : Operand.toNested ∘ Operand.value = Value.toNested := rfl
  rw [ofItems, List.mapM_map, hcomp, Value.toNested, Value.nestedItems_eq_mapM]

/-- Writing data entry by entry and writing them after all conversions come to the same. -/
theorem Entries.foldlM_insert_values (entries : List (String × Value)) (written : Entries Expr) :
    (entries.map fun pair => (pair.1, Operand.value pair.2)).foldlM
        (fun es (key, given) => Entries.insert key given es) written =
      (do return putAll written (← Value.nestedEntries entries)) := by
  induction entries generalizing written with
  | nil => rfl
  | cons pair rest ih =>
    obtain ⟨key, value⟩ := pair
    rw [List.map_cons, List.foldlM_cons, Value.nestedEntries]
    show (do
      let es ← (do return put key (← value.toNested) written)
      (rest.map _).foldlM _ es) = _
    cases value.toNested with
    | error why => rfl
    | ok e =>
      show (rest.map _).foldlM _ (put key e written) = _
      rw [ih]
      cases Value.nestedEntries rest <;> rfl

theorem Expr.ofEntries_values (entries : List (String × Value)) :
    ofEntries (entries.map fun pair => (pair.1, .value pair.2)) =
      (Value.object entries).toNested := by
  rw [ofEntries, Entries.foldlM_insert_values, Value.toNested]
  cases Value.nestedEntries entries <;> rfl

/-- **Data mirror themselves, or their first bad scalar is reported.** Lists and objects that are
    made of data directly are the same, and so is whatever can stand on its own. -/
theorem Value.toNested_mirrors_or_reports (v : Value) (hkeys : v.KeysDistinct) :
    ((∃ e, v.toNested = .ok e) ↔ ∀ s ∈ v.scalars, ∃ e, s.cast = .ok e) ∧
    (∀ e, v.toNested = .ok e → v.Mirrors e) ∧
    (∀ why, v.toNested = .error why → ∃ before s after, v.scalars = before ++ s :: after ∧
      (∀ t ∈ before, ∃ e, t.cast = .ok e) ∧ s.cast = .error why ∧ s.isScalar = true ∧
      why = .notExpression (.value s)) ∧
    (∀ items, v = .array items → Expr.ofItems (items.map .value) = v.toNested) ∧
    (∀ entries, v = .object entries →
      Expr.ofEntries (entries.map fun pair => (pair.1, .value pair.2)) = v.toNested) ∧
    ∀ (given : Operand) (e : Expr), given.toExpr = .ok e → given.toNested = .ok e := by
  have htries := tries_toNested v
  refine ⟨htries.accepted_iff, fun e he => mirrors_of_toNested v hkeys he, ?_, ?_, ?_,
    fun given e he => Operand.toNested_of_toExpr he⟩
  · intro why hwhy
    obtain ⟨before, s, after, hscalars, hbefore, hs⟩ := htries.refused hwhy
    have hscalar := isScalar_of_mem_scalars v s (by simp [hscalars])
    exact ⟨before, s, after, hscalars, hbefore, hs, hscalar, cast_eq_error hs⟩
  · rintro items rfl
    exact Expr.ofItems_values items
  · rintro entries rfl
    exact Expr.ofEntries_values entries

/-- An object that mirrors itself, and an array with two bad scalars, of which the first decides. -/
theorem Value.toNested_mirrors_or_reports_first :
    let good : Value := .object [("for", .array [.integer 1, .object [("x", .string "doc")]])]
    let bad : Value := .array [.null, .object [("x", .array [.string "1"]), ("y", .string "")]]
    (∃ e, good.toNested = .ok e ∧ good.Mirrors e) ∧
      FirstRefused cast bad.scalars (.notExpression (.value (.string "1"))) := by
  intro good bad
  have hgood : good.KeysDistinct := by
    simp [good, KeysDistinct, ItemKeysDistinct, EntryKeysDistinct]
  have hbad : bad.KeysDistinct := by
    simp [bad, KeysDistinct, ItemKeysDistinct, EntryKeysDistinct]
  obtain ⟨haccepted, hmirrors, -⟩ := toNested_mirrors_or_reports good hgood
  obtain ⟨-, -, hreports, -⟩ := toNested_mirrors_or_reports bad hbad
  have hscalars : ∀ s ∈ good.scalars, ∃ e, s.cast = .ok e := by
    have hlist : good.scalars = [.integer 1, .string "doc"] := by
      simp [good, scalars, entryScalars, itemScalars]
    rw [hlist, List.forall_mem_cons, List.forall_mem_singleton]
    exact ⟨⟨.integer 1, rfl⟩, ⟨.identifier "doc", rfl⟩⟩
  obtain ⟨e, he⟩ := haccepted.2 hscalars
  have hresult : bad.toNested = .error (.notExpression (.value (.string "1"))) := by
    rfl
  obtain ⟨before, s, after, hlist, hbefore, hs, -⟩ := hreports _ hresult
  exact ⟨⟨e, he, hmirrors e he⟩, before, s, after, hlist, hbefore, hs⟩

end QueryTree
