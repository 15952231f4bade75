import Mathlib.Data.Finset.Dedup
import Mathlib.Data.Finset.Card
import QueryTree.Proofs.Data.Nested

/-!
# Objects under insertion

An object is written by insertions, any number of them, of which some fail. A failing insertion
changes nothing, a successful one writes the node that the operand becomes. So the object in the end
is the map of a history (`Entries.ofHistory`), the history of all insertions that were accepted,
those that made the object among them.

A single insertion is inverted once (`Entries.insert_eq_ok`, `Entries.insert_eq_error`). The run
lemma `Entries.attemptAll_eq_putAll` is by induction on the calls, and everything about a run is
read off it.
-/

set_option autoImplicit false

namespace QueryTree

namespace Entries

variable {key : String} {given : Operand} {entries written : Entries Expr}
  {pairs calls : List (String × Operand)} {why : BuildError}

/-- The object after an insertion, successful or not. -/
def attempt (entries : Entries Expr) (call : String × Operand) : Entries Expr :=
  match insert call.1 call.2 entries with
  | .ok written => written
  | .error _ => entries

/-- The object after a run of insertions. -/
def attemptAll (entries : Entries Expr) (calls : List (String × Operand)) : Entries Expr :=
  calls.foldl attempt entries

/-- What the calls write that are accepted. -/
def accepted (calls : List (String × Operand)) : List (String × Expr) :=
  calls.filterMap fun call => call.2.toNested.toOption.map (call.1, ·)

/-- An object as a caller first gets it, with the insertions that have made it. -/
inductive Opened : List (String × Operand) → Entries Expr → Prop
  | empty : Opened [] []
  | pairs {pairs : List (String × Operand)} {written : Entries Expr}
    (made : Expr.ofEntries pairs = .ok (.object written)) : Opened pairs written
  | data {entries : List (String × Value)} {written : Entries Expr}
    (made : (Value.object entries).toNested = .ok (.object written)) :
    Opened (entries.map fun pair => (pair.1, .value pair.2)) written

/-! ## One insertion -/

theorem insert_eq_ok : insert key given entries = .ok written ↔
    ∃ e, given.toNested = .ok e ∧ put key e entries = written :=
  bind_pure_eq_ok

theorem insert_eq_error : insert key given entries = .error why ↔ given.toNested = .error why :=
  bind_pure_eq_error

theorem attempt_of_ok (h : insert key given entries = .ok written) :
    attempt entries (key, given) = written := by
  rw [attempt, h]

theorem attempt_of_error (h : insert key given entries = .error why) :
    attempt entries (key, given) = entries := by
  rw [attempt, h]

theorem attempt_eq_putAll (entries : Entries Expr) (call : String × Operand) :
    attempt entries call = putAll entries (accepted [call]) := by
  obtain ⟨key, given⟩ := call
  cases h : given.toNested with
  | ok e =>
    rw [attempt_of_ok (insert_eq_ok.2 ⟨e, h, rfl⟩)]
    simp [accepted, h, Except.toOption, putAll]
  | error why =>
    rw [attempt_of_error (insert_eq_error.2 h)]
    simp [accepted, h, Except.toOption, putAll]

/-! ## A run of insertions -/

theorem putAll_append (entries : Entries Expr) (before after : List (String × Expr)) :
    putAll entries (before ++ after) = putAll (putAll entries before) after :=
  List.foldl_append

/-- **A run writes what it accepts.** -/
theorem attemptAll_eq_putAll (entries : Entries Expr) (calls : List (String × Operand)) :
    attemptAll entries calls = putAll entries (accepted calls) := by
  induction calls generalizing entries with
  | nil => rfl
  | cons call calls ih =>
    have hsplit : accepted (call :: calls) = accepted [call] ++ accepted calls :=
      List.filterMap_append (l := [call])
    rw [hsplit, putAll_append, ← attempt_eq_putAll, ← ih]
    rfl

/-- Insertions that stop at the first failure are tried in order. -/
theorem tries_insertAll (pairs : List (String × Operand)) : ∀ entries : Entries Expr,
    Tries (fun pair : String × Operand => pair.2.toNested) pairs
      (pairs.foldlM (fun written (key, given) => insert key given written) entries) := by
  induction pairs with
  | nil => exact fun entries => .success entries
  | cons pair rest ih =>
    intro entries
    obtain ⟨key, given⟩ := pair
    have hfirst : Tries (fun pair : String × Operand => pair.2.toNested) [(key, given)]
        (insert key given entries) := (Tries.single _ (key, given)).bind_pure
    rw [List.foldlM_cons]
    exact hfirst.bind fun written _ => ih written

/-- Where none fails, stopping at the first failure makes no difference. -/
theorem attemptAll_of_insertAll : ∀ {entries : Entries Expr},
    pairs.foldlM (fun written (key, given) => insert key given written) entries = .ok written →
      attemptAll entries pairs = written := by
  induction pairs with
  | nil => exact fun h => pure_eq_ok.1 h
  | cons pair rest ih =>
    intro entries h
    obtain ⟨key, given⟩ := pair
    rw [List.foldlM_cons] at h
    obtain ⟨middle, hmiddle, h⟩ := bind_eq_ok.1 h
    rw [attemptAll, List.foldl_cons, attempt_of_ok hmiddle]
    exact ih h

theorem attemptAll_of_ofEntries (h : Expr.ofEntries pairs = .ok (.object written)) :
    attemptAll [] pairs = written := by
  obtain ⟨entries, hentries, heq⟩ := bind_pure_eq_ok.1 h
  cases heq
  exact attemptAll_of_insertAll hentries

theorem Opened.eq_attemptAll {initial : List (String × Operand)} {start : Entries Expr}
    (h : Opened initial start) : start = attemptAll [] initial := by
  cases h with
  | empty => rfl
  | pairs made => exact (attemptAll_of_ofEntries made).symm
  | data made =>
    rw [← Expr.ofEntries_values] at made
    exact (attemptAll_of_ofEntries made).symm

/-- **An object is the map of all insertions that were accepted.** -/
theorem Opened.attemptAll_eq_ofPairs {initial : List (String × Operand)} {start : Entries Expr}
    (h : Opened initial start) (calls : List (String × Operand)) :
    attemptAll start calls = ofPairs (accepted (initial ++ calls)) := by
  have happend : attemptAll (attemptAll [] initial) calls = attemptAll [] (initial ++ calls) :=
    List.foldl_append.symm
  rw [h.eq_attemptAll, happend, attemptAll_eq_putAll]
  rfl

theorem length_ofPairs (history : List (String × Expr)) :
    (ofPairs history).length = (history.map Prod.fst).toFinset.card := by
  have hsame : (keys (ofPairs history)).toFinset = (history.map Prod.fst).toFinset := by
    rw [keys_ofPairs]
    ext key
    simp [firstKeys]
  rw [← hsame, List.toFinset_card_of_nodup (nodup_keys_ofPairs history), keys, List.length_map]

end Entries

open Entries

/-- **Objects are ordered finite maps over any run.** After any insertions, failing ones among them,
    an object holds each key that was ever accepted, in the order of first acceptance, with what was
    last accepted for it; its text shows these pairs in that order. A failing insertion changes
    nothing, and its error is that of the operand. Of pairs that make an object none may fail. -/
theorem Entries.run_refines_history {initial : List (String × Operand)} {start : Entries Expr}
    (h : Opened initial start) (calls : List (String × Operand)) :
    let final := attemptAll start calls
    let history := accepted (initial ++ calls)
    (keys final = firstKeys history ∧ (keys final).Nodup ∧
      (∀ key, get? key final = lastWritten key history) ∧
      final.length = (history.map Prod.fst).toFinset.card ∧
      (final.isEmpty = true ↔ final.length = 0) ∧
      (Expr.object final).chars = '\x7b' :: List.intercalate [',', ' '] ((ofHistory history).map
        fun (key, e) => keyChars key ++ ':' :: ' ' :: e.operandChars) ++ ['\x7d']) ∧
    (∀ key given entries why, insert key given entries = .error why ↔
      given.toNested = .error why) ∧
    (∀ key given entries why, insert key given entries = .error why →
      attempt entries (key, given) = entries) ∧
    ∀ pairs : List (String × Operand),
      ((∃ e, Expr.ofEntries pairs = .ok e) ↔
        ∀ pair ∈ pairs, ∀ entries, ∃ written, insert pair.1 pair.2 entries = .ok written) ∧
      ∀ why, Expr.ofEntries pairs = .error why →
        FirstRefused (fun pair : String × Operand => pair.2.toNested) pairs why := by
  intro final history
  have hfinal : final = ofPairs history := h.attemptAll_eq_ofPairs calls
  have hkeys : keys final = firstKeys history := by rw [hfinal, keys_ofPairs]
  refine ⟨⟨hkeys, ?_, ?_, ?_, ?_, ?_⟩, ?_, ?_, ?_⟩
  · rw [hfinal]
    exact nodup_keys_ofPairs history
  · intro key
    rw [hfinal, get?_ofPairs]
  · rw [hfinal, length_ofPairs]
  · rw [List.isEmpty_iff, List.length_eq_zero_iff]
  · show '\x7b' :: List.intercalate [',', ' '] (Expr.entryTexts final) ++ ['\x7d'] = _
    rw [Expr.entryTexts_eq_map, hfinal, ofPairs_eq_ofHistory]
  · intro key given entries why
    exact insert_eq_error
  · intro key given entries why hwhy
    exact attempt_of_error hwhy
  · intro pairs
    have htries : Tries (fun pair : String × Operand => pair.2.toNested) pairs
        (Expr.ofEntries pairs) := (tries_insertAll pairs []).bind_pure
    refine ⟨?_, fun why hwhy => htries.refused hwhy⟩
    rw [htries.accepted_iff]
    -- whether an insertion succeeds does not depend on what is there already
    refine forall₂_congr fun pair _ => ⟨?_, ?_⟩
    · rintro ⟨e, he⟩ entries
      exact ⟨_, insert_eq_ok.2 ⟨e, he, rfl⟩⟩
    · intro hinsert
      obtain ⟨written, hwritten⟩ := hinsert []
      obtain ⟨e, he, -⟩ := insert_eq_ok.1 hwritten
      exact ⟨e, he⟩

/-- New keys, a replacement and a failure, in an object that was made of two pairs. -/
theorem Entries.run_refines_history_mixed :
    let start : Entries Expr := [("a", .integer 1), ("b", .null)]
    let calls : List (String × Operand) := [("c", .value (.boolean true)),
      ("b", .value (.array [.string ""])), ("a", .value (.string "x"))]
    keys (attemptAll start calls) = ["a", "b", "c"] ∧
      get? "a" (attemptAll start calls) = some (.identifier "x") ∧
      get? "b" (attemptAll start calls) = some .null := by
  intro start calls
  have hstart : Opened [("a", .value (.integer 1)), ("b", .value .null)] start := .pairs rfl
  obtain ⟨⟨hkeys, -, hget, -⟩, -⟩ := run_refines_history hstart calls
  exact ⟨hkeys, hget "a", hget "b"⟩

end QueryTree
