import Mathlib.Data.List.Basic
import Mathlib.Data.List.Induction
import QueryTree.Proofs.Build.Fresh

/-!
# What a history of writes leaves behind

Entries are written one after the other, and what is there in the end can be read off the list of
all writes: the keys are those that were ever written, in the order of their first writing, and each
holds what was last written to it. `Entries.ofHistory` is the map that this rule describes.

Writing gives that map (`Entries.ofPairs_eq_ofHistory`). The induction is on the history from its
end, because what one more write changes is known (`Entries.keys_put`, `Entries.get?_put`).
-/

set_option autoImplicit false

namespace QueryTree.Entries

variable {α : Type} {key : String} {value : α} {entries : Entries α}
  {history : List (String × α)}

/-- The keys ever written, in the order of their first writing. -/
def firstKeys (history : List (String × α)) : List String := (history.map Prod.fst).eraseDups

/-- What was written to a key by the last write to it. -/
def lastWritten (key : String) (history : List (String × α)) : Option α :=
  ((history.filter fun pair => pair.1 = key).getLast?).map Prod.snd

/-- The map of a history: each key once, in the order of first writing, with its last value. -/
def ofHistory (history : List (String × α)) : Entries α :=
  (firstKeys history).filterMap fun key => (lastWritten key history).map (key, ·)

/-! ## One more write -/

theorem firstKeys_append_singleton (history : List (String × α)) (pair : String × α) :
    firstKeys (history ++ [pair]) =
      if pair.1 ∈ firstKeys history then firstKeys history
      else firstKeys history ++ [pair.1] := by
  unfold firstKeys
  rw [List.map_append, List.eraseDups_append]
  by_cases h : pair.1 ∈ history.map Prod.fst
  · simp [List.removeAll, h]
  · simp [List.removeAll, h, List.eraseDups_cons]

theorem lastWritten_append_singleton (key : String) (history : List (String × α))
    (pair : String × α) :
    lastWritten key (history ++ [pair]) =
      if pair.1 = key then some pair.2 else lastWritten key history := by
  unfold lastWritten
  by_cases h : pair.1 = key
  · simp [h]
  · simp [h]

theorem ofPairs_append_singleton (history : List (String × α)) (pair : String × α) :
    ofPairs (history ++ [pair]) = put pair.1 pair.2 (ofPairs history) := by
  simp [ofPairs, putAll]

/-! ## All writes -/

theorem keys_ofPairs (history : List (String × α)) :
    keys (ofPairs history) = firstKeys history := by
  induction history using List.reverseRecOn with
  | nil => rfl
  | append_singleton history pair ih =>
    rw [ofPairs_append_singleton, keys_put, ih, firstKeys_append_singleton]

theorem get?_ofPairs (key : String) (history : List (String × α)) :
    get? key (ofPairs history) = lastWritten key history := by
  induction history using List.reverseRecOn with
  | nil => rfl
  | append_singleton history pair ih =>
    rw [ofPairs_append_singleton, get?_put, ih, lastWritten_append_singleton]

theorem nodup_keys_ofPairs (history : List (String × α)) : (keys (ofPairs history)).Nodup := by
  induction history using List.reverseRecOn with
  | nil => exact List.nodup_nil
  | append_singleton history pair ih =>
    rw [ofPairs_append_singleton]
    exact nodup_keys_put ih

/-- A map is known from its keys and what they hold. -/
theorem eq_filterMap_keys (h : (keys entries).Nodup) :
    entries = (keys entries).filterMap fun key => (get? key entries).map (key, ·) := by
  induction entries with
  | nil => rfl
  | cons pair rest ih =>
    obtain ⟨key, value⟩ := pair
    obtain ⟨hkey, hrest⟩ := List.nodup_cons.1 h
    -- looking for a key of the rest, one passes the first entry by
    have hsame : (keys rest).filterMap (fun k => (get? k ((key, value) :: rest)).map (k, ·)) =
        (keys rest).filterMap fun k => (get? k rest).map (k, ·) := by
      refine List.filterMap_congr fun k hk => ?_
      have hne : key ≠ k := fun heq => hkey (heq ▸ hk)
      rw [get?, if_neg hne]
    have hfirst : get? key ((key, value) :: rest) = some value := by rw [get?, if_pos rfl]
    show (key, value) :: rest = (key :: keys rest).filterMap _
    rw [List.filterMap_cons, hfirst, Option.map_some, hsame, ← ih hrest]

/-- **Writing leaves behind the map of its history.** -/
theorem ofPairs_eq_ofHistory (history : List (String × α)) :
    ofPairs history = ofHistory history := by
  rw [eq_filterMap_keys (nodup_keys_ofPairs history), keys_ofPairs]
  exact List.filterMap_congr fun key _ => by rw [get?_ofPairs]

/-! ## Histories without a second write -/

theorem put_of_notMem (h : key ∉ keys entries) :
    put key value entries = entries ++ [(key, value)] := by
  induction entries with
  | nil => rfl
  | cons pair rest ih =>
    obtain ⟨k, v⟩ := pair
    obtain ⟨hk, hrest⟩ := List.ne_and_not_mem_of_not_mem_cons h
    rw [put, if_neg (Ne.symm hk), ih hrest, List.cons_append]

/-- Pairs with distinct keys are their own map. -/
theorem ofPairs_of_nodup (h : (history.map Prod.fst).Nodup) : ofPairs history = history := by
  induction history using List.reverseRecOn with
  | nil => rfl
  | append_singleton history pair ih =>
    rw [List.map_append, List.nodup_append] at h
    obtain ⟨hbefore, -, hdisjoint⟩ := h
    have hkey : pair.1 ∉ keys history := fun hmem => hdisjoint _ hmem pair.1 (by simp) rfl
    rw [ofPairs_append_singleton, ih hbefore, put_of_notMem hkey]

end QueryTree.Entries
