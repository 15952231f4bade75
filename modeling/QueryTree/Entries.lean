/-!
# Keyed entries in order

Objects keep their keys in the order in which they were first written, and hold one value for
each. `Entries α` is such a map as the list of its pairs. `put` is the only way to write one: a
new key goes to the end, a key that is there keeps its place and takes the new value.
-/

set_option autoImplicit false

namespace QueryTree

/-- Pairs of key and value, in the order of the keys' first writing. -/
abbrev Entries (α : Type) := List (String × α)

namespace Entries

variable {α : Type}

def put (key : String) (value : α) : Entries α → Entries α
  | [] => [(key, value)]
  | (k, v) :: rest => if k = key then (k, value) :: rest else (k, v) :: put key value rest

def get? (key : String) : Entries α → Option α
  | [] => none
  | (k, v) :: rest => if k = key then some v else get? key rest

def keys (entries : Entries α) : List String := entries.map Prod.fst

/-- Writes pairs one after the other, so that of two with one key the later decides. -/
def putAll (entries : Entries α) (pairs : List (String × α)) : Entries α :=
  pairs.foldl (fun written (key, value) => put key value written) entries

/-- The map that a list of pairs writes. -/
def ofPairs (pairs : List (String × α)) : Entries α := putAll [] pairs

/-! ## What a write changes -/

theorem get?_put (key other : String) (value : α) (entries : Entries α) :
    get? other (put key value entries) =
      if key = other then some value else get? other entries := by
  induction entries with
  | nil => simp [put, get?]
  | cons pair rest ih =>
    obtain ⟨k, v⟩ := pair
    rw [put]
    by_cases h : k = key
    · subst h
      by_cases ho : k = other <;> simp [get?, ho]
    · by_cases hk : k = other
      · subst hk
        simp [get?, h, Ne.symm h]
      · simp [get?, h, hk, ih]

theorem keys_put (key : String) (value : α) (entries : Entries α) :
    keys (put key value entries) =
      if key ∈ keys entries then keys entries else keys entries ++ [key] := by
  induction entries with
  | nil => simp [put, keys]
  | cons pair rest ih =>
    obtain ⟨k, v⟩ := pair
    rw [put]
    by_cases h : k = key
    · simp [keys, h]
    · simp only [keys] at ih ⊢
      simp only [h, if_false, List.map_cons, ih, List.mem_cons, Ne.symm h, false_or]
      by_cases hr : key ∈ rest.map Prod.fst <;> simp [hr]

end Entries

end QueryTree
