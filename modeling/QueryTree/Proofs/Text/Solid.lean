import QueryTree.Proofs.Text.Closed

/-!
# Solid texts come apart in one way

A solid text cannot be continued by a separator or by a closing bracket and still be solid. So where
a solid text stands before such a character, or at the end, the whole tells where it ends: read on
for as long as what has been read can be part of a solid text (`cutSolid`). Two such texts are one
only if the solid texts in them are one (`IsSolid.append_inj`). Sequences of solid texts with
separators between them then come apart in one way as well (`intercalate_map_inj`, `words_inj`).
-/

set_option autoImplicit false

namespace QueryTree

open Reader

/-- A text that closes its brackets, with no separator outside of them. -/
def IsSolid (text : List Char) : Prop :=
  (Reader.outside []).run true text = some (Reader.outside [])

/-- A solid text cannot go on with this character. -/
def IsStop (c : Char) : Prop := (Reader.outside []).next? true c = none

instance (c : Char) : Decidable (IsStop c) := by unfold IsStop; infer_instance

instance (text : List Char) : Decidable (IsSolid text) := by unfold IsSolid; infer_instance

/-- The end of a text, or something with which no solid text goes on. -/
def Stops (rest : List Char) : Prop := ∀ c ∈ rest.head?, IsStop c

theorem Stops.nil : Stops [] := by simp [Stops]

theorem Stops.cons {c : Char} (h : IsStop c) (rest : List Char) : Stops (c :: rest) := by
  intro d hd
  rw [List.head?_cons, Option.mem_some_iff] at hd
  exact hd ▸ h

theorem Closed.isSolid {contents : List (List Char)} {s t : List Char}
    (h : Closed true contents s t) : IsSolid s :=
  h.run fun _ => Or.inl rfl

/-! ## Where a solid text ends -/

namespace Reader

/-- What a reader of solid texts takes from a text, and what it leaves. -/
def cut (r : Reader) : List Char → List Char × List Char
  | [] => ([], [])
  | c :: rest =>
    match r.next? true c with
    | some r' => (c :: (r'.cut rest).1, (r'.cut rest).2)
    | none => ([], c :: rest)

theorem cut_append {r r' : Reader} {text : List Char} (h : r.run true text = some r')
    (rest : List Char) : r.cut (text ++ rest) = (text ++ (r'.cut rest).1, (r'.cut rest).2) := by
  induction text generalizing r with
  | nil =>
    cases h
    rfl
  | cons c text ih =>
    rw [run, List.foldlM_cons] at h
    obtain ⟨r'', hnext, hrun⟩ := Option.bind_eq_some_iff.1 h
    rw [List.cons_append, cut, hnext]
    simp only [ih hrun, List.cons_append]

theorem cut_of_stops {rest : List Char} (h : Stops rest) :
    (Reader.outside []).cut rest = ([], rest) := by
  cases rest with
  | nil => rfl
  | cons c rest =>
    have hstop : (Reader.outside []).next? true c = none := h c rfl
    rw [cut, hstop]

end Reader

/-- A text that begins with a solid one, cut where the solid one ends. -/
def cutSolid (text : List Char) : List Char × List Char := (Reader.outside []).cut text

namespace IsSolid

variable {s t r r' : List Char}

theorem append (hs : IsSolid s) (ht : IsSolid t) : IsSolid (s ++ t) := by
  unfold IsSolid
  rw [run_append, hs]
  exact ht

/-- A solid text that stands in front is cut off where it ends. -/
theorem cutSolid_append (hs : IsSolid s) (hr : Stops r) : cutSolid (s ++ r) = (s, r) := by
  rw [cutSolid, cut_append hs, cut_of_stops hr, List.append_nil]

/-- **A solid text ends where it stops.** -/
theorem append_inj (hs : IsSolid s) (ht : IsSolid t) (hr : Stops r) (hr' : Stops r')
    (h : s ++ r = t ++ r') : s = t ∧ r = r' := by
  have hcut : cutSolid (s ++ r) = (s, r) := hs.cutSolid_append hr
  rw [h, ht.cutSolid_append hr'] at hcut
  obtain ⟨rfl, rfl⟩ := Prod.mk.inj hcut
  exact ⟨rfl, rfl⟩

end IsSolid

/-! ## Sequences -/

section Sequences

variable {α : Type} {f : α → List Char} {c : Char} {sep : List Char} {xs ys : List α}

/-- All texts of a sequence but the first stand behind a separator. -/
theorem intercalate_cons_eq_flatMap (s : List Char) (texts : List (List Char)) :
    List.intercalate sep (s :: texts) = s ++ texts.flatMap (sep ++ ·) := by
  induction texts generalizing s with
  | nil => simp
  | cons t texts ih =>
    rw [List.intercalate_cons_cons, ih, List.flatMap_cons, List.append_assoc, List.append_assoc]

theorem stops_flatMap (hstop : IsStop c) (texts : List (List Char)) :
    Stops (texts.flatMap (c :: sep ++ ·)) := by
  cases texts with
  | nil => exact .nil
  | cons t texts => exact .cons hstop _

/-- Texts, each behind a separator, come apart in one way, when the text of each item does. -/
theorem flatMap_map_inj (hstop : IsStop c)
    (hinj : ∀ x ∈ xs, ∀ y ∈ ys, ∀ r r', Stops r → Stops r' → f x ++ r = f y ++ r' →
      x = y ∧ r = r')
    (h : (xs.map f).flatMap (c :: sep ++ ·) = (ys.map f).flatMap (c :: sep ++ ·)) : xs = ys := by
  induction xs generalizing ys with
  | nil =>
    cases ys with
    | nil => rfl
    | cons y ys => cases h
  | cons x xs ih =>
    cases ys with
    | nil => cases h
    | cons y ys =>
      simp only [List.map_cons, List.flatMap_cons, List.append_assoc] at h
      have htexts := List.append_cancel_left h
      obtain ⟨rfl, hrest⟩ := hinj x (by simp) y (by simp) _ _ (stops_flatMap hstop _)
        (stops_flatMap hstop _) htexts
      have htail := ih (fun z hz w hw => hinj z (by simp [hz]) w (by simp [hw])) hrest
      rw [htail]

/-- Texts with separators between them come apart in one way, when the text of each item does. It is
    enough that the items at hand are told apart from the items of the other sequence. -/
theorem intercalate_map_inj (hstop : IsStop c)
    (hinj : ∀ x ∈ xs, ∀ y ∈ ys, ∀ r r', Stops r → Stops r' → f x ++ r = f y ++ r' →
      x = y ∧ r = r')
    (hxs : ∀ x ∈ xs, f x ≠ []) (hys : ∀ y ∈ ys, f y ≠ [])
    (h : List.intercalate (c :: sep) (xs.map f) = List.intercalate (c :: sep) (ys.map f)) :
    xs = ys := by
  cases xs with
  | nil =>
    cases ys with
    | nil => rfl
    | cons y ys =>
      rw [List.map_cons, intercalate_cons_eq_flatMap] at h
      exact absurd (List.append_eq_nil_iff.1 h.symm).1 (hys y (by simp))
  | cons x xs =>
    cases ys with
    | nil =>
      rw [List.map_cons, intercalate_cons_eq_flatMap] at h
      exact absurd (List.append_eq_nil_iff.1 h).1 (hxs x (by simp))
    | cons y ys =>
      rw [List.map_cons, List.map_cons, intercalate_cons_eq_flatMap,
        intercalate_cons_eq_flatMap] at h
      obtain ⟨rfl, hrest⟩ := hinj x (by simp) y (by simp) _ _ (stops_flatMap hstop _)
        (stops_flatMap hstop _) h
      have htail := flatMap_map_inj hstop
        (fun z hz w hw => hinj z (by simp [hz]) w (by simp [hw])) hrest
      rw [htail]

end Sequences

/-- A text that may stand between blanks. -/
structure IsWordText (text : List Char) : Prop where
  solid : IsSolid text
  nonempty : text ≠ []

instance (text : List Char) : Decidable (IsWordText text) :=
  decidable_of_iff (IsSolid text ∧ text ≠ []) ⟨fun h => ⟨h.1, h.2⟩, fun h => ⟨h.1, h.2⟩⟩

/-- **A text is its words.** -/
theorem words_inj {ws vs : List (List Char)} (hws : ∀ w ∈ ws, IsWordText w)
    (hvs : ∀ v ∈ vs, IsWordText v)
    (h : List.intercalate [' '] ws = List.intercalate [' '] vs) : ws = vs := by
  have hstop : IsStop ' ' := by decide
  refine intercalate_map_inj (f := id) hstop (fun w hw v hv r r' hr hr' heq => ?_)
    (fun w hw => (hws w hw).nonempty) (fun v hv => (hvs v hv).nonempty)
    (by rw [List.map_id, List.map_id]; exact h)
  exact (hws w hw).solid.append_inj (hvs v hv).solid hr hr' heq

/-- Words after words. -/
theorem intercalate_append {ws vs : List (List Char)} (hws : ws ≠ []) (hvs : vs ≠ []) :
    List.intercalate [' '] (ws ++ vs) =
      List.intercalate [' '] ws ++ ' ' :: List.intercalate [' '] vs := by
  induction ws with
  | nil => exact absurd rfl hws
  | cons w ws ih =>
    cases ws with
    | nil =>
      obtain ⟨v, vs, rfl⟩ := List.exists_cons_of_ne_nil hvs
      simp [List.intercalate_cons_cons]
    | cons w' ws =>
      rw [List.cons_append, List.cons_append, List.intercalate_cons_cons, ← List.cons_append,
        ih (by simp), List.intercalate_cons_cons]
      simp

end QueryTree
