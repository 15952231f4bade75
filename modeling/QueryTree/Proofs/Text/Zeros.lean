import Mathlib.Data.List.Forall2
import QueryTree.Proofs.Build.Validity
import QueryTree.Proofs.Number.Whole
import QueryTree.Proofs.Tree.Leaves
import QueryTree.Proofs.Tree.Same

/-!
# Texts of trees that are the same

Structural equality compares floats as numbers, and their texts show their bits. The two zeros are
one number with two texts, so two trees can be the same and be written differently. It is the only
way in which they can (`Expr.text_of_same`).

That different trees have different texts is shown place by place, while one text is read along
with the other. `Tells P s t` is what such a reading needs of two pieces: two texts that begin with
them can be one only if `P` holds of what the pieces stand for, and what follows them is one, too.
-/

set_option autoImplicit false

namespace QueryTree

/-! ## Pieces that tell -/

/-- Texts that begin with these two pieces can be one only if `P` holds, and then go on alike. -/
def Tells (P : Prop) (s t : List Char) : Prop := ∀ u v, s ++ u = t ++ v → P ∧ u = v

section Tells

variable {P Q : Prop} {s t s' t' : List Char}

theorem Tells.imp (h : Tells P s t) (hpq : P → Q) : Tells Q s t :=
  fun u v heq => (h u v heq).imp hpq id

theorem tells_same (s : List Char) : Tells True s s :=
  fun _ _ heq => ⟨trivial, List.append_cancel_left heq⟩

theorem Tells.append (h : Tells P s t) (h' : Tells Q s' t') :
    Tells (P ∧ Q) (s ++ s') (t ++ t') := by
  intro u v heq
  rw [List.append_assoc, List.append_assoc] at heq
  obtain ⟨hp, hrest⟩ := h _ _ heq
  obtain ⟨hq, huv⟩ := h' _ _ hrest
  exact ⟨⟨hp, hq⟩, huv⟩

theorem Tells.after (h : Tells P s t) (w : List Char) : Tells P (w ++ s) (w ++ t) :=
  ((tells_same w).append h).imp And.right

theorem Tells.upTo (h : Tells P s t) (w : List Char) : Tells P (s ++ w) (t ++ w) :=
  (h.append (tells_same w)).imp And.left

theorem Tells.of_eq (h : Tells P s t) (heq : s = t) : P := (h [] [] (by rw [heq])).1

theorem tells_commaSeparated {α : Type} {text : α → List Char} {xs ys : List α}
    (h : List.Forall₂ (fun x y => Tells (x = y) (text x) (text y)) xs ys) :
    Tells (xs = ys) (commaSeparated (xs.map text)) (commaSeparated (ys.map text)) := by
  induction h with
  | nil => exact (tells_same _).imp fun _ => rfl
  | @cons x y xs ys hxy hrest ih =>
    cases hrest with
    | nil =>
      simp only [List.map_cons, List.map_nil, commaSeparated, List.intercalate_singleton]
      exact hxy.imp fun heq => congrArg (fun z => [z]) heq
    | cons =>
      simp only [List.map_cons, commaSeparated, List.intercalate_cons_cons] at ih ⊢
      refine ((hxy.upTo _).append ih).imp fun ⟨heq, hrest⟩ => ?_
      rw [heq, hrest]

end Tells

/-! ## Trees up to the signs of zeros -/

/-- A zero without its sign; any other node as it is. -/
def Expr.unsigned : Expr → Expr
  | .number x => if x.rank = 0 then .number ⟨0⟩ else .number x
  | e => e

theorem Expr.kind_unsigned (e : Expr) (h : e.kind = .leaf) : e.unsigned.kind = .leaf := by
  cases e with
  | number x =>
    rw [unsigned]
    split <;> rfl
  | _ => exact h

/-- What the same trees have in common: they are one tree up to the signs of zeros, and as far as
    their texts agree they are one tree. -/
structure Alike {α : Type} (erase : α → α) (text : α → List Char) (a b : α) : Prop where
  erased : erase a = erase b
  texts : Tells (a = b) (text a) (text b)

theorem Alike.rfl {α : Type} {erase : α → α} {text : α → List Char} {a : α} :
    Alike erase text a a :=
  ⟨Eq.refl _, (tells_same _).imp fun _ => Eq.refl _⟩

abbrev Expr.IsAlike (e f : Expr) : Prop := Alike (mapLeaves unsigned) chars e f

theorem Expr.IsAlike.operandTexts {e f : Expr} (h : e.IsAlike f) :
    Tells (e = f) e.operandChars f.operandChars := by
  have hkind : e.kind = f.kind := by
    rw [← kind_mapLeaves kind_unsigned e, h.erased, kind_mapLeaves kind_unsigned f]
  rw [operandChars, operandChars, hkind, bracketed, bracketed]
  split
  · exact (h.texts.after ['(']).upTo [')']
  · exact h.texts

/-- Zeros of different signs part at once: one text begins with a digit, the other with a minus. -/
theorem Expr.alike_number {x y : Binary64} (h : x.sameNumber y = true) :
    (number x).IsAlike (number y) := by
  rcases Binary64.eq_or_rank_eq_zero h with rfl | ⟨hx, hy, hsign⟩
  · exact .rfl
  have herased (z : Binary64) (hz : z.rank = 0) :
      (number z).mapLeaves unsigned = .number ⟨0⟩ := if_pos hz
  have htext (z : Binary64) (hz : z.rank = 0) :
      z.chars .query = if z.isNegative then "-0".toList else "0".toList := by
    have hfinite : z.isFinite = true := by
      rw [Binary64.isFinite, hz]
      decide
    have hmagnitude : z.magnitudeChars = ['0'] := by
      rw [Binary64.magnitudeChars, Binary64.shortest, if_pos hz]
      rfl
    rw [Binary64.chars_query' hfinite, hmagnitude]
    rfl
  refine ⟨(herased x hx).trans (herased y hy).symm, fun u v heq => ?_⟩
  simp only [chars, htext x hx, htext y hy] at heq
  revert hsign heq
  cases x.isNegative <;> cases y.isNegative <;> simp

/-- A node that is alike to all that are the same as it. -/
def Expr.SameIsAlike (e : Expr) : Prop := ∀ f, e.same f = true → e.IsAlike f

/-! ## Lists and objects -/

theorem Expr.forall₂_of_sameItems {es fs : List Expr} (h : ∀ e ∈ es, e.SameIsAlike)
    (hsame : sameItems es fs = true) : List.Forall₂ Expr.IsAlike es fs := by
  induction es generalizing fs with
  | nil =>
    cases fs with
    | nil => exact .nil
    | cons f fs => cases hsame
  | cons e es ih =>
    cases fs with
    | nil => cases hsame
    | cons f fs =>
      obtain ⟨hhead, htail⟩ := Bool.and_eq_true_iff.1 hsame
      exact .cons (h e List.mem_cons_self f hhead) (ih (fun s hs => h s (.tail _ hs)) htail)

theorem Expr.forall₂_of_sameEntries {es fs : List (String × Expr)}
    (h : ∀ e ∈ es.map Prod.snd, e.SameIsAlike) (hsame : sameEntries es fs = true) :
    List.Forall₂ (fun p q => p.1 = q.1 ∧ p.2.IsAlike q.2) es fs := by
  induction es generalizing fs with
  | nil =>
    cases fs with
    | nil => exact .nil
    | cons f fs => cases hsame
  | cons p es ih =>
    cases fs with
    | nil => cases hsame
    | cons q fs =>
      obtain ⟨hhead, htail⟩ := Bool.and_eq_true_iff.1 hsame
      obtain ⟨hkey, hvalue⟩ := Bool.and_eq_true_iff.1 hhead
      exact .cons ⟨beq_iff_eq.1 hkey, h p.2 List.mem_cons_self q.2 hvalue⟩
        (ih (fun s hs => h s (.tail _ hs)) htail)

theorem Expr.alike_items {es fs : List Expr} (h : List.Forall₂ Expr.IsAlike es fs) :
    Alike (mapItems unsigned) (fun es => commaSeparated (operandTexts es)) es fs := by
  constructor
  · rw [mapItems_eq_map, mapItems_eq_map, ← List.forall₂_eq_eq_eq, List.forall₂_map_left_iff,
      List.forall₂_map_right_iff]
    exact h.imp fun _ _ => Alike.erased
  · simp only [operandTexts_eq_map]
    exact tells_commaSeparated (h.imp fun _ _ => IsAlike.operandTexts)

theorem Expr.alike_entries {es fs : List (String × Expr)}
    (h : List.Forall₂ (fun p q => p.1 = q.1 ∧ p.2.IsAlike q.2) es fs) :
    Alike (mapEntries unsigned) (fun es => commaSeparated (entryTexts es)) es fs := by
  constructor
  · rw [mapEntries_eq_map, mapEntries_eq_map, ← List.forall₂_eq_eq_eq, List.forall₂_map_left_iff,
      List.forall₂_map_right_iff]
    exact h.imp fun _ _ ⟨hkey, hvalue⟩ => Prod.ext hkey hvalue.erased
  · simp only [entryTexts_eq_map]
    refine tells_commaSeparated (h.imp fun p q ⟨hkey, hvalue⟩ => ?_)
    rw [hkey]
    have hafter := hvalue.operandTexts.after [':', ' ']
    exact (hafter.after (keyChars q.1)).imp (Prod.ext hkey)

/-! ## Clauses -/

namespace Clause

theorem alike_options {o p : Option (List (String × Expr))}
    (h : ∀ s ∈ optionNodes o, s.SameIsAlike) (hsame : sameOptions o p = true) :
    Alike (mapOptions Expr.unsigned) optionsChars o p := by
  cases o with
  | none =>
    cases p with
    | none => exact .rfl
    | some fs => cases hsame
  | some es =>
    cases p with
    | none => cases hsame
    | some fs =>
      have hobject : (Expr.object es).IsAlike (.object fs) := h _ (by simp [optionNodes]) _ hsame
      constructor
      · exact congrArg some (Expr.object.inj hobject.erased)
      · exact (hobject.texts.after " OPTIONS ".toList).imp fun heq =>
          congrArg some (Expr.object.inj heq)

theorem alike_change {a b : Option Expr} (h : ∀ s ∈ a.toList, s.SameIsAlike)
    (hsame : sameChange a b = true) : Alike (mapChange Expr.unsigned) changeChars a b := by
  cases a with
  | none =>
    cases b with
    | none => exact .rfl
    | some f => cases hsame
  | some e =>
    cases b with
    | none => cases hsame
    | some f =>
      have he : e.IsAlike f := h e (by simp) f hsame
      constructor
      · exact congrArg some he.erased
      · exact (he.operandTexts.after " WITH ".toList).imp (congrArg some)

theorem alike_of_same {c d : Clause} (h : ∀ s ∈ c.parts, s.SameIsAlike)
    (hsame : c.same d = true) : Alike (mapLeaves Expr.unsigned) chars c d := by
  cases c with
  | forIn s e =>
    cases d <;> simp only [Clause.same, Bool.and_eq_true, beq_iff_eq, Bool.false_eq_true] at hsame
    obtain ⟨rfl, hsame⟩ := hsame
    have he := h e (by simp [parts]) _ hsame
    exact ⟨congrArg (forIn s) he.erased, (he.operandTexts.after _).imp (congrArg (forIn s))⟩
  | filter e =>
    cases d <;> simp only [Clause.same, Bool.false_eq_true] at hsame
    have he := h e (by simp [parts]) _ hsame
    exact ⟨congrArg filter he.erased, (he.operandTexts.after _).imp (congrArg filter)⟩
  | bind s e =>
    cases d <;> simp only [Clause.same, Bool.and_eq_true, beq_iff_eq, Bool.false_eq_true] at hsame
    obtain ⟨rfl, hsame⟩ := hsame
    have he := h e (by simp [parts]) _ hsame
    exact ⟨congrArg (bind s) he.erased, (he.operandTexts.after _).imp (congrArg (bind s))⟩
  | ret distinct e =>
    cases d <;> simp only [Clause.same, Bool.and_eq_true, beq_iff_eq, Bool.false_eq_true] at hsame
    obtain ⟨rfl, hsame⟩ := hsame
    have he := h e (by simp [parts]) _ hsame
    exact ⟨congrArg (ret distinct) he.erased,
      (he.operandTexts.after _).imp (congrArg (ret distinct))⟩
  | remove e s o =>
    cases d <;> simp only [Clause.same, Bool.and_eq_true, beq_iff_eq, Bool.false_eq_true] at hsame
    obtain ⟨⟨htarget, rfl⟩, hoptions⟩ := hsame
    have he := h e (by simp [parts]) _ htarget
    have ho := alike_options (fun s hs => h s (.tail _ hs)) hoptions
    refine ⟨congrArg₂ (remove · s) he.erased ho.erased, ?_⟩
    exact ((((he.operandTexts.after _).upTo _).upTo _).append ho.texts).imp
      fun heq => congrArg₂ (remove · s) heq.1 heq.2
  | insert e s o =>
    cases d <;> simp only [Clause.same, Bool.and_eq_true, beq_iff_eq, Bool.false_eq_true] at hsame
    obtain ⟨⟨hdocument, rfl⟩, hoptions⟩ := hsame
    have he := h e (by simp [parts]) _ hdocument
    have ho := alike_options (fun s hs => h s (.tail _ hs)) hoptions
    refine ⟨congrArg₂ (insert · s) he.erased ho.erased, ?_⟩
    exact ((((he.operandTexts.after _).upTo _).upTo _).append ho.texts).imp
      fun heq => congrArg₂ (insert · s) heq.1 heq.2
  | modify verb e a s o =>
    cases d <;> simp only [Clause.same, Bool.and_eq_true, beq_iff_eq, Bool.false_eq_true] at hsame
    obtain ⟨⟨⟨⟨rfl, htarget⟩, hchange⟩, rfl⟩, hoptions⟩ := hsame
    have he := h e (by simp [parts]) _ htarget
    have ha := alike_change (fun s hs => h s (List.mem_append_left _ (.tail _ hs))) hchange
    have ho := alike_options (fun s hs => h s (List.mem_append_right _ hs)) hoptions
    constructor
    · show modify verb (e.mapLeaves _) (mapChange _ a) s (mapOptions _ o) = _
      rw [he.erased, ha.erased, ho.erased]
      rfl
    · have hbefore := ((he.operandTexts.after [' ']).after verb.text.toList).append ha.texts
      refine (((hbefore.upTo _).upTo _).append ho.texts).imp ?_
      rintro ⟨⟨rfl, rfl⟩, rfl⟩
      rfl

end Clause

/-! ## Trees -/

namespace Expr

/-- **Trees that are the same are alike**: they differ in the signs of zeros at most, and their
    texts show such a difference. -/
theorem sameIsAlike (e : Expr) : e.SameIsAlike := by
  induction e using within_induction with | step e ih => ?_
  have part : ∀ s ∈ e.parts, s.SameIsAlike := fun s hs => ih s (.single hs)
  intro f hsame
  cases e with
  | number x =>
    cases f <;> simp only [same, Bool.false_eq_true] at hsame
    exact alike_number hsame
  | object es =>
    cases f <;> simp only [same, Bool.false_eq_true] at hsame
    have hentries := alike_entries (forall₂_of_sameEntries part hsame)
    refine ⟨congrArg object hentries.erased, ?_⟩
    exact ((hentries.texts.after ['\x7b']).upTo ['\x7d']).imp (congrArg object)
  | list es =>
    cases f <;> simp only [same, Bool.false_eq_true] at hsame
    have hitems := alike_items (forall₂_of_sameItems part hsame)
    refine ⟨congrArg list hitems.erased, ?_⟩
    exact ((hitems.texts.after ['[']).upTo [']']).imp (congrArg list)
  | call function es =>
    cases f <;> simp only [same, Bool.and_eq_true, beq_iff_eq, Bool.false_eq_true] at hsame
    obtain ⟨rfl, hsame⟩ := hsame
    have hitems := alike_items (forall₂_of_sameItems part hsame)
    refine ⟨congrArg (call function) hitems.erased, ?_⟩
    have htexts := (hitems.texts.after ['(']).after function.toList
    exact (htexts.upTo [')']).imp (congrArg (call function))
  | unary op e =>
    cases f <;> simp only [same, Bool.and_eq_true, beq_iff_eq, Bool.false_eq_true] at hsame
    obtain ⟨rfl, hsame⟩ := hsame
    have he := part e (by simp [parts, predecessors, operands]) _ hsame
    exact ⟨congrArg (unary op) he.erased, (he.operandTexts.after _).imp (congrArg (unary op))⟩
  | binary op l r =>
    cases f <;> simp only [same, Bool.and_eq_true, beq_iff_eq, Bool.false_eq_true] at hsame
    obtain ⟨⟨rfl, hl⟩, hr⟩ := hsame
    have hl := part l (by simp [parts, predecessors, operands]) _ hl
    have hr := part r (by simp [parts, predecessors, operands]) _ hr
    refine ⟨congrArg₂ (binary op) hl.erased hr.erased, ?_⟩
    have hleft := hl.operandTexts.upTo (' ' :: op.text.toList)
    exact (hleft.append (hr.operandTexts.after [' '])).imp
      fun heq => congrArg₂ (binary op) heq.1 heq.2
  | conditional c y n =>
    cases f <;> simp only [same, Bool.and_eq_true, Bool.false_eq_true] at hsame
    obtain ⟨⟨hc, hy⟩, hn⟩ := hsame
    have hc := part c (by simp [parts, predecessors, operands]) _ hc
    have hy := part y (by simp [parts, predecessors, operands]) _ hy
    have hn := part n (by simp [parts, predecessors, operands]) _ hn
    constructor
    · show conditional (c.mapLeaves _) (y.mapLeaves _) (n.mapLeaves _) = _
      rw [hc.erased, hy.erased, hn.erased]
      rfl
    · have hchoice := (hc.operandTexts.upTo " ? ".toList).append hy.operandTexts
      refine ((hchoice.upTo " : ".toList).append hn.operandTexts).imp ?_
      rintro ⟨⟨rfl, rfl⟩, rfl⟩
      rfl
  | query q =>
    cases f <;> simp only [same, Bool.false_eq_true] at hsame
    next r =>
    cases q with
    | start c =>
      cases r <;> simp only [Query.same, Bool.false_eq_true] at hsame
      have hclause : Alike (Clause.mapLeaves unsigned) Clause.chars c _ :=
        Clause.alike_of_same part hsame
      exact ⟨congrArg (fun d => query (.start d)) hclause.erased,
        hclause.texts.imp (congrArg fun d => query (.start d))⟩
    | andThen q c =>
      cases r <;> simp only [Query.same, Bool.and_eq_true, Bool.false_eq_true] at hsame
      next r d =>
      have hbefore : (query q).IsAlike (.query r) :=
        part (.query q) (by simp [parts, predecessors]) _ hsame.1
      have hclause : Alike (Clause.mapLeaves unsigned) Clause.chars c d :=
        Clause.alike_of_same (fun s hs => part s (List.mem_append_right _ hs)) hsame.2
      constructor
      · show query (.andThen (q.mapLeaves _) (c.mapLeaves _)) = _
        rw [query.inj hbefore.erased, hclause.erased]
        rfl
      · refine (hbefore.texts.append (hclause.texts.after [' '])).imp ?_
        rintro ⟨hbefore, rfl⟩
        rw [query.inj hbefore]
  | _ =>
    have heq := hsame
    cases f <;> simp only [same, beq_iff_eq, Bool.false_eq_true] at heq
    all_goals
      try subst heq
      exact .rfl

/-- **Trees that are the same are written alike, up to the signs of zeros.** They are one tree when
    the signs of zeros are left out, and they have one text only if they are one tree with them. A
    tree for which no caller has spelled out a zero as a number has the text of all that are the
    same as it, for casts make no zeros but integers. -/
theorem text_of_same {a b : Expr} (h : a.same b = true) :
    a.mapLeaves unsigned = b.mapLeaves unsigned ∧ (a.text = b.text ↔ a = b) ∧
      ∀ allowed : Call → Prop, (∀ x, allowed (.number x) → x.rank ≠ 0) → Built allowed a →
        a.text = b.text := by
  have halike := a.sameIsAlike b h
  refine ⟨halike.erased, ⟨fun htext => ?_, congrArg text⟩, fun allowed hzero hbuilt => ?_⟩
  · exact halike.texts.of_eq (String.ofList_inj.1 htext)
  · have hexact : a.Everywhere IsExact := by
      refine hbuilt.everywhere fun s hs => ?_
      cases hs with
      | number sort finite => exact Binary64.isExact_of_rank_ne_zero finite (hzero _ sort)
      | castNumber cast =>
        have hproper : Binary64.IsProper _ := cast
        exact Binary64.isExact_of_rank_ne_zero hproper.isFinite hproper.rank_ne_zero
      | _ => trivial
    exact congrArg text ((same_iff_eq hexact b).1 h)

/-- The two zeros, deep in a query, and a number that is spelled out and not zero. -/
theorem text_of_same_returned :
    (query (.start (.ret false (.list [.number ⟨0⟩])))).text ≠
      (query (.start (.ret false (.list [.number ⟨0x8000000000000000⟩])))).text ∧
    (number ⟨0x3ff8000000000000⟩).text = (number ⟨0x3ff8000000000000⟩).text := by
  constructor
  · rw [Ne, (text_of_same (by decide)).2.1]
    simp
  · have hbuilt : Built (· = .number ⟨0x3ff8000000000000⟩) (number ⟨0x3ff8000000000000⟩) :=
      Built.of_answer (c := .number ⟨0x3ff8000000000000⟩) rfl rfl rfl
    refine (text_of_same (by decide)).2.2 _ (fun x hx => ?_) hbuilt
    cases hx
    decide

/-- Zero and minus zero are the same and are written differently. -/
theorem same_zeros_text : ¬ ∀ a b : Expr, Built anyCall a → Built anyCall b →
    a.same b = true → a.text = b.text := by
  intro h
  have hbuilt (x : Binary64) (hx : x.isFinite = true) : Built anyCall (number x) :=
    Built.of_answer (c := .number x) trivial rfl (congrArg some (if_pos hx))
  have htext := h (number ⟨0⟩) (number ⟨0x8000000000000000⟩) (hbuilt _ (by decide))
    (hbuilt _ (by decide)) (by decide)
  revert htext
  decide

end Expr

end QueryTree
