import QueryTree.Proofs.Name.Reading
import QueryTree.Proofs.Text.Unambiguous
import QueryTree.Proofs.Tree.Same

/-!
# Plain queries are told apart by their texts

A query whose leaves all come from plain data, and in which no options wrapper stands as an operand,
is known from its text (`Query.text_eq_iff`). There is one exception, and it is meant: a variable
with a reserved name is written in backticks, as a path that begins with a name in backticks is. So
the two leaves are one name in two spellings, and `Expr.canonical` takes the second for the first.

What makes this work is proved elsewhere. Here the canonical tree is shown to be a normal one, with
the text of the tree that it comes from.
-/

set_option autoImplicit false

namespace QueryTree

/-! ## Canonical trees -/

/-- The one spelling of a leaf: a variable with a reserved name is a path in backticks. -/
def Expr.canonicalLeaf : Expr → Expr
  | .identifier name =>
    if isReserved name then .reference (String.ofList (backticked name.toList))
    else .identifier name
  | leaf => leaf

def Expr.canonical (e : Expr) : Expr := e.mapLeaves Expr.canonicalLeaf

namespace Expr

theorem canonicalLeaf_text (e : Expr) (h : e.kind = .leaf) :
    e.canonicalLeaf.kind = .leaf ∧ e.canonicalLeaf.chars = e.chars := by
  cases e with
  | identifier name =>
    have htext : (identifier name).chars = variableChars name := rfl
    by_cases hreserved : isReserved name = true
    · rw [htext, variableChars, if_pos hreserved, canonicalLeaf, if_pos hreserved]
      exact ⟨rfl, String.toList_ofList⟩
    · rw [canonicalLeaf, if_neg hreserved]
      exact ⟨rfl, rfl⟩
  | _ => exact ⟨h, rfl⟩

theorem parts_canonicalLeaf (e : Expr) (h : e.parts = []) : e.canonicalLeaf.parts = [] := by
  cases e with
  | identifier name =>
    rw [canonicalLeaf]
    split <;> rfl
  | _ => exact h

theorem chars_canonical (e : Expr) : e.canonical.chars = e.chars :=
  chars_mapLeaves canonicalLeaf_text e

theorem kind_canonical (e : Expr) : e.canonical.kind = e.kind :=
  kind_mapLeaves (fun e he => (canonicalLeaf_text e he).1) e

end Expr

/-! ## Plain nodes -/

/-- No options wrapper stands in the place of an operand. -/
def Expr.NoWrapper (e : Expr) : Prop := ∀ t ∈ e.operands, t.kind ≠ .optionsWrapper

theorem Clause.ValidNames.mapLeaves {c : Clause} (h : c.ValidNames) (f : Expr → Expr) :
    (c.mapLeaves f).ValidNames := by
  cases c <;> exact h

theorem Query.last_mapLeaves (q : Query) (f : Expr → Expr) :
    (q.mapLeaves f).last = q.last.mapLeaves f := by
  cases q <;> rfl

/-- **The canonical form of a plain node is normal.** -/
theorem Fresh.normal_canonical {e : Expr} (h : Fresh plainCall e) (hoperands : e.NoWrapper) :
    e.canonical.Normal := by
  have hwrapper : ∀ t ∈ e.canonical.operands, t.kind ≠ .optionsWrapper := by
    intro t ht
    rw [Expr.canonical, Expr.operands_mapLeaves Expr.parts_canonicalLeaf] at ht
    obtain ⟨s, hs, rfl⟩ := List.mem_map.1 ht
    show s.canonical.kind ≠ _
    rw [Expr.kind_canonical]
    exact hoperands s hs
  have hvalid := h.valid
  cases h with
  | integer range => exact ⟨trivial, range, hwrapper⟩
  | number sort | reference sort | raw sort | keyword sort | collection sort => cases sort
  | castNumber cast => exact ⟨hvalid, cast, hwrapper⟩
  | string | boolean | null | list | unary | binary | conditional =>
    exact ⟨trivial, trivial, hwrapper⟩
  | @identifier name spelled =>
    have hname := isIdentifier_iff.1 spelled
    have hleaf : (Expr.identifier name).canonical = Expr.canonicalLeaf (.identifier name) := rfl
    -- a reserved name is a path now, any other is what it was
    rw [hleaf, Expr.canonicalLeaf] at hwrapper ⊢
    split at hwrapper
    · next hreserved =>
      rw [if_pos hreserved]
      refine ⟨?_, isIdentifier_backticked _, by simp [Expr.operands]⟩
      show PathText (String.ofList (backticked name.toList)).toList
      rw [String.toList_ofList]
      exact pathText_backticked hname
    · next hbare =>
      rw [if_neg hbare]
      exact ⟨hname, by simpa [Expr.IsOrdinary] using hbare, hwrapper⟩
  | castReference compound spelled => exact ⟨hvalid, compound, hwrapper⟩
  | @object entries distinct =>
    refine ⟨?_, trivial, hwrapper⟩
    show (Entries.keys (Expr.mapEntries Expr.canonicalLeaf entries)).Nodup
    rw [Expr.mapEntries_eq_map, Entries.keys, List.map_map]
    exact distinct
  | call _ spelled => exact ⟨hvalid, trivial, hwrapper⟩
  | @query q spelled =>
    have hquery : (q.mapLeaves Expr.canonicalLeaf).Valid :=
      ⟨by rw [Query.last_mapLeaves]; exact (Clause.validNames_of_spelled spelled).mapLeaves _,
        fun r _ => Query.isFollowable r, Clause.eq_remove_of_kind⟩
    exact ⟨hquery, trivial, hwrapper⟩

theorem Built.normal_canonical {e : Expr} (h : Built plainCall e)
    (hoperands : e.Everywhere Expr.NoWrapper) : e.canonical.Everywhere Expr.Normal :=
  (h.everywhere_fresh.and hoperands).mapLeaves Expr.parts_canonicalLeaf
    fun _ hs => hs.1.normal_canonical hs.2

/-! ## Equality -/

/-- A number that is no integer is not zero, so it is the same as itself and as no other. -/
theorem Binary64.IsProper.isExact {x : Binary64} (h : x.IsProper) : x.IsExact :=
  isExact_of_rank_ne_zero h.isFinite h.rank_ne_zero

theorem Expr.Normal.isExact {e : Expr} (h : e.Normal) : e.IsExact := by
  cases e with
  | number x => exact Binary64.IsProper.isExact h.ordinary
  | _ => trivial

/-- **Texts of plain queries are unambiguous.** Two queries that are built from plain data, without
    an options wrapper as an operand, have one text if and only if they are structurally equal, up
    to the two spellings of a reserved name. -/
theorem Query.text_eq_iff {q r : Query} (hq : Built plainCall (.query q))
    (hr : Built plainCall (.query r)) (hq' : (Expr.query q).Everywhere Expr.NoWrapper)
    (hr' : (Expr.query r).Everywhere Expr.NoWrapper) :
    (Expr.query q).text = (Expr.query r).text ↔
      (Expr.query q).canonical.same (Expr.query r).canonical = true := by
  -- the two spellings have one text, so both sides are about the canonical trees
  have hnormal := hq.normal_canonical hq'
  have hnormal' := hr.normal_canonical hr'
  have hexact := hnormal.imp fun _ => Expr.Normal.isExact
  rw [Expr.same_iff_eq hexact, Expr.text, Expr.text, String.ofList_inj, ← Expr.chars_canonical,
    ← Expr.chars_canonical (.query r)]
  refine ⟨fun h => ?_, fun h => by rw [h]⟩
  exact congrArg Expr.query (Query.eq_of_chars_eq hnormal hnormal' h)

theorem stringExpr?_ticked : stringExpr? "\x60for\x60" = some (.reference "\x60for\x60") := by
  have hpath : isPath "\x60for\x60" = true := by decide +kernel
  show (if isIdentifier "\x60for\x60" then some (Expr.identifier "\x60for\x60")
    else if isPath "\x60for\x60" then some (.reference "\x60for\x60") else none) = _
  rw [if_neg (by decide), if_pos hpath]

/-- A reserved name in its two spellings. -/
theorem Query.text_eq_iff_reserved :
    (Expr.query (.start (.ret false (.identifier "for")))).text =
        (Expr.query (.start (.ret false (.reference "\x60for\x60")))).text ↔
      (Expr.query (.start (.ret false (.identifier "for")))).canonical.same
        (Expr.query (.start (.ret false (.reference "\x60for\x60")))).canonical = true := by
  have hname : Built plainCall (.identifier "for") :=
    Built.of_answer (c := .identifier "for") rfl rfl rfl
  have hpath : Built plainCall (.reference "\x60for\x60") := by
    refine Built.of_answer (c := .cast (.value (.string "\x60for\x60"))) rfl rfl ?_
    simp only [Call.answer, Operand.toExpr, Operand.expr?, stringExpr?_ticked]
  have hleaf (e : Expr) (hparts : e.parts = []) (he : e.kind ≠ .optionsWrapper) :
      (Expr.query (.start (.ret false e))).Everywhere Expr.NoWrapper := by
    refine Expr.everywhere_returned hparts ?_ (fun t ht => List.mem_singleton.1 ht ▸ he)
    have hoperands := (List.append_eq_nil_iff.1 hparts).2
    simp [Expr.NoWrapper, hoperands]
  exact Query.text_eq_iff hname.returned hpath.returned (hleaf _ rfl (by decide))
    (hleaf _ rfl (by decide))

end QueryTree
