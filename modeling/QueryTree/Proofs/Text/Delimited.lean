import QueryTree.Proofs.Text.ClauseCount

/-!
# An operand's text says where it ends

Behind an operand stands nothing, or a blank, a comma or a closing bracket (`Boundary`). These are
the characters with which no solid text goes on (`boundary_iff_stops`), and the text of an operand
is solid. So whoever knows where an operand begins can find its end, by `cutSolid`, and need not
know what it is. No operand's text is the beginning of another's, up to a boundary
(`delimited_of_built`).

An options wrapper is the one operand for which this fails. It is written without parentheses, so
its text has blanks in it, and a wrapper may go on behind any of its clauses.
-/

set_option autoImplicit false

namespace QueryTree

/-! ## Where an operand can end -/

/-- What can stand behind an operand: nothing, or a text that begins with a separator or with a
    bracket that closes. -/
inductive Boundary : List Char → Prop
  | finish : Boundary []
  | mark {c : Char} (sort : c ∈ [' ', ',', ')', ']', '\x7d']) (rest : List Char) :
    Boundary (c :: rest)

theorem isStop_iff {c : Char} : IsStop c ↔ c ∈ [' ', ',', ')', ']', '\x7d'] := by
  simp only [List.mem_cons, List.not_mem_nil, or_false]
  constructor
  · intro h
    by_contra hnone
    simp only [not_or] at hnone
    -- any other character opens something or leaves the reader as it is
    cases hopen : closer? c with
    | some closer => simp [IsStop, Reader.next?, Reader.outside, hopen] at h
    | none =>
      simp [IsStop, Reader.next?, Reader.outside, hopen, isCloser, Reader.isSeparator, hnone] at h
  · rintro (rfl | rfl | rfl | rfl | rfl) <;> decide

theorem boundary_iff_stops {rest : List Char} : Boundary rest ↔ Stops rest := by
  constructor
  · intro h
    cases h with
    | finish => exact .nil
    | mark sort rest => exact .cons (isStop_iff.2 sort) rest
  · intro h
    cases rest with
    | nil => exact .finish
    | cons c rest => exact .mark (isStop_iff.1 (h c rfl)) rest

/-! ## What a run can write -/

/-- **Operands are delimited by themselves.** Of a text that begins with an operand, the operand can
    be cut off. So two such texts are one text only if they begin with one operand's text and go on
    with one rest. Options wrappers within the operands do no harm, nor do leaves that are spelled
    out, other than raw text. -/
theorem delimited_of_built {e : Expr} (he : Built anyCall e)
    (hraw : e.Everywhere fun s => ¬ s.IsRaw) (hkind : e.kind ≠ .optionsWrapper)
    {rest : List Char} (hrest : Boundary rest) :
    cutSolid (e.operandChars ++ rest) = (e.operandChars, rest) ∧
    ∀ f : Expr, Built anyCall f → (f.Everywhere fun s => ¬ s.IsRaw) → f.kind ≠ .optionsWrapper →
      ∀ rest' : List Char, Boundary rest' →
        e.operandChars ++ rest = f.operandChars ++ rest' →
          e.operandChars = f.operandChars ∧ rest = rest' := by
  have hsolid : IsSolid e.operandChars := (he.closed hraw).isSolid hkind
  have hstops : Stops rest := boundary_iff_stops.1 hrest
  refine ⟨hsolid.cutSolid_append hstops, ?_⟩
  intro f hf hfraw hfkind rest' hrest' htexts
  have hsolid' : IsSolid f.operandChars := (hf.closed hfraw).isSolid hfkind
  exact hsolid.append_inj hsolid' hstops (boundary_iff_stops.1 hrest') htexts

/-- A filter by one removal, with another removal and a filter after it, and a filter by both with
    a filter after it: two trees with one text, in a list. -/
theorem delimited_of_built_nested :
    let name : Expr := .identifier "a"
    let single : Query := .start (.remove name "x" (some []))
    let both : Query := .andThen single (.remove name "y" (some []))
    let q : Query := ((Query.start (.filter (.query single))).andThen
      (.remove name "y" (some []))).andThen (.filter name)
    let r : Query := (Query.start (.filter (.query both))).andThen (.filter name)
    let rest : List Char := ", \")\"]".toList
    q.clauses.length ≠ r.clauses.length ∧
      cutSolid ((Expr.query q).operandChars ++ rest) = ((Expr.query q).operandChars, rest) ∧
      (Expr.query q).operandChars = (Expr.query r).operandChars := by
  intro name single both q r rest
  have hname : Built dataCall name := .of_answer (c := .identifier "a") (.inl rfl) rfl rfl
  have hsingle : Built dataCall (.query single) :=
    .removal_options none (by simp) hname rfl
  have hboth : Built dataCall (.query both) :=
    .removal_options (some single) (fun _ h => Option.some.inj h ▸ hsingle) hname rfl
  have hfiltered (before : Query) (h : Built dataCall (.query before)) :
      Built dataCall (.query (before.andThen (.filter name))) := by
    refine .call (.clause (some (.query before)) (.filter (.expr name))) (.inl rfl) ?_ rfl
    intro s hs
    rcases List.mem_cons.1 hs with rfl | hs
    · exact h
    · exact List.mem_singleton.1 hs ▸ hname
  have hq : Built dataCall (.query q) := hfiltered _
    (.removal_options (some (.start (.filter (.query single))))
      (fun _ h => Option.some.inj h ▸ hsingle.filter) hname rfl)
  have hr : Built dataCall (.query r) := hfiltered _ hboth.filter
  have hraw {e : Expr} (h : Built dataCall e) : e.Everywhere fun s => ¬ s.IsRaw :=
    h.everywhere fun _ hs => hs.isReadable.isWritable.2
  have hany {e : Expr} (h : Built dataCall e) : Built anyCall e := h.mono fun _ _ => trivial
  have hkind (before : Query) :
      (Expr.query (before.andThen (.filter name))).kind ≠ .optionsWrapper := by
    simp [Expr.kind, Query.last, Clause.kind]
  have hrest : Boundary rest := .mark (c := ',') (by simp) _
  obtain ⟨hcut, htexts⟩ := delimited_of_built (hany hq) (hraw hq) (hkind _) hrest
  have hsame := htexts (.query r) (hany hr) (hraw hr) (hkind _) rest hrest rfl
  exact ⟨by decide, hcut, hsame.1⟩

end QueryTree
