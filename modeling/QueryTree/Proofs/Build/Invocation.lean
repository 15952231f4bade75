import QueryTree.Proofs.Build.Slots
import QueryTree.Proofs.Name.Namespaces

/-!
# Functions are called by their names

The name of a function is looked at before the arguments. When it is a function's name, the call is
made of the arguments as they are converted one by one, and they decide whether it is made at all
(`Expr.invoke_accepted_iff`). When it is none, the call is refused for the name, whatever the
arguments are (`Expr.invoke_of_not_functionText`).

So the calls that can be made are those of the names of `Proofs/Name/Namespaces`, and the faults
listed there are the reasons for which a name is refused (`Expr.invoke_by_name`).
-/

set_option autoImplicit false

namespace QueryTree

namespace Expr

variable {function : String}

theorem invoke_accepted_iff {arguments : List Operand} :
    (∃ e, invoke function arguments = .ok e) ↔
      FunctionText function.toList ∧ ∀ given ∈ arguments, ∃ e, given.toExpr = .ok e := by
  rw [(tries_invoke function arguments).accepted_iff]
  simp only [Slot.accepted_iff, List.forall_mem_cons, List.forall_mem_map, Slot.Valid]

theorem invoke_of_not_functionText (h : ¬ FunctionText function.toList)
    (arguments : List Operand) :
    invoke function arguments = .error (.badFunction function) := by
  have hname : ¬ isFunctionName function = true := by
    intro hname
    exact h (isFunctionName_iff.1 hname)
  rw [invoke, if_neg hname]
  rfl

theorem text_call (function : String) (es : List Expr) :
    (call function es).text = function ++ "(" ++
      ", ".intercalate (es.map fun s => String.ofList s.operandChars) ++ ")" := by
  apply String.toList_inj.1
  have hoperands : (es.map fun s => String.ofList s.operandChars).map String.toList =
      operandTexts es := by
    rw [operandTexts_eq_map, List.map_map]
    simp
  simp only [text, chars, commaSeparated, String.toList_ofList, String.toList_append,
    String.toList_intercalate, hoperands, List.append_assoc]
  rfl

/-- **A function is called by identifiers with double colons between them**, and by nothing else.
    There is only one way to take the name apart. When it cannot be taken apart something is wrong
    with it, and the call is refused for its name, with any arguments. A call that is made is
    written as its name and, in parentheses, the arguments as they were converted, in order. -/
theorem invoke_by_name (function : String) :
    (∀ parts parts' : List (List Char), FunctionParts function.toList parts →
      FunctionParts function.toList parts' → parts = parts') ∧
    (∀ arguments : List Operand, (∀ given ∈ arguments, ∃ e, given.toExpr = .ok e) →
      ((∃ e, invoke function arguments = .ok e) ↔
        ∃ parts, FunctionParts function.toList parts)) ∧
    ((¬ ∃ parts, FunctionParts function.toList parts) ↔ FunctionFault function.toList) ∧
    (FunctionFault function.toList → ∀ arguments : List Operand,
      ∃ why, invoke function arguments = .error why ∧ why.topic = .identifier ∧
        why.detail = shown function ++ " is not a function name") ∧
    ∀ (arguments : List Operand) (e : Expr), invoke function arguments = .ok e →
      ∃ es, List.Forall₂ (fun given s => given.toExpr = .ok s) arguments es ∧
        e.text = function ++ "(" ++
          ", ".intercalate (es.map fun s => String.ofList s.operandChars) ++ ")" := by
  rw [← functionText_iff_exists_parts]
  refine ⟨?_, ?_, not_functionText_iff, ?_, ?_⟩
  · intro parts parts' h h'
    exact h.unique h'
  · intro arguments haccepted
    rw [invoke_accepted_iff]
    exact ⟨fun h => h.1, fun hname => ⟨hname, haccepted⟩⟩
  · intro hfault arguments
    have hname : ¬ FunctionText function.toList := not_functionText_iff.2 hfault
    exact ⟨_, invoke_of_not_functionText hname arguments, rfl, rfl⟩
  · intro arguments e he
    obtain ⟨-, es, hes, rfl⟩ := invoke_eq_ok_iff.1 he
    exact ⟨es, mapM_eq_ok_iff.1 hes, text_call function es⟩

/-- A call in a namespace, with an operation, a name and a string for its arguments. With a third
    colon it is refused, and not for its argument. -/
theorem invoke_by_name_qualified :
    let arguments : List Operand :=
      [.expr (.unary .not (.identifier "a")), .value (.string "doc"), .expr (.string "::")]
    (∃ e, invoke "ns::f_1" arguments = .ok e ∧ e.text = "ns::f_1((!a), doc, \"::\")") ∧
    ∃ why, invoke "ns:::f_1" [.value (.array [])] = .error why ∧ why.topic = .identifier := by
  intro arguments
  constructor
  · obtain ⟨-, haccepted, -, -, hwritten⟩ := invoke_by_name "ns::f_1"
    have hparts : FunctionParts "ns::f_1".toList [['n', 's'], ['f', '_', '1']] := by
      refine ⟨by simp, ?_, rfl⟩
      simp only [List.forall_mem_cons]
      exact ⟨isWord_iff.1 rfl, isWord_iff.1 rfl, by simp⟩
    have hname : (Operand.value (.string "doc")).toExpr = .ok (.identifier "doc") := rfl
    have hgiven : ∀ given ∈ arguments, ∃ e, given.toExpr = .ok e := by
      simp only [arguments, List.forall_mem_cons]
      exact ⟨⟨_, rfl⟩, ⟨_, hname⟩, ⟨_, rfl⟩, by simp⟩
    obtain ⟨e, he⟩ := (haccepted arguments hgiven).2 ⟨_, hparts⟩
    obtain ⟨es, hes, htext⟩ := hwritten arguments e he
    have hoperands : es = [.unary .not (.identifier "a"), .identifier "doc", .string "::"] := by
      simp only [arguments] at hes
      obtain - | ⟨hnegation, - | ⟨hdoc, - | ⟨hcolons, - | _⟩⟩⟩ := hes
      rw [hname] at hdoc
      cases hnegation
      cases hdoc
      cases hcolons
      rfl
    refine ⟨e, he, ?_⟩
    rw [htext, hoperands]
    decide
  · obtain ⟨-, -, -, hrefused, -⟩ := invoke_by_name "ns:::f_1"
    have hfault : FunctionFault "ns:::f_1".toList :=
      .triple ⟨['n', 's'], ['f', '_', '1'], rfl⟩
    obtain ⟨why, hwhy, htopic, -⟩ := hrefused hfault [.value (.array [])]
    exact ⟨why, hwhy, htopic⟩

end Expr

end QueryTree
