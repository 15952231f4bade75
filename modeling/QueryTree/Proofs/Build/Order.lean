/-!
# The first failure decides

Whatever is made of several parts is checked part by part, from left to right. `Tries f xs r` says
so of a result `r`: it is a success when `f` accepts every member of `xs`, and otherwise its error
is the one that `f` gives for the first member that it refuses. What was tried in one computation
and what was tried in the next are one list for both of them together (`Tries.bind`), so the rule
passes from the parts of a function to the function.
-/

set_option autoImplicit false

namespace QueryTree

variable {ε α β γ δ : Type} {f : α → Except ε β} {xs ys : List α} {r : Except ε γ} {why : ε}

/-- The error is that of the first member that is refused. -/
def FirstRefused (f : α → Except ε β) (xs : List α) (why : ε) : Prop :=
  ∃ before x after, xs = before ++ x :: after ∧ (∀ y ∈ before, ∃ b, f y = .ok b) ∧
    f x = .error why

/-- A result that depends on whether each member of a list is accepted, and on nothing else. -/
def Tries (f : α → Except ε β) (xs : List α) : Except ε γ → Prop
  | .ok _ => ∀ x ∈ xs, ∃ b, f x = .ok b
  | .error why => FirstRefused f xs why

theorem FirstRefused.append_right (h : FirstRefused f xs why) (ys : List α) :
    FirstRefused f (xs ++ ys) why := by
  obtain ⟨before, x, after, rfl, hbefore, hx⟩ := h
  exact ⟨before, x, after ++ ys, by simp, hbefore, hx⟩

theorem FirstRefused.append_left (hxs : ∀ x ∈ xs, ∃ b, f x = .ok b) (h : FirstRefused f ys why) :
    FirstRefused f (xs ++ ys) why := by
  obtain ⟨before, y, after, rfl, hbefore, hy⟩ := h
  refine ⟨xs ++ before, y, after, by simp, ?_, hy⟩
  intro x hx
  rcases List.mem_append.1 hx with hx | hx
  · exact hxs x hx
  · exact hbefore x hx

theorem FirstRefused.exists_mem (h : FirstRefused f xs why) : ∃ x ∈ xs, f x = .error why := by
  obtain ⟨before, x, after, rfl, -, hx⟩ := h
  exact ⟨x, by simp, hx⟩

theorem FirstRefused.mapM_eq_error (h : FirstRefused f xs why) : xs.mapM f = .error why := by
  obtain ⟨before, x, after, rfl, hbefore, hx⟩ := h
  induction before with
  | nil =>
    rw [List.nil_append, List.mapM_cons, hx]
    rfl
  | cons y before ih =>
    obtain ⟨b, hb⟩ := hbefore y List.mem_cons_self
    rw [List.cons_append, List.mapM_cons, hb,
      ih fun z hz => hbefore z (List.mem_cons_of_mem _ hz)]
    rfl

theorem FirstRefused.unique {why' : ε} (h : FirstRefused f xs why) (h' : FirstRefused f xs why') :
    why = why' :=
  Except.error.inj (h.mapM_eq_error.symm.trans h'.mapM_eq_error)

/-- When all but the last member are accepted, the last one decides. -/
theorem firstRefused_concat_iff {x : α} (hxs : ∀ y ∈ xs, ∃ b, f y = .ok b) :
    FirstRefused f (xs ++ [x]) why ↔ f x = .error why := by
  refine ⟨fun h => ?_, fun hx => ⟨xs, x, [], rfl, hxs, hx⟩⟩
  obtain ⟨y, hy, hrefused⟩ := h.exists_mem
  rcases List.mem_append.1 hy with hy | hy
  · obtain ⟨b, hb⟩ := hxs y hy
    rw [hrefused] at hb
    cases hb
  · rwa [List.mem_singleton.1 hy] at hrefused

namespace Tries

theorem success (c : γ) : Tries f [] (.ok c : Except ε γ) := by simp [Tries]

theorem single (f : α → Except ε β) (x : α) : Tries f [x] (f x) := by
  cases hx : f x with
  | ok b =>
    intro y hy
    rw [List.mem_singleton.1 hy]
    exact ⟨b, hx⟩
  | error why => exact ⟨[], x, [], rfl, by simp, hx⟩

/-- It is enough that the result fails where `f` fails. -/
theorem of_map {x : α} {g : γ → β} (h : f x = g <$> r) : Tries f [x] r := by
  cases r with
  | error why => exact ⟨[], x, [], rfl, by simp, h⟩
  | ok c =>
    intro y hy
    rw [List.mem_singleton.1 hy]
    exact ⟨g c, h⟩

/-- One computation after another tries what the first tries and then what the second tries. -/
theorem bind {next : γ → Except ε δ} (first : Tries f xs r)
    (second : ∀ c, r = .ok c → Tries f ys (next c)) : Tries f (xs ++ ys) (r >>= next) := by
  cases r with
  | error why => exact FirstRefused.append_right first ys
  | ok c =>
    have hsecond := second c rfl
    show Tries f (xs ++ ys) (next c)
    cases hnext : next c with
    | error why =>
      rw [hnext] at hsecond
      exact FirstRefused.append_left first hsecond
    | ok d =>
      rw [hnext] at hsecond
      intro x hx
      rcases List.mem_append.1 hx with hx | hx
      · exact first x hx
      · exact hsecond x hx

theorem bind_pure {g : γ → δ} (h : Tries f xs r) : Tries f xs (r >>= fun c => pure (g c)) := by
  have hbind : Tries f (xs ++ []) (r >>= fun c => pure (g c)) := h.bind fun c _ => success (g c)
  rwa [List.append_nil] at hbind

theorem map {g : γ → δ} (h : Tries f xs r) : Tries f xs (g <$> r) := by
  cases r with
  | error why => exact h
  | ok c => exact h

/-- A traversal tries its members from left to right, each by the slot that stands for it. -/
theorem mapM {ι : Type} {step : ι → Except ε γ} {slot : ι → α}
    (each : ∀ i, Tries f [slot i] (step i)) (is : List ι) :
    Tries f (is.map slot) (is.mapM step) := by
  induction is with
  | nil => exact success []
  | cons i is ih =>
    rw [List.mapM_cons]
    exact (each i).bind fun c _ => ih.bind_pure

theorem optionMapM {ι : Type} {step : ι → Except ε γ} {slot : ι → α}
    (each : ∀ i, Tries f [slot i] (step i)) (i? : Option ι) :
    Tries f (i?.toList.map slot) (i?.mapM step) := by
  cases i? with
  | none => exact success none
  | some i => exact (each i).map

theorem accepted_iff (h : Tries f xs r) : (∃ c, r = .ok c) ↔ ∀ x ∈ xs, ∃ b, f x = .ok b := by
  cases r with
  | ok c => exact ⟨fun _ => h, fun _ => ⟨c, rfl⟩⟩
  | error why =>
    refine ⟨fun ⟨c, hc⟩ => (nomatch hc), fun hall => ?_⟩
    -- the member that was refused is not accepted
    obtain ⟨before, x, after, rfl, -, hx⟩ := h
    obtain ⟨b, hb⟩ := hall x (by simp)
    rw [hx] at hb
    cases hb

theorem refused (h : Tries f xs r) (hr : r = .error why) : FirstRefused f xs why := by
  subst hr
  exact h

/-- The error of the first member that is refused is the only one that the result can have. -/
theorem refused_iff (h : Tries f xs r) : r = .error why ↔ FirstRefused f xs why := by
  refine ⟨h.refused, fun hwhy => ?_⟩
  cases r with
  | error why' => rw [FirstRefused.unique h hwhy]
  | ok c =>
    obtain ⟨x, hx, hrefused⟩ := hwhy.exists_mem
    obtain ⟨b, hb⟩ := h x hx
    rw [hrefused] at hb
    cases hb

end Tries

end QueryTree
