import Mathlib.Data.List.Basic

set_option autoImplicit true

/-- What the last item that sets the value sets it to. -/
def lastWrite (w : ε → Option β) (es : List ε) : Option β := (es.filterMap w).getLast?

@[simp] theorem lastWrite_nil (w : ε → Option β) : lastWrite w [] = none := rfl

theorem lastWrite_append (w : ε → Option β) (es es' : List ε) :
    lastWrite w (es ++ es') = (lastWrite w es').or (lastWrite w es) := by
  rw [lastWrite, List.filterMap_append, List.getLast?_append]
  rfl

theorem lastWrite_singleton (w : ε → Option β) (e : ε) : lastWrite w [e] = w e := by
  cases h : w e <;> simp [lastWrite, h]

theorem lastWrite_cons (w : ε → Option β) (e : ε) (es : List ε) :
    lastWrite w (e :: es) = (lastWrite w es).or (w e) := by
  rw [← List.singleton_append, lastWrite_append, lastWrite_singleton]

theorem lastWrite_concat (w : ε → Option β) (es : List ε) (e : ε) :
    lastWrite w (es ++ [e]) = (w e).or (lastWrite w es) := by
  rw [lastWrite_append, lastWrite_singleton]

theorem lastWrite_eq_none (h : ∀ e ∈ es, w e = none) : lastWrite w es = none := by
  rw [lastWrite, List.filterMap_eq_nil_iff.2 h]
  rfl

theorem exists_of_lastWrite (h : lastWrite w es = some b) : ∃ e ∈ es, w e = some b :=
  List.mem_filterMap.1 (List.mem_of_getLast? h)

theorem lastWrite_flatMap (w : ε → Option β) (f : γ → List ε) (bs : List γ) :
    lastWrite w (bs.flatMap f) = lastWrite (fun b => lastWrite w (f b)) bs := by
  induction bs with
  | nil => rfl
  | cons b bs ih => rw [List.flatMap_cons, lastWrite_append, lastWrite_cons, ih]

/-- A value that each step sets or keeps. -/
theorem foldl_lastWrite {step : σ → ε → σ} {get : σ → β}
    (h : ∀ s e, get (step s e) = (w e).getD (get s)) (es : List ε) (s : σ) :
    get (es.foldl step s) = (lastWrite w es).getD (get s) := by
  induction es generalizing s with
  | nil => rfl
  | cons e es ih =>
    rw [List.foldl_cons, ih, h, lastWrite_cons]
    cases lastWrite w es <;> rfl
