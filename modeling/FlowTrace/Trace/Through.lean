set_option autoImplicit false

/-!
# Trace: lists that thread a state

Records are made one after the other while the id tables grow.  `mapThrough` maps a list and hands
the state from each element to the next; its two equations are all that is needed to reason about
it.
-/

namespace FlowTrace

variable {σ α β : Type}

/-- One element of a threaded map: the results so far and the state. -/
def throughStep (f : σ → α → β × σ) (acc : Array β × σ) (a : α) : Array β × σ :=
  let (b, s) := f acc.2 a
  (acc.1.push b, s)

/-- The results of `f` on the elements in order, each with the state left by the one before, and
the state after the last one. -/
def mapThrough (f : σ → α → β × σ) (s : σ) (as : List α) : List β × σ :=
  let (bs, s) := as.foldl (throughStep f) (#[], s)
  (bs.toList, s)

theorem foldl_throughStep (f : σ → α → β × σ) (as : List α) (bs : Array β) (s : σ) :
    as.foldl (throughStep f) (bs, s) =
      (bs ++ (mapThrough f s as).1.toArray, (mapThrough f s as).2) := by
  induction as generalizing bs s with
  | nil => simp [mapThrough]
  | cons a as ih =>
    simp only [List.foldl_cons, throughStep, mapThrough]
    rw [ih, ih (#[].push _)]
    simp

@[simp] theorem mapThrough_nil (f : σ → α → β × σ) (s : σ) : mapThrough f s [] = ([], s) := rfl

theorem mapThrough_cons (f : σ → α → β × σ) (s : σ) (a : α) (as : List α) :
    mapThrough f s (a :: as) =
      ((f s a).1 :: (mapThrough f (f s a).2 as).1, (mapThrough f (f s a).2 as).2) := by
  simp only [mapThrough, List.foldl_cons, throughStep]
  rw [foldl_throughStep]
  simp [mapThrough]

theorem length_mapThrough (f : σ → α → β × σ) (s : σ) (as : List α) :
    (mapThrough f s as).1.length = as.length := by
  induction as generalizing s with
  | nil => rfl
  | cons a as ih => rw [mapThrough_cons, List.length_cons, List.length_cons, ih]

/-- A threaded map over two lists goes on over the second from the state that the first left. -/
theorem mapThrough_append (f : σ → α → β × σ) (s : σ) (as bs : List α) :
    mapThrough f s (as ++ bs) =
      ((mapThrough f s as).1 ++ (mapThrough f (mapThrough f s as).2 bs).1,
        (mapThrough f (mapThrough f s as).2 bs).2) := by
  induction as generalizing s with
  | nil => rfl
  | cons a as ih => rw [List.cons_append, mapThrough_cons, mapThrough_cons, ih]; rfl

/-- What every step keeps holds after a threaded map. -/
theorem mapThrough_induct {f : σ → α → β × σ} {p : σ → Prop} {as : List α}
    (hstep : ∀ (s : σ) (a : α), a ∈ as → p s → p (f s a).2) {s : σ} (hs : p s) :
    p (mapThrough f s as).2 := by
  induction as generalizing s with
  | nil => exact hs
  | cons a as ih =>
    rw [mapThrough_cons]
    exact ih (fun s b hb => hstep s b (List.mem_cons_of_mem a hb))
      (hstep s a List.mem_cons_self hs)

end FlowTrace
