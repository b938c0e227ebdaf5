import Kanban.Failure

/-!
# Kanban.Proofs.Operation — running operations step by step

Operations on storage, servers and projections carry a state along and may fail, keeping what they
did before. Run on a state, each of their steps gives a result and a state.

* `bind_apply` — one operation after another.
* `lift_apply` — a reading inside an operation.
-/

namespace Kanban.Operation

variable {σ α β : Type}

/-- A reading that goes on after one that succeeded. -/
theorem ok_bind {γ δ ε : Type} (a : γ) (f : γ → Except ε δ) : (Except.ok a >>= f) = f a := rfl

/-- One operation after another: the second runs on what the first left, if the first succeeded. -/
theorem bind_apply (x : ExceptT Failure (StateM σ) α) (f : α → ExceptT Failure (StateM σ) β)
    (s : σ) :
    (x >>= f) s = match x s with
      | (.ok a, t) => f a t
      | (.error e, t) => (.error e, t) := by
  -- failures are carried inside the state: both layers are opened here, and nowhere else
  change (StateT.bind x (ExceptT.bindCont f)) s = _
  unfold StateT.bind
  change (let (a, t) := x s; ExceptT.bindCont f a t) = _
  cases x s with
  | mk a t => cases a <;> rfl

theorem map_apply (g : α → β) (x : ExceptT Failure (StateM σ) α) (s : σ) :
    (g <$> x) s = match x s with
      | (.ok a, t) => (.ok (g a), t)
      | (.error e, t) => (.error e, t) := by
  rw [← bind_pure_comp, bind_apply]
  rfl

theorem discard_apply (x : ExceptT Failure (StateM σ) α) (s : σ) :
    (discard x) s = match x s with
      | (.ok _, t) => (.ok ⟨⟩, t)
      | (.error e, t) => (.error e, t) :=
  map_apply (fun _ => PUnit.unit) x s

theorem pure_apply (a : α) (s : σ) : (pure a : ExceptT Failure (StateM σ) α) s = (.ok a, s) := rfl

/-- What is left when an operation ends with a result of its own. -/
theorem state_bind_pure (x : ExceptT Failure (StateM σ) α) (b : β) (s : σ) :
    ((x >>= fun _ => pure b) s).2 = (x s).2 := by
  rw [bind_apply]
  cases x s with
  | mk r t => cases r <;> rfl

/-- What is left when an operation ends with a failure of its own. -/
theorem state_bind_throw (x : ExceptT Failure (StateM σ) α) (e : Failure) (s : σ) :
    ((x >>= fun _ => (throw e : ExceptT Failure (StateM σ) β)) s).2 = (x s).2 := by
  rw [bind_apply]
  cases x s with
  | mk r t => cases r <;> rfl

/-- What is left of an operation that goes on after a reading: if nothing could be read, what was
there before. -/
theorem state_read (r : Except Fault β) (f : β → ExceptT Failure (StateM σ) α) (s : σ) :
    ((liftM (Failure.ofReading r) >>= f) s).2 = match r with
      | .ok b => (f b s).2
      | .error _ => s := by
  cases r <;> rfl

theorem throw_apply (e : Failure) (s : σ) :
    (throw e : ExceptT Failure (StateM σ) α) s = (.error e, s) := rfl

theorem get_apply (s : σ) : (get : ExceptT Failure (StateM σ) σ) s = (.ok s, s) := rfl

theorem set_apply (t s : σ) : (set t : ExceptT Failure (StateM σ) PUnit) s = (.ok ⟨⟩, t) := rfl

theorem modify_apply (g : σ → σ) (s : σ) :
    (modify g : ExceptT Failure (StateM σ) PUnit) s = (.ok ⟨⟩, g s) := rfl

/-- One of two operations. -/
theorem if_apply (c : Prop) [Decidable c] (x y : ExceptT Failure (StateM σ) α) (s : σ) :
    (if c then x else y) s = if c then x s else y s := by
  split <;> rfl

/-- An operation that goes on only if nothing speaks against it. -/
theorem unless_apply (c : Prop) [Decidable c] (e : Failure) (x : ExceptT Failure (StateM σ) α)
    (s : σ) : (if c then (do throw e; x) else x) s = if c then (.error e, s) else x s := by
  split <;> rfl

/-- A reading inside an operation leaves the state alone. -/
theorem lift_apply (r : Except Failure α) (s : σ) :
    (liftM r : ExceptT Failure (StateM σ) α) s = (r, s) := by
  cases r <;> rfl

/-! ## What operations keep -/

variable {P : σ → Prop}

/-- What the first operation keeps and the second keeps after it. -/
theorem keeps_bind {x : ExceptT Failure (StateM σ) α} {f : α → ExceptT Failure (StateM σ) β} {s : σ}
    (hx : P (x s).2) (hf : ∀ a t, P t → P (f a t).2) : P ((x >>= f) s).2 := by
  rw [bind_apply]
  cases hr : x s with
  | mk r t =>
    rw [hr] at hx
    cases r with
    | error e => exact hx
    | ok a => exact hf a t hx

/-- What each of some operations keeps. -/
theorem keeps_mapM {f : α → ExceptT Failure (StateM σ) β} {l : List α}
    (hf : ∀ a ∈ l, ∀ s, P s → P (f a s).2) {s : σ} (hs : P s) : P ((l.mapM f) s).2 := by
  induction l generalizing s with
  | nil => exact hs
  | cons a l ih =>
    rw [List.mapM_cons]
    refine keeps_bind (hf a List.mem_cons_self s hs) fun b t ht => ?_
    refine keeps_bind (ih (fun a' ha' => hf a' (List.mem_cons_of_mem _ ha')) ht) fun bs u hu => ?_
    exact hu

theorem keeps_forM {f : α → ExceptT Failure (StateM σ) PUnit} {l : List α}
    (hf : ∀ a ∈ l, ∀ s, P s → P (f a s).2) {s : σ} (hs : P s) : P ((l.forM f) s).2 := by
  induction l generalizing s with
  | nil => exact hs
  | cons a l ih =>
    refine keeps_bind (hf a List.mem_cons_self s hs) fun b t ht => ?_
    exact ih (fun a' ha' => hf a' (List.mem_cons_of_mem _ ha')) ht

/-- What an operation keeps that goes on after a reading. -/
theorem keeps_lift {r : Except Failure β} {f : β → ExceptT Failure (StateM σ) α} {s : σ}
    (hs : P s) (hf : ∀ b, r = .ok b → P (f b s).2) : P ((liftM r >>= f) s).2 := by
  rw [bind_apply, lift_apply]
  cases r with
  | error e => exact hs
  | ok b => exact hf b rfl

end Kanban.Operation
