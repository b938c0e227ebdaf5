import Kanban.Sorting
import Mathlib.Data.List.Chain
import Mathlib.Data.List.Pairwise
import Mathlib.Data.List.Perm.Basic

/-!
# Kanban.Proofs.Sorting — sorted lists are in order

A list rises if nothing in it stands before something that is below it. On elements that a test
orders, sorting makes every list rise, and what rose before is found in it in the same order.

A list climbs if nothing in it stands right before something that is below it. Whether or not there
is an order, sorting makes every list climb and leaves a list alone that climbs.

* `rises_sort` — a sorted list rises.
* `sublist_sort` — sorting is stable; `pairwise_sort` says it of pairs.
* `sort_sort` — sorting again changes nothing.
-/

namespace Kanban.Sorting

variable {α : Type} {lt : α → α → Bool} {P : α → Prop}

/-- Nothing stands before something that is below it. -/
def Rises (lt : α → α → Bool) (xs : List α) : Prop := xs.Pairwise fun x y => lt y x = false

/-- A test orders the elements of a class: of two elements at most one is below the other, and what
is not below something is not below anything that this is not below. -/
structure Orders (lt : α → α → Bool) (P : α → Prop) : Prop where
  asymm : ∀ {x y}, P x → P y → lt x y = true → lt y x = false
  trans : ∀ {x y z}, P x → P y → P z → lt y x = false → lt z y = false → lt z x = false

/-- Of elements at different places the earlier one is not above. -/
theorem Rises.getElem {xs : List α} (h : Rises lt xs) {i j : Nat} (hij : i < j)
    (hj : j < xs.length) : lt xs[j] (xs.get ⟨i, Nat.lt_trans hij hj⟩) = false :=
  List.pairwise_iff_getElem.1 h i j _ hj hij

/-! ## The run at the front -/

theorem mem_climb {x y : α} {ys : List α} (h : y ∈ (climb lt x ys).1) : y ∈ ys := by
  rw [← climb_append lt x ys]
  exact List.mem_append_left _ h

theorem mem_fall {x y : α} {ys : List α} (h : y ∈ (fall lt x ys).1) : y ∈ ys := by
  rw [← fall_append lt x ys]
  exact List.mem_append_left _ h

theorem rises_climb (ho : Orders lt P) {x : α} {ys : List α} (hx : P x) (hys : ∀ y ∈ ys, P y) :
    Rises lt (x :: (climb lt x ys).1) := by
  induction ys generalizing x with
  | nil => exact List.pairwise_singleton _ x
  | cons y ys ih =>
    have hy : P y := hys y List.mem_cons_self
    have hrest : ∀ z ∈ ys, P z := fun z hz => hys z (List.mem_cons_of_mem _ hz)
    cases hlt : lt y x with
    | true => simp [climb, hlt, Rises]
    | false =>
      have hrise := ih hy hrest
      simp only [climb, hlt, Bool.false_eq_true, if_false]
      refine List.pairwise_cons.2 ⟨?_, hrise⟩
      -- what comes behind the next element is not below it, and that is not below the first
      intro z hz
      rcases List.mem_cons.1 hz with rfl | hz
      · exact hlt
      · exact ho.trans hx hy (hrest z (mem_climb hz)) hlt ((List.pairwise_cons.1 hrise).1 z hz)

/-- What is below something is below all that this is not above. -/
theorem Orders.lt_of_lt (ho : Orders lt P) {x y z : α} (hx : P x) (hy : P y) (hz : P z)
    (hxy : lt x y = true) (hzy : lt z y = false) : lt x z = true := by
  by_contra hxz
  have hxy' := ho.trans hy hz hx hzy (eq_false_of_ne_true hxz)
  simp [hxy] at hxy'

/-- The falling run falls from each element to all that come behind it. -/
theorem falls_fall (ho : Orders lt P) {x : α} {ys : List α} (hx : P x) (hys : ∀ y ∈ ys, P y) :
    (x :: (fall lt x ys).1).Pairwise fun a b => lt b a = true := by
  induction ys generalizing x with
  | nil => exact List.pairwise_singleton _ x
  | cons y ys ih =>
    have hy : P y := hys y List.mem_cons_self
    have hrest : ∀ z ∈ ys, P z := fun z hz => hys z (List.mem_cons_of_mem _ hz)
    cases hlt : lt y x with
    | false => simp [fall, hlt]
    | true =>
      have hfall := ih hy hrest
      simp only [fall, hlt, if_true]
      refine List.pairwise_cons.2 ⟨?_, hfall⟩
      intro z hz
      rcases List.mem_cons.1 hz with rfl | hz
      · exact hlt
      · have hzy := (List.pairwise_cons.1 hfall).1 z hz
        exact ho.lt_of_lt (hrest z (mem_fall hz)) hy hx hzy (ho.asymm hy hx hlt)

/-- The run at the front of a list rises; a falling one was turned round. -/
theorem rises_run (ho : Orders lt P) {xs : List α} (hxs : ∀ x ∈ xs, P x) :
    Rises lt (run lt xs).1 := by
  match xs with
  | [] => exact List.Pairwise.nil
  | [x] => exact List.pairwise_singleton _ x
  | x :: y :: ys =>
    have hx : P x := hxs x List.mem_cons_self
    have hrest : ∀ z ∈ y :: ys, P z := fun z hz => hxs z (List.mem_cons_of_mem _ hz)
    cases hlt : lt y x with
    | true =>
      have hfall := falls_fall ho hx hrest
      simp only [fall, hlt, if_true] at hfall
      simp only [run, hlt, if_true]
      refine List.pairwise_reverse.2 (hfall.imp_of_mem fun {a b} ha hb hab => ?_)
      have hmem (c : α) (hc : c ∈ x :: y :: (fall lt y ys).1) : P c := by
        refine hxs c (List.mem_cons.2 ((List.mem_cons.1 hc).imp_right fun hc => ?_))
        exact List.mem_cons.2 ((List.mem_cons.1 hc).imp_right mem_fall)
      exact ho.asymm (hmem b hb) (hmem a ha) hab
    | false =>
      have hrise := rises_climb ho hx hrest
      simp only [climb, hlt, Bool.false_eq_true, if_false] at hrise
      simpa only [run, hlt, Bool.false_eq_true, if_false] using hrise

/-! ## Inserting -/

/-- Halving finds a place with nothing above `x` before it and all that is behind it above `x`. -/
theorem seat_spec (ho : Orders lt P) {x : α} {xs : List α} (hx : P x) (hxs : ∀ y ∈ xs, P y)
    (hr : Rises lt xs) (low high : Nat) (hlh : low ≤ high) (hh : high ≤ xs.length)
    (hlow : ∀ j, (hj : j < xs.length) → j < low → lt x xs[j] = false)
    (hhigh : ∀ j, (hj : j < xs.length) → high ≤ j → lt x xs[j] = true) :
    (∀ j, (hj : j < xs.length) → j < seat lt x xs low high → lt x xs[j] = false) ∧
      ∀ j, (hj : j < xs.length) → seat lt x xs low high ≤ j → lt x xs[j] = true := by
  fun_induction seat lt x xs low high with
  | case1 low high h middle y hy hc ih =>
    -- the middle is above, and all that comes behind it is not below the middle
    obtain ⟨hm, rfl⟩ := List.getElem?_eq_some_iff.1 hy
    have hym : P xs[middle] := hxs _ (List.getElem_mem hm)
    refine ih (by omega) (by omega) hlow fun j hj hmj => ?_
    rcases Nat.eq_or_lt_of_le hmj with rfl | hmj
    · exact hc
    · exact ho.lt_of_lt hx hym (hxs _ (List.getElem_mem hj)) hc (hr.getElem hmj hj)
  | case2 low high h middle y hy hc ih =>
    -- the middle is not above, and nothing before it is above the middle
    obtain ⟨hm, rfl⟩ := List.getElem?_eq_some_iff.1 hy
    have hym : P xs[middle] := hxs _ (List.getElem_mem hm)
    have hxy : lt x xs[middle] = false := by simpa using hc
    refine ih (by omega) hh (fun j hj hjm => ?_) hhigh
    rcases Nat.eq_or_lt_of_le (Nat.le_of_lt_succ hjm) with rfl | hjm
    · exact hxy
    · exact ho.trans (hxs _ (List.getElem_mem hj)) hym hx (hr.getElem hjm hm) hxy
  | case3 low high h middle hy =>
    have hm := List.getElem?_eq_none_iff.1 hy
    omega
  | case4 low high h =>
    obtain rfl : low = high := by omega
    exact ⟨hlow, hhigh⟩

/-- Inserting parts a list in what is not above `x` and what is. -/
theorem insert_spec (ho : Orders lt P) {x : α} {xs : List α} (hx : P x) (hxs : ∀ y ∈ xs, P y)
    (hr : Rises lt xs) :
    ∃ before behind, xs = before ++ behind ∧ insert lt xs x = before ++ x :: behind ∧
      (∀ y ∈ before, lt x y = false) ∧ ∀ y ∈ behind, lt x y = true := by
  obtain ⟨hbefore, hbehind⟩ := seat_spec ho hx hxs hr 0 xs.length (Nat.zero_le _) (Nat.le_refl _)
    (fun j _ hj => absurd hj (Nat.not_lt_zero j)) fun j hj hj' => absurd hj (Nat.not_lt.2 hj')
  refine ⟨_, _, (List.take_append_drop (seat lt x xs 0 xs.length) xs).symm, rfl, ?_, ?_⟩
  · intro y hy
    obtain ⟨j, hj, rfl⟩ := List.mem_take_iff_getElem.1 hy
    exact hbefore _ _ (by omega)
  · intro y hy
    obtain ⟨j, hj, rfl⟩ := List.mem_drop_iff_getElem.1 hy
    exact hbehind _ _ (by omega)

theorem rises_insert (ho : Orders lt P) {x : α} {xs : List α} (hx : P x) (hxs : ∀ y ∈ xs, P y)
    (hr : Rises lt xs) : Rises lt (insert lt xs x) := by
  obtain ⟨before, behind, rfl, hins, hbefore, hbehind⟩ := insert_spec ho hx hxs hr
  obtain ⟨htake, hdrop, hcross⟩ := List.pairwise_append.1 hr
  rw [hins]
  refine List.pairwise_append.2 ⟨htake, List.pairwise_cons.2 ⟨?_, hdrop⟩, ?_⟩
  · intro y hy
    exact ho.asymm hx (hxs y (List.mem_append_right _ hy)) (hbehind y hy)
  · intro y hy z hz
    rcases List.mem_cons.1 hz with rfl | hz
    · exact hbefore y hy
    · exact hcross y hy z hz

theorem rises_foldl_insert (ho : Orders lt P) {xs sorted : List α} (hxs : ∀ x ∈ xs, P x)
    (hs : ∀ x ∈ sorted, P x) (hr : Rises lt sorted) : Rises lt (xs.foldl (insert lt) sorted) := by
  induction xs generalizing sorted with
  | nil => exact hr
  | cons x xs ih =>
    have hx : P x := hxs x List.mem_cons_self
    refine ih (fun y hy => hxs y (List.mem_cons_of_mem _ hy)) ?_ (rises_insert ho hx hs hr)
    intro y hy
    rcases List.mem_cons.1 ((insert_perm lt sorted x).mem_iff.1 hy) with rfl | hy
    · exact hx
    · exact hs y hy

/-- A sorted list rises. -/
theorem rises_sort (ho : Orders lt P) {xs : List α} (hxs : ∀ x ∈ xs, P x) :
    Rises lt (sort lt xs) := by
  have hparts : ∀ x ∈ (run lt xs).1 ++ (run lt xs).2, P x := fun x hx =>
    hxs x ((run_perm lt xs).mem_iff.1 hx)
  exact rises_foldl_insert ho (fun x hx => hparts x (List.mem_append_right _ hx))
    (fun x hx => hparts x (List.mem_append_left _ hx)) (rises_run ho hxs)

/-! ## Stability -/

/-- A part of a list that rises is a part of the list after an insertion; it goes on with the element
inserted, if that does not stand before anything in it. -/
theorem sublist_insert (ho : Orders lt P) {x : α} {xs part : List α} (hx : P x)
    (hxs : ∀ y ∈ xs, P y) (hr : Rises lt xs) (hpart : part.Sublist xs) :
    part.Sublist (insert lt xs x) ∧
      ((∀ y ∈ part, lt x y = false) → (part ++ [x]).Sublist (insert lt xs x)) := by
  obtain ⟨before, behind, rfl, hins, -, hbehind⟩ := insert_spec ho hx hxs hr
  rw [hins]
  refine ⟨hpart.trans ((List.sublist_cons_self x behind).append_left before), fun hlast => ?_⟩
  -- nothing of the part is behind the seat, as all that is there is above
  obtain ⟨front, back, rfl, hfront, hback⟩ := List.sublist_append_iff.1 hpart
  cases back with
  | nil =>
    rw [List.append_nil]
    exact hfront.append (List.singleton_sublist.2 List.mem_cons_self)
  | cons y back =>
    have habove := hbehind y (hback.subset List.mem_cons_self)
    simp [hlast y (by simp)] at habove

theorem sublist_foldl_insert (ho : Orders lt P) {xs sorted front back : List α}
    (hxs : ∀ x ∈ xs, P x) (hs : ∀ x ∈ sorted, P x) (hr : Rises lt sorted)
    (hfront : front.Sublist sorted) (hback : back.Sublist xs) (hpart : Rises lt (front ++ back)) :
    (front ++ back).Sublist (xs.foldl (insert lt) sorted) := by
  induction xs generalizing sorted front back with
  | nil =>
    rw [List.sublist_nil.1 hback, List.append_nil]
    exact hfront
  | cons x xs ih =>
    have hx : P x := hxs x List.mem_cons_self
    have hrest : ∀ y ∈ xs, P y := fun y hy => hxs y (List.mem_cons_of_mem _ hy)
    have hins : ∀ y ∈ insert lt sorted x, P y := by
      intro y hy
      rcases List.mem_cons.1 ((insert_perm lt sorted x).mem_iff.1 hy) with rfl | hy
      · exact hx
      · exact hs y hy
    have hri := rises_insert ho hx hs hr
    obtain ⟨hkeep, hgrow⟩ := sublist_insert ho hx hs hr hfront
    rw [List.foldl_cons]
    cases hback with
    | cons _ hback => exact ih hrest hins hri hkeep hback hpart
    | cons_cons _ hback =>
      -- the next element of the part is inserted now
      rename_i back
      rw [List.append_cons] at hpart ⊢
      refine ih hrest hins hri (hgrow fun y hy => ?_) hback hpart
      exact (List.pairwise_append.1 (List.pairwise_append.1 hpart).1).2.2 y hy x
        List.mem_cons_self

/-- A part of a list that rises is in the run at the front and the rest, one behind the other: of a
falling run, which is turned round, it has one element at most. -/
theorem sublist_run (ho : Orders lt P) {xs part : List α} (hxs : ∀ x ∈ xs, P x)
    (hpart : part.Sublist xs) (hr : Rises lt part) :
    ∃ front back, part = front ++ back ∧ front.Sublist (run lt xs).1 ∧
      back.Sublist (run lt xs).2 := by
  match xs with
  | [] => exact ⟨part, [], (List.append_nil _).symm, hpart, List.nil_sublist _⟩
  | [x] => exact ⟨part, [], (List.append_nil _).symm, hpart, List.nil_sublist _⟩
  | x :: y :: ys =>
    have hx : P x := hxs x List.mem_cons_self
    have hrest : ∀ z ∈ y :: ys, P z := fun z hz => hxs z (List.mem_cons_of_mem _ hz)
    cases hlt : lt y x with
    | false =>
      simp only [run, hlt, Bool.false_eq_true, if_false]
      rw [← climb_append lt y ys, ← List.cons_append, ← List.cons_append] at hpart
      exact List.sublist_append_iff.1 hpart
    | true =>
      have hfall := falls_fall ho hx hrest
      simp only [fall, hlt, if_true] at hfall
      simp only [run, hlt, if_true]
      rw [← fall_append lt y ys, ← List.cons_append, ← List.cons_append] at hpart
      obtain ⟨front, back, rfl, hfront, hback⟩ := List.sublist_append_iff.1 hpart
      refine ⟨front, back, rfl, ?_, hback⟩
      rcases front with _ | ⟨z, _ | ⟨u, front⟩⟩
      · exact List.nil_sublist _
      · exact List.singleton_sublist.2 (List.mem_reverse.2 (hfront.subset (by simp)))
      · have hdown := (List.pairwise_cons.1 (hfall.sublist hfront)).1 u (by simp)
        have hup : lt u z = false :=
          (List.pairwise_cons.1 (List.pairwise_append.1 hr).1).1 u (by simp)
        simp [hup] at hdown

/-- Sorting is stable: a part of a list that rises is a part of the sorted list. -/
theorem sublist_sort (ho : Orders lt P) {xs part : List α} (hxs : ∀ x ∈ xs, P x)
    (hpart : part.Sublist xs) (hr : Rises lt part) : part.Sublist (sort lt xs) := by
  have hparts : ∀ x ∈ (run lt xs).1 ++ (run lt xs).2, P x := fun x hx =>
    hxs x ((run_perm lt xs).mem_iff.1 hx)
  obtain ⟨front, back, rfl, hfront, hback⟩ := sublist_run ho hxs hpart hr
  exact sublist_foldl_insert ho (fun x hx => hparts x (List.mem_append_right _ hx))
    (fun x hx => hparts x (List.mem_append_left _ hx)) (rises_run ho hxs) hfront hback hr

/-- Two elements of a list come in one order or in the other. -/
theorem sublist_or_swap {x y : α} {xs : List α} (hx : x ∈ xs) (hy : y ∈ xs) (hne : x ≠ y) :
    [x, y].Sublist xs ∨ [y, x].Sublist xs := by
  have hpairs : xs.Pairwise fun a b => [a, b].Sublist xs ∨ [b, a].Sublist xs :=
    List.pairwise_iff_forall_sublist.2 fun h => .inl h
  have : Std.Symm fun a b : α => [a, b].Sublist xs ∨ [b, a].Sublist xs := ⟨fun _ _ => Or.symm⟩
  exact hpairs.forall hx hy hne

/-- In a list without repetitions two elements come in one order only. -/
theorem not_sublist_swap {x y : α} {xs : List α} (hxs : xs.Nodup) (h : [x, y].Sublist xs) :
    ¬ [y, x].Sublist xs := by
  induction xs with
  | nil => cases h
  | cons z xs ih =>
    obtain ⟨hz, hxs⟩ := List.nodup_cons.1 hxs
    intro h'
    -- the first of the list is before all others and nowhere else
    cases h with
    | cons _ h =>
      cases h' with
      | cons _ h' => exact ih hxs h h'
      | cons_cons _ h' => exact hz (h.subset (by simp))
    | cons_cons _ h =>
      cases h' with
      | cons _ h' => exact hz (h'.subset (by simp))
      | cons_cons _ h' => exact hz (h.subset (by simp))

/-- Of two elements of a sorted list the earlier one is below the other, or neither is below and it
came first before sorting. -/
theorem pairwise_sort (ho : Orders lt P) {xs : List α} (hxs : ∀ x ∈ xs, P x) (hn : xs.Nodup) :
    (sort lt xs).Pairwise fun x y => lt y x = false ∧ (lt x y = false → [x, y].Sublist xs) := by
  have hrise := rises_sort ho hxs
  have hsorted : (sort lt xs).Nodup := (sort_perm lt xs).nodup_iff.2 hn
  refine List.pairwise_iff_forall_sublist.2 fun {x y} h => ?_
  have hyx : lt y x = false := List.pairwise_iff_forall_sublist.1 hrise h
  refine ⟨hyx, fun hxy => ?_⟩
  have hx : x ∈ xs := (sort_perm lt xs).mem_iff.1 (h.subset (by simp))
  have hy : y ∈ xs := (sort_perm lt xs).mem_iff.1 (h.subset (by simp))
  have hne : x ≠ y := by
    rintro rfl
    exact not_sublist_swap hsorted h h
  -- had the other come first, sorting would have kept it first
  refine (sublist_or_swap hx hy hne).resolve_right fun hswap => ?_
  have hrises : Rises lt [y, x] :=
    List.pairwise_cons.2 ⟨fun z hz => List.mem_singleton.1 hz ▸ hxy, List.pairwise_singleton _ _⟩
  exact not_sublist_swap hsorted h (sublist_sort ho hxs hswap hrises)

/-! ## Sorting again -/

/-- Nothing stands right before something that is below it. -/
def Climbs (lt : α → α → Bool) (xs : List α) : Prop := xs.IsChain fun x y => lt y x = false

theorem Rises.climbs {xs : List α} (h : Rises lt xs) : Climbs lt xs := List.Pairwise.isChain h

/-- Of a list that climbs the run at the front is the whole list. -/
theorem sort_of_climbs {xs : List α} (h : Climbs lt xs) : sort lt xs = xs := by
  have hclimb (x : α) (ys : List α) (h : Climbs lt (x :: ys)) : climb lt x ys = (ys, []) := by
    induction ys generalizing x with
    | nil => rfl
    | cons y ys ih =>
      obtain ⟨hyx, hys⟩ := List.isChain_cons_cons.1 h
      simp [climb, hyx, ih y hys]
  rcases xs with _ | ⟨x, _ | ⟨y, ys⟩⟩
  · rfl
  · rfl
  · obtain ⟨hyx, hys⟩ := List.isChain_cons_cons.1 h
    simp [sort, run, hyx, hclimb y ys hys]

theorem climbs_climb (x : α) (ys : List α) : Climbs lt (x :: (climb lt x ys).1) := by
  induction ys generalizing x with
  | nil => exact List.isChain_singleton x
  | cons y ys ih =>
    cases hlt : lt y x with
    | true => simp [climb, hlt, Climbs]
    | false =>
      simp only [climb, hlt, Bool.false_eq_true, if_false]
      exact List.isChain_cons_cons.2 ⟨hlt, ih y⟩

theorem sinks_fall (x : α) (ys : List α) :
    (x :: (fall lt x ys).1).IsChain fun a b => lt b a = true := by
  induction ys generalizing x with
  | nil => exact List.isChain_singleton x
  | cons y ys ih =>
    cases hlt : lt y x with
    | false => simp [fall, hlt]
    | true =>
      simp only [fall, hlt, if_true]
      exact List.isChain_cons_cons.2 ⟨hlt, ih y⟩

/-- Halving ends between an element that `x` is not below and one that it is below, as far as there
are such: it has looked at both. -/
theorem seat_between (lt : α → α → Bool) (x : α) (xs : List α) (low high : Nat) (hlh : low ≤ high)
    (hh : high ≤ xs.length)
    (hlow : ∀ y, low ≠ 0 → xs[low - 1]? = some y → lt x y = false)
    (hhigh : ∀ y, xs[high]? = some y → lt x y = true) :
    seat lt x xs low high ≤ xs.length ∧
      (∀ y, seat lt x xs low high ≠ 0 → xs[seat lt x xs low high - 1]? = some y →
        lt x y = false) ∧
      ∀ y, xs[seat lt x xs low high]? = some y → lt x y = true := by
  fun_induction seat lt x xs low high with
  | case1 low high h middle y hy hc ih =>
    refine ih (by omega) (by omega) hlow fun z hz => ?_
    obtain rfl : y = z := Option.some.inj (hy.symm.trans hz)
    exact hc
  | case2 low high h middle y hy hc ih =>
    refine ih (by omega) hh (fun z _ hz => ?_) hhigh
    obtain rfl : y = z := Option.some.inj (hy.symm.trans hz)
    simpa using hc
  | case3 low high h middle hy =>
    have hm := List.getElem?_eq_none_iff.1 hy
    omega
  | case4 low high h =>
    obtain rfl : low = high := by omega
    exact ⟨hh, hlow, hhigh⟩

variable (hasymm : ∀ x y, lt x y = true → lt y x = false)
include hasymm

theorem climbs_run (xs : List α) : Climbs lt (run lt xs).1 := by
  match xs with
  | [] => exact List.isChain_nil
  | [x] => exact List.isChain_singleton x
  | x :: y :: ys =>
    cases hlt : lt y x with
    | true =>
      have hsink : (x :: y :: (fall lt y ys).1).IsChain fun a b => lt b a = true :=
        List.isChain_cons_cons.2 ⟨hlt, sinks_fall y ys⟩
      simp only [run, hlt, if_true]
      exact List.isChain_reverse.2 (hsink.imp fun a b hab => hasymm b a hab)
    | false =>
      simp only [run, hlt, Bool.false_eq_true, if_false]
      exact List.isChain_cons_cons.2 ⟨hlt, climbs_climb y ys⟩

theorem climbs_insert {xs : List α} (h : Climbs lt xs) (x : α) : Climbs lt (insert lt xs x) := by
  obtain ⟨hlen, hbefore, hbehind⟩ := seat_between lt x xs 0 xs.length (Nat.zero_le _)
    (Nat.le_refl _) (fun y h0 _ => absurd rfl h0) (by simp)
  unfold insert
  generalize seat lt x xs 0 xs.length = i at hlen hbefore hbehind
  have hparts : Climbs lt (xs.take i ++ xs.drop i) := by rwa [List.take_append_drop]
  obtain ⟨htake, hdrop, -⟩ := List.isChain_append.1 hparts
  refine List.isChain_append.2 ⟨htake, List.isChain_cons.2 ⟨fun y hy => ?_, hdrop⟩, ?_⟩
  · rw [List.head?_drop] at hy
    exact hasymm x y (hbehind y hy)
  · intro y hy z hz
    obtain rfl := Option.some.inj hz
    rw [List.getLast?_take] at hy
    by_cases hi : i = 0
    · simp [hi] at hy
    · have hget : xs[i - 1]? = some (xs.get ⟨i - 1, by omega⟩) := List.getElem?_eq_getElem (by omega)
      rw [if_neg hi, hget, Option.some_or] at hy
      exact hbefore y hi (hget.trans hy)

/-- Whatever is sorted climbs. -/
theorem climbs_sort (xs : List α) : Climbs lt (sort lt xs) := by
  have hfold (ys : List α) {sorted : List α} (h : Climbs lt sorted) :
      Climbs lt (ys.foldl (insert lt) sorted) := by
    induction ys generalizing sorted with
    | nil => exact h
    | cons y ys ih => exact ih (climbs_insert hasymm h y)
  exact hfold _ (climbs_run hasymm xs)

/-- Sorting again changes nothing, even if there are elements that have no order. -/
theorem sort_sort (xs : List α) : sort lt (sort lt xs) = sort lt xs :=
  sort_of_climbs (climbs_sort hasymm xs)

end Kanban.Sorting
