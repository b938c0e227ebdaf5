import Kanban.Proofs.Decimal.Values
import Kanban.Proofs.Projection.Provisional

/-!
# Kanban.Proofs.Allocating — appends keep apart whatever the clock does

The calls on an allocator that find nothing to go by fall back to the clock, and the allocator
remembers the greatest position that it gave for one. A clock that has not got beyond it adds one
instead, so its memory is never further ahead of the clock readings than one for each of its appends,
and stays where adding one to a float makes it greater.

* `Call.run_cases` — a call falls back to the clock, or leaves the memory alone.
* `Remembers`, `remembers_append` — what the memory is, and that an append keeps it so.
* `appended_eq` — only the clock readings of the appends matter for their positions.
* `appended_increase` — the positions of appends increase, and follow the clock where they can.
-/

namespace Kanban.Allocator

open Decimal (isFinite value)

/-! ## Calls -/

/-- A call on an allocator. -/
inductive Call where
  /-- A position for the end of a stage. -/
  | fallback (now : Float)
  /-- A position for what a directive comes to among cards. -/
  | allocate (now : Float) (cards : List Card) (d : Directive)

namespace Call

/-- The position that a call returns, and the allocator after it. -/
def run : Call → Allocator → Float × Allocator
  | .fallback now, a => a.append now
  | .allocate now cards d, a => a.allocate now cards d

/-- The clock reading that a call takes, if it resolves to no position. -/
def reading? : Call → Option Float
  | .fallback now => some now
  | .allocate now cards d => if d.placement cards = .last then some now else none

/-- A call falls back to the clock, or leaves the allocator as it was. -/
theorem run_cases (c : Call) (a : Allocator) :
    (∃ now, c.reading? = some now ∧ c.run a = a.append now) ∨
      c.reading? = none ∧ (c.run a).2 = a := by
  cases c with
  | fallback now => exact .inl ⟨now, rfl, rfl⟩
  | allocate now cards d =>
    by_cases hlast : d.placement cards = .last
    · refine .inl ⟨now, if_pos hlast, ?_⟩
      change a.place now (d.placement cards) = a.append now
      rw [hlast]
      rfl
    · exact .inr ⟨if_neg hlast, last_place hlast a⟩

end Call

/-- An allocator after some calls. -/
def runAll (calls : List Call) (a : Allocator) : Allocator :=
  calls.foldl (fun a c => (c.run a).2) a

/-- The positions that the calls returned which fell back to the clock. -/
def appended : List Call → Allocator → List Float
  | [], _ => []
  | c :: calls, a =>
    if c.reading?.isSome then (c.run a).1 :: appended calls (c.run a).2
    else appended calls (c.run a).2

/-- The first of some calls appends, or makes no difference to the others. -/
theorem appended_cons (c : Call) (calls : List Call) (a : Allocator) :
    (∃ now, c.reading? = some now ∧
      appended (c :: calls) a = (a.append now).1 :: appended calls (a.append now).2 ∧
      runAll (c :: calls) a = runAll calls (a.append now).2) ∨
    c.reading? = none ∧ appended (c :: calls) a = appended calls a ∧
      runAll (c :: calls) a = runAll calls a := by
  have hall : runAll (c :: calls) a = runAll calls (c.run a).2 := rfl
  have happended : appended (c :: calls) a = if c.reading?.isSome then
      (c.run a).1 :: appended calls (c.run a).2 else appended calls (c.run a).2 := rfl
  rw [hall, happended]
  rcases c.run_cases a with ⟨now, hreading, hrun⟩ | ⟨hreading, hrun⟩
  · rw [hreading, hrun]
    exact .inl ⟨now, rfl, rfl, rfl⟩
  · rw [hreading, hrun]
    exact .inr ⟨rfl, rfl, rfl⟩

/-- Only the clock readings of the calls that fall back matter for the positions that these return. -/
theorem appended_eq (calls : List Call) (a : Allocator) :
    appended calls a = appended ((calls.filterMap Call.reading?).map .fallback) a := by
  induction calls generalizing a with
  | nil => rfl
  | cons c calls ih =>
    rcases appended_cons c calls a with ⟨now, hreading, hcons, -⟩ | ⟨hreading, hcons, -⟩
    · rw [hcons, ih, List.filterMap_cons_some hreading]
      rfl
    · rw [hcons, ih, List.filterMap_cons_none hreading]

/-! ## The memory -/

/-- A clock reading whose milliseconds are well within what a mantissa holds. -/
def Readable (now : Float) : Prop := isFinite now = true ∧ |1000 * value now| < 2 ^ 52

/-- What an allocator remembers after some appends: nothing if there was none, and else the greatest
position, which is at most one for each append ahead of all clock readings. -/
structure Remembers (earlier : List Float) (a : Allocator) : Prop where
  none : earlier = [] → a.last = -1.0 / 0.0
  some : earlier ≠ [] → a.last ∈ earlier ∧ isFinite a.last = true ∧ -2 ^ 52 ≤ value a.last ∧
    value a.last ≤ (2 ^ 52 + earlier.length : Int)
  greatest : ∀ x ∈ earlier, x ≤ a.last

variable {earlier : List Float} {a : Allocator} {now gap : Float} {calls : List Call}

theorem remembers_new : Remembers [] { gap } where
  none _ := rfl
  some h := absurd rfl h
  greatest := nofun

theorem Remembers.isNaN_last (h : Remembers earlier a) : a.last.isNaN = false := by
  by_cases hnil : earlier = []
  · rw [h.none hnil]
    decide +kernel
  · exact Decimal.isNaN_of_isFinite (h.some hnil).2.1

/-- A position that is ahead of all earlier ones is ahead of the memory. -/
theorem Remembers.lt {x : Float} (h : Remembers earlier a) (hx : isFinite x = true)
    (hahead : ∀ y ∈ earlier, y < x) : a.last < x := by
  by_cases hnil : earlier = []
  · rw [h.none hnil]
    exact Decimal.infinity_lt hx
  · exact hahead _ (h.some hnil).1

theorem isFinite_time (hnow : Readable now) : isFinite (now * 1000.0) = true ∧
    -2 ^ 52 ≤ value (now * 1000.0) ∧ value (now * 1000.0) ≤ 2 ^ 52 := by
  obtain ⟨hfinite, hwithin⟩ := Decimal.mul_thousand_within (z := 2 ^ 52) hnow.1 (by decide)
    (by exact_mod_cast hnow.2.le)
  have hbounds := abs_le.1 hwithin
  exact ⟨hfinite, by exact_mod_cast hbounds.1, by exact_mod_cast hbounds.2⟩

/-- An append is at the time if that is ahead of all earlier ones. -/
theorem append_time (h : Remembers earlier a) (hnow : Readable now)
    (hahead : ∀ x ∈ earlier, x < now * 1000.0) : (a.append now).1 = now * 1000.0 := by
  have hfinite := (isFinite_time hnow).1
  have hnot := (Decimal.lt_iff_not_le h.isNaN_last (Decimal.isNaN_of_isFinite hfinite)).1
    (h.lt hfinite hahead)
  unfold append
  exact if_neg hnot

/-- An append is ahead of all earlier ones, and is remembered. -/
theorem remembers_append (h : Remembers earlier a) (hnow : Readable now)
    (hfew : earlier.length < 2 ^ 52) :
    (∀ x ∈ earlier, x < (a.append now).1) ∧
      Remembers (earlier ++ [(a.append now).1]) (a.append now).2 := by
  obtain ⟨hfinite, htimelow, htimehigh⟩ := isFinite_time hnow
  -- what the new position is has to be known in either case
  suffices hnew : a.last < (a.append now).1 ∧ isFinite (a.append now).1 = true ∧
      -2 ^ 52 ≤ value (a.append now).1 ∧
      value (a.append now).1 ≤ (2 ^ 52 + (earlier.length + 1 : Nat) : Int) by
    obtain ⟨hlt, hnew, hlow, hhigh⟩ := hnew
    refine ⟨fun x hx => Decimal.lt_of_le_lt (h.greatest x hx) hlt, ?_, fun _ => ?_, ?_⟩
    · exact fun hnil => absurd hnil (by simp)
    · rw [List.length_append, List.length_singleton]
      exact ⟨List.mem_append_right _ (List.mem_singleton_self _), hnew, hlow, hhigh⟩
    · intro x hx
      rcases List.mem_append.1 hx with hx | hx
      · exact Decimal.le_of_lt_float (Decimal.lt_of_le_lt (h.greatest x hx) hlt)
      · rw [List.mem_singleton.1 hx]
        exact Decimal.le_self (Decimal.isNaN_of_isFinite hnew)
  by_cases hle : now * 1000.0 ≤ a.last
  · -- the clock has not got beyond the memory, so that is not empty
    have hval : (a.append now).1 = a.last + 1.0 := if_pos hle
    have hnil : earlier ≠ [] := fun hnil => by
      have hlt := Decimal.infinity_lt hfinite
      rw [← h.none hnil] at hlt
      exact (Decimal.lt_iff_not_le h.isNaN_last (Decimal.isNaN_of_isFinite hfinite)).1 hlt hle
    obtain ⟨-, hlast, hlow, hhigh⟩ := h.some hnil
    have hlow' : -2 ^ 53 ≤ value a.last := by linarith
    have hfew' : (2 ^ 52 + earlier.length : Int) < 2 ^ 53 := by omega
    obtain ⟨hsum, hnext⟩ := Decimal.add_one_le hlast hlow' hhigh hfew'
    have hlt : a.last < a.last + 1.0 :=
      Decimal.lt_add_one hlast hlow' (hhigh.trans_lt (by exact_mod_cast hfew'))
    have habove := (Decimal.lt_iff_value hlast hsum).1 hlt
    rw [hval]
    refine ⟨hlt, hsum, by linarith, ?_⟩
    push_cast at hnext ⊢
    linarith
  · have hval : (a.append now).1 = now * 1000.0 := if_neg hle
    rw [hval]
    refine ⟨(Decimal.lt_iff_not_le h.isNaN_last (Decimal.isNaN_of_isFinite hfinite)).2 hle, hfinite,
      htimelow, ?_⟩
    push_cast
    have hcount : (0 : ℚ) ≤ earlier.length := Nat.cast_nonneg _
    linarith

/-! ## Runs -/

/-- Whatever was called, the positions of appends increase and the greatest is remembered. -/
theorem remembers_runAll (h : Remembers earlier a) (hsorted : earlier.Pairwise (· < ·))
    (hclock : ∀ c ∈ calls, ∀ now ∈ c.reading?, Readable now)
    (hfew : earlier.length + calls.length < 2 ^ 52) :
    (earlier ++ appended calls a).Pairwise (· < ·) ∧
      Remembers (earlier ++ appended calls a) (runAll calls a) := by
  induction calls generalizing earlier a with
  | nil => simpa [appended, runAll] using ⟨hsorted, h⟩
  | cons c calls ih =>
    have hlater : ∀ d ∈ calls, ∀ now ∈ d.reading?, Readable now :=
      fun d hd => hclock d (List.mem_cons_of_mem c hd)
    rw [List.length_cons] at hfew
    rcases appended_cons c calls a with ⟨now, hreading, hcons, hrun⟩ | ⟨-, hcons, hrun⟩
    · obtain ⟨habove, hnext⟩ := remembers_append h (hclock c List.mem_cons_self now hreading)
        (by omega)
      have hsorted' : (earlier ++ [(a.append now).1]).Pairwise (· < ·) :=
        List.pairwise_append.2 ⟨hsorted, List.pairwise_singleton _ _, fun x hx y hy => by
          rw [List.mem_singleton.1 hy]
          exact habove x hx⟩
      have hrest := ih hnext hsorted' hlater (by
        rw [List.length_append, List.length_singleton]
        omega)
      rw [List.append_assoc] at hrest
      rw [hcons, hrun]
      exact hrest
    · rw [hcons, hrun]
      exact ih h hsorted hlater (by omega)

/-- Whatever calls a new allocator gets and however its clock stalls or steps back, its appends have
increasing positions, each is at the time if that is ahead of all earlier ones, and the calls that find
a position to go by make no difference to them. -/
theorem appended_increase (gap : Float) (calls : List Call)
    (hclock : ∀ c ∈ calls, ∀ now ∈ c.reading?, Readable now) (hfew : calls.length < 2 ^ 52) :
    (appended calls { gap }).Pairwise (· < ·) ∧
      (∀ before c after now, calls = before ++ c :: after → c.reading? = some now →
        (∀ x ∈ appended before { gap }, x < now * 1000.0) →
        (c.run (runAll before { gap })).1 = now * 1000.0) ∧
      appended calls { gap } =
        appended ((calls.filterMap Call.reading?).map .fallback) { gap } := by
  refine ⟨?_, ?_, appended_eq calls _⟩
  · simpa using (remembers_runAll remembers_new List.Pairwise.nil hclock (by simpa using hfew)).1
  · rintro before c after now rfl hreading hahead
    have hmem : c ∈ before ++ c :: after := List.mem_append_right _ List.mem_cons_self
    have hnew : Remembers [] { gap } := remembers_new
    have hclock' : ∀ d ∈ before, ∀ now ∈ d.reading?, Readable now := fun d hd =>
      hclock d (List.mem_append_left _ hd)
    have hbefore := (remembers_runAll hnew List.Pairwise.nil hclock' (by
      rw [List.length_append] at hfew
      rw [List.length_nil]
      omega)).2
    rcases c.run_cases (runAll before { gap }) with ⟨now', hreading', hrun⟩ | ⟨hreading', -⟩
    · obtain rfl : now = now' := Option.some.inj (hreading.symm.trans hreading')
      rw [hrun]
      exact append_time hbefore (hclock c hmem now hreading) hahead
    · rw [hreading] at hreading'
      cases hreading'

/-- A clock that steps back by a minute after the first append, and gets half a second further then. -/
def unsteady : List Call :=
  [.fallback 1700000000.0, .allocate 1699999940.0 [⟨"1", "sales", "new", 2.0, 0, []⟩] {},
    .allocate 1699999940.0 [⟨"1", "sales", "new", 2.0, 0, []⟩] { before := some "1" },
    .fallback 1700000000.5]

/-- A clock reading between whole numbers is as readable as they are. -/
theorem readable_of_between {m n : Nat} (hm : 0 < m) (hmn : m ≤ n) (hn : 1000 * n < 2 ^ 52)
    (hnow : isFinite now = true) (hlow : m.toUInt64.toFloat ≤ now)
    (hhigh : now ≤ n.toUInt64.toFloat) : Readable now := by
  obtain ⟨hfirst, hvaluem⟩ := (Decimal.exact_toFloat hm (by omega)).finite
  obtain ⟨hsecond, hvaluen⟩ := (Decimal.exact_toFloat (hm.trans_le hmn) (by omega)).finite
  have hge := (Decimal.le_iff_value hfirst hnow).1 hlow
  have hle := (Decimal.le_iff_value hnow hsecond).1 hhigh
  rw [hvaluem] at hge
  rw [hvaluen] at hle
  have hpos : (0 : ℚ) < m := by exact_mod_cast hm
  have hmost : (1000 : ℚ) * n < 2 ^ 52 := by exact_mod_cast hn
  exact ⟨hnow, abs_lt.2 ⟨by linarith, by linarith⟩⟩

theorem readable_unsteady : ∀ c ∈ unsteady, ∀ now ∈ c.reading?, Readable now := by
  have hbetween : ∀ c ∈ unsteady, ∀ now ∈ c.reading?, isFinite now = true ∧
      (1 : Nat).toUInt64.toFloat ≤ now ∧ now ≤ (2000000000 : Nat).toUInt64.toFloat := by
    decide +kernel
  intro c hc now hnow
  obtain ⟨hfinite, hlow, hhigh⟩ := hbetween c hc now hnow
  exact readable_of_between (by decide) (by decide) (by decide) hfinite hlow hhigh

/-- The second append is one after the first, and the third is at the time. -/
theorem appended_unsteady :
    (appended unsteady {}).Pairwise (· < ·) ∧
      appended unsteady {} = [1700000000000.0, 1700000000001.0, 1700000000500.0] :=
  ⟨(appended_increase defaultGap unsteady readable_unsteady (by decide)).1, by decide +kernel⟩

end Kanban.Allocator
