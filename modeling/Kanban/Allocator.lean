import Kanban.Directive

/-!
# Kanban.Allocator — choosing positions

A position is chosen from what a directive comes to: the exact position, the middle of two
neighbours, a gap after or before one, or, for the end of the stage, the time in
milliseconds. The only memory is the last of those times, which keeps appended cards apart
when the clock stands still or steps back.

* `last_place` — only an append changes the memory.
-/

namespace Kanban

/-- The source of new positions. -/
structure Allocator where
  /-- The gap to a single neighbour. -/
  gap : Float := defaultGap
  /-- The last position given to an append. -/
  last : Float := -1.0 / 0.0

namespace Allocator

/-- The position of an append at a clock reading in seconds: later than all appends before it. -/
def append (now : Float) (a : Allocator) : Float × Allocator :=
  let ms := now * 1000.0
  let x := if ms ≤ a.last then a.last + 1.0 else ms
  (x, { a with last := x })

/-- The position for a placement. -/
def place (now : Float) (p : Placement Float) (a : Allocator) : Float × Allocator :=
  match p with
  | .exactly x => (x, a)
  | .between low high => ((low + high) / 2.0, a)
  | .after x => (x + a.gap, a)
  | .before x => (x - a.gap, a)
  | .last => a.append now

/-- The position for a card that lands among others as the directive says. -/
def allocate (now : Float) (cards : List Card) (d : Directive) (a : Allocator) :
    Float × Allocator :=
  a.place now (d.placement cards)

theorem last_place {now : Float} {p : Placement Float} (h : p ≠ .last) (a : Allocator) :
    (a.place now p).2 = a := by
  cases p <;> simp_all [place]

end Allocator

end Kanban
