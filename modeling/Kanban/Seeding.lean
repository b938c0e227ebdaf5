import Kanban.Repository

/-!
# Kanban.Seeding — boards to try things out on

A board is seeded with the default stages, if it has none, and with sample cards in its first
stage. The numbers from one on are tried one after the other, and each that names no card of the
account becomes the id of a sample card.

* `unmet_lt` — a number that is passed over is never met again, so that the search ends.
-/

namespace Kanban.Seeding

/-- A sample card. -/
def sample (board stage : Key) (id : String) : Card :=
  { id, board, stage, position := Card.defaultPosition id }

/-! ## Searching for ids -/

/-- The ids of cards that a search which has come to a number may still meet. -/
def unmet (i : Nat) (r : Records) : List String :=
  (Entries.keys r.cards).filter fun id => decide (∀ k < i, toString k ≠ id)

/-- A number that is passed over is not met again. -/
theorem unmet_lt {i : Nat} {r : Records} (h : (r.card? (toString i)).isSome) :
    (unmet (i + 1) r).length < (unmet i r).length := by
  have hsucc : unmet (i + 1) r = (unmet i r).filter fun id => decide (toString i ≠ id) := by
    unfold unmet
    rw [List.filter_filter]
    refine List.filter_congr fun id _ => ?_
    rw [← Bool.decide_and, decide_eq_decide]
    constructor
    · exact fun hall => ⟨hall i (Nat.lt_succ_self i), fun k hk => hall k (Nat.lt_succ_of_lt hk)⟩
    · rintro ⟨hi, hall⟩ k hk
      rcases Nat.lt_succ_iff_lt_or_eq.1 hk with hk | rfl
      · exact hall k hk
      · exact hi
  rw [hsucc, List.length_filter_lt_length_iff_exists]
  obtain ⟨c, hc⟩ := Option.isSome_iff_exists.1 h
  refine ⟨toString i, List.mem_filter.2 ⟨Entries.mem_keys_of_get? hc, ?_⟩, by simp⟩
  simpa using fun k hk heq => Nat.ne_of_lt hk (Decimal.Numeral.toString_inj heq)

/-- Store `n` sample cards under the first numbers from `i` on that name no card. -/
def fill (account : String) (board stage : Key) (n i : Nat) (s : Storage) :
    Except Failure (List Card) × Storage :=
  match n with
  | 0 => (.ok [], s)
  | n + 1 =>
    -- a number that is too long to be read is not written either
    if Decimal.Numeral.maxDigits < (toString i).length then (.error (.unreadable .malformed), s)
    else if h : ((s.records account).card? (toString i)).isSome then
      fill account board stage (n + 1) (i + 1) s
    else
      match Storage.addCard account (sample board stage (toString i)) s with
      | (.error e, s) => (.error e, s)
      | (.ok c, s) =>
        match fill account board stage n (i + 1) s with
        | (.error e, s) => (.error e, s)
        | (.ok cards, s) => (.ok (c :: cards), s)
termination_by (n, (unmet i (s.records account)).length)
decreasing_by
  · exact Prod.Lex.right _ (unmet_lt h)
  · exact Prod.Lex.left _ _ (Nat.lt_succ_self n)

/-! ## Seeding -/

/-- The stages of a seeded board and the cards that were added. -/
structure Seeded where
  stages : List Stage
  cards : List Card

/-- Seed a board with its stages and `n` sample cards. -/
def run (account : String) (board : Key) (n : Nat) : Storage.Op Seeded := do
  let stages ← Storage.seed account board
  match stages with
  | [] => return { stages, cards := [] }
  | first :: _ => return { stages, cards := ← fill account board first.key n 1 }

end Kanban.Seeding
