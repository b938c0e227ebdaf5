import Kanban.Proofs.Decimal.Equality
import Kanban.Proofs.Server.Appends
import Kanban.Proofs.Server.Sending

/-!
# Kanban.Proofs.Server.Foreseen — the position that a client foresees

A client that moves a card reckons the new position among the cards that it shows, and the server
reckons it again among the cards that it has. The client has taken the card out of its column first and
shows cards that ask for attention on top, the server passes over the card and has the others by
position; but a neighbour is named by its id, and so the order of the cards does not matter. If the two
have the same cards at equal positions, and the directive names a position or one of these cards, the
position that the client gave the card for the time being is the one that the server commits.

* `Concur` — a column and a stage with the same cards at equal positions.
* `Placement.Equal`, `Concur.placement` — a directive comes to the same on both.
* `Placement.Equal.place` — and so do the positions that are given.
* `Client.foresees` — what is committed is what the client foresaw.
-/

namespace Kanban

/-! ## The same cards at equal positions -/

/-- Whether a tile stands where a card does: its mark is a number that equals the position. -/
def standsAt (c : Card) (t : Tile) : Bool := t.position.number?.any (c.position == ·)

/-- A column that a client shows and a stage of the server have the same cards, at equal positions,
in whatever order. -/
structure Concur (tiles : List Tile) (cards : List Card) : Prop where
  stored : ∀ t ∈ tiles, ∃ c ∈ cards, c.id = t.id
  shown : ∀ c ∈ cards, ∃ t ∈ tiles, t.id = c.id
  positions : ∀ t ∈ tiles, ∀ c ∈ cards, t.id = c.id → standsAt c t = true

instance (tiles : List Tile) (cards : List Card) : Decidable (Concur tiles cards) :=
  decidable_of_iff ((∀ t ∈ tiles, ∃ c ∈ cards, c.id = t.id) ∧ (∀ c ∈ cards, ∃ t ∈ tiles, t.id = c.id) ∧
      ∀ t ∈ tiles, ∀ c ∈ cards, t.id = c.id → standsAt c t = true)
    ⟨fun h => ⟨h.1, h.2.1, h.2.2⟩, fun h => ⟨h.stored, h.shown, h.positions⟩⟩

theorem standsAt_iff {c : Card} {t : Tile} :
    standsAt c t = true ↔ ∃ x, t.position.number? = some x ∧ (c.position == x) = true :=
  Option.any_eq_true _ _

/-- Equal placements: of the same kind, at equal positions. -/
inductive Placement.Equal : Placement Float → Placement Float → Prop
  | exactly (x : Float) : Equal (.exactly x) (.exactly x)
  | between {x y x' y' : Float} (hx : (x == x') = true) (hy : (y == y') = true) :
    Equal (.between x y) (.between x' y')
  | after {x x' : Float} (h : (x == x') = true) : Equal (.after x) (.after x')
  | before {x x' : Float} (h : (x == x') = true) : Equal (.before x) (.before x')
  | last : Equal .last .last

namespace Concur

variable {tiles : List Tile} {cards : List Card}

theorem ranked (h : Concur tiles cards) : ∀ t ∈ tiles, t.position.number?.isSome := by
  intro t ht
  obtain ⟨c, hc, hid⟩ := h.stored t ht
  obtain ⟨x, hx, -⟩ := standsAt_iff.1 (h.positions t ht c hc hid.symm)
  simp [hx]

/-- A name finds a card on both sides, at equal positions, or on neither. -/
theorem neighbour (h : Concur tiles cards) (id : Option String) :
    Option.Rel (standsAt · ·) (Directive.neighbour cards id) (Directive.neighbour tiles id) := by
  cases id with
  | none => exact .none
  | some i =>
    simp only [Directive.neighbour, Option.bind_some]
    cases hc : cards.find? (·.id == i) with
    | none =>
      -- no card has the id, so no tile has it
      have hnone : tiles.find? (·.id == i) = none := by
        refine List.find?_eq_none.2 fun t ht hid => ?_
        obtain ⟨c, hmem, hci⟩ := h.stored t ht
        exact List.find?_eq_none.1 hc c hmem (hci ▸ hid)
      rw [hnone]
      exact .none
    | some c =>
      have hmem := List.mem_of_find?_eq_some hc
      have hci : c.id = i := by simpa using List.find?_some hc
      cases ht : tiles.find? (·.id == i) with
      | none =>
        obtain ⟨t, htmem, hti⟩ := h.shown c hmem
        exact absurd (by simpa using hti.trans hci) (List.find?_eq_none.1 ht t htmem)
      | some t =>
        have hti : t.id = i := by simpa using List.find?_some ht
        exact .some (h.positions t (List.mem_of_find?_eq_some ht) c hmem (hti.trans hci.symm))

/-- A directive comes to equal placements. -/
theorem placement (h : Concur tiles cards) (d : Directive) {q : Placement Float}
    (hq : Projection.numbers? (d.placement tiles) = some q) : (d.placement cards).Equal q := by
  have hafter := h.neighbour d.after
  have hbefore := h.neighbour d.before
  unfold Directive.placement at hq ⊢
  generalize d.absolute = z at hq ⊢
  cases z with
  | some x =>
    obtain rfl := Option.some.inj hq
    exact .exactly x
  | none =>
    -- each neighbour was found on both sides or on neither
    generalize Directive.neighbour cards d.after = a, Directive.neighbour tiles d.after = a' at *
    generalize Directive.neighbour cards d.before = b, Directive.neighbour tiles d.before = b' at *
    cases hafter with
    | none =>
      cases hbefore with
      | none =>
        obtain rfl := Option.some.inj hq
        exact .last
      | some hb =>
        obtain ⟨y, hy, heq⟩ := standsAt_iff.1 hb
        simp only [Projection.numbers?, hy, Option.map_eq_map, Option.map_some,
          Option.some.injEq] at hq
        exact hq ▸ .before heq
    | some ha =>
      obtain ⟨x, hx, hxeq⟩ := standsAt_iff.1 ha
      cases hbefore with
      | none =>
        simp only [Projection.numbers?, hx, Option.map_eq_map, Option.map_some,
          Option.some.injEq] at hq
        exact hq ▸ .after hxeq
      | some hb =>
        obtain ⟨y, hy, hyeq⟩ := standsAt_iff.1 hb
        simp only [Projection.numbers?, hx, hy, Option.bind_eq_bind, Option.bind_some,
          Option.some.injEq] at hq
        exact hq ▸ .between hxeq hyeq

end Concur

/-- A directive comes to the end iff it names no position and no card that is there. -/
theorem Directive.placement_eq_last_iff {π : Type} {cards : List (CardWith π)} {d : Directive} :
    d.placement cards = .last ↔
      d.absolute = none ∧ neighbour cards d.after = none ∧ neighbour cards d.before = none := by
  unfold placement
  cases d.absolute with
  | some x => simp
  | none => cases neighbour cards d.after <;> cases neighbour cards d.before <;> simp

/-- A directive that names a position or one of the cards does not come to the end. -/
theorem Directive.placement_ne_last {π : Type} {cards : List (CardWith π)} {d : Directive}
    (h : d.absolute.isSome ∨ ∃ c ∈ cards, d.after = some c.id ∨ d.before = some c.id) :
    d.placement cards ≠ .last := by
  intro hlast
  obtain ⟨habsolute, hafter, hbefore⟩ := placement_eq_last_iff.1 hlast
  have hthere (c : CardWith π) (hc : c ∈ cards) : neighbour cards (some c.id) ≠ none :=
    fun hnone => List.find?_eq_none.1 hnone c hc (by simp)
  rcases h with h | ⟨c, hc, ha | hb⟩
  · simp [habsolute] at h
  · exact hthere c hc (ha ▸ hafter)
  · exact hthere c hc (hb ▸ hbefore)

open Decimal in
/-- At equal placements other than the end, sources with the same gap give equal positions, whatever
their clocks, if the position is defined at all. -/
theorem Placement.Equal.place {q q' : Placement Float} (h : q.Equal q') (hq : q ≠ .last)
    {a b : Allocator} (hgap : b.gap = a.gap) (now now' : Float)
    (hdef : (a.place now q).1.isNaN = false) :
    ((a.place now q).1 == (b.place now' q').1) = true := by
  suffices hal : Alike (a.place now q).1 (b.place now' q').1 from hal.beq hdef
  cases h with
  | exactly x => exact .inl rfl
  | between hx hy => exact ((alike_of_beq hx).add (alike_of_beq hy)).div isSolid_two
  | after hx =>
    change Alike (_ + a.gap) (_ + b.gap)
    rw [hgap]
    exact (alike_of_beq hx).add (.inl rfl)
  | before hx =>
    change Alike (_ - a.gap) (_ - b.gap)
    rw [hgap]
    exact (alike_of_beq hx).sub a.gap
  | last => exact absurd rfl hq

/-! ## Both sides of a move -/

/-- The column of a stage with a card left aside: what is there when the card has been taken out. -/
def Projection.columnWithout (card : String) (stage : Key) (p : Projection) : List Tile :=
  match p.locate card with
  | none => p.column stage
  | some place => (p.takeOut place).column stage

/-- The cards of a stage with one card left aside. -/
def Records.cardsWithout (card : String) (board stage : Key) (r : Records) : List Card :=
  (r.cardsIn board stage).filter fun c => c.id ≠ card

/-- A new move is recorded with the position it gives its card. -/
theorem Projection.provisional_track (m : Move) (p : Projection) :
    ∃ l, Entries.get? m.id (p.track m).moves = some l ∧ l.provisional = m.provisional := by
  unfold track
  split
  · exact ⟨m, Entries.get?_put_self _ _ _, rfl⟩
  · -- the origin may be that of the move it replaces
    dsimp only
    split <;> exact ⟨_, Entries.get?_put_self _ _ _, rfl⟩

/-- A client that moves a card among numbers gives it the position that the source has for what the
directive comes to, and records it. -/
theorem Projection.begin_allocated {p : Projection} {card : String} {target : Key}
    (hshown : (p.tile? card).isSome) (hn : target.isName = true)
    (hranked : ∀ t ∈ p.columnWithout card target, t.position.number?.isSome) (now : Float)
    (d : Directive) (a : Allocator) :
    ∃ x, numbers? (d.placement (p.columnWithout card target)) = some x ∧
      ∃ n q b m, p.begin now card target d a = (.ok n, q, b) ∧ Entries.get? n q.moves = some m ∧
        m.provisional = (a.place now x).1 := by
  obtain ⟨t, ht⟩ := Option.isSome_iff_exists.1 hshown
  obtain ⟨⟨k, i⟩, hl, ht⟩ := Option.bind_eq_some_iff.1 ht
  have hcol : p.columnWithout card target = (p.takeOut (k, i)).column target := by
    simp only [columnWithout, hl]
  rw [hcol] at hranked ⊢
  obtain ⟨r, j, x, b, hr, -, haim, hbegin⟩ := begin_eq hl ht hn hranked now d a
  have hopen : r.column target = (p.takeOut (k, i)).column target := by
    rw [hr]
    exact column_open target (p.takeOut (k, i)) target
  obtain ⟨q, hq, haim'⟩ := aim_numbers hranked now d a
  have hx : x = (a.place now q).1 := by
    rw [hopen, haim'] at haim
    simp only [Prod.mk.injEq, Except.ok.injEq] at haim
    exact haim.1.2.symm
  obtain ⟨m, hm, hprovisional⟩ := provisional_track
    { id := p.nextMove, card, fromStage := k, fromIndex := i, fromMark := t.position
      toStage := target, directive := d, provisional := x } (r.putIn target j { t with position := .real x })
  exact ⟨q, hq, _, _, b, m, hbegin, hm, hprovisional.trans hx⟩

/-- A move that is carried out stores the card at a finite position: the one that the source has for
what the directive comes to among the other cards of the stage. -/
theorem Transition.run_allocated {now : Float} {announce : Bool} {account card : String}
    {target board : Key} {d : Directive} {s t : Server} {c : Card}
    (h : run now announce account card target d (some board) s = (.ok c, t)) :
    Decimal.isFinite c.position = true ∧ c.position =
      (s.allocator.place now (d.placement ((s.records account).cardsWithout card board target))).1 := by
  refine ⟨?_, ?_⟩
  · rcases run_outcome now announce account card target board d s with
      ⟨e, u, hrun, -⟩ | ⟨old, x, u, -, -, -, hx, hrun, -⟩
    · rw [hrun] at h
      cases congrArg Prod.fst h
    · rw [hrun] at h
      obtain rfl := Except.ok.inj (congrArg Prod.fst h)
      exact hx
  · cases hland : landing? account card target d (some board) s with
    | none =>
      -- a move that lands nowhere is refused
      have hspec := plan_spec now account card target d (some board) s
      rw [hland] at hspec
      obtain ⟨e, he⟩ := hspec
      unfold run at h
      rw [he] at h
      cases congrArg Prod.fst h
    | some q =>
      rw [← runWith_nil] at h
      rw [position_runWith hland h, eq_of_landing hland]
      rfl

namespace Client

/-- Whatever a client shows and a server holds: if they have the same cards in a stage, one card left
aside, at equal positions, keep the same gap to a single neighbour, and a directive without empty names
names a position or one of these cards, then the position at which a move of that one card to the stage
is committed equals the one that the client gave it when it started the move, whatever the clocks
read. -/
theorem foresees {v : Service} {s : Server} {p : Projection} {a : Allocator}
    {account card target : String} {d : Directive} {now now' : Float} {c : Card}
    (hshown : (p.tile? card).isSome) (hgap : a.gap = s.allocator.gap)
    (hnames : d.after ≠ some "" ∧ d.before ≠ some "")
    (hconcur : Concur (p.columnWithout card target)
      (((Server.use account s).2.records account).cardsWithout card (v.boardOf p.board) target))
    (hnamed : d.absolute.isSome ∨
      ∃ e ∈ ((Server.use account s).2.records account).cardsWithout card (v.boardOf p.board) target,
        d.after = some e.id ∨ d.before = some e.id)
    (hsent : (sendTo v now' account p.board card target d s).1 = .ok (Moved.toPayload c)) :
    ∃ n q b m, p.begin now card target d a = (.ok n, q, b) ∧ Entries.get? n q.moves = some m ∧
      (c.position == m.provisional) = true := by
  obtain ⟨e, t, hrun, he⟩ := sendTo_committed hsent
  rw [Directive.received_eq hnames.1 hnames.2] at hrun
  obtain ⟨hfinite, hplaced⟩ := Transition.run_allocated hrun
  obtain ⟨x, hx, n, q, b, m, hbegin, hm, hprovisional⟩ :=
    Projection.begin_allocated hshown (Value.isName_text target) hconcur.ranked now d a
  refine ⟨n, q, b, m, hbegin, hm, ?_⟩
  have hplace := (hconcur.placement d hx).place (Directive.placement_ne_last hnamed) hgap now' now
    (hplaced ▸ Decimal.isNaN_of_isFinite hfinite)
  rw [← he, hprovisional, hplaced]
  exact hplace

/-- A board with two cards in one stage, the later of which asks for attention, and one in another. -/
def desk : Server :=
  Act.runAll [.work "acme" (.seed "sales"), .work "acme" (.addCard ⟨"1", "sales", "new", 1000.0, 0, []⟩),
    .work "acme" (.addCard ⟨"2", "sales", "qualified", 1000.0, 0, []⟩),
    .work "acme" (.addCard ⟨"3", "sales", "qualified", 2000.0, 4, []⟩)] (Server.blank none)

/-- The board as a client reads it. -/
def view : Projection :=
  match (readFrom {} "acme" "sales" desk).1 with
  | .ok v => (Projection.applyRefresh v {}).2
  | .error _ => {}

/-- Where the first card is dragged to: between the other two. -/
def dragged : Directive := { after := some "2", before := some "3" }

/-- It is stored half way, as foreseen. -/
theorem foresees_between :
    (sendTo {} 0.0 "acme" view.board "1" "qualified" dragged desk).1 =
        .ok (Moved.toPayload ⟨"1", "sales", "qualified", 1500.0, 0, []⟩) ∧
      ∃ n q b m, view.begin 5.0 "1" "qualified" dragged {} = (.ok n, q, b) ∧
        Entries.get? n q.moves = some m ∧ ((1500.0 : Float) == m.provisional) = true := by
  have hsent : (sendTo {} 0.0 "acme" view.board "1" "qualified" dragged desk).1 =
      .ok (Moved.toPayload ⟨"1", "sales", "qualified", 1500.0, 0, []⟩) := by decide +kernel
  have hshown : (view.tile? "1").isSome := by decide +kernel
  have hgap : ({} : Allocator).gap = desk.allocator.gap := by decide +kernel
  have hnames : dragged.after ≠ some "" ∧ dragged.before ≠ some "" := by decide
  have hconcur : Concur (view.columnWithout "1" "qualified")
      (((Server.use "acme" desk).2.records "acme").cardsWithout "1"
        (Service.boardOf {} view.board) "qualified") := by decide +kernel
  have hnamed : dragged.absolute.isSome ∨
      ∃ e ∈ ((Server.use "acme" desk).2.records "acme").cardsWithout "1"
          (Service.boardOf {} view.board) "qualified",
        dragged.after = some e.id ∨ dragged.before = some e.id := by decide +kernel
  exact ⟨hsent, @foresees {} desk view {} "acme" "1" "qualified" dragged 5.0 0.0
    ⟨"1", "sales", "qualified", 1500.0, 0, []⟩ hshown hgap hnames hconcur hnamed hsent⟩

end Client

end Kanban
