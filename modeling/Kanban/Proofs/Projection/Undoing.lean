import Kanban.Proofs.Projection.Regular
import Kanban.Proofs.Projection.Shape

/-!
# Kanban.Proofs.Projection.Undoing — what failed moves leave behind

A card is moved over and over, and then all the moves fail, in any order. Columns lose the card, get it
at an index and are put in order, and in the end each column is what it was: the other cards of a column
that is in order keep their order whatever is put in among them, the moves of the card pass on where it
came from, and only the newest of them takes it back.

* `Among` — the columns of a view with one card taken from its place and put in elsewhere.
* `among_begin`, `columns_restore` — moving the card on, and taking it back.
* `home_run` — moves of the card fail, in any order.
* `columns_undone` — all moves have failed.
-/

namespace Kanban

namespace Projection

variable {p q : Projection} {card : String}

/-! ## Single columns -/

/-- The tiles of a card among some tiles. -/
def own (card : String) (ts : List Tile) : List Tile := ts.filter (·.id = card)

/-- The tiles of the other cards. -/
def rest (card : String) (ts : List Tile) : List Tile := ts.filter (·.id ≠ card)

theorem own_rest (card : String) (ts : List Tile) : own card (rest card ts) = [] := by
  simp [own, rest]

theorem rest_of_own {ts : List Tile} (h : own card ts = []) : rest card ts = ts := by
  simpa [own, rest] using h

theorem mem_own {ts : List Tile} {t : Tile} : t ∈ own card ts ↔ t ∈ ts ∧ t.id = card := by
  simp [own]

theorem own_middle {u : Tile} (hid : u.id = card) (before behind : List Tile) :
    own card (before ++ u :: behind) = own card before ++ u :: own card behind := by
  simp [own, hid]

theorem rest_middle {u : Tile} (hid : u.id = card) (before behind : List Tile) :
    rest card (before ++ u :: behind) = rest card before ++ rest card behind := by
  simp [rest, hid]

/-- A column that holds one tile of a card, as what is before it, the tile and what is behind it. -/
theorem split_of_own {ts : List Tile} {i : Nat} {t u : Tile} (ht : ts[i]? = some t)
    (hid : t.id = card) (hown : own card ts = [u]) :
    t = u ∧ ∃ before behind, ts = before ++ t :: behind ∧ before.length = i ∧
      own card before = [] ∧ own card behind = [] ∧ rest card ts = before ++ behind := by
  obtain ⟨hi, hti⟩ := List.getElem?_eq_some_iff.1 ht
  have hts : ts = ts.take i ++ t :: ts.drop (i + 1) := by
    rw [← hti]
    simp
  have htu : t = u := by
    have hmem : t ∈ own card ts := mem_own.2 ⟨hti ▸ List.getElem_mem hi, hid⟩
    rw [hown] at hmem
    exact List.mem_singleton.1 hmem
  -- there is no room for another tile of the card
  have hlen : (own card (ts.take i) ++ t :: own card (ts.drop (i + 1))).length = 1 := by
    rw [← own_middle hid, ← hts, hown]
    rfl
  rw [List.length_append, List.length_cons] at hlen
  have hbefore : own card (ts.take i) = [] := List.length_eq_zero_iff.1 (by omega)
  have hbehind : own card (ts.drop (i + 1)) = [] := List.length_eq_zero_iff.1 (by omega)
  refine ⟨htu, ts.take i, ts.drop (i + 1), hts, List.length_take_of_le hi.le, hbefore, hbehind, ?_⟩
  calc rest card ts = rest card (ts.take i ++ t :: ts.drop (i + 1)) := by rw [← hts]
    _ = rest card (ts.take i) ++ rest card (ts.drop (i + 1)) := rest_middle hid _ _
    _ = ts.take i ++ ts.drop (i + 1) := by rw [rest_of_own hbefore, rest_of_own hbehind]

theorem insertIdx_length_append (before behind : List Tile) (t : Tile) :
    (before ++ behind).insertIdx before.length t = before ++ t :: behind := by
  induction before with
  | nil => rfl
  | cons u before ih => simp [ih]

/-- A tile of a card is put into a column that is in order and holds none of the card, and the column is
put in order. -/
theorem own_rest_arrange {ts : List Tile} (hd : ∀ t ∈ ts, t.position.Definite)
    (ho : ts.Pairwise Precedes) (hown : own card ts = []) {t : Tile} (hid : t.id = card)
    (ht : t.position.Definite) {j : Nat} (hj : j ≤ ts.length) :
    rest card (arrange (ts.insertIdx j t)) = ts ∧ own card (arrange (ts.insertIdx j t)) = [t] := by
  have hperm : (arrange (ts.insertIdx j t)).Perm (t :: ts) :=
    (arrange_perm _).trans (List.perm_insertIdx t ts hj)
  have hdef : ∀ u ∈ ts.insertIdx j t, u.position.Definite := by
    intro u hu
    rcases List.eq_or_mem_of_mem_insertIdx hu with rfl | hu
    · exact ht
    · exact hd u hu
  have hsub : ts.Sublist (arrange (ts.insertIdx j t)) :=
    sublist_arrange hdef (List.sublist_insertIdx ts j t) ho
  constructor
  · -- the others are there in their order, and there are no more of them
    have hrest : ts.Sublist (rest card (arrange (ts.insertIdx j t))) := by
      have hfilter := hsub.filter (fun u : Tile => u.id ≠ card)
      rwa [show ts.filter (fun u : Tile => u.id ≠ card) = ts from rest_of_own hown] at hfilter
    refine (hrest.eq_of_length ?_).symm
    have hcount := (hperm.filter (fun u : Tile => u.id ≠ card)).length_eq
    have hts : (ts.filter fun u : Tile => u.id ≠ card) = ts := rest_of_own hown
    rw [List.filter_cons_of_neg (by simpa using hid), hts] at hcount
    exact hcount.symm
  · have hfilter := hperm.filter (fun u : Tile => u.id = card)
    have hts : (ts.filter fun u : Tile => u.id = card) = [] := hown
    rw [List.filter_cons_of_pos (by simpa using hid), hts] at hfilter
    exact List.perm_singleton.1 hfilter

/-! ## A card among columns -/

/-- The columns of a view, with one card taken from where it was and put in as a tile of a column. -/
structure Among (card : String) (p : Projection) (s : Key) (u : Tile) (q : Projection) : Prop where
  rest : ∀ k, rest card (q.column k) = rest card (p.column k)
  own : ∀ k, own card (q.column k) = if k = s then [u] else []

theorem Among.congr {s : Key} {u : Tile} {r : Projection} (h : Among card p s u q)
    (hc : r.columns = q.columns) : Among card p s u r where
  rest := fun k => by rw [column, hc]; exact h.rest k
  own := fun k => by rw [column, hc]; exact h.own k

theorem Among.id {s : Key} {u : Tile} (h : Among card p s u q) : u.id = card := by
  have hmem : u ∈ Projection.own card (q.column s) := by rw [h.own, if_pos rfl]; simp
  exact (mem_own.1 hmem).2

/-- A card that is listed once is in one column, and there it is one tile. -/
theorem among_self (hk : p.keys.Nodup) (hids : (p.tiles.map (·.id)).Nodup) {k : Key} {i : Nat}
    {t : Tile} (ht : p.tileAt (k, i) = some t) (hid : t.id = card) : Among card p k t p where
  rest := fun _ => rfl
  own := by
    have hmem : t ∈ Projection.own card (p.column k) :=
      mem_own.2 ⟨List.mem_of_getElem? ht, hid⟩
    have hperm := spots_perm hk k card
    have hspot : (k, t.position) ∈ p.spots card :=
      hperm.mem_iff.2 (List.mem_append_left _ (List.mem_map_of_mem (List.mem_map_of_mem hmem)))
    -- the card is shown in one place, and that is this one
    have hone : p.spots card = [(k, t.position)] := by
      have hle := spots_le_one hids card
      have hpos := List.length_pos_of_mem hspot
      rcases List.length_eq_one_iff.1 (show (p.spots card).length = 1 by omega) with ⟨z, hz⟩
      rw [hz, List.mem_singleton] at hspot
      rw [hz, hspot]
    intro k'
    split
    · rename_i hk'
      have hlen := hperm.length_eq
      rw [hone, List.length_append, List.length_map, List.length_singleton] at hlen
      have hpos := List.length_pos_of_mem hmem
      have hmarks : (marks card (p.column k)).length = (Projection.own card (p.column k)).length :=
        List.length_map _
      rcases List.length_eq_one_iff.1
        (show (Projection.own card (p.column k)).length = 1 by omega) with ⟨u, hu⟩
      rw [hu, List.mem_singleton] at hmem
      rw [hk', hu, hmem]
    · rename_i hk'
      exact List.map_eq_nil_iff.1 (marks_of_alone hk hone hk')

/-- Where the card is, and what is left when it is taken out. -/
theorem Among.takeOut (hk : q.keys.Nodup) {s : Key} {u : Tile} (h : Among card p s u q) :
    ∃ i, q.locate card = some (s, i) ∧ q.tileAt (s, i) = some u ∧
      ∀ k, (q.takeOut (s, i)).column k = Projection.rest card (p.column k) := by
  cases hl : q.locate card with
  | none =>
    have hmem : u ∈ Projection.own card (q.column s) := by rw [h.own, if_pos rfl]; simp
    exact absurd h.id (locate_eq_none_iff.1 hl u (mem_tiles_of_column (mem_own.1 hmem).1))
  | some loc =>
    obtain ⟨k, i⟩ := loc
    obtain ⟨t, ht, hid⟩ := tileAt_locate hk hl
    have hmem : t ∈ Projection.own card (q.column k) := mem_own.2 ⟨List.mem_of_getElem? ht, hid⟩
    obtain rfl : k = s := by
      by_contra hne
      rw [h.own, if_neg hne] at hmem
      simp at hmem
    have hown := h.own k
    rw [if_pos rfl] at hown
    obtain ⟨rfl, before, behind, hts, rfl, -, -, hrest⟩ := split_of_own ht hid hown
    refine ⟨before.length, rfl, ht, fun k' => ?_⟩
    rw [column_takeOut]
    split
    · rename_i hk'
      rw [hk', ← h.rest, hrest, hts]
      simp [List.eraseIdx_append_of_length_le]
    · rename_i hk'
      rw [← h.rest, rest_of_own]
      rw [h.own, if_neg hk']

/-- The card is put into a column. -/
theorem among_putIn (ho : p.Ordered) (hd : p.Definite)
    (hq : ∀ k, q.column k = Projection.rest card (p.column k)) {stage : Key} {j : Nat} {t : Tile}
    (hid : t.id = card) (ht : t.position.Definite) (hj : j ≤ (q.column stage).length) :
    Among card p stage { t with stage } (q.putIn stage j t) := by
  have hsub : (Projection.rest card (p.column stage)).Sublist (p.column stage) :=
    List.filter_sublist
  have hdef : ∀ u ∈ Projection.rest card (p.column stage), u.position.Definite := fun u hu =>
    Each.column hd ⟨by simp, fun hs h t ht => h t (hs.subset ht)⟩ stage u (hsub.subset hu)
  have hord : (Projection.rest card (p.column stage)).Pairwise Precedes :=
    (Each.column ho hereditary_pairwise stage).sublist hsub
  rw [hq] at hj
  obtain ⟨hrest, hown⟩ := own_rest_arrange hdef hord (own_rest card _)
    (t := { t with stage }) hid ht hj
  constructor
  · intro k
    rw [column_putIn]
    split
    · rename_i hk
      rw [hq, hrest, hk]
    · rw [hq, rest_of_own (own_rest card _)]
  · intro k
    rw [column_putIn]
    split
    · rw [hq, hown]
    · rw [hq, own_rest]

/-! ## Moving the card on -/

/-- The card is moved on: it is put in as a tile of the target, and the new move goes back to where the
card was, or to where its live move would go back to. -/
theorem among_begin (hq : q.Regular) (ho : p.Ordered) (hd : p.Definite) {s : Key} {u : Tile}
    (h : Among card p s u q) (now : Float) (target : String) (d : Directive) (a : Allocator) :
    ∃ i m r, q.locate card = some (s, i) ∧ q.tileAt (s, i) = some u ∧ q.Fresh m ∧ m.card = card ∧
      m.fromStage = s ∧ m.fromIndex = i ∧ m.fromMark = u.position ∧
      q.act (.begin now card target d a) = r.track m ∧
      r.moves = q.moves ∧ r.pending = q.pending ∧ r.nextMove = q.nextMove + 1 ∧
      (m.provisional.isNaN = false →
        Among card p (.text target)
          { u with stage := .text target, position := .real m.provisional } r) := by
  obtain ⟨i, hl, ht, hout⟩ := h.takeOut hq.keys
  obtain ⟨r, j, x, b, hr, hj, -, hbegin⟩ :=
    begin_eq hl ht (Value.isName_text target) ((hq.numeric.takeOut _).column _) now d a
  have hcol (k : Key) : r.column k = Projection.rest card (p.column k) := by
    rw [hr, ← hout k]
    exact column_open (.text target) (q.takeOut (s, i)) k
  refine ⟨i, _, _, hl, ht, ⟨rfl, rfl, rfl, rfl, ?_, rfl⟩, rfl, rfl, rfl, rfl, congrArg (·.2.1) hbegin,
    ?_, ?_, ?_, fun hx => ?_⟩
  · exact hq.numeric.column s u (List.mem_of_getElem? ht)
  · rw [hr]; rfl
  · rw [hr]; rfl
  · rw [hr]; rfl
  · exact among_putIn ho hd hcol (t := { u with position := .real x }) h.id ⟨x, rfl, hx⟩ hj

/-- A tile of a card as its column has it. -/
def atHome (card : String) (k : Key) (t : Tile) : Tile :=
  if t.id = card then { t with stage := k } else t

theorem map_atHome {ts : List Tile} (h : own card ts = []) (k : Key) :
    ts.map (atHome card k) = ts := by
  refine (List.map_congr_left fun t ht => ?_).trans (List.map_id ts)
  have hne : t.id ≠ card := by
    intro hid
    have hmem : t ∈ own card ts := mem_own.2 ⟨ht, hid⟩
    simp [h] at hmem
  exact if_neg hne

theorem precedes_map_atHome {ts : List Tile} (h : ts.Pairwise Precedes) (k : Key) :
    (ts.map (atHome card k)).Pairwise Precedes := by
  -- neither positions nor counts have changed
  have hsame (t : Tile) : (atHome card k t).isUnread = t.isUnread ∧
      (atHome card k t).position = t.position := by
    unfold atHome
    split <;> exact ⟨rfl, rfl⟩
  refine List.pairwise_map.2 (h.imp fun {t u} htu => ?_)
  rw [Precedes, (hsame t).1, (hsame t).2, (hsame u).1, (hsame u).2]
  exact htu

/-- The card is taken back to where it was: every column is what it was. -/
theorem columns_restore (ho : p.Ordered) {k : Key} {i : Nat} {t : Tile}
    (ht : p.tileAt (k, i) = some t) (hself : Among card p k t p) (hk : q.keys.Nodup) {s stage : Key}
    {x : Mark} (h : Among card p s { t with stage, position := x } q) {m : Move}
    (hm : m.card = card) (hstage : m.fromStage = k) (hindex : m.fromIndex = i)
    (hmark : m.fromMark = t.position) (k' : Key) :
    (q.restore m).column k' = (p.column k').map (atHome card k') := by
  obtain ⟨j, hl, htile, hout⟩ := h.takeOut hk
  -- what the other cards' columns are, whether or not the column that the card leaves goes
  obtain ⟨r, hr, hrestore⟩ : ∃ r : Projection,
      (∀ k, r.column k = Projection.rest card (p.column k)) ∧
        q.restore m = r.putIn k (min i (r.column k).length) { t with stage, position := t.position } := by
    unfold restore
    rw [hm, hl]
    simp only [withdraw, htile, hstage, hindex, hmark]
    split
    · rename_i hempty
      simp only [Bool.and_eq_true, List.isEmpty_iff] at hempty
      exact ⟨_, fun k => (column_drop hempty.1 k).trans (hout k), rfl⟩
    · exact ⟨_, hout, rfl⟩
  rw [hrestore, column_putIn]
  split
  · rename_i hk'
    have hown := hself.own k
    rw [if_pos rfl] at hown
    obtain ⟨-, before, behind, hts, rfl, hbefore, hbehind, hrest⟩ := split_of_own ht hself.id hown
    have hmin : min before.length (before ++ behind).length = before.length := by simp
    have hmap : (p.column k).map (atHome card k) = before ++ { t with stage := k } :: behind := by
      rw [hts, List.map_append, List.map_cons, map_atHome hbefore, map_atHome hbehind, atHome,
        if_pos hself.id]
    rw [hk', hr, hrest, hmin, insertIdx_length_append, ← hmap]
    exact arrange_of_precedes (precedes_map_atHome (Each.column ho hereditary_pairwise k) k)
  · rename_i hk'
    have hown := hself.own k'
    rw [if_neg hk'] at hown
    rw [hr, rest_of_own hown, map_atHome hown]

/-! ## Moves that are started -/

/-- Whether a move goes back to an index of a column and a position. -/
def GoesBack (k : Key) (i : Nat) (x : Mark) (m : Move) : Prop :=
  m.fromStage = k ∧ m.fromIndex = i ∧ m.fromMark = x

theorem goesBack_inherit {k : Key} {i : Nat} {x : Mark} {l m : Move}
    (hl : q.live? m.card = some l) (h : GoesBack k i x l) : GoesBack k i x (q.inherit m) := by
  rw [inherit, hl]
  exact h

/-- Whether an act moves a card here and now. -/
def Act.Starts (card : String) (act : Act) : Prop :=
  ∃ now target d a, act = .begin now card target d a

/-- The card is among the columns, and a move of it that is started now goes back to where it was at
first. -/
structure Poised (card : String) (p : Projection) (k : Key) (i : Nat) (t : Tile) (q : Projection) :
    Prop where
  regular : q.Regular
  among : ∃ s stage x, Among card p s { t with stage, position := x } q
  back : ∀ m, m.card = card → q.locate card = some (m.fromStage, m.fromIndex) →
    (q.tileAt (m.fromStage, m.fromIndex)).map (·.position) = some m.fromMark →
      GoesBack k i t.position (q.inherit m)

variable {k : Key} {i : Nat} {t : Tile}

theorem poised_self (hp : p.Regular) (hids : (p.tiles.map (·.id)).Nodup)
    (hl : p.locate card = some (k, i)) (ht : p.tileAt (k, i) = some t) (hid : t.id = card)
    (hlive : p.live? card = none) : Poised card p k i t p where
  regular := hp
  among := ⟨k, t.stage, t.position, among_self hp.keys hids ht hid⟩
  back := by
    intro m hm hloc hmark
    rw [hl, Option.some.injEq, Prod.mk.injEq] at hloc
    obtain ⟨rfl, rfl⟩ := hloc
    rw [ht, Option.map_some, Option.some.injEq] at hmark
    rw [inherit, hm, hlive]
    exact ⟨rfl, rfl, hmark.symm⟩

/-- One more move is started. -/
theorem poised_begin (ho : p.Ordered) (hd : p.Definite) (h : Poised card p k i t q) (now : Float)
    (target : String) (d : Directive) (a : Allocator)
    (hx : ∀ m, Entries.get? q.nextMove (q.act (.begin now card target d a)).moves = some m →
      m.provisional.isNaN = false) :
    Poised card p k i t (q.act (.begin now card target d a)) ∧
      (q.act (.begin now card target d a)).nextMove = q.nextMove + 1 ∧
      ∃ l, (q.act (.begin now card target d a)).live? card = some l ∧ l.id = q.nextMove ∧
        GoesBack k i t.position l := by
  have hq := h.regular
  obtain ⟨s, stage, x, hamong⟩ := h.among
  obtain ⟨j, m, r, hl, htile, hm, hcard, rfl, rfl, hmark, hact, hmoves, hpend, hnext, hr⟩ :=
    among_begin hq ho hd hamong now target d a
  have hback : GoesBack k i t.position (q.inherit m) :=
    h.back m hcard hl (by rw [htile, Option.map_some, hmark])
  have hlive : (r.track m).live? card = some (q.inherit m) := by
    rw [live?_track hq.ledger hm hmoves hpend, if_pos hcard.symm]
  have hreg := regular_act hq (.begin now card target d a) (by simp)
  rw [hact] at hreg hx ⊢
  have hrec : Entries.get? q.nextMove (r.track m).moves = some (q.inherit m) := by
    rw [moves_track_congr hmoves hpend, hq.ledger.get?_track, if_pos hm.id.symm]
  have hdef := hx _ hrec
  rw [provisional_inherit] at hdef
  refine ⟨⟨hreg, ?_, ?_⟩, ?_, ?_⟩
  · exact ⟨_, .text target, .real m.provisional, (hr hdef).congr (columns_track m r)⟩
  · intro m' hm' _ _
    exact goesBack_inherit (hm' ▸ hlive) hback
  · rw [nextMove_track, hnext]
  · exact ⟨_, hlive, (id_inherit m q).trans hm.id, hback⟩

/-- A move that is started changes no position that was given before. -/
theorem provisional_begin (hq : q.Regular) (now : Float) (target : String) (d : Directive)
    (a : Allocator) {n : Nat} {m : Move} (hm : Entries.get? n q.moves = some m) :
    ∃ m', Entries.get? n (q.act (.begin now card target d a)).moves = some m' ∧
      m'.provisional = m.provisional := by
  by_cases hc : q.spots card = []
  · refine ⟨m, ?_, rfl⟩
    have hact : q.act (.begin now card target d a) = q := by
      simp only [act, begin_absent (locate_eq_none_iff_spots.2 hc)]
    rw [hact, hm]
  · rcases carried_begin hq.keys hq.numeric hc (Value.isName_text target) now d a with
      ⟨m₀, x, b, r, hb, hm₀, -, -, -, -, -, hmoves, hpend, -⟩
    have hact : q.act (.begin now card target d a) = r.track m₀ := congrArg (·.2.1) hb
    have hlt := (hq.ledger.numbered hm).2
    refine ⟨q.giveWay m₀ m, ?_, provisional_giveWay m₀ m q⟩
    rw [hact, moves_track_congr hmoves hpend, hq.ledger.get?_track, if_neg, hm, Option.map_some]
    rw [hm₀.id]
    exact Nat.ne_of_lt hlt

theorem poised_starts (hp : p.Regular) (ho : p.Ordered) (hd : p.Definite)
    (hself : Poised card p k i t p) {starts : List Act} (hs : ∀ a ∈ starts, a.Starts card)
    (hx : ∀ n m, p.nextMove ≤ n → Entries.get? n (p.run starts).moves = some m →
      m.provisional.isNaN = false) :
    Poised card p k i t (p.run starts) ∧
      (p.run starts).nextMove = p.nextMove + starts.length ∧
      (starts ≠ [] → ∃ l, (p.run starts).live? card = some l ∧ p.nextMove ≤ l.id ∧
        GoesBack k i t.position l) ∧
      ∀ n, p.nextMove ≤ n → n < p.nextMove + starts.length →
        ∃ m, Entries.get? n (p.run starts).moves = some m ∧ m.card = card := by
  induction starts using List.reverseRecOn with
  | nil =>
    refine ⟨hself, rfl, fun hne => absurd rfl hne, fun n hle hlt => ?_⟩
    simp at hlt
    omega
  | append_singleton starts a ih =>
    rcases hs a (by simp) with ⟨now, target, d, al, rfl⟩
    have hbefore : ∀ a ∈ starts, a.Starts card := fun a ha => hs a (List.mem_append_left _ ha)
    have hplaced : WellPlaced starts := by
      intro e he
      rcases hbefore _ he with ⟨_, _, _, _, heq⟩
      simp at heq
    have hq := hp.run hplaced
    rw [run_concat] at hx ⊢
    -- the moves before had the positions that they have now
    have hpoised := ih hbefore fun n m hn hm => by
      rcases provisional_begin hq now target d al hm with ⟨m', hm', hsame⟩
      rw [← hsame]
      exact hx n m' hn hm'
    rcases hpoised with ⟨hpoised, hcount, -, hrec⟩
    have hle : p.nextMove ≤ (p.run starts).nextMove := by omega
    rcases poised_begin ho hd hpoised now target d al fun m hm => hx _ m hle hm with
      ⟨hlast, hnext, l, hl, hid, hback⟩
    refine ⟨hlast, ?_, fun _ => ⟨l, hl, hid ▸ hle, hback⟩, fun n hn hlt => ?_⟩
    · rw [hnext, hcount, List.length_append, List.length_singleton, Nat.add_assoc]
    · rw [List.length_append, List.length_singleton] at hlt
      rcases Nat.lt_or_ge n (p.nextMove + starts.length) with hold | hnew
      · -- records are not lost
        rcases hrec n hn hold with ⟨m, hm, hcard⟩
        have hkept := (entered_act hq.toBooks (.begin now card target d al) (by simp)).kept hm
        rcases hkept with ⟨m', hm', hcard'⟩
        exact ⟨m', hm', hcard'.trans hcard⟩
      · obtain rfl : n = l.id := by omega
        rcases hlast.regular.ledger.of_pendingMove (live?_eq_some_iff.1 hl).1 with ⟨hm, hcard, -⟩
        exact ⟨l, hm, hcard⟩

/-! ## Moves that fail -/

/-- The card is back where it was, and every column is what it was. -/
structure Home (card : String) (p q : Projection) : Prop where
  settled : q.pendingMove card = none
  columns : ∀ k, q.column k = (p.column k).map (atHome card k)

/-- The card is on its way, and its live move, of the given number, goes back to where it was at first. -/
structure Away (card : String) (p : Projection) (k : Key) (i : Nat) (t : Tile) (n : Nat)
    (q : Projection) : Prop where
  among : ∃ s stage x, Among card p s { t with stage, position := x } q
  live : ∃ l, q.live? card = some l ∧ GoesBack k i t.position l ∧ l.id = n

/-- A card that is back stays when another of its moves fails. -/
theorem Home.rollback (h : Home card p q) (hq : q.Regular) {n : Nat} {m : Move}
    (hm : Entries.get? n q.moves = some m) (hcard : m.card = card) (error : Option Reason) :
    Home card p (q.rollback n error) := by
  constructor
  · refine pendingMove_rollback hq.ledger (fun m' hm' => ?_) error
    simp [h.settled] at hm'
  · intro k'
    rcases rollback_cases hq.ledger hq.keys n error with ⟨m', hm', hl, -⟩ | ⟨-, hcol, -⟩
    · -- no move of the card is live
      obtain rfl := Option.some.inj (hm.symm.trans hm')
      rw [hcard, live?_of_not_pending h.settled] at hl
      simp at hl
    · rw [← h.columns k', column, column, hcol]

/-- The failure of the live move takes the card back. -/
theorem Away.home (ho : p.Ordered) (ht : p.tileAt (k, i) = some t) (hself : Among card p k t p)
    {n : Nat} (h : Away card p k i t n q) (hq : q.Regular) (error : Option Reason) :
    Home card p (q.rollback n error) := by
  rcases h.live with ⟨l, hl, hback, rfl⟩
  rcases h.among with ⟨s, stage, x, hamong⟩
  rcases live?_eq_some_iff.1 hl with ⟨hp, hsup⟩
  rcases hq.ledger.of_pendingMove hp with ⟨hm, hcard, hstate, hreplaced⟩
  constructor
  · exact pendingMove_rollback hq.ledger
      (fun m' hm' => by rw [Option.some.inj (hm'.symm.trans hp)]) error
  · intro k'
    rcases rollback_eq hq.ledger hm hstate error with ⟨r, -, hcol, -, hr⟩
    rw [hr, hsup, hreplaced]
    simp only [Option.isSome_none, Bool.or_false, Bool.false_eq_true, if_false]
    exact columns_restore ho ht hself (keys_congr hcol ▸ hq.keys) (hamong.congr hcol) hcard
      hback.1 hback.2.1 hback.2.2 k'

/-- The failure of any other move of the card leaves it on its way. -/
theorem Away.rollback {n j : Nat} (h : Away card p k i t n q) (hq : q.Regular) {m : Move}
    (hm : Entries.get? j q.moves = some m) (hcard : m.card = card) (hj : j ≠ n)
    (error : Option Reason) : Away card p k i t n (q.rollback j error) := by
  rcases h.live with ⟨l, hl, hback, hid⟩
  rcases rollback_cases hq.ledger hq.keys j error with ⟨m', hm', hl', -⟩ | ⟨-, hcol, hlive⟩
  · obtain rfl := Option.some.inj (hm.symm.trans hm')
    rw [hcard, hl] at hl'
    rw [← (hq.ledger.numbered hm).1, ← Option.some.inj hl', hid] at hj
    exact absurd rfl hj
  · rcases h.among with ⟨s, stage, x, hamong⟩
    exact ⟨⟨s, stage, x, hamong.congr hcol⟩, l, (hlive card).trans hl, hback, hid⟩

/-- Moves of the card fail, in any order: if one of them is the live move, the card is back afterwards. -/
theorem home_run (ho : p.Ordered) (ht : p.tileAt (k, i) = some t) (hself : Among card p k t p)
    {fails : List (Nat × Option Reason)} (hq : q.Regular)
    (hrec : ∀ f ∈ fails, ∃ m, Entries.get? f.1 q.moves = some m ∧ m.card = card)
    (hcase : Home card p q ∨ ∃ n, Away card p k i t n q ∧ n ∈ fails.map (·.1)) :
    Home card p (q.run (fails.map fun f => .rollback f.1 (f.2.map (·.failure)))) := by
  induction fails generalizing q with
  | nil =>
    rcases hcase with hhome | ⟨n, -, hmem⟩
    · exact hhome
    · simp at hmem
  | cons f fails ih =>
    have hkept : ∀ g ∈ fails, ∃ m,
        Entries.get? g.1 (q.act (.rollback f.1 (f.2.map (·.failure)))).moves = some m ∧
          m.card = card := by
      intro g hg
      rcases hrec g (List.mem_cons_of_mem _ hg) with ⟨m, hm, hcard⟩
      have hentered := entered_act hq.toBooks (.rollback f.1 (f.2.map (·.failure))) (by simp)
      rcases hentered.kept hm with ⟨m', hm', hcard'⟩
      exact ⟨m', hm', hcard'.trans hcard⟩
    refine ih (regular_act hq (.rollback f.1 (f.2.map (·.failure))) (by simp)) hkept ?_
    rcases hrec f List.mem_cons_self with ⟨m, hm, hcard⟩
    rw [act_rollback_reason]
    rcases hcase with hhome | ⟨n, haway, hmem⟩
    · have hback := hhome.rollback hq hm hcard f.2
      exact .inl ⟨hback.settled, hback.columns⟩
    · by_cases hf : f.1 = n
      · have hback := haway.home ho ht hself hq f.2
        rw [← hf] at hback
        exact .inl ⟨hback.settled, hback.columns⟩
      · have hstill := haway.rollback hq hm hcard hf f.2
        rcases hstill.among with ⟨s, stage, x, hamong⟩
        refine .inr ⟨n, ⟨⟨s, stage, x, hamong.congr rfl⟩, hstill.live⟩, ?_⟩
        rw [List.map_cons, List.mem_cons] at hmem
        exact hmem.resolve_left (Ne.symm hf)

/-- The columns of a view are in order, no card is listed twice and no position is the undefined
number. -/
structure Neat (p : Projection) : Prop where
  ordered : p.Ordered
  ids : (p.tiles.map (·.id)).Nodup
  defined : ∀ t ∈ p.tiles, t.position.isUndefined = false

theorem Neat.definite (h : p.Neat) (hn : p.Numeric) : p.Definite := by
  intro e he t ht
  exact Mark.definite_of_number (hn e he t ht) (h.defined t (mem_tiles.2 ⟨e, he, ht⟩))

/-- On a neat board a card that waits for nothing is moved over and over, with nothing in between, and no
move is given the undefined number; then all these moves fail, in any order, for reasons that have words
or for none. The card waits for nothing again, and every column holds what it held before, in the same order and at the same positions; only the
card itself now names the stage of its column, if it did not before. -/
theorem columns_undone {board : Key} {before : List Act} (hb : WellPlaced before)
    (hrun : p = run { board } before) (hneat : p.Neat) {card : String}
    (hc : (p.locate card).isSome) (hp : p.pendingMove card = none) {starts : List Act}
    (hne : starts ≠ []) (hs : ∀ a ∈ starts, a.Starts card)
    (hx : ∀ n m, p.nextMove ≤ n → Entries.get? n (p.run starts).moves = some m →
      m.provisional.isNaN = false)
    {fails : List (Nat × Option Reason)}
    (hf : (fails.map (·.1)).Perm (List.range' p.nextMove starts.length)) :
    ∃ q, q = (p.run starts).run (fails.map fun f => .rollback f.1 (f.2.map (·.failure))) ∧
      q.pendingMove card = none ∧ (∀ k, q.column k = (p.column k).map (atHome card k)) ∧
      ∀ k, (∀ t ∈ p.column k, t.id = card → t.stage = k) → q.column k = p.column k := by
  have hreg : p.Regular := hrun ▸ regular_run board hb
  have hd := hneat.definite hreg.numeric
  rcases Option.isSome_iff_exists.1 hc with ⟨⟨k, i⟩, hl⟩
  rcases tileAt_locate hreg.keys hl with ⟨t, ht, hid⟩
  have hself := poised_self hreg hneat.ids hl ht hid (live?_of_not_pending hp)
  rcases poised_starts hreg hneat.ordered hd hself hs hx with ⟨hpoised, hcount, hlive, hrec⟩
  rcases hlive hne with ⟨l, hl', hle, hback⟩
  have hmem (n : Nat) : n ∈ fails.map (·.1) ↔ p.nextMove ≤ n ∧ n < p.nextMove + starts.length := by
    rw [hf.mem_iff, List.mem_range'_1]
  have hlt : l.id < p.nextMove + starts.length := by
    rw [← hcount]
    exact (hpoised.regular.ledger.numbered
      (hpoised.regular.ledger.of_pendingMove (live?_eq_some_iff.1 hl').1).1).2
  have hhome : Home card p ((p.run starts).run (fails.map fun f => .rollback f.1 (f.2.map (·.failure)))) := by
    refine home_run hneat.ordered ht (among_self hreg.keys hneat.ids ht hid) hpoised.regular ?_ ?_
    · intro f hfm
      rcases (hmem f.1).1 (List.mem_map_of_mem hfm) with ⟨hge, hlt'⟩
      exact hrec f.1 hge hlt'
    · exact .inr ⟨l.id, ⟨hpoised.among, l, hl', hback, rfl⟩, (hmem l.id).2 ⟨hle, hlt⟩⟩
  refine ⟨_, rfl, hhome.settled, hhome.columns, fun k' hk' => ?_⟩
  rw [hhome.columns k']
  refine (List.map_congr_left fun u hu => ?_).trans (List.map_id _)
  unfold atHome
  split
  · rename_i huid
    rw [← hk' u hu huid]
    rfl
  · rfl

/-- A card between others, one of them at the same position, is moved between the cards of another stage
and then to a stage that is not known. -/
def movedTwice : List Act :=
  [.begin 0.0 "2" "open" { absolute := some 5.0 } {}, .begin 0.0 "2" "nowhere" {} {}]

theorem legible_fiveRead : Legible fiveRead := by
  intro a ha
  obtain rfl := List.mem_singleton.1 ha
  intro board cs hcs
  obtain rfl := Except.ok.inj ((readColumns_fiveCards board).symm.trans hcs)
  exact ⟨by simp, by simp, by simp [cardsOf]⟩

theorem neat_fiveRead : (run { board := "sales" } fiveRead).Neat := by
  refine ⟨ordered_run "sales" legible_fiveRead fun before hb => ?_, ?_, ?_⟩
  · have hall : ∀ before ∈ fiveRead.inits,
        ∀ t ∈ (run { board := "sales" } before).tiles, t.position.isUndefined = false := by
      decide +kernel
    have hlegible : Legible before := fun a ha => legible_fiveRead a (hb.subset ha)
    intro e he t ht
    exact Mark.definite_of_number ((sound_run "sales" hlegible).tidy.ranked t (mem_tiles.2 ⟨e, he, ht⟩))
      (hall before ((List.mem_inits before fiveRead).2 hb) t (mem_tiles.2 ⟨e, he, ht⟩))
  · decide +kernel
  · decide +kernel

/-- The older move fails before the newer one. -/
theorem columns_undone_movedTwice :
    ∃ q, q = ((run { board := "sales" } fiveRead).run movedTwice).run
        ([(1, none), (2, some ⟨.timedOut, rfl⟩)].map fun f : Nat × Option Reason =>
          .rollback f.1 (f.2.map (·.failure))) ∧
      q.pendingMove "2" = none ∧
      (∀ k, q.column k = ((run { board := "sales" } fiveRead).column k).map (atHome "2" k)) ∧
      ∀ k, (∀ t ∈ (run { board := "sales" } fiveRead).column k, t.id = "2" → t.stage = k) →
        q.column k = (run { board := "sales" } fiveRead).column k := by
  refine columns_undone wellPlaced_fiveRead rfl neat_fiveRead ?_ ?_ (by simp [movedTwice]) ?_ ?_ ?_
  · decide
  · decide
  · simp [movedTwice, Act.Starts]
  · intro n m _ hm
    have hall : ∀ e ∈ ((run { board := "sales" } fiveRead).run movedTwice).moves,
        e.2.provisional.isNaN = false := by decide +kernel
    exact hall (n, m) (Entries.mem_of_get? hm)
  · decide +kernel

theorem ordered_of_short (h : ∀ e ∈ p.columns, e.2.length ≤ 1) : p.Ordered := by
  intro e he
  have hlen := h e he
  match e.2, hlen with
  | [], _ => exact List.Pairwise.nil
  | [t], _ => exact List.pairwise_singleton _ t

/-- A board that lists a card under a stage that the card does not name. -/
def misplaced : List Act :=
  [.refresh (.object [("cards_by_stage", .object [("new", .list [
    .object [("card_id", "1"), ("stage_key", "open"), ("position", .real 1.0)]])])])]

/-- The card names the stage of its column after its move has failed, and did not before. After a failure
without words a card is where its move had brought it. -/
theorem stage_renamed :
    (run { board := "sales" } misplaced).Neat ∧
      (run { board := "sales" } misplaced).pendingMove "1" = none ∧
      ((run { board := "sales" } misplaced).column "new").map (fun t => (t.id, t.stage)) =
        [("1", .text "open")] ∧
      (((run { board := "sales" } misplaced).run
          [.begin 0.0 "1" "open" { absolute := some 5.0 } {}, .rollback 1 none]).column "new").map
        (fun t => (t.id, t.stage)) = [("1", .text "new")] ∧
      (run { board := "sales" } oneRead).Neat ∧
      (run { board := "sales" } oneRead).pendingMove "1" = none ∧
      (run { board := "sales" } oneRead).spots "1" = [(.text "new", .real 1.0)] ∧
      ((run { board := "sales" } oneRead).run [.begin 0.0 "1" "open" { absolute := some 5.0 } {},
        .rollback 1 (some (.unspoken .malformed))]).spots "1" = [(.text "open", .real 5.0)] := by
  refine ⟨⟨ordered_of_short ?_, ?_, ?_⟩, ?_, ?_, ?_, ⟨ordered_of_short ?_, ?_, ?_⟩, ?_, ?_, ?_⟩
  all_goals decide +kernel

end Projection

end Kanban
