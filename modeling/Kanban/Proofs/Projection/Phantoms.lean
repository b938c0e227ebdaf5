import Kanban.Proofs.Projection.Duplicates

/-!
# Kanban.Proofs.Projection.Phantoms — columns that nothing stands for

A column is opened for every key that a card is brought to, whether or not a stage has the key. When
the last card leaves such a column, nothing stands for it any more. A card that goes back after a
failure closes the column then; a card that is moved on, here or by someone else, leaves it behind. The
column stays, empty, until a card is brought there, the key is folded, or the board is read.

* `carried`, `Conveys` — from where to where an act carries a card, and what becomes of the columns.
* `phantom_act` — the phantoms after an act: those that it leaves behind, and those it does not clear.
* `phantom_run` — the phantoms after a run.
* `phantomless_iff` — when there are none.
-/

namespace Kanban

namespace Projection

open Operation

variable {a : Act} {p q r : Projection} {k k₀ stage : Key} {closes : Bool}

/-- A column without cards that is that of no active stage. -/
def Phantom (k : Key) (p : Projection) : Prop :=
  Entries.get? k p.columns = some [] ∧ p.isActive k = false

theorem phantom_congr (hc : q.columns = p.columns) (hs : SameBoard p q) (k : Key) :
    q.Phantom k ↔ p.Phantom k := by
  rw [Phantom, Phantom, hc, hs.isActive]

theorem Phantom.column (h : p.Phantom k) : p.column k = [] := by
  rw [Projection.column, h.1]
  rfl

/-! ## Carrying a card -/

/-- From which column a card would be carried to a stage, if it is shown at all. -/
def way (card : String) (stage : Key) (p : Projection) : Option (Key × Key) :=
  (p.locate card).map fun z => (z.1, stage)

theorem way_congr (hc : q.columns = p.columns) (card : String) (stage : Key) :
    q.way card stage = p.way card stage := by
  rw [way, locate, hc]
  rfl

/-- A card is carried from a column to a stage, and no other column changes. If it was the last one, its
column may be closed behind it, unless it is that of an active stage. -/
structure Carries (k₀ stage : Key) (closes : Bool) (p q : Projection) : Prop where
  source : p.column k₀ ≠ []
  target : q.column stage ≠ []
  left : stage ≠ k₀ → (Entries.get? k₀ q.columns = some [] ↔
    (p.column k₀).length = 1 ∧ ¬ (closes = true ∧ p.isActive k₀ = false))
  others : ∀ k, k ≠ k₀ → k ≠ stage → Entries.get? k q.columns = Entries.get? k p.columns

/-- Only the columns matter. -/
theorem Carries.congr (h : Carries k₀ stage closes p q) (hc : r.columns = q.columns) :
    Carries k₀ stage closes p r where
  source := h.source
  target := by
    rw [column, hc]
    exact h.target
  left := hc ▸ h.left
  others := hc ▸ h.others

/-- A card is carried on its way, or no column changes as there is none. -/
structure Conveys (w : Option (Key × Key)) (closes : Bool) (p q : Projection) : Prop where
  same : SameBoard p q
  carries : ∀ k₀ stage, w = some (k₀, stage) → Carries k₀ stage closes p q
  stays : w = none → q.columns = p.columns

variable {w : Option (Key × Key)}

theorem conveys_none (hs : SameBoard p q) (hc : q.columns = p.columns) (closes : Bool) :
    Conveys none closes p q := ⟨hs, nofun, fun _ => hc⟩

theorem conveys_some (hs : SameBoard p q) (h : Carries k₀ stage closes p q) :
    Conveys (some (k₀, stage)) closes p q where
  same := hs
  carries := fun _ _ hw => by
    obtain ⟨rfl, rfl⟩ := Prod.mk.inj (Option.some.inj hw)
    exact h
  stays := nofun

/-- What happens before without touching a column or a stage. -/
theorem Conveys.after (h : Conveys w closes q r) (hc : q.columns = p.columns) (hs : SameBoard p q) :
    Conveys w closes p r where
  same := hs.trans h.same
  carries := fun k₀ stage hw => by
    obtain ⟨hsource, htarget, hleft, hothers⟩ := h.carries k₀ stage hw
    have hcolumn (k : Key) : q.column k = p.column k := by rw [column, hc, column]
    refine ⟨hcolumn k₀ ▸ hsource, htarget, ?_, ?_⟩
    · rwa [hcolumn, hs.isActive] at hleft
    · rwa [hc] at hothers
  stays := fun hw => (h.stays hw).trans hc

/-- The phantoms after a card was carried: the column that its last card has left, and those that it was
not brought to. -/
theorem Conveys.phantom_iff (h : Conveys w closes p q) (k : Key) :
    q.Phantom k ↔
      ((∃ stage, w = some (k, stage) ∧ stage ≠ k) ∧ (p.column k).length = 1 ∧
          p.isActive k = false ∧ closes = false) ∨
        p.Phantom k ∧ ¬ ∃ k₀, w = some (k₀, k) := by
  cases w with
  | none =>
    rw [phantom_congr (h.stays rfl) h.same]
    simp
  | some w =>
    obtain ⟨k₀, stage⟩ := w
    obtain ⟨hsource, htarget, hleft, hothers⟩ := h.carries k₀ stage rfl
    simp only [Option.some.injEq, Prod.mk.injEq]
    by_cases hk : k = stage
    · -- the card has come to the column
      subst hk
      have hq : ¬ q.Phantom k := fun hq => htarget hq.column
      simp [hq]
    · by_cases hk₀ : k = k₀
      · subst hk₀
        have hp : ¬ p.Phantom k := fun hp => hsource hp.column
        have hne : stage ≠ k := fun heq => hk heq.symm
        rw [Phantom, hleft hne, h.same.isActive]
        cases hactive : p.isActive k <;> cases closes <;> simp [hp, hne]
      · rw [Phantom, hothers k hk₀ hk, h.same.isActive, ← Phantom]
        simp [Ne.symm hk, Ne.symm hk₀]

/-! ## What carries a card -/

theorem get?_takeOut (place : Key × Nat) (p : Projection) (k : Key) :
    Entries.get? k (p.takeOut place).columns =
      if k = place.1 then some ((p.column place.1).eraseIdx place.2) else Entries.get? k p.columns := by
  unfold takeOut setColumn
  split
  · rename_i hk
    rw [hk, Entries.get?_put_self]
  · rename_i hk
    exact Entries.get?_put_of_ne hk _ _

theorem get?_putIn_of_ne (hk : k ≠ stage) (j : Nat) (t : Tile) (p : Projection) :
    Entries.get? k (p.putIn stage j t).columns = Entries.get? k p.columns := by
  rw [putIn, columns_resort_setColumn, Entries.get?_put_of_ne hk]

theorem column_putIn_ne_nil {j : Nat} (hj : j ≤ (p.column stage).length) (t : Tile) :
    (p.putIn stage j t).column stage ≠ [] := by
  rw [column_putIn, if_pos rfl]
  intro hnil
  have hlen := (arrange_perm ((p.column stage).insertIdx j { t with stage })).length_eq
  rw [hnil, List.length_insertIdx_of_le_length hj] at hlen
  cases hlen

/-- A card that is located is in its column, which is empty without it if it is the only one there. -/
theorem column_of_locate (hk : p.keys.Nodup) {card : String} {i : Nat}
    (hl : p.locate card = some (k, i)) :
    p.column k ≠ [] ∧ ((p.column k).eraseIdx i = [] ↔ (p.column k).length = 1) := by
  obtain ⟨t, ht, -⟩ := tileAt_locate hk hl
  obtain ⟨hi, -⟩ := List.getElem?_eq_some_iff.1 ht
  refine ⟨List.ne_nil_of_length_pos (Nat.zero_lt_of_lt hi), ?_⟩
  rw [← List.length_eq_zero_iff, List.length_eraseIdx_of_lt hi]
  dsimp only at hi ⊢
  omega

/-- A card is taken out of a column and put into another; in between, the column that it left may be
closed, and others stay. -/
theorem carries_putIn (hsource : p.column k₀ ≠ [])
    (hleft : stage ≠ k₀ → (Entries.get? k₀ r.columns = some [] ↔
      (p.column k₀).length = 1 ∧ ¬ (closes = true ∧ p.isActive k₀ = false)))
    (hothers : ∀ k, k ≠ k₀ → k ≠ stage → Entries.get? k r.columns = Entries.get? k p.columns)
    {j : Nat} (hj : j ≤ (r.column stage).length) (t : Tile) :
    Carries k₀ stage closes p (r.putIn stage j t) where
  source := hsource
  target := column_putIn_ne_nil hj t
  left := fun hne => by
    rw [get?_putIn_of_ne (Ne.symm hne)]
    exact hleft hne
  others := fun k hk hks => by
    rw [get?_putIn_of_ne hks]
    exact hothers k hk hks

/-- Taking out the last card leaves an empty column. -/
theorem left_takeOut (hk : p.keys.Nodup) {card : String} {i : Nat}
    (hl : p.locate card = some (k₀, i)) :
    Entries.get? k₀ (p.takeOut (k₀, i)).columns = some [] ↔ (p.column k₀).length = 1 := by
  rw [get?_takeOut, if_pos rfl, Option.some.injEq, (column_of_locate hk hl).2]

theorem others_takeOut {i : Nat} (hk : k ≠ k₀) :
    Entries.get? k (p.takeOut (k₀, i)).columns = Entries.get? k p.columns := by
  rw [get?_takeOut, if_neg hk]

theorem conveys_place (hk : p.keys.Nodup) (card : String) (stage : Key) (x : Mark) :
    Conveys (p.way card stage) false p (p.place card stage x) := by
  have hsame := same_place card stage x p
  unfold way
  unfold place at hsame ⊢
  cases hl : p.locate card with
  | none => exact conveys_none (.refl p) rfl false
  | some loc =>
    obtain ⟨k₀, i⟩ := loc
    obtain ⟨t, ht, -⟩ := tileAt_locate hk hl
    have hsource := (column_of_locate hk hl).1
    simp only [hl, ht, Option.map_some] at hsame ⊢
    refine conveys_some hsame ?_
    by_cases hks : k₀ = stage
    · -- the card stays in its column, at another position
      subst hks
      rw [if_pos rfl]
      refine ⟨hsource, ?_, fun hne => absurd rfl hne, fun k hne _ => ?_⟩
      · rw [column_resort_setColumn, if_pos rfl]
        intro hnil
        have hlen := (arrange_perm ((p.column k₀).set i { t with position := x })).length_eq
        rw [hnil, List.length_set] at hlen
        exact hsource (List.length_eq_zero_iff.1 hlen.symm)
      · rw [columns_resort_setColumn, Entries.get?_put_of_ne hne]
    · rw [if_neg hks]
      refine carries_putIn hsource (fun _ => ?_) (fun k hne _ => others_takeOut hne) (Nat.le_refl _) _
      rw [left_takeOut hk hl]
      simp

theorem conveys_restore (hk : p.keys.Nodup) (m : Move) :
    Conveys (p.way m.card m.fromStage) true p (p.restore m) := by
  have hsame := same_restore m p
  unfold way
  unfold restore at hsame ⊢
  cases hl : p.locate m.card with
  | none => exact conveys_none (.refl p) rfl true
  | some loc =>
    obtain ⟨k₀, i⟩ := loc
    obtain ⟨t, ht, -⟩ := tileAt_locate hk hl
    obtain ⟨hsource, herase⟩ := column_of_locate hk hl
    simp only [withdraw, hl, ht, Option.map_some] at hsame ⊢
    refine conveys_some hsame ?_
    have hempty : ((p.takeOut (k₀, i)).column k₀).isEmpty = true ↔ (p.column k₀).length = 1 := by
      rw [column_takeOut, if_pos rfl, List.isEmpty_iff, herase]
    have hactive : ((p.takeOut (k₀, i)).activeStages.any fun s => s.key = k₀) = p.isActive k₀ := rfl
    rw [hactive]
    split
    · -- the card was the last one, and no active stage has the key
      rename_i hclose
      rw [Bool.and_eq_true, hempty, Bool.not_eq_true'] at hclose
      refine carries_putIn hsource (fun _ => ?_) (fun k hne _ => ?_) (Nat.min_le_right _ _) _
      · rw [Entries.get?_erase, if_pos rfl]
        simp [hclose.2]
      · rw [Entries.get?_erase, if_neg hne]
        exact others_takeOut hne
    · rename_i hclose
      rw [Bool.and_eq_true, hempty, Bool.not_eq_true'] at hclose
      refine carries_putIn hsource (fun _ => ?_) (fun k hne _ => others_takeOut hne)
        (Nat.min_le_right _ _) _
      rw [left_takeOut hk hl]
      simpa using fun hone hidle => hclose ⟨hone, hidle⟩

theorem conveys_begin (h : p.Regular) (now : Float) (card : String) {target : Key}
    (ht : target.isName = true) (d : Directive) (a : Allocator) :
    Conveys (p.way card target) false p (p.begin now card target d a).2.1 := by
  have hsame := same_begin now card target d a p
  unfold way
  cases hl : p.locate card with
  | none =>
    rw [begin_absent hl]
    exact conveys_none (.refl p) rfl false
  | some loc =>
    obtain ⟨k₀, i⟩ := loc
    obtain ⟨t, htile, -⟩ := tileAt_locate h.keys hl
    obtain ⟨r, j, x, b, hr, hj, -, hb⟩ := begin_eq hl htile ht ((h.numeric.takeOut _).column _) now d a
    rw [hb] at hsame ⊢
    refine conveys_some hsame ?_
    have hrk (k : Key) (hne : k ≠ target) :
        Entries.get? k r.columns = Entries.get? k (p.takeOut (k₀, i)).columns := by
      rw [hr]
      unfold Entries.ensure
      split
      · rfl
      · exact Entries.get?_put_of_ne hne _ _
    have hcarries : Carries k₀ target false p (r.putIn target j { t with position := .real x }) := by
      refine carries_putIn (column_of_locate h.keys hl).1 (fun hne => ?_) (fun k hne hnt => ?_) hj _
      · rw [hrk k₀ (Ne.symm hne), left_takeOut h.keys hl]
        simp
      · rw [hrk k hnt]
        exact others_takeOut hne
    exact hcarries.congr (columns_track _ _)

/-! ## What the server says -/

/-- What an event tells. -/
inductive News where
  /-- A card was moved. -/
  | moved (card : String) (stage : Key) (x : Float)
  /-- A stage was deactivated, and its cards were taken over by another. -/
  | folded (stage fallback : Key)

/-- What is told of a moved card. -/
def movedNews (r : Entries String Value) : Option News := do
  let card ← (r.need "card_id").toOption
  let stage ← (r.need "stage_key").toOption
  let position ← (r.need "position").toOption
  let id ← card.toText.toOption
  let x ← position.toReal.toOption
  some (.moved id stage x)

/-- What is told of a deactivated stage. -/
def foldedNews (r : Entries String Value) : Option News := do
  let stage ← (r.need "stage_key").toOption
  let fallback ← (r.need "fallback_stage_key").toOption
  some (.folded stage fallback)

/-- What is told by an event, if it is one that is known and can be read. -/
def newsOf (e : Value) : Option News := do
  let r ← e.record.toOption
  if r.getD "event" .null = .text "card_moved" then movedNews r
  else if r.getD "event" .null = .text "stage_deactivated" then foldedNews r
  else none

/-- The view after some news. -/
def notice (p : Projection) : News → Projection
  | .moved card stage x => (p.remoteMove card stage x).2.calmed
  | .folded stage fallback => (p.fold stage fallback).2.calmed

/-- What comes of an event is what comes of its news. -/
theorem act_hear {e : Value} (hp : Placed e) (hk : Keyed e) (p : Projection) :
    p.act (.hear e) = (newsOf e).elim p p.notice := by
  change (applyEvent e p).2 = _
  unfold applyEvent newsOf
  rw [state_read]
  cases hr : e.record with
  | error f => rfl
  | ok r =>
    simp only [Except.toOption, Option.bind_eq_bind, Option.bind_some]
    generalize hm : r.getD "event" .null = kind
    split
    · -- a card was moved
      rw [if_pos rfl, movedNews, state_read]
      cases hc : r.need "card_id" with
      | error f => rfl
      | ok card =>
        dsimp only
        rw [state_read]
        cases hs : r.need "stage_key" with
        | error f => rfl
        | ok stage =>
          dsimp only
          rw [state_read]
          cases hpos : r.need "position" with
          | error f => rfl
          | ok position =>
            dsimp only
            rw [state_read]
            cases hid : card.toText with
            | error f => simp [Except.toOption, hid]
            | ok id =>
              obtain ⟨x, hx⟩ := hp r position hr hm (get?_of_need hpos)
              have hname := hk r "stage_key" stage hr (by simp) (get?_of_need hs)
              dsimp only
              rw [state_hearMove, hx]
              simp [Except.toOption, hid, hx, hname, notice]
    · -- a stage was deactivated
      rw [if_neg (by simp), if_pos rfl, foldedNews, state_read]
      cases hs : r.need "stage_key" with
      | error f => rfl
      | ok stage =>
        dsimp only
        rw [state_read]
        cases hf : r.need "fallback_stage_key" with
        | error f => rfl
        | ok fallback =>
          have hname := hk r "stage_key" stage hr (by simp) (get?_of_need hs)
          have hname' := hk r "fallback_stage_key" fallback hr (by simp) (get?_of_need hf)
          dsimp only
          rw [state_hearFold]
          simp [Except.toOption, hname, hname', notice]
    · -- anything else is ignored
      rename_i hmoved hfolded
      rw [if_neg hmoved, if_neg hfolded]
      rfl

theorem same_hear (card : String) (stage : Key) (x : Option Float) (p : Projection) :
    SameBoard p (p.hear card stage x) := by
  unfold hear
  split
  · exact .refl p
  · split
    · exact .refl p
    · split
      · split
        · exact (same_updateMove _ _ _).trans (same_clearPending _ _)
        · exact same_updateMove _ _ _
      · exact same_updateMove _ _ _

theorem conveys_remoteMove (hk : p.keys.Nodup) (card : String) (stage : Key) (x : Float) :
    Conveys (p.way card stage) false p (p.remoteMove card stage x).2 := by
  have hcol := columns_hear card stage (some x) p
  have hplace := conveys_place (keys_congr hcol ▸ hk) card stage (.real x)
  rw [way_congr hcol] at hplace
  exact hplace.after hcol (same_hear card stage (some x) p)

theorem isActive_closed (stage k : Key) (p : Projection) :
    (p.closed stage).isActive k = (p.isActive k && decide (k ≠ stage)) := by
  have hstages : (p.closed stage).stages = p.stages.map (closeStage stage) :=
    (same_supersede _ _).stages
  rw [Bool.eq_iff_iff, isActive, activeStages, hstages, isActive, activeStages]
  simp only [Bool.and_eq_true, List.any_eq_true, List.mem_filter, List.mem_map, decide_eq_true_eq]
  constructor
  · rintro ⟨_, ⟨⟨s, hs, rfl⟩, hactive⟩, rfl⟩
    unfold closeStage at hactive ⊢
    split at hactive
    · cases hactive
    · rename_i hne
      rw [if_neg hne]
      exact ⟨⟨s, ⟨hs, hactive⟩, rfl⟩, hne⟩
  · rintro ⟨⟨s, ⟨hs, hactive⟩, rfl⟩, hne⟩
    refine ⟨s, ⟨⟨s, hs, ?_⟩, hactive⟩, rfl⟩
    exact if_neg hne

/-- A stage that is closed has no column, and no other column changes. -/
theorem phantom_closed (stage k : Key) (p : Projection) :
    (p.closed stage).Phantom k ↔ p.Phantom k ∧ stage ≠ k := by
  rw [Phantom, columns_closed, Entries.get?_erase, isActive_closed, Phantom]
  by_cases hk : k = stage
  · simp [hk]
  · simp [hk, Ne.symm hk]

/-- A column that gets cards is no phantom, and no other column changes. -/
theorem phantom_gather {fallback : Key} {tiles : List Tile} (ht : tiles ≠ []) (k : Key)
    (p : Projection) : (p.gather fallback tiles).Phantom k ↔ p.Phantom k ∧ fallback ≠ k := by
  have hsame : SameBoard p (p.gather fallback tiles) := ⟨rfl, rfl⟩
  by_cases hk : k = fallback
  · subst hk
    have hsome : ¬ (p.gather k tiles).Phantom k := by
      intro hp
      have hcolumn := hp.column
      rw [gather, column_resort_setColumn, if_pos rfl] at hcolumn
      have hlen := (arrange_perm (p.column k ++ tiles.map ({ · with stage := k }))).length_eq
      rw [hcolumn, List.length_append, List.length_map] at hlen
      exact ht (List.length_eq_zero_iff.1 (by simp only [List.length_nil] at hlen; omega))
    simp [hsome]
  · rw [Phantom, gather, columns_resort_setColumn, Entries.get?_put_of_ne hk, ← gather,
      hsame.isActive, ← Phantom]
    simp [Ne.symm hk]

/-- Folding a stage closes its column and fills the one that its cards come to, if it had any. -/
theorem phantom_fold (stage fallback k : Key) (p : Projection) :
    (p.fold stage fallback).2.Phantom k ↔
      p.Phantom k ∧ ¬ (stage = k ∨ fallback = k ∧ p.column stage ≠ []) := by
  rw [fold_cases]
  split
  · rename_i hempty
    rw [phantom_closed, List.isEmpty_iff.1 hempty]
    simp
  · rename_i hsome
    rw [List.isEmpty_iff] at hsome
    rw [phantom_gather hsome, phantom_closed]
    simp [hsome, and_assoc]

/-! ## Reads -/

/-- The stages of a board as they are read. -/
def readStages (board : Key) (payload : Value) : Except Fault (List Stage) := do
  let r ← payload.record
  (← (r.getD "stages" (.list [])).items).mapM fun v => do
    Stage.ofValue (← withDefaults [("board_key", board)] v)

/-- A board can be read, and its cards are listed under the keys of its active stages only. -/
def ListsActive (payload : Value) : Prop :=
  ∀ board, ∃ stages cs, readStages board payload = .ok stages ∧ readColumns board payload = .ok cs ∧
    (∀ s ∈ stages, s.active = true → s.key.isName = true) ∧
    ∀ e ∈ cs, ∃ s ∈ stages, s.active = true ∧ s.key = e.1

/-- A board that can be read is shown. -/
theorem refreshed_of_listsActive {payload : Value} (h : ListsActive payload) (p : Projection) :
    ∃ board stages cs, p.act (.refresh payload) = refresh cs { p with board, stages } ∧
      ∀ e ∈ cs, ∃ s ∈ stages, s.active = true ∧ s.key = e.1 := by
  change ∃ board stages cs, (applyRefresh payload p).2 = refresh cs { p with board, stages } ∧
    ∀ e ∈ cs, ∃ s ∈ stages, s.active = true ∧ s.key = e.1
  unfold applyRefresh
  rw [state_read]
  cases hr : payload.record with
  | error f =>
    obtain ⟨stages, cs, hstages, -⟩ := h p.board
    rw [readStages, hr] at hstages
    cases hstages
  | ok r =>
    simp only [bind_apply, get_apply, modify_apply, lift_apply, unless_apply]
    obtain ⟨stages, cs, hstages, hcs, hnames, hlisted⟩ := h (r.getD "board_key" p.board)
    simp only [readStages, readColumns, hr, ok_bind] at hstages hcs
    have hopen : ¬ (stages.any fun s => s.active && !s.key.isName) = true := by
      simpa using hnames
    refine ⟨r.getD "board_key" p.board, stages, cs, ?_, hlisted⟩
    simp only [hstages, Failure.ofReading, if_neg hopen]
    cases hg : (r.getD "cards_by_stage" .null).given? with
    | none =>
      rw [hg] at hcs
      obtain rfl := Except.ok.inj hcs
      rfl
    | some v =>
      simp only [hg] at hcs
      simp only [hcs]

theorem same_refresh (cs : Entries Key (List Card)) (p : Projection) : SameBoard p (p.refresh cs) :=
  ⟨(same_supersede _ p).board, (same_supersede _ p).stages⟩

/-- The columns of a board that was read are those of its active stages and those that cards are listed
under. -/
theorem mem_keys_refresh {cs : Entries Key (List Card)} :
    k ∈ (p.refresh cs).keys ↔ p.isActive k = true ∨ ∃ e ∈ cs, e.1 = k := by
  have hcolumns : (p.refresh cs).columns =
      (cs.map fun e => (e.1, (displayOrder below e.2).map Tile.ofCard)).foldl
        (fun m e => Entries.put e.1 e.2 m)
        (Entries.ofList (p.activeStages.map fun s => (s.key, ([] : List Tile)))) := by
    rw [List.foldl_map]
    rfl
  rw [keys, hcolumns, Entries.mem_keys_foldl_put, Entries.ofList, Entries.mem_keys_foldl_put]
  simp [isActive]

/-- A board that was read has no phantoms. -/
theorem not_phantom_refresh {payload : Value} (h : ListsActive payload) (k : Key) (p : Projection) :
    ¬ (p.act (.refresh payload)).Phantom k := by
  obtain ⟨board, stages, cs, hq, hlisted⟩ := refreshed_of_listsActive h p
  rw [hq]
  rintro ⟨hempty, hidle⟩
  rw [(same_refresh cs _).isActive] at hidle
  rcases mem_keys_refresh.1 (Entries.mem_keys_of_get? hempty) with hactive | ⟨e, he, rfl⟩
  · exact Bool.eq_false_iff.1 hidle hactive
  · obtain ⟨s, hs, hopen, hkey⟩ := hlisted e he
    refine Bool.eq_false_iff.1 hidle (List.any_eq_true.2 ⟨s, List.mem_filter.2 ⟨hs, hopen⟩, ?_⟩)
    exact decide_eq_true hkey

/-! ## One act -/

/-- The unsettled move with a number, if nothing has overridden or replaced it. -/
def awaited (n : Nat) (p : Projection) : Option Move :=
  (Entries.get? n p.moves).filter fun m =>
    decide (m.state = .optimistic) && !m.superseded && m.replacedBy.isNone

/-- From which column to which stage an act carries a card, if it carries one. A failure that has no
words carries none. -/
def carried (p : Projection) : Act → Option (Key × Key)
  | .begin _ card target _ _ => p.way card (.text target)
  | .confirm n stage (some _) =>
    (p.awaited n).bind fun m => p.way m.card ((namedStage stage).getD m.toStage)
  | .confirm _ _ none => none
  | .rollback n error =>
    if (error.bind Failure.fault?).isSome then none
    else (p.awaited n).bind fun m => p.way m.card m.fromStage
  | .hear e =>
    match newsOf e with
    | some (.moved card stage _) => p.way card stage
    | _ => none
  | .refresh _ => none

/-- Whether an act is the failure of a move. -/
def Act.isRollback : Act → Bool
  | .rollback _ _ => true
  | _ => false

/-- Whether an act tells of a stage that was deactivated. -/
def Act.folds? : Act → Option (Key × Key)
  | .hear e =>
    match newsOf e with
    | some (.folded stage fallback) => some (stage, fallback)
    | _ => none
  | _ => none

/-- Whether what an act tells can be read, and cards are listed under active stages only. -/
def Act.Readable : Act → Prop
  | .hear e => Placed e ∧ Keyed e
  | .refresh payload => ListsActive payload
  | _ => True

theorem Closes.same {n : Nat} (h : Closes n p q) : SameBoard p q := by
  cases h with
  | idle => exact .refl p
  | done => exact (same_updateMove _ _ _).trans (same_clearPending _ _)

theorem columns_rebase (m : Move) (stage : Key) (x : Mark) (p : Projection) :
    (p.rebase m stage x).columns = p.columns := by
  unfold rebase
  dsimp only
  split
  · rfl
  · exact columns_updateMove _ _ _

theorem Conveys.calmed (h : Conveys w closes p q) : Conveys w closes p q.calmed where
  same := ⟨h.same.board, h.same.stages⟩
  carries := fun k₀ stage hw => (h.carries k₀ stage hw).congr rfl
  stays := h.stays

theorem awaited_of_none {n : Nat} (hm : Entries.get? n p.moves = none) : p.awaited n = none := by
  rw [awaited, hm]
  rfl

theorem awaited_of_settled {n : Nat} {m : Move} (hm : Entries.get? n p.moves = some m)
    (hs : m.state ≠ .optimistic) : p.awaited n = none := by
  simp [awaited, hm, Option.filter, hs]

theorem awaited_of_unsettled {n : Nat} {m : Move} (hm : Entries.get? n p.moves = some m)
    (ho : m.state = .optimistic) :
    p.awaited n = if m.superseded || m.replacedBy.isSome then none else some m := by
  cases hs : m.superseded <;> cases hr : m.replacedBy <;> simp [awaited, hm, Option.filter, ho, hs, hr]

/-- A success carries the card of its move, if nothing has overridden or replaced the move. -/
theorem conveys_confirm (h : p.Regular) (n : Nat) (stage : Option Key) (x : Mark) :
    Conveys ((p.awaited n).bind fun m => p.way m.card (stage.getD m.toStage)) false p
      (p.confirm n stage (some x)) := by
  cases hm : Entries.get? n p.moves with
  | none =>
    rw [awaited_of_none hm, confirm, hm]
    exact conveys_none (.refl p) rfl false
  | some m =>
    by_cases ho : m.state = .optimistic
    · obtain ⟨q, hq, hend⟩ := confirm_eq h.ledger hm ho stage x
      have hcol : q.columns = p.columns := by simp [hq]
      have hqs : SameBoard p q := hq ▸ (same_updateMove _ _ _).trans (same_clearPending _ _)
      rw [hend, awaited_of_unsettled hm ho]
      cases hr : m.replacedBy with
      | some l =>
        rw [Option.isSome_some, Bool.or_true]
        exact conveys_none (hqs.trans (same_rebase _ _ _ _)) ((columns_rebase _ _ _ _).trans hcol) false
      | none =>
        rw [Option.isSome_none, Bool.or_false]
        cases m.superseded with
        | true => exact conveys_none hqs hcol false
        | false =>
          have hplace := conveys_place (keys_congr hcol ▸ h.keys) m.card (stage.getD m.toStage) x
          rw [way_congr hcol] at hplace
          exact hplace.after hcol hqs
    · rw [awaited_of_settled hm ho, confirm_settled hm ho]
      exact conveys_none (.refl p) rfl false

/-- So does a failure, which closes the column that the card leaves. -/
theorem conveys_rollback (h : p.Regular) (n : Nat) (error : Option Reason) :
    Conveys ((p.awaited n).bind fun m => p.way m.card m.fromStage) true p (p.rollback n error) := by
  cases hm : Entries.get? n p.moves with
  | none =>
    rw [awaited_of_none hm, rollback, hm]
    exact conveys_none (.refl p) rfl true
  | some m =>
    by_cases ho : m.state = .optimistic
    · have hsame := same_rollback n error p
      obtain ⟨q, -, hcol, -, hend⟩ := rollback_eq h.ledger hm ho error
      rw [awaited_of_unsettled hm ho]
      rw [hend] at hsame ⊢
      split
      · rename_i hstale
        rw [if_pos hstale] at hsame
        exact conveys_none hsame hcol true
      · rename_i hlive
        rw [if_neg hlive] at hsame
        have hrestore := conveys_restore (keys_congr hcol ▸ h.keys) m
        rw [way_congr hcol] at hrestore
        -- the card goes back to a board with the same stages
        have hqs : SameBoard p q := ⟨(same_restore m q).board.symm.trans hsame.board,
          (same_restore m q).stages.symm.trans hsame.stages⟩
        exact hrestore.after hcol hqs
    · rw [awaited_of_settled hm ho, rollback_settled hm ho]
      exact conveys_none (.refl p) rfl true

/-- The last card of a column leaves it for another, other than by the failure of its move, and no active
stage has the key. -/
def Abandons (p : Projection) (a : Act) (k : Key) : Prop :=
  (∃ stage, p.carried a = some (k, stage) ∧ stage ≠ k) ∧ (p.column k).length = 1 ∧
    p.isActive k = false ∧ a.isRollback = false

/-- A card is brought to a column, its key is folded, or the cards of a folded stage come to it, or the
board is read. -/
def Clears (p : Projection) (a : Act) (k : Key) : Prop :=
  (∃ k₀, p.carried a = some (k₀, k)) ∨
    (∃ stage fallback, a.folds? = some (stage, fallback) ∧
      (stage = k ∨ fallback = k ∧ p.column stage ≠ [])) ∨
    a.isRefresh = true

/-- What is neither a read nor tells of a deactivated stage carries a card at most. -/
theorem conveys_act (h : p.Regular) {a : Act} (ha : a.Readable) (hf : a.folds? = none)
    (hr : a.isRefresh = false) : Conveys (p.carried a) a.isRollback p (p.act a) := by
  cases a with
  | begin now card target d a => exact conveys_begin h now card (Value.isName_text target) d a
  | confirm n stage position =>
    rw [act_confirm]
    cases position with
    | none =>
      have hcloses := closes_confirm h.ledger n (namedStage stage)
      exact (conveys_none hcloses.same hcloses.columns false).calmed
    | some x => exact (conveys_confirm h n (namedStage stage) (.real x)).calmed
  | rollback n error =>
    rcases act_rollback n error p with ⟨reason, -, hf, hq⟩ | ⟨fault, hf, hq⟩
    · rw [hq, carried, hf]
      exact (conveys_rollback h n reason).calmed
    · have hcloses := closes_giveUp h.ledger n error
      rw [hq, carried, hf]
      exact conveys_none hcloses.same hcloses.columns true
  | hear e =>
    rw [act_hear ha.1 ha.2, carried]
    rw [Act.folds?] at hf
    cases hn : newsOf e with
    | none => exact conveys_none (.refl p) rfl false
    | some news =>
      cases news with
      | moved card stage x => exact (conveys_remoteMove h.keys card stage x).calmed
      | folded stage fallback =>
        rw [hn] at hf
        cases hf
  | refresh payload => cases hr

/-- News of a deactivated stage carry no card. -/
theorem phantom_folds (ha : a.Readable) {stage fallback : Key} (hf : a.folds? = some (stage, fallback))
    (k : Key) : p.carried a = none ∧ a.isRefresh = false ∧ ((p.act a).Phantom k ↔
      p.Phantom k ∧ ¬ (stage = k ∨ fallback = k ∧ p.column stage ≠ [])) := by
  cases a with
  | hear e =>
    rw [act_hear ha.1 ha.2, carried]
    rw [Act.folds?] at hf
    cases hn : newsOf e with
    | none =>
      rw [hn] at hf
      cases hf
    | some news =>
      rw [hn] at hf
      cases news with
      | moved card stage x => cases hf
      | folded stage' fallback' =>
        obtain ⟨rfl, rfl⟩ := Prod.mk.inj (Option.some.inj hf)
        exact ⟨rfl, rfl, phantom_fold stage' fallback' k p⟩
  | _ => cases hf

/-- The phantoms after an act are those that it leaves behind and those that it does not clear. -/
theorem phantom_act (h : p.Regular) (ha : a.Readable) (k : Key) :
    (p.act a).Phantom k ↔ Abandons p a k ∨ p.Phantom k ∧ ¬ Clears p a k := by
  cases hf : a.folds? with
  | some w =>
    obtain ⟨stage, fallback⟩ := w
    obtain ⟨hcarried, hread, hphantom⟩ := phantom_folds (p := p) ha hf k
    simp [hphantom, Abandons, Clears, hcarried, hread, hf]
  | none =>
    cases hr : a.isRefresh with
    | false =>
      rw [(conveys_act h ha hf hr).phantom_iff, Abandons, Clears, hf, hr]
      simp
    | true =>
      cases a with
      | refresh payload =>
        have hnone := not_phantom_refresh ha k p
        simp [hnone, Abandons, Clears, carried, Act.isRefresh]
      | _ => cases hr

/-! ## Runs -/

/-- Whether nothing in a run clears a column. -/
def Uncleared (k : Key) : Projection → List Act → Prop
  | _, [] => True
  | p, a :: as => ¬ Clears p a k ∧ Uncleared k (p.act a) as

theorem uncleared_concat (as : List Act) (a : Act) (p : Projection) :
    Uncleared k p (as ++ [a]) ↔ Uncleared k p as ∧ ¬ Clears (p.run as) a k := by
  induction as generalizing p with
  | nil => simp [Uncleared]
  | cons b as ih =>
    rw [List.cons_append, Uncleared, Uncleared, ih, and_assoc]
    rfl

theorem wellPlaced_of_readable {acts : List Act} (h : ∀ a ∈ acts, a.Readable) : WellPlaced acts :=
  fun e he => (h (.hear e) he).1

/-- The phantoms of a run are what was left behind in it and not cleared since. -/
theorem phantom_run (board : Key) {acts : List Act} (h : ∀ a ∈ acts, a.Readable) (k : Key) :
    (run { board } acts).Phantom k ↔ ∃ before a after, acts = before ++ a :: after ∧
      Abandons (run { board } before) a k ∧ Uncleared k (run { board } (before ++ [a])) after := by
  induction acts using List.reverseRecOn with
  | nil =>
    constructor
    · rintro ⟨hempty, -⟩
      cases hempty
    · rintro ⟨before, a, after, heq, -⟩
      simp at heq
  | append_singleton acts b ih =>
    have hacts : ∀ a ∈ acts, a.Readable := fun a ha => h a (List.mem_append_left _ ha)
    rw [run_concat, phantom_act (regular_run board (wellPlaced_of_readable hacts)) (h b (by simp)),
      ih hacts]
    constructor
    · rintro (hleft | ⟨⟨before, a, after, rfl, hleft, hsince⟩, hclear⟩)
      · exact ⟨acts, b, [], rfl, hleft, trivial⟩
      · refine ⟨before, a, after ++ [b], by simp, hleft, (uncleared_concat _ _ _).2 ⟨hsince, ?_⟩⟩
        rwa [← run_append, List.append_assoc, List.singleton_append]
    · rintro ⟨before, a, after, heq, hleft, hsince⟩
      rcases List.eq_nil_or_concat after with rfl | ⟨after, c, rfl⟩
      · -- it was left behind just now
        obtain ⟨rfl, hb⟩ := List.append_inj' heq rfl
        obtain rfl := List.singleton_inj.1 hb
        exact .inl hleft
      · rw [List.concat_eq_append, ← List.cons_append, ← List.append_assoc] at heq
        rw [List.concat_eq_append] at hsince
        obtain ⟨rfl, hb⟩ := List.append_inj' heq rfl
        obtain rfl := List.singleton_inj.1 hb
        obtain ⟨hsince, hclear⟩ := (uncleared_concat _ _ _).1 hsince
        rw [← run_append, List.append_assoc, List.singleton_append] at hclear
        exact .inr ⟨⟨before, a, after, rfl, hleft, hsince⟩, hclear⟩

/-- Every empty column is that of an active stage, whether or not moves are under way, iff each column
that was left behind was cleared since: the last card of a column that no active stage stands for was
carried on, other than back by a failure, and since then a card was brought to the column, its key was
folded, the cards of a folded stage came to it, or the board was read. -/
theorem phantomless_iff (board : Key) {acts : List Act} (h : ∀ a ∈ acts, a.Readable) :
    (∀ k, Entries.get? k (run { board } acts).columns = some [] →
        (run { board } acts).isActive k = true) ↔
      ∀ k before a after, acts = before ++ a :: after → Abandons (run { board } before) a k →
        ¬ Uncleared k (run { board } (before ++ [a])) after := by
  have hphantom := phantom_run board h
  constructor
  · intro hnone k before a after heq hleft hsince
    obtain ⟨hempty, hidle⟩ := (hphantom k).2 ⟨before, a, after, heq, hleft, hsince⟩
    exact Bool.eq_false_iff.1 hidle (hnone k hempty)
  · intro hcleared k hempty
    by_contra hidle
    obtain ⟨before, a, after, heq, hleft, hsince⟩ := (hphantom k).1 ⟨hempty, Bool.eq_false_iff.2 hidle⟩
    exact hcleared k before a after heq hleft hsince

theorem listsActive_oneCard : ListsActive oneCard := by
  intro board
  refine ⟨_, _, rfl, rfl, ?_, ?_⟩
  · intro s hs _
    rcases List.mem_cons.1 hs with rfl | hs
    · rfl
    · obtain rfl := List.mem_singleton.1 hs
      rfl
  · intro e he
    obtain rfl := List.mem_singleton.1 he
    exact ⟨_, List.mem_cons_self, rfl, rfl⟩

/-- The card is moved to a stage. -/
def sendTo (target : String) : Act := .begin 0.0 "1" target { absolute := some 5.0 } {}

/-- A card is moved to two stages that the board does not have, one after the other, and both moves are
refused. -/
def movedOn : List Act := oneRead ++ [sendTo "done", sendTo "won", .rollback 2 none, .rollback 1 none]

/-- The card is moved to the first of them again. -/
def movedAgain : List Act := movedOn ++ [sendTo "done"]

theorem readable_movedAgain : ∀ a ∈ movedAgain, a.Readable := by
  intro a ha
  simp only [movedAgain, movedOn, oneRead, List.cons_append, List.nil_append, List.mem_cons,
    List.not_mem_nil, or_false] at ha
  rcases ha with rfl | rfl | rfl | rfl | rfl | rfl
  · exact listsActive_oneCard
  all_goals trivial

/-- Both moves are settled and the card is back where it was, and the column of the first stage is still
shown, without a card and without a stage. -/
theorem left_empty :
    (∀ a ∈ movedOn, a.Readable) ∧
      (∀ m ∈ Entries.values (run { board := "sales" } movedOn).moves, m.state ≠ .optimistic) ∧
      (run { board := "sales" } movedOn).pending = [] ∧
      Entries.get? (.text "done") (run { board := "sales" } movedOn).columns = some [] ∧
      (run { board := "sales" } movedOn).isActive (.text "done") = false := by
  refine ⟨fun a ha => readable_movedAgain a (List.mem_append_left _ ha), ?_, ?_, ?_, ?_⟩
  all_goals decide +kernel

/-- The column that the second move left behind gets its card again. -/
theorem phantomless_iff_movedAgain : (∀ a ∈ movedAgain, a.Readable) ∧
    Abandons (run { board := "sales" } (oneRead ++ [sendTo "done"])) (sendTo "won") (.text "done") ∧
    ¬ Uncleared (.text "done") (run { board := "sales" } (oneRead ++ [sendTo "done"] ++ [sendTo "won"]))
      [.rollback 2 none, .rollback 1 none, sendTo "done"] := by
  have hleft : Abandons (run { board := "sales" } (oneRead ++ [sendTo "done"])) (sendTo "won")
      (.text "done") :=
    ⟨⟨.text "won", by decide +kernel, by decide⟩, by decide +kernel, by decide +kernel, rfl⟩
  have hnone : ∀ e ∈ (run { board := "sales" } movedAgain).columns, e.2 = [] →
      (run { board := "sales" } movedAgain).isActive e.1 = true := by decide +kernel
  refine ⟨readable_movedAgain, hleft, ?_⟩
  exact (phantomless_iff "sales" readable_movedAgain).1
    (fun k hk => hnone (k, []) (Entries.mem_of_get? hk) rfl) (.text "done") (oneRead ++ [sendTo "done"])
    (sendTo "won") [.rollback 2 none, .rollback 1 none, sendTo "done"] rfl hleft

end Projection

end Kanban
