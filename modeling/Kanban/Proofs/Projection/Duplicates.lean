import Kanban.Proofs.Projection.Plain

/-!
# Kanban.Proofs.Projection.Duplicates — events that come again

The channel delivers an event at least once. The first delivery may settle a move or override it, and
the second one finds another record then; it may move a card, and then the second one finds the card
where it is to go. On a view whose boards list no card twice the second delivery changes nothing,
whatever the event is and whether or not it can be read.

* `Reports`, `reports_event` — what an event does, said once for all views.
* `hearMove_again`, `hearFold_again` — the second delivery, part by part.
* `redelivered` — every event after every run.
-/

namespace Kanban

namespace Projection

variable {p q : Projection} {c card : String} {stage fallback : Key}

/-! ## What an event does to every view -/

/-- An operation does nothing to any view, or it is the news that a card was moved, or that a stage was
deactivated, whatever the view. -/
def Reports (x : Op Bool) : Prop :=
  (∀ p : Projection, (x p).2 = p) ∨
    (∃ card stage position, ∀ p : Projection, (x p).2 = (hearMove card stage position p).2) ∨
    ∃ stage fallback, ∀ p : Projection, (x p).2 = (hearFold stage fallback p).2

/-- What can be read does not depend on the view. -/
theorem reports_read {β : Type} (r : Except Fault β) {f : β → Op Bool} (h : ∀ b, Reports (f b)) :
    Reports (liftM (Failure.ofReading r) >>= f) := by
  cases r with
  | error e => exact .inl fun p => Operation.state_read (.error e) f p
  | ok b =>
    have hf (p : Projection) : ((liftM (Failure.ofReading (.ok b)) >>= f : Op Bool) p).2 = (f b p).2 :=
      Operation.state_read (.ok b) f p
    simp only [Reports, hf]
    exact h b

theorem reports_event (e : Value) : Reports (applyEvent e) := by
  unfold applyEvent
  refine reports_read _ fun r => ?_
  split
  · refine reports_read _ fun v => reports_read _ fun stage => reports_read _ fun position =>
      reports_read _ fun card => ?_
    exact .inr (.inl ⟨card, stage, position, fun _ => rfl⟩)
  · refine reports_read _ fun stage => reports_read _ fun fallback => ?_
    exact .inr (.inr ⟨stage, fallback, fun _ => rfl⟩)
  · exact .inl fun _ => rfl

/-! ## A card was moved, again -/

/-- The move that a card waits for has been overridden or is settled. -/
def Deaf (card : String) (p : Projection) : Prop :=
  ∀ m, p.pendingMove card = some m → m.state = .optimistic → m.superseded = true

theorem Deaf.congr (h : Deaf card p) (hu : Unrecorded p q) : Deaf card q := by
  unfold Deaf
  rw [pendingMove_congr hu.moves hu.pending]
  exact h

/-- The number under which a card waits is that of the move. -/
theorem Numbered.pendingMove (h : p.Numbered) {m : Move} (hm : p.pendingMove card = some m) :
    Entries.get? card p.pending = some m.id ∧ Entries.get? m.id p.moves = some m := by
  rcases Option.bind_eq_some_iff.1 hm with ⟨n, hn, hget⟩
  obtain rfl := h n m hget
  exact ⟨hn, hget⟩

/-- A move is changed, and perhaps nothing waits for it any more: the card waits for the changed move or
for none. -/
theorem Numbered.deaf_of_change (h : p.Numbered) {m : Move} (hm : p.pendingMove card = some m)
    {f : Move → Move} (hf : (f m).state = .optimistic → (f m).superseded = true)
    (hmoves : q.moves = (p.updateMove m.id f).moves)
    (hpend : ∀ n, Entries.get? card q.pending = some n → Entries.get? card p.pending = some n) :
    Deaf card q := by
  rcases h.pendingMove hm with ⟨hwaits, hget⟩
  intro m' hm' ho
  rcases Option.bind_eq_some_iff.1 hm' with ⟨n, hn, hget'⟩
  obtain rfl := Option.some.inj (hwaits.symm.trans (hpend n hn))
  rw [hmoves, get?_updateMove, if_pos rfl, hget] at hget'
  obtain rfl := Option.some.inj hget'
  exact hf ho

/-- After news of a card no news of it changes a record. -/
theorem deaf_hear (h : p.Numbered) (card : String) (stage : Key) (x : Option Float) :
    Deaf card (p.hear card stage x) := by
  unfold hear
  cases hm : p.pendingMove card with
  | none =>
    intro m hm'
    simp [hm] at hm'
  | some m =>
    dsimp only
    split
    · rename_i hs
      intro m' hm' ho
      obtain rfl := Option.some.inj (hm.symm.trans hm')
      exact absurd ho hs
    · split
      · cases x with
        | some x =>
          refine h.deaf_of_change hm (f := fun m =>
            { m with state := .confirmed, committed := .real x }) (by simp)
            (moves_clearPending m _) fun n hn => ?_
          rw [get?_clearPending] at hn
          split at hn
          · cases hn
          · rwa [pending_updateMove] at hn
        | none =>
          refine h.deaf_of_change hm (f := ({ · with state := .confirmed })) (by simp) rfl
            fun n hn => ?_
          rwa [pending_updateMove] at hn
      · refine h.deaf_of_change hm (f := ({ · with superseded := true })) (by simp) rfl
          fun n hn => ?_
        rwa [pending_updateMove] at hn

/-- News of a card changes no record of a move that was overridden or settled. -/
theorem Deaf.hear (h : Deaf card p) (hn : p.Numbered) (stage : Key) (x : Option Float) :
    p.hear card stage x = p := by
  unfold Projection.hear
  cases hm : p.pendingMove card with
  | none => rfl
  | some m =>
    dsimp only
    split
    · rfl
    · rename_i ho
      have hs := h m hm (not_not.1 ho)
      have hget := (hn.pendingMove hm).2
      -- the move is marked already
      have hput : Entries.put m.id { m with superseded := true } p.moves = p.moves :=
        Entries.put_of_get? (by rw [hget, ← hs])
      rw [if_neg (by simp [hs]), Projection.updateMove, hget]
      dsimp only
      rw [hput]

theorem hear_again (h : p.Plain) (card : String) (stage : Key) (x : Option Float) :
    (p.hear card stage x).hear card stage x = p.hear card stage x :=
  (deaf_hear h.numbered card stage x).hear (h.hear card stage x).numbered stage x

/-- A card that was placed is placed again. -/
theorem Plain.place_again (h : p.Plain) (card : String) (stage : Key) (x : Mark) :
    (((p.place card stage x).calmed).place card stage x).calmed = (p.place card stage x).calmed := by
  by_cases hs : p.spots card = []
  · -- a card that is not shown is not placed
    have hl := locate_eq_none_iff_spots.2 hs
    have hp : p.place card stage x = p := by simp [Projection.place, hl]
    have hc : (p.calmed).place card stage x = p.calmed := by
      have hl' : p.calmed.locate card = none := hl
      simp [Projection.place, hl']
    rw [hp, hc]
    rfl
  · have hone : (p.spots card).length = 1 := by
      have hle := h.once card
      have hpos := List.length_pos_iff.2 hs
      omega
    rcases List.length_eq_one_iff.1 hone with ⟨z, hz⟩
    have hkeys : (p.place card stage x).calmed.keys.Nodup := (h.place card stage x).keys
    have hspots : (p.place card stage x).calmed.spots card = [(stage, x)] :=
      (carried_place h.keys card stage x).alone hz
    have harrange : arrange ((p.place card stage x).calmed.column stage) =
        (p.place card stage x).calmed.column stage := arrange_column_place h.keys hs stage x
    exact Projection.place_again hkeys rfl hspots harrange

/-- The news that a card was moved comes again. -/
theorem moved_again (h : p.Plain) (card : String) (stage : Key) (x : Float) :
    ((p.remoteMove card stage x).2.calmed.remoteMove card stage x).2.calmed =
      (p.remoteMove card stage x).2.calmed := by
  have hheard := h.hear card stage (some x)
  have hdeaf := deaf_hear h.numbered card stage (some x)
  unfold remoteMove
  generalize p.hear card stage (some x) = q at hheard hdeaf
  have hu := unrecorded_place card stage (.real x) q
  have hdeaf' : Deaf card (q.place card stage (.real x)).calmed := hdeaf.congr ⟨hu.moves, hu.pending, hu.nextMove⟩
  have hnum : (q.place card stage (.real x)).calmed.Numbered := hheard.numbered.congr hu.moves
  dsimp only
  rw [hdeaf'.hear hnum]
  exact hheard.place_again card stage (.real x)

/-- A card that was lost is lost. -/
theorem locate_lose (h : p.Plain) (card : String) : (p.lose card).locate card = none := by
  unfold lose
  cases hl : p.locate card with
  | none => exact hl
  | some loc =>
    rcases loc with ⟨k, i⟩
    rcases tileAt_locate h.keys hl with ⟨t, ht, hid⟩
    -- one tile of the card is taken away, and there is no other
    have hlen := (spots_takeOut h.keys ht card).length_eq
    have hle := h.once card
    rw [if_pos hid, List.length_append, List.length_singleton] at hlen
    have hzero : ((p.takeOut (k, i)).spots card).length = 0 := by omega
    exact locate_eq_none_iff_spots.2 (List.length_eq_zero_iff.1 hzero)

/-- The news that a card was lost comes again, on a view that does not show it any more. -/
theorem lost_again (h : p.Plain) (hj : p.jumbled = false) (card : String) (stage : Key) (x : Float) :
    (((p.hear card stage (some x)).lose card).remoteMove card stage x).2.calmed =
      (p.hear card stage (some x)).lose card := by
  have hheard := h.hear card stage (some x)
  have hdeaf := deaf_hear h.numbered card stage (some x)
  have hcalm := (jumbled_hear card stage (some x) p).trans hj
  generalize p.hear card stage (some x) = q at hheard hdeaf hcalm
  rcases unrecorded_lose card q with ⟨hu, hjumbled⟩
  have hl := locate_lose hheard card
  rw [remoteMove, (hdeaf.congr hu).hear (hheard.lose card).numbered]
  dsimp only
  rw [place, hl]
  exact calmed_of_calm (hjumbled.trans hcalm)

/-- A card that is not shown is not shown after the news that it was moved. -/
theorem locate_remoteMove (hl : p.locate card = none) (stage : Key) (x : Float) :
    (p.remoteMove card stage x).2.calmed.locate card = none := by
  have hnone : (p.hear card stage (some x)).locate card = none := by
    rw [locate, columns_hear]
    exact hl
  have hplace : (p.remoteMove card stage x).2 = p.hear card stage (some x) := by
    rw [remoteMove, place, hnone]
  rw [hplace]
  exact hnone

theorem hearMove_again (h : p.Plain) (hj : p.jumbled = false) (card : String)
    (stage position : Value) :
    (hearMove card stage position (hearMove card stage position p).2).2 =
      (hearMove card stage position p).2 := by
  cases hx : position.toReal with
  | error f =>
    have hmove (p : Projection) : (hearMove card stage position p).2 = p.hear card stage none := by
      rw [state_hearMove, hx]
    rw [hmove, hmove]
    exact hear_again h card stage none
  | ok x =>
    have hmove (p : Projection) : (hearMove card stage position p).2 =
        if !stage.isName && (p.locate card).isSome then (p.hear card stage (some x)).lose card
        else (p.remoteMove card stage x).2.calmed := by
      rw [state_hearMove, hx]
    by_cases hn : (!stage.isName && (p.locate card).isSome) = true
    · have hl := locate_lose (h.hear card stage (some x)) card
      rw [hmove p, if_pos hn, hmove, hl, if_neg (by simp)]
      exact lost_again h hj card stage x
    · rw [hmove p, if_neg hn, hmove, if_neg]
      · exact moved_again h card stage x
      · -- the stage can be a key, or the card is not shown
        simp only [Bool.and_eq_true, not_and_or, Bool.not_eq_true', Bool.not_eq_true,
          Option.isSome_eq_false_iff, Option.isNone_iff_eq_none] at hn ⊢
        exact hn.imp_right fun hl => locate_remoteMove hl stage x

/-! ## A stage was deactivated, again -/

/-- Every move that satisfies a test and waits for its outcome has been overridden. -/
def Overrode (test : Move → Bool) (ns : List Nat) (p : Projection) : Prop :=
  ∀ n ∈ ns, ∀ m, Entries.get? n p.moves = some m → test m = true → m.superseded = true

/-- Overriding a move leaves no test undone. -/
theorem Overrode.updateMove {test : Move → Bool} (ht : ∀ m, test (overridden test m) = test m)
    {ns : List Nat} (h : Overrode test ns p) (k : Nat) :
    Overrode test (k :: ns) (p.updateMove k (overridden test)) := by
  intro n hn m hm htest
  rw [get?_updateMove] at hm
  split at hm
  · rcases Option.map_eq_some_iff.1 hm with ⟨m₀, -, rfl⟩
    rw [ht] at htest
    simp [overridden, htest]
  · rename_i hne
    exact h n ((List.mem_cons.1 hn).resolve_left hne) m hm htest

theorem overrode_supersede {test : Move → Bool} (ht : ∀ m, test (overridden test m) = test m)
    (p : Projection) : Overrode test (Entries.values p.pending) (p.supersede test) := by
  -- what has been overridden stays so while the others are
  have hfold (ns done : List Nat) (q : Projection) (h : Overrode test done q) :
      Overrode test (ns ++ done) (ns.foldl (fun q n => q.updateMove n (overridden test)) q) := by
    induction ns generalizing done q with
    | nil => exact h
    | cons n ns ih =>
      have hnext := ih (n :: done) _ (h.updateMove ht n)
      intro k hk
      refine hnext k ?_
      simp only [List.mem_append, List.mem_cons] at hk ⊢
      tauto
  have hall := hfold (Entries.values p.pending) [] p (by simp [Overrode])
  rw [List.append_nil] at hall
  exact hall

/-- Overriding what has been overridden changes nothing. -/
theorem Overrode.supersede {test : Move → Bool}
    (h : Overrode test (Entries.values p.pending) p) : p.supersede test = p := by
  have hupdate (n : Nat) (hn : n ∈ Entries.values p.pending) :
      p.updateMove n (overridden test) = p := by
    unfold Projection.updateMove
    cases hm : Entries.get? n p.moves with
    | none => rfl
    | some m =>
      have hsame : overridden test m = m := by
        cases ht : test m with
        | false => exact overridden_of_not ht
        | true =>
          have hs := h n hn m hm ht
          rw [overridden, ht, Bool.or_true, ← hs]
      dsimp only
      rw [hsame, Entries.put_of_get? hm]
  unfold Projection.supersede
  generalize Entries.values p.pending = ns at hupdate
  induction ns with
  | nil => rfl
  | cons n ns ih =>
    rw [List.foldl_cons]
    change List.foldl _ (p.updateMove n (overridden test)) ns = p
    rw [hupdate n List.mem_cons_self]
    exact ih fun k hk => hupdate k (List.mem_cons_of_mem _ hk)

/-- A stage that was folded is not active, and no live move comes from it or goes to it. -/
structure Closed (stage : Key) (p : Projection) : Prop where
  inactive : ∀ s ∈ p.stages, s.key = stage → s.active = false
  overrode : Overrode (leaves stage) (Entries.values p.pending) p

theorem Closed.congr (h : Closed stage p) (hs : q.stages = p.stages) (hu : Unrecorded p q) :
    Closed stage q := by
  refine ⟨hs ▸ h.inactive, ?_⟩
  unfold Overrode
  rw [hu.moves, hu.pending]
  exact h.overrode

/-- A stage as it is after a stage was closed. -/
def closeStage (stage : Key) (s : Stage) : Stage :=
  if s.key = stage then { s with active := false } else s

/-- A view before the cards of a stage that was folded come to another one. -/
def closed (stage : Key) (p : Projection) : Projection :=
  supersede (leaves stage) { p with
    stages := p.stages.map (closeStage stage)
    columns := Entries.erase stage p.columns }

/-- A view on which cards of another stage have come to a stage. -/
def gather (fallback : Key) (tiles : List Tile) (p : Projection) : Projection :=
  (p.setColumn fallback (p.column fallback ++ tiles.map ({ · with stage := fallback }))).resort fallback

theorem fold_cases (stage fallback : Key) (p : Projection) :
    p.fold stage fallback = if (p.column stage).isEmpty then (false, p.closed stage)
      else (true, (p.closed stage).gather fallback (p.column stage)) := rfl

theorem columns_closed (stage : Key) (p : Projection) :
    (p.closed stage).columns = Entries.erase stage p.columns := columns_supersede _ _

theorem column_closed_self (stage : Key) (p : Projection) : (p.closed stage).column stage = [] := by
  rw [column, columns_closed, Entries.get?_erase, if_pos rfl, Option.getD_none]

theorem closed_closed (stage : Key) (p : Projection) : Closed stage (p.closed stage) where
  inactive := by
    intro s hs hk
    rw [closed, (same_supersede _ _).stages] at hs
    rcases List.mem_map.1 hs with ⟨s₀, -, rfl⟩
    unfold closeStage at hk ⊢
    split
    · rfl
    · rename_i hne
      rw [if_neg hne] at hk
      exact absurd hk hne
  overrode := by
    rw [closed, pending_supersede]
    exact overrode_supersede (fun _ => rfl) _

/-- Closing a stage again only drops its column. -/
theorem Closed.closed (h : Closed stage p) :
    p.closed stage = { p with columns := Entries.erase stage p.columns } := by
  have hstages : p.stages.map (closeStage stage) = p.stages := by
    refine (List.map_congr_left fun s hs => ?_).trans (List.map_id _)
    unfold closeStage
    split
    · rename_i hk
      rw [← h.inactive s hs hk]
      rfl
    · rfl
  rw [Projection.closed, hstages]
  exact Overrode.supersede (p := { p with columns := Entries.erase stage p.columns }) h.overrode

/-- A stage without a column is folded already. -/
theorem Closed.fold (h : Closed stage p) (hc : stage ∉ Entries.keys p.columns) (fallback : Key) :
    p.fold stage fallback = (false, p) := by
  have hempty : p.column stage = [] := by
    rw [column, Entries.get?_eq_none_iff.2 hc, Option.getD_none]
  rw [fold_cases, hempty, h.closed, Entries.erase_of_not_mem hc]
  rfl

/-- A stage that is folded into another one, or without cards, has no column. -/
theorem not_mem_keys_fold (hne : stage ≠ fallback ∨ p.column stage = []) :
    stage ∉ Entries.keys (p.fold stage fallback).2.columns := by
  have hout : stage ∉ Entries.keys (p.closed stage).columns := by
    rw [columns_closed, Entries.keys_erase]
    simp
  rw [fold_cases]
  split
  · exact hout
  · rename_i hcards
    have hother := hne.resolve_right fun h => hcards (by rw [h]; rfl)
    simp only [gather, columns_resort_setColumn, Entries.mem_keys_put]
    rintro (h | h)
    · exact hother h
    · exact hout h

theorem closed_fold (stage fallback : Key) (p : Projection) :
    Closed stage (p.fold stage fallback).2 := by
  rw [fold_cases]
  split
  · exact closed_closed stage p
  · exact (closed_closed stage p).congr rfl ⟨rfl, rfl, rfl⟩

theorem calmed_gather (fallback : Key) (tiles : List Tile) (p : Projection) :
    (p.gather fallback tiles).calmed = { p with
      columns := Entries.put fallback
        (arrange (p.column fallback ++ tiles.map ({ · with stage := fallback }))) p.columns
      jumbled := false } := by
  rw [← columns_resort_setColumn]
  rfl

/-- A stage with cards that is folded into itself is folded into itself again. -/
theorem fold_self_again (hc : p.column stage ≠ []) :
    ((p.fold stage stage).2.calmed.fold stage stage).2.calmed = (p.fold stage stage).2.calmed := by
  have hclosed : Closed stage (p.fold stage stage).2.calmed :=
    (closed_fold stage stage p).congr rfl ⟨rfl, rfl, rfl⟩
  obtain ⟨ts, hts⟩ : ∃ ts, ts = (p.column stage).map fun t : Tile => { t with stage } := ⟨_, rfl⟩
  obtain ⟨q, hq⟩ : ∃ q, q = (p.fold stage stage).2.calmed := ⟨_, rfl⟩
  -- the column of the stage goes, and comes back at the end with its cards in order
  have hcolumns : q.columns = Entries.put stage (arrange ts) (Entries.erase stage p.columns) := by
    rw [hq, fold_cases, if_neg (by simpa using hc), calmed_gather, column_closed_self,
      columns_closed, List.nil_append, hts]
  have hcalm : q.jumbled = false := by rw [hq]; rfl
  have hcolumn : q.column stage = arrange ts := by
    rw [column, hcolumns, Entries.get?_put_self, Option.getD_some]
  have hseated : (arrange ts).map (fun t : Tile => { t with stage }) = arrange ts := by
    refine (List.map_congr_left fun t ht => ?_).trans (List.map_id _)
    rw [(arrange_perm ts).mem_iff, hts] at ht
    rcases List.mem_map.1 ht with ⟨u, -, rfl⟩
    rfl
  have hsome : ¬(q.column stage).isEmpty = true := by
    rw [hcolumn, List.isEmpty_iff]
    intro hnil
    have hlen := (arrange_perm ts).length_eq
    rw [hnil, hts, List.length_map, List.length_nil] at hlen
    exact hc (List.length_eq_zero_iff.1 hlen.symm)
  rw [← hq] at hclosed ⊢
  rw [fold_cases, if_neg hsome, calmed_gather, column_closed_self, hclosed.closed, hcolumn,
    List.nil_append, hseated, arrange_arrange]
  dsimp only
  rw [hcolumns, Entries.erase_put,
    Entries.erase_of_not_mem (by rw [Entries.keys_erase]; simp), ← hcolumns, ← hcalm]

theorem hearFold_again (stage fallback : Value) (p : Projection) :
    (hearFold stage fallback (hearFold stage fallback p).2).2 = (hearFold stage fallback p).2 := by
  by_cases hs : stage.isName = false
  · simp only [state_hearFold, if_pos hs]
  · have hfold (p : Projection) : (hearFold stage fallback p).2 =
        if (p.fold stage fallback).1 && !fallback.isName then
          { (p.fold stage fallback).2 with
            columns := Entries.erase fallback (p.fold stage fallback).2.columns, jumbled := false }
        else (p.fold stage fallback).2.calmed := by
      rw [state_hearFold, if_neg hs]
    -- the stage has no column then, unless it was folded into itself
    by_cases hself : stage = fallback ∧ p.column stage ≠ []
    · obtain ⟨rfl, hc⟩ := hself
      rw [hfold p, if_neg (by simp [hs]), hfold, if_neg (by simp [hs])]
      exact fold_self_again hc
    · have hgone : stage ∉ Entries.keys (p.fold stage fallback).2.columns :=
        not_mem_keys_fold (by tauto)
      have hq : ∃ q, (hearFold stage fallback p).2 = q ∧ Closed stage q ∧
          stage ∉ Entries.keys q.columns ∧ q.jumbled = false := by
        rw [hfold p]
        split
        · refine ⟨_, rfl, (closed_fold stage fallback p).congr rfl ⟨rfl, rfl, rfl⟩, ?_, rfl⟩
          exact fun h => hgone ((Entries.keys_erase_sublist _ _).subset h)
        · exact ⟨_, rfl, (closed_fold stage fallback p).congr rfl ⟨rfl, rfl, rfl⟩, hgone, rfl⟩
      rcases hq with ⟨q, hq, hclosed, hnone, hj⟩
      rw [hq, hfold q, hclosed.fold hnone]
      exact calmed_of_calm hj

/-! ## Every event, after every run -/

/-- The second delivery of an event changes nothing. -/
theorem act_hear_again (h : p.Plain) (hj : p.jumbled = false) (e : Value) :
    (p.act (.hear e)).act (.hear e) = p.act (.hear e) := by
  rcases reports_event e with hnone | ⟨card, stage, position, hmove⟩ | ⟨stage, fallback, hfold⟩
  · exact hnone _
  · change (applyEvent e (applyEvent e p).2).2 = (applyEvent e p).2
    rw [hmove, hmove]
    exact hearMove_again h hj card stage position
  · change (applyEvent e (applyEvent e p).2).2 = (applyEvent e p).2
    rw [hfold, hfold]
    exact hearFold_again stage fallback p

/-- Whatever was done with a view whose boards list no card twice: an event that is delivered twice in a
row leaves the view that it leaves when it is delivered once, whatever the event is. -/
theorem redelivered (board : Key) {acts : List Act}
    (hr : ∀ payload, .refresh payload ∈ acts → ListsOnce payload) (e : Value) :
    run { board } (acts ++ [.hear e, .hear e]) = run { board } (acts ++ [.hear e]) := by
  rcases plain_run board hr with ⟨hp, hj⟩
  rw [run_append, run_append]
  exact act_hear_again hp hj e

/-- The news that confirms a move that is under way is delivered twice; the first delivery settles the
move. -/
theorem redelivered_oneUnderWay :
    (∀ payload, .refresh payload ∈ oneUnderWay → ListsOnce payload) ∧
      run { board := "sales" } (oneUnderWay ++ [echo "1" "open" 6.0, echo "1" "open" 6.0]) =
        run { board := "sales" } (oneUnderWay ++ [echo "1" "open" 6.0]) ∧
      ((run { board := "sales" } oneUnderWay).pendingMove "1").isSome = true ∧
      ((run { board := "sales" } (oneUnderWay ++ [echo "1" "open" 6.0])).pendingMove "1").isSome =
        false := by
  exact ⟨listsOnce_oneUnderWay, redelivered "sales" listsOnce_oneUnderWay _, by decide, by decide⟩

end Projection

end Kanban
