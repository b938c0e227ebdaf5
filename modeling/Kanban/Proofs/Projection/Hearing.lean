import Kanban.Proofs.Projection.Agreement

/-!
# Kanban.Proofs.Projection.Hearing — what a client makes of what the server says

Events and full reads of the board change the agreed place of cards: to the place the server tells,
with the stage the server folds, to the places of a board as it was read. One case is different: a
stage that is folded while a live move comes from it or goes to it. The move ends there and then,
and its card stays at the provisional place.

* `agreed?_remoteMove` — a card is moved by someone.
* `agreed?_fold` — a stage is folded.
* `agreed?_refresh`, `spot?_refresh` — the board is read.
-/

namespace Kanban

namespace Projection

variable {p q : Projection}

/-! ## What the server says of a card -/

theorem mild_overridden : Mild ({ · with superseded := true }) :=
  ⟨fun _ => rfl, fun _ => rfl, fun _ => rfl, fun _ => id⟩

/-- Hearing of a card changes no move that another card waits for. -/
theorem pendingMove_hear_of_ne (h : p.Ledger) {card c : String} (hc : c ≠ card) (stage : Key)
    (x : Float) : (p.hear card stage (some x)).pendingMove c = p.pendingMove c := by
  unfold hear
  cases hp : p.pendingMove card with
  | none => rfl
  | some m =>
    obtain ⟨hm, hcard, ho, hr⟩ := h.of_pendingMove hp
    have hne (m' : Move) (hm' : p.pendingMove c = some m') : m' ≠ m := by
      rintro rfl
      exact hc ((h.of_pendingMove hm').2.1.symm.trans hcard)
    simp only [ho, ne_eq, not_true, if_false]
    split
    · exact (pendingMove_settle h hm _ c).trans (if_neg fun heq => hne m heq rfl)
    · rw [pendingMove_revise (h.revised_updateMove m.id mild_overridden fun _ => rfl)]
      cases hpc : p.pendingMove c with
      | none => rfl
      | some m' =>
        -- another record, as its number tells
        have hid : m'.id ≠ m.id := by
          intro heq
          have hm' := (h.of_pendingMove hpc).1
          rw [heq, hm] at hm'
          exact hne m' hpc (Option.some.inj hm').symm
        simp [hid]

/-- Hearing of a card ends what its live move was for: it is confirmed or overridden. -/
theorem live?_hear (h : p.Ledger) (card : String) (stage : Key) (x : Float) (c : String) :
    (p.hear card stage (some x)).live? c = if c = card then none else p.live? c := by
  by_cases hc : c = card
  · subst hc
    rw [if_pos rfl]
    unfold hear
    cases hp : p.pendingMove c with
    | none => exact live?_of_not_pending hp
    | some m =>
      obtain ⟨hm, rfl, ho, hr⟩ := h.of_pendingMove hp
      simp only [ho, ne_eq, not_true, if_false]
      by_cases hstage : stage = m.toStage ∧ m.superseded = false
      · -- the event brings the card where the move was to bring it
        have hl : p.live? m.card = some m := h.live?_of_unsettled hm ho hr hstage.2
        rw [if_pos hstage, live?_settle_live h hl, if_pos rfl]
      · -- any other event overrides the move
        rw [if_neg hstage, live?,
          pendingMove_revise (h.revised_updateMove m.id mild_overridden fun _ => rfl)]
        simp [hp, Option.filter]
  · rw [if_neg hc, live?_congr (pendingMove_hear_of_ne h hc stage x)]

theorem hear_spec (h : p.Sound) (card : String) (stage : Key) (x : Float) :
    (p.hear card stage (some x)).Sound ∧ (p.hear card stage (some x)).columns = p.columns := by
  unfold hear
  cases hp : p.pendingMove card with
  | none => exact ⟨h, rfl⟩
  | some m =>
    obtain ⟨hm, -, ho, -⟩ := h.ledger.of_pendingMove hp
    simp only [ho, ne_eq, not_true, if_false]
    split
    · exact ⟨h.settle hm (mild_succeeded (.real x)) (by simp) rfl, by simp⟩
    · have hrev := h.ledger.revised_updateMove m.id mild_overridden fun _ => rfl
      refine ⟨⟨h.tidy.congr (by simp) (by simp), h.ledger.revise hrev ?_⟩, by simp⟩
      intro m' hm'
      split <;> exact hm'

theorem sound_remoteMove (h : p.Sound) (card : String) (stage : Key) (x : Float) :
    (p.remoteMove card stage x).2.Sound := by
  -- first the move of the card is settled or overridden, then the card is placed
  obtain ⟨hs, -⟩ := hear_spec h card stage x
  have hu := unrecorded_place card stage (.real x) (p.hear card stage (some x))
  exact hs.show ((landed_place hs.tidy card stage rfl).tidy hs.tidy rfl) hu.moves hu.pending
    hu.nextMove

/-- The place that the server tells of a card becomes the agreed one. -/
theorem agreed?_remoteMove (h : p.Sound) (card : String) (stage : Key) (x : Float) (c : String) :
    (p.remoteMove card stage x).2.agreed? c =
      if c = card then (p.agreed? c).map fun _ => (stage, .real x) else p.agreed? c := by
  obtain ⟨hs, hcol⟩ := hear_spec h card stage x
  have hl (d : String) := live?_hear h.ledger card stage x d
  -- no move of the card is live when it is placed
  rw [remoteMove, agreed?_place hs.tidy ((hl card).trans (if_pos rfl)) stage rfl]
  by_cases hc : c = card
  · rw [if_pos hc, if_pos hc, map_agreed?, map_agreed?, spot?_congr hcol]
  · rw [if_neg hc, if_neg hc]
    exact agreed?_congr (spot?_congr hcol c) ((hl c).trans (if_neg hc))

theorem live?_remoteMove (h : p.Ledger) (card : String) (stage : Key) (x : Float) (c : String) :
    (p.remoteMove card stage x).2.live? c = if c = card then none else p.live? c :=
  ((unrecorded_place card stage (.real x) (p.hear card stage (some x))).live? c).trans
    (live?_hear h card stage x c)

/-! ## What the server says of a stage -/

/-- Whether folding a stage overrides a move. -/
def leaves (stage : Key) (m : Move) : Bool := m.toStage = stage || m.fromStage = stage

/-- Folding a stage: it is closed and its column dropped, the moves from it and to it are overridden,
and its cards, if it had any, come behind those of the other stage. -/
theorem fold_eq (stage fallback : Key) (p : Projection) :
    ∃ q, Unrecorded p q ∧ q.columns = Entries.erase stage p.columns ∧ q.jumbled = p.jumbled ∧
      (p.fold stage fallback).2 =
        if (p.column stage).isEmpty then q.supersede (leaves stage)
        else (((q.supersede (leaves stage)).setColumn fallback
          ((q.supersede (leaves stage)).column fallback ++
            (p.column stage).map ({ · with stage := fallback }))).resort fallback) := by
  refine ⟨{ p with
    stages := p.stages.map fun s : Stage =>
      if s.key = stage then { s with active := false } else s
    columns := Entries.erase stage p.columns }, ⟨rfl, rfl, rfl⟩, rfl, rfl, ?_⟩
  unfold fold
  dsimp only
  split <;> rfl

/-- Folding a stage overrides the moves from and to the stage, and no other record changes. -/
theorem fold_records (stage fallback : Key) (p : Projection) :
    ∃ q, Unrecorded (q.supersede (leaves stage)) (p.fold stage fallback).2 ∧ Unrecorded p q := by
  obtain ⟨q, hq, -, -, hfold⟩ := fold_eq stage fallback p
  refine ⟨q, ?_, hq⟩
  rw [hfold]
  split <;> exact ⟨rfl, rfl, rfl⟩

/-- Folding a stage carries what is shown. -/
theorem gathered_fold (h : p.Sound) (stage fallback : Key) :
    Gathered stage fallback p (p.fold stage fallback).2 := by
  obtain ⟨q, -, hqc, hqj, hfold⟩ := fold_eq stage fallback p
  have hcol : (q.supersede (leaves stage)).columns = Entries.erase stage p.columns :=
    (columns_supersede _ q).trans hqc
  have hcalm : (q.supersede (leaves stage)).jumbled = p.jumbled :=
    (jumbled_supersede _ q).trans hqj
  rw [hfold]
  split
  · rename_i hm
    exact gathered_none h.tidy (List.isEmpty_iff.1 hm) fallback hcol hcalm
  · exact gathered_some h.tidy stage fallback hcol

theorem sound_fold (h : p.Sound) (stage fallback : Key) : (p.fold stage fallback).2.Sound := by
  obtain ⟨q, hu, hq⟩ := fold_records stage fallback p
  have hql : q.Ledger := h.ledger.congr hq.moves hq.pending hq.nextMove
  exact ⟨(gathered_fold h stage fallback).tidy h.tidy, (hql.supersede _).congr hu.moves hu.pending hu.nextMove⟩

theorem overridden_of_not {test : Move → Bool} {m : Move} (h : test m = false) :
    overridden test m = m := by
  rw [overridden, h, Bool.or_false]

theorem live?_fold (h : p.Ledger) (stage fallback : Key) (c : String) :
    (p.fold stage fallback).2.live? c = (p.live? c).filter (!leaves stage ·) := by
  obtain ⟨q, hu, hq⟩ := fold_records stage fallback p
  have hql : q.Ledger := h.congr hq.moves hq.pending hq.nextMove
  rw [hu.live?, live?, pendingMove_supersede hql, pendingMove_congr hq.moves hq.pending, live?]
  cases p.pendingMove c with
  | none => rfl
  | some m =>
    rw [Option.map_some]
    cases hl : leaves stage m with
    | false => rw [overridden_of_not hl]; cases hs : m.superseded <;> simp [Option.filter, hl, hs]
    | true => cases hs : m.superseded <;> simp [Option.filter, overridden, hl, hs]

/-- Folding a stage carries the agreed place. A move from or to the stage ends, and the card stays
where it is shown. -/
theorem agreed?_fold (h : p.Sound) (stage fallback : Key) (c : String) :
    (p.fold stage fallback).2.agreed? c =
      (if (p.live? c).any (leaves stage) then p.spot? c else p.agreed? c).map
        (Spot.reseat stage fallback) := by
  have hsp := (gathered_fold h stage fallback).spot? h.tidy c
  have hl := live?_fold h.ledger stage fallback c
  cases hlive : p.live? c with
  | none =>
    rw [hlive] at hl
    rw [agreed?_of_not_live hl, hsp, agreed?_of_not_live hlive]
    rfl
  | some m =>
    rw [hlive] at hl
    by_cases hm : leaves stage m
    · -- the move ends, and the card is carried from where it is shown
      have hl' : (p.fold stage fallback).2.live? c = none := by simpa [Option.filter, hm] using hl
      rw [agreed?_of_not_live hl', hsp, Option.any_some, if_pos hm]
    · have hl' : (p.fold stage fallback).2.live? c = some m := by
        simpa [Option.filter, hm] using hl
      -- the move goes on, and does not come from the stage: it goes back to the same place
      have horig : Spot.reseat stage fallback m.origin = m.origin := by
        have hne : m.fromStage ≠ stage := by
          intro heq
          exact hm (by simp [leaves, heq])
        exact if_neg hne
      rw [agreed?, hsp, hl', Option.any_some, if_neg hm, agreed?, hlive]
      simp [Function.comp_def, horig]

/-! ## What the server says of the board -/

/-- The place of a card as the server keeps it. -/
def Spot.ofCard (c : Card) : Spot := (c.stage, .real c.position)

/-- The columns of the active stages, before any card is shown. -/
theorem empty_activeStages (p : Projection) :
    (Entries.keys (Entries.ofList
      (p.activeStages.map fun s => (s.key, ([] : List Tile))))).Nodup ∧
        ∀ e ∈ Entries.ofList (p.activeStages.map fun s => (s.key, ([] : List Tile))), e.2 = [] := by
  simpa only [List.map_map, Function.comp_def] using empty_columns (p.activeStages.map (·.key))

theorem nodup_keys_refresh (cs : Entries Key (List Card)) (p : Projection) :
    (Entries.keys (p.refresh cs).columns).Nodup := by
  have h := Entries.nodup_foldl_put
    (cs.map fun e => (e.1, (displayOrder below e.2).map Tile.ofCard)) (empty_activeStages p).1
  rwa [List.foldl_map] at h

/-- All cards are shown that were read, and no others. -/
theorem tiles_refresh {cs : Entries Key (List Card)} (hcs : (Entries.keys cs).Nodup)
    (p : Projection) : (p.refresh cs).tiles.Perm ((cardsOf cs).map Tile.ofCard) := by
  obtain ⟨hkeys, hempty⟩ := empty_activeStages p
  have hnone (k : Key) : (Entries.get? k (Entries.ofList
      (p.activeStages.map fun s => (s.key, ([] : List Tile))))).getD [] = [] := by
    cases hg : Entries.get? k (Entries.ofList
        (p.activeStages.map fun s => (s.key, ([] : List Tile)))) with
    | none => rfl
    | some ts => exact hempty _ (Entries.mem_of_get? hg)
  have hzero : (Entries.ofList
      (p.activeStages.map fun s => (s.key, ([] : List Tile)))).flatMap (·.2) = [] := by
    rw [List.flatMap_eq_nil_iff]
    exact hempty
  refine (tiles_foldl_put hcs hkeys (fun k _ => hnone k)
    fun cards => (displayOrder below cards).map Tile.ofCard).trans ?_
  rw [hzero, List.nil_append, cardsOf, List.map_flatMap]
  exact List.Perm.flatMap_left _ fun e _ => (displayOrder_perm below e.2).map _

theorem homed_refresh {cs : Entries Key (List Card)} (hcs : Filed cs) (p : Projection) :
    (p.refresh cs).Homed := by
  obtain ⟨hkeys, hempty⟩ := empty_activeStages p
  have hhome := home_foldl_put cs (fun cards => (displayOrder below cards).map Tile.ofCard)
    hkeys ?_ ?_
  · exact ⟨hhome.1, hhome.2⟩
  · intro e he t ht
    obtain ⟨c, hc, rfl⟩ := List.mem_map.1 ht
    exact hcs.home e he c ((displayOrder_perm below e.2).mem_iff.1 hc)
  · intro e he t ht
    rw [hempty e he] at ht
    simp at ht

theorem tidy_refresh {cs : Entries Key (List Card)} (hcs : Filed cs)
    (hj : p.jumbled = false) : (p.refresh cs).Tidy := by
  have ht := tiles_refresh hcs.keys p
  refine ⟨homed_refresh hcs p, ?_, ?_, ?_⟩
  · have hmap : ((cardsOf cs).map Tile.ofCard).map (·.id) = (cardsOf cs).map (·.id) := by
      rw [List.map_map]
      rfl
    rw [(ht.map _).nodup_iff, hmap]
    exact hcs.ids
  · intro t htm
    obtain ⟨c, -, rfl⟩ := List.mem_map.1 (ht.mem_iff.1 htm)
    rfl
  · exact (jumbled_supersede _ p).trans hj

theorem sound_refresh (h : p.Sound) {cs : Entries Key (List Card)} (hcs : Filed cs) :
    (p.refresh cs).Sound where
  tidy := tidy_refresh hcs h.tidy.calm
  ledger := (h.ledger.supersede _).congr rfl rfl rfl

theorem live?_refresh (h : p.Ledger) (cs : Entries Key (List Card)) (c : String) :
    (p.refresh cs).live? c = none := by
  have hp : (p.refresh cs).pendingMove c = (p.supersede fun _ => true).pendingMove c :=
    pendingMove_congr rfl rfl c
  rw [live?, hp, pendingMove_supersede h]
  cases p.pendingMove c <;> simp [Option.filter, overridden]

/-- A board as it was read is shown, whatever was shown before. -/
theorem spot?_refresh (h : p.Sound) {cs : Entries Key (List Card)} (hcs : Filed cs) (d : String) :
    (p.refresh cs).spot? d = ((cardsOf cs).find? (·.id = d)).map Spot.ofCard := by
  have ht := tidy_refresh hcs h.tidy.calm
  have hp := tiles_refresh hcs.keys p
  rw [spot?]
  cases hf : (cardsOf cs).find? (·.id = d) with
  | none =>
    have hn : (p.refresh cs).tile? d = none := by
      rw [ht.tile?_eq_none_iff]
      intro t htm
      obtain ⟨c, hc, rfl⟩ := List.mem_map.1 (hp.mem_iff.1 htm)
      have hne : c.id ≠ d := by simpa using List.find?_eq_none.1 hf c hc
      exact hne
    rw [hn]
    rfl
  | some c =>
    have hc : (p.refresh cs).tile? d = some (Tile.ofCard c) := by
      -- ids are distinct, so the card found is the only one
      have hid : c.id = d := by simpa using List.find?_some hf
      rw [ht.tile?_eq_some_iff, hp.mem_iff]
      exact ⟨List.mem_map_of_mem (List.mem_of_find?_eq_some hf), hid⟩
    rw [hc]
    rfl

theorem agreed?_refresh (h : p.Sound) {cs : Entries Key (List Card)} (hcs : Filed cs)
    (d : String) : (p.refresh cs).agreed? d = ((cardsOf cs).find? (·.id = d)).map Spot.ofCard :=
  (agreed?_of_not_live (live?_refresh h.ledger cs d)).trans (spot?_refresh h hcs d)

end Projection

end Kanban
