import Kanban.Proofs.Projection.Acts
import Kanban.Proofs.Projection.Hearing
import Mathlib.Data.List.Induction
import Mathlib.Data.List.Infix

/-!
# Kanban.Proofs.Projection.Shape — what a client shows is always a board

Whatever is done with a client's view, and in whatever order, no card is shown twice, every card is
in the column of its stage and every column is in display order. What a card carries changes only
when the board is read: until then the same cards are shown, with what they carry.

* `Kept` — what an operation does to cards and to the order of columns.
* `step_inv` — one act.
* `shaped` — every run.
-/

namespace Kanban

/-- Whether a position is the undefined number. -/
def Mark.isUndefined (x : Mark) : Bool := x.number?.any (·.isNaN)

theorem Mark.definite_of_number {x : Mark} (h : x.number?.isSome) (hd : x.isUndefined = false) :
    x.Definite := by
  obtain ⟨y, hy⟩ := Option.isSome_iff_exists.1 h
  refine ⟨y, hy, ?_⟩
  rwa [Mark.isUndefined, hy] at hd

namespace Projection

variable {p q r : Projection}

/-- What a card carries from place to place. -/
def essence (t : Tile) : String × Key × Int × Entries String Value :=
  (t.id, t.board, t.unread, t.attributes)

/-- An operation loses no card, adds none and leaves columns in order. -/
structure Kept (p q : Projection) : Prop where
  ordered : p.Ordered → q.Definite → q.Ordered
  carried : (q.tiles.map essence).Perm (p.tiles.map essence)

theorem Kept.of_columns (hc : q.columns = p.columns) : Kept p q where
  ordered := fun h _ => h.congr hc
  carried := by rw [tiles_congr hc]

/-- What happens before, without touching a column. -/
theorem Kept.after (h : Kept q r) (hc : q.columns = p.columns) : Kept p r where
  ordered := fun ho hd => h.ordered (ho.congr hc) hd
  carried := by
    rw [← tiles_congr hc]
    exact h.carried

/-- What happens afterwards, without touching a column. -/
theorem Kept.before (h : Kept p q) (hc : r.columns = q.columns) : Kept p r where
  ordered := fun ho hd => (h.ordered ho (Each.congr hd hc.symm)).congr hc
  carried := by
    rw [tiles_congr hc]
    exact h.carried

theorem perm_essence {f : Tile → Tile} (hf : q.tiles.Perm (p.tiles.map f))
    (he : ∀ t, essence (f t) = essence t) : (q.tiles.map essence).Perm (p.tiles.map essence) := by
  refine (hf.map essence).trans ?_
  rw [List.map_map]
  exact .of_eq (List.map_congr_left fun t _ => he t)

/-- Moving a card. -/
theorem Landed.kept {card : String} {stage : Key} {x : Mark} (h : Landed card stage x p q) :
    Kept p q where
  ordered := h.ordered
  carried := perm_essence h.tiles fun t => by
    unfold relocate
    split <;> rfl

/-- Folding a stage. -/
theorem Gathered.kept {stage fallback : Key} (h : Gathered stage fallback p q) : Kept p q where
  ordered := h.ordered
  carried := perm_essence h.tiles fun t => by
    unfold reseat
    split <;> rfl

/-! ## Local moves -/

theorem kept_begin (h : p.Sound) (now : Float) (card : String) {target : Key}
    (ht : target.isName = true) (d : Directive) (a : Allocator) :
    Kept p (p.begin now card target d a).2.1 := by
  cases hc : p.spot? card with
  | none =>
    rw [begin_absent (locate_eq_none_of_spot? h.tidy hc)]
    exact .of_columns rfl
  | some z =>
    obtain ⟨m, x, b, q, hb, -, -, -, -, hl, -⟩ :=
      begin_shown h.tidy ht (Option.isSome_of_eq_some hc) now d a
    rw [hb]
    exact hl.kept.before (columns_track m q)

theorem kept_rollback (h : p.Sound) (n : Nat) (error : Option Reason) :
    Kept p (p.rollback n error) := by
  cases hm : Entries.get? n p.moves with
  | none =>
    rw [rollback, hm]
    exact .of_columns rfl
  | some m =>
    by_cases ho : m.state = .optimistic
    · obtain ⟨q, -, hc, hj, hq⟩ := rollback_eq h.ledger hm ho error
      rw [hq]
      split
      · exact .of_columns hc
      · exact (landed_restore (h.tidy.congr hc hj) (h.ledger.ranked hm)).kept.after hc
    · rw [rollback_settled hm ho]
      exact .of_columns rfl

theorem kept_confirm (h : p.Sound) (n : Nat) (stage : Option Key) {x : Mark}
    (hx : x.number?.isSome) : Kept p (p.confirm n stage (some x)) := by
  cases hm : Entries.get? n p.moves with
  | none =>
    rw [confirm, hm]
    exact .of_columns rfl
  | some m =>
    by_cases ho : m.state = .optimistic
    · obtain ⟨q, rfl, hq⟩ := confirm_eq h.ledger hm ho stage x
      rw [hq]
      split
      · rename_i hr
        refine .of_columns ?_
        rw [rebase_eq hr]
        cases heir? m _ <;> simp
      · split
        · exact .of_columns (by simp)
        · have hs := h.settle (h.ledger.numbered_id hm) (mild_succeeded x) (by simp [succeeded]) rfl
          exact (landed_place hs.tidy m.card _ hx).kept.after (by simp)
    · rw [confirm_settled hm ho]
      exact .of_columns rfl

/-! ## What the server says -/

theorem kept_remoteMove (h : p.Sound) (card : String) (stage : Key) (x : Float) :
    Kept p (p.remoteMove card stage x).2 := by
  obtain ⟨hs, hc⟩ := hear_spec h card stage x
  exact (landed_place hs.tidy card stage (x := .real x) rfl).kept.after hc

/-- A board that is read is shown in order. -/
theorem ordered_refresh {cs : Entries Key (List Card)} (hcs : Filed cs) {p : Projection}
    (hd : (p.refresh cs).Definite) : (p.refresh cs).Ordered := by
  have hcards : ∀ e ∈ cs, ∀ c ∈ e.2, c.position.isNaN = false := by
    intro e he c hc
    have hmem : Tile.ofCard c ∈ (p.refresh cs).tiles :=
      (tiles_refresh hcs.keys p).mem_iff.2 (List.mem_map_of_mem (List.mem_flatMap.2 ⟨e, he, hc⟩))
    obtain ⟨e', he', hc'⟩ := mem_tiles.1 hmem
    obtain ⟨x, hx, hxn⟩ := hd e' he' _ hc'
    obtain rfl : c.position = x := Option.some.inj hx
    exact hxn
  refine each_foldl_put (fun cards => (displayOrder below cards).map Tile.ofCard)
    (fun e he => precedes_displayOrder (hcards e he)) ?_
  -- before the cards are shown all columns are empty
  have hempty := (empty_columns (p.activeStages.map (·.key))).2
  intro e he
  rw [hempty e (by simpa only [List.map_map, Function.comp_def] using he)]
  exact List.Pairwise.nil

/-! ## Acts -/

/-- A board as it is read: every card once, under its stage. -/
def Listed (payload : Value) : Prop := ∀ board cs, readColumns board payload = .ok cs → Filed cs

/-- What comes from the server makes sense. -/
def Act.Legible : Act → Prop
  | .hear e => Placed e ∧ Keyed e
  | .refresh payload => Listed payload
  | _ => True

theorem Sound.calmed (h : p.Sound) : p.calmed = p := calmed_of_calm h.tidy.calm

/-- What an event that makes sense comes to. -/
theorem hear_legible (h : p.Sound) {e : Value} (hp : Placed e) (hk : Keyed e) :
    (p.act (.hear e)).Sound ∧ Kept p (p.act (.hear e)) := by
  have key := heard e p
  generalize p.act (.hear e) = q at key
  cases key with
  | ignored => exact ⟨h, .of_columns rfl⟩
  | unplaced card stage position r hr hm hpos f hf =>
    obtain ⟨x, hx⟩ := hp r position hr hm hpos
    simp [hx] at hf
  | lost card stage x r hr hs hn =>
    have hname := hk r "stage_key" stage hr (by simp) hs
    simp [hname] at hn
  | emptied stage fallback r hr hs hn =>
    have hname := hk r "fallback_stage_key" fallback hr (by simp) hs
    simp [hname] at hn
  | moved card stage x =>
    have hs := sound_remoteMove h card stage x
    rw [hs.calmed]
    exact ⟨hs, kept_remoteMove h card stage x⟩
  | folded stage fallback =>
    have hs := sound_fold h stage fallback
    rw [hs.calmed]
    exact ⟨hs, (gathered_fold h stage fallback).kept⟩

/-- What learning a success comes to. -/
theorem act_confirm_spec (h : p.Sound) (n : Nat) (stage : Option String)
    (position : Option Float) :
    (p.act (.confirm n stage position)).Sound ∧ Kept p (p.act (.confirm n stage position)) := by
  rw [act_confirm]
  cases position with
  | none =>
    have hcloses := closes_confirm h.ledger n (namedStage stage)
    have hs := hcloses.sound h
    rw [Option.map_none, hs.calmed]
    exact ⟨hs, .of_columns hcloses.columns⟩
  | some x =>
    have hs := sound_confirm h n (namedStage stage) (x := .real x) rfl
    rw [Option.map_some, hs.calmed]
    exact ⟨hs, kept_confirm h n (namedStage stage) rfl⟩

/-- What learning a failure comes to. -/
theorem act_rollback_spec (h : p.Sound) (n : Nat) (error : Option Failure) :
    (p.act (.rollback n error)).Sound ∧ Kept p (p.act (.rollback n error)) := by
  obtain ⟨reason, -, -, hq⟩ | ⟨fault, -, hq⟩ := act_rollback n error p
  · have hs := sound_rollback h n reason
    rw [hq, hs.calmed]
    exact ⟨hs, kept_rollback h n reason⟩
  · have hcloses := closes_giveUp h.ledger n error
    rw [hq]
    exact ⟨hcloses.sound h, .of_columns hcloses.columns⟩

/-- Every act leaves a view sound and its columns in order, and all but reads keep the cards. -/
theorem step_inv (h : p.Sound) (a : Act) (ha : a.Legible) :
    (p.act a).Sound ∧ (p.Ordered → (p.act a).Definite → (p.act a).Ordered) ∧
      (a.isRefresh = false → ((p.act a).tiles.map essence).Perm (p.tiles.map essence)) := by
  cases a with
  | begin now card target d alloc =>
    have hk := kept_begin h now card (Value.isName_text target) d alloc
    exact ⟨sound_begin h now card rfl d alloc, hk.ordered, fun _ => hk.carried⟩
  | confirm n stage position =>
    obtain ⟨hs, hk⟩ := act_confirm_spec h n stage position
    exact ⟨hs, hk.ordered, fun _ => hk.carried⟩
  | rollback n error =>
    obtain ⟨hs, hk⟩ := act_rollback_spec h n error
    exact ⟨hs, hk.ordered, fun _ => hk.carried⟩
  | hear e =>
    obtain ⟨hs, hk⟩ := hear_legible h ha.1 ha.2
    exact ⟨hs, hk.ordered, fun _ => hk.carried⟩
  | refresh payload =>
    -- whatever the board and its stages are taken to be, the view is as sound
    have hboard (board : Key) (stages : List Stage) : Sound { p with board, stages } :=
      h.show (h.tidy.congr rfl rfl) rfl rfl rfl
    rcases refreshed payload p with ⟨board, stages, hq⟩ | ⟨board, stages, cs, hcs, hq⟩
    · rw [hq]
      refine ⟨hboard board stages, fun ho _ => ho.congr rfl, ?_⟩
      simp [Act.isRefresh]
    · have hfiled := ha board cs hcs
      rw [hq]
      refine ⟨sound_refresh (hboard board stages) hfiled, fun _ hd => ordered_refresh hfiled hd, ?_⟩
      simp [Act.isRefresh]

/-! ## Runs -/

/-- Whatever comes from the server makes sense. -/
def Legible (acts : List Act) : Prop := ∀ a ∈ acts, a.Legible

theorem sound_run (board : Key) {acts : List Act} (h : Legible acts) :
    (run { board } acts).Sound := by
  induction acts using List.reverseRecOn with
  | nil => exact sound_new board
  | append_singleton acts a ih =>
    rw [run_concat]
    exact (step_inv (ih fun b hb => h b (List.mem_append_left _ hb)) a (h a (by simp))).1

theorem ordered_run (board : Key) {acts : List Act} (h : Legible acts)
    (hd : ∀ before, before <+: acts → (run { board } before).Definite) :
    (run { board } acts).Ordered := by
  induction acts using List.reverseRecOn with
  | nil =>
    intro e he
    simp at he
  | append_singleton acts a ih =>
    have hacts : Legible acts := fun b hb => h b (List.mem_append_left _ hb)
    have hlast := hd _ (List.prefix_refl _)
    rw [run_concat] at hlast ⊢
    refine (step_inv (sound_run board hacts) a (h a (by simp))).2.1 (ih hacts ?_) hlast
    exact fun before hb => hd before (hb.trans (List.prefix_append _ _))

/-- Until the board is read again the same cards are shown. -/
theorem carried_run (h : p.Sound) {acts : List Act} (ha : Legible acts)
    (hr : ∀ a ∈ acts, a.isRefresh = false) :
    ((p.run acts).tiles.map essence).Perm (p.tiles.map essence) := by
  induction acts generalizing p with
  | nil => exact .refl _
  | cons a acts ih =>
    obtain ⟨hs, -, hc⟩ := step_inv h a (ha a List.mem_cons_self)
    refine (ih hs (fun b hb => ha b (List.mem_cons_of_mem _ hb))
      fun b hb => hr b (List.mem_cons_of_mem _ hb)).trans ?_
    exact hc (hr a List.mem_cons_self)

/-- Whatever is done with a client's view, as long as what comes from the server makes sense and no
position is ever the undefined number: no card is shown twice, every card is in the column of its
stage, and every column has the cards that ask for attention first and each part by position; and
since any earlier moment after which the board was not read, no card was lost or added, and none
has changed in what it carries. -/
theorem shaped (board : Key) (acts : List Act) (h : Legible acts)
    (hd : ∀ before, before <+: acts →
      ∀ t ∈ (run { board } before).tiles, t.position.isUndefined = false) :
    ((run { board } acts).tiles.map (·.id)).Nodup ∧
      (∀ e ∈ (run { board } acts).columns, ∀ t ∈ e.2, t.stage = e.1) ∧
      (∀ e ∈ (run { board } acts).columns, e.2.Pairwise Precedes) ∧
      ∀ before between, acts = before ++ between → (∀ a ∈ between, a.isRefresh = false) →
        ((run { board } acts).tiles.map essence).Perm ((run { board } before).tiles.map essence) := by
  have hs := sound_run board h
  refine ⟨hs.tidy.ids, hs.tidy.home, ordered_run board h fun before hb => ?_, ?_⟩
  · -- positions are numbers, so those that are not undefined have a place in the order
    intro e he t ht
    have hmem := mem_tiles.2 ⟨e, he, ht⟩
    have hbefore : Legible before := fun a ha => h a (hb.subset ha)
    exact Mark.definite_of_number ((sound_run board hbefore).tidy.ranked t hmem) (hd before hb t hmem)
  · rintro before between rfl hr
    rw [run_append]
    exact carried_run (sound_run board fun a ha => h a (List.mem_append_left _ ha))
      (fun a ha => h a (List.mem_append_right _ ha)) hr

/-- A board with two cards, one of which asks for attention. -/
def twoCards : Value :=
  .object [("stages", .list [.object [("key", "new")], .object [("key", "open")]]),
    ("cards_by_stage", .object [("new", .list [
      .object [("card_id", "1"), ("position", .real 1.0)],
      .object [("card_id", "2"), ("position", .real 2.0), ("unread_count", .whole 3)]])])]

theorem readColumns_twoCards (board : Key) : readColumns board twoCards = .ok [(.text "new", [
    { id := "1", board, stage := "new", position := 1.0 },
    { id := "2", board, stage := "new", position := 2.0, unread := 3 }])] := rfl

/-- The board is read, one card is moved here and the other by someone else, and the first move
fails. -/
def crossed : List Act :=
  [.refresh twoCards, .begin 0.0 "1" "open" { absolute := some 5.0 } {},
    .hear (.object [("event", "card_moved"), ("card_id", "2"), ("stage_key", "open"),
      ("position", .real 7.0)]),
    .rollback 1 none]

theorem legible_crossed : Legible crossed := by
  intro a ha
  simp only [crossed, List.mem_cons, List.not_mem_nil, or_false] at ha
  rcases ha with rfl | rfl | rfl | rfl
  · -- the cards are read under their stage, each once
    intro board cs hcs
    obtain rfl := Except.ok.inj ((readColumns_twoCards board).symm.trans hcs)
    exact ⟨by simp, by simp, by simp [cardsOf]⟩
  · trivial
  · constructor
    · intro r v hr _ hv
      obtain rfl := Except.ok.inj hr
      obtain rfl := Option.some.inj hv
      exact ⟨_, rfl⟩
    · intro r k v hr hk hv
      obtain rfl := Except.ok.inj hr
      simp only [List.mem_cons, List.not_mem_nil, or_false] at hk
      rcases hk with rfl | rfl
      · obtain rfl := Option.some.inj hv
        rfl
      · simp [Entries.get?] at hv
  · trivial

/-- The board after that run. -/
theorem shaped_crossed :
    ((run { board := "sales" } crossed).tiles.map (·.id)).Nodup ∧
      (∀ e ∈ (run { board := "sales" } crossed).columns, ∀ t ∈ e.2, t.stage = e.1) ∧
      (∀ e ∈ (run { board := "sales" } crossed).columns, e.2.Pairwise Precedes) ∧
      ∀ before between, crossed = before ++ between → (∀ a ∈ between, a.isRefresh = false) →
        ((run { board := "sales" } crossed).tiles.map essence).Perm
          ((run { board := "sales" } before).tiles.map essence) := by
  refine shaped "sales" crossed legible_crossed fun before hb => ?_
  have hall : ∀ before ∈ crossed.inits,
      ∀ t ∈ (run { board := "sales" } before).tiles, t.position.isUndefined = false := by
    decide
  exact hall before ((List.mem_inits before crossed).2 hb)

end Projection

end Kanban
