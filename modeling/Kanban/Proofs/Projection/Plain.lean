import Kanban.Proofs.Projection.Awaited
import Kanban.Proofs.Projection.Echoes

/-!
# Kanban.Proofs.Projection.Plain — views on which no card is shown twice

As long as no refresh lists a card twice, no card is shown twice, each record of a move is filed under
its number, and every complaint about positions that cannot be compared is answered by the act that
raised it. This holds whatever else happens, malformed events and news of unknown cards included.

* `Numbered` — records are filed under their numbers.
* `Plain`, `plain_act` — what holds of all such views.
* `calm_act` — no complaint is left.
* `plain_run` — both, after any run.
-/

namespace Kanban

namespace Projection

variable {p q : Projection} {c card : String} {stage fallback : Key}

/-! ## Records under their numbers -/

/-- Records are filed under their numbers. -/
def Numbered (p : Projection) : Prop := ∀ n m, Entries.get? n p.moves = some m → m.id = n

theorem Numbered.congr (h : p.Numbered) (hm : q.moves = p.moves) : q.Numbered := by
  unfold Numbered
  rw [hm]
  exact h

theorem Numbered.updateMove (h : p.Numbered) (n : Nat) {f : Move → Move}
    (hf : ∀ m, (f m).id = m.id) : (p.updateMove n f).Numbered := by
  intro k m hm
  rw [get?_updateMove] at hm
  split at hm
  · rcases Option.map_eq_some_iff.1 hm with ⟨m₀, hm₀, rfl⟩
    exact (hf m₀).trans (h k m₀ hm₀)
  · exact h k m hm

theorem Numbered.supersede (h : p.Numbered) (test : Move → Bool) : (p.supersede test).Numbered := by
  unfold Projection.supersede
  induction Entries.values p.pending generalizing p with
  | nil => exact h
  | cons n ns ih => exact ih (Numbered.updateMove h n fun _ => rfl)

theorem Numbered.put (h : p.Numbered) {m : Move} (hq : q.moves = Entries.put m.id m p.moves) :
    q.Numbered := by
  intro k m' hm
  rw [hq] at hm
  by_cases hk : k = m.id
  · rw [hk, Entries.get?_put_self] at hm
    rw [← Option.some.inj hm, hk]
  · rw [Entries.get?_put_of_ne hk] at hm
    exact h k m' hm

/-! ## Views on which no card is shown twice -/

/-- No two columns have one key, no card is shown twice, and records are filed under their numbers. -/
structure Plain (p : Projection) : Prop where
  keys : p.keys.Nodup
  once : ∀ c, (p.spots c).length ≤ 1
  numbered : p.Numbered

theorem plain_new (board : Key) : Plain { board } where
  keys := List.nodup_nil
  once := fun _ => Nat.zero_le _
  numbered := by
    intro n m hm
    simp at hm

/-- What is shown changes, and no card is shown more often. -/
theorem Plain.show (h : p.Plain) (hk : q.keys.Nodup)
    (hs : ∀ c, (q.spots c).length ≤ (p.spots c).length) (hm : q.moves = p.moves) : q.Plain :=
  ⟨hk, fun c => (hs c).trans (h.once c), h.numbered.congr hm⟩

/-- Records change, and what is shown does not. -/
theorem Plain.record (h : p.Plain) (hc : q.columns = p.columns) (hn : q.Numbered) : q.Plain :=
  ⟨keys_congr hc ▸ h.keys, fun c => spots_congr hc c ▸ h.once c, hn⟩

theorem Plain.congr (h : p.Plain) (hc : q.columns = p.columns) (hm : q.moves = p.moves) : q.Plain :=
  h.record hc (h.numbered.congr hm)

theorem Plain.carried {z : Spot} (h : p.Plain) (hcar : Carried c z p q) (hm : q.moves = p.moves) :
    q.Plain := h.show hcar.keys (fun d => (hcar.length d).le) hm

theorem Plain.updateMove (h : p.Plain) (n : Nat) {f : Move → Move} (hf : ∀ m, (f m).id = m.id) :
    (p.updateMove n f).Plain := h.record (columns_updateMove n f p) (h.numbered.updateMove n hf)

theorem Plain.settle (h : p.Plain) (n : Nat) {f : Move → Move} (hf : ∀ m, (f m).id = m.id)
    (m : Move) : ((p.updateMove n f).clearPending m).Plain :=
  (h.updateMove n hf).congr (columns_clearPending m _) (moves_clearPending m _)

theorem Plain.track (h : p.Plain) (m : Move) : (p.track m).Plain := by
  refine h.record (columns_track m p) ?_
  unfold Projection.track
  split
  · exact h.numbered.put rfl
  · rename_i previous _
    have hreplaced : (p.updateMove previous.id ({ · with replacedBy := some m.id })).Numbered :=
      Numbered.updateMove h.numbered _ fun _ => rfl
    split <;> exact hreplaced.put rfl

theorem Plain.place (h : p.Plain) (c : String) (stage : Key) (x : Mark) :
    (p.place c stage x).Plain :=
  h.carried (carried_place h.keys c stage x) (unrecorded_place c stage x p).moves

theorem Plain.restore (h : p.Plain) (m : Move) : (p.restore m).Plain :=
  h.carried (carried_restore h.keys m) (unrecorded_restore m p).moves

theorem Plain.lose (h : p.Plain) (c : String) : (p.lose c).Plain := by
  rcases spots_lose h.keys c with ⟨hk, hothers, hown⟩
  refine h.show hk (fun d => ?_) (unrecorded_lose c p).1.moves
  by_cases hd : d = c
  · exact hd ▸ hown
  · exact (hothers d hd).length_eq.le

theorem Plain.hear (h : p.Plain) (c : String) (stage : Key) (x : Option Float) :
    (p.hear c stage x).Plain := by
  unfold Projection.hear
  split
  · exact h
  · split
    · exact h
    · split
      · split
        · exact h.settle _ (by simp) _
        · exact Plain.updateMove h _ fun _ => rfl
      · exact Plain.updateMove h _ fun _ => rfl

theorem Plain.rebase (h : p.Plain) (m : Move) (stage : Key) (x : Mark) :
    (p.rebase m stage x).Plain := by
  unfold Projection.rebase
  dsimp only
  split
  · exact h
  · exact Plain.updateMove h _ fun _ => rfl

theorem Plain.confirm (h : p.Plain) (n : Nat) (stage : Option Key) (position : Option Mark) :
    (p.confirm n stage position).Plain := by
  unfold Projection.confirm
  split
  · exact h
  · rename_i m _
    split
    · exact h
    · -- settled first; then rebased, left alone or placed
      have hset : ((p.updateMove n fun m =>
          { m with state := .confirmed, committed := (position.map Mark.toValue).getD .null }
          ).clearPending m).Plain :=
        h.settle _ (by simp) _
      dsimp only
      split
      · exact hset
      · split
        · exact hset.rebase _ _ _
        · split
          · exact hset
          · exact hset.place _ _ _

theorem Plain.giveUp (h : p.Plain) (n : Nat) (error : Option Failure) :
    (p.giveUp n error).Plain := by
  unfold Projection.giveUp
  split
  · exact h
  · split
    · exact h
    · exact h.settle _ (by simp) _

theorem Plain.takeOut (h : p.Plain) {k : Key} {i : Nat} {t : Tile}
    (ht : p.tileAt (k, i) = some t) : (p.takeOut (k, i)).Plain := by
  refine h.show (nodup_keys_takeOut h.keys (k, i)) (fun c => ?_) rfl
  rw [(spots_takeOut h.keys ht c).length_eq, List.length_append]
  exact Nat.le_add_left _ _

theorem Plain.fold (h : p.Plain) (stage fallback : Key) : (p.fold stage fallback).2.Plain := by
  rcases spots_fold h.keys stage fallback with ⟨hk, hs⟩
  refine ⟨hk, fun c => ?_, ?_⟩
  · have hlen := (spots_perm h.keys stage c).length_eq
    rw [(hs c).length_eq]
    simp only [List.length_append, List.length_map] at hlen ⊢
    exact hlen.symm.trans_le (h.once c)
  · rcases fold_records stage fallback p with ⟨q, hu, hq⟩
    exact ((h.numbered.congr hq.moves).supersede _).congr hu.moves

/-- A column is dropped, whatever is in it. -/
theorem Plain.drop (h : p.Plain) (stage : Key) :
    Plain { p with columns := Entries.erase stage p.columns, jumbled := false } := by
  refine h.show (Entries.nodup_erase h.keys stage) (fun c => ?_) rfl
  have hlen := (spots_perm h.keys stage c).length_eq
  rw [List.length_append] at hlen
  rw [hlen]
  exact Nat.le_add_left _ _

/-- A card that has nowhere to go back to is taken away, and its column with it if nothing stands for
it. -/
theorem Plain.banish (h : p.Plain) (m : Move) : (p.banish m).Plain := by
  unfold Projection.banish
  cases hl : p.locate m.card with
  | none => exact h
  | some loc =>
    rcases loc with ⟨k, i⟩
    rcases tileAt_locate h.keys hl with ⟨t, ht, -⟩
    have hout := h.takeOut ht
    simp only [withdraw]
    split
    · exact (hout.drop k).congr rfl rfl
    · exact hout.congr rfl rfl

theorem Plain.rollback (h : p.Plain) (n : Nat) (error : Option Reason) :
    (p.rollback n error).Plain := by
  unfold Projection.rollback
  split
  · exact h
  · rename_i m _
    split
    · exact h
    · -- settled and told first; then left alone, taken away or taken back
      have htold : Plain { p.giveUp n (error.map (·.failure)) with
          error := error.map Reason.words } := (h.giveUp n _).congr rfl rfl
      dsimp only
      split
      · exact htold
      · split
        · exact htold.banish m
        · exact htold.restore m

/-- What a move comes to is a place of the list, if it comes to anything. -/
theorem le_of_aim {now : Float} {d : Directive} {tiles : List Tile} {a b : Allocator} {i : Nat}
    {x : Float} (h : aim now d tiles a = (.ok (i, x), b)) : i ≤ tiles.length := by
  have hle := Directive.insertIndex_le (fun x y => Mark.lt (.real y) x) tiles d
  unfold aim at h
  grind

/-- A move that is started carries its card, or loses it. -/
theorem Plain.begin (h : p.Plain) (now : Float) (card : String) (target : Key) (d : Directive)
    (a : Allocator) : (p.begin now card target d a).2.1.Plain := by
  unfold Projection.begin
  cases hl : p.locate card with
  | none => exact h
  | some loc =>
    rcases loc with ⟨k, i⟩
    rcases tileAt_locate h.keys hl with ⟨t, ht, -⟩
    simp only [ht]
    -- the card is taken out, and a column is opened for it
    have hout : Plain { p.takeOut (k, i) with nextMove := p.nextMove + 1 } :=
      (h.takeOut ht).congr rfl rfl
    split
    · exact hout
    · have hkeys : ({ p.takeOut (k, i) with
          nextMove := p.nextMove + 1
          columns := Entries.ensure target [] (p.takeOut (k, i)).columns } : Projection).keys.Nodup :=
        Entries.nodup_ensure hout.keys _ _
      have hspots (c : String) := spots_open target c (p.takeOut (k, i))
      split
      · exact hout.show hkeys (fun c => (congrArg List.length (hspots c)).le) rfl
      · rename_i index x b haim
        have hput := h.carried (carried_putIn h.keys ht hkeys (fun c => .of_eq (hspots c))
          (le_of_aim haim) (.real x)) rfl
        split
        · exact hput.congr rfl rfl
        · exact hput.track _

theorem Plain.refresh (h : p.Plain) {cs : Entries Key (List Card)} (hkeys : (Entries.keys cs).Nodup)
    (hids : ((cardsOf cs).map (·.id)).Nodup) : (p.refresh cs).Plain := by
  refine ⟨nodup_keys_refresh cs p, spots_le_one ?_, (h.numbered.supersede _).congr rfl⟩
  have htiles := (tiles_refresh hkeys p).map (·.id)
  rw [List.map_map] at htiles
  exact htiles.nodup_iff.2 hids

theorem plain_act (h : p.Plain) (a : Act) (hr : ∀ payload, a = .refresh payload → ListsOnce payload) :
    (p.act a).Plain := by
  cases a with
  | begin now card target d a => exact h.begin now card (.text target) d a
  | confirm n stage position =>
    rw [act_confirm]
    exact (h.confirm n _ _).congr rfl rfl
  | rollback n error =>
    rcases act_rollback n error p with ⟨reason, -, -, hq⟩ | ⟨fault, -, hq⟩
    · rw [hq]
      exact (h.rollback n reason).congr rfl rfl
    · rw [hq]
      exact h.giveUp n error
  | hear e =>
    have key := heard e p
    generalize p.act (.hear e) = q at key
    cases key with
    | ignored => exact h
    | unplaced card stage => exact h.hear card stage none
    | lost card stage x => exact (h.hear card stage (some x)).lose card
    | moved card stage x => exact ((h.hear card stage (some x)).place card stage (.real x)).congr rfl rfl
    | emptied stage fallback => exact (h.fold stage fallback).drop fallback
    | folded stage fallback => exact (h.fold stage fallback).congr rfl rfl
  | refresh payload =>
    rcases refreshed payload p with ⟨board, stages, hq⟩ | ⟨board, stages, cs, hcs, hq⟩
    · rw [hq]
      exact h.congr rfl rfl
    · rw [hq]
      -- a board that lists every card once is plain, whatever was shown before
      rcases hr payload rfl board cs hcs with ⟨hkeys, hids⟩
      have hread : Plain { p with board, stages } := h.congr rfl rfl
      exact hread.refresh hkeys hids

/-! ## No complaint is left -/

theorem jumbled_hear (c : String) (stage : Key) (x : Option Float) (p : Projection) :
    (p.hear c stage x).jumbled = p.jumbled := by
  unfold hear
  split
  · rfl
  · split
    · rfl
    · split
      · split <;> simp
      · simp

theorem columns_hear (c : String) (stage : Key) (x : Option Float) (p : Projection) :
    (p.hear c stage x).columns = p.columns := by
  unfold hear
  split
  · rfl
  · split
    · rfl
    · split
      · split <;> simp
      · simp

theorem jumbled_giveUp (n : Nat) (error : Option Failure) (p : Projection) :
    (p.giveUp n error).jumbled = p.jumbled := by
  unfold giveUp
  split
  · rfl
  · split <;> simp

/-- A column that cannot be put in order is complained of at once. -/
theorem calm_act (h : p.jumbled = false) (a : Act) : (p.act a).jumbled = false := by
  cases a with
  | begin now card target d a =>
    simp only [act, begin]
    split
    · exact h
    · split
      · exact h
      · split
        · exact h
        · split
          · exact h
          · split
            · rfl
            · rename_i hj
              rw [jumbled_track]
              exact Bool.eq_false_iff.2 hj
  | confirm n stage position =>
    rw [act_confirm]
    rfl
  | rollback n error =>
    rcases act_rollback n error p with ⟨reason, -, -, hq⟩ | ⟨fault, -, hq⟩
    · rw [hq]
      rfl
    · rw [hq, jumbled_giveUp, h]
  | hear e =>
    have key := heard e p
    generalize p.act (.hear e) = q at key
    cases key with
    | ignored => exact h
    | unplaced card stage => exact (jumbled_hear card stage none p).trans h
    | lost card stage x =>
      exact (unrecorded_lose card _).2.trans ((jumbled_hear card stage (some x) p).trans h)
    | moved => rfl
    | emptied => rfl
    | folded => rfl
  | refresh payload =>
    rcases refreshed payload p with ⟨board, stages, hq⟩ | ⟨board, stages, cs, -, hq⟩
    · rw [hq]
      exact h
    · rw [hq]
      exact (jumbled_supersede _ { p with board, stages }).trans h

theorem plain_run (board : Key) {acts : List Act}
    (hr : ∀ payload, .refresh payload ∈ acts → ListsOnce payload) :
    (run { board } acts).Plain ∧ (run { board } acts).jumbled = false := by
  induction acts using List.reverseRecOn with
  | nil => exact ⟨plain_new board, rfl⟩
  | append_singleton acts a ih =>
    rcases ih fun payload hp => hr payload (List.mem_append_left _ hp) with ⟨hp, hj⟩
    rw [run_concat]
    refine ⟨plain_act hp a fun payload ha => ?_, calm_act hj a⟩
    exact hr payload (by simp [ha])

end Projection

end Kanban
