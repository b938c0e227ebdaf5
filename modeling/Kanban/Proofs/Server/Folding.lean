import Kanban.Proofs.Server.Steps
import Kanban.Proofs.Storage.Works

/-!
# Kanban.Proofs.Server.Folding — deactivations that are cut short

A deactivation is a row of writes: the stage is stored as closed, and then its cards are stored one
by one in the fallback. Where there is a folder, any of these writes may be refused, and what was
written before stays.

* `Outcome`, `outcome` — what a deactivation comes to on any server.
* `undone_iff` — a deactivation that breaks off has changed nothing iff its first write was refused.
* `again_of_cut` — one that broke off later is not taken up again.
-/

namespace Kanban

namespace Records

variable {r : Records}

/-- The fallback of a stage is another stage of the board and stays open. -/
theorem isOpen_fallback (hf : r.Filed) {stage fallback : Stage}
    (h : r.defaultStage? stage.board [stage.id] = some fallback) :
    (r.close stage).isOpen stage.board fallback.key := by
  have hne : fallback.id ≠ stage.id := by
    have hfind := List.find?_some h
    simpa using hfind
  obtain ⟨hm, hb, ha⟩ := mem_activeStages.1 (List.mem_of_find?_eq_some h)
  exact isOpen_iff.2 ⟨fallback, (mem_stages_putStage hf).2 (.inr ⟨hm, hne⟩), hb, ha, rfl⟩

/-- The cards that a deactivation carries, in their order. -/
def carried (stage : Stage) (r : Records) : List String :=
  ((r.close stage).cardsIn stage.board stage.key).map (·.id)

/-- The records after a stage was closed and some of its cards were carried. -/
def foldPart (stage : Stage) (fallback : Key) (ids : List String) (r : Records) : Records :=
  (r.close stage).restage stage.key fallback ids

theorem stages_foldPart (stage : Stage) (fallback : Key) (ids : List String) (r : Records) :
    (r.foldPart stage fallback ids).stages = (r.close stage).stages := stages_restage _ _ _ _

/-- A stage that was closed reads as closed, whatever cards were carried. -/
theorem stage?_foldPart (stage : Stage) (fallback : Key) (ids : List String) (r : Records) :
    (r.foldPart stage fallback ids).stage? stage.id = some { stage with active := false } := by
  unfold stage?
  rw [stages_foldPart]
  exact Entries.get?_put_self _ _ _

end Records

namespace Deactivation

open Operation

variable {announce : Bool} {account id : String} {s : Server}

/-- A stage is there and active, and its board has a fallback for it. -/
structure Folds (account id : String) (s : Server) (stage : Stage) (fallback : Key) : Prop where
  found : (s.records account).stage? id = some stage
  named : stage.id = id
  active : stage.active = true
  fallback : ((s.records account).close stage).isOpen stage.board fallback

/-- What a deactivation comes to, and the server that it leaves. -/
inductive Outcome (announce : Bool) (account id : String) (s : Server) :
    Except Failure (Except (Refusal × Key) Deactivation) × Server → Prop
  /-- There was nothing to do, or nothing could be done. -/
  | idle (r : Except (Refusal × Key) Deactivation) : Outcome announce account id s (.ok r, s)
  /-- The stage could not be stored as closed. -/
  | refused (stage : Stage) (fallback : Key) (hs : Folds account id s stage fallback)
      (e : Failure) (t : Storage) (ht : s.storage.Untouched t)
      (he : (Storage.setStageActive account id false s.storage).1 = .error e) :
      Outcome announce account id s (.error e, { s with storage := t })
  /-- The stage was closed, some of its cards were carried, and one could not be stored. -/
  | cut (stage : Stage) (fallback : Key) (hs : Folds account id s stage fallback)
      (e : Failure) (t : Storage) (done : List String) (i : String) (rest : List String)
      (he : ∃ a, (Storage.setStageActive account id false s.storage).1 = .ok a)
      (hi : (s.records account).carried stage = done ++ i :: rest)
      (ht : s.storage.Written account ((s.records account).foldPart stage fallback done) t) :
      Outcome announce account id s (.error e, { s with storage := t })
  /-- The stage was folded, and that was published. -/
  | folded (stage : Stage) (fallback : Key) (hs : Folds account id s stage fallback)
      (t : Storage) (d : Deactivation) (hd : d.stage = stage) (hf : d.fallback = some fallback)
      (ht : s.storage.Written account ((s.records account).fold stage fallback) t) :
      Outcome announce account id s (.ok (.ok d),
        if announce then
          ({ s with storage := t } : Server).publish account stage.board d.event
        else { s with storage := t })

/-- Storing a stage as closed, where it is there. -/
theorem close_cases {t : Storage} {stage : Stage} (h : (t.records account).stage? id = some stage) :
    (∃ e u, Storage.setStageActive account id false t = (.error e, u) ∧ t.Untouched u) ∨
      ∃ a u, Storage.setStageActive account id false t = (.ok a, u) ∧
        t.Written account ((t.records account).close stage) u := by
  unfold Storage.setStageActive Storage.stage
  simp only [bind_apply, get_apply, h, pure_apply]
  rcases Storage.persist_cases account { stages := [{ stage with active := false }] } t with
    ⟨e, u, hp, hu⟩ | ⟨u, hp, hu⟩
  · rw [hp]
    exact .inl ⟨e, u, rfl, hu⟩
  · rw [hp]
    rw [Records.apply_stage] at hu
    exact .inr ⟨_, u, rfl, hu⟩

/-- Closing a stage moves no card: those that are selected then are those that were there before. -/
theorem restage_closed {r : Records} {stage : Stage} {t : Storage}
    (hr : t.records account = r.close stage) (fallback : Key) :
    Storage.restage account stage.board stage.key fallback t =
      Storage.restageAll account stage.key fallback (r.carried stage) t := by
  unfold Storage.restage Records.carried
  rw [bind_apply, get_apply]
  dsimp only
  rw [hr]

theorem outcome (announce : Bool) (account id : String) {s : Server}
    (hf : (s.records account).Filed) :
    Outcome announce account id s (run announce account id s) := by
  unfold run
  rw [bind_apply, get_apply]
  dsimp only
  cases hs : (s.records account).stage? id with
  | none => exact .idle _
  | some stage =>
    obtain ⟨-, rfl⟩ := hf.stage_mem.1 hs
    cases ha : stage.active with
    | false => simpa [ha, pure_apply] using Outcome.idle _
    | true =>
      simp only [ha, Bool.not_true, Bool.false_eq_true, if_false]
      cases hd : (s.records account).defaultStage? stage.board [stage.id] with
      | none => exact .idle _
      | some fallback =>
        have hfolds : Folds account stage.id s stage fallback.key :=
          ⟨hs, rfl, ha, Records.isOpen_fallback hf hd⟩
        dsimp only
        rw [bind_apply, discard_apply, Server.onStorage_apply]
        -- the write that closes the stage comes first: if it is refused, nothing was done
        rcases close_cases hs with ⟨e, u, hu, hut⟩ | ⟨a, u, hu, huw⟩
        · rw [hu]
          exact .refused stage fallback.key hfolds e u hut (congrArg Prod.fst hu)
        · rw [hu]
          dsimp only
          rw [bind_apply, Server.onStorage_apply]
          have hr : u.records account = (s.records account).close stage := huw.records_self
          dsimp only
          rw [restage_closed hr]
          have hall := Storage.restageAll_outcome account stage.key fallback.key
            ((s.records account).carried stage) u
          rw [huw.records_self] at hall
          -- closed from here on: the cards go one by one, and the list may break off at any of them
          rcases hall with ⟨l, t, ht, htb⟩ | ⟨e, t, done, i, rest, ht, hi, htb⟩
          · rw [ht]
            have hend : Outcome announce account stage.id s (_, _) :=
              .folded stage fallback.key hfolds t
                { stage, fallback := some fallback.key, migrated := l } rfl rfl (huw.became htb)
            cases announce <;> exact hend
          · rw [ht]
            exact .cut stage fallback.key hfolds e t done i rest ⟨a, congrArg Prod.fst hu⟩ hi
              (huw.became htb)

/-! ## Breaking off -/

/-- A server on which the records of an account are as they were, in memory and in the folder. -/
def Undone (account : String) (s t : Server) : Prop :=
  t.records account = s.records account ∧ t.storage.files = s.storage.files

/-- A deactivation that breaks off was refused at its first write and changed nothing, or it was cut
short: the stage is closed, in memory and in the folder, and only some of its cards were carried. -/
theorem broken_off (hf : (s.records account).Filed) {e : Failure}
    (h : (run announce account id s).1 = .error e) :
    (Undone account s (run announce account id s).2 ∧
        ∃ e, (Storage.setStageActive account id false s.storage).1 = .error e) ∨
      ∃ stage fallback done i rest, Folds account id s stage fallback ∧
        (∃ a, (Storage.setStageActive account id false s.storage).1 = .ok a) ∧
        (s.records account).carried stage = done ++ i :: rest ∧
        s.storage.Written account ((s.records account).foldPart stage fallback done)
          (run announce account id s).2.storage := by
  have hout := outcome announce account id hf
  generalize run announce account id s = x at h hout
  -- only two of the outcomes are failures
  cases hout with
  | idle r => cases h
  | refused stage fallback hs e' t ht he => exact .inl ⟨⟨ht.records account, ht.files⟩, e', he⟩
  | cut stage fallback hs e' t done i rest he hi ht =>
    exact .inr ⟨stage, fallback, done, i, rest, hs, he, hi, ht⟩
  | folded stage fallback hs t d hd hfb ht => cases h

/-- A stage that a deactivation has closed is not as it was. -/
theorem not_undone {stage : Stage} {fallback : Key} {ids : List String} {t : Server}
    (hs : Folds account id s stage fallback)
    (ht : s.storage.Written account ((s.records account).foldPart stage fallback ids) t.storage) :
    ¬ Undone account s t := by
  rintro ⟨hr, -⟩
  have hclosed := Records.stage?_foldPart stage fallback ids (s.records account)
  have hsame : (s.records account).foldPart stage fallback ids = s.records account :=
    ht.records_self.symm.trans hr
  rw [hsame, hs.named, hs.found] at hclosed
  have hact := congrArg Stage.active (Option.some.inj hclosed)
  rw [hs.active] at hact
  cases hact

/-- A deactivation that was cut short is not taken up again: the stage is closed, and so there is
nothing to do. -/
theorem again_of_cut {stage : Stage} {fallback : Key} {ids : List String} {t : Server}
    (hs : Folds account id s stage fallback)
    (ht : s.storage.Written account ((s.records account).foldPart stage fallback ids) t.storage) :
    run announce account id t = (.ok (.ok { stage := { stage with active := false } }), t) := by
  have hclosed : (t.records account).stage? id = some { stage with active := false } := by
    have hr : t.records account = (s.records account).foldPart stage fallback ids := ht.records_self
    rw [hr, ← hs.named]
    exact Records.stage?_foldPart _ _ _ _
  unfold run
  simp only [bind_apply, get_apply, hclosed, Bool.not_false, if_true, pure_apply]

/-- A board with two stages and a card in the first, and a folder that takes the next write and
refuses the one after it. -/
def jammed : Server where
  storage := {
    repository := {
      accounts := [("acme", {
        cards := [("1", ⟨"1", "sales", "new", 1.0, 0, []⟩)]
        stages := [("1", { id := "1", board := "sales", key := "new", name := "New" }),
          ("2", { id := "2", board := "sales", key := "won", name := "Won", position := 1 })] })]
      loaded := ["acme"]
      nextStage := 3 }
    folder := some { refusals := [false, true] } }

theorem filed_jammed : (jammed.records "acme").Filed := by
  constructor <;> decide

/-- The first of its stages. -/
def jammedStage : Stage := { id := "1", board := "sales", key := "new", name := "New" }

/-- Closing the first stage is stored, and no further write is. -/
theorem close_jammed : ∃ a t f, Storage.setStageActive "acme" "1" false jammed.storage = (.ok a, t) ∧
    t.records "acme" = (jammed.records "acme").close jammedStage ∧ t.folder = some f ∧
    f.refusals.headD false = true := by
  have hs : (jammed.storage.records "acme").stage? "1" = some jammedStage := rfl
  have hp : Json.problem? Json.maxWritten (Storage.documentOf "acme" jammed.storage.stamp
      ((jammed.storage.records "acme").apply
        { stages := [{ jammedStage with active := false }] })) = none := by
    decide +kernel
  -- the folder takes the first write and refuses the second
  have hr : Folder.refuses (Snapshot.fileName "acme") { refusals := [false, true] } = false := by
    simp [Folder.refuses, Folder.get?]
  have hw := Storage.persist_written rfl hr hp
  unfold Storage.setStageActive Storage.stage
  simp only [bind_apply, get_apply, hs, pure_apply, hw]
  refine ⟨_, _, _, rfl, ?_, rfl, ?_⟩
  · exact Repository.records_setRecords_self _ _ _
  · simp [Folder.write, hr]

/-- The card of the first stage cannot be carried. -/
theorem run_jammed : ∃ e, (run true "acme" "1" jammed).1 = .error e := by
  obtain ⟨a, t, f, hclose, ht, hf, hr⟩ := close_jammed
  have hs : (jammed.records "acme").stage? "1" = some jammedStage := rfl
  have hd : (jammed.records "acme").defaultStage? "sales" ["1"] =
      some { id := "2", board := "sales", key := "won", name := "Won", position := 1 } := by
    decide +kernel
  have hc : (t.records "acme").cardsIn "sales" "new" = [⟨"1", "sales", "new", 1.0, 0, []⟩] := by
    rw [ht]
    decide +kernel
  have hcard : (t.records "acme").card? "1" = some ⟨"1", "sales", "new", 1.0, 0, []⟩ := by
    rw [ht]
    rfl
  -- the stage is closed by now, and the write of its card is the one that is refused
  obtain ⟨e, he⟩ : ∃ e, (Storage.persist "acme"
      { cards := [⟨"1", "sales", "won", 1.0, 0, []⟩] } t).1 = .error e :=
    Storage.persist_refused hf hr
  have hrestage : (Storage.restage "acme" "sales" "new" "won" t).1 = .error e := by
    unfold Storage.restage
    simp only [bind_apply, get_apply, hc, List.map_cons, List.map_nil, Storage.restageAll, hcard,
      ne_eq, not_true, if_false]
    cases hp : Storage.persist "acme" { cards := [⟨"1", "sales", "won", 1.0, 0, []⟩] } t with
    | mk r u =>
      rw [hp] at he
      obtain rfl : r = .error e := he
      rfl
  refine ⟨e, ?_⟩
  unfold run
  simp only [bind_apply, get_apply, hs, hd, discard_apply, Server.onStorage_apply, hclose,
    jammedStage, Bool.not_true, Bool.false_eq_true, if_false]
  cases hres : Storage.restage "acme" "sales" "new" "won" t with
  | mk r u =>
    rw [hres] at hrestage
    obtain rfl : r = .error e := hrestage
    rfl

/-- A deactivation that breaks off leaves the account as it was, in memory and in the folder, iff it
was the first of its writes that was refused. -/
theorem undone_iff (hf : (s.records account).Filed) {e : Failure}
    (h : (run announce account id s).1 = .error e) :
    Undone account s (run announce account id s).2 ↔
      ∃ e, (Storage.setStageActive account id false s.storage).1 = .error e := by
  rcases broken_off hf h with ⟨hu, he⟩ | ⟨stage, fallback, done, i, rest, hs, ⟨a, ha⟩, -, ht⟩
  · exact iff_of_true hu he
  · refine iff_of_false (not_undone hs ht) ?_
    rintro ⟨e', he'⟩
    rw [ha] at he'
    cases he'

theorem undone_iff_jammed :
    (jammed.records "acme").Filed ∧ (∃ e, (run true "acme" "1" jammed).1 = .error e) ∧
      (Undone "acme" jammed (run true "acme" "1" jammed).2 ↔
        ∃ e, (Storage.setStageActive "acme" "1" false jammed.storage).1 = .error e) := by
  obtain ⟨e, he⟩ := run_jammed
  exact ⟨filed_jammed, ⟨e, he⟩, undone_iff filed_jammed he⟩

/-- The deactivation breaks off when the card is to be carried, and the stage stays closed. -/
theorem left_half_folded : (∃ e, (run true "acme" "1" jammed).1 = .error e) ∧
    ¬ Undone "acme" jammed (run true "acme" "1" jammed).2 := by
  obtain ⟨e, he⟩ := run_jammed
  refine ⟨⟨e, he⟩, ?_⟩
  obtain ⟨a, t, f, hclose, -⟩ := close_jammed
  rcases broken_off filed_jammed he with ⟨-, e', he'⟩ | ⟨stage, fallback, done, i, rest, hs, -, -, ht⟩
  · rw [hclose] at he'
    cases he'
  · exact not_undone hs ht

end Deactivation

end Kanban
