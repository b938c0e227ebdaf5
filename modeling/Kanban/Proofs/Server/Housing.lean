import Kanban.Proofs.Server.Acts

/-!
# Kanban.Proofs.Server.Housing — no card is left in a closed stage

From an empty account on, stages and cards are only changed by operations that keep the account in
order: no two stages of a board have one key, every card is in an open stage of its board, and a
board that once had an open stage has one. Handles that were taken long ago and transitions that
were planned long ago do no harm, since what they store is checked once more. Only a deactivation
that is cut short would leave cards behind.

* `Records.Ordered` — records in order, and what keeps them so.
* `Act.Fair` — what may happen to the account.
* `ordered_run`, `never_stranded` — one act, and any run of them.
-/

namespace Kanban

namespace Records

variable {r : Records} {live : Key → Prop}

/-- Records in order, where the boards of a class have an open stage. -/
structure Ordered (live : Key → Prop) (r : Records) : Prop where
  filed : r.Filed
  distinct : ∀ board, r.Distinct board
  housed : ∀ board, r.Housed board
  live : ∀ board, live board → ∃ key, r.isOpen board key

theorem ordered_empty : Ordered (fun _ => False) {} where
  filed := by constructor <;> simp
  distinct := fun _ s hs => by cases hs
  housed := fun _ c hc => by cases hc
  live := fun _ h => h.elim

/-- A card is stored in an open stage of its board. -/
theorem Ordered.putCard (h : r.Ordered live) {c : Card} (ho : r.isOpen c.board c.stage) :
    (r.putCard c).Ordered live where
  filed := filed_putCard h.filed c
  distinct := h.distinct
  housed := fun board => housed_putCard (h.housed board) h.filed fun hb => hb ▸ ho
  live := h.live

theorem Ordered.dropCard (h : r.Ordered live) (id : String) : (r.dropCard id).Ordered live where
  filed := filed_dropCard h.filed id
  distinct := h.distinct
  housed := by
    intro board c hc
    have hsub : (Entries.values (Entries.erase id r.cards)).Sublist (Entries.values r.cards) :=
      List.Sublist.map _ List.filter_sublist
    exact h.housed board c (hsub.subset hc)
  live := h.live

/-- An open stage stays open when a stage with a new id is stored. -/
theorem isOpen_putStage (h : r.Filed) {x : Stage} (hx : x.id ∉ Entries.keys r.stages)
    {board key : Key} (ho : r.isOpen board key) : (r.putStage x).isOpen board key := by
  obtain ⟨s, hs, hb, ha, hk⟩ := isOpen_iff.1 ho
  refine isOpen_iff.2 ⟨s, (mem_stages_putStage h).2 (.inr ⟨hs, fun hid => hx ?_⟩), hb, ha, hk⟩
  rw [← hid]
  exact Entries.mem_keys_of_get? (h.stage_mem.2 ⟨hs, rfl⟩)

/-- A stage is stored under a new id and with a key that is new on its board. -/
theorem Ordered.putStage (h : r.Ordered live) {x : Stage} (hx : x.id ∉ Entries.keys r.stages)
    (hk : ∀ s ∈ Entries.values r.stages, s.board = x.board → s.key ≠ x.key) :
    (r.putStage x).Ordered live where
  filed := filed_putStage h.filed x
  distinct := by
    intro board s hs t ht hsb htb hkey
    -- Of two stages that share a key, the new one is not one: `hk` keeps its key free on its board.
    rcases (mem_stages_putStage h.filed).1 hs with rfl | ⟨hs', -⟩
    · rcases (mem_stages_putStage h.filed).1 ht with rfl | ⟨ht', -⟩
      · rfl
      · exact absurd hkey.symm (hk t ht' (htb.trans hsb.symm))
    · rcases (mem_stages_putStage h.filed).1 ht with rfl | ⟨ht', -⟩
      · exact absurd hkey (hk s hs' (hsb.trans htb.symm))
      · exact h.distinct board s hs' t ht' hsb htb hkey
  housed := fun board c hc hb => isOpen_putStage h.filed hx (h.housed board c hc hb)
  live := by
    intro board hb
    obtain ⟨key, ho⟩ := h.live board hb
    exact ⟨key, isOpen_putStage h.filed hx ho⟩

/-- A stage is folded into another one that stays open. -/
theorem Ordered.fold (h : r.Ordered live) {s : Stage} (hs : s ∈ Entries.values r.stages)
    {fallback : Key} (hf : (r.close s).isOpen s.board fallback) :
    (r.fold s fallback).Ordered live where
  filed := filed_fold h.filed s fallback
  distinct := fun board => distinct_fold h.filed (h.distinct board) hs fallback
  housed := fun board =>
    housed_fold (h.housed board) h.filed (h.distinct board) hs fun hb => hb ▸ hf
  live := by
    intro board hb
    -- The board of the folded stage has the fallback open, the others lose nothing.
    by_cases hsb : s.board = board
    · refine ⟨fallback, ?_⟩
      rw [isOpen_fold, ← hsb]
      exact hf
    · obtain ⟨key, ho⟩ := h.live board hb
      refine ⟨key, ?_⟩
      rw [isOpen_fold, isOpen_close_of_ne h.filed hs hsb]
      exact ho

/-- Closing a stage that is there names no new one. -/
theorem keys_fold (hf : r.Filed) {s : Stage} (hs : s ∈ Entries.values r.stages) (fallback : Key) :
    Entries.keys (r.fold s fallback).stages = Entries.keys r.stages := by
  rw [stages_fold]
  refine Entries.keys_put_of_mem ?_ _
  exact Entries.mem_keys_of_get? (hf.stage_mem.2 ⟨hs, rfl⟩)

end Records

namespace Storage

open Operation

variable {account : String} {live : Key → Prop} {s t : Storage} {r : Records}

/-- Storage with the records of an account in use in order. -/
structure Ordered (account : String) (live : Key → Prop) (s : Storage) : Prop where
  loaded : s.repository.loaded.contains account = true
  numbered : s.Numbered account
  records : (s.records account).Ordered live

theorem Ordered.untouched (h : s.Ordered account live) (ht : s.Untouched t) :
    t.Ordered account live where
  loaded := ht.loaded ▸ h.loaded
  numbered := h.numbered.frame (ht.records account) ht.number
  records := ht.records account ▸ h.records

theorem Ordered.others (h : s.Ordered account live) {other : String} (hne : account ≠ other)
    (ht : s.Written other r t) : t.Ordered account live where
  loaded := ht.loaded ▸ h.loaded
  numbered := h.numbered.frame (ht.records_of_ne hne) ht.number
  records := ht.records_of_ne hne ▸ h.records

/-- Records are stored that are in order and have no new stage. -/
theorem Ordered.written (h : s.Ordered account live) (ht : s.Written account r t)
    (hr : r.Ordered live)
    (hk : ∀ id ∈ Entries.keys r.stages, id ∈ Entries.keys (s.records account).stages) :
    t.Ordered account live where
  loaded := ht.loaded ▸ h.loaded
  numbered := h.numbered.mono (ht.records_self ▸ hk) ht.number
  records := ht.records_self ▸ hr

theorem mem_stagesOf {board : Key} {x : Stage} :
    x ∈ r.stagesOf board ↔ x ∈ Entries.values r.stages ∧ x.board = board := by
  unfold Records.stagesOf
  rw [(Stage.byPosition_perm _).mem_iff]
  simp

/-- A new stage has a key and a number of its own. -/
theorem Ordered.addStage (h : s.Ordered account live) (board : Key) (d : Stage.Draft) :
    (addStage account board d s).2.Ordered account live := by
  rcases addStage_outcome account board d s with ht | ⟨hk, -, -, ht⟩
  · exact h.untouched ht
  · have hfresh := h.numbered.fresh
    refine ⟨ht.loaded ▸ h.loaded, ?_, ?_⟩
    · -- The new id carries the number drawn, the older ones carry smaller numbers.
      intro id hid
      rw [ht.records_self] at hid
      rcases Entries.mem_keys_put.1 hid with rfl | hid
      · exact ⟨_, Nat.lt_of_lt_of_le (Nat.lt_succ_self _) ht.number, rfl⟩
      · obtain ⟨n, hlt, rfl⟩ := h.numbered id hid
        exact ⟨n, Nat.lt_trans hlt (Nat.lt_of_lt_of_le (Nat.lt_succ_self _) ht.number), rfl⟩
    · rw [ht.records_self]
      refine h.records.putStage hfresh fun x hx hb => ?_
      have hall := List.all_eq_true.1 hk x (mem_stagesOf.2 ⟨hx, hb⟩)
      have hkey : (drafted board d s.repository.nextStage (s.records account)).key = d.key := rfl
      rw [hkey]
      simpa using hall

end Storage

namespace Act

open Operation Storage

variable {account : String} {live : Key → Prop} {a : Act} {s : Server}

/-- What may happen to an account: stages are opened and closed by deactivations alone, no
deactivation is cut short by a write that is refused, and cards are only added to open stages of
their boards. What happens to other accounts, to the channel and to the folder does not matter. -/
def Fair (account : String) (s : Server) : Act → Prop
  | .work other w => other = account → match w with
    | .setStageActive _ _ | .restage _ _ _ => False
    | .addCard c => (s.records account).isOpen c.board c.stage
    | _ => True
  | .deactivate announce other id => other = account →
    ∃ r, (Deactivation.run announce account id s).1 = .ok r
  | _ => True

/-- A card that is stored again stays in an open stage. -/
theorem ordered_recount {t : Storage} {n : Int} {id : String} {c : Card}
    (h : s.storage.Ordered account live) (hc : (s.records account).card? id = some c)
    (ht : s.storage.Written account ((s.records account).putCard { c with unread := n }) t) :
    t.Ordered account live := by
  have ho : (s.records account).isOpen c.board c.stage :=
    h.records.housed c.board c (Entries.mem_values_of_get? hc) rfl
  exact h.written ht (h.records.putCard ho) fun _ hid => hid

/-- Work that may be done keeps the account in order. -/
theorem ordered_work {w : Work} (h : s.storage.Ordered account live)
    (hfair : Fair account s (.work account w)) :
    (w.perform account s.storage).2.Ordered account live := by
  have hfair := hfair rfl
  -- work that writes once has done it, or nothing
  have honce (hone : w.isSingle) (hw : ∀ r t, w.edits (s.records account) r →
      s.storage.Written account r t → t.Ordered account live) :
      (w.perform account s.storage).2.Ordered account live :=
    Work.keeps_once (fun t ht => h.untouched ht) hw (Work.once hone account s.storage)
  cases w with
  | seed board =>
    refine Work.keeps_discard ?_
    unfold Storage.seed
    rw [bind_apply, get_apply]
    dsimp only
    rw [if_apply]
    split
    · exact keeps_mapM (fun d _ t ht => ht.addStage board d) h
    · exact h
  | addStage board d => exact Work.keeps_discard (h.addStage board d)
  | setStageActive id active => exact hfair.elim
  | restage board source target => exact hfair.elim
  | addCard c =>
    refine honce rfl fun r t he ht => ?_
    obtain ⟨-, rfl⟩ := he
    exact h.written ht (h.records.putCard hfair) fun _ hid => hid
  | removeCard id =>
    refine honce rfl fun r t he ht => ?_
    obtain rfl := he
    exact h.written ht (h.records.dropCard id) fun _ hid => hid
  | setUnread id count =>
    refine honce rfl fun r t he ht => ?_
    obtain ⟨c, n, hc, rfl⟩ := he
    exact ordered_recount h hc ht
  | save id stage position =>
    refine honce rfl fun r t he ht => ?_
    obtain ⟨c, x, -, ho, rfl⟩ := he
    exact h.written ht (h.records.putCard ho) fun _ hid => hid

/-- A deactivation that is not cut short keeps the account in order. -/
theorem ordered_deactivate {announce : Bool} {id : String} (h : s.storage.Ordered account live)
    (hfair : Fair account s (.deactivate announce account id)) :
    (Deactivation.run announce account id s).2.storage.Ordered account live := by
  obtain ⟨r, hr⟩ := hfair rfl
  have hout := Deactivation.outcome announce account id h.records.filed
  generalize Deactivation.run announce account id s = x at hr hout
  -- A fair run deactivates without an error, which leaves out the two failures.
  cases hout with
  | idle r => exact h
  | refused stage fallback hs e t ht he => cases hr
  | cut stage fallback hs e t done i rest he hi ht => cases hr
  | folded stage fallback hs t d hd hfb ht =>
    have hmem := (h.records.filed.stage_mem.1 hs.found).1
    have hkeys := Records.keys_fold h.records.filed hmem fallback
    have hord := h.written ht (h.records.fold hmem hs.fallback) fun _ hid => hkeys ▸ hid
    cases announce <;> exact hord

/-- Whatever may happen keeps the account in order. -/
theorem ordered_run (h : s.storage.Ordered account live) (hfair : Fair account s a) :
    (a.run s).storage.Ordered account live := by
  -- what happens to another account
  by_cases hself : a.account? = some account
  · cases a with
    | use other =>
      obtain rfl : other = account := Option.some.inj hself
      have hrun : (Act.run (.use other) s).storage = (Storage.use other s.storage).2 := rfl
      rw [hrun, Storage.use_of_loaded h.loaded]
      exact h
    | work other w =>
      obtain rfl : other = account := Option.some.inj hself
      exact ordered_work h hfair
    | commit announce target slip p =>
      obtain rfl : p.account = account := Option.some.inj hself
      rcases storage_commit announce target slip p s with ht | ⟨c, -, ho, ht⟩
      · exact h.untouched ht
      · exact h.written ht (h.records.putCard ho) fun _ hid => hid
    | deactivate announce other id =>
      obtain rfl : other = account := Option.some.inj hself
      exact ordered_deactivate h hfair
    | plan now other card target d board => cases hself
    | listen f => cases hself
    | disturb f => cases hself
  · refine a.keeps (P := fun t => t.Ordered account live) ?_ ?_ ?_ ?_ h
    · exact fun t u ht hu => ht.untouched hu
    · intro t u r other w ha ht _ hw
      exact ht.others (fun heq => hself (heq ▸ ha)) hw
    · rintro t other rfl ht
      have hne : account ≠ other := fun heq => hself (heq ▸ rfl)
      obtain ⟨hr, hn, hl⟩ := Storage.use_others hne rfl ht.numbered ht.loaded
      exact ⟨hl, hn, hr ▸ ht.records⟩
    · exact fun t f ht => ⟨ht.loaded, ht.numbered, ht.records⟩

/-- A run of acts that may happen to an account. -/
def FairRun (account : String) : List Act → Server → Prop
  | [], _ => True
  | a :: acts, s => Fair account s a ∧ FairRun account acts (a.run s)

theorem fairRun_append {before after : List Act} :
    FairRun account (before ++ after) s ↔
      FairRun account before s ∧ FairRun account after (runAll before s) := by
  induction before generalizing s with
  | nil => simp [FairRun, runAll]
  | cons a before ih => simp [FairRun, runAll_cons, ih, and_assoc]

theorem ordered_runAll {acts : List Act} (h : s.storage.Ordered account live)
    (hfair : FairRun account acts s) : (runAll acts s).storage.Ordered account live := by
  induction acts generalizing s with
  | nil => exact h
  | cons a acts ih => exact ih (ordered_run h hfair.1) hfair.2

/-- In order it is also known which boards have an open stage now. -/
theorem ordered_live (h : s.storage.Ordered account live) :
    s.storage.Ordered account fun board => ∃ key, (s.records account).isOpen board key :=
  ⟨h.loaded, h.numbered, h.records.filed, h.records.distinct, h.records.housed, fun _ hb => hb⟩

/-- Without a folder no deactivation is cut short. -/
theorem fair_deactivate (h : s.storage.folder = none) (hf : (s.records account).Filed)
    (announce : Bool) (other id : String) : Fair account s (.deactivate announce other id) := by
  intro _
  rcases Server.deactivate_cases h announce account id hf with
    ⟨r, hr⟩ | ⟨stage, fallback, t, d, -, -, -, -, -, -, hr⟩
  · exact ⟨r, congrArg Prod.fst hr⟩
  · exact ⟨.ok d, congrArg Prod.fst hr⟩

/-- A server without records and without a folder. -/
def blank : Server := { storage := { repository := { loaded := ["acme"] } } }

/-- A card is to be moved to a stage that is closed in the meantime, and then saved into the stage
that it was carried from. -/
def late : List Act :=
  [.work "acme" (.seed "sales"), .work "acme" (.addCard ⟨"1", "sales", "qualified", 1.0, 0, []⟩),
    .plan 0.0 "acme" "1" "new" {} none, .deactivate true "acme" "1", .deactivate true "acme" "2",
    .commit true "new" (.ok ()) ⟨"acme", "1", "sales", "new", 5.0⟩,
    .work "acme" (.save "1" "qualified" (.real 2.0))]

theorem fairRun_late : FairRun "acme" late blank := by
  have hfiled (n : Nat) : ((runAll (late.take n) blank).records "acme").Filed := by
    refine filed_runAll _ ?_
    constructor <;> decide
  have hmemory (n : Nat) (h : (runAll (late.take n) blank).storage.folder.isNone = true)
      (id : String) : Fair "acme" (runAll (late.take n) blank) (.deactivate true "acme" id) :=
    fair_deactivate (Option.isNone_iff_eq_none.1 h) (hfiled n) true "acme" id
  refine ⟨fun _ => trivial, fun _ => ?_, trivial, ?_, ?_, trivial, fun _ => trivial, trivial⟩
  · decide +kernel
  · exact hmemory 3 (by decide +kernel) "1"
  · exact hmemory 4 (by decide +kernel) "2"

/-- From an empty account on, no two stages of a board have one key, every card is in an open stage of
its board, and a board that once had an open stage still has one. -/
theorem never_stranded {acts : List Act} (h₀ : s.records account = {})
    (hl : s.storage.repository.loaded.contains account = true)
    (hfair : FairRun account acts s) :
    (∀ board, ((runAll acts s).records account).Distinct board) ∧
      (∀ id c, ((runAll acts s).records account).card? id = some c →
        ((runAll acts s).records account).isOpen c.board c.stage) ∧
      ∀ before after, acts = before ++ after → ∀ board,
        (∃ key, ((runAll before s).records account).isOpen board key) →
          ∃ key, ((runAll acts s).records account).isOpen board key := by
  have hstart : s.storage.Ordered account fun _ => False := by
    refine ⟨hl, ?_, ?_⟩
    · intro id hid
      rw [show s.storage.records account = {} from h₀] at hid
      cases hid
    · rw [show s.storage.records account = {} from h₀]
      exact Records.ordered_empty
  have hend := ordered_runAll hstart hfair
  refine ⟨hend.records.distinct, fun id c hc => ?_, ?_⟩
  · exact hend.records.housed c.board c (Entries.mem_values_of_get? hc) rfl
  · -- Restarted in the middle of the run, with the boards that are live there.
    rintro before after rfl board hopen
    obtain ⟨hbefore, hafter⟩ := fairRun_append.1 hfair
    have hmid := ordered_live (ordered_runAll hstart hbefore)
    have hlast := (ordered_runAll hmid hafter).records.live board hopen
    rw [runAll_append]
    exact hlast

theorem never_stranded_late :
    blank.records "acme" = {} ∧ blank.storage.repository.loaded.contains "acme" = true ∧
      FairRun "acme" late blank ∧
      (∀ board, ((runAll late blank).records "acme").Distinct board) ∧
      (∀ id c, ((runAll late blank).records "acme").card? id = some c →
        ((runAll late blank).records "acme").isOpen c.board c.stage) ∧
      ∀ before after, late = before ++ after → ∀ board,
        (∃ key, ((runAll before blank).records "acme").isOpen board key) →
          ∃ key, ((runAll late blank).records "acme").isOpen board key := by
  have hl : blank.storage.repository.loaded.contains "acme" = true := by decide
  exact ⟨rfl, hl, fairRun_late, never_stranded rfl hl fairRun_late⟩

/-- The card was carried when its stage was closed, and nothing brought it back. -/
example : ((runAll late blank).records "acme").card? "1" =
    some ⟨"1", "sales", "proposal", 1.0, 0, []⟩ := by decide +kernel

end Act

end Kanban
