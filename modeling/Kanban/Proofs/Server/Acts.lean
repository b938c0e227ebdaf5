import Kanban.Proofs.Server.Folding
import Kanban.Proofs.Storage.Using

/-!
# Kanban.Proofs.Server.Acts — everything that happens on a server

The operations of a server as data, so that runs of them can be spoken of: what is done to the
records of accounts, transitions in their two steps, deactivations, and what happens to the channel
and the folder from outside. An act may fail and keeps what it did before it failed.

* `Act`, `run`, `runAll` — acts and runs of them.
* `filed_runAll` — records stay filed under their ids.
-/

namespace Kanban

/-- Something that happens on a server. -/
inductive Act where
  /-- Use an account. -/
  | use (account : String)
  /-- Work on the records of an account. -/
  | work (account : String) (w : Work)
  /-- Plan a transition. -/
  | plan (now : Float) (account card : String) (target : Key) (d : Directive) (board : Option Key)
  /-- Store a transition that was planned at any time. -/
  | commit (announce : Bool) (target : Key) (slip : Except Failure Unit) (p : Plan)
  /-- Deactivate a stage. -/
  | deactivate (announce : Bool) (account id : String)
  /-- Subscribers come, read and go. -/
  | listen (f : Channel → Channel)
  /-- Something happens to the folder. -/
  | disturb (f : Folder → Folder)

namespace Act

/-- The server after an act. -/
def run : Act → Server → Server
  | .use account, s => (Server.use account s).2
  | .work account w, s => (Server.onStorage (w.perform account) s).2
  | .plan now account card target d board, s =>
    (Transition.plan now account card target d board s).2
  | .commit announce target slip p, s => (Transition.commit announce target slip p s).2
  | .deactivate announce account id, s => (Deactivation.run announce account id s).2
  | .listen f, s => { s with channel := f s.channel }
  | .disturb f, s => { s with storage := { s.storage with folder := s.storage.folder.map f } }

/-- The server after a row of acts. -/
def runAll (acts : List Act) (s : Server) : Server := acts.foldl (fun s a => a.run s) s

theorem runAll_cons (a : Act) (acts : List Act) (s : Server) :
    runAll (a :: acts) s = runAll acts (a.run s) := rfl

theorem runAll_append (before after : List Act) (s : Server) :
    runAll (before ++ after) s = runAll after (runAll before s) := List.foldl_append

theorem runAll_use (account : String) (s : Server) :
    runAll [.use account] s = (Server.use account s).2 := rfl

end Act

namespace Transition

variable {announce : Bool} {target : Key} {slip : Except Failure Unit} {p : Plan} {s : Server}

/-- Storing a plan changes nothing, or it stores the card in an open stage of its board and
publishes it. -/
theorem commit_outcome (announce : Bool) (target : Key) (slip : Except Failure Unit) (p : Plan)
    (s : Server) :
    (∃ e t, commit announce target slip p s = (.error e, { s with storage := t }) ∧
        s.storage.Untouched t) ∨
      ∃ c t, (s.records p.account).card? p.card = some c ∧
        (s.records p.account).isOpen c.board p.stage ∧ Decimal.isFinite p.position = true ∧
        s.storage.Written p.account ((s.records p.account).putCard (Storage.moved p c)) t ∧
        commit announce target slip p s =
          (.ok (Storage.moved p c),
            if announce then
              ({ s with storage := t } : Server).publish p.account c.board
                (event (Storage.moved p c))
            else { s with storage := t }) := by
  unfold commit
  rw [store_eq]
  cases slip with
  | error e => exact .inl ⟨_, s.storage, rfl, .refl _⟩
  | ok u =>
    rcases Storage.place_outcome p.account p.card p.stage (.real p.position) s.storage with
      ⟨e, t, hp, ht⟩ | ⟨c, x, t, hc, ho, hx, hp, ht⟩
    · exact .inl ⟨_, t, by simp only [hp]; rfl, ht⟩
    · -- the position of a plan passes the check as it is
      unfold Storage.checkPosition at hx
      rw [Value.toReal_real] at hx
      dsimp only at hx
      split at hx
      · rename_i hfin
        obtain rfl := Except.ok.inj hx
        exact .inr ⟨c, t, hc, ho, hfin, ht, by simp only [hp]; rfl⟩
      · cases hx

end Transition

namespace Deactivation

open Operation

/-- What every write of some work keeps, and every refusal, a deactivation keeps. -/
theorem keeps_run {P : Storage → Prop} (announce : Bool) (account id : String)
    (hu : ∀ t u, P t → t.Untouched u → P u)
    (hw : ∀ t u r (w : Work), P t → w.edits (t.records account) r → t.Written account r u → P u)
    {s : Server} (hs : P s.storage) : P (run announce account id s).2.storage := by
  have hkeeps (w : Work) {t : Server} (ht : P t.storage) : P (w.perform account t.storage).2 :=
    w.keeps account hu (fun t u r => hw t u r w) ht
  have hdiscard {α : Type} (op : Storage.Op α) (t : Storage) : (discard op t).2 = (op t).2 := by
    rw [discard_apply]
    cases op t with
    | mk r u => cases r <;> rfl
  unfold run
  rw [bind_apply, get_apply]
  dsimp only
  cases (s.records account).stage? id with
  | none => exact hs
  | some stage =>
    dsimp only
    rw [if_apply]
    split
    · exact hs
    · cases (s.records account).defaultStage? stage.board [stage.id] with
      | none => exact hs
      | some fallback =>
        refine keeps_bind (P := fun t : Server => P t.storage) ?_ fun _ t ht => ?_
        · -- closing the stage is one piece of work, and moving its cards another
          have hset := hkeeps (.setStageActive stage.id false) hs
          unfold Work.perform at hset
          rw [hdiscard] at hset
          have hrun : ((discard (Server.onStorage
              (Storage.setStageActive account stage.id false))) s).2.storage =
                (Storage.setStageActive account stage.id false s.storage).2 := by
            rw [discard_apply]
            unfold Server.onStorage
            cases Storage.setStageActive account stage.id false s.storage with
            | mk r u => cases r <;> rfl
          rw [hrun]
          exact hset
        · refine keeps_bind (P := fun t : Server => P t.storage) ?_ fun _ u hu => ?_
          · have hres := hkeeps (.restage stage.board stage.key fallback.key) ht
            unfold Work.perform at hres
            rw [hdiscard] at hres
            exact hres
          · cases announce <;> exact hu

end Deactivation

namespace Act

open Operation

variable {account : String} {s : Server}

/-- The storage after a planned transition: nothing was stored, or a card in an open stage. -/
theorem storage_commit (announce : Bool) (target : Key) (slip : Except Failure Unit) (p : Plan)
    (s : Server) :
    s.storage.Untouched (Transition.commit announce target slip p s).2.storage ∨
      ∃ c, (s.records p.account).card? p.card = some c ∧
        (s.records p.account).isOpen c.board p.stage ∧
        s.storage.Written p.account ((s.records p.account).putCard (Storage.moved p c))
          (Transition.commit announce target slip p s).2.storage := by
  rcases Transition.commit_outcome announce target slip p s with
    ⟨e, t, hc, ht⟩ | ⟨c, t, hcard, ho, -, ht, hc⟩
  · rw [hc]
    exact .inl ht
  · rw [hc]
    refine .inr ⟨c, hcard, ho, ?_⟩
    cases announce <;> exact ht

/-- The account whose records an act may change. -/
def account? : Act → Option String
  | .use account | .work account _ | .deactivate _ account _ => some account
  | .commit _ _ _ p => some p.account
  | _ => none

/-- What every write to the records of an account keeps, and every refusal, an act keeps, unless it
uses the account for the first time. -/
theorem keeps {P : Storage → Prop} (a : Act) (hu : ∀ t u, P t → t.Untouched u → P u)
    (hw : ∀ t u r other (w : Work), a.account? = some other → P t →
      w.edits (t.records other) r → t.Written other r u → P u)
    (huse : ∀ t other, a = .use other → P t → P (Storage.use other t).2)
    (hfolder : ∀ t f, P t → P { t with folder := f }) {s : Server} (hs : P s.storage) :
    P (a.run s).storage := by
  cases a with
  | use other => exact huse _ other rfl hs
  | work other w => exact w.keeps other hu (fun t u r => hw t u r other w rfl) hs
  | plan now other card target d board =>
    obtain ⟨l, hl⟩ := Server.plan_frame now other card target d board s
    have hrun : run (.plan now other card target d board) s = { s with allocator := l } := hl
    rw [hrun]
    exact hs
  | commit announce target slip p =>
    rcases storage_commit announce target slip p s with ht | ⟨c, hc, ho, ht⟩
    · exact hu _ _ hs ht
    · -- what is stored is what saving a handle would store
      have hid : ({ c with stage := p.stage, position := p.position } : Card) = Storage.moved p c :=
        rfl
      exact hw _ _ _ _ (.save p.card p.stage (.real p.position)) rfl hs
        ⟨c, p.position, hc, ho, congrArg (Records.putCard · _) hid.symm⟩ ht
  | deactivate announce other id =>
    exact Deactivation.keeps_run announce other id hu (fun t u r w => hw t u r other w rfl) hs
  | listen f => exact hs
  | disturb f => exact hfolder _ _ hs

theorem filed_run (a : Act) (h : (s.records account).Filed) :
    ((a.run s).records account).Filed := by
  refine a.keeps (P := fun t => (t.records account).Filed) ?_ ?_ ?_ ?_ h
  · intro t u ht hu
    rw [hu.records]
    exact ht
  · -- an edit keeps the records that it edits filed, and touches no others
    intro t u r other w _ ht he hw
    by_cases ho : account = other
    · subst ho
      rw [hw.records_self]
      exact Work.filed_edits ht he
    · rw [hw.records_of_ne ho]
      exact ht
  · intro t other _ ht
    exact Storage.filed_use ht
  · intro t f ht
    exact ht

/-- Records stay filed whatever happens. -/
theorem filed_runAll (acts : List Act) (h : (s.records account).Filed) :
    ((runAll acts s).records account).Filed := by
  induction acts generalizing s with
  | nil => exact h
  | cons a acts ih => exact ih (filed_run a h)

end Act

end Kanban
