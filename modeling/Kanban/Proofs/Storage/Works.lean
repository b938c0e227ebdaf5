import Kanban.Proofs.Storage.Writing

/-!
# Kanban.Proofs.Storage.Works — what is done to an account's records

The operations on the records of one account, as data, so that runs of them can be spoken of. Every
operation is a row of writes, most are a single one, and `edits` says of each operation what one of
its writes does to the records. What all these edits keep, a run of operations keeps, also where
writes are refused in the middle of an operation.

* `Work`, `perform`, `edits` — the operations and their writes.
* `edits_cases` — what a write can do.
* `once` — operations that write once.
* `keeps` — what the writes keep, the operation keeps.
* `restageAll_outcome` — cards are restaged one by one, up to the first write that is refused.
-/

namespace Kanban

/-- Something that is done to the records of an account. -/
inductive Work where
  /-- Store the default stages on a board that has none. -/
  | seed (board : Key)
  /-- Store a new stage. -/
  | addStage (board : Key) (d : Stage.Draft)
  /-- Open or close a stage. -/
  | setStageActive (id : String) (active : Bool)
  /-- Store a new card. -/
  | addCard (c : Card)
  /-- Drop a card. -/
  | removeCard (id : String)
  /-- Set the count of unread messages of a card. -/
  | setUnread (id : String) (count : Value)
  /-- Save a handle of a card, taken at any time, with any stage and position. -/
  | save (id : String) (stage : Key) (position : Value)
  /-- Move all cards of a stage to another. -/
  | restage (board source target : Key)

namespace Work

open Storage Operation

variable {account : String} {s t : Storage}

/-- Do the work; what it answers is not looked at, only whether it fails. -/
def perform (account : String) : Work → Storage.Op PUnit
  | .seed board => discard (Storage.seed account board)
  | .addStage board d => discard (Storage.addStage account board d)
  | .setStageActive id active => discard (Storage.setStageActive account id active)
  | .addCard c => discard (Storage.addCard account c)
  | .removeCard id => discard (Storage.removeCard account id)
  | .setUnread id count => discard (Storage.setUnread account id count)
  | .save id stage position => discard (Storage.place account id stage position)
  | .restage board source target => discard (Storage.restage account board source target)

/-- Whether the work is a single write at most. -/
def isSingle : Work → Bool
  | .seed _ | .restage _ _ _ => false
  | _ => true

/-- A draft is stored as a stage under a numeral that can be read. -/
def Drafts (board : Key) (d : Stage.Draft) (r r' : Records) : Prop :=
  ∃ n, (toString n).length ≤ Decimal.Numeral.maxDigits ∧ r' = r.putStage (drafted board d n r)

/-- What one write of the work does to the records. -/
def edits : Work → Records → Records → Prop
  | .seed board, r, r' => ∃ d ∈ Stage.defaults, Drafts board d r r'
  | .addStage board d, r, r' => Drafts board d r r'
  | .setStageActive id active, r, r' =>
    ∃ stage, r.stage? id = some stage ∧ r' = r.putStage { stage with active }
  | .addCard c, r, r' => r.card? c.id = none ∧ r' = r.putCard c
  | .removeCard id, r, r' => r' = r.dropCard id
  | .setUnread id _, r, r' => ∃ c n, r.card? id = some c ∧ r' = r.putCard { c with unread := n }
  | .save id stage _, r, r' =>
    ∃ c x, r.card? id = some c ∧ r.isOpen c.board stage ∧
      r' = r.putCard { c with stage, position := x }
  | .restage _ source target, r, r' =>
    ∃ id c, r.card? id = some c ∧ c.stage = source ∧ r' = r.putCard { c with stage := target }

/-- Every write puts a stage, under a numeral that can be read or under the id of one that is there,
or it puts or drops a card. -/
theorem edits_cases {w : Work} {r r' : Records} (he : w.edits r r') :
    (∃ s : Stage, ((∃ n : Nat, (toString n).length ≤ Decimal.Numeral.maxDigits ∧ s.id = toString n) ∨
        ∃ id t, r.stage? id = some t ∧ s.id = t.id) ∧ r' = r.putStage s) ∨
      (∃ c, r' = r.putCard c) ∨ ∃ id, r' = r.dropCard id := by
  -- an edit stores one stage or one card, or drops a card
  cases w with
  | seed board =>
    obtain ⟨d, -, n, hn, rfl⟩ := he
    exact .inl ⟨_, .inl ⟨n, hn, rfl⟩, rfl⟩
  | addStage board d =>
    obtain ⟨n, hn, rfl⟩ := he
    exact .inl ⟨_, .inl ⟨n, hn, rfl⟩, rfl⟩
  | setStageActive id active =>
    obtain ⟨stage, hs, rfl⟩ := he
    exact .inl ⟨{ stage with active }, .inr ⟨id, stage, hs, rfl⟩, rfl⟩
  | addCard c =>
    obtain ⟨-, rfl⟩ := he
    exact .inr (.inl ⟨c, rfl⟩)
  | removeCard id => exact .inr (.inr ⟨id, he⟩)
  | setUnread id count =>
    obtain ⟨c, n, -, rfl⟩ := he
    exact .inr (.inl ⟨_, rfl⟩)
  | save id stage position =>
    obtain ⟨c, x, -, -, rfl⟩ := he
    exact .inr (.inl ⟨_, rfl⟩)
  | restage board source target =>
    obtain ⟨id, c, -, -, rfl⟩ := he
    exact .inr (.inl ⟨_, rfl⟩)

/-- What is done to records that are filed leaves them filed. -/
theorem filed_edits {w : Work} {r r' : Records} (h : r.Filed) (he : w.edits r r') : r'.Filed := by
  rcases edits_cases he with ⟨s, -, rfl⟩ | ⟨c, rfl⟩ | ⟨id, rfl⟩
  · exact Records.filed_putStage h s
  · exact Records.filed_putCard h c
  · exact Records.filed_dropCard h id

/-! ## Single writes -/

theorem once_discard {α : Type} {E E' : Records → Prop} {op : Storage.Op α}
    (h : Once account E s (op s)) (hE : ∀ r, E r → E' r) : Once account E' s (discard op s) := by
  rw [discard_apply]
  cases hr : op s with
  | mk a t =>
    rw [hr] at h
    rcases h with h | ⟨⟨b, rfl⟩, r, he, hw⟩
    · cases a with
      | error e => exact .inl h
      | ok b => exact .inl h
    · exact .inr ⟨⟨⟨⟩, rfl⟩, r, hE r he, hw⟩

/-- A draft is stored at once. -/
theorem once_addStage (account : String) (board : Key) (d : Stage.Draft) (s : Storage) :
    Once account (Drafts board d (s.records account)) s (Storage.addStage account board d s) := by
  rcases addStage_outcome account board d s with h | ⟨-, hn, ha, hw⟩
  · exact .inl h
  · exact .inr ⟨⟨_, ha⟩, _, ⟨_, hn, rfl⟩, (untouched_drawn s).written hw⟩

/-- Work that is a single write does what its write does, or nothing. -/
theorem once {w : Work} (hw : w.isSingle) (account : String) (s : Storage) :
    Once account (w.edits (s.records account)) s (w.perform account s) := by
  cases w with
  | seed => simp [isSingle] at hw
  | restage => simp [isSingle] at hw
  | addStage board d => exact once_discard (once_addStage account board d s) fun _ => id
  | setStageActive i active => exact once_discard (setStageActive_once account i active s) fun _ => id
  | addCard c => exact once_discard (addCard_once account c s) fun _ => id
  | removeCard i => exact once_discard (removeCard_once account i s) fun _ => id
  | setUnread i count => exact once_discard (setUnread_once account i count s) fun _ => id
  | save i stage position =>
    have hp : Once account ((Work.save i stage position).edits (s.records account)) s
        (Storage.place account i stage position s) := by
      rcases place_outcome account i stage position s with ⟨e, t, he, ht⟩ | ⟨c, x, t, hc, ho, -, he, ht⟩
      · rw [he]
        exact .inl ht
      · rw [he]
        exact .inr ⟨⟨_, rfl⟩, _, ⟨c, x, hc, ho, rfl⟩, ht⟩
    exact once_discard hp fun _ => id

/-! ## Rows of writes -/

variable {P : Storage → Prop}

/-- What a write and a refusal keep, an operation keeps that writes at most once. -/
theorem keeps_once {α : Type} {E : Records → Prop} {x : Except Failure α × Storage}
    (hu : ∀ t, s.Untouched t → P t) (hw : ∀ r t, E r → s.Written account r t → P t)
    (h : Once account E s x) : P x.2 := by
  rcases h with h | ⟨-, r, he, h⟩
  · exact hu _ h
  · exact hw r _ he h

theorem keeps_discard {α : Type} {op : Storage.Op α} (h : P (op s).2) : P (discard op s).2 := by
  rw [discard_apply]
  cases hr : op s with
  | mk a t =>
    rw [hr] at h
    cases a <;> exact h

/-- What is kept while cards are restaged one by one. -/
theorem keeps_restageAll {source target : Key} (hu : ∀ s t, P s → s.Untouched t → P t)
    (hw : ∀ s t id c, P s → (s.records account).card? id = some c → c.stage = source →
      s.Written account ((s.records account).putCard { c with stage := target }) t → P t)
    (ids : List String) {s : Storage} (hs : P s) :
    P (restageAll account source target ids s).2 := by
  induction ids generalizing s with
  | nil => exact hs
  | cons id ids ih =>
    unfold restageAll
    rw [bind_apply, get_apply]
    dsimp only
    cases hc : (s.records account).card? id with
    | none => exact ih hs
    | some c =>
      dsimp only
      rw [if_apply]
      split
      · exact ih hs
      · rename_i hst
        rw [bind_apply]
        rcases persist_cases account { cards := [{ c with stage := target }] } s with
          ⟨e, t, hp, ht⟩ | ⟨t, hp, ht⟩
        · rw [hp]
          exact hu s t hs ht
        · rw [hp]
          rw [Records.apply_card] at ht
          refine keeps_bind (ih (hw s t id c hs hc (not_not.1 hst) ht)) fun _ _ h => h

/-- What every write of the work keeps, and every refusal, the work keeps. -/
theorem keeps (w : Work) (account : String) (hu : ∀ s t, P s → s.Untouched t → P t)
    (hw : ∀ s t r, P s → w.edits (s.records account) r → s.Written account r t → P t)
    {s : Storage} (hs : P s) : P (w.perform account s).2 := by
  by_cases hone : w.isSingle
  · exact keeps_once (hu s · hs) (fun r t => hw s t r hs) (once hone account s)
  · cases w with
    | seed board =>
      refine keeps_discard ?_
      unfold Storage.seed
      rw [bind_apply, get_apply]
      dsimp only
      rw [if_apply]
      split
      · refine keeps_mapM (fun d hd s hs => ?_) hs
        exact keeps_once (hu s · hs) (fun r t he => hw s t r hs ⟨d, hd, he⟩)
          (once_addStage account board d s)
      · exact hs
    | restage board source target =>
      refine keeps_discard ?_
      unfold Storage.restage
      rw [bind_apply, get_apply]
      dsimp only
      exact keeps_restageAll hu (fun s t id c hs hc hst => hw s t _ hs ⟨id, c, hc, hst, rfl⟩) _ hs
    | _ => exact absurd rfl hone

end Work

namespace Storage

open Operation

variable {account : String} {r r' : Records} {s t u : Storage}

/-! ## Cards one by one -/

/-- Storage on which the records of an account became others in some writes, or in none. -/
def Became (account : String) (r : Records) (s t : Storage) : Prop :=
  (s.Untouched t ∧ s.records account = r) ∨ s.Written account r t

theorem Became.records_self (h : Became account r s t) : t.records account = r := by
  rcases h with ⟨h, hr⟩ | h
  · rw [h.records, hr]
  · exact h.records_self

theorem became_refl (account : String) (s : Storage) : Became account (s.records account) s s :=
  .inl ⟨.refl s, rfl⟩

/-- What was written and then became something else was written. -/
theorem Written.became (h : Written account r s t) (h' : Became account r' t u) :
    Written account r' s u := by
  rcases h' with ⟨h', hr⟩ | h'
  · obtain rfl : r = r' := h.records_self.symm.trans hr
    exact h.untouched h'
  · exact h.trans h'

/-- Cards are restaged one after the other, all of them or those before a write that is refused. -/
theorem restageAll_outcome (account : String) (source target : Key) (ids : List String)
    (s : Storage) :
    (∃ l t, restageAll account source target ids s = (.ok l, t) ∧
        Became account ((s.records account).restage source target ids) s t) ∨
      ∃ e t done id rest, restageAll account source target ids s = (.error e, t) ∧
        ids = done ++ id :: rest ∧
        Became account ((s.records account).restage source target done) s t := by
  induction ids generalizing s with
  | nil => exact .inl ⟨[], s, rfl, became_refl account s⟩
  | cons id ids ih =>
    -- the first card is left where it is, or it is restaged, and then the rest follows
    have hcons (l : List String) (r : Records) : r.restage source target (id :: l) =
        (r.restageOne source target id).restage source target l := rfl
    have hskip (hone : (s.records account).restageOne source target id = s.records account)
        (hrun : restageAll account source target (id :: ids) s =
          restageAll account source target ids s) :
        (∃ l t, restageAll account source target (id :: ids) s = (.ok l, t) ∧
            Became account ((s.records account).restage source target (id :: ids)) s t) ∨
          ∃ e t done i rest, restageAll account source target (id :: ids) s = (.error e, t) ∧
            id :: ids = done ++ i :: rest ∧
            Became account ((s.records account).restage source target done) s t := by
      rcases ih s with ⟨l, t, hl, ht⟩ | ⟨e, t, done, i, rest, hl, rfl, ht⟩
      · exact .inl ⟨l, t, hrun.trans hl, by rw [hcons, hone]; exact ht⟩
      · exact .inr ⟨e, t, id :: done, i, rest, hrun.trans hl, rfl, by rw [hcons, hone]; exact ht⟩
    cases hc : (s.records account).card? id with
    | none =>
      refine hskip (by rw [Records.restageOne, hc]) ?_
      rw [restageAll, bind_apply, get_apply]
      simp only [hc]
    | some c =>
      by_cases hs : c.stage = source
      · have hone : (s.records account).restageOne source target id =
            (s.records account).putCard { c with stage := target } := by
          rw [Records.restageOne, hc]
          exact if_pos hs
        rw [restageAll, bind_apply, get_apply]
        simp only [hc, if_apply, hs, ne_eq, not_true, if_false]
        rw [bind_apply]
        rcases persist_cases account { cards := [{ c with stage := target }] } s with
          ⟨e, t, hp, ht⟩ | ⟨t, hp, ht⟩
        · rw [hp]
          exact .inr ⟨e, t, [], id, ids, rfl, rfl, .inl ⟨ht, rfl⟩⟩
        · rw [hp]
          rw [Records.apply_card, ← hone] at ht
          simp only [bind_apply, pure_apply]
          rcases ih t with ⟨l, u, hl, hu⟩ | ⟨e, u, done, i, rest, hl, rfl, hu⟩
          · rw [hl]
            rw [ht.records_self] at hu
            exact .inl ⟨id :: l, u, rfl, .inr (ht.became hu)⟩
          · rw [hl]
            rw [ht.records_self] at hu
            exact .inr ⟨e, u, id :: done, i, rest, rfl, rfl, .inr (ht.became hu)⟩
      · refine hskip (by rw [Records.restageOne, hc]; exact if_neg hs) ?_
        rw [restageAll, bind_apply, get_apply]
        simp only [hc, if_apply, ne_eq, hs, not_false_eq_true, if_true]

end Storage

end Kanban
