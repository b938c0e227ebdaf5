import Kanban.Proofs.Channel.Registry
import Kanban.Proofs.Projection.Wire
import Kanban.Proofs.Server.Steps

/-!
# Kanban.Proofs.Server.Telling — what a board's subscribers are told

A step of the server, as it looks from one board of one account: the places of the board's cards
change as a notice says, and the board's subscribers are told just that notice, or nothing changes
there and nothing is told.

* `Keeps` — a server in order; `Sole` — no other board is published under the board's key.
* `Told` — places and subscriptions change by the same notice.
* `commit_told`, `run_told`, `deactivate_told` — transitions and deactivations, by whomever, are
  told.
-/

namespace Kanban

open Projection (Spot)

namespace Server

variable {account : String} {board : Key} {s t : Server}

/-- A server in order, as far as one board of an account is concerned. -/
structure Keeps (account : String) (board : Key) (s : Server) : Prop where
  memory : s.storage.folder = none
  filed : ∀ a, (s.records a).Filed
  named : (s.records account).Named board
  exact : s.channel.Exact

/-- No other board that is in use is published under the key of the board. -/
def Sole (account : String) (board : Key) (s : Server) : Prop :=
  ∀ a b, (s.records a).Uses b → Channel.keyOf a b = Channel.keyOf account board →
    a = account ∧ b = board

/-- Every card of the board is in an open stage. -/
def Housed (account : String) (board : Key) (s : Server) : Prop := (s.records account).Housed board

/-- The place of a card, if it is in an open stage of the board. -/
def shown? (account : String) (board : Key) (id : String) (s : Server) : Option Spot :=
  (s.records account).shown? board id

/-- Whether a key is that of an active stage of the board. -/
def isOpen (account : String) (board key : Key) (s : Server) : Bool :=
  (s.records account).isOpen board key

/-- An open subscription to the events of the board, to which deliveries do not fail. -/
structure Listens (account : String) (board : Key) (sub : Subscription) : Prop where
  key : sub.key = Channel.keyOf account board
  closed : sub.closed = false
  broken : sub.broken = false

/-- A subscription after the board's subscribers are told something, or nothing. -/
def tell (note : Option Notice) (sub : Subscription) : Subscription :=
  match note with
  | none => sub
  | some n => sub.deliver n.toValue

/-- The server says of the board's cards what happens to them. -/
structure Told (account : String) (board : Key) (note : Option Notice) (s t : Server) : Prop where
  shown : ∀ id, t.shown? account board id =
    (s.shown? account board id).map (Notice.carryAll id note.toList)
  heard : ∀ n sub, s.channel.subscription? n = some sub → Listens account board sub →
    t.channel.subscription? n = some (tell note sub)
  opened : ∀ k, t.isOpen account board k → s.isOpen account board k
  closed : ∀ k f, note = some (.folded k f) → t.isOpen account board (.text k) = false

/-- A step of the server, and what is told of it. -/
structure Step (account : String) (board : Key) (note : Option Notice) (s t : Server) : Prop where
  keeps : t.Keeps account board
  told : Told account board note s t
  housed : s.Housed account board → t.Housed account board
  sole : s.Sole account board → t.Sole account board

theorem listens_tell {note : Option Notice} {sub : Subscription} (h : Listens account board sub) :
    Listens account board (tell note sub) := by
  cases note with
  | none => exact h
  | some n =>
    exact ⟨(Subscription.key_accept _ sub).trans h.key,
      (Subscription.closed_accept _ sub).trans h.closed,
      (Subscription.broken_accept _ sub).trans h.broken⟩

/-! ## Steps that tell nothing -/

theorem map_carryAll_nil (id : String) (z : Option Spot) : z.map (Notice.carryAll id []) = z := by
  cases z <;> rfl

/-- A step after which records and subscriptions are the same. -/
theorem step_frame (h : s.Keeps account board) (hm : t.storage.folder = none)
    (hr : ∀ a, t.records a = s.records a) (hc : t.channel = s.channel) :
    Step account board none s t where
  keeps := ⟨hm, fun a => hr a ▸ h.filed a, hr account ▸ h.named, hc ▸ h.exact⟩
  told := by
    refine ⟨fun id => ?_, fun n sub hn _ => ?_, fun k => ?_, by simp⟩
    · rw [shown?, hr, Option.toList_none, map_carryAll_nil]
      rfl
    · rw [hc]
      exact hn
    · rw [isOpen, isOpen, hr]
      exact id
  housed := by
    rw [Housed, Housed, hr]
    exact id
  sole := fun hs a b hu => hs a b (hr a ▸ hu)

theorem step_refl (h : s.Keeps account board) : Step account board none s s :=
  step_frame h h.memory (fun _ => rfl) rfl

/-! ## Storing and publishing -/

/-- Publishing under the key of the board is heard by its subscribers. -/
theorem subscription?_publish_self (h : s.channel.Exact) (e : Value) {n : Nat} {sub : Subscription}
    (hn : s.channel.subscription? n = some sub) (hl : Listens account board sub) :
    (s.publish account board e).channel.subscription? n = some (sub.deliver e) := by
  have hp := Channel.subscription?_publish h (Channel.keyOf account board) e n
  have ho : sub.isOpen (Channel.keyOf account board) = true := by
    simp [Subscription.isOpen, hl.key, hl.closed]
  rw [hn, Option.map_some, if_pos ho, Subscription.hear, if_neg (by simp [hl.broken])] at hp
  exact hp

/-- Publishing under another key is not heard by them. -/
theorem subscription?_publish_of_ne (h : s.channel.Exact) {a : String} {b : Key}
    (hk : Channel.keyOf a b ≠ Channel.keyOf account board) (e : Value) {n : Nat}
    {sub : Subscription} (hn : s.channel.subscription? n = some sub)
    (hl : Listens account board sub) :
    (s.publish a b e).channel.subscription? n = some sub := by
  have hp := Channel.subscription?_publish h (Channel.keyOf a b) e n
  have ho : ¬sub.isOpen (Channel.keyOf a b) = true := by
    simp [Subscription.isOpen, hl.key, Ne.symm hk]
  rw [hn, Option.map_some, if_neg ho] at hp
  exact hp

/-- Records of the account of a board that were changed as a notice says. -/
structure Follows (board : Key) (note : Option Notice) (r r' : Records) : Prop where
  named : r'.Named board
  shown : ∀ id, r'.shown? board id = (r.shown? board id).map (Notice.carryAll id note.toList)
  opened : ∀ k, r'.isOpen board k → r.isOpen board k
  closed : ∀ k f, note = some (.folded k f) → r'.isOpen board (.text k) = false
  housed : r.Housed board → r'.Housed board

/-- The records of all accounts stay filed when those of one are. -/
theorem Stored.filed {a : String} {r : Records} (hst : Stored a r s t)
    (h : ∀ a, (s.records a).Filed) (hr : r.Filed) (a' : String) : (t.records a').Filed := by
  by_cases ha : a' = a
  · rw [ha, hst.records]
    exact hr
  · rw [hst.others a' ha]
    exact h a'

/-- A board stays sole when no new board comes into use. -/
theorem Stored.sole {a : String} {r : Records} (hst : Stored a r s t)
    (hu : ∀ b, r.Uses b → (s.records a).Uses b) (hs : s.Sole account board) :
    t.Sole account board := by
  intro a' b hub
  by_cases ha : a' = a
  · rw [ha, hst.records] at hub
    rw [ha]
    exact hs a b (hu b hub)
  · rw [hst.others a' ha] at hub
    exact hs a' b hub

/-- A change of the board's records that is published on the board. -/
theorem Stored.step_own {r : Records} {note : Notice} (hst : Stored account r s t)
    (h : s.Keeps account board) (hfiled : r.Filed)
    (hu : ∀ b, r.Uses b → (s.records account).Uses b)
    (hr : Follows board (some note) (s.records account) r) {e : Value} (he : e = note.toValue) :
    Step account board (some note) s (t.publish account board e) where
  keeps := by
    refine ⟨hst.memory, hst.filed h.filed hfiled, ?_, Channel.exact_publish
      (hst.channel ▸ h.exact) _ _⟩
    -- publishing changes no records
    have hrec : (t.publish account board e).records account = r := hst.records
    rw [hrec]
    exact hr.named
  told := by
    have hrec : (t.publish account board e).records account = r := hst.records
    refine ⟨fun id => ?_, fun n sub hn hl => ?_, fun k => ?_, fun k f hk => ?_⟩
    · rw [shown?, hrec, hr.shown]
      rfl
    · rw [he]
      exact subscription?_publish_self (hst.channel ▸ h.exact) _ (hst.channel ▸ hn) hl
    · rw [isOpen, hrec]
      exact hr.opened k
    · rw [isOpen, hrec]
      exact hr.closed k f hk
  housed := by
    have hrec : (t.publish account board e).records account = r := hst.records
    rw [Housed, Housed, hrec]
    exact hr.housed
  sole := hst.sole hu

/-- A change of records that is published on another board. -/
theorem Stored.step_other {a : String} {b : Key} {r : Records} (hst : Stored a r s t)
    (h : s.Keeps account board) (hfiled : r.Filed)
    (hu : ∀ b, r.Uses b → (s.records a).Uses b)
    (hk : Channel.keyOf a b ≠ Channel.keyOf account board)
    (hr : a = account → Follows board none (s.records a) r) (e : Value) :
    Step account board none s (t.publish a b e) := by
  -- the records of the account: changed in this way, or not at all
  have hrec : Follows board none (s.records account) ((t.publish a b e).records account) := by
    by_cases ha : a = account
    · have hsame : (t.publish a b e).records account = r := ha ▸ hst.records
      rw [hsame]
      exact ha ▸ hr ha
    · have hsame : (t.publish a b e).records account = s.records account :=
        hst.others account (Ne.symm ha)
      rw [hsame]
      exact ⟨h.named, fun id => (map_carryAll_nil id _).symm, fun _ => id, by simp, id⟩
  exact {
    keeps := ⟨hst.memory, hst.filed h.filed hfiled, hrec.named,
      Channel.exact_publish (hst.channel ▸ h.exact) _ _⟩
    told := ⟨hrec.shown, fun n sub hn hl =>
      subscription?_publish_of_ne (hst.channel ▸ h.exact) hk _ (hst.channel ▸ hn) hl,
      hrec.opened, hrec.closed⟩
    housed := hrec.housed
    sole := hst.sole hu }

/-! ## Transitions -/

/-- Storing a card of the board where it can be seen. -/
theorem follows_putCard {r : Records} (hn : r.Named board) (hf : r.Filed) {c c' : Card} {k : String}
    (hid : c'.id = c.id) (hb : c'.board = board) (hk : c'.stage = .text k)
    (ho : r.isOpen board c'.stage) (hs : (r.shown? board c.id).isSome) :
    Follows board (some (.moved c.id k c'.position)) r (r.putCard c') where
  named := ⟨hn.text, hn.distinct⟩
  shown := by
    intro id
    rw [Records.shown?_putCard hb ho, hid, Option.toList_some]
    by_cases hi : id = c.id
    · subst hi
      obtain ⟨z, hz⟩ := Option.isSome_iff_exists.1 hs
      rw [if_pos rfl, hz]
      simp [Notice.carry, Spot.ofCard, hk]
    · rw [if_neg hi]
      cases r.shown? board id with
      | none => rfl
      | some z => simp [Notice.carry, hi]
  opened := fun _ => id
  closed := by simp
  housed := fun hh => Records.housed_putCard hh hf fun _ => ho

/-- Storing a card of another board. -/
theorem follows_putCard_other {r : Records} (hn : r.Named board) (hf : r.Filed) {c c' : Card}
    (hc : r.card? c'.id = some c) (hb : c.board ≠ board) (hb' : c'.board ≠ board) :
    Follows board none r (r.putCard c') where
  named := ⟨hn.text, hn.distinct⟩
  shown := fun id => (Records.shown?_putCard_of_ne hc hb hb' id).trans (map_carryAll_nil id _).symm
  opened := fun _ => id
  closed := by simp
  housed := fun hh => Records.housed_putCard hh hf fun h => absurd h hb'

/-- A planned transition is told: to the board's subscribers if it moves one of the board's cards,
and else to none of them. -/
theorem commit_told (h : s.Keeps account board) (target : Key) (slip : Except Failure Unit)
    (p : Plan)
    (hours : ∀ c, (s.records p.account).card? p.card = some c →
      Channel.keyOf p.account c.board = Channel.keyOf account board →
        p.account = account ∧ c.board = board ∧ (s.shown? account board p.card).isSome) :
    ∃ note, Step account board note s (Transition.commit true target slip p s).2 ∧
      (∀ e, (Transition.commit true target slip p s).1 = .error e → note = none) ∧
      ∀ c, (Transition.commit true target slip p s).1 = .ok c → p.account = account →
        c.board = board → c.id = p.card ∧
          ∃ k, c.stage = .text k ∧ note = some (.moved p.card k c.position) := by
  rcases commit_cases h.memory true target slip p with ⟨e, hc⟩ | ⟨c, t, hcard, hopen, hst, hc⟩
  · rw [hc]
    exact ⟨none, step_refl h, fun _ _ => rfl, by simp⟩
  · rw [hc]
    have hfile := h.filed p.account
    have hid : c.id = p.card := (hfile.card_mem.1 hcard).2
    have hget : (s.records p.account).card? (Storage.moved p c).id = some c := hid.symm ▸ hcard
    have hfiled := Records.filed_putCard hfile (Storage.moved p c)
    -- the card stays on its board: no board comes into use
    have huses (b : Key) (hu : ((s.records p.account).putCard (Storage.moved p c)).Uses b) :
        (s.records p.account).Uses b := Records.uses_putCard hfile hget rfl hu
    by_cases hkey : Channel.keyOf p.account c.board = Channel.keyOf account board
    · -- a card of the board
      obtain ⟨ha, hb, hsome⟩ := hours c hcard hkey
      subst ha hb
      obtain ⟨stage, hsm, hsb, -, hsk⟩ := Records.isOpen_iff.1 hopen
      obtain ⟨k, hk⟩ := h.named.text stage hsm hsb
      have hpk : p.stage = .text k := hsk.symm.trans hk
      have hevent : Transition.event (Storage.moved p c) =
          (Notice.moved c.id k p.position).toValue := by
        rw [Transition.event, Notice.toValue, Storage.moved, hpk]
      have hfollow : Follows c.board (some (.moved c.id k (Storage.moved p c).position))
          (s.records p.account) ((s.records p.account).putCard (Storage.moved p c)) :=
        follows_putCard h.named hfile rfl rfl hpk hopen (hid.symm ▸ hsome)
      refine ⟨_, hst.step_own h hfiled huses hfollow hevent, by simp, ?_⟩
      rintro c' hc' - -
      obtain rfl := Except.ok.inj hc'
      exact ⟨hid, k, hpk, by rw [hid]⟩
    · -- a card of another board
      have hne : p.account = account → c.board ≠ board := by
        rintro rfl rfl
        exact hkey rfl
      refine ⟨none, hst.step_other h hfiled huses hkey (fun ha => ?_) _, by simp, ?_⟩
      · subst ha
        exact follows_putCard_other h.named hfile hget (hne rfl) (hne rfl)
      · rintro c' hc' ha hb
        obtain rfl := Except.ok.inj hc'
        exact absurd hb (hne ha)

/-- Planning is no step of the board. -/
theorem Step.of_plan {a : Allocator} {note : Option Notice}
    (h : Step account board note { s with allocator := a } t) : Step account board note s t where
  keeps := h.keeps
  told := ⟨h.told.shown, h.told.heard, h.told.opened, h.told.closed⟩
  housed := h.housed
  sole := h.sole

/-- A card that is shown is one of the board. -/
theorem board_of_shown? {id : String} {c : Card} (hs : (s.shown? account board id).isSome)
    (hc : (s.records account).card? id = some c) : c.board = board := by
  obtain ⟨z, hz⟩ := Option.isSome_iff_exists.1 hs
  obtain ⟨c', hc', hb, -⟩ := Records.shown?_eq_some_iff.1 hz
  obtain rfl : c = c' := Option.some.inj (hc.symm.trans hc')
  exact hb

/-- A transition of a card that is shown is told if it succeeds. -/
theorem run_told (h : s.Keeps account board) {card : String}
    (hs : (s.shown? account board card).isSome) (now : Float) (target : Key) (d : Directive) :
    ∃ note, Step account board note s
        (Transition.run now true account card target d (some board) s).2 ∧
      (∀ e, (Transition.run now true account card target d (some board) s).1 = .error e →
        note = none) ∧
      ∀ c, (Transition.run now true account card target d (some board) s).1 = .ok c →
        c.id = card ∧ ∃ k, c.stage = .text k ∧ note = some (.moved card k c.position) := by
  obtain ⟨a, ha⟩ := plan_frame now account card target d (some board) s
  have hkeeps : Keeps account board { s with allocator := a } :=
    ⟨h.memory, h.filed, h.named, h.exact⟩
  unfold Transition.run
  cases hp : Transition.plan now account card target d (some board) s with
  | mk r t =>
    obtain rfl : t = { s with allocator := a } := (congrArg Prod.snd hp).symm.trans ha
    cases r with
    | error e => exact ⟨none, (step_refl hkeeps).of_plan, fun _ _ => rfl, by simp⟩
    | ok p =>
      obtain ⟨hacc, hcard⟩ := plan_names (congrArg Prod.fst hp)
      -- the plan is for the card that was named, and that is one of the board
      have hours (c : Card) (hc : (s.records p.account).card? p.card = some c)
          (_ : Channel.keyOf p.account c.board = Channel.keyOf account board) :
          p.account = account ∧ c.board = board ∧ (s.shown? account board p.card).isSome := by
        rw [hacc, hcard] at hc
        exact ⟨hacc, board_of_shown? hs hc, hcard.symm ▸ hs⟩
      obtain ⟨note, hstep, herr, hok⟩ := commit_told hkeeps target (.ok ()) p hours
      refine ⟨note, hstep.of_plan, herr, fun c hc => ?_⟩
      dsimp only at hc
      -- what was stored is the card on the board it was on
      have hboard : c.board = board := by
        rcases commit_cases hkeeps.memory true target (.ok ()) p with
          ⟨e, hce⟩ | ⟨c₀, u, hcard₀, -, -, hcc⟩
        · rw [hce] at hc
          simp at hc
        · rw [hcc] at hc
          obtain rfl := Except.ok.inj hc
          rw [hacc, hcard] at hcard₀
          have hboard₀ : c₀.board = board := board_of_shown? (s := s) hs hcard₀
          exact hboard₀
      obtain ⟨hid, k, hk, hnote⟩ := hok c hc hacc hboard
      exact ⟨hid.trans hcard, k, hk, hcard ▸ hnote⟩

/-! ## Deactivations -/

/-- Folding a stage of the board. -/
theorem follows_fold {r : Records} (hn : r.Named board) (hf : r.Filed) {stage : Stage} {k f : String}
    (hs : stage ∈ Entries.values r.stages) (hb : stage.board = board) (ha : stage.active = true)
    (hk : stage.key = .text k) (ho : (r.close stage).isOpen board (.text f)) :
    Follows board (some (.folded k f)) r (r.fold stage (.text f)) where
  named := Records.named_fold hf hn hs _
  shown := by
    intro id
    rw [Records.shown?_fold hf hn hs hb ha ho, hk, Option.toList_some]
    rfl
  opened := by
    intro key hkey
    rw [Records.isOpen_fold, Records.isOpen_close hf hn.distinct hs hb] at hkey
    exact hkey.1
  closed := by
    intro k' f' hkf
    obtain ⟨rfl, rfl⟩ := Notice.folded.inj (Option.some.inj hkf)
    rw [Records.isOpen_fold, ← Bool.not_eq_true, Records.isOpen_close hf hn.distinct hs hb, hk]
    simp
  housed := fun hh => Records.housed_fold hh hf hn.distinct hs fun _ => ho

/-- Folding a stage of another board. -/
theorem follows_fold_other {r : Records} (hn : r.Named board) (hf : r.Filed) {stage : Stage}
    (hs : stage ∈ Entries.values r.stages) (hb : stage.board ≠ board) (fallback : Key) :
    Follows board none r (r.fold stage fallback) where
  named := Records.named_fold hf hn hs _
  shown := fun id =>
    (Records.shown?_fold_of_ne hf hs hb fallback id).trans (map_carryAll_nil id _).symm
  opened := by
    intro key hkey
    rwa [Records.isOpen_fold, Records.isOpen_close_of_ne hf hs hb] at hkey
  closed := by simp
  housed := fun hh => Records.housed_fold hh hf hn.distinct hs fun h => absurd h hb

/-- A deactivation is told: to the board's subscribers if it is one of the board's stages, and else
to none of them. -/
theorem deactivate_told (h : s.Keeps account board) (hsole : s.Sole account board) (a id : String) :
    ∃ note, Step account board note s (Deactivation.run true a id s).2 := by
  have hfile := h.filed a
  rcases deactivate_cases h.memory true a id hfile with
    ⟨r, hd⟩ | ⟨stage, fallback, t, d, hs, ha, ho, hds, hdf, hst, hd⟩
  · rw [hd]
    exact ⟨none, step_refl h⟩
  · rw [hd]
    have hfiled := Records.filed_fold hfile stage fallback
    -- no card changes its board here either
    have huses (b : Key) (hu : ((s.records a).fold stage fallback).Uses b) :
        (s.records a).Uses b := Records.uses_fold hfile hs hu
    by_cases hkey : Channel.keyOf a stage.board = Channel.keyOf account board
    · -- a stage of the board
      obtain ⟨rfl, rfl⟩ := hsole a stage.board (.inr ⟨stage, hs, rfl⟩) hkey
      obtain ⟨k, hk⟩ := h.named.text stage hs rfl
      obtain ⟨u, hu, hub, -, huf⟩ := Records.isOpen_iff.1 ho
      obtain ⟨f, hf⟩ := (Records.named_close hfile h.named hs).text u hu hub
      obtain rfl : fallback = .text f := huf.symm.trans hf
      have hevent : d.event = (Notice.folded k f).toValue := by
        rw [Deactivation.event, Notice.toValue, hds, hk, hdf, Option.getD_some]
      exact ⟨_, hst.step_own h hfiled huses (follows_fold h.named hfile hs rfl ha hk ho) hevent⟩
    · -- a stage of another board
      refine ⟨none, hst.step_other h hfiled huses hkey (fun haa => ?_) _⟩
      subst haa
      have hb : stage.board ≠ board := by
        rintro rfl
        exact hkey rfl
      exact follows_fold_other h.named hfile hs hb fallback

end Server

end Kanban
