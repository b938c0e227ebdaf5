import Kanban.Proofs.Server.Acts

/-!
# Kanban.Proofs.Server.Atomic — a transition is all or nothing

Between the planning of a transition and its storing anything may happen: the card may be moved,
counted anew or removed, and stages may be opened and closed. Whatever it is, and whether or not the
last write is refused, the transition itself changes nothing or one card.

* `runWith`, `moment` — a transition with acts in between, and the server just before the card is
  stored.
* `Unmoved`, `Moved` — what the transition leaves of that server.
* `atomic` — it is one of the two.
-/

namespace Kanban

namespace Transition

variable {now : Float} {announce : Bool} {account card : String} {target : Key} {d : Directive}
  {board : Option Key} {acts : List Act} {slip : Except Failure Unit} {s : Server}

/-- Move a card while other things happen between planning the move and storing it. -/
def runWith (now : Float) (announce : Bool) (account card : String) (target : Key) (d : Directive)
    (board : Option Key) (acts : List Act) (slip : Except Failure Unit) (s : Server) :
    Except Refusal Card × Server :=
  match plan now account card target d board s with
  | (.error e, s) => (.error e, s)
  | (.ok p, s) => commit announce target slip p (Act.runAll acts s)

/-- The server at the moment at which the card is to be stored. Nothing comes in between if the
transition is refused when it is planned. -/
def moment (now : Float) (account card : String) (target : Key) (d : Directive)
    (board : Option Key) (acts : List Act) (s : Server) : Server :=
  match plan now account card target d board s with
  | (.error _, s) => s
  | (.ok _, s) => Act.runAll acts s

/-- With nothing in between this is a transition as it is. -/
theorem runWith_nil : runWith now announce account card target d board [] (.ok ()) s =
    run now announce account card target d board s := rfl

/-- A server that a transition has left alone. -/
structure Unmoved (s t : Server) : Prop where
  records : ∀ a, t.records a = s.records a
  files : t.storage.files = s.storage.files
  channel : t.channel = s.channel

/-- A server on which one card was moved, and that was published. -/
structure Moved (announce : Bool) (account : String) (old new : Card) (s t : Server) : Prop where
  /-- The card was there, and its new stage was open on its board. -/
  found : (s.records account).card? old.id = some old
  opened : (s.records account).isOpen old.board new.stage
  /-- Nothing of the card has changed but its stage and position, which is a number. -/
  changed : new = { old with stage := new.stage, position := new.position }
  finite : Decimal.isFinite new.position = true
  stored : (t.records account).card? old.id = some new
  /-- Everything else is as it was. -/
  order : Entries.keys (t.records account).cards = Entries.keys (s.records account).cards
  cards : ∀ id, id ≠ old.id → (t.records account).card? id = (s.records account).card? id
  stages : (t.records account).stages = (s.records account).stages
  others : ∀ a, a ≠ account → t.records a = s.records a
  files : t.storage.files = s.storage.files.map (Folder.hold (Snapshot.fileName account)
    (Storage.bytesOf account s.storage.stamp (t.records account)))
  /-- The move was published on the board of the card, and nothing else was. -/
  channel : t.channel =
    if announce then (s.channel.publish (Channel.keyOf account old.board) (event new)).2
    else s.channel

/-- What is planned is a move to the stage that was asked for. -/
theorem plan_target {p : Plan} (h : (plan now account card target d board s).1 = .ok p) :
    p.stage = target := by
  unfold plan at h
  dsimp only at h
  split at h
  · cases h
  · split at h
    · cases h
    · split at h
      · cases h
      · rename_i stage hst
        obtain rfl := Except.ok.inj h
        have hkey := List.find?_some hst
        simpa using hkey

/-- A card that is stored over itself stays in its place. -/
theorem moved_of_written {p : Plan} {c : Card} {t : Storage} (hf : (s.records p.account).Filed)
    (hc : (s.records p.account).card? p.card = some c)
    (ho : (s.records p.account).isOpen c.board p.stage)
    (hfin : Decimal.isFinite p.position = true)
    (ht : s.storage.Written p.account ((s.records p.account).putCard (Storage.moved p c)) t) :
    Moved announce p.account c (Storage.moved p c) s
      (if announce then
        ({ s with storage := t } : Server).publish p.account c.board (event (Storage.moved p c))
      else { s with storage := t }) := by
  have hid : c.id = p.card := (hf.card_mem.1 hc).2
  -- Either way the storage is `t`: publishing changes the channel alone.
  have hstorage : (if announce then
      ({ s with storage := t } : Server).publish p.account c.board (event (Storage.moved p c))
      else { s with storage := t }).storage = t := by
    cases announce <;> rfl
  have hself : t.records p.account = (s.records p.account).putCard (Storage.moved p c) :=
    ht.records_self
  constructor
  case found => rw [hid]; exact hc
  case opened => exact ho
  case changed => rfl
  case finite => exact hfin
  case stored =>
    rw [Server.records, hstorage, hself, Records.card?_putCard]
    exact if_pos rfl
  case order =>
    rw [Server.records, hstorage, hself]
    refine Entries.keys_put_of_mem ?_ _
    have hmem := Entries.mem_keys_of_get? hc
    rwa [← hid] at hmem
  case cards =>
    intro id hne
    rw [Server.records, hstorage, hself, Records.card?_putCard]
    exact if_neg hne
  case stages =>
    rw [Server.records, hstorage, hself]
    rfl
  case others =>
    intro a ha
    rw [Server.records, hstorage]
    exact ht.records_of_ne ha
  case files =>
    rw [Server.records, hstorage, hself]
    exact ht.files
  case channel => cases announce <;> rfl

/-- A board with two stages and a card in the first. -/
def desk : Server where
  storage := {
    repository := {
      accounts := [("acme", {
        cards := [("1", ⟨"1", "sales", "new", 1.0, 0, []⟩)]
        stages := [("1", { id := "1", board := "sales", key := "new", name := "New" }),
          ("2", { id := "2", board := "sales", key := "won", name := "Won", position := 1 })] })]
      loaded := ["acme"]
      nextStage := 3 } }

/-- Whatever comes between the planning of a transition and its storing: a transition that fails has
changed and published nothing, and one that succeeds has moved the card, as it was at that moment,
to the stage that was asked for and the position that was planned. -/
theorem atomic (now : Float) (announce : Bool) (account card : String) (target : Key)
    (d : Directive) (board : Option Key) (acts : List Act) (slip : Except Failure Unit) (s : Server)
    (hf : (s.records account).Filed) :
    match runWith now announce account card target d board acts slip s with
    | (.error _, t) => Unmoved (moment now account card target d board acts s) t
    | (.ok new, t) => ∃ p old, (plan now account card target d board s).1 = .ok p ∧
        new.id = card ∧ new.stage = target ∧ new.position = p.position ∧
        Moved announce account old new (moment now account card target d board acts s) t := by
  unfold runWith moment
  cases hplan : plan now account card target d board s with
  | mk x u =>
    cases x with
    | error e => exact ⟨fun _ => rfl, rfl, rfl⟩
    | ok p =>
      have hp : (plan now account card target d board s).1 = .ok p := congrArg Prod.fst hplan
      obtain ⟨rfl, rfl⟩ := Server.plan_names hp
      have htarget := plan_target hp
      -- planning changes no records, and whatever comes in between leaves them filed
      have hu : u.records p.account = s.records p.account := by
        obtain ⟨a, ha⟩ := Server.plan_frame now p.account p.card target d board s
        rw [hplan] at ha
        rw [show u = _ from ha]
        rfl
      have hmf : ((Act.runAll acts u).records p.account).Filed :=
        Act.filed_runAll acts (hu ▸ hf)
      dsimp only
      rcases commit_outcome announce target slip p (Act.runAll acts u) with
        ⟨e, t, hc, ht⟩ | ⟨c, t, hcard, ho, hfin, ht, hc⟩
      · rw [hc]
        exact ⟨ht.records, ht.files, rfl⟩
      · rw [hc]
        exact ⟨p, c, rfl, (hmf.card_mem.1 hcard).2, htarget, rfl,
          moved_of_written hmf hcard ho hfin ht⟩

/-- The card is counted anew while it moves. -/
theorem atomic_recounted :
    (desk.records "acme").Filed ∧
    (runWith 0.0 true "acme" "1" "won" { absolute := some 5.0 } none
      [.work "acme" (.setUnread "1" (.whole 2))] (.ok ()) desk).1 =
        .ok ⟨"1", "sales", "won", 5.0, 2, []⟩ ∧
    match runWith 0.0 true "acme" "1" "won" { absolute := some 5.0 } none
      [.work "acme" (.setUnread "1" (.whole 2))] (.ok ()) desk with
    | (.error _, t) => Unmoved (moment 0.0 "acme" "1" "won" { absolute := some 5.0 } none
        [.work "acme" (.setUnread "1" (.whole 2))] desk) t
    | (.ok new, t) => ∃ p old, (plan 0.0 "acme" "1" "won" { absolute := some 5.0 } none desk).1 =
        .ok p ∧ new.id = "1" ∧ new.stage = "won" ∧ new.position = p.position ∧
        Moved true "acme" old new (moment 0.0 "acme" "1" "won" { absolute := some 5.0 } none
          [.work "acme" (.setUnread "1" (.whole 2))] desk) t := by
  have hf : (desk.records "acme").Filed := by
    constructor <;> decide
  have hrun : (runWith 0.0 true "acme" "1" "won" { absolute := some 5.0 } none
      [.work "acme" (.setUnread "1" (.whole 2))] (.ok ()) desk).1 =
        .ok ⟨"1", "sales", "won", 5.0, 2, []⟩ := by
    decide +kernel
  exact ⟨hf, hrun, atomic 0.0 true "acme" "1" "won" { absolute := some 5.0 } none
    [.work "acme" (.setUnread "1" (.whole 2))] (.ok ()) desk hf⟩

end Transition

end Kanban
