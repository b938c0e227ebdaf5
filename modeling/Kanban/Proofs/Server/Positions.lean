import Kanban.Proofs.Server.Boards
import Kanban.Proofs.Storage.InUse

/-!
# Kanban.Proofs.Server.Positions — where positions come from

A position comes to a card in one of three ways: it is given with the card, it is made of the id of a
card that comes without one, or it is stored when the card is moved. A move checks that the position is
finite. What is made of an id is not checked, and ids may be numerals that read as no finite number, or
as one that is no longer finite once it is spread out. Nothing else brings a position in, not even a
snapshot, which holds what was stored before.

* `Card.Steady`, `Records.Sound`, `Storage.Sound` — positions in memory and in the folder.
* `Event`, `runAll` — the life of a server, over restarts.
* `sound_runAll` — every position stored is finite or that of the id.
* `always_finite_iff` — a card is always at a finite position iff its id makes one.
-/

namespace Kanban

/-! ## Cards -/

namespace Card

/-- A new card comes at a finite position, or without one, and then its id makes one. -/
def Offered (c : Card) : Prop :=
  ∃ given : Option Float, (∀ x ∈ given, Decimal.isFinite x = true) ∧
    c.position = given.getD (defaultPosition c.id)

/-- A card is at a finite position, or at the one that its id makes. -/
def Steady (c : Card) : Prop :=
  Decimal.isFinite c.position = true ∨ c.position = defaultPosition c.id

theorem Offered.steady {c : Card} (h : c.Offered) : c.Steady := by
  obtain ⟨given, hfin, hc⟩ := h
  cases given with
  | none => exact .inr hc
  | some x => exact .inl (hc ▸ hfin x rfl)

end Card

/-! ## Records -/

namespace Records

variable {r : Records}

/-- Records in order, with every card at a finite position or at that of its id. -/
structure Sound (r : Records) : Prop where
  filed : r.Filed
  keyed : r.Keyed
  steady : ∀ c ∈ Entries.values r.cards, c.Steady

theorem sound_empty : ({} : Records).Sound where
  filed := by constructor <;> decide
  keyed := ⟨nofun, nofun⟩
  steady := nofun

theorem Sound.putCard (h : r.Sound) {c : Card} (hk : c.Keyed) (hs : c.Steady) :
    (r.putCard c).Sound where
  filed := filed_putCard h.filed c
  keyed := h.keyed.putCard hk
  steady := fun d hd => (Entries.mem_values_of_put hd).elim (h.steady d) fun heq => heq ▸ hs

theorem Sound.putStage (h : r.Sound) {x : Stage} (hk : x.Keyed) : (r.putStage x).Sound where
  filed := filed_putStage h.filed x
  keyed := h.keyed.putStage hk
  steady := h.steady

theorem Sound.card? (h : r.Sound) {id : String} {c : Card} (hc : r.card? id = some c) :
    c.Keyed ∧ c.Steady :=
  ⟨h.keyed.card? hc, h.steady c (Entries.mem_values_of_get? hc)⟩

theorem Keyed.key_of_isOpen (h : r.Keyed) {board key : Key} (ho : r.isOpen board key) :
    key.Keyed := by
  obtain ⟨x, hx, -, -, rfl⟩ := isOpen_iff.1 ho
  exact (h.stages x hx).key

theorem Sound.restageOne (h : r.Sound) {target : Key} (ht : target.Keyed) (source : Key)
    (id : String) : (r.restageOne source target id).Sound := by
  unfold Records.restageOne
  cases hc : r.card? id with
  | none => exact h
  | some c =>
    obtain ⟨hk, hs⟩ := h.card? hc
    have hput : (r.putCard { c with stage := target }).Sound :=
      h.putCard ⟨hk.board, ht, hk.attributes⟩ hs
    dsimp only
    split
    · exact hput
    · exact h

theorem Sound.restage (h : r.Sound) {target : Key} (ht : target.Keyed) (source : Key)
    (ids : List String) : (r.restage source target ids).Sound := by
  unfold Records.restage
  induction ids generalizing r with
  | nil => exact h
  | cons id ids ih => exact ih (h.restageOne ht source id)

theorem Sound.foldPart (h : r.Sound) {stage : Stage} {id : String} (hs : r.stage? id = some stage)
    {fallback : Key} (ho : (r.close stage).isOpen stage.board fallback) (ids : List String) :
    (r.foldPart stage fallback ids).Sound := by
  obtain ⟨hb, hk, hn, hc, hi⟩ := h.keyed.stage? hs
  have hclose : (r.close stage).Sound := h.putStage ⟨hb, hk, hn, hc, hi⟩
  exact hclose.restage (hclose.keyed.key_of_isOpen ho) _ _

/-- What is read while all of it can be read is all of it. -/
theorem readWhile_map {α : Type} {read : Value → Except Fault α} {g : α → Value}
    (h : ∀ a, read (g a) = .ok a) (l : List α) : Value.readWhile read (l.map g) = l := by
  induction l with
  | nil => rfl
  | cons a l ih => simp only [List.map_cons, Value.readWhile, h, ih]

/-- Of a snapshot of records all stages and cards are taken over. -/
theorem salvage_entriesOf (account : String) (stamp : Float) (q r : Records) :
    r.salvage (Snapshot.entriesOf account stamp q) =
      (Entries.values q.cards).foldl (fun r c => r.putCard c)
        ((Entries.values q.stages).foldl (fun r x => r.putStage x) r) := by
  have hstages : (Snapshot.entriesOf account stamp q).getD "stages" (.list []) =
      .list ((Entries.values q.stages).map Stage.toValue) := rfl
  have hcards : (Snapshot.entriesOf account stamp q).getD "cards" (.list []) =
      .list ((Entries.values q.cards).map Card.toValue) := rfl
  unfold salvage
  rw [hstages, hcards]
  simp only [Value.items, readWhile_map Stage.ofValue_toValue, readWhile_map Card.ofValue_toValue,
    List.length_map, Nat.lt_irrefl, if_false]

theorem Sound.salvage (h : r.Sound) {q : Records} (hq : q.Sound) (account : String)
    (stamp : Float) : (r.salvage (Snapshot.entriesOf account stamp q)).Sound := by
  rw [salvage_entriesOf]
  have hstages : ((Entries.values q.stages).foldl (fun r x => r.putStage x) r).Sound :=
    List.foldlRecOn (motive := Sound) _ _ h fun r hr x hx => hr.putStage (hq.keyed.stages x hx)
  exact List.foldlRecOn (motive := Sound) _ _ hstages fun r hr c hc =>
    hr.putCard (hq.keyed.cards c hc) (hq.steady c hc)

end Records

/-! ## Folders -/

/-- Every file of a folder is a snapshot of sound records, of whatever account. -/
def Folder.Sound (f : Folder) : Prop :=
  ∀ name bytes, f.get? name = some (.file bytes) → ∃ account stamp r, r.Sound ∧
    bytes = Storage.bytesOf account stamp r ∧
    Json.problem? Json.maxWritten (Storage.documentOf account stamp r) = none

namespace Folder

variable {f : Folder}

/-- Of a folder with snapshots only, what is read is the snapshot of sound records. -/
theorem Sound.load (h : f.Sound) {account : String} {data : Entries String Value}
    (hl : Snapshot.load account f = .ok (some data)) :
    ∃ other stamp r, r.Sound ∧ data = Snapshot.entriesOf other stamp r := by
  cases hf : f.get? (Snapshot.fileName account) with
  | none =>
    unfold Snapshot.load at hl
    rw [hf] at hl
    cases hl
  | some slot =>
    cases slot with
    | folder =>
      unfold Snapshot.load at hl
      rw [hf] at hl
      cases hl
    | file bytes =>
      -- a file that was written from sound records is read back as these
      obtain ⟨other, stamp, r, hr, rfl, hp⟩ := h _ _ hf
      rw [Snapshot.load_of_bytes hr.keyed hp hf] at hl
      exact ⟨other, stamp, r, hr, (Option.some.inj (Except.ok.inj hl)).symm⟩

theorem Sound.hold (h : f.Sound) {account : String} {stamp : Float} {r : Records} (hr : r.Sound)
    (hp : Json.problem? Json.maxWritten (Storage.documentOf account stamp r) = none)
    (name : String) : (f.hold name (Storage.bytesOf account stamp r)).Sound := by
  intro n bytes hn
  -- the file that is written, or one that is left alone
  by_cases hname : n = name
  · subst hname
    unfold get? Folder.hold at hn
    dsimp only at hn
    split at hn
    · rw [Entries.get?_put_self] at hn
      obtain rfl := Slot.file.inj (Option.some.inj hn)
      exact ⟨account, stamp, r, hr, rfl, hp⟩
    · cases hn
  · unfold get? Folder.hold at hn
    dsimp only at hn
    rw [Entries.get?_put_of_ne hname] at hn
    exact h n bytes hn

end Folder

/-! ## Storage -/

namespace Storage

open Operation

variable {account : String} {s t : Storage}

/-- Sound records in memory and in the folder. -/
structure Sound (s : Storage) : Prop where
  records : ∀ a, (s.records a).Sound
  files : ∀ f ∈ s.files, f.Sound

theorem Sound.untouched (h : s.Sound) (ht : s.Untouched t) : t.Sound where
  records := fun a => ht.records a ▸ h.records a
  files := ht.files ▸ h.files

theorem Sound.written (h : s.Sound) {r : Records} (hr : r.Sound) (ht : s.Written account r t) :
    t.Sound where
  records := by
    intro a
    by_cases ha : a = account
    · subst ha
      rw [ht.records_self]
      exact hr
    · rw [ht.records_of_ne ha]
      exact h.records a
  files := by
    intro f hf
    rw [ht.files] at hf
    obtain ⟨g, hg, rfl⟩ := Option.map_eq_some_iff.1 hf
    have hsome : s.files.isSome := Option.isSome_iff_exists.2 ⟨g, hg⟩
    exact (h.files g hg).hold hr (ht.legible hsome) _

/-- Reading a snapshot brings in what was stored before. -/
theorem Sound.use (h : s.Sound) (account : String) : (use account s).2.Sound where
  records := by
    intro a
    by_cases ha : a = account
    · subst ha
      -- the account in use: read before, or salvaged from its file now
      have heq : (Storage.use a s).2.records a = _ := inUse_eq a s
      rw [heq]
      split
      · exact h.records a
      · unfold salvaged
        cases hf : s.folder with
        | none => exact h.records a
        | some f =>
          have hsound : f.Sound := h.files f.contents (by rw [Storage.files, hf]; rfl)
          simp only [Option.map_some]
          cases hl : Snapshot.load a f with
          | error e => exact h.records a
          | ok found =>
            cases found with
            | none => exact h.records a
            | some data =>
              obtain ⟨other, stamp, q, hq, rfl⟩ := hsound.load hl
              exact (h.records a).salvage hq other stamp
    · rw [((framed_use account s).2 a ha).1]
      exact h.records a
  files := by
    unfold Storage.files
    rw [(framed_use account s).1]
    exact h.files

end Storage

/-! ## What happens to storage -/

namespace Work

open Storage Operation

variable {account : String} {s : Storage} {r r' : Records} {w : Work}

/-- What work brings in: objects hold every key once, and new cards come as they are offered. -/
def Admissible (w : Work) : Prop := w.Keyed ∧ ∀ c, w = .addCard c → c.Offered

/-- Work that stores a card where it is told to. -/
def isSave : Work → Bool
  | .save _ _ _ => true
  | _ => false

/-- What one write does to sound records, unless it stores a card where it is told to. -/
theorem sound_edits (hw : w.Admissible) (hs : w.isSave = false) (h : r.Sound)
    (he : w.edits r r') : r'.Sound := by
  refine ⟨filed_edits h.filed he, keyed_edits hw.1 h.keyed he, ?_⟩
  -- the position of a card that is stored over another is that of the other
  have hput {id : String} {c d : Card} (hc : r.card? id = some c) (hid : d.id = c.id)
      (hd : d.position = c.position) : ∀ e ∈ Entries.values (r.putCard d).cards, e.Steady := by
    intro e he
    rcases Entries.mem_values_of_put he with he | rfl
    · exact h.steady e he
    · unfold Card.Steady
      rw [hid, hd]
      exact (h.card? hc).2
  cases w with
  | seed board =>
    obtain ⟨d, -, n, -, rfl⟩ := he
    exact h.steady
  | addStage board d =>
    obtain ⟨n, -, rfl⟩ := he
    exact h.steady
  | setStageActive id active =>
    obtain ⟨stage, -, rfl⟩ := he
    exact h.steady
  | addCard c =>
    obtain ⟨-, rfl⟩ := he
    intro d hd
    rcases Entries.mem_values_of_put hd with hd | rfl
    · exact h.steady d hd
    · exact (hw.2 _ rfl).steady
  | removeCard id =>
    obtain rfl := he
    intro d hd
    obtain ⟨e, he, rfl⟩ := List.mem_map.1 hd
    exact h.steady _ (List.mem_map_of_mem (List.mem_of_mem_filter he))
  | setUnread id count =>
    obtain ⟨c, n, hc, rfl⟩ := he
    exact hput hc rfl rfl
  | save id stage position => cases hs
  | restage board source target =>
    obtain ⟨id, c, hc, -, rfl⟩ := he
    exact hput hc rfl rfl

/-- A position that can be stored is finite. -/
theorem isFinite_of_checkPosition {v : Value} {x : Float} (h : checkPosition v = .ok x) :
    Decimal.isFinite x = true := by
  unfold checkPosition at h
  split at h
  · split at h
    · rename_i hfin
      obtain rfl := Except.ok.inj h
      exact hfin
    · cases h
  · cases h
  · cases h

end Work

namespace Storage

variable {account : String} {s t : Storage}

theorem Sound.work (h : s.Sound) {w : Work} (hw : w.Admissible) (account : String) :
    (w.perform account s).2.Sound := by
  by_cases hs : w.isSave
  · -- a card is stored at a position that was checked
    cases w with
    | save id stage position =>
      refine Work.keeps_discard ?_
      rcases place_outcome account id stage position s with
        ⟨e, t, hp, ht⟩ | ⟨c, x, t, hc, -, hx, hp, ht⟩
      · rw [hp]
        exact h.untouched ht
      · rw [hp]
        obtain ⟨hk, -⟩ := (h.records account).card? hc
        have hplaced : Card.Keyed { c with stage, position := x } :=
          ⟨hk.board, hw.1, hk.attributes⟩
        exact h.written ((h.records account).putCard hplaced
          (.inl (Work.isFinite_of_checkPosition hx))) ht
    | _ => cases hs
  · refine w.keeps account (fun _ _ h ht => h.untouched ht) (fun s t r h he ht => ?_) h
    exact h.written (Work.sound_edits hw (Bool.eq_false_iff.2 hs) (h.records account) he) ht

end Storage

namespace Act

variable {s : Server}

/-- What an act brings in. From outside files may be lost, and nothing else. -/
def Admissible : Act → Prop
  | .work _ w => w.Admissible
  | .disturb f => ∀ g name bytes, (f g).get? name = some (.file bytes) →
      g.get? name = some (.file bytes)
  | _ => True

theorem sound_run {a : Act} (ha : a.Admissible) (h : s.storage.Sound) : (a.run s).storage.Sound := by
  cases a with
  | use account => exact h.use account
  | work account w => exact h.work ha account
  | plan now account card target d board =>
    obtain ⟨l, hl⟩ := Server.plan_frame now account card target d board s
    have hrun : run (.plan now account card target d board) s = { s with allocator := l } := hl
    rw [hrun]
    exact h
  | commit announce target slip p =>
    have hrun : (run (.commit announce target slip p) s).storage =
        (Transition.commit announce target slip p s).2.storage := rfl
    rw [hrun]
    rcases Transition.commit_outcome announce target slip p s with
      ⟨e, t, hc, ht⟩ | ⟨c, t, hcard, ho, hfin, ht, hc⟩
    · rw [hc]
      exact h.untouched ht
    · have hr := h.records p.account
      obtain ⟨hk, -⟩ := hr.card? hcard
      -- the card has a position that was checked, in a stage that is there
      have hmoved : (Storage.moved p c).Keyed :=
        ⟨hk.board, hr.keyed.key_of_isOpen ho, hk.attributes⟩
      have hwritten := h.written (hr.putCard hmoved (.inl hfin)) ht
      rw [hc]
      cases announce <;> exact hwritten
  | deactivate announce account id =>
    have hr := h.records account
    rcases Deactivation.storage_run announce id hr.filed with ht | ⟨stage, fallback, ids, hs, -, ht⟩
    · exact h.untouched ht
    · exact h.written (hr.foldPart hs.found hs.fallback ids) ht
  | listen f => exact h
  | disturb f =>
    -- whoever disturbs the folder leaves files as they were or takes them away
    refine ⟨h.records, fun g hg => ?_⟩
    obtain ⟨g', hg', rfl⟩ := Option.map_eq_some_iff.1 hg
    obtain ⟨g₀, hg₀, rfl⟩ := Option.map_eq_some_iff.1 hg'
    have hsound : g₀.Sound := h.files g₀.contents (by rw [Storage.files, hg₀]; rfl)
    exact fun name bytes hn => hsound name bytes (ha g₀ name bytes hn)

end Act

/-! ## The life of a server -/

namespace Server

/-- Something in the life of a server. -/
inductive Event where
  | act (a : Act)
  /-- From now on snapshots are marked with another time. -/
  | mark (now : Float)
  /-- The server is started anew over the same folder. -/
  | restart

namespace Event

/-- What an event brings in. -/
def Admissible : Event → Prop
  | .act a => a.Admissible
  | _ => True

/-- The server after an event. -/
def run : Event → Server → Server
  | .act a, s => a.run s
  | .mark now, s => { s with storage := { s.storage with stamp := now } }
  | .restart, s => { storage := { s.storage with repository := {} } }

/-- The server after a row of events. -/
def runAll (events : List Event) (s : Server) : Server := events.foldl (fun s e => e.run s) s

theorem sound_run {e : Event} (he : e.Admissible) {s : Server} (h : s.storage.Sound) :
    (e.run s).storage.Sound := by
  cases e with
  | act a => exact Act.sound_run he h
  | mark now => exact ⟨h.records, h.files⟩
  | restart => exact ⟨fun _ => Records.sound_empty, h.files⟩

theorem sound_runAll {events : List Event} (he : ∀ e ∈ events, e.Admissible) {s : Server}
    (h : s.storage.Sound) : (runAll events s).storage.Sound := by
  induction events generalizing s with
  | nil => exact h
  | cons e events ih =>
    exact ih (fun e' he' => he e' (List.mem_cons_of_mem _ he'))
      (sound_run (he e List.mem_cons_self) h)

end Event

/-- A server with nothing stored, and with an empty folder if there is to be one, of which the writes
that are listed fail. -/
def blank (refusals : Option (List Bool)) : Server where
  storage := { folder := refusals.map fun l => { refusals := l } }

theorem sound_blank (refusals : Option (List Bool)) : (blank refusals).storage.Sound where
  records := fun _ => Records.sound_empty
  files := by
    intro f hf name bytes hn
    obtain ⟨g, hg, rfl⟩ := Option.map_eq_some_iff.1 hf
    obtain ⟨l, -, rfl⟩ := Option.map_eq_some_iff.1 hg
    cases hn

/-- A card that comes without a position. -/
def unplaced (id : String) : Card where
  id := id
  board := "sales"
  stage := "new"
  position := Card.defaultPosition id

/-- The card is all that is ever stored. -/
def solo (id : String) : List Event := [.act (.work "acme" (.addCard (unplaced id)))]

theorem admissible_solo (id : String) : ∀ e ∈ solo id, e.Admissible := by
  intro e he
  obtain rfl := List.mem_singleton.1 he
  refine ⟨⟨trivial, trivial, List.nodup_nil, trivial⟩, fun c hc => ?_⟩
  obtain rfl := Work.addCard.inj hc
  exact ⟨none, nofun, rfl⟩

theorem card?_solo (id : String) :
    ((Event.runAll (solo id) (blank none)).records "acme").card? id = some (unplaced id) := by
  have hrecords : (Event.runAll (solo id) (blank none)).records "acme" =
      { cards := [(id, unplaced id)] } := rfl
  rw [hrecords]
  exact if_pos rfl

/-- Whatever happens to a server, over restarts and refused writes, where cards are offered at finite
positions or without one: every card with an id that is ever stored is at a finite position iff the
position that the id makes is finite. -/
theorem always_finite_iff (id : String) :
    (∀ refusals events, (∀ e ∈ events, Event.Admissible e) → ∀ account c,
      ((Event.runAll events (blank refusals)).records account).card? id = some c →
        Decimal.isFinite c.position = true) ↔
      Decimal.isFinite (Card.defaultPosition id) = true := by
  constructor
  · intro hall
    exact hall none (solo id) (admissible_solo id) "acme" (unplaced id) (card?_solo id)
  · intro hid refusals events hevents account c hc
    have hsound := (Event.sound_runAll hevents (sound_blank refusals)).records account
    obtain ⟨hm, rfl⟩ := hsound.filed.card_mem.1 hc
    rcases hsound.steady c hm with hfin | hdefault
    · exact hfin
    · rw [hdefault]
      exact hid

/-- Ids that read as no finite number: a card with such an id, offered without a position, is stored at
one that is not finite. -/
theorem stored_undefined : (∀ e ∈ solo "nan", e.Admissible) ∧
    ∃ c, ((Event.runAll (solo "nan") (blank none)).records "acme").card? "nan" = some c ∧
      Decimal.isFinite c.position = false :=
  ⟨admissible_solo "nan", unplaced "nan", card?_solo "nan", by decide +kernel⟩

/-- A numeral that is finite may not be so any more when it is spread out. -/
example : Decimal.isFinite (Card.defaultPosition "1e306") = false := by decide +kernel

end Server

end Kanban
