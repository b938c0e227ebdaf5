import Kanban.Proofs.Storage.Loading
import Kanban.Proofs.Storage.Works

/-!
# Kanban.Proofs.Storage.Mirror — memory and snapshot are one

An account with an empty folder is used, and then works are done on its records, each at a time of
its own, while the system refuses writes as it likes. After every work the snapshot gives back what is
held in memory: a change is written first and takes effect only if it was.

* `Mirrored` — what the snapshot of an account has to do with its records in memory.
* `mirrored_after`, `mirrored_runAll` — no work breaks this, and so no run of works does.
* `never_drifts` — a fresh repository loads what is in memory, and a single write that fails leaves
  memory and folder as they were.
-/

namespace Kanban

/-- The values of a draft hold every key once. -/
structure Stage.Draft.Keyed (d : Stage.Draft) : Prop where
  key : d.key.Keyed
  name : d.name.Keyed
  color : d.color.Keyed
  icon : d.icon.Keyed

theorem Stage.keyed_defaults : ∀ d ∈ Stage.defaults, d.Keyed := by
  intro d hd
  simp only [Stage.defaults, List.mem_cons, List.not_mem_nil, or_false] at hd
  rcases hd with rfl | rfl | rfl | rfl | rfl
  all_goals exact ⟨trivial, trivial, trivial, trivial⟩

namespace Records

variable {r : Records}

theorem Keyed.putCard (h : r.Keyed) {c : Card} (hc : c.Keyed) : (r.putCard c).Keyed where
  stages := h.stages
  cards := fun d hd => (Entries.mem_values_of_put hd).elim (h.cards d) fun heq => heq ▸ hc

theorem Keyed.putStage (h : r.Keyed) {s : Stage} (hs : s.Keyed) : (r.putStage s).Keyed where
  stages := fun t ht => (Entries.mem_values_of_put ht).elim (h.stages t) fun heq => heq ▸ hs
  cards := h.cards

theorem Keyed.dropCard (h : r.Keyed) (id : String) : (r.dropCard id).Keyed where
  stages := h.stages
  cards := fun d hd => by
    obtain ⟨e, he, rfl⟩ := List.mem_map.1 hd
    exact h.cards _ (List.mem_map_of_mem (List.mem_of_mem_filter he))

theorem Keyed.card? (h : r.Keyed) {id : String} {c : Card} (hc : r.card? id = some c) : c.Keyed :=
  h.cards c (Entries.mem_values_of_get? hc)

theorem Keyed.stage? (h : r.Keyed) {id : String} {s : Stage} (hs : r.stage? id = some s) :
    s.Keyed :=
  h.stages s (Entries.mem_values_of_get? hs)

/-- All stage ids are numbers that can be read. -/
def Countable (r : Records) : Prop := ∀ id ∈ Entries.keys r.stages, Readable id

theorem Countable.putStage (h : r.Countable) {s : Stage} (hs : Readable s.id) :
    (r.putStage s).Countable := fun id hid =>
  (Entries.mem_keys_put.1 hid).elim (fun heq => heq ▸ hs) (h id)

end Records

namespace Work

open Storage

variable {account : String} {s t : Storage} {w : Work} {r r' : Records}

/-- The values that work brings in hold every key once, as objects do that are filled key by key. -/
def Keyed : Work → Prop
  | .seed board => board.Keyed
  | .addStage board d => board.Keyed ∧ d.Keyed
  | .addCard c => c.Keyed
  | .save _ stage _ => stage.Keyed
  | .restage _ _ target => target.Keyed
  | .setStageActive _ _ | .removeCard _ | .setUnread _ _ => True

theorem keyed_drafted {board : Key} {d : Stage.Draft} (hb : board.Keyed) (hd : d.Keyed) (n : Nat)
    (r : Records) : (drafted board d n r).Keyed := by
  refine ⟨hb, hd.key, ?_, hd.color, hd.icon⟩
  unfold drafted Value.given?
  dsimp only
  split
  · exact hd.name
  · exact hd.key

theorem keyed_drafts {board : Key} {d : Stage.Draft} (h : r.Keyed) (hb : board.Keyed) (hd : d.Keyed)
    (he : Drafts board d r r') : r'.Keyed := by
  obtain ⟨n, -, rfl⟩ := he
  exact h.putStage (keyed_drafted hb hd n r)

/-- What is done to values that hold every key once leaves such values. -/
theorem keyed_edits (hw : w.Keyed) (h : r.Keyed) (he : w.edits r r') : r'.Keyed := by
  -- what is stored again had every key once before, and what is new is checked where it comes in
  cases w with
  | seed board =>
    obtain ⟨d, hd, he⟩ := he
    exact keyed_drafts h hw (Stage.keyed_defaults d hd) he
  | addStage board d => exact keyed_drafts h hw.1 hw.2 he
  | setStageActive id active =>
    obtain ⟨stage, hs, rfl⟩ := he
    obtain ⟨hb, hk, hn, hc, hi⟩ := h.stage? hs
    exact h.putStage ⟨hb, hk, hn, hc, hi⟩
  | addCard c =>
    obtain ⟨-, rfl⟩ := he
    exact h.putCard hw
  | removeCard id =>
    obtain rfl := he
    exact h.dropCard id
  | setUnread id count =>
    obtain ⟨c, n, hc, rfl⟩ := he
    obtain ⟨hb, hs, ha⟩ := h.card? hc
    exact h.putCard ⟨hb, hs, ha⟩
  | save id stage position =>
    obtain ⟨c, x, hc, -, rfl⟩ := he
    obtain ⟨hb, -, ha⟩ := h.card? hc
    exact h.putCard ⟨hb, hw, ha⟩
  | restage board source target =>
    obtain ⟨id, c, hc, -, rfl⟩ := he
    obtain ⟨hb, -, ha⟩ := h.card? hc
    exact h.putCard ⟨hb, hw, ha⟩

/-- What is done to stages whose ids can be read leaves such stages. -/
theorem countable_edits (hf : r.Filed) (h : r.Countable) (he : w.edits r r') : r'.Countable := by
  rcases edits_cases he with ⟨s, ⟨n, hn, hs⟩ | ⟨id, t, ht, hs⟩, rfl⟩ | ⟨c, rfl⟩ | ⟨id, rfl⟩
  · exact h.putStage ⟨n, hs, hs ▸ hn⟩
  · have hid : s.id = id := hs.trans (hf.stage_mem.1 ht).2
    exact h.putStage (hid ▸ h id (Entries.mem_keys_of_get? ht))
  · exact h
  · exact h

end Work

namespace Storage

variable {account : String} {s t : Storage} {r : Records}

/-- The snapshot of an account is that of its records in memory; there is none as long as there are no
records. -/
structure Mirrored (account : String) (s : Storage) : Prop where
  filed : (s.records account).Filed
  keyed : (s.records account).Keyed
  countable : (s.records account).Countable
  file : ∃ f, s.files = some f ∧ f.present = true ∧
    (f.get? (Snapshot.fileName account) = none ∧ s.records account = {} ∨
      ∃ stamp, f.get? (Snapshot.fileName account) =
          some (.file (bytesOf account stamp (s.records account))) ∧
        Json.problem? Json.maxWritten (documentOf account stamp (s.records account)) = none)

/-- A write that is refused changes neither. -/
theorem Mirrored.untouched (h : s.Mirrored account) (hu : s.Untouched t) : t.Mirrored account := by
  have hr := hu.records account
  exact ⟨hr ▸ h.filed, hr ▸ h.keyed, hr ▸ h.countable, by rw [hu.files, hr]; exact h.file⟩

/-- A write changes both. -/
theorem Mirrored.written (h : s.Mirrored account) (hw : s.Written account r t) (hf : r.Filed)
    (hk : r.Keyed) (hc : r.Countable) : t.Mirrored account := by
  have hr := hw.records_self
  obtain ⟨f, hfiles, hpresent, -⟩ := h.file
  refine ⟨hr ▸ hf, hr ▸ hk, hr ▸ hc, f.hold (Snapshot.fileName account) (bytesOf account s.stamp r),
    ?_, hpresent, .inr ⟨s.stamp, ?_, ?_⟩⟩
  · rw [hw.files, hfiles]
    rfl
  · rw [hr, Folder.get?, Folder.hold]
    simp [hpresent]
  · rw [hr]
    exact hw.legible (by rw [hfiles]; rfl)

/-- A fresh repository loads what is in memory. -/
theorem Mirrored.use (h : s.Mirrored account) (now : Float) :
    ∃ t, use account { folder := s.folder, stamp := now } = (.ok (), t) ∧
      t.records account = s.records account := by
  obtain ⟨f, hfiles, -, hfile⟩ := h.file
  obtain ⟨g, hg, rfl⟩ := Option.map_eq_some_iff.1 hfiles
  -- the writes to come do not matter for what is in the folder
  have hget : g.contents.get? (Snapshot.fileName account) = g.get? (Snapshot.fileName account) := rfl
  rw [hget] at hfile
  rw [hg]
  rcases hfile with ⟨hnone, hr⟩ | ⟨stamp, hsome, hp⟩
  · exact ⟨_, use_of_missing hnone now, hr.symm⟩
  · exact use_of_bytes h.filed h.keyed (fun id hid => (h.countable id hid).numerable) hp hsome now

end Storage

/-! ## Runs -/

namespace Work

open Storage

variable {account : String} {s : Storage} {w : Work} {now : Float}

/-- Storage at a time. -/
def timed (now : Float) (s : Storage) : Storage := { s with stamp := now }

/-- Storage after a work that is done at a time. -/
def after (account : String) (s : Storage) (p : Float × Work) : Storage :=
  (p.2.perform account (timed p.1 s)).2

/-- Storage after works that are done one after the other. -/
def runAll (account : String) (l : List (Float × Work)) (s : Storage) : Storage :=
  l.foldl (after account) s

/-- Storage with an empty folder after the account is used, and the writes that will be refused. -/
def opened (account : String) (refusals : List Bool) : Storage :=
  (Storage.use account { folder := some { refusals } }).2

theorem mirrored_opened (account : String) (refusals : List Bool) :
    (opened account refusals).Mirrored account := by
  have hmissing : ({ refusals } : Folder).get? (Snapshot.fileName account) = none := rfl
  have hopened : opened account refusals =
      ({ folder := some { refusals } } : Storage).marked account := by
    unfold opened
    rw [use_of_missing hmissing 0.0]
  rw [hopened]
  exact ⟨⟨List.nodup_nil, by simp [Storage.records, Repository.records, marked],
    List.nodup_nil, by simp [Storage.records, Repository.records, marked]⟩,
    ⟨fun _ hs => (List.not_mem_nil hs).elim, fun _ hc => (List.not_mem_nil hc).elim⟩,
    fun _ hid => (List.not_mem_nil hid).elim, _, rfl, rfl, .inl ⟨rfl, rfl⟩⟩

/-- No work breaks it, whether it succeeds or fails. -/
theorem mirrored_after (hw : w.Keyed) (h : s.Mirrored account) :
    (after account s (now, w)).Mirrored account := by
  have htimed : (timed now s).Mirrored account := ⟨h.filed, h.keyed, h.countable, h.file⟩
  refine keeps (P := Storage.Mirrored account) w account (fun _ _ h hu => h.untouched hu) ?_ htimed
  intro s t r h he hwritten
  exact h.written hwritten (filed_edits h.filed he) (keyed_edits hw h.keyed he)
    (countable_edits h.filed h.countable he)

theorem mirrored_runAll {l : List (Float × Work)} (hl : ∀ p ∈ l, p.2.Keyed)
    (h : s.Mirrored account) : (runAll account l s).Mirrored account := by
  induction l generalizing s with
  | nil => exact h
  | cons p l ih =>
    exact ih (fun q hq => hl q (List.mem_cons_of_mem _ hq))
      (mirrored_after (hl p List.mem_cons_self) h)

/-- Memory and snapshot never drift. After every run a fresh repository loads from the folder what is
held in memory, and work that is a single write leaves memory and folder as they were if it fails. -/
theorem never_drifts (account : String) (refusals : List Bool) (l : List (Float × Work))
    (hl : ∀ p ∈ l, p.2.Keyed) :
    (∀ now, ∃ t, use account
        { folder := (runAll account l (opened account refusals)).folder, stamp := now } =
          (.ok (), t) ∧
        t.records account = (runAll account l (opened account refusals)).records account) ∧
      ∀ now w e, w.isSingle →
        (w.perform account (timed now (runAll account l (opened account refusals)))).1 = .error e →
        (after account (runAll account l (opened account refusals)) (now, w)).repository.accounts =
            (runAll account l (opened account refusals)).repository.accounts ∧
          (after account (runAll account l (opened account refusals)) (now, w)).files =
            (runAll account l (opened account refusals)).files := by
  -- what is in memory is in the folder after every work, so reading it gives the same
  have hmirrored := mirrored_runAll hl (mirrored_opened account refusals)
  refine ⟨hmirrored.use, fun now w e hw he => ?_⟩
  have huntouched := (once hw account _).untouched he
  exact ⟨huntouched.accounts, huntouched.files⟩

/-- Three works on a card with attributes of every kind. -/
def trial : List (Float × Work) :=
  [(1.0, .seed "sales"),
    (2.0, .addCard {
      id := "1", board := "sales", stage := "new", position := -0.0, unread := 2
      attributes := [("score", .real (0.0 / 0.0)), ("tags", .list [.text "ü", .null])] }),
    (3.0, .removeCard "2")]

/-- The system refuses a default stage of the board, and what comes after the card. -/
def trialRefusals : List Bool := [false, false, true, false, true]

theorem keyed_trial : ∀ p ∈ trial, p.2.Keyed := by
  intro p hp
  simp only [trial, List.mem_cons, List.not_mem_nil, or_false] at hp
  rcases hp with rfl | rfl | rfl
  · trivial
  · exact ⟨trivial, trivial, by decide, trivial, ⟨trivial, trivial, trivial⟩, trivial⟩
  · trivial

theorem fails_trial : ∃ e, ((Work.setUnread "1" (.whole 0)).perform "acme"
    (timed 4.0 (runAll "acme" trial (opened "acme" trialRefusals)))).1 = .error e := by
  have hfails : ((Work.setUnread "1" (.whole 0)).perform "acme"
      (timed 4.0 (runAll "acme" trial (opened "acme" trialRefusals)))).1.isOk = false := by
    decide +kernel
  revert hfails
  cases ((Work.setUnread "1" (.whole 0)).perform "acme"
    (timed 4.0 (runAll "acme" trial (opened "acme" trialRefusals)))).1 with
  | error e => exact fun _ => ⟨e, rfl⟩
  | ok _ => exact fun h => nomatch h

/-- The card is loaded from the folder with its count, which a refused write does not change. -/
theorem never_drifts_trial : (∀ p ∈ trial, p.2.Keyed) ∧
    (∃ t, use "acme" { folder := (runAll "acme" trial (opened "acme" trialRefusals)).folder } =
        (.ok (), t) ∧ ((t.records "acme").card? "1").isSome ∧
      t.records "acme" = (runAll "acme" trial (opened "acme" trialRefusals)).records "acme") ∧
    ∃ e, ((Work.setUnread "1" (.whole 0)).perform "acme"
        (timed 4.0 (runAll "acme" trial (opened "acme" trialRefusals)))).1 = .error e ∧
      (after "acme" (runAll "acme" trial (opened "acme" trialRefusals))
          (4.0, .setUnread "1" (.whole 0))).files =
        (runAll "acme" trial (opened "acme" trialRefusals)).files := by
  obtain ⟨hloads, hkeeps⟩ := never_drifts "acme" trialRefusals trial keyed_trial
  obtain ⟨t, ht, hrecords⟩ := hloads 0.0
  obtain ⟨e, he⟩ := fails_trial
  have hcard : (((runAll "acme" trial (opened "acme" trialRefusals)).records
      "acme").card? "1").isSome := by
    decide +kernel
  exact ⟨keyed_trial, ⟨t, ht, hrecords ▸ hcard, hrecords⟩, e, he, (hkeeps 4.0 _ e rfl he).2⟩

end Work

end Kanban
