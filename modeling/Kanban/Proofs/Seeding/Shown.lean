import Kanban.Proofs.Seeding.Exact
import Kanban.Proofs.Service.Listing

/-!
# Kanban.Proofs.Seeding.Shown — where sample cards can be seen

Sample cards are put into the first of all stages of a board, and a board is read with its active
stages. So the cards that a board was given are listed exactly if the key of its first stage is that
of an active one. A board that had no stages is given active ones, and shows them all.

* `Service.Listed`, `Service.listed_iff` — what a read lists, whatever the limit, if it is no less
  than the number of cards.
* `Adds.added_iff` — the cards that were added; `shows_of_adds` — the stages as they are afterwards.
* `Shows`, `seeded_shown_iff` — when all that was added can be seen.
-/

namespace Kanban

open Operation

namespace Records

variable {r : Records} {board : Key} {limit : Int} {c : Card}

/-- A limit that is no less than the number of cards leaves nothing out. -/
theorem mem_column_of_le (hlimit : ((Entries.values r.cards).length : Int) ≤ limit) {key : Key} :
    c ∈ r.column limit board key ↔
      c ∈ Entries.values r.cards ∧ c.board = board ∧ c.stage = key := by
  have hlen : (r.cardsIn board key).length ≤ limit.toNat := by
    rw [(cardsIn_perm board key r).length_eq]
    have hstored : (r.stored board key).length ≤ (Entries.values r.cards).length :=
      List.length_filter_le _ _
    omega
  rw [(column_perm (by omega) board key r).mem_iff, List.take_of_length_le hlen, cardsIn_mem]

end Records

/-! ## What is listed -/

namespace Service

variable {v : Service} {account : String} {x : Value} {s t : Server} {c : Card}

/-- A read of a board lists a card. -/
def Listed (v : Service) (account : String) (x : Value) (s : Server) (c : Card) : Prop :=
  ∃ l t, v.board account x s = (.ok (.ok l), t) ∧ ∃ e ∈ l.cards, c ∈ e.2

/-- A card of a board is listed exactly if its stage is open and the keys of all open stages are
names. -/
theorem listed_iff (huse : Server.use account s = (.ok (), t))
    (hauth : v.authorize account (v.boardOf x) = true)
    (hlimit : ((Entries.values (t.records account).cards).length : Int) ≤ v.settings.stageCardLimit)
    (hc : c ∈ Entries.values (t.records account).cards) (hboard : c.board = v.boardOf x) :
    v.Listed account x s c ↔
      (∀ y ∈ (t.records account).activeStages (v.boardOf x), y.key.isName = true) ∧
        (t.records account).isOpen (v.boardOf x) c.stage = true := by
  unfold Listed
  rw [board_of_use huse hauth, ← List.all_eq_true]
  constructor
  · rintro ⟨l, u, h, e, he, hce⟩
    split at h
    -- the read gives the columns, and the card is in the one that its stage names
    case isTrue hnames =>
      cases h
      obtain ⟨k, hk, rfl⟩ := List.mem_map.1 he
      obtain ⟨-, -, rfl⟩ := (Records.mem_column_of_le hlimit).1 hce
      exact ⟨hnames, Records.mem_openKeys.1 hk⟩
    case isFalse => cases h
  · rintro ⟨hnames, hopen⟩
    refine ⟨_, t, if_pos hnames, _, List.mem_map_of_mem (Records.mem_openKeys.2 hopen), ?_⟩
    exact (Records.mem_column_of_le hlimit).2 ⟨hc, hboard, rfl⟩

end Service

namespace Seeding

variable {board : Key} {n : Nat} {r r' : Records} {c : Card} {s u : Storage}
  {j : CommandLine.Job} {b : Option String} {m : Int} {now : Float} {f g : Folder}

/-! ## What was added -/

/-- The cards that are there and were not there before are the sample cards. -/
theorem Adds.added_iff (h : Adds board n r r') (hf : r.Filed) :
    c ∈ Entries.values r'.cards ∧ c ∉ Entries.values r.cards ↔
      ∃ first, (r'.stagesOf board).head? = some first ∧
        ∃ i ∈ firstFree (Entries.keys r.cards) n, c = sample board first.key (toString i) := by
  obtain ⟨first, hfirst, hcards⟩ := h.cards
  have hvalues : Entries.values r'.cards = Entries.values r.cards ++
      samples board first.key (firstFree (Entries.keys r.cards) n) := by
    rw [hcards, Entries.values, List.map_append, List.map_map]
    rfl
  rw [hvalues, List.mem_append]
  constructor
  · rintro ⟨hc | hc, hnew⟩
    · exact absurd hc hnew
    · obtain ⟨i, hi, rfl⟩ := List.mem_map.1 hc
      exact ⟨first, hfirst, i, hi, rfl⟩
  · rintro ⟨first', hfirst', i, hi, rfl⟩
    obtain rfl := Option.some.inj (hfirst.symm.trans hfirst')
    refine ⟨.inr (List.mem_map_of_mem hi), fun hc => (free_of_mem_firstFree hi).2 ?_⟩
    -- a card that was there is stored under its id
    obtain ⟨e, he, hec⟩ := List.mem_map.1 hc
    have hid := hf.cardIds e he
    rw [hec] at hid
    have hid' : toString i = e.1 := hid
    rw [hid']
    exact List.mem_map_of_mem he

/-- The first stage of a board, if it has any, is open or has the key of an open one, and a read of
the board can name its columns. -/
def Shows (board : Key) (r : Records) : Prop :=
  ∀ first, (r.stagesOf board).head? = some first →
    (∀ x ∈ r.activeStages board, x.key.isName = true) ∧ r.isOpen board first.key = true

/-- A board shows its first stage once it was seeded, exactly if it did so before. -/
theorem shows_of_adds (h : Adds board n r r') : Shows board r' ↔ Shows board r := by
  by_cases hnone : r.stagesOf board = []
  · -- no stages before: the defaults are named and active, and nothing was asked of none
    obtain ⟨hkeys, hactive, -⟩ := h.given hnone
    have hnames : ∀ k ∈ Stage.defaults.map (·.key), k.isName = true := by decide
    have hshown : Shows board r' := by
      intro first hfirst
      have hmem := List.mem_of_head? hfirst
      obtain ⟨hm, hb⟩ := Storage.mem_stagesOf.1 hmem
      refine ⟨fun x hx => hnames _ ?_, Records.isOpen_iff.2 ⟨first, hm, hb, hactive _ hmem, rfl⟩⟩
      obtain ⟨hxm, hxb, -⟩ := Records.mem_activeStages.1 hx
      rw [← hkeys]
      exact List.mem_map_of_mem (Storage.mem_stagesOf.2 ⟨hxm, hxb⟩)
    refine iff_of_true hshown fun first hfirst => ?_
    rw [hnone] at hfirst
    cases hfirst
  · -- stages before: they are kept, and cards do not matter
    obtain ⟨cards, stages⟩ := r
    obtain ⟨cards', stages'⟩ := r'
    obtain rfl : stages' = stages := h.kept hnone
    rfl

/-- Where there are sample cards, all of them are in an open stage or none. -/
theorem added_shown_iff (h : Adds board n r r') (hf : r.Filed) :
    (∀ c ∈ Entries.values r'.cards, c ∉ Entries.values r.cards →
      (∀ x ∈ r'.activeStages board, x.key.isName = true) ∧ r'.isOpen board c.stage = true) ↔
    n = 0 ∨ Shows board r := by
  rw [← shows_of_adds h]
  constructor
  · intro hall
    refine or_iff_not_imp_left.2 fun hn first hfirst => ?_
    -- if any card was asked for, one was added to the first stage
    have hlen : (firstFree (Entries.keys r.cards) n).length = n := by
      rw [firstFree, List.length_map, List.length_range]
    obtain ⟨i, hi⟩ := List.exists_mem_of_length_pos (by rw [hlen]; exact Nat.pos_of_ne_zero hn)
    obtain ⟨hc, hnew⟩ := (h.added_iff hf).2 ⟨first, hfirst, i, hi, rfl⟩
    exact hall _ hc hnew
  · rintro (rfl | hshown) c hc hnew
    · obtain ⟨_, -, _, hi, -⟩ := (h.added_iff hf).1 ⟨hc, hnew⟩
      cases hi
    · obtain ⟨first, hfirst, i, -, rfl⟩ := (h.added_iff hf).1 ⟨hc, hnew⟩
      exact hshown first hfirst

/-! ## Seeding, and reading afterwards -/

/-- A command that has seeded a board has stored all that it was to store. -/
theorem stored_of_done (hj : j.command = .seed b m)
    (huse : Storage.use j.account { folder := some f.restore, stamp := now } = (.ok (), s))
    (hdone : (j.carryOut now f).1.ending = .done) :
    Writable j.account (boardOf j b) m.toNat s ∧
      ∃ u, Storage.storeAll j.account (changes j.account (boardOf j b) m.toNat s) s = (.ok (), u) ∧
        (j.carryOut now f).2 = u.folder.getD f := by
  -- without a folder it would not have ended well
  have hdir : j.settings.dataDir.isSome := by
    by_contra hdir
    rw [Bool.not_eq_true, ← Bool.not_eq_true', Option.not_isSome] at hdir
    unfold CommandLine.Job.carryOut at hdone
    rw [hj] at hdone
    dsimp only at hdone
    rw [if_pos hdir] at hdone
    cases hdone
  rw [carryOut_seed hj hdir, huse] at hdone ⊢
  dsimp only at hdone ⊢
  rcases hseeded : run j.account (boardOf j b) m.toNat s with ⟨e | seeded, t⟩
  · rw [hseeded] at hdone
    cases hdone
  · obtain ⟨hw, -, -, u, hu, rfl⟩ := run_ok_iff.1 hseeded
    exact ⟨hw, u, hu, rfl⟩

/-- The folder that a command leaves which has seeded a board. -/
theorem holds_of_done (hj : j.command = .seed b m)
    (huse : Storage.use j.account { folder := some f.restore, stamp := now } = (.ok (), s))
    (hdone : (j.carryOut now f).1.ending = .done) :
    ∃ r', Storage.Holds j.account (j.carryOut now f).2 r' ∧
      Adds (boardOf j b) m.toNat (s.records j.account) r' := by
  obtain ⟨hw, u, hu, hfolder⟩ := stored_of_done hj huse hdone
  obtain ⟨g, hg, -, hholds⟩ := holds_recordsAfter huse hw trivial hu
  refine ⟨_, ?_, adds_recordsAfter j.account (boardOf j b) m.toNat s⟩
  rw [hfolder, hg]
  exact hholds

/-- A service that reads a board from a folder, under a limit that leaves nothing out. -/
structure ReadsAll (v : Service) (account : String) (board : Key) (x : Value) (r : Records) :
    Prop where
  meant : v.boardOf x = board
  allowed : v.authorize account board = true
  limit : ((Entries.values r.cards).length : Int) ≤ v.settings.stageCardLimit

/-- All that was added to a board can be seen exactly if nothing was added or the board shows its
first stage. -/
theorem listed_of_holds {account : String} {v : Service} {x : Value} (hf : r.Filed)
    (h : Adds board n r r') (hg : Storage.Holds account g r') (hv : ReadsAll v account board x r')
    (w : Server) (now : Float) :
    (∀ c ∈ Entries.values r'.cards, c ∉ Entries.values r.cards →
      v.Listed account x { w with storage := { folder := some g, stamp := now } } c) ↔
    n = 0 ∨ Shows board r := by
  obtain ⟨t, ht, rfl⟩ := hg now
  obtain ⟨rfl, hauth, hlimit⟩ := hv
  -- a server that comes up reads what the folder holds
  have huse : Server.use account { w with storage := { folder := some g, stamp := now } } =
      (.ok (), { w with storage := t }) := by
    rw [Server.use_apply]
    simp only [ht]
  rw [← added_shown_iff h hf]
  refine forall₂_congr fun c hc => forall_congr' fun hnew => ?_
  obtain ⟨_, -, _, -, hsample⟩ := (h.added_iff hf).1 ⟨hc, hnew⟩
  exact Service.listed_iff huse hauth hlimit hc (congrArg (·.board) hsample)

/-- After a board was seeded, whoever reads it sees every card that was added, under any limit that
leaves nothing out, exactly if none was added, or the board had no stages, or the key of the first
of all its stages is that of an active one and those of the active ones can be told apart. -/
theorem seeded_shown_iff (hj : j.command = .seed b m)
    (huse : Storage.use j.account { folder := some f.restore, stamp := now } = (.ok (), s))
    (hdone : (j.carryOut now f).1.ending = .done) :
    ∃ r', Storage.Holds j.account (j.carryOut now f).2 r' ∧
      Adds (boardOf j b) m.toNat (s.records j.account) r' ∧
      ∀ v x, ReadsAll v j.account (boardOf j b) x r' → ∀ (w : Server) now',
        ((∀ c ∈ Entries.values r'.cards, c ∉ Entries.values (s.records j.account).cards →
          v.Listed j.account x
            { w with storage := { folder := some (j.carryOut now f).2, stamp := now' } } c) ↔
        m ≤ 0 ∨ Shows (boardOf j b) (s.records j.account)) := by
  obtain ⟨r', hholds, hadds⟩ := holds_of_done hj huse hdone
  refine ⟨r', hholds, hadds, fun v x hv w now' => ?_⟩
  rw [← Int.toNat_eq_zero]
  exact listed_of_holds (Storage.lasting_use huse).1.filed hadds hholds hv w now'

/-! ## Two accounts -/

/-- Where an account can be read and written, a board that is seeded is given its sample cards, if
their ids can be written. -/
theorem done_folderOf {account : String} (board : String) (n : Int) (hr : r.Lasting)
    (htext : r.HasText) (now : Float)
    (hw : ∀ s : Storage, s.records account = r → Writable account (.text board) n.toNat s) :
    ∃ s, Storage.use account { folder := some (folderOf account r).restore, stamp := now } =
        (.ok (), s) ∧
      s.records account = r ∧
      ((seeding account board n).carryOut now (folderOf account r)).1.ending = .done := by
  obtain ⟨s, hs, hrecords⟩ := use_folderOf hr htext account now
  obtain ⟨-, -, hfolder, -⟩ := Storage.lasting_use hs
  obtain ⟨u, hu⟩ := exists_stored board n.toNat hfolder (lets_folderOf account r)
    (by rw [hrecords]; exact htext)
  obtain ⟨g, hg, -⟩ := holds_recordsAfter hs (hw s hrecords) trivial hu
  refine ⟨s, hs, hrecords, ?_⟩
  rw [carryOut_of_stored (j := seeding account board n) rfl rfl hs (hw s hrecords) hu hg]
  rfl

/-- The cards of an account that has been given some. -/
theorem length_cards_of_adds (h : Adds board n r r') :
    (Entries.values r'.cards).length = (Entries.values r.cards).length + n := by
  obtain ⟨first, -, hcards⟩ := h.cards
  rw [hcards, Entries.values, Entries.values, List.length_map, List.length_append, List.length_map,
    List.length_map, firstFree, List.length_map, List.length_range]

theorem shows_gaps : Shows (.text "sales") gaps := by
  have hhead : (gaps.stagesOf (.text "sales")).head? =
      some { id := "7", board := "sales", key := "in", name := "In" } := by decide
  intro first hfirst
  obtain rfl := Option.some.inj (hhead.symm.trans hfirst)
  decide

/-- The two cards that lie between those that are taken are on the board. -/
theorem shown_gaps : ∃ s r', Storage.use "acme"
      { folder := some (folderOf "acme" gaps).restore, stamp := 1.0 } = (.ok (), s) ∧
    s.records "acme" = gaps ∧
    ((seeding "acme" "sales" 2).carryOut 1.0 (folderOf "acme" gaps)).1.ending = .done ∧
    Adds (.text "sales") 2 gaps r' ∧
    ∀ c ∈ Entries.values r'.cards, c ∉ Entries.values gaps.cards →
      ({} : Service).Listed "acme" "sales" { storage := {
        folder := some ((seeding "acme" "sales" 2).carryOut 1.0 (folderOf "acme" gaps)).2
        stamp := 2.0 } } c := by
  obtain ⟨s, hs, hrecords, hdone⟩ :=
    done_folderOf "sales" 2 lasting_gaps ⟨by decide, by decide⟩ 1.0 fun _ => writable_gaps
  obtain ⟨r', -, hadds, hshown⟩ := seeded_shown_iff (j := seeding "acme" "sales" 2) rfl hs hdone
  have hbefore : s.records (seeding "acme" "sales" 2).account = gaps := hrecords
  rw [hbefore] at hadds hshown
  refine ⟨s, r', hs, hrecords, hdone, hadds, (hshown {} "sales" ⟨rfl, rfl, ?_⟩ {} 2.0).2 ?_⟩
  · rw [length_cards_of_adds hadds]
    decide
  · exact .inr shows_gaps

/-- An account with a board whose first stage was closed, and whose second is active. -/
def shut : Records where
  stages := [
    ("1", { id := "1", board := "sales", key := "a", name := "a", position := 0, active := false }),
    ("2", { id := "2", board := "sales", key := "b", name := "b", position := 1 })]

theorem lasting_shut : shut.Lasting := by
  refine ⟨⟨List.nodup_nil, nofun, by decide, by decide⟩, ⟨?_, nofun⟩, ?_⟩
  · intro x hx
    rcases List.mem_cons.1 hx with rfl | hx
    · exact ⟨trivial, trivial, trivial, trivial, trivial⟩
    · obtain rfl := List.mem_singleton.1 hx
      exact ⟨trivial, trivial, trivial, trivial, trivial⟩
  · intro id hid
    rcases List.mem_cons.1 hid with rfl | hid
    · exact Readable.numerable ⟨1, by decide, by decide⟩
    · obtain rfl := List.mem_singleton.1 hid
      exact Readable.numerable ⟨2, by decide, by decide⟩

theorem writable_shut {s : Storage} (hs : s.records "acme" = shut) :
    Writable "acme" (.text "sales") 1 s := by
  have hfree : firstFree (Entries.keys shut.cards) 1 = [1] := by
    rw [← freeFrom_one, freeFrom_of_free (by decide)]
    rfl
  have hstages : shut.stagesOf (.text "sales") ≠ [] := by decide
  refine writable_of_short (by rwa [hs]) ?_
  rw [hs, hfree, Short]
  decide

/-- The board has an active stage, and still the card that it is given is in the closed one, where
no read of the board lists it. -/
theorem hidden_shut : ∃ s r', Storage.use "acme"
      { folder := some (folderOf "acme" shut).restore, stamp := 1.0 } = (.ok (), s) ∧
    s.records "acme" = shut ∧ shut.activeStages (.text "sales") ≠ [] ∧
    ((seeding "acme" "sales" 1).carryOut 1.0 (folderOf "acme" shut)).1.ending = .done ∧
    Storage.Holds "acme" ((seeding "acme" "sales" 1).carryOut 1.0 (folderOf "acme" shut)).2 r' ∧
    ReadsAll {} "acme" (.text "sales") "sales" r' ∧
    ∀ v x, ReadsAll v "acme" (.text "sales") x r' → ∀ (w : Server) now,
      ∃ c ∈ Entries.values r'.cards, c ∉ Entries.values shut.cards ∧
        ¬ v.Listed "acme" x { w with storage := {
          folder := some ((seeding "acme" "sales" 1).carryOut 1.0 (folderOf "acme" shut)).2
          stamp := now } } c := by
  obtain ⟨s, hs, hrecords, hdone⟩ :=
    done_folderOf "sales" 1 lasting_shut ⟨by decide, by decide⟩ 1.0 fun _ => writable_shut
  obtain ⟨r', hholds, hadds⟩ := holds_of_done (j := seeding "acme" "sales" 1) rfl hs hdone
  have hbefore : s.records (seeding "acme" "sales" 1).account = shut := hrecords
  rw [hbefore] at hadds
  have hall : ReadsAll {} "acme" (.text "sales") "sales" r' := by
    refine ⟨rfl, rfl, ?_⟩
    rw [length_cards_of_adds hadds]
    decide
  refine ⟨s, r', hs, hrecords, by decide, hdone, hholds, hall, fun v x hv w now => ?_⟩
  -- a card was asked for, and the first stage is closed
  have hnot : ¬ (1 = 0 ∨ Shows (.text "sales") shut) := by
    rintro (h | h)
    · cases h
    · exact absurd (h _ rfl).2 (by decide)
  have hsome := mt (listed_of_holds lasting_shut.filed hadds hholds hv w now).1 hnot
  simp only [not_forall, exists_prop] at hsome
  exact hsome

end Seeding

end Kanban
