import Kanban.Proofs.Storage.Rereading

/-!
# Kanban.Proofs.Storage.Numbering — numbers of new stages

All accounts of a repository draw the numbers of their new stages from one counter, and every snapshot
that is read sets the counter anew, perhaps to a lower number than before. Stage ids of a snapshot are
any text, some of them numbers. What holds in between is that no stage in memory, of whatever account,
has a number that is still to be drawn. So a new stage never takes the place of another.

A snapshot that cannot be read to its end leaves stages in memory that the counter was not set after;
runs are those in which every account that was used could be read.

* `Happening`, `course` — what becomes of a repository and its folder.
* `Beyond` — the counter is beyond all stages in memory; `Beyond.use`, `Beyond.perform`,
  `Beyond.course` — it stays there.
* `Gains` — an account gets stages under new ids and keeps all it had.
* `new_stages_fresh` — so it is with every stage that is added.
-/

namespace Kanban

namespace Storage

open Operation

variable {account : String} {board : Key} {r : Records} {s t u : Storage}

/-! ## Beyond all stages -/

/-- New stages are numbered beyond all stages in memory that have a number. -/
structure Beyond (s : Storage) : Prop where
  filed : ∀ a, (s.records a).Filed
  number : ∀ id ∈ s.repository.stageIds, ∀ n, Repository.stageNumber id = .ok (some n) →
    n < s.repository.nextStage

theorem beyond_start (folder : Option Folder) (stamp : Float) :
    Beyond { folder := folder, stamp := stamp } where
  filed _ := ⟨List.nodup_nil, nofun, List.nodup_nil, nofun⟩
  number _ hid := nomatch hid

/-- The stages in memory are those of the accounts. -/
theorem Beyond.congr (h : s.Beyond) (ha : t.repository.accounts = s.repository.accounts)
    (hn : s.repository.nextStage ≤ t.repository.nextStage) : t.Beyond where
  filed a := by
    have hr : t.records a = s.records a := by rw [records, records, Repository.records, ha]; rfl
    exact hr ▸ h.filed a
  number id hid n hread := by
    rw [Repository.stageIds, ha] at hid
    exact Nat.lt_of_lt_of_le (h.number id hid n hread) hn

theorem Beyond.untouched (h : s.Beyond) (hu : s.Untouched t) : t.Beyond := h.congr hu.accounts hu.number

theorem Beyond.written (h : s.Beyond) (hw : s.Written account r t) (hf : r.Filed)
    (hids : ∀ id ∈ Entries.keys r.stages, ∀ n, Repository.stageNumber id = .ok (some n) →
      n < t.repository.nextStage) : t.Beyond where
  filed a := by
    by_cases ha : a = account
    · rw [ha, hw.records_self]
      exact hf
    · rw [hw.records_of_ne ha]
      exact h.filed a
  number id hid n hread := by
    have hsame : t.repository.stageIds = (s.withRecords account r).repository.stageIds := by
      rw [Repository.stageIds, hw.accounts]
      rfl
    rw [hsame] at hid
    -- the id was in use before, or it is among the records that were written
    rcases mem_stageIds_withRecords hid with hid | hid
    · exact Nat.lt_of_lt_of_le (h.number id hid n hread) hw.number
    · exact hids id hid n hread

/-- Where no stage is new, the counter is still beyond all of them. -/
theorem Beyond.kept (h : s.Beyond) (hw : s.Written account r t) (hf : r.Filed)
    (hids : ∀ id ∈ Entries.keys r.stages, id ∈ Entries.keys (s.records account).stages) :
    t.Beyond :=
  h.written hw hf fun id hid n hread =>
    Nat.lt_of_lt_of_le (h.number id (Repository.mem_stageIds (hids id hid)) n hread) hw.number

/-- The number of a new stage is that of no stage in memory, of whatever account. -/
theorem Beyond.fresh (h : s.Beyond)
    (hn : (toString s.repository.nextStage).length ≤ Decimal.Numeral.maxDigits) (a : String) :
    toString s.repository.nextStage ∉ Entries.keys (s.records a).stages := by
  intro hid
  have hread := Repository.stageNumber_toString s.repository.nextStage
  rw [if_neg (Nat.not_lt.2 hn)] at hread
  exact Nat.lt_irrefl _ (h.number _ (Repository.mem_stageIds hid) _ hread)

/-! ## Reading snapshots -/

/-- What a snapshot holds is taken over when its account is used for the first time. -/
theorem use_of_load {f : Folder} {data : Entries String Value}
    (h : ¬ s.repository.loaded.contains account) (hf : s.folder = some f)
    (hload : Snapshot.load account f = .ok (some data)) :
    use account s = takeOver account data (s.marked account) := by
  rw [use_of_fresh h, hf]
  dsimp only
  rw [hload]

/-- Use succeeds where there is nothing to read, and where a snapshot can be taken over. -/
theorem use_ok (h : use account s = (.ok (), t)) :
    t = s ∨ t = s.marked account ∨
      ∃ data, takeOver account data (s.marked account) = (.ok (), t) := by
  by_cases hl : s.repository.loaded.contains account
  · rw [use_of_loaded hl] at h
    exact .inl (congrArg Prod.snd h).symm
  · rw [use_of_fresh hl] at h
    cases hf : s.folder with
    | none =>
      rw [hf] at h
      exact .inr (.inl (congrArg Prod.snd h).symm)
    | some f =>
      rw [hf] at h
      dsimp only at h
      cases hload : Snapshot.load account f with
      | error e =>
        rw [hload] at h
        cases h
      | ok found =>
        rw [hload] at h
        cases found with
        | none => exact .inr (.inl (congrArg Prod.snd h).symm)
        | some data => exact .inr (.inr ⟨data, h⟩)

/-- Whatever stages a snapshot brings, the counter is beyond them once it was read. -/
theorem Beyond.use (h : s.Beyond) (hu : use account s = (.ok (), t)) : t.Beyond := by
  rcases use_ok hu with rfl | rfl | ⟨data, htaken⟩
  · exact h
  · exact h.congr rfl (Nat.le_refl _)
  · have hfiled (a : String) : (t.records a).Filed := by
      have hkept : ((Storage.use account s).2.records a).Filed := filed_use (h.filed a)
      rwa [hu] at hkept
    -- what was read is not looked at: the counter is set after all stages there are then
    obtain ⟨v, q, hq, rfl⟩ := takeOver_ok htaken
    refine ⟨hfiled, fun id hid n hread => ?_⟩
    dsimp only at hid
    rw [Repository.renumber_eq hq] at hid
    exact Repository.lt_of_renumber hq hid hread

/-! ## New stages -/

/-- An account gets stages under ids that are new to it, behind those that it has, which are left as they
were; so are its cards and all other accounts. -/
structure Gains (account : String) (xs : List Stage) (s t : Storage) : Prop where
  ids : (xs.map (·.id)).Nodup
  fresh : ∀ x ∈ xs, x.id ∉ Entries.keys (s.records account).stages
  records : t.records account = { s.records account with
    stages := (s.records account).stages ++ xs.map fun x => (x.id, x) }
  others : ∀ a, a ≠ account → t.records a = s.records a

theorem Untouched.gains (h : s.Untouched t) (account : String) : Gains account [] s t where
  ids := List.nodup_nil
  fresh := nofun
  records := by
    rw [h.records, List.map_nil, List.append_nil]
  others a _ := h.records a

theorem Gains.trans {xs ys : List Stage} (h : Gains account xs s t) (h' : Gains account ys t u) :
    Gains account (xs ++ ys) s u := by
  have hkeys : Entries.keys (t.records account).stages =
      Entries.keys (s.records account).stages ++ xs.map (·.id) := by
    rw [h.records, Entries.keys, List.map_append, List.map_map]
    rfl
  -- what is new in the second part is new to the first as well
  have hfresh : ∀ y ∈ ys, y.id ∉ Entries.keys (s.records account).stages ∧ y.id ∉ xs.map (·.id) := by
    intro y hy
    have hnew := h'.fresh y hy
    rwa [hkeys, List.mem_append, not_or] at hnew
  refine ⟨?_, ?_, ?_, fun a ha => (h'.others a ha).trans (h.others a ha)⟩
  · rw [List.map_append]
    refine h.ids.append h'.ids fun id hx hy => ?_
    obtain ⟨y, hmem, rfl⟩ := List.mem_map.1 hy
    exact (hfresh y hmem).2 hx
  · intro x hx
    exact (List.mem_append.1 hx).elim (h.fresh x) fun hy => (hfresh x hy).1
  · rw [h'.records, h.records, List.map_append, List.append_assoc]

/-- A stage that is added is the draft under the next number, and it was stored. -/
theorem addStage_ok {d : Stage.Draft} {x : Stage} (h : addStage account board d s = (.ok x, t)) :
    (toString s.repository.nextStage).length ≤ Decimal.Numeral.maxDigits ∧
      x = drafted board d s.repository.nextStage (s.records account) ∧
      s.drawn.Written account ((s.records account).putStage x) t := by
  unfold addStage at h
  rw [bind_apply, get_apply] at h
  dsimp only at h
  rw [unless_apply] at h
  split at h
  · cases h
  · rw [bind_apply, set_apply] at h
    dsimp only at h
    rw [unless_apply] at h
    split at h
    · cases h
    · rename_i hlength
      -- neither the key was taken nor the number too long: what is left is the write
      obtain ⟨_, v, hp, h⟩ := bind_ok_iff.1 h
      obtain rfl : drafted board d s.repository.nextStage (s.records account) = x :=
        Except.ok.inj (congrArg Prod.fst h)
      obtain rfl : v = t := congrArg Prod.snd h
      refine ⟨Nat.le_of_not_lt hlength, rfl, ?_⟩
      have hwritten := written_persist hp
      rw [Records.apply_stage] at hwritten
      exact hwritten

/-- A stage is added if its key is new on the board, its number can be read, and it is stored. -/
theorem addStage_of_persist {d : Stage.Draft}
    (hk : ¬ ((s.records account).stagesOf board).any fun x => x.key = d.key)
    (hn : ¬ Decimal.Numeral.maxDigits < (toString s.repository.nextStage).length)
    (hp : persist account { stages := [drafted board d s.repository.nextStage (s.records account)] }
      s.drawn = (.ok (), t)) :
    addStage account board d s =
      (.ok (drafted board d s.repository.nextStage (s.records account)), t) := by
  unfold addStage
  rw [bind_apply, get_apply]
  dsimp only
  rw [unless_apply, if_neg hk, bind_apply, set_apply]
  dsimp only
  rw [unless_apply, if_neg hn, bind_apply]
  unfold drafted drawn at hp
  rw [hp]
  rfl

/-- A stage that is added is one that the account gains, whatever the account had. -/
theorem Beyond.gains (h : s.Beyond) {d : Stage.Draft} {x : Stage}
    (ha : addStage account board d s = (.ok x, t)) : Gains account [x] s t := by
  obtain ⟨hlength, rfl, hw⟩ := addStage_ok ha
  have hfresh := h.fresh hlength account
  refine ⟨List.nodup_singleton _, fun x hx => ?_, ?_, fun a ha => hw.records_of_ne ha⟩
  · obtain rfl := List.mem_singleton.1 hx
    exact hfresh
  · rw [hw.records_self, Records.putStage]
    exact congrArg _ (Entries.put_of_not_mem hfresh _)

/-- The counter is beyond a stage that is added. -/
theorem Beyond.addStage (h : s.Beyond) (account : String) (board : Key) (d : Stage.Draft) :
    (addStage account board d s).2.Beyond := by
  rcases addStage_outcome account board d s with hu | ⟨-, hlength, -, hw⟩
  · exact h.untouched hu
  · have hdrawn := h.untouched (untouched_drawn s)
    have hlt : s.repository.nextStage < (Storage.addStage account board d s).2.repository.nextStage :=
      hw.number
    refine hdrawn.written hw (Records.filed_putStage (h.filed account) _) fun id hid n hread => ?_
    rcases Entries.mem_keys_put.1 hid with rfl | hid
    · -- the new id reads as the number that was drawn, and the next is higher
      have hself := Repository.stageNumber_toString s.repository.nextStage
      rw [if_neg (Nat.not_lt.2 hlength)] at hself
      obtain rfl := Option.some.inj (Except.ok.inj (hself.symm.trans hread))
      exact hlt
    · exact Nat.lt_trans (h.number id (Repository.mem_stageIds hid) n hread) hlt

/-- Stages that are added one after the other are gained, all of them or those before one that is
refused. -/
theorem Beyond.gains_mapM (h : s.Beyond) (ds : List Stage.Draft) {a : Except Failure (List Stage)}
    (hrun : ds.mapM (Storage.addStage account board) s = (a, t)) :
    ∃ xs, Gains account xs s t ∧ ∀ ys, a = .ok ys → ys = xs := by
  induction ds generalizing s t a with
  | nil =>
    obtain ⟨rfl, rfl⟩ := Prod.mk.inj hrun
    exact ⟨[], (Untouched.refl s).gains account, fun ys hys => (Except.ok.inj hys).symm⟩
  | cons d ds ih =>
    rw [List.mapM_cons, bind_apply] at hrun
    have hbeyond := h.addStage account board d
    have hone := addStage_outcome account board d s
    cases hadd : Storage.addStage account board d s with
    | mk b u =>
      rw [hadd] at hrun hbeyond hone
      dsimp only at hbeyond
      cases b with
      | error e =>
        obtain ⟨rfl, rfl⟩ := Prod.mk.inj hrun
        -- a failure ends the list: the stages so far are there, and this one is not
        rcases hone with hu | ⟨-, -, hok, -⟩
        · exact ⟨[], hu.gains account, nofun⟩
        · cases hok
      | ok x =>
        have hx := h.gains hadd
        dsimp only at hrun
        rw [bind_apply] at hrun
        cases hrest : (ds.mapM (Storage.addStage account board)) u with
        | mk b v =>
          rw [hrest] at hrun
          obtain ⟨xs, hxs, hall⟩ := ih hbeyond hrest
          cases b with
          | error e =>
            obtain ⟨rfl, rfl⟩ := Prod.mk.inj hrun
            exact ⟨x :: xs, hx.trans hxs, nofun⟩
          | ok ys =>
            obtain ⟨rfl, rfl⟩ := Prod.mk.inj hrun
            refine ⟨x :: xs, hx.trans hxs, fun zs hzs => ?_⟩
            rw [← Except.ok.inj hzs, hall ys rfl]

/-- The default stages of a board are gained, all of them or those before one that is refused; a board
that has stages gains none. -/
theorem Beyond.gains_seed (h : s.Beyond) {a : Except Failure (List Stage)}
    (hrun : seed account board s = (a, t)) :
    ∃ xs, Gains account xs s t ∧
      ((s.records account).stagesOf board = [] → ∀ ys, a = .ok ys → ys = xs) := by
  unfold seed at hrun
  rw [bind_apply, get_apply] at hrun
  dsimp only at hrun
  rw [if_apply] at hrun
  split at hrun
  · -- a board without stages gets the defaults one by one
    obtain ⟨xs, hxs, hall⟩ := h.gains_mapM _ hrun
    exact ⟨xs, hxs, fun _ => hall⟩
  · rename_i hsome
    obtain ⟨rfl, rfl⟩ := Prod.mk.inj hrun
    exact ⟨[], (Untouched.refl s).gains account, fun hnone => absurd (by rw [hnone]; rfl) hsome⟩

end Storage

namespace Work

variable {r r' : Records} {w : Work}

/-- Whether the work may store new stages. -/
def drafts : Work → Bool
  | .seed _ | .addStage _ _ => true
  | _ => false

/-- No other work brings stage ids. -/
theorem keys_edits (hw : ¬ w.drafts) (hf : r.Filed) (he : w.edits r r') :
    ∀ id ∈ Entries.keys r'.stages, id ∈ Entries.keys r.stages := by
  intro i hi
  cases w with
  | seed board => exact absurd rfl hw
  | addStage board d => exact absurd rfl hw
  | setStageActive id active =>
    -- the stage is put where it was
    obtain ⟨stage, hs, rfl⟩ := he
    rcases Entries.mem_keys_put.1 hi with rfl | hi
    · exact Entries.mem_keys_of_get? ((hf.stage_mem.1 hs).2 ▸ hs)
    · exact hi
  | addCard c =>
    obtain ⟨-, rfl⟩ := he
    exact hi
  | removeCard id =>
    obtain rfl := he
    exact hi
  | setUnread id count =>
    obtain ⟨c, n, -, rfl⟩ := he
    exact hi
  | save id stage position =>
    obtain ⟨c, x, -, -, rfl⟩ := he
    exact hi
  | restage board source target =>
    obtain ⟨id, c, -, -, rfl⟩ := he
    exact hi

end Work

namespace Storage

open Operation

variable {account : String} {s t u : Storage}

/-! ## Runs -/

/-- Something that becomes of a repository and its folder. -/
inductive Happening where
  /-- An account is used. -/
  | use (account : String)
  /-- An account is used, and work is done on it. -/
  | work (account : String) (w : Work)
  /-- The folder is changed from outside, with the writes that the system will refuse, and time goes
  on. -/
  | outside (f : Folder) (now : Float)
  /-- A fresh repository is opened on the folder. -/
  | reopen

namespace Happening

/-- What is done. -/
def op : Happening → Storage.Op PUnit
  | .use account => Storage.use account
  | .work account w => do
    Storage.use account
    w.perform account
  | .outside f now => modify fun s => { s with folder := s.folder.map fun _ => f, stamp := now }
  | .reopen => modify fun s => { folder := s.folder, stamp := s.stamp }

/-- No snapshot is met that cannot be read. -/
def Loads (s : Storage) : Happening → Prop
  | .use account | .work account _ => (Storage.use account s).1 = .ok ()
  | .outside _ _ | .reopen => True

end Happening

/-- Storage after one thing and another has become of it. -/
def course (s : Storage) (l : List Happening) : Storage := l.foldl (fun s h => (h.op s).2) s

/-- No snapshot is met on the way that cannot be read. -/
def Loading : Storage → List Happening → Prop
  | _, [] => True
  | s, h :: l => h.Loads s ∧ Loading (h.op s).2 l

/-- The counter stays beyond all stages, whatever work is done and where it is refused. -/
theorem Beyond.perform (h : s.Beyond) (w : Work) (account : String) :
    (w.perform account s).2.Beyond := by
  -- only work that drafts stages brings ids into use
  by_cases hw : w.drafts
  · cases w with
    | seed board =>
      refine Work.keeps_discard ?_
      unfold seed
      rw [bind_apply, get_apply]
      dsimp only
      rw [if_apply]
      split
      · exact keeps_mapM (fun d _ t ht => ht.addStage account board d) h
      · exact h
    | addStage board d => exact Work.keeps_discard (h.addStage account board d)
    | _ => cases hw
  · refine Work.keeps (P := Beyond) w account (fun _ _ h hu => h.untouched hu)
      (fun t v r h he hwritten => ?_) h
    have hfiled := h.filed account
    exact h.kept hwritten (Work.filed_edits hfiled he) (Work.keys_edits hw hfiled he)

theorem Beyond.op (h : s.Beyond) {x : Happening} (hx : x.Loads s) : (x.op s).2.Beyond := by
  cases x with
  | use account => exact h.use (Prod.ext hx rfl)
  | work account w =>
    have hu : Storage.use account s = (.ok (), (Storage.use account s).2) := Prod.ext hx rfl
    have hdone := (h.use hu).perform w account
    rw [Happening.op, bind_apply, hu]
    exact hdone
  | outside f now => exact h.congr rfl (Nat.le_refl _)
  | reopen => exact beyond_start _ _

theorem Beyond.course {l : List Happening} (h : s.Beyond) (hl : Loading s l) :
    (s.course l).Beyond := by
  induction l generalizing s with
  | nil => exact h
  | cons x l ih => exact ih (h.op hl.1) hl.2

/-- New stage ids never collide. Whatever became of a repository and its folder, as long as every
snapshot that was met could be read: a stage that is added to an account in use comes under an id that
the account does not have, behind all its other stages and with none of them changed. So does each of
the default stages of a board, also where one of them is refused. -/
theorem new_stages_fresh {folder : Option Folder} {stamp : Float} {l : List Happening}
    (hl : Loading { folder := folder, stamp := stamp } l)
    (hu : Storage.use account (course { folder := folder, stamp := stamp } l) = (.ok (), u))
    (board : Key) :
    (∀ d x t, Storage.addStage account board d u = (.ok x, t) → Gains account [x] u t) ∧
      ∀ a t, seed account board u = (a, t) → ∃ xs, Gains account xs u t ∧
        ((u.records account).stagesOf board = [] → ∀ ys, a = .ok ys → ys = xs) := by
  have hbeyond : u.Beyond := ((beyond_start folder stamp).course hl).use hu
  exact ⟨fun _ _ _ ha => hbeyond.gains ha, fun _ _ ha => hbeyond.gains_seed ha⟩

/-- A snapshot with stages that are named by a number and by a word. -/
def legacyEntries : Entries String Value :=
  [("version", .whole 1),
    ("stages", .list [.object [("id", .text "7"), ("board_key", .text "sales"), ("key", .text "new")],
      .object [("id", .text "x"), ("board_key", .text "sales"), ("key", .text "old")]])]

/-- A folder that has this snapshot. -/
def legacy : Folder where
  slots := [(Snapshot.fileName "acme", .file (Json.pretty (.object legacyEntries)).toUTF8.toList)]

/-- The folder is missing when a stage is added to one account, so that a number is drawn and not
given; then the snapshot of another account turns up. -/
def legacyCourse : List Happening :=
  [.work "globex" (.addStage "sales" { key := "in" }), .outside legacy 1.0]

theorem course_legacy : course { folder := some { present := false } } legacyCourse =
    { repository := { loaded := ["globex"], nextStage := 2 }, folder := some legacy, stamp := 1.0 } := by
  rfl

theorem loading_legacy : Loading { folder := some { present := false } } legacyCourse :=
  ⟨rfl, trivial, trivial⟩

theorem load_legacy : Snapshot.load "acme" legacy = .ok (some legacyEntries) := by
  have hk : (Value.object legacyEntries).Keyed :=
    ⟨by decide, trivial, ⟨⟨by decide, trivial, trivial, trivial, trivial⟩,
      ⟨by decide, trivial, trivial, trivial, trivial⟩, trivial⟩, trivial⟩
  have hp : Json.problem? Json.maxWritten (.object legacyEntries) = none := by decide +kernel
  have hvalue := Snapshot.valueOf_pretty hk hp
  simp only [Snapshot.load, legacy, Folder.get?, Entries.get?, if_true, hvalue]
  rfl

/-- The stages of the snapshot. -/
def legacyStages : Entries String Stage :=
  [("7", { id := "7", board := "sales", key := "new", name := "new" }),
    ("x", { id := "x", board := "sales", key := "old", name := "old" })]

/-- The storage with the stages of the snapshot in memory. -/
def legacyUsed : Storage where
  repository := {
    accounts := [("acme", { stages := legacyStages })]
    loaded := ["acme", "globex"]
    nextStage := 8 }
  folder := some legacy
  stamp := 1.0

theorem takeOver_legacy (folder : Option Folder) (stamp : Float) : takeOver "acme" legacyEntries
      { repository := { loaded := ["acme", "globex"], nextStage := 2 }
        folder := folder, stamp := stamp } =
    (.ok (), { legacyUsed with folder := folder, stamp := stamp }) := rfl

theorem use_legacy : use "acme" (course { folder := some { present := false } } legacyCourse) =
    (.ok (), legacyUsed) := by
  rw [course_legacy, use_of_load (by decide) rfl load_legacy]
  exact takeOver_legacy (some legacy) 1.0

theorem addStage_legacy : ∃ x t,
    addStage "acme" "sales" { key := "won" } legacyUsed = (.ok x, t) ∧ x.id = "8" := by
  have hp : Json.problem? Json.maxWritten (documentOf "acme" 1.0
      ((legacyUsed.drawn.records "acme").apply
        { stages := [drafted "sales" { key := "won" } 8 (legacyUsed.records "acme")] })) = none := by
    decide +kernel
  have hr : Folder.refuses (Snapshot.fileName "acme") legacy = false := by
    simp [Folder.refuses, Folder.get?, Entries.get?, legacy]
  have hw := persist_written (s := legacyUsed.drawn) (f := legacy) rfl hr hp
  exact ⟨_, _, addStage_of_persist (by decide) (by decide) hw, rfl⟩

/-- The new stage is named by the number after that of the snapshot. -/
theorem new_stages_fresh_legacy :
    Loading { folder := some { present := false } } legacyCourse ∧
      use "acme" (course { folder := some { present := false } } legacyCourse) = (.ok (), legacyUsed) ∧
      ∃ x t, addStage "acme" "sales" { key := "won" } legacyUsed = (.ok x, t) ∧ x.id = "8" ∧
        Gains "acme" [x] legacyUsed t := by
  obtain ⟨x, t, hadd, hid⟩ := addStage_legacy
  obtain ⟨hone, -⟩ := new_stages_fresh loading_legacy use_legacy "sales"
  exact ⟨loading_legacy, use_legacy, x, t, hadd, hid, hone _ _ _ hadd⟩

end Storage

end Kanban
