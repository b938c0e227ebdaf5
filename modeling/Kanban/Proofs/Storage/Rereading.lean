import Kanban.Proofs.Json.Keyed
import Kanban.Proofs.Storage.InUse

/-!
# Kanban.Proofs.Storage.Rereading — what was read can be stored and read again

A folder holds records of an account if whoever reads it, at whatever time, finds them. How the file
was written does not matter for this: what can be read at all is filed, names every key once and has
stages that new ones can be numbered after, and so it is found again once it is written.

* `Lasting` — what holds of records that were read; `lasting_use` — that it does.
* `Holds` — whoever reads a folder finds these records.
* `Became.holds` — what is stored in a folder it holds.
-/

namespace Kanban

/-- Readings one after another succeed if the first does, and then the second. -/
theorem Operation.ok_of_bind {ε α β : Type} {x : Except ε α} {f : α → Except ε β} {b : β}
    (h : (x >>= f) = .ok b) : ∃ a, x = .ok a ∧ f a = .ok b := by
  cases x with
  | error e => cases h
  | ok a => exact ⟨a, rfl, h⟩

open Operation

/-! ## Records of a snapshot -/

theorem Entries.keyed_need {k : String} {es : Entries String Value} {v : Value}
    (hes : (Value.object es).Keyed) (h : Entries.need k es = .ok v) : v.Keyed := by
  unfold Entries.need at h
  cases hget : Entries.get? k es with
  | none =>
    rw [hget] at h
    cases h
  | some w =>
    rw [hget] at h
    obtain rfl := Except.ok.inj h
    exact Value.keyedEntries_iff.1 hes.2 _ (Entries.mem_of_get? hget)

theorem Value.Keyed.record {v : Value} {es : Entries String Value} (hv : v.Keyed)
    (h : v.record = .ok es) : (Value.object es).Keyed := by
  cases v with
  | object es' =>
    obtain rfl := Except.ok.inj h
    exact hv
  | _ => cases h

theorem Value.Keyed.items {v : Value} {vs : List Value} (hv : v.Keyed) (h : v.items = .ok vs) :
    ∀ w ∈ vs, w.Keyed := by
  intro w hw
  cases v with
  | list vs' =>
    obtain rfl := Except.ok.inj h
    exact Value.KeyedItems.of_mem hv hw
  | object es =>
    obtain rfl := Except.ok.inj h
    obtain ⟨e, -, rfl⟩ := List.mem_map.1 hw
    trivial
  | text s =>
    obtain rfl := Except.ok.inj h
    obtain ⟨c, -, rfl⟩ := List.mem_map.1 hw
    trivial
  | _ => cases h

theorem Value.Keyed.given? {v w : Value} (hv : v.Keyed) (h : v.given? = some w) : w.Keyed := by
  unfold Value.given? at h
  split at h
  · exact Option.some.inj h ▸ hv
  · cases h

theorem Stage.keyed_ofValue {v : Value} {s : Stage} (hv : v.Keyed) (h : Stage.ofValue v = .ok s) :
    s.Keyed := by
  obtain ⟨r, hr, h⟩ := ok_of_bind h
  obtain ⟨key, hkey, h⟩ := ok_of_bind h
  have hes := hv.record hr
  have hkey' := Entries.keyed_need hes hkey
  -- a position has no keys, whether it is given or not
  split at h <;>
  · obtain ⟨position, -, h⟩ := ok_of_bind h
    obtain rfl := Except.ok.inj h
    exact ⟨Value.keyed_getD hes trivial, hkey', Value.keyed_getD hes hkey',
      Value.keyed_getD hes trivial, Value.keyed_getD hes trivial⟩

/-- What comes of a list comes of one of its members. -/
theorem exists_of_mapM {ε α β : Type} {f : α → Except ε β} {l : List α} {bs : List β}
    (h : l.mapM f = .ok bs) {b : β} (hb : b ∈ bs) : ∃ a ∈ l, f a = .ok b := by
  induction l generalizing bs with
  | nil =>
    obtain rfl := Except.ok.inj h
    cases hb
  | cons a l ih =>
    rw [List.mapM_cons] at h
    obtain ⟨b', hb', h⟩ := ok_of_bind h
    obtain ⟨bs', hbs', h⟩ := ok_of_bind h
    obtain rfl := Except.ok.inj h
    rcases List.mem_cons.1 hb with rfl | hb
    · exact ⟨a, List.mem_cons_self, hb'⟩
    · obtain ⟨a', ha', hfa⟩ := ih hbs' hb
      exact ⟨a', List.mem_cons_of_mem _ ha', hfa⟩

namespace Card

/-- An attribute that is given as a pair has the value of the pair. -/
theorem keyed_attributeOf {v : Value} {e : String × Value} (hv : v.Keyed)
    (h : attributeOf v = .ok e) : e.2.Keyed := by
  obtain ⟨vs, hvs, h⟩ := ok_of_bind h
  split at h
  · obtain ⟨k, -, h⟩ := ok_of_bind h
    obtain rfl := Except.ok.inj h
    exact hv.items hvs _ (by simp)
  · cases h

theorem keyed_ofList {es : List (String × Value)} (h : ∀ e ∈ es, e.2.Keyed) :
    (Value.object (Entries.ofList es)).Keyed := by
  have hput (m : Entries String Value) (hm : (Value.object m).Keyed) :
      (Value.object (es.foldl (fun m p => Entries.put p.1 p.2 m) m)).Keyed := by
    induction es generalizing m with
    | nil => exact hm
    | cons e es ih =>
      exact ih (fun e' he' => h e' (List.mem_cons_of_mem _ he')) _
        (Value.keyed_put (h e List.mem_cons_self) hm)
  exact hput [] ⟨List.nodup_nil, trivial⟩

/-- Attributes are kept by name, each once. -/
theorem keyed_attributesOf {v : Value} {es : Entries String Value} (hv : v.Keyed)
    (h : attributesOf v = .ok es) : (Value.object es).Keyed := by
  have hpairs (h : (do
      let pairs ← (← v.items).mapM attributeOf
      pure (Entries.ofList pairs)) = .ok es) : (Value.object es).Keyed := by
    obtain ⟨vs, hvs, h⟩ := ok_of_bind h
    obtain ⟨pairs, hpairs, h⟩ := ok_of_bind h
    obtain rfl := Except.ok.inj h
    refine keyed_ofList fun e he => ?_
    obtain ⟨w, hw, hwe⟩ := exists_of_mapM hpairs he
    exact keyed_attributeOf (hv.items hvs w hw) hwe
  cases v with
  | object es' =>
    obtain rfl := Except.ok.inj h
    exact hv
  | _ => exact hpairs h

theorem keyed_ofValue {v : Value} {c : Card} (hv : v.Keyed) (h : Card.ofValue v = .ok c) :
    c.Keyed := by
  obtain ⟨r, hr, h⟩ := ok_of_bind h
  obtain ⟨stage, hstage, h⟩ := ok_of_bind h
  have hes := hv.record hr
  have hboard : (r.getD "board_key" defaultBoard).Keyed := Value.keyed_getD hes trivial
  have hstage' := Entries.keyed_need hes hstage
  -- the count and the position have no keys, and attributes are read or there are none
  have hattributes : ∀ a, (r.getD "attributes" .null).given? = some a →
      ∀ es, attributesOf a = .ok es → (Value.object es).Keyed := fun a ha es hread =>
    keyed_attributesOf ((Value.keyed_getD hes (w := .null) trivial).given? ha) hread
  dsimp only at h
  split at h <;> obtain ⟨unread, -, h⟩ := ok_of_bind h <;> split at h
  all_goals
    obtain ⟨attributes, hread, h⟩ := ok_of_bind h
    split at h <;> obtain ⟨position, -, h⟩ := ok_of_bind h <;> obtain rfl := Except.ok.inj h
  all_goals
    refine ⟨hboard, hstage', ?_⟩
    first
      | exact hattributes _ ‹_› _ hread
      | obtain rfl := Except.ok.inj hread
        exact ⟨List.nodup_nil, trivial⟩

end Card

theorem Value.mem_readWhile {α : Type} {read : Value → Except Fault α} {vs : List Value} {a : α}
    (h : a ∈ Value.readWhile read vs) : ∃ v ∈ vs, read v = .ok a := by
  induction vs with
  | nil => cases h
  | cons v vs ih =>
    rw [Value.readWhile] at h
    cases hread : read v with
    | error e =>
      rw [hread] at h
      cases h
    | ok b =>
      rw [hread] at h
      rcases List.mem_cons.1 h with rfl | h
      · exact ⟨v, List.mem_cons_self, hread⟩
      · obtain ⟨w, hw, hwa⟩ := ih h
        exact ⟨w, List.mem_cons_of_mem _ hw, hwa⟩

namespace Records

variable {r : Records}

/-- What is taken over of a snapshot holds every key once. -/
theorem keyed_salvage {data : Entries String Value} (hd : (Value.object data).Keyed) (h : r.Keyed) :
    (r.salvage data).Keyed := by
  unfold salvage
  cases hstages : (data.getD "stages" (.list [])).items with
  | error e => exact h
  | ok stages =>
    have hr : ((Value.readWhile Stage.ofValue stages).foldl (fun r x => r.putStage x) r).Keyed := by
      refine List.foldlRecOn _ (fun r x => r.putStage x) h fun r hr x hx => ?_
      obtain ⟨v, hv, hread⟩ := Value.mem_readWhile hx
      exact hr.putStage
        (Stage.keyed_ofValue ((Value.keyed_getD hd (w := .list []) trivial).items hstages v hv) hread)
    dsimp only
    split
    · exact hr
    · cases hcards : (data.getD "cards" (.list [])).items with
      | error e => exact hr
      | ok cards =>
        refine List.foldlRecOn _ (fun r c => r.putCard c) hr fun r hr c hc => ?_
        obtain ⟨v, hv, hread⟩ := Value.mem_readWhile hc
        exact hr.putCard
          (Card.keyed_ofValue ((Value.keyed_getD hd (w := .list []) trivial).items hcards v hv) hread)

/-- Records that are filed, hold every key once, and have stages that new ones can be numbered
after. -/
structure Lasting (r : Records) : Prop where
  filed : r.Filed
  keyed : r.Keyed
  numerable : ∀ id ∈ Entries.keys r.stages, Numerable id

theorem Lasting.putCard (h : r.Lasting) {c : Card} (hc : c.Keyed) : (r.putCard c).Lasting :=
  ⟨filed_putCard h.filed c, h.keyed.putCard hc, h.numerable⟩

theorem Lasting.putStage (h : r.Lasting) {s : Stage} (hs : s.Keyed) (hid : Numerable s.id) :
    (r.putStage s).Lasting :=
  ⟨filed_putStage h.filed s, h.keyed.putStage hs, fun id hmem =>
    (Entries.mem_keys_put.1 hmem).elim (fun heq => heq ▸ hid) (h.numerable id)⟩

end Records

/-- What a snapshot is read as holds every key once. -/
theorem Snapshot.keyed_load {account : String} {f : Folder} {data : Entries String Value}
    (h : load account f = .ok (some data)) : (Value.object data).Keyed := by
  obtain ⟨found, hfound, h⟩ := ok_of_bind h
  cases found with
  | none => cases h
  | some v =>
    obtain ⟨es, hes, h⟩ := ok_of_bind h
    have hv : v.Keyed := by
      unfold valueOf at hfound
      split at hfound
      · cases hfound
      · cases hfound
      · split at hfound
        · cases hfound
        · split at hfound
          · rename_i hparse
            obtain rfl := Option.some.inj (Except.ok.inj hfound)
            exact Json.keyed_parse hparse
          all_goals cases hfound
    split at h
    · obtain rfl := Option.some.inj (Except.ok.inj h)
      refine hv.record ?_
      cases hrecord : v.record with
      | error e =>
        rw [hrecord] at hes
        cases hes
      | ok es' =>
        rw [hrecord] at hes
        exact congrArg _ (Except.ok.inj hes)
    · cases h

/-- Stages that were there when new ones were numbered are among those that one can number after. -/
theorem Repository.numerable_of_renumber {r q : Repository} (h : r.renumber = .ok q) {id : String}
    (hid : id ∈ r.stageIds) : Numerable id := by
  obtain ⟨numbers, hnumbers, -⟩ := ok_of_bind h
  obtain ⟨o, -, ho⟩ := mem_of_mapM hnumbers hid
  exact ⟨o, ho⟩

/-- Operations one after another succeed if the first does, and then the second. -/
theorem Operation.bind_ok_iff {σ α β : Type} {x : ExceptT Failure (StateM σ) α}
    {f : α → ExceptT Failure (StateM σ) β} {s u : σ} {b : β} :
    (x >>= f) s = (.ok b, u) ↔ ∃ a t, x s = (.ok a, t) ∧ f a t = (.ok b, u) := by
  rw [bind_apply]
  rcases x s with ⟨e | a, t⟩
  · exact ⟨nofun, fun ⟨_, _, h, _⟩ => nomatch h⟩
  · refine ⟨fun h => ⟨a, t, rfl, h⟩, fun ⟨a', t', ht, h⟩ => ?_⟩
    cases ht
    exact h

namespace Storage

variable {account : String} {r : Records} {s t : Storage} {f g : Folder} {now : Float}

/-! ## Accounts that were read -/

/-- A snapshot is taken over when new stages could be numbered after all that are in memory. -/
theorem takeOver_ok {data : Entries String Value} (h : takeOver account data s = (.ok (), t)) :
    ∃ (u : Storage) (q : Repository), u.repository.renumber = .ok q ∧
      t = { u with repository := q } := by
  unfold takeOver at h
  obtain ⟨stages, _, -, h⟩ := bind_ok_iff.1 h
  obtain ⟨_, _, -, h⟩ := bind_ok_iff.1 h
  obtain ⟨cards, _, -, h⟩ := bind_ok_iff.1 h
  obtain ⟨_, u, -, h⟩ := bind_ok_iff.1 h
  simp only [bind_apply, get_apply, lift_apply] at h
  cases hq : u.repository.renumber with
  | error e =>
    rw [hq] at h
    cases h
  | ok q =>
    rw [hq] at h
    exact ⟨u, q, hq, (congrArg Prod.snd h).symm⟩

/-- What is found by whoever reads a folder: records that can be stored again, and a number for a
new stage that none of them has. -/
theorem lasting_use (h : use account { folder := some f, stamp := now } = (.ok (), t)) :
    (t.records account).Lasting ∧
      (∀ n, toString n ∈ Entries.keys (t.records account).stages → n < t.repository.nextStage) ∧
      t.folder = some f ∧ t.stamp = now := by
  have hfresh := not_loaded_new f now account
  obtain ⟨hfolder, hstamp, hfiled⟩ : t.folder = some f ∧ t.stamp = now ∧
      (t.records account).Filed := by
    have ht : t = (use account { folder := some f, stamp := now }).2 := by rw [h]
    rw [ht]
    refine ⟨(framed_use account _).1, ?_, filed_use ?_⟩
    · exact keeps_use (P := fun t => t.stamp = now) (fun _ h => h) (fun _ _ h => h)
        (fun _ _ h => h) (fun _ _ h _ => h) rfl
    · exact ⟨List.nodup_nil, nofun, List.nodup_nil, nofun⟩
  have hempty : ({} : Records).Keyed := ⟨nofun, nofun⟩
  rw [use_of_fresh hfresh] at h
  dsimp only at h
  cases hload : Snapshot.load account f with
  | error e =>
    rw [hload] at h
    cases h
  | ok found =>
    rw [hload] at h
    cases found with
    | none =>
      obtain rfl : (marked account _ : Storage) = t := congrArg Prod.snd h
      exact ⟨⟨hfiled, hempty, nofun⟩, nofun, hfolder, hstamp⟩
    | some data =>
      have hsalvaged := records_takeOver account data
        (marked account { folder := some f, stamp := now })
      have hkeyed : (t.records account).Keyed := by
        have ht : t.records account = Records.salvage data {} := by
          dsimp only at h
          rw [h] at hsalvaged
          exact hsalvaged
        rw [ht]
        exact Records.keyed_salvage (Snapshot.keyed_load hload) hempty
      obtain ⟨u, q, hq, ht⟩ := takeOver_ok h
      have hids : ∀ id ∈ Entries.keys (t.records account).stages, id ∈ u.repository.stageIds := by
        intro id hid
        rw [ht, Repository.renumber_eq hq] at hid
        have hmem : id ∈ Entries.keys (u.repository.records account).stages := hid
        exact Repository.mem_stageIds hmem
      refine ⟨⟨hfiled, hkeyed, fun id hid => Repository.numerable_of_renumber hq (hids id hid)⟩,
        fun n hn => ?_, hfolder, hstamp⟩
      rw [ht]
      exact Repository.number_of_renumber hq (hids _ hn)

/-! ## Reading elsewhere -/

/-- Storage with another folder at another time. -/
def elsewhere (g : Folder) (now : Float) (s : Storage) : Storage :=
  { s with folder := some g, stamp := now }

theorem forM_elsewhere {α : Type} {op : α → Op PUnit}
    (hop : ∀ a s, op a (elsewhere g now s) = ((op a s).1, elsewhere g now (op a s).2)) (l : List α)
    (s : Storage) :
    (l.forM op) (elsewhere g now s) = (((l.forM op) s).1, elsewhere g now ((l.forM op) s).2) := by
  induction l generalizing s with
  | nil => rfl
  | cons a l ih =>
    have hcons : (a :: l).forM op = (do op a; l.forM op) := rfl
    rw [hcons, bind_apply, bind_apply, hop]
    rcases op a s with ⟨e | u, t⟩
    · rfl
    · exact ih t

theorem takeOver_elsewhere (account : String) (data : Entries String Value) (g : Folder)
    (now : Float) (s : Storage) : takeOver account data (elsewhere g now s) =
      ((takeOver account data s).1, elsewhere g now (takeOver account data s).2) := by
  have hstage (v : Value) (s : Storage) : takeStage account v (elsewhere g now s) =
      ((takeStage account v s).1, elsewhere g now (takeStage account v s).2) := by
    rw [takeStage_eq, takeStage_eq]
    cases Stage.ofValue v <;> rfl
  have hcard (v : Value) (s : Storage) : takeCard account v (elsewhere g now s) =
      ((takeCard account v s).1, elsewhere g now (takeCard account v s).2) := by
    rw [takeCard_eq, takeCard_eq]
    cases Card.ofValue v <;> rfl
  unfold takeOver
  simp only [bind_apply, lift_apply]
  cases Failure.ofReading (data.getD "stages" (.list [])).items with
  | error e => rfl
  | ok stages =>
    dsimp only
    rw [forM_elsewhere hstage]
    rcases (stages.forM (takeStage account)) s with ⟨e | u, t⟩
    · rfl
    · dsimp only
      cases Failure.ofReading (data.getD "cards" (.list [])).items with
      | error e => rfl
      | ok cards =>
        dsimp only
        rw [forM_elsewhere hcard]
        rcases (cards.forM (takeCard account)) t with ⟨e | u', t'⟩
        · rfl
        · simp only [get_apply]
          cases hq : t'.repository.renumber <;> simp [elsewhere, hq, Failure.ofReading, modify_apply]

/-- What is found depends on the snapshot, and neither on the rest of the folder nor on the time. -/
theorem use_elsewhere (hload : Snapshot.load account g = Snapshot.load account f)
    (h : use account { folder := some f, stamp := now } = (.ok (), t)) (now' : Float) :
    use account { folder := some g, stamp := now' } = (.ok (), t.elsewhere g now') := by
  rw [use_of_fresh (by simp)] at h ⊢
  dsimp only at h ⊢
  rw [hload]
  cases hfound : Snapshot.load account f with
  | error e =>
    rw [hfound] at h
    cases h
  | ok found =>
    rw [hfound] at h
    cases found with
    | none =>
      obtain rfl : (marked account _ : Storage) = t := congrArg Prod.snd h
      rfl
    | some data =>
      have htake := takeOver_elsewhere account data g now'
        (marked account { folder := some f, stamp := now })
      dsimp only at h
      rw [h] at htake
      exact htake

/-! ## What a folder holds -/

/-- Whoever reads the account in a folder, at whatever time, finds these records. -/
def Holds (account : String) (f : Folder) (r : Records) : Prop :=
  ∀ now, ∃ t, use account { folder := some f, stamp := now } = (.ok (), t) ∧ t.records account = r

theorem holds_of_use (hload : Snapshot.load account g = Snapshot.load account f)
    (h : use account { folder := some f, stamp := now } = (.ok (), t)) :
    Holds account g (t.records account) :=
  fun now' => ⟨t.elsewhere g now', use_elsewhere hload h now', rfl⟩

/-- What is stored in a folder it holds. -/
theorem Became.holds (h : use account { folder := some f, stamp := now } = (.ok (), s))
    (hb : Became account r s t) (hr : r.Lasting) (hpresent : f.present = true) :
    ∃ g, t.folder = some g ∧ g.present = true ∧ Holds account g r := by
  obtain ⟨-, -, hfolder, -⟩ := lasting_use h
  have hfiles : s.files = some f.contents := by rw [files, hfolder, Option.map_some]
  rcases hb with ⟨hu, rfl⟩ | hw
  · obtain ⟨g, hg, hcontents⟩ := Option.map_eq_some_iff.1 (hu.files.trans hfiles)
    refine ⟨g, hg, (congrArg Folder.present hcontents).trans hpresent, holds_of_use ?_ h⟩
    -- the writes to come do not matter for what is in the folder
    have hsame (k : Folder) : Snapshot.load account k.contents = Snapshot.load account k := rfl
    rw [← hsame g, hcontents, hsame]
  · obtain ⟨g, hg, hcontents⟩ := Option.map_eq_some_iff.1
      (hw.files.trans (congrArg (Option.map _) hfiles))
    refine ⟨g, hg, (congrArg Folder.present hcontents).trans hpresent, fun now' => ?_⟩
    refine use_of_bytes hr.filed hr.keyed hr.numerable (hw.legible (by rw [hfiles]; rfl)) ?_ now'
    have hget := congrArg (Folder.get? (Snapshot.fileName account)) hcontents
    refine hget.trans ?_
    simp [Folder.hold, Folder.get?, Folder.contents, hpresent]

end Storage

end Kanban
