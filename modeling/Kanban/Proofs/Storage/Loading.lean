import Kanban.Proofs.Json.Values
import Kanban.Proofs.Storage.Using

/-!
# Kanban.Proofs.Storage.Loading — a snapshot gives back the records

What an account's snapshot was written from is what a repository takes over that reads it: every card
and every stage with all its fields, in the order in which they are stored.

* `Stage.ofValue_toValue`, `Card.ofValue_toValue` — records are read back from their values.
* `Snapshot.load_of_bytes` — a snapshot is read back from the bytes of its file.
* `Storage.use_of_bytes` — a repository that has read nothing yet takes over the records.
-/

namespace Kanban

/-! ## Cards and stages -/

theorem Stage.ofValue_toValue (s : Stage) : Stage.ofValue s.toValue = .ok s := by
  obtain ⟨id, board, key, name, position, active, color, icon⟩ := s
  -- a position of zero counts as left out, and then it is zero
  cases position with
  | ofNat n => cases n <;> rfl
  | negSucc n => rfl

theorem Card.ofValue_toValue (c : Card) : Card.ofValue c.toValue = .ok c := by
  obtain ⟨id, board, stage, position, unread, attributes⟩ := c
  -- a count of zero counts as left out, and so do attributes if there are none
  cases attributes with
  | nil =>
    cases unread with
    | ofNat n => cases n <;> rfl
    | negSucc n => rfl
  | cons e es =>
    cases unread with
    | ofNat n => cases n <;> rfl
    | negSucc n => rfl

/-- The values of a stage hold every key once. -/
structure Stage.Keyed (s : Stage) : Prop where
  board : s.board.Keyed
  key : s.key.Keyed
  name : s.name.Keyed
  color : s.color.Keyed
  icon : s.icon.Keyed

/-- The values of a card hold every key once. -/
structure Card.Keyed (c : Card) : Prop where
  board : c.board.Keyed
  stage : c.stage.Keyed
  attributes : (Value.object c.attributes).Keyed

theorem Stage.Keyed.toValue {s : Stage} (h : s.Keyed) : s.toValue.Keyed :=
  ⟨by simp, trivial, h.board, h.key, h.name, trivial, trivial, h.color, h.icon, trivial⟩

theorem Card.Keyed.toValue {c : Card} (h : c.Keyed) : c.toValue.Keyed :=
  ⟨by simp, trivial, h.board, h.stage, trivial, trivial, h.attributes, trivial⟩

/-- The values of all records hold every key once. -/
structure Records.Keyed (r : Records) : Prop where
  stages : ∀ s ∈ Entries.values r.stages, s.Keyed
  cards : ∀ c ∈ Entries.values r.cards, c.Keyed

theorem Value.keyedItems_map {α : Type} {f : α → Value} {l : List α} (h : ∀ a ∈ l, (f a).Keyed) :
    Value.KeyedItems (l.map f) := by
  induction l with
  | nil => trivial
  | cons a l ih =>
    exact ⟨h a List.mem_cons_self, ih fun b hb => h b (List.mem_cons_of_mem _ hb)⟩

/-! ## Files -/

theorem toList_bytes_loop (b : ByteArray) (i : Nat) (l : List UInt8) :
    ByteArray.toList.loop b i l = l.reverse ++ b.data.toList.drop i := by
  induction i, l using ByteArray.toList.loop.induct b with
  | case1 i l hlt ih =>
    have hi : i < b.data.toList.length := by simpa using hlt
    have hget : b.get! i = b.data.toList[i] := by
      rw [Array.getElem_toList]
      exact getElem!_pos b.data i (by simpa using hlt)
    rw [ByteArray.toList.loop, if_pos hlt, ih, List.drop_eq_getElem_cons hi, hget]
    simp
  | case2 i l hge =>
    have hle : b.data.toList.length ≤ i := by simpa using hge
    rw [ByteArray.toList.loop, if_neg hge, List.drop_eq_nil_of_le hle, List.append_nil]

/-- Bytes are kept in a list. -/
theorem mk_toList (b : ByteArray) : ByteArray.mk b.toList.toArray = b := by
  rw [ByteArray.toList, toList_bytes_loop]
  rfl

namespace Snapshot

variable {account : String} {stamp : Float} {v : Value} {r : Records}

/-- The bytes of a text are read as the value that the text was written for. -/
theorem valueOf_pretty (hk : v.Keyed) (hp : Json.problem? Json.maxWritten v = none) :
    valueOf (some (.file (Json.pretty v).toUTF8.toList)) = .ok (some v) := by
  have hdecode : String.fromUTF8? (Json.pretty v).toUTF8 = some (Json.pretty v) :=
    dif_pos (Json.pretty v).isValidUTF8
  simp only [valueOf, mk_toList, hdecode, Json.parse_pretty hk hp]

/-- The entries of a snapshot. -/
def entriesOf (account : String) (stamp : Float) (r : Records) : Entries String Value :=
  [("version", .whole version), ("account_id", .text account), ("saved_at", .real stamp),
    ("stages", .list ((Entries.values r.stages).map Stage.toValue)),
    ("cards", .list ((Entries.values r.cards).map Card.toValue))]

theorem documentOf_eq (account : String) (stamp : Float) (r : Records) :
    Storage.documentOf account stamp r = .object (entriesOf account stamp r) := rfl

theorem keyed_documentOf (account : String) (stamp : Float) (h : r.Keyed) :
    (Storage.documentOf account stamp r).Keyed := by
  rw [documentOf_eq]
  have hstages := Value.keyedItems_map fun s hs => (h.stages s hs).toValue
  have hcards := Value.keyedItems_map fun c hc => (h.cards c hc).toValue
  exact ⟨by simp [entriesOf], trivial, trivial, trivial, hstages, hcards, trivial⟩

/-- A snapshot is read back from the bytes of a file, of whatever account it is. -/
theorem load_of_bytes {f : Folder} {other : String} (hk : r.Keyed)
    (hp : Json.problem? Json.maxWritten (Storage.documentOf account stamp r) = none)
    (hf : f.get? (fileName other) = some (.file (Storage.bytesOf account stamp r))) :
    load other f = .ok (some (entriesOf account stamp r)) := by
  have hvalue := valueOf_pretty (keyed_documentOf account stamp hk) hp
  rw [documentOf_eq] at hvalue
  unfold load
  rw [hf]
  unfold Storage.bytesOf
  rw [documentOf_eq, hvalue]
  rfl

end Snapshot

/-! ## Taking over -/

/-- A stage id that is a number which can be read. -/
def Readable (id : String) : Prop :=
  ∃ n : Nat, id = toString n ∧ id.length ≤ Decimal.Numeral.maxDigits

/-- A stage id that new stages can be numbered after: it is no number, or one that can be read. -/
def Numerable (id : String) : Prop := ∃ o, Repository.stageNumber id = .ok o

theorem Readable.numerable {id : String} (h : Readable id) : Numerable id := by
  obtain ⟨n, rfl, hn⟩ := h
  exact ⟨some n, by rw [Repository.stageNumber_toString, if_neg (Nat.not_lt.2 hn)]⟩

namespace Repository

variable {r : Repository}

/-- What succeeds for each member of a list succeeds for the list. -/
theorem exists_mapM {ε α β : Type} {f : α → Except ε β} {l : List α}
    (h : ∀ a ∈ l, ∃ b, f a = .ok b) : ∃ bs, l.mapM f = .ok bs := by
  induction l with
  | nil => exact ⟨[], rfl⟩
  | cons a l ih =>
    obtain ⟨b, hb⟩ := h a List.mem_cons_self
    obtain ⟨bs, hbs⟩ := ih fun a' ha' => h a' (List.mem_cons_of_mem _ ha')
    rw [List.mapM_cons, hb, hbs]
    exact ⟨b :: bs, rfl⟩

/-- New stages can be numbered if they can be numbered after each of the stages. -/
theorem exists_renumber (h : ∀ id ∈ r.stageIds, Numerable id) : ∃ r', r.renumber = .ok r' := by
  obtain ⟨numbers, hnumbers⟩ := exists_mapM h
  unfold renumber
  rw [hnumbers]
  exact ⟨_, rfl⟩

end Repository

namespace Storage

open Operation

variable {account : String} {s t : Storage} {α : Type} {put : α → Records → Records}

/-- The storage with some records of an account put in memory one by one. -/
def stored (account : String) (put : α → Records → Records) (l : List α) (s : Storage) : Storage :=
  l.foldl (fun s a => s.withRecords account (put a (s.records account))) s

theorem records_stored (l : List α) (s : Storage) :
    (s.stored account put l).records account = l.foldl (fun r a => put a r) (s.records account) := by
  induction l generalizing s with
  | nil => rfl
  | cons a l ih =>
    have hone := records_withRecords_self account (put a (s.records account)) s
    rw [List.foldl_cons, ← hone]
    exact ih _

/-- What is kept while records are put in memory. -/
theorem keeps_stored {P : Storage → Prop} {l : List α}
    (hput : ∀ a ∈ l, ∀ t, P t → P (t.withRecords account (put a (t.records account)))) (hs : P s) :
    P (s.stored account put l) := by
  induction l generalizing s with
  | nil => exact hs
  | cons a l ih =>
    exact ih (fun a' ha' => hput a' (List.mem_cons_of_mem _ ha')) (hput a List.mem_cons_self s hs)

/-- Values that are read back are put in memory one by one. -/
theorem forM_stored {f : Value → Op Unit} {g : α → Value}
    (hf : ∀ a t, f (g a) t = (.ok (), t.withRecords account (put a (t.records account))))
    (l : List α) (s : Storage) : ((l.map g).forM f) s = (.ok (), s.stored account put l) := by
  induction l generalizing s with
  | nil => rfl
  | cons a l ih =>
    have hcons : ((a :: l).map g).forM f = (do f (g a); (l.map g).forM f) := rfl
    rw [hcons, bind_apply, hf]
    exact ih _

theorem takeStage_toValue (x : Stage) (s : Storage) : takeStage account x.toValue s =
    (.ok (), s.withRecords account ((s.records account).putStage x)) := by
  unfold takeStage
  rw [Stage.ofValue_toValue, bind_apply, lift_apply]
  rfl

theorem takeCard_toValue (c : Card) (s : Storage) : takeCard account c.toValue s =
    (.ok (), s.withRecords account ((s.records account).putCard c)) := by
  unfold takeCard
  rw [Card.ofValue_toValue, bind_apply, lift_apply]
  rfl

/-- Stage ids that are in memory after records were put there. -/
theorem mem_stageIds_withRecords {r : Records} {id : String}
    (h : id ∈ (s.withRecords account r).repository.stageIds) :
    id ∈ s.repository.stageIds ∨ id ∈ Entries.keys r.stages := by
  obtain ⟨r', hr', hid⟩ := List.mem_flatMap.1 h
  rcases Entries.mem_values_of_put hr' with hmem | rfl
  · exact .inl (List.mem_flatMap.2 ⟨r', hmem, hid⟩)
  · exact .inr hid

variable {r : Records} {stamp : Float} {f : Folder}

/-- Records that are filed are put one after the other where they were. -/
theorem foldl_put_values {m : Entries String α} {id : α → String} (hm : (Entries.keys m).Nodup)
    (hid : ∀ e ∈ m, id e.2 = e.1) :
    (Entries.values m).foldl (fun m a => Entries.put (id a) a m) [] = m := by
  have hsame : (Entries.values m).map (fun a => (id a, a)) = m := by
    unfold Entries.values
    rw [List.map_map]
    refine (List.map_congr_left fun e he => ?_).trans (List.map_id _)
    exact Prod.ext (hid e he) rfl
  have hlist := Entries.ofList_of_nodup hm
  unfold Entries.ofList at hlist
  rwa [← hsame, List.foldl_map, hsame] at hlist

theorem foldl_putStage (l : List Stage) (r : Records) :
    l.foldl (fun (r : Records) x => r.putStage x) r =
      { r with stages := l.foldl (fun m x => Entries.put x.id x m) r.stages } := by
  induction l generalizing r with
  | nil => rfl
  | cons x l ih => exact ih _

theorem foldl_putCard (l : List Card) (r : Records) :
    l.foldl (fun (r : Records) c => r.putCard c) r =
      { r with cards := l.foldl (fun m c => Entries.put c.id c m) r.cards } := by
  induction l generalizing r with
  | nil => rfl
  | cons c l ih => exact ih _

/-- A storage over a folder that nobody has used has read no account. -/
theorem not_loaded_new (f : Folder) (now : Float) (account : String) :
    ¬ (({ folder := some f, stamp := now } : Storage).repository.loaded.contains account : Prop) := by
  simp

/-- A repository that has read nothing yet takes over the records of a snapshot. -/
theorem use_of_bytes (hf : r.Filed) (hk : r.Keyed)
    (hn : ∀ id ∈ Entries.keys r.stages, Numerable id)
    (hp : Json.problem? Json.maxWritten (documentOf account stamp r) = none)
    (hfile : f.get? (Snapshot.fileName account) = some (.file (bytesOf account stamp r)))
    (now : Float) :
    ∃ t, use account { folder := some f, stamp := now } = (.ok (), t) ∧ t.records account = r := by
  have hload := Snapshot.load_of_bytes hk hp hfile
  have hfresh := not_loaded_new f now account
  generalize hs₀ : ({ folder := some f, stamp := now } : Storage).marked account = s₀
  have hempty : s₀.records account = {} := by
    rw [← hs₀]
    rfl
  generalize hs₁ : s₀.stored account Records.putStage (Entries.values r.stages) = s₁
  generalize hs₂ : s₁.stored account Records.putCard (Entries.values r.cards) = s₂
  have hr₁ : s₁.records account = { stages := r.stages } := by
    rw [← hs₁, records_stored, hempty, foldl_putStage, foldl_put_values hf.stages hf.stageIds]
  have hr₂ : s₂.records account = r := by
    rw [← hs₂, records_stored, hr₁, foldl_putCard, foldl_put_values hf.cards hf.cardIds]
  -- all stages in memory are those of the snapshot, and can be numbered
  have hids : ∀ id ∈ s₂.repository.stageIds, Numerable id := by
    have hstep (t : Storage) (r' : Records) (ht : ∀ id ∈ t.repository.stageIds, Numerable id)
        (hr' : ∀ id ∈ Entries.keys r'.stages, Numerable id) :
        ∀ id ∈ (t.withRecords account r').repository.stageIds, Numerable id := fun id hid =>
      (mem_stageIds_withRecords hid).elim (ht id) (hr' id)
    have hkeys (t : Storage) (ht : ∀ id ∈ t.repository.stageIds, Numerable id) :
        ∀ id ∈ Entries.keys (t.records account).stages, Numerable id := fun id hid =>
      ht id (Repository.mem_stageIds hid)
    rw [← hs₂]
    refine keeps_stored (P := fun t => ∀ id ∈ t.repository.stageIds, Numerable id)
      (fun c _ t ht => hstep t _ ht (hkeys t ht)) ?_
    rw [← hs₁]
    refine keeps_stored (P := fun t => ∀ id ∈ t.repository.stageIds, Numerable id)
      (fun x hx t ht => hstep t _ ht fun id hid => ?_) ?_
    · rcases Entries.mem_keys_put.1 hid with rfl | hid
      · obtain ⟨e, he, rfl⟩ := List.mem_map.1 hx
        rw [hf.stageIds e he]
        exact hn _ (Entries.mem_keys_of_mem he)
      · exact hkeys t ht id hid
    · rw [← hs₀]
      intro id hid
      cases hid
  obtain ⟨q, hq⟩ := Repository.exists_renumber hids
  refine ⟨{ s₂ with repository := q }, ?_, ?_⟩
  · rw [use_of_fresh hfresh]
    dsimp only
    rw [hload, hs₀]
    dsimp only
    have hstages : (Snapshot.entriesOf account stamp r).getD "stages" (.list []) =
        .list ((Entries.values r.stages).map Stage.toValue) := rfl
    have hcards : (Snapshot.entriesOf account stamp r).getD "cards" (.list []) =
        .list ((Entries.values r.cards).map Card.toValue) := rfl
    unfold takeOver
    rw [hstages, hcards]
    simp only [Value.items, Failure.ofReading, bind_apply, lift_apply,
      forM_stored takeStage_toValue, forM_stored takeCard_toValue, hs₁, hs₂, get_apply, hq,
      modify_apply]
  · rw [Repository.renumber_eq hq]
    exact hr₂

/-- A repository takes over nothing from a folder without a snapshot of the account. -/
theorem use_of_missing (hfile : f.get? (Snapshot.fileName account) = none) (now : Float) :
    use account { folder := some f, stamp := now } =
      (.ok (), ({ folder := some f, stamp := now } : Storage).marked account) := by
  have hfresh := not_loaded_new f now account
  have hload : Snapshot.load account f = .ok none := by
    unfold Snapshot.load
    rw [hfile]
    rfl
  rw [use_of_fresh hfresh]
  dsimp only
  rw [hload]

end Storage

end Kanban
