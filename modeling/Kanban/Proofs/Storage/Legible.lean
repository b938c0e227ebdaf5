import Kanban.Proofs.Storage.Loading

/-!
# Kanban.Proofs.Storage.Legible — what the files of a folder may hold

A snapshot that is no JSON counts as missing, and so does one of another version. Not everything
that may be in a file is one of these: bytes may be no text at all, JSON may be no record, and
there are numerals too long and values nested too deeply to be read. Such a file is illegible. It
is a failure to whoever loads it, and it is one to whoever asks for the accounts of the folder,
however legible all other files are.

* `recordOf` — what loading and listing have in common; `recordOf_ok_iff` — when it goes well.
* `Loads`, `Lists` — what is promised of a folder.
* `loads_iff`, `lists_iff` — it is kept exactly for legible files.
-/

namespace Kanban

/-- Bytes that a snapshot can be read from: text that is no JSON, or that is a record. -/
def Snapshot.Legible (bytes : List UInt8) : Prop :=
  ∃ s, String.fromUTF8? (ByteArray.mk bytes.toArray) = some s ∧
    (Json.parse s = .error .malformed ∨ ∃ r, Json.parse s = .ok (.object r))

/-- A name in a folder under which there is no file, or a legible one. -/
def Folder.Legible (name : String) (f : Folder) : Prop :=
  ∀ bytes, f.get? name = some (.file bytes) → Snapshot.Legible bytes

theorem Folder.mem_names {f : Folder} {name : String} (h : (f.get? name).isSome) :
    name ∈ f.names := by
  unfold get? at h
  unfold names
  split at h
  · rename_i hp
    obtain ⟨slot, hslot⟩ := Option.isSome_iff_exists.1 h
    rw [if_pos hp, List.mem_mergeSort]
    exact Entries.mem_keys_of_get? hslot
  · cases h

namespace Snapshot

variable {account : String} {f : Folder}

theorem isSnapshot_fileName (account : String) : isSnapshot (fileName account) = true := by
  unfold isSnapshot fileName
  rw [List.isSuffixOf_iff_suffix, String.toList_append]
  exact List.suffix_append _ _

/-! ## Reading one file -/

/-- The record in a file; none if there is no file or the file is no JSON. -/
def recordOf (slot : Option Slot) : Except Failure (Option (Entries String Value)) :=
  match valueOf slot with
  | .error e => .error e
  | .ok none => .ok none
  | .ok (some (.object r)) => .ok (some r)
  | .ok (some _) => .error (.unreadable .notRecord)

/-- Bytes fail in three ways: they are no text, their text is refused by the reader for another
reason than being no JSON, or its value is no record. -/
theorem recordOf_file (bytes : List UInt8) : (∃ found, recordOf (some (.file bytes)) = .ok found) ↔
    Legible bytes := by
  simp only [recordOf, valueOf, Legible]
  cases String.fromUTF8? (ByteArray.mk bytes.toArray) with
  | none => simp
  | some s =>
    cases hs : Json.parse s with
    | error p => cases p <;> simp [hs]
    | ok v => cases v <;> simp [hs]

/-- A record is found in a file, or none, exactly if the file is legible. -/
theorem recordOf_ok_iff (name : String) (f : Folder) :
    (∃ found, recordOf (f.get? name) = .ok found) ↔ f.Legible name := by
  unfold Folder.Legible
  cases f.get? name with
  | none => exact ⟨fun _ _ h => (by cases h), fun _ => ⟨none, rfl⟩⟩
  | some slot =>
    cases slot with
    | folder => exact ⟨fun _ _ h => (by cases h), fun _ => ⟨none, rfl⟩⟩
    | file bytes =>
      rw [recordOf_file]
      refine ⟨fun h bytes' h' => ?_, fun h => h bytes rfl⟩
      obtain rfl := Slot.file.inj (Option.some.inj h')
      exact h

/-- Loading looks at the version of the record. -/
theorem load_eq (account : String) (f : Folder) :
    load account f = (recordOf (f.get? (fileName account))).map
      fun found => found.filter fun r => isCurrent (r.getD "version" .null) := by
  unfold load recordOf
  cases valueOf (f.get? (fileName account)) with
  | error e => rfl
  | ok found =>
    cases found with
    | none => rfl
    | some v => cases v <;> rfl

/-- Listing looks at the account in the record. -/
theorem accountIn_eq (f : Folder) (name : String) :
    accountIn f name = (recordOf (f.get? name)).map
      fun found => found.map fun r => r.getD "account_id" (.text (stemOf name)) := by
  unfold accountIn recordOf
  cases valueOf (f.get? name) with
  | error e => rfl
  | ok found =>
    cases found with
    | none => rfl
    | some v => cases v <;> rfl

/-! ## What is promised -/

/-- An account's snapshot is read: there is none, or there is one of the current version. -/
def Loads (account : String) (f : Folder) : Prop :=
  load account f = .ok none ∨
    ∃ r, load account f = .ok (some r) ∧ isCurrent (r.getD "version" .null) = true

/-- The file of an account is a snapshot that names the account. -/
def Keeps (account : String) (f : Folder) : Prop :=
  ∃ r, load account f = .ok (some r) ∧ Entries.get? "account_id" r = some (.text account)

/-- The accounts of a folder are listed, all those among them that have a snapshot. -/
def Lists (f : Folder) : Prop :=
  ∃ l, accounts f = .ok l ∧ ∀ account, Keeps account f → .text account ∈ l

theorem loads_iff (account : String) (f : Folder) :
    Loads account f ↔ f.Legible (fileName account) := by
  rw [← recordOf_ok_iff]
  unfold Loads
  rw [load_eq]
  cases recordOf (f.get? (fileName account)) with
  | error e => simp [Except.map]
  | ok found =>
    refine ⟨fun _ => ⟨found, rfl⟩, fun _ => ?_⟩
    cases hv : found.filter fun r => isCurrent (r.getD "version" .null) with
    | none => exact .inl (congrArg Except.ok hv)
    | some r => exact .inr ⟨r, congrArg Except.ok hv, (Option.filter_eq_some_iff.1 hv).2⟩

/-- The account that a kept file names is found in it. -/
theorem accountIn_of_keeps (h : Keeps account f) :
    accountIn f (fileName account) = .ok (some (.text account)) := by
  obtain ⟨r, hload, hid⟩ := h
  rw [load_eq] at hload
  rw [accountIn_eq]
  cases hr : recordOf (f.get? (fileName account)) with
  | error e =>
    rw [hr] at hload
    cases hload
  | ok found =>
    rw [hr] at hload
    obtain ⟨rfl, -⟩ := Option.filter_eq_some_iff.1 (Except.ok.inj hload)
    -- the name in the file counts, and it is the account's
    have hnamed : r.getD "account_id" (.text (stemOf (fileName account))) = .text account := by
      rw [Entries.getD, hid, Option.getD_some]
    exact congrArg (fun v => Except.ok (some v)) hnamed

theorem accountIn_ok_iff (name : String) (f : Folder) :
    (∃ found, accountIn f name = .ok found) ↔ f.Legible name := by
  rw [← recordOf_ok_iff, accountIn_eq]
  cases recordOf (f.get? name) with
  | error e => simp [Except.map]
  | ok found => simp [Except.map]

theorem accounts_eq (f : Folder) :
    accounts f = ((f.names.filter isSnapshot).mapM (accountIn f)).map (·.filterMap id) := by
  unfold accounts
  cases (f.names.filter isSnapshot).mapM (accountIn f) <;> rfl

/-- One illegible file keeps all accounts from being listed. -/
theorem lists_iff (f : Folder) :
    Lists f ↔ ∀ name, isSnapshot name = true → f.Legible name := by
  have hmem {name : String} {slot : Slot} (hname : isSnapshot name = true)
      (h : f.get? name = some slot) : name ∈ f.names.filter isSnapshot :=
    List.mem_filter.2 ⟨Folder.mem_names (Option.isSome_of_eq_some h), hname⟩
  unfold Lists
  rw [accounts_eq]
  constructor
  · rintro ⟨l, hl, -⟩ name hname bytes hfile
    cases hfound : (f.names.filter isSnapshot).mapM (accountIn f) with
    | error e =>
      rw [hfound] at hl
      cases hl
    | ok found =>
      obtain ⟨o, -, ho⟩ := Repository.mem_of_mapM hfound (hmem hname hfile)
      exact (accountIn_ok_iff name f).1 ⟨o, ho⟩ bytes hfile
  · intro h
    obtain ⟨found, hfound⟩ := Repository.exists_mapM (f := accountIn f)
      (l := f.names.filter isSnapshot) fun name hname =>
        (accountIn_ok_iff name f).2 (h name (List.mem_filter.1 hname).2)
    rw [hfound]
    refine ⟨_, rfl, fun account hk => ?_⟩
    have hin := accountIn_of_keeps hk
    -- a file that names its account is there, and so it is among those that were read
    obtain ⟨slot, hslot⟩ : ∃ slot, f.get? (fileName account) = some slot := by
      cases hget : f.get? (fileName account) with
      | none =>
        rw [accountIn_eq, hget] at hin
        cases hin
      | some slot => exact ⟨slot, rfl⟩
    obtain ⟨o, ho, hoin⟩ :=
      Repository.mem_of_mapM hfound (hmem (isSnapshot_fileName account) hslot)
    rw [hin] at hoin
    obtain rfl := Except.ok.inj hoin
    exact List.mem_filterMap.2 ⟨_, ho, rfl⟩

/-- An account's snapshot is read exactly if its file is legible. The accounts of a folder are
listed exactly if all snapshot files are. -/
theorem read_iff_legible (f : Folder) :
    (∀ account, Loads account f ↔ f.Legible (fileName account)) ∧
      (Lists f ↔ ∀ name, isSnapshot name = true → f.Legible name) :=
  ⟨fun account => loads_iff account f, lists_iff f⟩

/-- A folder with a snapshot of one account, and a byte that is no text in the file of another. -/
def spoilt : Folder where
  slots := [(fileName "acme", .file [0xff]),
    (fileName "globex", .file (Storage.bytesOf "globex" 0.0 {}))]

theorem unread_spoilt : ¬ Loads "acme" spoilt ∧ Keeps "globex" spoilt ∧ ¬ Lists spoilt := by
  have hacme : spoilt.get? (fileName "acme") = some (.file [0xff]) := by
    simp [Folder.get?, spoilt, Entries.get?]
  have hbad : ¬ spoilt.Legible (fileName "acme") := by
    intro h
    obtain ⟨s, hs, -⟩ := h _ hacme
    have hnone : String.fromUTF8? (ByteArray.mk [0xff].toArray) = none := by decide
    rw [hnone] at hs
    cases hs
  -- two accounts have two files
  have hne : fileName "acme" ≠ fileName "globex" := by decide +kernel
  have hglobex : spoilt.get? (fileName "globex") =
      some (.file (Storage.bytesOf "globex" 0.0 {})) := by
    simp [Folder.get?, spoilt, Entries.get?, hne]
  have hkeyed : ({} : Records).Keyed :=
    ⟨fun s hs => absurd hs List.not_mem_nil, fun c hc => absurd hc List.not_mem_nil⟩
  refine ⟨fun h => hbad ((loads_iff _ _).1 h), ?_, fun h => ?_⟩
  · exact ⟨entriesOf "globex" 0.0 {}, load_of_bytes hkeyed rfl hglobex, rfl⟩
  · exact hbad ((lists_iff _).1 h _ (isSnapshot_fileName _))

end Snapshot

end Kanban
