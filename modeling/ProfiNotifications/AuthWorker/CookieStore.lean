import ProfiNotifications.AuthWorker.BrowserJson

/-! # The cookie store

Loading reads the cookie file and builds the jar. Saving replaces the cookie file: the
export is written to a temporary file, which is renamed over the cookie file as the last
step that can fail. A save that fails leaves the cookie file as it was.
-/

namespace ProfiNotifications.AuthWorker

variable {Bytes : Type}

inductive FileState (Bytes : Type) where
  | missing
  | unreadable (cause : String)
  | holds (data : Bytes)

structure StorePaths where
  path : String
  directory : String
  temporary : String

structure Directory (Bytes : Type) where
  file : FileState Bytes
  temporary : Option Bytes

/-- The text layer of JSON over file contents: blank contents, reading and writing of a value,
and the texts of its errors. An export that was written is read back. -/
structure JsonText (Bytes : Type) extends Exporter where
  blank : Bytes → Bool
  parse : Bytes → Option Json
  syntaxError : Bytes → String
  typeError : Json → String
  encode : Json → Bytes
  blank_encode : ∀ j url, blank (encode (toExporter.exportFrom j url).toJson) = false
  parse_encode : ∀ j url, parse (encode (toExporter.exportFrom j url).toJson) =
    some (toExporter.exportFrom j url).toJson

/-- The call of a write that fails, with its error. A write to the temporary file may have
stored something else than the data. -/
inductive WriteFault (Bytes : Type) where
  | mkdirAll (cause : String)
  | encode (cause : String)
  | openFile (cause : String)
  | write (cause : String) (torn : Bytes)
  | sync (cause : String)
  | close (cause : String)
  | rename (cause : String)

/-- How a write goes: the call that fails, if one does, and whether the temporary file can be
removed afterwards. -/
structure WriteOutcome (Bytes : Type) where
  fault : Option (WriteFault Bytes)
  removes : Bool

def writeSyncedFile (path : String) (fault : Option (WriteFault Bytes)) (data : Bytes)
    (dir : Directory Bytes) : Except AuthError Unit × Directory Bytes :=
  match fault with
  | some (.openFile cause) => (.error (.wrapped "open temp file" path cause), dir)
  | some (.write cause torn) =>
    (.error (.wrapped "write temp file" path cause), { dir with temporary := some torn })
  | some (.sync cause) =>
    (.error (.wrapped "sync temp file" path cause), { dir with temporary := some data })
  | some (.close cause) =>
    (.error (.wrapped "close temp file" path cause), { dir with temporary := some data })
  | _ => (.ok (), { dir with temporary := some data })

/-- The deferred removal of the temporary file. -/
def WriteOutcome.remove (outcome : WriteOutcome Bytes) (dir : Directory Bytes) :
    Directory Bytes :=
  if outcome.removes then { dir with temporary := none } else dir

def write (paths : StorePaths) (outcome : WriteOutcome Bytes) (data : Bytes)
    (dir : Directory Bytes) : Except AuthError Unit × Directory Bytes :=
  match outcome.fault with
  | some (.mkdirAll cause) => (.error (.wrapped "create directory" paths.directory cause), dir)
  | some (.encode cause) => (.error (.wrapped "encode json for" paths.path cause), dir)
  | fault =>
    match writeSyncedFile paths.temporary fault data dir with
    | (.error e, dir) => (.error e, outcome.remove dir)
    | (.ok (), dir) =>
      match fault with
      | some (.rename cause) =>
        (.error (.wrapped "replace" paths.path cause), outcome.remove dir)
      | _ => (.ok (), outcome.remove ⟨.holds data, none⟩)

@[simp] theorem WriteOutcome.file_remove (outcome : WriteOutcome Bytes) (dir : Directory Bytes) :
    (outcome.remove dir).file = dir.file := by
  unfold remove; split <;> rfl

@[simp] theorem file_writeSyncedFile (path : String) (fault : Option (WriteFault Bytes))
    (data : Bytes) (dir : Directory Bytes) :
    (writeSyncedFile path fault data dir).2.file = dir.file := by
  unfold writeSyncedFile; split <;> rfl

/-- A write replaces the file as a whole, or fails and leaves it as it was. -/
theorem write_cases (paths : StorePaths) (outcome : WriteOutcome Bytes) (data : Bytes)
    (dir : Directory Bytes) :
    ((write paths outcome data dir).1 = .ok () ∧
        (write paths outcome data dir).2.file = .holds data) ∨
      (∃ e, (write paths outcome data dir).1 = .error e) ∧
        (write paths outcome data dir).2.file = dir.file := by
  unfold write
  split
  · exact Or.inr ⟨⟨_, rfl⟩, rfl⟩
  · exact Or.inr ⟨⟨_, rfl⟩, rfl⟩
  · rename_i fault _ _
    have hf := file_writeSyncedFile paths.temporary outcome.fault data dir
    split
    · rename_i e dir' he
      rw [he] at hf
      exact Or.inr ⟨⟨e, rfl⟩, by rw [WriteOutcome.file_remove, hf]⟩
    · rename_i dir' he
      rw [he] at hf
      split
      · exact Or.inr ⟨⟨_, rfl⟩, by rw [WriteOutcome.file_remove, hf]⟩
      · exact Or.inl ⟨rfl, by rw [WriteOutcome.file_remove]⟩

structure Store (Bytes : Type) where
  paths : StorePaths
  text : JsonText Bytes

namespace Store

variable (store : Store Bytes)

def invalidJSON (cause : String) : AuthError :=
  .cookieFile ("invalid JSON in cookie file: " ++ cause)

def cookies : Json → Option (List BrowserCookie) :=
  Unmarshal.slice (Unmarshal.struct BrowserCookie.read)

def parseCookieArray (j : Json) : Except AuthError BrowserExport :=
  match cookies j with
  | none => .error (invalidJSON (store.text.typeError j))
  | some cookies => .ok ⟨defaultURL, cookies⟩

open Unmarshal in
/-- The fields of an object that holds an export; the cookies are not decoded yet. -/
def readRaw (ms : List (String × Json)) : Option (String × Option Json) := do
  let url ← field ms "url" "" string
  let cookies ← field ms "cookies" none rawMessage
  return (url, cookies)

def parseCookieObject (j : Json) : Except AuthError BrowserExport :=
  match Unmarshal.struct readRaw j with
  | none => .error (invalidJSON (store.text.typeError j))
  | some (_, none) => .error (.cookieFile "cookie file has no \"cookies\" array")
  | some (url, some raw) =>
    match cookies raw with
    | none => .error (.cookieFile "\"cookies\" must be an array")
    | some cookies => .ok ⟨orDefault url defaultURL, cookies⟩

/-- A list starts with a bracket; every other value is read as an object. -/
def parseExport (data : Bytes) : Except AuthError BrowserExport :=
  if store.text.blank data then .error (.cookieFile "cookie file is empty")
  else
    match store.text.parse data with
    | none => .error (invalidJSON (store.text.syntaxError data))
    | some (.arr items) => store.parseCookieArray (.arr items)
    | some j => store.parseCookieObject j

def readFile : FileState Bytes → Except AuthError Bytes
  | .missing => .error (.cookieFile ("cookie file not found: " ++ store.paths.path))
  | .unreadable cause => .error (.cookieFile ("could not read cookie file: " ++ cause))
  | .holds data => .ok data

def load (file : FileState Bytes) : Except AuthError (Jar × String) := do
  let data ← store.readFile file
  let parsed ← store.parseExport data
  let jar := jarFromExport parsed
  if jar.len = 0 then .error (.cookieFile "cookies.json contains no valid cookies")
  else return (jar, parsed.url)

def saved (jar : Jar) (url : String) : Bytes :=
  store.text.encode (store.text.exportFrom jar url).toJson

def save (outcome : WriteOutcome Bytes) (jar : Jar) (url : String) (dir : Directory Bytes) :
    Except AuthError Unit × Directory Bytes :=
  write store.paths outcome (store.saved jar url) dir

variable {store} {file : FileState Bytes} {j : Jar} {url : String}

theorem exists_export_of_load (h : store.load file = .ok (j, url)) :
    ∃ data b, store.parseExport data = .ok b ∧ jarFromExport b = j ∧ b.url = url ∧
      j.cookies ≠ [] := by
  unfold load at h
  cases hr : store.readFile file with
  | error e => rw [hr] at h; cases h
  | ok data =>
    rw [hr] at h
    cases hp : store.parseExport data with
    | error e => simp only [bind, Except.bind, hp, reduceCtorEq] at h
    | ok b =>
      simp only [bind, Except.bind, hp] at h
      split at h
      · cases h
      · rename_i hlen
        obtain ⟨rfl, rfl⟩ := Prod.mk.inj (Except.ok.inj h)
        exact ⟨data, b, hp, rfl, rfl, fun h0 => hlen (List.length_eq_zero_iff.mpr h0)⟩

theorem normal_of_load (h : store.load file = .ok (j, url)) : ∀ c ∈ j.cookies, c.Normal := by
  obtain ⟨_, b, -, rfl, -, -⟩ := exists_export_of_load h
  intro c hc
  obtain ⟨item, -, hitem⟩ := exists_toDomain_of_mem_jarFromExport hc
  exact normal_of_toDomain hitem

theorem readRaw_members (b : BrowserExport) :
    readRaw b.members = some (b.url, some (.arr (b.cookies.map BrowserCookie.toJson))) := by
  have hn : (b.members.map fun m => Unmarshal.foldName m.1).Nodup := by
    have h : (["url", "cookies"].map Unmarshal.foldName).Nodup := by decide
    exact h
  have hu : Unmarshal.field b.members "url" "" Unmarshal.string = some b.url :=
    Unmarshal.field_of_mem hn List.mem_cons_self rfl
  have hc : Unmarshal.field b.members "cookies" none Unmarshal.rawMessage =
      some (some (.arr (b.cookies.map BrowserCookie.toJson))) :=
    Unmarshal.field_of_mem hn (List.mem_cons_of_mem _ List.mem_cons_self) rfl
  rw [readRaw, hu, hc]
  rfl

theorem cookies_toJson (l : List BrowserCookie) :
    cookies (.arr (l.map BrowserCookie.toJson)) = some l := by
  have h := Unmarshal.slice_arr (g := id) BrowserCookie.decode_toJson l
  rwa [List.map_id] at h

theorem parseExport_saved (j : Jar) (url : String) :
    store.parseExport (store.saved j url) =
      .ok ⟨orDefault url defaultURL, (store.text.exportFrom j url).cookies⟩ := by
  have hr : Unmarshal.struct readRaw (store.text.exportFrom j url).toJson = _ :=
    readRaw_members (store.text.exportFrom j url)
  rw [parseExport, saved, store.text.blank_encode, store.text.parse_encode]
  simp only [Bool.false_eq_true, if_false, BrowserExport.toJson] at hr ⊢
  rw [parseCookieObject, hr]
  simp only [cookies_toJson]
  rfl

/-- What was saved is loaded as the reloaded jar, unless that jar is empty. -/
theorem load_saved (h : (store.text.reload j url).cookies ≠ []) :
    store.load (.holds (store.saved j url)) =
      .ok (store.text.reload j url, orDefault url defaultURL) := by
  have hl : (store.text.reload j url).len ≠ 0 := fun he => h (List.length_eq_zero_iff.mp he)
  simp only [load, readFile, bind, Except.bind, parseExport_saved]
  exact if_neg hl

end Store

end ProfiNotifications.AuthWorker
