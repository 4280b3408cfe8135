import OrcState.Contract.Types
import OrcState.Foundation.Table
import OrcState.Foundation.Transition
import OrcState.Foundation.Utf16
import OrcState.Markdown.Frontmatter
import Mathlib.Data.Rat.Floor

/-!
# Memory drawers

A memory is a row of `memory.db`.  Two contents that are equal up to case and outer
blanks are one memory: the second `storeDrawer` returns the row of the first, with
the expiry the first was stored with, and `pruneExpiredMemories` deletes by that.
-/

namespace OrcState.Memory

open OrcState.Contract OrcState.Foundation OrcState.Foundation.Json
open OrcState.Foundation.Utf16 (utf8 wellFormed toWellFormed toWellFormed_eq)
open OrcState.Markdown (units trim)

/-! ## Rows -/

structure Host where
  dates : DateApi
  toLowerCase : Units → Units
  sha256 : Units → Units

inductive Num where
  | finite (value : Rat)
  | nonFinite
  deriving DecidableEq

structure DrawerInput where
  wing : Option Units := none
  hall : Units
  room : Units
  content : Units
  importance : Option Num := none
  sourceType : Option Units := none
  sourceRef : Option Units := none
  agentId : Option Units := none
  tags : Option Units := none
  expiresAt : Option Units := none

structure Drawer where
  id : Nat
  wing : Units
  hall : Units
  room : Units
  content : Units
  contentHash : Option Units
  importance : Int
  sourceType : Option Units
  sourceRef : Option Units
  agentId : Option Units
  tags : Option Units
  createdAt : Units
  expiresAt : Option Units
  deriving DecidableEq

/-- `sequence` is the greatest id that `AUTOINCREMENT` has given out. -/
structure MemoryDb where
  drawers : Table Nat Drawer Drawer.id := Table.empty
  sequence : Nat := 0

/-! ## Storing -/

def STOPWORDS : List Units :=
  ["the", "a", "an", "is", "are", "was", "were", "be", "been",
    "being", "have", "has", "had", "do", "does", "did", "will", "would", "could",
    "should", "may", "might", "shall", "can", "to", "of", "in", "for", "on", "with",
    "at", "by", "from", "as", "into", "through", "during", "before", "after", "above",
    "below", "between", "out", "off", "over", "under", "again", "further", "then",
    "once", "and", "but", "or", "nor", "not", "so", "yet", "both", "either", "neither",
    "this", "that", "these", "those", "it", "its", "he", "she", "they", "them",
    "we", "you", "i", "me", "my", "our", "your", "his", "her", "their"].map units

/-- `[a-z0-9_-]` -/
def wordUnit (u : Nat) : Bool :=
  (0x61 ≤ u && u ≤ 0x7A) || (0x30 ≤ u && u ≤ 0x39) || u = 0x5F || u = 0x2D

def extractKeywords (host : Host) (text : Units) : Units :=
  let words := ((host.toLowerCase text).splitOnP (!wordUnit ·)).filter fun w =>
    2 < w.length && !STOPWORDS.contains w
  let ranked := words.eraseDups.mergeSort fun v w => words.count w ≤ words.count v
  [0x2C].intercalate (ranked.take 20)

/-- `Math.max(1, Math.min(10, Math.round(value)))`, and 5 for no number. -/
def clampImportance : Option Num → Int
  | some (.finite value) => max 1 (min 10 (value + 1 / 2).floor)
  | _ => 5

def normalise (host : Host) (content : Units) : Units := host.toLowerCase (trim content)

def findByHash (db : MemoryDb) (hash : Units) : Option Drawer :=
  db.drawers.rows.find? (·.contentHash = some hash)

/-- One more than any id that is, or was, in the table. -/
def nextId (db : MemoryDb) : Nat := (db.drawers.rows.map Drawer.id).foldl max db.sequence + 1

/-- The row to insert; SQLite holds a text as UTF-8. -/
def newDrawer (host : Host) (input : DrawerInput) (now : Int) (id : Nat) : Drawer where
  id := id
  wing := toWellFormed (input.wing.getD (units "general"))
  hall := toWellFormed input.hall
  room := toWellFormed input.room
  content := toWellFormed input.content
  contentHash := some (host.sha256 (normalise host input.content))
  importance := clampImportance input.importance
  sourceType := input.sourceType.map toWellFormed
  sourceRef := input.sourceRef.map toWellFormed
  agentId := input.agentId.map toWellFormed
  tags :=
    (input.tags.or ((some (extractKeywords host input.content)).filter (· ≠ []))).map
      toWellFormed
  createdAt := units (host.dates.toISOString now)
  expiresAt := input.expiresAt.map toWellFormed

def storeDrawer (host : Host) (input : DrawerInput) (now : Int) (db : MemoryDb) :
    Nat × MemoryDb :=
  match findByHash db (host.sha256 (normalise host input.content)) with
  | some existing => (existing.id, db)
  | none =>
      (nextId db,
        { drawers := db.drawers.upsert (newDrawer host input now (nextId db))
          sequence := nextId db })

def getDrawer (db : MemoryDb) (id : Nat) : Option Drawer := db.drawers.find? id

def deleteDrawer (id : Nat) (db : MemoryDb) : Bool × MemoryDb :=
  ((getDrawer db id).isSome, { db with drawers := db.drawers.filter (·.id ≠ id) })

def Drawer.weigh (d : Drawer) (importance : Int) : Drawer :=
  { d with importance := importance }

def updateDrawerImportance (id : Nat) (importance : Num) (db : MemoryDb) :
    Bool × MemoryDb :=
  ((getDrawer db id).isSome,
    { db with drawers :=
        db.drawers.update id (·.weigh (clampImportance (some importance))) fun _ => rfl })

/-! ## Pruning -/

def textBefore (a b : Units) : Bool := utf8 a < utf8 b

/-- `expires_at IS NOT NULL AND expires_at < now` -/
def Drawer.expired (d : Drawer) (now : Units) : Bool := d.expiresAt.any (textBefore · now)

def pruneExpiredMemories (host : Host) (now : Int) (fails : Bool) (db : MemoryDb) :
    Nat × MemoryDb :=
  if fails then (0, db)
  else
    (db.drawers.rows.countP (·.expired (units (host.dates.toISOString now))),
      { db with
        drawers := db.drawers.filter (!·.expired (units (host.dates.toISOString now))) })

/-- `ORDER BY importance DESC, created_at DESC` allows `a` before `b`. -/
def ranksBefore (a b : Drawer) : Bool :=
  b.importance < a.importance ||
    (a.importance = b.importance && !textBefore a.createdAt b.createdAt)

/-- An order in which the query may list the rows; ties are the database's choice. -/
def Lists (order : List Drawer) (db : MemoryDb) : Prop :=
  order.Perm db.drawers.rows ∧ order.Pairwise (ranksBefore · ·)

instance (order : List Drawer) (db : MemoryDb) : Decidable (Lists order db) :=
  inferInstanceAs (Decidable (_ ∧ _))

def overCapacity (maxPerRoom : Nat) (order : List Drawer) (d : Drawer) : Bool :=
  ((order.filter fun e => e.wing = d.wing ∧ e.room = d.room).drop maxPerRoom).contains d

def pruneByCapacity (maxPerRoom : Nat) (order : List Drawer) (fails : Bool)
    (db : MemoryDb) : Nat × MemoryDb :=
  if fails then (0, db)
  else
    (db.drawers.rows.countP (overCapacity maxPerRoom order),
      { db with drawers := db.drawers.filter (!overCapacity maxPerRoom order ·) })

/-! ## Runs -/

inductive Label where
  | store (input : DrawerInput) (now : Int)
  | delete (id : Nat)
  | importance (id : Nat) (value : Num)
  | pruneExpired (now : Int) (fails : Bool)
  | pruneByCapacity (maxPerRoom : Nat) (order : List Drawer) (fails : Bool)

def memorySystem (host : Host) : System MemoryDb Label where
  initial db := db.drawers = Table.empty
  step db
    | .store input now => some (storeDrawer host input now db).2
    | .delete id => some (deleteDrawer id db).2
    | .importance id value => some (updateDrawerImportance id value db).2
    | .pruneExpired now fails => some (pruneExpiredMemories host now fails db).2
    | .pruneByCapacity maxPerRoom order fails =>
        if Lists order db then some (Memory.pruneByCapacity maxPerRoom order fails db).2
        else none

def Spares (id : Nat) (db : MemoryDb) : Label → Prop
  | .delete other => other ≠ id
  | .pruneByCapacity maxPerRoom order _ =>
      ∀ d ∈ db.drawers, d.id = id → overCapacity maxPerRoom order d = false
  | _ => True

/-- The content is there in every later state. -/
def Stays (host : Host) (content : Units) (id : Nat) (db : MemoryDb) : Prop :=
  ∀ labels t, (memorySystem host).Along (Spares id) db labels →
    (memorySystem host).run db labels = some t →
      ∃ d, getDrawer t id = some d ∧ normalise host d.content = normalise host content

/-- The expiry is before some time that a pruning may run at. -/
def Expires (host : Host) (d : Drawer) : Prop :=
  ∃ now, d.expired (units (host.dates.toISOString now)) = true

/--
The row that the digest finds is the same memory and has no expiry to meet; a new row
is the same memory unless half a surrogate pair is lost in it.
-/
structure Lasting (host : Host) (content : Units) (db : MemoryDb) : Prop where
  found : ∀ d ∈ findByHash db (host.sha256 (normalise host content)),
    normalise host d.content = normalise host content ∧ ¬ Expires host d
  stored : findByHash db (host.sha256 (normalise host content)) = none →
    normalise host (toWellFormed content) = normalise host content

/-! ## One row in the table -/

variable {host : Host} {db t : MemoryDb} {input : DrawerInput} {now : Int} {id : Nat}
  {content : Units} {d : Drawer}

theorem le_foldl_max (ids : List Nat) (start : Nat) :
    start ≤ ids.foldl max start ∧ ∀ n ∈ ids, n ≤ ids.foldl max start := by
  induction ids generalizing start with
  | nil => simp
  | cons m ids ih =>
      obtain ⟨hstart, hids⟩ := ih (max start m)
      rw [List.foldl_cons]
      refine ⟨(Nat.le_max_left start m).trans hstart, fun n hn => ?_⟩
      obtain rfl | hn := List.mem_cons.mp hn
      · exact (Nat.le_max_right start n).trans hstart
      · exact hids n hn

theorem lt_nextId (h : d ∈ db.drawers) : d.id < nextId db :=
  Nat.lt_succ_of_le ((le_foldl_max _ _).2 d.id (List.mem_map_of_mem h))

theorem getDrawer_filter {p : Drawer → Bool} (h : getDrawer db id = some d)
    (hp : p d = true) :
    getDrawer { db with drawers := db.drawers.filter p } id = some d := by
  obtain ⟨hmem, hid⟩ := Table.find?_eq_some.mp h
  exact Table.find?_eq_some.mpr ⟨Table.mem_filter.mpr ⟨hmem, hp⟩, hid⟩

theorem storeDrawer_found {existing : Drawer}
    (h : findByHash db (host.sha256 (normalise host input.content)) = some existing) :
    storeDrawer host input now db = (existing.id, db) := by
  rw [storeDrawer, h]

theorem storeDrawer_new
    (h : findByHash db (host.sha256 (normalise host input.content)) = none) :
    storeDrawer host input now db = (nextId db,
      { drawers := db.drawers.upsert (newDrawer host input now (nextId db))
        sequence := nextId db }) := by
  rw [storeDrawer, h]

theorem getDrawer_new
    (h : findByHash db (host.sha256 (normalise host input.content)) = none) :
    getDrawer (storeDrawer host input now db).2 (storeDrawer host input now db).1 =
      some (newDrawer host input now (nextId db)) := by
  rw [storeDrawer_new h]
  change (db.drawers.upsert _).find? (nextId db) = _
  rw [Table.find?_upsert]
  exact if_pos rfl

theorem getDrawer_found {hash : Units} (h : findByHash db hash = some d) :
    getDrawer db d.id = some d :=
  Table.find?_of_mem (List.mem_of_find?_eq_some h)

theorem getDrawer_store (h : getDrawer db id = some d) (input : DrawerInput) (now : Int) :
    getDrawer (storeDrawer host input now db).2 id = some d := by
  cases hfind : findByHash db (host.sha256 (normalise host input.content)) with
  | some existing =>
      rw [storeDrawer_found hfind]
      exact h
  | none =>
      obtain ⟨hmem, rfl⟩ := Table.find?_eq_some.mp h
      have hne : d.id ≠ (newDrawer host input now (nextId db)).id :=
        Nat.ne_of_lt (lt_nextId hmem)
      rw [storeDrawer_new hfind]
      change (db.drawers.upsert _).find? d.id = some d
      rw [Table.find?_upsert, if_neg hne]
      exact h

/-! ## A drawer that lasts -/

def Held (host : Host) (content : Units) (id : Nat) (db : MemoryDb) : Prop :=
  ∃ d, getDrawer db id = some d ∧ normalise host d.content = normalise host content ∧
    ¬ Expires host d

theorem Held.step (h : Held host content id db) {l : Label} (hspares : Spares id db l)
    (ht : (memorySystem host).step db l = some t) : Held host content id t := by
  obtain ⟨d, hget, hcontent, hlasts⟩ := h
  cases l with
  | store input now =>
      obtain rfl := Option.some.inj ht
      exact ⟨d, getDrawer_store hget input now, hcontent, hlasts⟩
  | delete other =>
      obtain rfl := Option.some.inj ht
      refine ⟨d, getDrawer_filter hget ?_, hcontent, hlasts⟩
      have hid : d.id = id := Table.key_of_find? hget
      simpa [hid] using Ne.symm hspares
  | importance other value =>
      obtain rfl := Option.some.inj ht
      have hread := Table.find?_update db.drawers other
        (·.weigh (clampImportance (some value))) (fun _ => rfl) id
      have hfound : db.drawers.find? id = some d := hget
      rw [hfound] at hread
      by_cases hid : id = other
      · rw [if_pos hid] at hread
        exact ⟨_, hread, hcontent, hlasts⟩
      · rw [if_neg hid] at hread
        exact ⟨d, hread, hcontent, hlasts⟩
  | pruneExpired now fails =>
      obtain rfl := Option.some.inj ht
      cases fails with
      | true => exact ⟨d, hget, hcontent, hlasts⟩
      | false =>
          refine ⟨d, getDrawer_filter hget ?_, hcontent, hlasts⟩
          have hkept : d.expired (units (host.dates.toISOString now)) = false := by
            rw [Bool.eq_false_iff]
            exact fun hexpired => hlasts ⟨now, hexpired⟩
          simp [hkept]
  | pruneByCapacity maxPerRoom order fails =>
      simp only [memorySystem, Option.ite_none_right_eq_some, Option.some.injEq] at ht
      obtain ⟨-, rfl⟩ := ht
      cases fails with
      | true => exact ⟨d, hget, hcontent, hlasts⟩
      | false =>
          refine ⟨d, getDrawer_filter hget ?_, hcontent, hlasts⟩
          obtain ⟨hmem, hid⟩ := Table.find?_eq_some.mp hget
          simp [hspares d hmem hid]

theorem Held.stays (h : Held host content id db) : Stays host content id db := by
  intro labels t hspares hrun
  have hheld : Held host content id t :=
    System.along_preserves (I := fun _ => True) (fun _ _ _ _ _ => trivial)
      (fun _ _ _ _ hP hok ht => hP.step hok ht) trivial h hspares hrun
  obtain ⟨d, hget, hcontent, -⟩ := hheld
  exact ⟨d, hget, hcontent⟩

theorem storeDrawer_held (hexpiry : input.expiresAt = none)
    (h : Lasting host input.content db) (now : Int) :
    Held host input.content (storeDrawer host input now db).1
      (storeDrawer host input now db).2 := by
  cases hfind : findByHash db (host.sha256 (normalise host input.content)) with
  | some existing =>
      rw [storeDrawer_found hfind]
      exact ⟨existing, getDrawer_found hfind, h.found existing hfind⟩
  | none =>
      refine ⟨newDrawer host input now (nextId db), getDrawer_new hfind, h.stored hfind, ?_⟩
      · rintro ⟨time, hexpired⟩
        simp only [Drawer.expired, newDrawer, hexpiry] at hexpired
        cases hexpired

theorem lasting_of_stays
    (h : Stays host input.content (storeDrawer host input now db).1
      (storeDrawer host input now db).2) : Lasting host input.content db := by
  constructor
  · intro existing hfind
    rw [storeDrawer_found hfind] at h
    have hself := getDrawer_found hfind
    constructor
    · obtain ⟨d, hget, hcontent⟩ := h [] db trivial rfl
      rw [hself] at hget
      cases hget
      exact hcontent
    · rintro ⟨time, hexpired⟩
      obtain ⟨d, hget, -⟩ := h [.pruneExpired time false] _ ⟨trivial, trivial⟩ rfl
      obtain ⟨hmem, hid⟩ := Table.find?_eq_some.mp hget
      obtain ⟨hold, hkept⟩ := Table.mem_filter.mp hmem
      have hsame : d = existing :=
        Table.eq_of_key hold (Table.mem_of_find? hself) hid
      rw [hsame, hexpired] at hkept
      cases hkept
  · intro hfind
    obtain ⟨d, hget, hcontent⟩ := h [] _ trivial rfl
    rw [getDrawer_new hfind] at hget
    cases hget
    exact hcontent

theorem lasting_new (hfind : findByHash db (host.sha256 (normalise host content)) = none)
    (h : wellFormed content = true) : Lasting host content db := by
  constructor
  · rw [hfind]
    rintro d ⟨⟩
  · rw [toWellFormed_eq h]
    exact fun _ => rfl

/--
A memory stored without expiry stays exactly when the row that its digest finds is the
same memory and has no expiry that a pruning can be past or, where it finds none, the
content is still the same memory once it is UTF-8.
-/
theorem stored_stays_iff (host : Host) (db : MemoryDb) (now : Int)
    (hexpiry : input.expiresAt = none) :
    Stays host input.content (storeDrawer host input now db).1
        (storeDrawer host input now db).2 ↔
      Lasting host input.content db :=
  ⟨lasting_of_stays, fun h => (storeDrawer_held hexpiry h now).stays⟩

/-! ## One memory, stored twice -/

def lowerUnit (u : Nat) : Nat := if 0x41 ≤ u ∧ u ≤ 0x5A then u + 0x20 else u

def epochHost : Host where
  dates := DateApi.epoch
  toLowerCase := List.map lowerUnit
  sha256 text :=
    if text = units "note" then
      units "edb465624291e4053c6c5ea4b7eb320dec773e10a57d26b95dcf0564f8e310f8"
    else text

def note : DrawerInput where
  hall := units "h"
  room := units "r"
  content := units " note "

theorem stored_stays_iff_note :
    Stays epochHost note.content (storeDrawer epochHost note 1 {}).1
      (storeDrawer epochHost note 1 {}).2 :=
  (stored_stays_iff epochHost {} 1 rfl).mpr (lasting_new rfl (by decide))

def fleeting : DrawerInput where
  hall := units "h"
  room := units "r"
  content := units "Note"
  expiresAt := some (units "1970-01-01T00:00:00.003Z")

theorem stored_then_pruned : ∃ db, (memorySystem epochHost).Reachable db ∧
    note.expiresAt = none ∧
    ¬ Stays epochHost note.content (storeDrawer epochHost note 2 db).1
      (storeDrawer epochHost note 2 db).2 := by
  have hempty : (memorySystem epochHost).initial {} := rfl
  have hstored : (memorySystem epochHost).step {} (.store fleeting 1) =
      some (storeDrawer epochHost fleeting 1 {}).2 := rfl
  have hexpires : (findByHash (storeDrawer epochHost fleeting 1 {}).2
      (epochHost.sha256 (normalise epochHost note.content))).any
        (·.expired (units (epochHost.dates.toISOString 5))) = true := by
    decide +kernel
  refine ⟨_, (System.Reachable.initial hempty).step hstored, rfl, fun h => ?_⟩
  obtain ⟨d, hd, hexpired⟩ := (Option.any_eq_true _ _).mp hexpires
  exact ((lasting_of_stays h).found d hd).2 ⟨5, hexpired⟩

end OrcState.Memory
