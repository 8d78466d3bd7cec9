import Harness.Persistence.ReadsSound

namespace Harness.Jsonl

open Harness.Foundation

section Numbering

variable {events piece later : List Json} {progress next : Progress} {line : Bytes} {endByte : Nat}

theorem numbered_snoc {event : Json} (h : Numbered 0 events)
    (hseq : event.get? "seq" = some (.nat events.length)) : Numbered 0 (events ++ [event]) := by
  rw [numbered_append, Nat.zero_add]
  exact ⟨h, hseq, trivial⟩

theorem pushEvents_numbers (h : Numbered 0 events)
    (hpush : pushEvents events piece = .ok (.inl later)) : Numbered 0 later := by
  induction piece generalizing events with
  | nil =>
    obtain rfl := Sum.inl.inj (Except.ok.inj hpush)
    exact h
  | cons event piece ih =>
    obtain ⟨seq, hseq, hpush⟩ := bind_eq_ok.mp hpush
    split at hpush
    · rename_i heq
      rw [beq_iff_eq] at heq
      refine ih (numbered_snoc h ?_) hpush
      cases event with
      | null => simp [property] at hseq
      | _ => rw [← heq]; exact Except.ok.inj hseq
    · simp at hpush

theorem consumeEventLine_numbered (h : Numbered 0 progress.events)
    (hconsume : consumeEventLine progress line endByte = .ok next) : Numbered 0 next.events := by
  unfold consumeEventLine at hconsume
  dsimp only at hconsume
  split at hconsume
  · obtain rfl := Except.ok.inj hconsume
    exact h
  · split at hconsume
    · obtain ⟨ends, _, hconsume⟩ := bind_eq_ok.mp hconsume
      split at hconsume
      · simp [throw, throwThe, MonadExceptOf.throw] at hconsume
      · obtain rfl := Except.ok.inj hconsume
        exact h
    · obtain ⟨pushed, hpush, hconsume⟩ := bind_eq_ok.mp hconsume
      cases pushed with
      | inl later =>
        obtain rfl := Except.ok.inj hconsume
        exact pushEvents_numbers h hpush
      | inr gap =>
        obtain ⟨ends, _, hconsume⟩ := bind_eq_ok.mp hconsume
        split at hconsume
        · simp [throw, throwThe, MonadExceptOf.throw] at hconsume
        · obtain rfl := Except.ok.inj hconsume
          exact h

theorem writeFrom_numbered (scanner : SessionLogScanner) (start : Nat) (rest : Bytes)
    {written : SessionLogScanner} (h : Numbered 0 scanner.progress.events)
    (hwrite : scanner.writeFrom start rest = .ok written) : Numbered 0 written.progress.events := by
  induction scanner, start, rest using SessionLogScanner.writeFrom.induct with
  | case1 scanner start rest hnewline fragment endByte ih =>
    rw [SessionLogScanner.writeFrom, dif_pos hnewline] at hwrite
    obtain ⟨progress, hconsume, hwrite⟩ := bind_eq_ok.mp hwrite
    exact ih progress (consumeEventLine_numbered h hconsume) hwrite
  | case2 scanner start rest hnewline =>
    rw [SessionLogScanner.writeFrom, dif_neg hnewline] at hwrite
    obtain rfl := Except.ok.inj hwrite
    unfold SessionLogScanner.retain
    split <;> exact h

theorem scanLog_numbered {buffer : Bytes} {scan : SessionLogScan}
    (h : scanLog buffer = .ok scan) : Numbered 0 scan.events := by
  unfold scanLog at h
  split at h
  · obtain ⟨scanner, hcreate, h⟩ := bind_eq_ok.mp h
    obtain ⟨written, hwrite, hresult⟩ := bind_eq_ok.mp h
    obtain rfl := Except.ok.inj hresult
    obtain ⟨header, _, hcreate⟩ := bind_eq_ok.mp hcreate
    obtain rfl := Except.ok.inj hcreate
    have hstep : ∀ (seen : List Bytes) (scanner : SessionLogScanner) (chunk : Bytes)
        (next : SessionLogScanner), Numbered 0 scanner.progress.events →
        scanner.write chunk = .ok next → Numbered 0 next.progress.events := by
      intro _ scanner chunk next hscanner hwrite
      obtain ⟨_, _, hwrite⟩ := bind_eq_ok.mp hwrite
      exact @writeFrom_numbered { scanner with inputBytes := scanner.inputBytes + chunk.length }
        scanner.inputBytes chunk next hscanner hwrite
    exact foldOk_invariant
      (fun (_ : List Bytes) (scanner : SessionLogScanner) => Numbered 0 scanner.progress.events)
      hstep hwrite trivial
  · simp at h

end Numbering

end Harness.Jsonl

namespace Harness.Persistence

open Harness.Foundation
open Harness.Jsonl (Numbered)

section Files

def jsonlBackend (files : String → Option Bytes) (locate : Jsonl.SessionHeader → Option String) :
    Backend Jsonl.SessionHeader where
  id header := header.id
  version header := header.version
  locate := locate
  loadStored id :=
    match files id with
    | none => .ok none
    | some file => (Jsonl.scanLog file).map fun scan =>
      some { header := scan.header, events := scan.events }
  loadStoredFrom := none

theorem jsonlBackend_honest (files : String → Option Bytes)
    (locate : Jsonl.SessionHeader → Option String) : (jsonlBackend files locate).Honest where
  numbered := by
    intro id stored hload
    simp only [jsonlBackend] at hload
    split at hload
    · simp at hload
    · obtain ⟨scan, hscan, hstored⟩ := map_eq_ok.mp hload
      obtain rfl := Option.some.inj hstored
      exact Jsonl.scanLog_numbered hscan
  suffix := by
    intro seek hseek
    simp [jsonlBackend] at hseek

end Files

section Rows

open Harness.Sqlite (Zstd Database Call Laid databaseAfter)

def sqliteBackend (zstd : Zstd) (db : Database) (locate : Sqlite.SessionHeader → Option String) :
    Backend Sqlite.SessionHeader where
  id header := header.id
  version header := (Jsonl.versionOf header.columns).getD Jsonl.sessionFormatVersion
  locate := locate
  loadStored id := (Sqlite.loadStored zstd db id).map fun loaded =>
    loaded.map fun stored => { header := stored.header, events := stored.events }
  loadStoredFrom := some fun id fromSeq => (Sqlite.loadStoredFrom zstd db id fromSeq).map fun loaded =>
    loaded.map fun stored => { header := stored.header, events := stored.events }

variable {zstd : Zstd} {events : List Json} {start : Nat}

theorem numbered_of_contiguous (h : Sqlite.contiguousFrom start events = true) :
    Numbered start events := by
  induction events generalizing start with
  | nil => trivial
  | cons event events ih =>
    obtain ⟨hseq, hrest⟩ := Sqlite.contiguousFrom_cons.mp h
    exact ⟨hseq, ih (by simpa using hrest)⟩

theorem filter_seqOf {start : Nat} (h : Numbered start events) (fromSeq : Int) :
    events.filter (fun event => decide (fromSeq ≤ ChunkRows.seqOf event)) =
      events.filter (Backend.isFrom fromSeq) := by
  induction events generalizing start with
  | nil => rfl
  | cons event events ih =>
    rw [List.filter_cons, List.filter_cons, ih h.2, isFrom_of_seq h.1,
      Sqlite.seqOf_of_get h.1]

theorem sqliteBackend_honest (hlossless : zstd.Lossless) (calls : List Call)
    (locate : Sqlite.SessionHeader → Option String) :
    (sqliteBackend zstd (databaseAfter zstd calls) locate).Honest := by
  have hstored := Sqlite.stored_databaseAfter hlossless calls
  have hread : ∀ {id stored}, (sqliteBackend zstd (databaseAfter zstd calls) locate).loadStored id =
      .ok (some stored) → ∃ row, (databaseAfter zstd calls).sessions id = some row ∧
        stored.header = row.header ∧
        Laid zstd 0 ((databaseAfter zstd calls).events id) stored.events := by
    intro id stored hload
    obtain ⟨loaded, hloaded, hmap⟩ := map_eq_ok.mp hload
    obtain ⟨events, hlaid⟩ := hstored.laid id
    cases hsession : (databaseAfter zstd calls).sessions id with
    | none =>
      rw [Sqlite.loadStored, hsession] at hloaded
      obtain rfl := Except.ok.inj hloaded
      simp at hmap
    | some row =>
      rw [Sqlite.loadStored_laid hlaid hsession] at hloaded
      obtain rfl := Except.ok.inj hloaded
      obtain rfl := Option.some.inj hmap
      exact ⟨row, rfl, rfl, hlaid⟩
  refine ⟨fun hload => ?_, fun hseek => ?_⟩
  · obtain ⟨row, _, _, hlaid⟩ := hread hload
    exact @numbered_of_contiguous _ 0 hlaid.contiguous
  · obtain rfl := Option.some.inj hseek
    intro id stored hload fromSeq
    obtain ⟨row, hsession, hheader, hlaid⟩ := hread hload
    have hnumbered := @numbered_of_contiguous _ 0 hlaid.contiguous
    simp only [Sqlite.loadStoredFrom_laid hlaid hsession fromSeq, Except.map, Option.map_some,
      filter_seqOf hnumbered, hheader]

end Rows

/-- Upgrading is stable, keeps every field but the type and the data, and is the same in place;
and from any seq on a log is read as the whole of it is, by a backend that can seek and by one
that cannot. -/
theorem reads_upgrade_alike :
    (∀ (id : String) (events snapshot : List Json), snapshotStoredEvents events id = .ok snapshot →
      snapshotStoredEvents snapshot id = .ok snapshot ∧ snapshot.length = events.length ∧
        List.Forall₂ SameEnvelope snapshot events) ∧
    (∀ (id : String) (events : List Json),
      adoptStoredEvents events id = snapshotStoredEvents events id) ∧
    (∀ (μ : Type) (backend : Backend μ), backend.Honest → ∀ (id : String) (whole : StoredEvents μ),
      backend.readStoredPrefix id = .ok whole → ∀ fromSeq : Nat, isSafe fromSeq = true →
        backend.readFrom id fromSeq = .ok
          { header := whole.header, events := whole.events.filter (Backend.isFrom fromSeq) }) ∧
    (∀ (zstd : Sqlite.Zstd), zstd.Lossless → ∀ (calls : List Sqlite.Call)
      (locate : Sqlite.SessionHeader → Option String),
      (sqliteBackend zstd (Sqlite.databaseAfter zstd calls) locate).Honest) ∧
    ∀ (files : String → Option Bytes) (locate : Jsonl.SessionHeader → Option String),
      (jsonlBackend files locate).Honest := by
  refine ⟨?_, fun id events => adoptStoredEvents_eq events id, ?_,
    fun zstd hlossless calls locate => sqliteBackend_honest hlossless calls locate,
    jsonlBackend_honest⟩
  · intro id events snapshot h
    have hupgraded := snapshotEvents_upgraded (snapshotStoredEvents_eq_ok.mp h).2
    exact ⟨snapshotStoredEvents_again h, hupgraded.length_eq,
      hupgraded.imp fun _ _ hu => hu.envelope⟩
  · intro μ backend hbackend id whole h fromSeq hsafe
    exact hbackend.readFrom_eq h hsafe

def memoryBackend (log : List Json) : Backend String where
  id header := header
  version _ := Jsonl.sessionFormatVersion
  locate _ := none
  loadStored id := .ok (some { header := id, events := log })
  loadStoredFrom := some fun id fromSeq =>
    .ok (some { header := id, events := log.filter (Backend.isFrom fromSeq) })

theorem memoryBackend_honest {log : List Json} (h : Numbered 0 log) :
    (memoryBackend log).Honest where
  numbered := by
    intro id stored hload
    obtain rfl := Option.some.inj (Except.ok.inj hload)
    exact h
  suffix := by
    intro seek hseek id stored hload fromSeq
    obtain rfl := Option.some.inj hseek
    obtain rfl := Option.some.inj (Except.ok.inj hload)
    rfl

def legacyEvent (type : String) (seq : Nat) (data : List (String × Json)) : Json :=
  .obj [("type", .str type), ("seq", .nat seq), ("time", .nat 0), ("data", .obj data)]

/-- A turn of an older harness: its trigger, a message without identity, its disposal. -/
def legacyLog : List Json :=
  [legacyEvent "turn/start" 0 [("turn", .nat 1), ("trigger", .obj [("kind", .str "user")])],
    legacyEvent "user/message" 1
      [("content", .arr []), ("source", .obj [("kind", .str "human")])],
    legacyEvent "turn/end" 2 [("turn", .nat 1), ("reason", .obj [("kind", .str "disposed")])]]

def upgradedLog : List Json :=
  [legacyEvent "turn/start" 0 [("turn", .nat 1)],
    legacyEvent "user/message" 1
      [("content", .arr []), ("source", .obj [("kind", .str "human")]),
        ("id", .str "legacy-message:session:1"), ("role", .str "user")],
    legacyEvent "turn/end" 2 [("turn", .nat 1), ("reason",
      .obj [("kind", .str "aborted"), ("reason", .obj [("kind", .str "disposed")])])]]

theorem legacyLog_read : (memoryBackend legacyLog).readStoredPrefix "session" =
    .ok { header := "session", events := upgradedLog } := by
  rfl

theorem legacyLog_upgrades_alike :
    (memoryBackend legacyLog).readFrom "session" 2 =
      .ok { header := "session", events := upgradedLog.filter (Backend.isFrom 2) } :=
  reads_upgrade_alike.2.2.1 String (memoryBackend legacyLog)
    (memoryBackend_honest ⟨rfl, rfl, rfl, trivial⟩) "session" _ legacyLog_read 2 (by decide)

end Harness.Persistence
