import Harness.Jsonl.Format

namespace Harness.Jsonl

open Harness.Foundation

structure ByteScan where
  progress : Progress
  pending : Bytes
  position : Nat

namespace ByteScan

def start (headerBytes : Nat) : ByteScan :=
  { progress := { events := [], committedBytes := headerBytes, eventLine := 0, issue := none }
    pending := []
    position := headerBytes }

def scanByte (scan : ByteScan) (byte : UInt8) : Except String ByteScan :=
  if byte = newline then do
    let progress ← consumeEventLine scan.progress scan.pending (scan.position + 1)
    return { progress, pending := [], position := scan.position + 1 }
  else .ok { scan with pending := scan.pending ++ [byte], position := scan.position + 1 }

def finish (scan : ByteScan) (header : SessionHeader) : SessionLogScan :=
  { header, events := scan.progress.events, committedBytes := scan.progress.committedBytes }

theorem fold_fragment (scan : ByteScan) {fragment : Bytes} (h : newline ∉ fragment) :
    foldOk scanByte scan fragment = .ok
      { scan with
        pending := scan.pending ++ fragment
        position := scan.position + fragment.length } := by
  induction fragment generalizing scan with
  | nil => simp
  | cons byte fragment ih =>
    rw [List.mem_cons, not_or] at h
    rw [foldOk_cons, scanByte, if_neg (Ne.symm h.1), ok_bind, ih _ h.2]
    simp [Nat.add_comm, Nat.add_left_comm]

theorem fold_line (scan : ByteScan) {fragment rest : Bytes} (h : newline ∉ fragment) :
    foldOk scanByte scan (fragment ++ newline :: rest) =
      (consumeEventLine scan.progress (scan.pending ++ fragment)
        (scan.position + fragment.length + 1) >>= fun progress => foldOk scanByte
          { progress, pending := [], position := scan.position + fragment.length + 1 } rest) := by
  rw [foldOk_append, fold_fragment scan h, ok_bind, foldOk_cons, scanByte, if_pos rfl]
  cases consumeEventLine scan.progress (scan.pending ++ fragment)
    (scan.position + fragment.length + 1) <;> rfl

end ByteScan

theorem concat_eq (list : List Bytes) : concat list list.flatten.length = list.flatten := by
  rw [concat, List.take_left']
  rfl

/-- A scanner that has read what a byte scan has read, `position` bytes into its input. -/
structure Viewed (header : SessionHeader) (inputBytes : Nat) (scanner : SessionLogScanner)
    (scan : ByteScan) : Prop where
  header : scanner.header = header
  progress : scanner.progress = scan.progress
  pending : scanner.fragments.flatten = scan.pending
  fragmentBytes : scanner.fragmentBytes = scan.pending.length
  inputBytes : scanner.inputBytes = inputBytes
  open_ : scanner.finished = false

namespace Viewed

variable {header : SessionHeader} {inputBytes : Nat} {scanner : SessionLogScanner}
  {scan : ByteScan}

theorem lineOf (h : Viewed header inputBytes scanner scan) (fragment : Bytes) :
    scanner.lineOf fragment = scan.pending ++ fragment := by
  unfold SessionLogScanner.lineOf
  cases hfragments : scanner.fragments with
  | nil =>
    have hpending := h.pending
    rw [hfragments] at hpending
    simp [← hpending]
  | cons first rest =>
    have hflat : (if fragment.isEmpty then first :: rest else first :: rest ++ [fragment]).flatten =
        scan.pending ++ fragment := by
      rw [← h.pending, hfragments]
      cases fragment with
      | nil => simp
      | cons byte fragment => simp
    have hlength : scanner.fragmentBytes + fragment.length =
        (scan.pending ++ fragment).length := by
      rw [h.fragmentBytes, List.length_append]
    simp only [List.isEmpty_cons, Bool.false_eq_true, if_false]
    rw [hlength, ← hflat, concat_eq]

theorem retain (h : Viewed header inputBytes scanner scan) (fragment : Bytes) :
    Viewed header inputBytes (scanner.retain fragment)
      { scan with
        pending := scan.pending ++ fragment
        position := scan.position + fragment.length } := by
  unfold SessionLogScanner.retain
  cases fragment with
  | nil =>
    simp only [List.isEmpty_nil, if_true, List.append_nil, List.length_nil, Nat.add_zero]
    exact h
  | cons byte fragment =>
    exact
      { h with
        pending := by simp [← h.pending]
        fragmentBytes := by simp [h.fragmentBytes] }

end Viewed

theorem split_newline {bytes : Bytes} (h : newline ∈ bytes) :
    bytes = bytes.take (bytes.idxOf newline) ++ newline :: bytes.drop (bytes.idxOf newline + 1) ∧
      newline ∉ bytes.take (bytes.idxOf newline) := by
  have hlt := List.idxOf_lt_length_of_mem h
  constructor
  · conv_lhs => rw [← List.take_append_drop (bytes.idxOf newline) bytes]
    rw [List.drop_eq_getElem_cons hlt, List.getElem_idxOf]
  · rw [List.mem_take_iff_idxOf_lt h]
    exact Nat.lt_irrefl _

theorem writeFrom_agrees {header : SessionHeader} {inputBytes : Nat} (rest : Bytes)
    {scanner : SessionLogScanner} {scan : ByteScan} (h : Viewed header inputBytes scanner scan) :
    Agree (Viewed header inputBytes) (scanner.writeFrom scan.position rest)
      (foldOk ByteScan.scanByte scan rest) := by
  rw [SessionLogScanner.writeFrom]
  split
  · rename_i hmem
    obtain ⟨hsplit, hfragment⟩ := split_newline hmem
    have hshorter : (rest.drop (rest.idxOf newline + 1)).length < rest.length := by
      have := List.length_pos_of_mem hmem
      rw [List.length_drop]
      omega
    have hfold := @ByteScan.fold_line scan _ (rest.drop (rest.idxOf newline + 1)) hfragment
    rw [← hsplit] at hfold
    rw [hfold]
    simp only [h.lineOf, h.progress]
    cases consumeEventLine scan.progress (scan.pending ++ rest.take (rest.idxOf newline))
        (scan.position + (rest.take (rest.idxOf newline)).length + 1) with
    | error message => exact .error message
    | ok progress =>
      have hnext : Viewed header inputBytes
          { scanner with progress, fragments := [], fragmentBytes := 0 }
          { progress, pending := []
            position := scan.position + (rest.take (rest.idxOf newline)).length + 1 } :=
        ⟨h.header, rfl, rfl, rfl, h.inputBytes, h.open_⟩
      exact writeFrom_agrees (rest.drop (rest.idxOf newline + 1)) hnext
  · rename_i hmem
    rw [ByteScan.fold_fragment scan hmem]
    exact .ok (h.retain rest)
termination_by rest.length

theorem position_fold {scan scan' : ByteScan} {bytes : Bytes}
    (h : foldOk ByteScan.scanByte scan bytes = .ok scan') :
    scan'.position = scan.position + bytes.length := by
  apply foldOk_invariant (fun seen scan' => scan'.position = scan.position + seen.length) ?_ h rfl
  intro seen scan₁ byte scan₂ hseen hstep
  unfold ByteScan.scanByte at hstep
  split at hstep
  · obtain ⟨progress, _, hdone⟩ := bind_eq_ok.mp hstep
    obtain rfl := Except.ok.inj hdone
    simp only [List.length_append, List.length_singleton, hseen]
    omega
  · obtain rfl := Except.ok.inj hstep
    simp only [List.length_append, List.length_singleton, hseen]
    omega

def Reads (header : SessionHeader) (scanner : SessionLogScanner) (scan : ByteScan) : Prop :=
  Viewed header scan.position scanner scan

theorem write_agrees {header : SessionHeader} {scanner : SessionLogScanner} {scan : ByteScan}
    (h : Reads header scanner scan) (chunk : Bytes) :
    Agree (Reads header) (scanner.write chunk) (foldOk ByteScan.scanByte scan chunk) := by
  have hwrite : scanner.write chunk = SessionLogScanner.writeFrom
      { scanner with inputBytes := scan.position + chunk.length } scan.position chunk := by
    rw [SessionLogScanner.write, h.open_, h.inputBytes]
    rfl
  have hviewed : Viewed header (scan.position + chunk.length)
      { scanner with inputBytes := scan.position + chunk.length } scan :=
    { h with inputBytes := rfl }
  rw [hwrite]
  refine (writeFrom_agrees chunk hviewed).imp ?_
  intro scanner' scan' _ hfold hviewed'
  rw [Reads, position_fold hfold]
  exact hviewed'

theorem scanChunks_eq (headerRecord : Bytes) (chunks : List Bytes) :
    scanChunks headerRecord chunks = (parseHeaderRecord headerRecord >>= fun header =>
      foldOk ByteScan.scanByte (ByteScan.start headerRecord.length) chunks.flatten >>= fun scan =>
        .ok (scan.finish header)) := by
  rw [scanChunks, SessionLogScanner.create]
  cases parseHeaderRecord headerRecord with
  | error message => rfl
  | ok header =>
    have hstart : Reads header
        { header
          progress := (ByteScan.start headerRecord.length).progress
          fragments := []
          fragmentBytes := 0
          inputBytes := headerRecord.length
          finished := false } (ByteScan.start headerRecord.length) :=
      ⟨rfl, rfl, rfl, rfl, rfl, rfl⟩
    refine (Agree.foldOk_flatten (fun _ _ chunk hreads => write_agrees hreads chunk) hstart
      chunks).eq ?_
    intro scanner scan hreads
    rw [SessionLogScanner.finish, ByteScan.finish, hreads.header, hreads.progress]
    rfl

end Harness.Jsonl
