import GitCdn.PacketLine

/-! # Pack cache entries

`PackCache` (`pack_cache.py`) keeps the output of one `git-upload-pack` run in a file named
by the request's fingerprint. This module models what one request does to that file:
`exists`, the read of a hit (`send_pack`) and the write of a miss (`cache_pack`). The
file is `Option Bytes`, `none` when there is no file at the path.
-/

namespace GitCdn.PackCache

open Bytes PacketLine

/-- The `OSError` `exists` can meet. -/
inductive OSError where
  /-- `[Errno 22] Invalid argument`, from a seek before the start of the file. -/
  | invalidArgument
  deriving Repr, DecidableEq, Inhabited

/-- `f.seek(offset, os.SEEK_END)` on a file of `size` bytes: the new position, which may not
be negative. -/
def seekEnd (size : Nat) (offset : Int) : Except OSError Nat :=
  if size + offset < 0 then .error .invalidArgument else .ok (size + offset).toNat

/-- `PackCache.exists`: the file is there, is not empty, and its last four bytes are
`b"0000"`. -/
def «exists» : Option Bytes → Except OSError Bool
  | none => pure false
  | some c =>
    if c.length > 0 then do
      let pos ← seekEnd c.length (-4)
      pure ((c.drop pos).take 4 == flushPkt)
    else pure false

theorem seekEnd_before_start {size : Nat} {offset : Int} (h : size + offset < 0) :
    seekEnd size offset = .error .invalidArgument := if_pos h

theorem seekEnd_in_file {size : Nat} {offset : Int} (h : 0 ≤ size + offset) :
    seekEnd size offset = .ok (size + offset).toNat := if_neg (by omega)

theorem exists_none : «exists» none = .ok false := rfl

/-- A two-byte entry, such as one cut short while it was written: `exists` raises instead
of answering `False`. -/
theorem exists_raises_on_short_entry :
    «exists» (some (ofString "00")) = .error .invalidArgument := rfl

theorem exists_eq_ok {c : Bytes} (h : c.length = 0 ∨ 4 ≤ c.length) :
    «exists» (some c) = .ok (decide (c ≠ [] ∧ flushPkt <:+ c)) := by
  rcases h with h | h
  · simp [«exists», List.length_eq_zero.mp h, pure, Except.pure]
  · have hne : c ≠ [] := List.ne_nil_of_length_pos (by omega)
    have hsuf : flushPkt <:+ c ↔ c.drop (c.length - 4) = flushPkt := by
      rw [List.suffix_iff_eq_drop]
      simp [flushPkt, ofString, eq_comm]
    simp only [«exists», show 0 < c.length by omega, if_true,
      seekEnd_in_file (by omega : 0 ≤ (c.length : Int) + -4), bind, Except.bind, pure,
      Except.pure, show ((c.length : Int) + -4).toNat = c.length - 4 by omega,
      List.take_of_length_le (by simp; omega : (c.drop (c.length - 4)).length ≤ 4)]
    simp [hne, hsuf, Bool.beq_eq_decide_eq]

/-- What one `await writer.write(data)` does. -/
inductive WriteOutcome where
  | ok
  /-- `ConnectionResetError`: the client went away. -/
  | connectionReset
  /-- `asyncio.CancelledError`: the request was cancelled during the write. -/
  | cancelled
  /-- Any other exception. -/
  | other
  deriving Repr, DecidableEq

/-- `f.read(size)` where `rest` is still unread; a negative size reads to the end. -/
def read (size : Int) (rest : Bytes) : Bytes :=
  if size < 0 then rest else rest.take size.toNat

@[simp] theorem read_nil (size : Int) : read size [] = [] := by simp [read]

theorem read_isPrefix (size : Int) (rest : Bytes) : read size rest <+: rest := by
  unfold read; split
  · exact List.prefix_refl _
  · exact List.take_prefix _ _

/-- What the read loop of `send_pack` did. -/
structure SendLoop where
  /-- The chunks whose `writer.write` returned, in order. -/
  accepted : List Bytes
  /-- The chunk whose `writer.write` raised, and what it raised: the loop stops there. -/
  failed : Option (Bytes × WriteOutcome)
  /-- What `pack_sent_bytes` grew by. -/
  sent : Nat
  /-- `count`: bytes read from the file. -/
  count : Nat
  deriving Repr, DecidableEq

/-- The bytes of the failed write, if there was one. -/
def SendLoop.failedBytes (l : SendLoop) : Bytes := (l.failed.map Prod.fst).getD []

/-- The `while True` loop of `send_pack` where `rest` is still unread and the next write is
the `k`-th: `count` grows by each chunk read, before the chunk is written. -/
def sendLoop (size : Int) (write : Nat → WriteOutcome) (rest : Bytes) (k : Nat) : SendLoop :=
  if _h : read size rest = [] then ⟨[], none, 0, 0⟩ else
  match write k with
  | .ok =>
    let l := sendLoop size write (rest.drop (read size rest).length) (k + 1)
    { l with accepted := read size rest :: l.accepted, sent := (read size rest).length + l.sent,
             count := (read size rest).length + l.count }
  | e => ⟨[], some (read size rest, e), 0, (read size rest).length⟩
termination_by rest.length
decreasing_by
  have h1 := List.length_pos.mpr _h
  have h2 := (read_isPrefix size rest).length_le
  simp_wf
  omega

/-- What `PackCache.send_pack(writer)` did, on the entry `content` with
`CHUNK_SIZE = size`. -/
structure SendPack where
  loop : SendLoop
  /-- The `upload_pack_status` label of `pack_sent_bytes`. -/
  status : String
  /-- `complete_send_pack`, bound in the `finally` block. -/
  completeSendPack : Bool
  /-- `Exiting on unfinished pack cache read` was logged. -/
  unfinishedLogged : Bool
  /-- An exception left `send_pack`: a write raised something other than
  `ConnectionResetError` or a cancellation. -/
  raised : Bool
  /-- `os.utime` marked the entry as used, after the loop. -/
  touched : Bool
  deriving Repr, DecidableEq

/-- `PackCache.send_pack(writer)`: `hit` is the entry's `hit` flag, `write k` what the
`k`-th `writer.write` does. A reset ends the loop like the end of the file; a cancellation
is logged and swallowed; another exception is re-raised. -/
def sendPack (size : Int) (hit : Bool) (content : Bytes) (write : Nat → WriteOutcome) :
    SendPack :=
  let l := sendLoop size write content 0
  let other := l.failed.map Prod.snd == some .other
  { loop := l
    status := if hit then "hit" else "miss"
    completeSendPack := content.length == l.count
    unfinishedLogged := other && content.length != l.count
    raised := other
    touched := !other }

section SendLoop

variable {size : Int} {write : Nat → WriteOutcome}

theorem sendLoop_of_raise {rest : Bytes} {k : Nat} (h : read size rest ≠ [])
    (hw : write k ≠ .ok) :
    sendLoop size write rest k = ⟨[], some (read size rest, write k), 0, (read size rest).length⟩ := by
  rw [sendLoop, dif_neg h]
  split
  · contradiction
  · rfl

theorem sendLoop_sent (rest : Bytes) (k : Nat) :
    (sendLoop size write rest k).sent = (sendLoop size write rest k).accepted.flatten.length := by
  induction rest, k using sendLoop.induct size write with
  | case1 rest k h => rw [sendLoop, dif_pos h]; rfl
  | case2 rest k h hw ih => rw [sendLoop, dif_neg h]; simp [hw, ih]
  | case3 rest k h hw => rw [sendLoop_of_raise h hw]; rfl

theorem sendLoop_count (rest : Bytes) (k : Nat) :
    (sendLoop size write rest k).count =
      (sendLoop size write rest k).accepted.flatten.length +
        (sendLoop size write rest k).failedBytes.length := by
  induction rest, k using sendLoop.induct size write with
  | case1 rest k h => rw [sendLoop, dif_pos h]; rfl
  | case2 rest k h hw ih =>
    rw [sendLoop, dif_neg h]; simp only [hw, SendLoop.failedBytes] at ih ⊢; simp [ih]; omega
  | case3 rest k h hw => rw [sendLoop_of_raise h hw]; simp [SendLoop.failedBytes]

theorem sendLoop_written_isPrefix (rest : Bytes) (k : Nat) :
    (sendLoop size write rest k).accepted.flatten ++ (sendLoop size write rest k).failedBytes
      <+: rest := by
  induction rest, k using sendLoop.induct size write with
  | case1 rest k h => rw [sendLoop, dif_pos h]; exact List.nil_prefix
  | case2 rest k h hw ih =>
    rw [sendLoop, dif_neg h]
    simp only [hw, List.flatten_cons, SendLoop.failedBytes, List.append_assoc] at ih ⊢
    calc _ <+: read size rest ++ rest.drop (read size rest).length :=
          (List.prefix_append_right_inj _).mpr ih
      _ = rest := List.prefix_iff_eq_append.mp (read_isPrefix size rest)
  | case3 rest k h hw =>
    rw [sendLoop_of_raise h hw]; simpa [SendLoop.failedBytes] using read_isPrefix size rest

theorem sendLoop_failed_of_ok (hw : ∀ k, write k = .ok) (rest : Bytes) (k : Nat) :
    (sendLoop size write rest k).failed = none := by
  induction rest, k using sendLoop.induct size write with
  | case1 rest k h => rw [sendLoop, dif_pos h]
  | case2 rest k h hwk ih => rw [sendLoop, dif_neg h]; simp [hwk, ih]
  | case3 rest k h hwk => exact absurd (hw k) hwk

theorem sendLoop_accepted_of_no_failure (hsize : size ≠ 0) (rest : Bytes) (k : Nat)
    (h : (sendLoop size write rest k).failed = none) :
    (sendLoop size write rest k).accepted.flatten = rest := by
  induction rest, k using sendLoop.induct size write with
  | case1 rest k h0 =>
    rw [sendLoop, dif_pos h0]
    unfold read at h0
    split at h0
    · exact h0.symm
    · rcases List.take_eq_nil_iff.mp h0 with h0 | h0
      · omega
      · exact h0.symm
  | case2 rest k h0 hw ih =>
    rw [sendLoop, dif_neg h0] at h ⊢
    simp only [hw, List.flatten_cons] at h ⊢
    rw [ih h]
    exact List.prefix_iff_eq_append.mp (read_isPrefix size rest)
  | case3 rest k h0 hw => rw [sendLoop_of_raise h0 hw] at h; cases h

end SendLoop

theorem sendPack_complete_iff (size : Int) (hit : Bool) (content : Bytes)
    (write : Nat → WriteOutcome) :
    (sendPack size hit content write).completeSendPack = true ↔
      (sendLoop size write content 0).accepted.flatten ++
        (sendLoop size write content 0).failedBytes = content := by
  have hpre := @sendLoop_written_isPrefix size write content 0
  simp only [sendPack, beq_iff_eq]
  rw [sendLoop_count]
  constructor
  · intro h; exact hpre.eq_of_length (by rw [List.length_append]; omega)
  · intro h; have := congrArg List.length h; rw [List.length_append] at this; omega

/-- What `send_pack` does with the entry and what it reports of it: the writer gets the
entry's bytes in order, from its start, and nothing after a write that raised;
`pack_sent_bytes` grows by the bytes of the writes that returned; and `complete_send_pack`
says that every byte of the entry was passed to the writer, those of a write that raised
included. -/
theorem sendPack_reports_loop (size : Int) (hit : Bool) (content : Bytes)
    (write : Nat → WriteOutcome) :
    (sendPack size hit content write).loop.accepted.flatten ++
        (sendPack size hit content write).loop.failedBytes <+: content ∧
      (sendPack size hit content write).loop.sent =
        (sendPack size hit content write).loop.accepted.flatten.length ∧
      ((sendPack size hit content write).completeSendPack = true ↔
        (sendPack size hit content write).loop.accepted.flatten ++
          (sendPack size hit content write).loop.failedBytes = content) :=
  ⟨sendLoop_written_isPrefix content 0, sendLoop_sent content 0,
    sendPack_complete_iff size hit content write⟩

/-- At the default chunk size, an entry whose one write is refused with a reset: nothing
reached the client, and `complete_send_pack` is still `True`. -/
theorem sendPack_complete_after_refused_write :
    sendPack (1024 * 1024) true (ofString "0008NAK\n0000") (fun _ => .connectionReset) =
      ⟨⟨[], some (ofString "0008NAK\n0000", .connectionReset), 0, 12⟩,
        "hit", true, false, false, true⟩ := by
  rw [sendPack, sendLoop_of_raise (by decide) (by decide)]
  decide

/-- How the file writes and the client write of one `cache_pack` go. -/
structure CacheIO where
  /-- `f.write` of the `k`-th chunk raises (an `OSError`, e.g. a full disk). -/
  writeFails : Nat → Bool
  /-- Closing the file, which flushes it, raises. -/
  closeFails : Bool
  /-- `stream_writer.write` of the bytes read back raises (the client is gone). -/
  teeFails : Bool

/-- `f.write` of each chunk in turn, the `k`-th first: the bytes written, and whether a write
raised (which stops the `async for`). -/
def writeChunks (fails : Nat → Bool) : List Bytes → Nat → Bytes × Bool
  | [], _ => ([], false)
  | c :: cs, k =>
    if fails k then ([], true) else
    let (w, e) := writeChunks fails cs (k + 1)
    (c ++ w, e)

/-- What one `cache_pack` leaves. -/
structure CachePack where
  /-- The entry file afterwards, `none` once unlinked. -/
  file : Option Bytes
  /-- What `stream_writer` received. -/
  tee : Bytes
  /-- An exception left `cache_pack`. -/
  raised : Bool
  deriving Repr, DecidableEq

/-- `PackCache.cache_pack(read_func, stream_writer)`, where `read_func` reads `stream` and
`teeSet` says whether `stream_writer` is given. A parser error or a failed write is caught
and sets `end_with_error`; the error path sends the file back to the client, then unlinks
it. An exception from closing the file or from the client write escapes. -/
def cachePack (stream : Bytes) (teeSet : Bool) (io : CacheIO) : CachePack :=
  let run := PacketLineChunkParser stream
  let written := writeChunks io.writeFails run.chunks 0
  let endWithError := written.2 || !run.flushed
  if io.closeFails then ⟨some written.1, [], true⟩
  else if endWithError then
    if teeSet then
      if io.teeFails then ⟨some written.1, [], true⟩ else ⟨none, written.1, false⟩
    else ⟨none, [], false⟩
  else ⟨some written.1, [], false⟩

theorem writeChunks_isPrefix (fails : Nat → Bool) :
    ∀ (cs : List Bytes) (k : Nat), (writeChunks fails cs k).1 <+: cs.flatten
  | [], _ => List.prefix_refl _
  | c :: cs, k => by
    unfold writeChunks
    split
    · exact List.nil_prefix
    · exact (List.prefix_append_right_inj c).mpr (writeChunks_isPrefix fails cs (k + 1))

theorem writeChunks_of_no_raise (fails : Nat → Bool) :
    ∀ (cs : List Bytes) (k : Nat), (writeChunks fails cs k).2 = false →
      (writeChunks fails cs k).1 = cs.flatten
  | [], _, _ => rfl
  | c :: cs, k, h => by
    by_cases hk : fails k
    · simp [writeChunks, hk] at h
    · simp only [writeChunks, hk, if_false, Bool.false_eq_true, List.flatten_cons] at h ⊢
      rw [writeChunks_of_no_raise fails cs (k + 1) h]

theorem writeChunks_no_fails : ∀ (cs : List Bytes) (k : Nat),
    writeChunks (fun _ => false) cs k = (cs.flatten, false)
  | [], _ => rfl
  | c :: cs, k => by simp [writeChunks, writeChunks_no_fails cs (k + 1)]

theorem cachePack_of_flushed {stream : Bytes} (teeSet : Bool)
    (h : (PacketLineChunkParser stream).flushed = true) :
    cachePack stream teeSet ⟨fun _ => false, false, false⟩ =
      ⟨some (PacketLineChunkParser stream).chunks.flatten, [], false⟩ := by
  simp [cachePack, writeChunks_no_fails, h]

/-- When neither closing the file nor the client write raises, `cache_pack` leaves the
whole parsed output, flush included, or no file; the client gets at most the bytes the
parser yielded. -/
theorem cachePack_of_no_escape (stream : Bytes) (teeSet : Bool) (io : CacheIO)
    (hclose : io.closeFails = false) (htee : io.teeFails = false) :
    ((cachePack stream teeSet io).file = none ∨
      (PacketLineChunkParser stream).flushed = true ∧
        (cachePack stream teeSet io).file = some (PacketLineChunkParser stream).chunks.flatten) ∧
    (cachePack stream teeSet io).tee <+: (PacketLineChunkParser stream).chunks.flatten := by
  have hpre := writeChunks_isPrefix io.writeFails (PacketLineChunkParser stream).chunks 0
  have hall := writeChunks_of_no_raise io.writeFails (PacketLineChunkParser stream).chunks 0
  simp only [cachePack, hclose, htee]
  generalize writeChunks io.writeFails (PacketLineChunkParser stream).chunks 0 = w at hpre hall
  obtain ⟨written, raised⟩ := w
  cases raised
  · cases hf : (PacketLineChunkParser stream).flushed <;> cases teeSet <;> simp_all
  · cases teeSet <;> simp_all

theorem cachePack_of_no_escape_flush_write_fails :
    let io : CacheIO := ⟨fun k => k = 1, false, false⟩
    io.closeFails = false ∧ io.teeFails = false ∧
      (((cachePack (ofString "0008NAK\n0000") true io).file = none ∨
        (PacketLineChunkParser (ofString "0008NAK\n0000")).flushed = true ∧
          (cachePack (ofString "0008NAK\n0000") true io).file =
            some (PacketLineChunkParser (ofString "0008NAK\n0000")).chunks.flatten) ∧
        (cachePack (ofString "0008NAK\n0000") true io).tee <+:
          (PacketLineChunkParser (ofString "0008NAK\n0000")).chunks.flatten) :=
  ⟨rfl, rfl, cachePack_of_no_escape _ _ _ rfl rfl⟩

/-- A stream that ends after one frame, with no flush, and a client that is gone: the
partial entry stays on disk. -/
theorem cachePack_keeps_partial_entry :
    cachePack (ofString "0008NAK\n") true ⟨fun _ => false, false, true⟩ =
      ⟨some (ofString "0008NAK\n"), [], true⟩ := by
  decide

end GitCdn.PackCache
