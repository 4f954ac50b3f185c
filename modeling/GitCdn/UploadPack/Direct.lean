import GitCdn.UploadPack.Protocol

/-! # Serving without the pack cache

`_do_upload_pack` with no pack cache gathers `write_input` and `_flush_to_writer`, which
copies the process's stdout to the client chunk by chunk, and its `finally` sends the `ERR`
frame of a run that exited non-zero. `avail k` is how many bytes the `k`-th read finds
waiting in the pipe. When `write_input` raises, the gather raises at once and the copy loop
goes on beside the `finally`, so the `ERR` frame can come between two chunks. On a run whose
output the packet-line parser accepts, the entry that `cache_pack` leaves holds that output
up to its flush packet, and `send_pack` serves it as it is: the cache changes nothing a
client receives.
-/

namespace GitCdn.UploadPack

open Bytes PacketLine PackCache

/-- `proc.stdout.read(n)` with `rest` of the stream still to come and `avail` bytes of it
waiting: at most `n` bytes and, before the end, at least one. `read(0)` returns nothing and a
negative `n` reads to the end. -/
def streamRead (n : Int) (avail : Nat) (rest : Bytes) : Bytes :=
  if n = 0 then [] else if n < 0 then rest else rest.take (min n.toNat (max avail 1))

theorem streamRead_isPrefix (n : Int) (avail : Nat) (rest : Bytes) :
    streamRead n avail rest <+: rest := by
  unfold streamRead
  split_ifs
  · exact List.nil_prefix
  · exact List.prefix_refl _
  · exact List.take_prefix _ _

theorem eq_nil_of_streamRead_eq_nil {n : Int} {avail : Nat} {rest : Bytes} (hn : n ≠ 0)
    (h : streamRead n avail rest = []) : rest = [] := by
  unfold streamRead at h
  split_ifs at h with h0 hneg
  · exact absurd h0 hn
  · exact h
  · rcases List.take_eq_nil_iff.mp h with h | h
    · omega
    · exact h

/-- What `_flush_to_writer` did: the chunks whose `writer.write` returned, in order, and what
the write that raised raised; the loop stops there. -/
structure Flush where
  accepted : List Bytes
  failed : Option WriteOutcome
  deriving Repr, DecidableEq

/-- `_flush_to_writer(proc.stdout.read)` with `CHUNK_SIZE = n`, where `rest` of the stdout is
still to come and the next read and the next write are the `k`-th. -/
def flushToWriter (n : Int) (avail : Nat → Nat) (write : Nat → WriteOutcome) (rest : Bytes)
    (k : Nat) : Flush :=
  if _h : streamRead n (avail k) rest = [] then ⟨[], none⟩ else
  match write k with
  | .ok =>
    let f := flushToWriter n avail write (rest.drop (streamRead n (avail k) rest).length) (k + 1)
    { f with accepted := streamRead n (avail k) rest :: f.accepted }
  | e => ⟨[], some e⟩
termination_by rest.length
decreasing_by
  have h1 := List.length_pos.mpr _h
  have h2 := (streamRead_isPrefix n (avail k) rest).length_le
  simp_wf
  omega

section Flush

variable {n : Int} {avail : Nat → Nat} {write : Nat → WriteOutcome}

theorem flushToWriter_isPrefix (rest : Bytes) (k : Nat) :
    (flushToWriter n avail write rest k).accepted.flatten <+: rest := by
  induction rest, k using flushToWriter.induct n avail write with
  | case1 rest k h => rw [flushToWriter, dif_pos h]; exact List.nil_prefix
  | case2 rest k h hw ih =>
    rw [flushToWriter, dif_neg h]
    simp only [hw, List.flatten_cons]
    calc _ <+: streamRead n (avail k) rest ++ rest.drop (streamRead n (avail k) rest).length :=
          (List.prefix_append_right_inj _).mpr ih
      _ = rest := List.prefix_iff_eq_append.mp (streamRead_isPrefix n (avail k) rest)
  | case3 rest k h hw => rw [flushToWriter, dif_neg h]; split <;> simp_all

theorem flushToWriter_of_ok (hn : n ≠ 0) (hw : ∀ k, write k = .ok) (rest : Bytes) (k : Nat) :
    (flushToWriter n avail write rest k).accepted.flatten = rest ∧
      (flushToWriter n avail write rest k).failed = none := by
  induction rest, k using flushToWriter.induct n avail write with
  | case1 rest k h =>
    rw [flushToWriter, dif_pos h]
    exact ⟨(eq_nil_of_streamRead_eq_nil hn h).symm, rfl⟩
  | case2 rest k h hwk ih =>
    rw [flushToWriter, dif_neg h]
    simp only [hwk, List.flatten_cons, ih.1, ih.2, and_true]
    exact (List.prefix_iff_eq_append.mp (streamRead_isPrefix n (avail k) rest))
  | case3 rest k h hwk => exact absurd (hw k) hwk

theorem flushToWriter_zero (rest : Bytes) (k : Nat) :
    flushToWriter 0 avail write rest k = ⟨[], none⟩ := by
  rw [flushToWriter, dif_pos (by simp [streamRead])]

end Flush

/-- What the client of one `_do_upload_pack` without a pack cache received, and whether the
call raised. -/
structure Response where
  out : Bytes
  raised : Bool
  deriving Repr, DecidableEq

/-- `_do_upload_pack(data)` with no pack cache, on a git-upload-pack run that writes `stdout`
and exits with `returncode` and `stderr`: the gather raises when a write of the copy loop
does, and the `finally` then sends the `ERR` frame of a non-zero exit with the next write,
or raises when `stderr.decode()` does. -/
def doUploadPackDirect (n : Int) (avail : Nat → Nat) (write : Nat → WriteOutcome)
    (stdout : Bytes) (returncode : Int) (stderr : Bytes) : Response :=
  let f := flushToWriter n avail write stdout 0
  let next := f.accepted.length + if f.failed.isSome then 1 else 0
  if returncode = 0 then ⟨f.accepted.flatten, f.failed.isSome⟩
  else if utf8Valid stderr then
    match write next with
    | .ok => ⟨f.accepted.flatten ++ toPacket (ofString "ERR " ++ stderr), f.failed.isSome⟩
    | _ => ⟨f.accepted.flatten, true⟩
  else ⟨f.accepted.flatten, true⟩

theorem flushToWriter_all_ok (n : Int) (avail : Nat → Nat) {write : Nat → WriteOutcome}
    (hw : ∀ i, write i = .ok) (stdout : Bytes) :
    (flushToWriter n avail write stdout 0).accepted.flatten = (if n = 0 then [] else stdout) ∧
      (flushToWriter n avail write stdout 0).failed = none := by
  split_ifs with hn
  · subst hn; simp [flushToWriter_zero]
  · exact flushToWriter_of_ok hn hw stdout 0

theorem doUploadPackDirect_of_ok (n : Int) (avail : Nat → Nat) (stdout : Bytes)
    (returncode : Int) (stderr : Bytes) :
    doUploadPackDirect n avail (fun _ => .ok) stdout returncode stderr =
      if returncode = 0 then ⟨if n = 0 then [] else stdout, false⟩
      else if utf8Valid stderr then
        ⟨(if n = 0 then [] else stdout) ++ toPacket (ofString "ERR " ++ stderr), false⟩
      else ⟨if n = 0 then [] else stdout, true⟩ := by
  have hf := flushToWriter_all_ok n avail (fun _ => rfl) stdout
  simp only [doUploadPackDirect, hf.1, hf.2, Option.isSome_none]

theorem doUploadPackDirect_out (n : Int) (avail : Nat → Nat) (write : Nat → WriteOutcome)
    (stdout : Bytes) (returncode : Int) (stderr : Bytes) :
    ∃ pre, pre <+: stdout ∧ ((doUploadPackDirect n avail write stdout returncode stderr).out = pre ∨
      returncode ≠ 0 ∧ (doUploadPackDirect n avail write stdout returncode stderr).out =
        pre ++ toPacket (ofString "ERR " ++ stderr)) := by
  refine ⟨_, @flushToWriter_isPrefix n avail write stdout 0, ?_⟩
  by_cases h0 : returncode = 0
  · exact .inl (by simp [doUploadPackDirect, h0])
  simp only [doUploadPackDirect, if_neg h0]
  split
  · split
    · exact .inr ⟨h0, rfl⟩
    · exact .inl rfl
  · exact .inl rfl

/-- `_do_upload_pack(data)` with no pack cache. `input` is how `write_input` ends: `none` when it
returns (a `BrokenPipeError` is swallowed) and the gather awaits the copy loop; `some k` when it
raises (`RuntimeError`, `ConnectionResetError`), and the `finally` then writes its `ERR` frame
after `k` writes of the copy loop, or after the loop if it makes fewer. `write` gives the
outcome of each write to the client in the order they happen. -/
def doUploadPackUncached (input : Option Nat) (n : Int) (avail : Nat → Nat)
    (write : Nat → WriteOutcome) (stdout : Bytes) (returncode : Int) (stderr : Bytes) :
    Response :=
  match input with
  | none => doUploadPackDirect n avail write stdout returncode stderr
  | some k =>
    let f := flushToWriter n avail (fun i => write (if i < k then i else i + 1)) stdout 0
    let pos := min k (f.accepted.length + if f.failed.isSome then 1 else 0)
    let err := if returncode ≠ 0 ∧ utf8Valid stderr ∧ write pos = .ok then
      toPacket (ofString "ERR " ++ stderr) else []
    ⟨(f.accepted.take pos).flatten ++ err ++ (f.accepted.drop pos).flatten, true⟩

/-- When every write returns, the client of an uncached request gets the process's stdout,
whatever the buffering of the pipe, with the `ERR` frame of its stderr after a non-zero exit:
at the end when `write_input` returns, else anywhere in it. The call raises when
`write_input` does, and instead of sending the frame when the stderr is not UTF-8. With
`CHUNK_SIZE = 0` the copy loop sends nothing at all. -/
theorem doUploadPackUncached_of_ok (input : Option Nat) (n : Int) (avail : Nat → Nat)
    (stdout : Bytes) (returncode : Int) (stderr : Bytes) :
    ∃ pre post, pre ++ post = (if n = 0 then [] else stdout) ∧ (input = none → post = []) ∧
      doUploadPackUncached input n avail (fun _ => .ok) stdout returncode stderr =
        if returncode = 0 then ⟨pre ++ post, input.isSome⟩
        else if utf8Valid stderr then
          ⟨pre ++ toPacket (ofString "ERR " ++ stderr) ++ post, input.isSome⟩
        else ⟨pre ++ post, true⟩ := by
  cases input with
  | none =>
    refine ⟨_, [], List.append_nil _, fun _ => rfl, ?_⟩
    simp only [doUploadPackUncached, doUploadPackDirect_of_ok, Option.isSome_none,
      List.append_nil]
  | some k =>
    have hflat := (flushToWriter_all_ok n avail (fun _ => rfl) stdout).1
    simp only [doUploadPackUncached]
    generalize flushToWriter n avail (fun _ => .ok) stdout 0 = f at hflat ⊢
    generalize min k (f.accepted.length + if f.failed.isSome then 1 else 0) = pos
    refine ⟨(f.accepted.take pos).flatten, (f.accepted.drop pos).flatten,
      by rw [← List.flatten_append, List.take_append_drop, hflat], nofun, ?_⟩
    split_ifs <;> simp_all

example : doUploadPackUncached (some 1) 1 (fun _ => 1) (fun _ => .ok) (ofString "ab") 1
    (ofString "x") = ⟨ofString "a" ++ toPacket (ofString "ERR x") ++ ofString "b", true⟩ := by
  have hf : flushToWriter 1 (fun _ => 1) (fun _ => .ok) (ofString "ab") 0 =
      ⟨[ofString "a", ofString "b"], none⟩ := by
    rw [flushToWriter, dif_neg (by decide), flushToWriter, dif_neg (by decide), flushToWriter,
      dif_pos (by decide)]
    rfl
  simp only [doUploadPackUncached, hf]
  decide

/-- Whatever the pipe, whichever writes raise and however `write_input` ends, the client of an
uncached request gets a prefix of the process's stdout, in order, with nothing more or, only
after a non-zero exit, the `ERR` frame of its stderr somewhere in it: at the end when
`write_input` returns. -/
theorem doUploadPackUncached_out (input : Option Nat) (n : Int) (avail : Nat → Nat)
    (write : Nat → WriteOutcome) (stdout : Bytes) (returncode : Int) (stderr : Bytes) :
    ∃ pre post, pre ++ post <+: stdout ∧ (input = none → post = []) ∧
      ((doUploadPackUncached input n avail write stdout returncode stderr).out = pre ++ post ∨
        returncode ≠ 0 ∧ (doUploadPackUncached input n avail write stdout returncode stderr).out =
          pre ++ toPacket (ofString "ERR " ++ stderr) ++ post) := by
  cases input with
  | none =>
    obtain ⟨pre, hpre, hout⟩ := doUploadPackDirect_out n avail write stdout returncode stderr
    exact ⟨pre, [], by simpa using hpre, fun _ => rfl, by simpa using hout⟩
  | some k =>
    have hpre := @flushToWriter_isPrefix n avail (fun i => write (if i < k then i else i + 1))
      stdout 0
    simp only [doUploadPackUncached]
    generalize flushToWriter n avail (fun i => write (if i < k then i else i + 1)) stdout 0 = f
      at hpre ⊢
    generalize min k (f.accepted.length + if f.failed.isSome then 1 else 0) = pos
    refine ⟨(f.accepted.take pos).flatten, (f.accepted.drop pos).flatten,
      by rwa [← List.flatten_append, List.take_append_drop], nofun, ?_⟩
    split_ifs with h
    · exact .inr ⟨h.1, rfl⟩
    · exact .inl (by simp)

/-- On a run that exits 0 with an output the packet-line parser accepts, and with no failing
file operation or client write, the entry `cache_pack` leaves holds the output up to and
including a flush packet, `send_pack` serves it whole at any chunk size other than `0`, and
an uncached request would have received the same bytes and then only what followed that
flush. -/
theorem cachePack_entry_serves_direct_output {stdout : Bytes}
    (hflushed : (PacketLineChunkParser stdout).flushed = true) (teeSet : Bool) {size n : Int}
    (hsize : size ≠ 0) (hn : n ≠ 0) (avail : Nat → Nat) (stderr : Bytes) :
    ∃ entry rest, (cachePack stdout teeSet ⟨fun _ => false, false, false⟩).file = some entry ∧
      (sendLoop size (fun _ => .ok) entry 0).accepted.flatten = entry ∧
      (doUploadPackDirect n avail (fun _ => .ok) stdout 0 stderr).out = entry ++ rest ∧
      flushPkt <:+ entry := by
  obtain ⟨rest, hrest⟩ := parse_flatten_isPrefix (.header []) stdout
  obtain ⟨pre, hpre⟩ := @parse_chunks_of_flushed (.header []) stdout
    (by simp [Pos.Reachable]) hflushed
  refine ⟨_, rest, by rw [cachePack_of_flushed teeSet hflushed],
    sendLoop_accepted_of_no_failure hsize _ 0 (sendLoop_failed_of_ok (fun _ => rfl) _ 0), ?_, ?_⟩
  · have hout : (doUploadPackDirect n avail (fun _ => .ok) stdout 0 stderr).out = stdout := by
      simp only [doUploadPackDirect, (flushToWriter_of_ok hn (fun _ => rfl) stdout 0).1, if_true]
    rw [hout]
    simpa [Pos.pending] using hrest.symm
  · rw [PacketLineChunkParser, hpre, List.flatten_append, List.flatten_singleton]
    exact List.suffix_append _ _

theorem cachePack_entry_serves_direct_output_nak :
    (PacketLineChunkParser (ofString "0008NAK\n0000")).flushed = true ∧ (1048576 : Int) ≠ 0 ∧
      (32768 : Int) ≠ 0 ∧
      ∃ entry rest, (cachePack (ofString "0008NAK\n0000") true
          ⟨fun _ => false, false, false⟩).file = some entry ∧
        (sendLoop 1048576 (fun _ => .ok) entry 0).accepted.flatten = entry ∧
        (doUploadPackDirect 32768 (fun _ => 1) (fun _ => .ok) (ofString "0008NAK\n0000") 0
          []).out = entry ++ rest ∧
        flushPkt <:+ entry :=
  ⟨by decide, by decide, by decide,
    cachePack_entry_serves_direct_output (by decide) true (by decide) (by decide) _ _⟩

end GitCdn.UploadPack
