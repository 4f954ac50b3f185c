import GitCdn.PackCache.Entry

/-! # The cached upload-pack protocol

The requests of one fingerprint as `_run_with_cache` runs them: each serves the entry under
its shared lock, or builds it under its exclusive lock by spawning git-upload-pack, whose
stdout a shielded `cache_pack` task (a *writer*) writes to the entry file. A request moves
from one `await` to the next in one step. The entry's lock is the lock of its path, read off
the requests' phases. Files are inodes: `open(path, "wb")` truncates one or makes a new one,
an unlinked inode stays open for those who opened it, and each writer writes at its own
offset. The environment decides the outcome of each await: a `Fault`, or the output of an
upload-pack run.
-/

namespace GitCdn.UploadPack

open Bytes PacketLine PackCache

/-- What the environment may do at an `await` besides letting it return. -/
inductive Fault where
  /-- The client goes away: `CancelledError` at an await of its request. -/
  | cancel
  /-- `write_input` raises, which ends the gather of `_do_upload_pack`. -/
  | inputFails
  /-- The repo-cache work of `_execute` raises: a failed clone, `HTTPUnauthorized`, a
  failed `cat-file`. -/
  | repoFails
  /-- `_upload_pack` finds no mirror and spawns nothing. -/
  | noMirror
  /-- A file operation of `cache_pack` raises: the open, a write, the close, or the write to
  the client in its error path. -/
  | ioFails
  /-- The cleaner deletes the entry. -/
  | clean
  /-- A git-upload-pack run exits non-zero or writes a stream that is not flush-terminated. -/
  | badPack
  deriving DecidableEq, Repr

/-- Where a request of `_run_with_cache` is. -/
inductive Phase where
  /-- Waiting for the shared lock, to check the entry: `async with self.pcache.read_lock()`. -/
  | start
  /-- Holding the shared lock in `send_pack`, at offset `off` of inode `ino`. -/
  | send (ino off : Nat)
  /-- Waiting for the exclusive lock, to check the entry again. -/
  | waitWrite
  /-- Holding the exclusive lock: the repo-cache work of `_execute`. -/
  | execute
  /-- Holding the exclusive lock: awaiting the gather of `write_input` and of the shielded
  `cache_pack` of writer `w`. -/
  | gather (w : Nat)
  /-- Holding the exclusive lock: the `finally` of `_do_upload_pack` reaps the process of
  writer `w`; `failed` if the gather raised. -/
  | reap (w : Nat) (failed : Bool)
  /-- Waiting for the shared lock, to serve the new entry. -/
  | waitServe
  /-- `run` returned. -/
  | returned
  /-- `run` raised. -/
  | raised
  deriving DecidableEq, Repr

/-- The phases inside `async with self.pcache.read_lock()`. -/
def Phase.holdsShared : Phase → Bool
  | .send _ _ => true
  | _ => false

/-- The phases inside `async with self.pcache.write_lock()`. -/
def Phase.holdsExclusive : Phase → Bool
  | .execute | .gather _ | .reap _ _ => true
  | _ => false

/-- A request. -/
structure Req where
  phase : Phase
  /-- The bytes written to its client. -/
  out : Bytes
  /-- `upload_pack_status` is bound to `"error"`. -/
  errorStatus : Bool
  deriving DecidableEq, Repr

/-- Where a `cache_pack` is. -/
inductive WPhase where
  /-- About to `open(self.filename, "wb")`. -/
  | opening
  /-- In `async for data in pkt_parser: f.write(data)`. -/
  | writing
  /-- `end_with_error`: about to read the file back to the client. -/
  | erroring
  /-- About to `os.unlink` the entry. -/
  | unlinking
  /-- Returned, or raised. -/
  | finished (raised : Bool)
  deriving DecidableEq, Repr

/-- A `cache_pack` and the git-upload-pack process it reads. -/
structure Writer where
  /-- The request whose `_do_upload_pack` spawned it. -/
  owner : Nat
  /-- What the packet-line parser yields from the process's stdout. -/
  parsed : Run
  /-- Frames written so far. -/
  written : Nat
  /-- The inode it opened. -/
  ino : Nat
  /-- Its file offset. -/
  pos : Nat
  returncode : Int
  stderr : Bytes
  phase : WPhase
  deriving DecidableEq, Repr

/-- Whether a `cache_pack` is still running. -/
def WPhase.running : WPhase → Bool
  | .finished _ => false
  | _ => true

/-- The requests, the writers and the file system as the entry's path sees it. -/
structure State where
  reqs : List Req
  writers : List Writer
  /-- The inode at the entry's path, if a file is there. -/
  path : Option Nat
  /-- The bytes of each inode, by number. -/
  inodes : List Bytes
  deriving DecidableEq, Repr

/-- The file at the entry's path. -/
def State.entry (s : State) : Option Bytes := s.path.bind fun i => s.inodes[i]?

/-- No request holds the exclusive lock: the shared lock can be granted. -/
def State.noExclusive (s : State) : Bool := s.reqs.all fun r => !r.phase.holdsExclusive

/-- No request holds the lock at all: the exclusive lock can be granted. -/
def State.unlocked (s : State) : Bool :=
  s.reqs.all fun r => !(r.phase.holdsShared || r.phase.holdsExclusive)

/-- `f.write(data)` at offset `pos` of `file`. A write past the end leaves zero bytes between. -/
def writeAt (file : Bytes) (pos : Nat) (data : Bytes) : Bytes :=
  file.take pos ++ List.replicate (pos - file.length) 0 ++ data ++ file.drop (pos + data.length)

/-- A lowercase hex digit. -/
def hexChar (d : Nat) : UInt8 := if d < 10 then (0x30 + d).toUInt8 else (0x61 + d - 10).toUInt8

/-- Modelled from the spec: `packet_line.to_packet`, one packet-line frame, four lowercase hex
digits giving the frame's length and then the payload. -/
def toPacket (payload : Bytes) : Bytes :=
  let n := payload.length + 4
  [n / 4096 % 16, n / 256 % 16, n / 16 % 16, n % 16].map hexChar ++ payload

/-- What the environment may do, and `CHUNK_SIZE`. -/
structure Config where
  allowed : Fault → Bool
  chunk : Int

/-- One event of a run. -/
inductive Event where
  /-- Request `i` goes on from its await, meeting `fault` if there is one. -/
  | req (i : Nat) (fault : Option Fault)
  /-- Request `i`, in `_execute`, spawns git-upload-pack, which will write `stdout` and exit
  with `returncode` and `stderr`. -/
  | spawn (i : Nat) (stdout : Bytes) (returncode : Int) (stderr : Bytes)
  /-- Writer `w` goes on, meeting `fault` if there is one. -/
  | writer (w : Nat) (fault : Option Fault)
  /-- The cleaner deletes the entry, under its lock. -/
  | clean
  deriving DecidableEq, Repr

namespace State

/-- Request `i` is now `r`. -/
def setReq (s : State) (i : Nat) (r : Req) : State := { s with reqs := s.reqs.set i r }

/-- Writer `w` is now `x`. -/
def setWriter (s : State) (w : Nat) (x : Writer) : State := { s with writers := s.writers.set w x }

/-- The `exists()` of a request that has just been granted a lock, and where it goes:
`hit` when the entry is there, `miss` when it is not; it raises on a file of one to three
bytes. -/
def check (s : State) (i : Nat) (r : Req) (hit miss : Phase) : State :=
  match «exists» s.entry with
  | .error _ => s.setReq i { r with phase := .raised }
  | .ok true => s.setReq i { r with phase := hit }
  | .ok false => s.setReq i { r with phase := miss }

/-- The end of `send_pack`'s loop: its `finally` stats the entry, which raises when the path
is gone. -/
def endSend (s : State) (i : Nat) (r : Req) : State :=
  s.setReq i { r with phase := if s.path.isSome then .returned else .raised }

end State

/-- The data `send_pack` reads next at offset `off` of inode `ino`: `f.read(CHUNK_SIZE)`. -/
def State.chunkAt (c : Config) (s : State) (ino off : Nat) : Bytes :=
  read c.chunk (((s.inodes[ino]?).getD []).drop off)

/-- A request's step from its await, when nothing goes wrong: `none` when it cannot move
(waiting for a lock, for its writer, for a spawn, or ended). -/
def reqNext (c : Config) (s : State) (i : Nat) (r : Req) : Option State :=
  match r.phase with
  | .start =>
    if s.noExclusive then some (s.check i r (.send (s.path.getD 0) 0) .waitWrite) else none
  | .waitWrite => if s.unlocked then some (s.check i r .waitServe .execute) else none
  | .gather w =>
    match s.writers[w]? with
    | some ⟨_, _, _, _, _, _, _, .finished raised⟩ => some (s.setReq i { r with phase := .reap w raised })
    | _ => none
  | .reap w failed =>
    match s.writers[w]? with
    | some x =>
      let next := if failed then Phase.raised else .waitServe
      some <| if x.returncode = 0 then s.setReq i { r with phase := next }
        else if utf8Valid x.stderr then
          s.setReq i ⟨next, r.out ++ toPacket (ofString "ERR " ++ x.stderr), true⟩
        else s.setReq i { r with phase := .raised, errorStatus := true }
    | none => none
  | .waitServe =>
    if s.noExclusive then
      some <| match «exists» s.entry with
        | .error _ => s.setReq i { r with phase := .raised }
        | .ok true => s.setReq i { r with phase := .send (s.path.getD 0) 0 }
        | .ok false => s.setReq i { r with phase := if r.errorStatus then .returned else .raised }
    else none
  | .send ino off =>
    some <| if s.chunkAt c ino off = [] then s.endSend i r
      else s.setReq i ⟨.send ino (off + (s.chunkAt c ino off).length),
        r.out ++ s.chunkAt c ino off, r.errorStatus⟩
  | .execute | .returned | .raised => none

/-- A request's step from its await when the environment produces `f`. -/
def reqFault (s : State) (i : Nat) (r : Req) (f : Fault) : Option State :=
  match f, r.phase with
  | .cancel, .send _ _ => some (s.endSend i r)
  | .cancel, .gather w | .inputFails, .gather w => some (s.setReq i { r with phase := .reap w true })
  | .cancel, .returned | .cancel, .raised => none
  | .cancel, _ | .repoFails, .execute => some (s.setReq i { r with phase := .raised })
  | .noMirror, .execute => some (s.setReq i { r with phase := .waitServe })
  | _, _ => none

/-- A writer's step, when nothing goes wrong. -/
def writerNext (s : State) (w : Nat) (x : Writer) : Option State :=
  match x.phase with
  | .opening =>
    let ino := s.path.getD s.inodes.length
    let inodes := if s.path.isSome then s.inodes.set ino [] else s.inodes ++ [[]]
    some { s.setWriter w { x with ino := ino, phase := .writing } with
      path := some ino, inodes := inodes }
  | .writing =>
    match x.parsed.chunks[x.written]? with
    | some frame =>
      some { s.setWriter w { x with written := x.written + 1, pos := x.pos + frame.length } with
        inodes := s.inodes.modify (writeAt · x.pos frame) x.ino }
    | none => some <| s.setWriter w { x with phase := if x.parsed.flushed then .finished false else .erroring }
  | .erroring =>
    match s.entry, s.reqs[x.owner]? with
    | some content, some o =>
      some <| (s.setWriter w { x with phase := .unlinking }).setReq x.owner
        { o with out := o.out ++ content }
    | _, _ => some <| s.setWriter w { x with phase := .finished true }
  | .unlinking => some { s.setWriter w { x with phase := .finished false } with path := none }
  | .finished _ => none

/-- A writer's step when a file operation raises: a failed write ends the parse loop into
the error path, anything else escapes `cache_pack`. -/
def writerFault (s : State) (w : Nat) (x : Writer) : Option State :=
  match x.phase, x.parsed.chunks[x.written]? with
  | .writing, some _ => some (s.setWriter w { x with phase := .erroring })
  | .finished _, _ => none
  | _, _ => some (s.setWriter w { x with phase := .finished true })

/-- The writer of a new git-upload-pack run, spawned by request `i`. -/
def spawned (i : Nat) (stdout : Bytes) (returncode : Int) (stderr : Bytes) : Writer :=
  ⟨i, PacketLineChunkParser stdout, 0, 0, 0, returncode, stderr, .opening⟩

/-- One event; one that cannot happen in `s` leaves it as it is. -/
def step (c : Config) (s : State) : Event → State
  | .req i none => ((s.reqs[i]?).bind (reqNext c s i)).getD s
  | .req i (some f) =>
    if c.allowed f then ((s.reqs[i]?).bind fun r => reqFault s i r f).getD s else s
  | .spawn i stdout returncode stderr =>
    match s.reqs[i]? with
    | some r =>
      if r.phase = .execute ∧ (c.allowed .badPack ∨
          (PacketLineChunkParser stdout).flushed ∧ returncode = 0) then
        { s.setReq i { r with phase := .gather s.writers.length } with
          writers := s.writers ++ [spawned i stdout returncode stderr] }
      else s
    | none => s
  | .writer w none => ((s.writers[w]?).bind (writerNext s w)).getD s
  | .writer w (some f) =>
    if c.allowed f ∧ f = .ioFails then ((s.writers[w]?).bind (writerFault s w)).getD s else s
  | .clean => if c.allowed .clean ∧ s.unlocked ∧ s.path.isSome then { s with path := none } else s

/-- The state after the events `evs`. -/
def run (c : Config) (s : State) (evs : List Event) : State := evs.foldl (step c) s

/-- `n` requests about to start, and the entry file, if any. -/
def init (n : Nat) (file : Option Bytes) : State :=
  ⟨List.replicate n ⟨.start, [], false⟩, [], file.map fun _ => 0, file.toList⟩

/- `Move` lists every change an event can make, with its guard; `step_move` shows that `step`
makes one of them or none. Every invariant is proved over `Move`. -/

/-- The moves of a request from its await, with their guards. -/
inductive ReqMove (c : Config) (s : State) : Req → Req → Prop
  /-- The shared lock is granted and the entry is there: `send_pack`. -/
  | hit {r : Req} : r.phase = .start → s.noExclusive → «exists» s.entry = .ok true →
      ReqMove c s r { r with phase := .send (s.path.getD 0) 0 }
  /-- The shared lock is granted and the entry is not there. -/
  | miss {r : Req} : r.phase = .start → s.noExclusive → «exists» s.entry = .ok false →
      ReqMove c s r { r with phase := .waitWrite }
  /-- The exclusive lock is granted and the entry is not there: `_execute`. -/
  | build {r : Req} : r.phase = .waitWrite → s.unlocked → «exists» s.entry = .ok false →
      ReqMove c s r { r with phase := .execute }
  /-- The exclusive lock is granted and the entry has been built meanwhile. -/
  | built {r : Req} : r.phase = .waitWrite → s.unlocked → «exists» s.entry = .ok true →
      ReqMove c s r { r with phase := .waitServe }
  /-- The shared lock is granted again and the entry is there: `send_pack`. -/
  | serve {r : Req} : r.phase = .waitServe → s.noExclusive → «exists» s.entry = .ok true →
      ReqMove c s r { r with phase := .send (s.path.getD 0) 0 }
  /-- The shared lock is granted again and the entry is not there: `run` returns if its
  upload-pack failed, else raises `RuntimeError`. -/
  | serveMissing {r : Req} : r.phase = .waitServe → s.noExclusive → «exists» s.entry = .ok false →
      ReqMove c s r { r with phase := if r.errorStatus then .returned else .raised }
  /-- A lock is granted and `exists()` raises. -/
  | checkRaises {r : Req} {e : OSError} :
      (r.phase = .start ∧ s.noExclusive ∨ r.phase = .waitWrite ∧ s.unlocked ∨
        r.phase = .waitServe ∧ s.noExclusive) → «exists» s.entry = .error e →
      ReqMove c s r { r with phase := .raised }
  /-- The gather returns, or raises what the `cache_pack` of writer `w` raised. -/
  | gathered {r : Req} {w : Nat} {x : Writer} {raised : Bool} : r.phase = .gather w →
      s.writers[w]? = some x → x.phase = .finished raised →
      ReqMove c s r { r with phase := .reap w raised }
  /-- The process is reaped with exit code 0. -/
  | reaped {r : Req} {w : Nat} {failed : Bool} {x : Writer} : r.phase = .reap w failed →
      s.writers[w]? = some x → x.returncode = 0 →
      ReqMove c s r { r with phase := if failed then .raised else .waitServe }
  /-- The process is reaped with a non-zero exit code: its stderr goes to the client in an
  `ERR` packet. -/
  | reapedError {r : Req} {w : Nat} {failed : Bool} {x : Writer} : r.phase = .reap w failed →
      s.writers[w]? = some x → x.returncode ≠ 0 → utf8Valid x.stderr →
      ReqMove c s r ⟨if failed then .raised else .waitServe,
        r.out ++ toPacket (ofString "ERR " ++ x.stderr), true⟩
  /-- The process is reaped with a non-zero exit code and a stderr that `decode()` rejects. -/
  | reapedUndecodable {r : Req} {w : Nat} {failed : Bool} {x : Writer} :
      r.phase = .reap w failed → s.writers[w]? = some x → x.returncode ≠ 0 →
      utf8Valid x.stderr = false → ReqMove c s r { r with phase := .raised, errorStatus := true }
  /-- `send_pack` writes the next chunk to the client. -/
  | sendChunk {r : Req} {ino off : Nat} : r.phase = .send ino off → s.chunkAt c ino off ≠ [] →
      ReqMove c s r ⟨.send ino (off + (s.chunkAt c ino off).length),
        r.out ++ s.chunkAt c ino off, r.errorStatus⟩
  /-- `send_pack` reads the end of the file, or is cancelled (which it swallows). -/
  | sendEnd {r : Req} {ino off : Nat} : r.phase = .send ino off →
      (s.chunkAt c ino off = [] ∨ c.allowed .cancel) →
      ReqMove c s r { r with phase := if s.path.isSome then .returned else .raised }
  /-- The gather raises: a cancellation, or `write_input`. -/
  | gatherFails {r : Req} {w : Nat} : r.phase = .gather w →
      (c.allowed .cancel ∨ c.allowed .inputFails) → ReqMove c s r { r with phase := .reap w true }
  /-- A cancellation at another await. -/
  | cancel {r : Req} : (r.phase = .start ∨ r.phase = .waitWrite ∨ r.phase = .execute ∨
      r.phase = .waitServe ∨ ∃ w failed, r.phase = .reap w failed) → c.allowed .cancel →
      ReqMove c s r { r with phase := .raised }
  /-- The repo-cache work of `_execute` raises. -/
  | repoFails {r : Req} : r.phase = .execute → c.allowed .repoFails →
      ReqMove c s r { r with phase := .raised }
  /-- `_upload_pack` finds no mirror: `_execute` returns having spawned nothing. -/
  | noMirror {r : Req} : r.phase = .execute → c.allowed .noMirror →
      ReqMove c s r { r with phase := .waitServe }

/-- Every change an event can make. -/
inductive Move (c : Config) : State → State → Prop
  | req {s : State} {i : Nat} {r r' : Req} : s.reqs[i]? = some r → ReqMove c s r r' →
      Move c s (s.setReq i r')
  | spawn {s : State} {i : Nat} {r : Req} {stdout : Bytes} {returncode : Int} {stderr : Bytes} :
      s.reqs[i]? = some r → r.phase = .execute →
      (c.allowed .badPack ∨ (PacketLineChunkParser stdout).flushed ∧ returncode = 0) →
      Move c s { s.setReq i { r with phase := .gather s.writers.length } with
        writers := s.writers ++ [spawned i stdout returncode stderr] }
  | «open» {s : State} {w : Nat} {x : Writer} : s.writers[w]? = some x → x.phase = .opening →
      Move c s { s.setWriter w { x with ino := s.path.getD s.inodes.length, phase := .writing } with
        path := some (s.path.getD s.inodes.length),
        inodes := if s.path.isSome then s.inodes.set (s.path.getD s.inodes.length) []
          else s.inodes ++ [[]] }
  | write {s : State} {w : Nat} {x : Writer} {frame : Bytes} : s.writers[w]? = some x →
      x.phase = .writing → x.parsed.chunks[x.written]? = some frame →
      Move c s { s.setWriter w { x with written := x.written + 1, pos := x.pos + frame.length } with
        inodes := s.inodes.modify (writeAt · x.pos frame) x.ino }
  | parsed {s : State} {w : Nat} {x : Writer} : s.writers[w]? = some x → x.phase = .writing →
      x.parsed.chunks[x.written]? = none →
      Move c s (s.setWriter w { x with phase := if x.parsed.flushed then .finished false else .erroring })
  | tee {s : State} {w : Nat} {x : Writer} {content : Bytes} {o : Req} : s.writers[w]? = some x →
      x.phase = .erroring → s.entry = some content → s.reqs[x.owner]? = some o →
      Move c s ((s.setWriter w { x with phase := .unlinking }).setReq x.owner
        { o with out := o.out ++ content })
  | teeMissing {s : State} {w : Nat} {x : Writer} : s.writers[w]? = some x →
      x.phase = .erroring → (s.entry.isNone ∨ (s.reqs[x.owner]?).isNone) →
      Move c s (s.setWriter w { x with phase := .finished true })
  | unlink {s : State} {w : Nat} {x : Writer} : s.writers[w]? = some x → x.phase = .unlinking →
      Move c s { s.setWriter w { x with phase := .finished false } with path := none }
  | writeFails {s : State} {w : Nat} {x : Writer} {frame : Bytes} : s.writers[w]? = some x →
      x.phase = .writing → x.parsed.chunks[x.written]? = some frame → c.allowed .ioFails →
      Move c s (s.setWriter w { x with phase := .erroring })
  | writerRaises {s : State} {w : Nat} {x : Writer} : s.writers[w]? = some x →
      x.phase.running → c.allowed .ioFails →
      Move c s (s.setWriter w { x with phase := .finished true })
  | clean {s : State} : c.allowed .clean → s.unlocked → s.path.isSome →
      Move c s { s with path := none }

theorem reqNext_move {c : Config} {s s' : State} {i : Nat} {r : Req}
    (h : reqNext c s i r = some s') : ∃ r', ReqMove c s r r' ∧ s' = s.setReq i r' := by
  unfold reqNext at h
  split at h
  · split at h
    · cases h
      unfold State.check
      split
      · exact ⟨_, .checkRaises (.inl ⟨‹_›, ‹_›⟩) ‹_›, rfl⟩
      · exact ⟨_, .hit ‹_› ‹_› ‹_›, rfl⟩
      · exact ⟨_, .miss ‹_› ‹_› ‹_›, rfl⟩
    · cases h
  · split at h
    · cases h
      unfold State.check
      split
      · exact ⟨_, .checkRaises (.inr (.inl ⟨‹_›, ‹_›⟩)) ‹_›, rfl⟩
      · exact ⟨_, .built ‹_› ‹_› ‹_›, rfl⟩
      · exact ⟨_, .build ‹_› ‹_› ‹_›, rfl⟩
    · cases h
  · split at h
    · cases h; exact ⟨_, .gathered ‹_› ‹_› rfl, rfl⟩
    · cases h
  · split at h
    · cases h
      split
      · exact ⟨_, .reaped ‹_› ‹_› ‹_›, rfl⟩
      · split
        · exact ⟨_, .reapedError ‹_› ‹_› ‹_› ‹_›, rfl⟩
        · exact ⟨_, .reapedUndecodable ‹_› ‹_› ‹_› (by simp_all), rfl⟩
    · cases h
  · split at h
    · cases h
      split
      · exact ⟨_, .checkRaises (.inr (.inr ⟨‹_›, ‹_›⟩)) ‹_›, rfl⟩
      · exact ⟨_, .serve ‹_› ‹_› ‹_›, rfl⟩
      · exact ⟨_, .serveMissing ‹_› ‹_› ‹_›, rfl⟩
    · cases h
  · cases h
    split
    · exact ⟨_, .sendEnd ‹_› (.inl ‹_›), rfl⟩
    · exact ⟨_, .sendChunk ‹_› ‹_›, rfl⟩
  all_goals cases h

theorem reqFault_move {c : Config} {s s' : State} {i : Nat} {r : Req} {f : Fault}
    (hf : c.allowed f) (h : reqFault s i r f = some s') :
    ∃ r', ReqMove c s r r' ∧ s' = s.setReq i r' := by
  unfold reqFault at h
  split at h <;> cases h
  · exact ⟨_, .sendEnd ‹_› (.inr hf), rfl⟩
  · exact ⟨_, .gatherFails ‹_› (.inl hf), rfl⟩
  · exact ⟨_, .gatherFails ‹_› (.inr hf), rfl⟩
  · refine ⟨_, .cancel ?_ hf, rfl⟩
    cases hp : r.phase <;> simp_all
  · exact ⟨_, .repoFails ‹_› hf, rfl⟩
  · exact ⟨_, .noMirror ‹_› hf, rfl⟩

theorem writerNext_move {c : Config} {s s' : State} {w : Nat} {x : Writer}
    (hx : s.writers[w]? = some x) (h : writerNext s w x = some s') : Move c s s' := by
  unfold writerNext at h
  split at h
  · cases h; exact .open hx ‹_›
  · split at h <;> cases h
    · exact .write hx ‹_› ‹_›
    · exact .parsed hx ‹_› ‹_›
  · split at h <;> cases h
    · exact .tee hx ‹_› ‹_› ‹_›
    · refine .teeMissing hx ‹_› ?_
      cases he : s.entry <;> cases ho : s.reqs[x.owner]? <;> simp_all
  · cases h; exact .unlink hx ‹_›
  · cases h

theorem writerFault_move {c : Config} {s s' : State} {w : Nat} {x : Writer}
    (hf : c.allowed .ioFails) (hx : s.writers[w]? = some x) (h : writerFault s w x = some s') :
    Move c s s' := by
  unfold writerFault at h
  split at h <;> cases h
  · exact .writeFails hx ‹_› ‹_› hf
  · refine .writerRaises hx ?_ hf
    cases hp : x.phase <;> simp_all [WPhase.running]

/-- `step` makes one of the moves, or none. -/
theorem step_move (c : Config) (s : State) (e : Event) :
    step c s e = s ∨ Move c s (step c s e) := by
  cases e with
  | req i f =>
    cases hr : s.reqs[i]? with
    | none => cases f <;> simp [step, hr]
    | some r =>
      cases f with
      | none =>
        cases hn : reqNext c s i r with
        | none => simp [step, hr, hn]
        | some s' =>
          obtain ⟨r', hm, rfl⟩ := reqNext_move hn
          exact .inr (by simpa [step, hr, hn] using Move.req hr hm)
      | some f =>
        by_cases hf : c.allowed f
        · cases hn : reqFault s i r f with
          | none => simp [step, hr, hn, hf]
          | some s' =>
            obtain ⟨r', hm, rfl⟩ := reqFault_move hf hn
            exact .inr (by simpa [step, hr, hn, hf] using Move.req hr hm)
        · simp [step, hf]
  | spawn i stdout returncode stderr =>
    cases hr : s.reqs[i]? with
    | none => simp [step, hr]
    | some r =>
      by_cases hg : r.phase = .execute ∧ (c.allowed .badPack ∨
          (PacketLineChunkParser stdout).flushed ∧ returncode = 0)
      · exact .inr (by
          simpa [step, hr, hg] using @Move.spawn c s i r stdout returncode stderr hr hg.1 hg.2)
      · simp [step, hr, hg]
  | writer w f =>
    cases hx : s.writers[w]? with
    | none => cases f <;> simp [step, hx]
    | some x =>
      cases f with
      | none =>
        cases hn : writerNext s w x with
        | none => simp [step, hx, hn]
        | some s' => exact .inr (by simpa [step, hx, hn] using writerNext_move hx hn)
      | some f =>
        by_cases hf : c.allowed f ∧ f = .ioFails
        · obtain ⟨hf, rfl⟩ := hf
          cases hn : writerFault s w x with
          | none => simp [step, hx, hn, hf]
          | some s' => exact .inr (by simpa [step, hx, hn, hf] using writerFault_move hf hx hn)
        · simp [step, hf]
  | clean =>
    by_cases hg : c.allowed .clean ∧ s.unlocked ∧ s.path.isSome
    · exact .inr (by simpa [step, hg] using Move.clean hg.1 hg.2.1 hg.2.2)
    · simp [step, hg]

/-- A property that every move keeps holds after any events. -/
theorem run_induction {c : Config} {P : State → Prop}
    (hmove : ∀ s s', P s → Move c s s' → P s') :
    ∀ (evs : List Event) (s : State), P s → P (run c s evs)
  | [], _, h => h
  | e :: evs, s, h => run_induction hmove evs (step c s e) <| by
    rcases step_move c s e with he | hm
    · rw [he]; exact h
    · exact hmove _ _ h hm

namespace State

variable {s : State} {i j w : Nat} {r r' : Req} {x : Writer}

@[simp] theorem setReq_writers : (s.setReq i r).writers = s.writers := rfl
@[simp] theorem setReq_path : (s.setReq i r).path = s.path := rfl
@[simp] theorem setReq_inodes : (s.setReq i r).inodes = s.inodes := rfl
@[simp] theorem setReq_entry : (s.setReq i r).entry = s.entry := rfl
@[simp] theorem setWriter_reqs : (s.setWriter w x).reqs = s.reqs := rfl
@[simp] theorem setWriter_path : (s.setWriter w x).path = s.path := rfl
@[simp] theorem setWriter_inodes : (s.setWriter w x).inodes = s.inodes := rfl
@[simp] theorem setWriter_entry : (s.setWriter w x).entry = s.entry := rfl

theorem reqs_setReq (hr : s.reqs[i]? = some r) (j : Nat) :
    (s.setReq i r').reqs[j]? = if i = j then some r' else s.reqs[j]? := by
  simp [setReq, List.getElem?_set, (List.getElem?_eq_some_iff.mp hr).1]

theorem writers_setWriter (hx : s.writers[w]? = some x) (x' : Writer) (j : Nat) :
    (s.setWriter w x').writers[j]? = if w = j then some x' else s.writers[j]? := by
  simp [setWriter, List.getElem?_set, (List.getElem?_eq_some_iff.mp hx).1]

theorem forall_mem_setReq {P : Req → Prop} (hall : ∀ r ∈ s.reqs, P r) (hr' : P r') :
    ∀ r ∈ (s.setReq i r').reqs, P r := by
  intro r hr
  rcases List.mem_or_eq_of_mem_set hr with hr | rfl
  · exact hall r hr
  · exact hr'

end State

theorem getElem?_singleton_eq {x x' : Writer} {w : Nat} (h : [x][w]? = some x') :
    w = 0 ∧ x' = x := by
  cases w <;> simp_all

theorem Move.reqs_length {c : Config} {s s' : State} (h : Move c s s') :
    s'.reqs.length = s.reqs.length := by
  cases h <;> simp [State.setReq, State.setWriter]

theorem run_reqs_length (c : Config) (s : State) (evs : List Event) :
    (run c s evs).reqs.length = s.reqs.length :=
  run_induction (fun _ _ h hm => hm.reqs_length.trans h) evs s rfl

/-- What the lock of the entry guarantees: at most one request holds it exclusively, and
none holds it shared meanwhile. -/
def LockOk (s : State) : Prop :=
  ∀ (i j : Nat) (ri rj : Req), s.reqs[i]? = some ri → s.reqs[j]? = some rj →
    ri.phase.holdsExclusive → (rj.phase.holdsShared ∨ rj.phase.holdsExclusive) → i = j

/-- A request goes from `r` to `r'` only as the lock allows: it takes the exclusive lock when
no one holds the lock, the shared one when no one holds it exclusively. -/
def Grant (s : State) (r r' : Req) : Prop :=
  (r'.phase.holdsExclusive → r.phase.holdsExclusive ∨ s.unlocked) ∧
    (r'.phase.holdsShared → r.phase.holdsShared ∨ r.phase.holdsExclusive ∨ s.noExclusive)

theorem Grant.of_phase {s : State} {r r' : Req} (h : r'.phase = r.phase) : Grant s r r' :=
  ⟨fun hx => .inl (h ▸ hx), fun hs => .inl (h ▸ hs)⟩

theorem ReqMove.grant {c : Config} {s : State} {r r' : Req} (h : ReqMove c s r r') :
    Grant s r r' := by
  cases h <;> simp only [Grant] <;> (try split) <;>
    simp_all [Phase.holdsExclusive, Phase.holdsShared]

theorem State.not_holds_of_unlocked {s : State} {j : Nat} {rj : Req} (h : s.unlocked)
    (hj : s.reqs[j]? = some rj) : ¬ (rj.phase.holdsShared ∨ rj.phase.holdsExclusive) := by
  have := List.all_eq_true.mp h rj (List.getElem?_mem hj)
  simpa using this

theorem State.not_exclusive_of_noExclusive {s : State} {j : Nat} {rj : Req} (h : s.noExclusive)
    (hj : s.reqs[j]? = some rj) : ¬ rj.phase.holdsExclusive := by
  have := List.all_eq_true.mp h rj (List.getElem?_mem hj)
  simpa using this

theorem LockOk.setReq {s : State} {i : Nat} {r r' : Req} (hlock : LockOk s)
    (hr : s.reqs[i]? = some r) (hg : Grant s r r') : LockOk (s.setReq i r') := by
  intro j k rj rk hj hk hex hhold
  rw [State.reqs_setReq hr] at hj hk
  by_cases hij : i = j
  · -- `i` took the exclusive lock: it held it already, or no one held the lock
    subst hij
    rw [if_pos rfl, Option.some.injEq] at hj
    subst hj
    by_cases hik : i = k
    · exact hik
    rw [if_neg hik] at hk
    rcases hg.1 hex with hx | hu
    · exact absurd (hlock i k r rk hr hk hx hhold) hik
    · exact absurd hhold (State.not_holds_of_unlocked hu hk)
  rw [if_neg hij] at hj
  by_cases hik : i = k
  · -- `i` took a lock while `j` held it exclusively
    subst hik
    rw [if_pos rfl, Option.some.injEq] at hk
    subst hk
    have hheld : r.phase.holdsShared ∨ r.phase.holdsExclusive → False :=
      fun h => hij (hlock j i rj r hj hr hex h).symm
    rcases hhold with hs | hx
    · rcases hg.2 hs with hs' | hx' | hn
      · exact (hheld (.inl hs')).elim
      · exact (hheld (.inr hx')).elim
      · exact absurd hex (State.not_exclusive_of_noExclusive hn hj)
    · rcases hg.1 hx with hx' | hu
      · exact (hheld (.inr hx')).elim
      · exact absurd (.inr hex) (State.not_holds_of_unlocked hu hj)
  rw [if_neg hik] at hk
  exact hlock j k rj rk hj hk hex hhold

theorem Move.lockOk {c : Config} {s s' : State} (h : Move c s s') (hlock : LockOk s) :
    LockOk s' := by
  cases h with
  | req hr hm => exact hlock.setReq hr hm.grant
  | @spawn i r _ _ _ hr hp _ =>
    exact @LockOk.setReq s i r { r with phase := .gather s.writers.length } hlock hr
      ⟨fun _ => .inl (by simp [hp, Phase.holdsExclusive]), fun h => by simp [Phase.holdsShared] at h⟩
  | tee _ _ _ ho => exact hlock.setReq ho (Grant.of_phase rfl)
  | «open» | write | parsed | teeMissing | unlink | writeFails | writerRaises | clean =>
    exact hlock

theorem lockOk_init (n : Nat) (file : Option Bytes) : LockOk (init n file) := by
  intro i j ri rj hi
  simp only [init, List.getElem?_replicate] at hi
  split at hi <;> cases hi
  simp [Phase.holdsExclusive]

/-- In every run, at most one request holds the entry's lock exclusively, and none holds it
shared meanwhile. -/
theorem lockOk_run (c : Config) (n : Nat) (file : Option Bytes) (evs : List Event) :
    LockOk (run c (init n file) evs) :=
  run_induction (fun _ _ h hm => hm.lockOk h) evs _ (lockOk_init n file)

/-- The entry's path names an inode. -/
def PathOk (s : State) : Prop := ∀ p, s.path = some p → p < s.inodes.length

theorem Move.pathOk {c : Config} {s s' : State} (h : Move c s s') (hpath : PathOk s) :
    PathOk s' := by
  cases h with
  | «open» =>
    intro p hp
    cases hs : s.path with
    | none => simp_all
    | some q => have := hpath q hs; simp_all
  | write => simpa [PathOk] using hpath
  | unlink | clean => intro p hp; cases hp
  | req | spawn | parsed | tee | teeMissing | writeFails | writerRaises => exact hpath

theorem pathOk_init (n : Nat) (file : Option Bytes) : PathOk (init n file) := by
  intro p hp
  cases file <;> simp_all [init]

end GitCdn.UploadPack
