import GitCdn.UploadPack.Termination
import Mathlib.Data.List.Infix

/-! # One upload-pack for concurrent misses

Requests of one fingerprint that start while the entry is missing (or is a file `exists()`
rejects without raising) run with no cancellation, no failing `write_input`, no cleaner and
no failing file operation, and every git-upload-pack run exits 0 with a flush-terminated
stream; the repo-cache work of `_execute` may fail. The run goes through three stages: nothing
built; the one `cache_pack` writing under its request's exclusive lock; the entry built,
holding that run's whole output, which every request that returns has sent. In every stage
some event moves while a request has not ended, and each move lowers the measure of
`Termination`: every run goes on until each request has returned or raised.
-/

namespace GitCdn.UploadPack

open Bytes PacketLine PackCache

/-- The whole output of a `cache_pack`: every frame its parser yields. -/
def Writer.full (x : Writer) : Bytes := x.parsed.chunks.flatten

/-- An upload-pack run that exits 0 with a flush-terminated stream. -/
structure Writer.Good (x : Writer) : Prop where
  flushed : x.parsed.flushed
  returncode : x.returncode = 0
  ends : ∃ pre, x.parsed.chunks = pre ++ [flushPkt]

theorem Writer.Good.exists_full {x : Writer} (hx : x.Good) : «exists» (some x.full) = .ok true := by
  obtain ⟨pre, hpre⟩ := hx.ends
  have hlen : 4 ≤ x.full.length := by simp [Writer.full, hpre, flushPkt, ofString]
  have hsuffix : flushPkt <:+ x.full := by
    simp only [Writer.full, hpre, List.flatten_append, List.flatten_singleton]
    exact List.suffix_append _ _
  rw [exists_eq_ok (.inr hlen), decide_eq_true ⟨fun h => by simp [h] at hlen, hsuffix⟩]

theorem Writer.Good.congr {x x' : Writer} (hx : x.Good) (hp : x'.parsed = x.parsed)
    (hr : x'.returncode = x.returncode) : x'.Good :=
  ⟨hp ▸ hx.flushed, hr ▸ hx.returncode, hp ▸ hx.ends⟩

/-- The environment of these runs: only the repo-cache work of `_execute` may go wrong. -/
def Config.Calm (c : Config) : Prop := ∀ f, c.allowed f → f = .repoFails ∨ f = .noMirror

/-- The repo-cache work of `_execute` may fail. -/
def Config.Faulty (c : Config) : Prop := c.allowed .repoFails ∨ c.allowed .noMirror

/-- A request that has sent nothing and holds no lock. It raised, or waits to serve before the
entry is built, only when the repo-cache work of an `_execute` may fail. -/
def Waiting (c : Config) (built : Prop) (r : Req) : Prop :=
  r.out = [] ∧ r.errorStatus = false ∧
    (r.phase = .start ∨ r.phase = .waitWrite ∨ r.phase = .waitServe ∧ (built ∨ c.Faulty) ∨
      r.phase = .raised ∧ c.Faulty)

theorem Waiting.ne_returned {c : Config} {built : Prop} {r : Req} (h : Waiting c built r) :
    r.phase ≠ .returned := by
  rcases h.2.2 with h | h | ⟨h, -⟩ | ⟨h, -⟩ <;> simp [h]

theorem Waiting.mono {c : Config} {built built' : Prop} {r : Req} (h : Waiting c built r)
    (hb : built → built') : Waiting c built' r := by
  obtain ⟨hout, herr, hp⟩ := h
  exact ⟨hout, herr, hp.imp_right (Or.imp_right (Or.imp_left (And.imp_right (Or.imp_left hb))))⟩

theorem Waiting.faulty {c : Config} {built : Prop} {r : Req} (h : Waiting c built r)
    (hp : r.phase = .raised) : c.Faulty := by
  rcases h.2.2 with h | h | ⟨h, -⟩ | ⟨-, h⟩ <;> simp_all

/-- Nothing is built: no writer, and no valid entry. -/
structure Unbuilt (c : Config) (s : State) : Prop where
  writers : s.writers = []
  entry : «exists» s.entry = .ok false
  reqs : ∀ r ∈ s.reqs,
    Waiting c False r ∨ r.phase = .execute ∧ r.out = [] ∧ r.errorStatus = false

/-- The one writer runs, awaited by its request under the exclusive lock. -/
structure Building (c : Config) (s : State) (x : Writer) : Prop where
  writers : s.writers = [x]
  good : x.Good
  file : x.phase = .opening ∧ x.written = 0 ∧ x.pos = 0 ∧ «exists» s.entry = .ok false ∨
    x.phase = .writing ∧ s.path = some x.ino ∧
      s.inodes[x.ino]? = some (x.parsed.chunks.take x.written).flatten ∧
      x.pos = (x.parsed.chunks.take x.written).flatten.length
  owner : s.reqs[x.owner]? = some ⟨.gather 0, [], false⟩
  others : ∀ i r, s.reqs[i]? = some r → i ≠ x.owner → Waiting c False r

/-- What a request may be doing once the entry is built: waiting, awaiting its own
writer, sending the entry (`off` bytes of it sent), or returned having sent all of it. -/
def Served (c : Config) (x : Writer) (r : Req) : Prop :=
  Waiting c True r ∨ (r.phase = .gather 0 ∨ r.phase = .reap 0 false) ∧ r.out = [] ∧
    r.errorStatus = false ∨
  (∃ off, r.phase = .send x.ino off ∧ off ≤ x.full.length ∧ r.out = x.full.take off) ∨
  r.phase = .returned ∧ r.out = x.full

/-- The entry is built: it holds the whole output of the one writer. -/
structure Built (c : Config) (s : State) (x : Writer) : Prop where
  writers : s.writers = [x]
  good : x.Good
  finished : x.phase = .finished false
  path : s.path = some x.ino
  inode : s.inodes[x.ino]? = some x.full
  reqs : ∀ r ∈ s.reqs, Served c x r

/-- The stage a run is in. -/
def Staged (c : Config) (s : State) : Prop :=
  LockOk s ∧ PathOk s ∧ (Unbuilt c s ∨ (∃ x, Building c s x) ∨ ∃ x, Built c s x)

theorem take_append_read (size : Int) (file : Bytes) (off : Nat) :
    file.take off ++ PackCache.read size (file.drop off) =
      file.take (off + (PackCache.read size (file.drop off)).length) := by
  rw [List.take_add, ← List.prefix_iff_eq_take.mp (PackCache.read_isPrefix size _)]

theorem read_eq_nil {size : Int} (hsize : size ≠ 0) {rest : Bytes} (h : PackCache.read size rest = []) :
    rest = [] := by
  unfold PackCache.read at h
  split at h
  · exact h
  · rcases List.take_eq_nil_iff.mp h with h0 | h0
    · omega
    · exact h0

theorem writeAt_length (file data : Bytes) : writeAt file file.length data = file ++ data := by
  simp [writeAt]

theorem Served.quiet {c : Config} {x : Writer} {r : Req} (h : Served c x r)
    (hsend : ∀ ino off, r.phase ≠ .send ino off) (hret : r.phase ≠ .returned) :
    r.out = [] ∧ r.errorStatus = false := by
  rcases h with ⟨hout, herr, -⟩ | ⟨-, hout, herr⟩ | ⟨off, hp, -⟩ | ⟨hp, -⟩
  · exact ⟨hout, herr⟩
  · exact ⟨hout, herr⟩
  · exact absurd hp (hsend _ off)
  · exact absurd hp hret

theorem Served.gather {c : Config} {x : Writer} {r : Req} (h : Served c x r) {w : Nat}
    (hp : r.phase = .gather w) : w = 0 := by
  rcases h with ⟨-, -, h⟩ | ⟨h | h, -⟩ | ⟨_, h, -⟩ | ⟨h, -⟩ <;> simp_all

theorem Served.reap {c : Config} {x : Writer} {r : Req} (h : Served c x r) {w : Nat}
    {failed : Bool} (hp : r.phase = .reap w failed) : w = 0 ∧ failed = false := by
  rcases h with ⟨-, -, h⟩ | ⟨h | h, -⟩ | ⟨_, h, -⟩ | ⟨h, -⟩ <;> simp_all

theorem Served.ne_execute {c : Config} {x : Writer} {r : Req} (h : Served c x r) :
    r.phase ≠ .execute := by
  rcases h with ⟨-, -, h⟩ | ⟨h | h, -⟩ | ⟨_, h, -⟩ | ⟨h, -⟩ <;> intro he <;> simp_all

theorem Built.entry {c : Config} {s : State} {x : Writer} (hs : Built c s x) :
    s.entry = some x.full := by
  simp [State.entry, hs.path, hs.inode]

theorem Built.exists {c : Config} {s : State} {x : Writer} (hs : Built c s x) :
    «exists» s.entry = .ok true :=
  hs.entry ▸ hs.good.exists_full

theorem Built.chunkAt {c : Config} {s : State} {x : Writer} (hs : Built c s x) (off : Nat) :
    s.chunkAt c x.ino off = PackCache.read c.chunk (x.full.drop off) := by
  simp [State.chunkAt, hs.inode]

theorem Building.req_at {c : Config} {s : State} {x : Writer} (hs : Building c s x) {i : Nat}
    {r : Req} (hi : s.reqs[i]? = some r) :
    i = x.owner ∧ r = ⟨.gather 0, [], false⟩ ∨ i ≠ x.owner ∧ Waiting c False r := by
  by_cases hio : i = x.owner
  · rw [hio, hs.owner, Option.some.injEq] at hi
    exact .inl ⟨hio, hi.symm⟩
  · exact .inr ⟨hio, hs.others i r hi hio⟩

theorem Building.mem_reqs {c : Config} {s : State} {x : Writer} (hs : Building c s x) {r : Req}
    (hr : r ∈ s.reqs) : r = ⟨.gather 0, [], false⟩ ∨ Waiting c False r :=
  let ⟨_, hi⟩ := List.getElem?_of_mem hr
  (hs.req_at hi).imp And.right And.right

theorem Building.locked {c : Config} {s : State} {x : Writer} (hs : Building c s x) :
    s.noExclusive = false ∧ s.unlocked = false := by
  have hmem := List.getElem?_mem hs.owner
  constructor <;> simp only [State.noExclusive, State.unlocked, List.all_eq_false] <;>
    exact ⟨_, hmem, by simp [Phase.holdsExclusive]⟩

section Calm

variable {c : Config} (hcalm : c.Calm)
include hcalm

theorem Config.Calm.off {f : Fault} (hr : f ≠ .repoFails) (hn : f ≠ .noMirror) :
    c.allowed f = false := by
  by_contra h
  rcases hcalm f (by simpa using h) with rfl | rfl <;> contradiction

theorem Unbuilt.reqMove {s : State} {r r' : Req} (hs : Unbuilt c s) (hr : r ∈ s.reqs)
    (hm : ReqMove c s r r') :
    Waiting c False r' ∨ r'.phase = .execute ∧ r'.out = [] ∧ r'.errorStatus = false := by
  have hentry := hs.entry
  rcases hs.reqs r hr with ⟨hout, herr, hp⟩ | ⟨hp, hout, herr⟩ <;>
  cases hm <;> simp_all [Waiting, Config.Faulty, hcalm.off]

/-- The spawn starts the one writer; every other request is waiting, as the spawning one
holds the exclusive lock. -/
theorem Unbuilt.move {s s' : State} (hs : Unbuilt c s) (hlock : LockOk s) (h : Move c s s') :
    Unbuilt c s' ∨ ∃ x, Building c s' x := by
  cases h with
  | req hr hm =>
    exact .inl ⟨hs.writers, hs.entry,
      State.forall_mem_setReq hs.reqs (hs.reqMove hcalm (List.getElem?_mem hr) hm)⟩
  | @spawn i r stdout returncode stderr hr hp hgood =>
    have hgood : (PacketLineChunkParser stdout).flushed ∧ returncode = 0 :=
      hgood.resolve_left (by simp [hcalm.off])
    obtain ⟨-, hout, herr⟩ := (hs.reqs r (List.getElem?_mem hr)).resolve_left
      (by simp [Waiting, hp])
    refine .inr ⟨spawned i stdout returncode stderr,
      by simp [hs.writers], ⟨hgood.1, hgood.2, ?_⟩, .inl ⟨rfl, rfl, rfl, hs.entry⟩, ?_, ?_⟩
    · exact parse_chunks_of_flushed (by simp [Pos.Reachable]) hgood.1
    · simp [State.reqs_setReq hr, spawned, hs.writers, hout, herr]
    · intro j rj hj (hji : j ≠ i)
      rw [State.reqs_setReq hr, if_neg (Ne.symm hji)] at hj
      refine (hs.reqs rj (List.getElem?_mem hj)).resolve_right fun ⟨hx, _⟩ => hji ?_
      exact (hlock i j r rj hr hj (by simp [hp, Phase.holdsExclusive])
        (.inr (by simp [hx, Phase.holdsExclusive]))).symm
  | «open» hx | write hx | parsed hx | tee hx | teeMissing hx | unlink hx | writeFails hx
  | writerRaises hx => simp [hs.writers] at hx
  | clean hf => simp [hcalm.off] at hf

/-- While the writer runs no request moves but the writer: it opens the entry, writes the
frames at the end of what it wrote, and closes it when its parser has yielded them all. -/
theorem Building.move {s s' : State} {x : Writer} (hs : Building c s x) (hpath : PathOk s)
    (h : Move c s s') : (∃ x', Building c s' x') ∨ ∃ x', Built c s' x' := by
  obtain ⟨hnx, hun⟩ := hs.locked
  have hrun : x.phase = .opening ∨ x.phase = .writing := by
    rcases hs.file with h | h
    · exact .inl h.1
    · exact .inr h.1
  cases h with
  | @req i r r' hr hm =>
    exfalso
    rcases hs.req_at hr with ⟨rfl, rfl⟩ | ⟨-, hw⟩
    · cases hm with
      | gathered hg hx hfin =>
        obtain ⟨-, hxx⟩ := getElem?_singleton_eq (hs.writers ▸ hx)
        rw [hxx] at hfin
        rcases hrun with h | h <;> simp [h] at hfin
      | gatherFails _ hf => simp [hcalm.off] at hf
      | _ => simp_all
    · cases hm <;> simp_all [Waiting, hcalm.off]
  | @spawn i r _ _ _ hr hp _ =>
    exfalso
    rcases hs.req_at hr with ⟨-, rfl⟩ | ⟨-, hw⟩
    · cases hp
    · simp_all [Waiting]
  | @«open» w x' hx hp =>
    obtain ⟨rfl, hxx⟩ := getElem?_singleton_eq (hs.writers ▸ hx)
    subst x'
    obtain ⟨-, hw0, hpos0, -⟩ := hs.file.resolve_right (by simp [hp])
    refine .inl ⟨{ x with ino := s.path.getD s.inodes.length, phase := .writing },
      by simp [State.setWriter, hs.writers], hs.good.congr rfl rfl, .inr ⟨rfl, rfl, ?_, ?_⟩, hs.owner, hs.others⟩
    · cases hp' : s.path with
      | none => simp [hw0]
      | some p => simp [hw0, hpath p hp']
    · simp [hw0, hpos0]
  | @write w x' frame hx hp hframe =>
    obtain ⟨rfl, hxx⟩ := getElem?_singleton_eq (hs.writers ▸ hx)
    subst x'
    obtain ⟨-, hpath', hino, hpos⟩ := hs.file.resolve_left (by simp [hp])
    refine .inl ⟨{ x with written := x.written + 1, pos := x.pos + frame.length },
      by simp [State.setWriter, hs.writers], hs.good.congr rfl rfl, .inr ⟨hp, hpath', ?_, ?_⟩, hs.owner,
      hs.others⟩
    · simp only [List.getElem?_modify_eq, hino, hpos, Option.map_eq_map, Option.map_some',
        writeAt_length]
      simp [List.take_succ, hframe]
    · simp [hpos, List.take_succ, hframe]
  | @parsed w x' hx hp hnone =>
    obtain ⟨rfl, hxx⟩ := getElem?_singleton_eq (hs.writers ▸ hx)
    subst x'
    obtain ⟨-, hpath', hino, -⟩ := hs.file.resolve_left (by simp [hp])
    have hall : x.parsed.chunks.take x.written = x.parsed.chunks :=
      List.take_of_length_le (List.getElem?_eq_none_iff.mp hnone)
    refine .inr ⟨{ x with phase := if x.parsed.flushed then .finished false else .erroring },
      by simp [State.setWriter, hs.writers], hs.good.congr rfl rfl, by simp [hs.good.flushed], hpath',
      by simpa [hall] using hino, fun r hr => ?_⟩
    rcases hs.mem_reqs hr with rfl | hw
    · exact .inr (.inl ⟨.inl rfl, rfl, rfl⟩)
    · exact .inl (hw.mono fun _ => trivial)
  | tee hx hp | teeMissing hx hp | unlink hx hp =>
    obtain ⟨-, hxx⟩ := getElem?_singleton_eq (hs.writers ▸ hx)
    rw [hxx] at hp
    rcases hrun with h | h <;> simp [h] at hp
  | writeFails _ _ _ hf | writerRaises _ _ hf | clean hf => simp [hcalm.off] at hf

theorem Built.reqMove (hchunk : c.chunk ≠ 0) {s : State} {x : Writer} {r r' : Req}
    (hs : Built c s x) (hr : r ∈ s.reqs) (hm : ReqMove c s r r') : Served c x r' := by
  have hserved := hs.reqs r hr
  have hentry := hs.exists
  cases hm with
  | hit hp | serve hp =>
    obtain ⟨hout, -⟩ := hserved.quiet (by simp [hp]) (by simp [hp])
    exact .inr (.inr (.inl ⟨0, by simp [hs.path], Nat.zero_le _, by simp [hout]⟩))
  | built hp =>
    obtain ⟨hout, herr⟩ := hserved.quiet (by simp [hp]) (by simp [hp])
    exact .inl ⟨hout, herr, by simp⟩
  | miss _ _ he | build _ _ he | serveMissing _ _ he | checkRaises _ he => simp [hentry] at he
  | gathered hg hx hfin =>
    obtain rfl := hserved.gather hg
    obtain ⟨-, hxx⟩ := getElem?_singleton_eq (hs.writers ▸ hx)
    rw [hxx, hs.finished, WPhase.finished.injEq] at hfin
    subst hfin
    obtain ⟨hout, herr⟩ := hserved.quiet (by simp [hg]) (by simp [hg])
    exact .inr (.inl ⟨.inr rfl, hout, herr⟩)
  | reaped hp =>
    obtain ⟨rfl, rfl⟩ := hserved.reap hp
    obtain ⟨hout, herr⟩ := hserved.quiet (by simp [hp]) (by simp [hp])
    exact .inl ⟨hout, herr, by simp⟩
  | reapedError _ hx hrc | reapedUndecodable _ hx hrc =>
    obtain ⟨-, hxx⟩ := getElem?_singleton_eq (hs.writers ▸ hx)
    exact absurd (hxx ▸ hs.good.returncode) hrc
  | @sendChunk ino off hp hne =>
    obtain ⟨off, hp', hoff, hout⟩ : ∃ off', r.phase = .send x.ino off' ∧ off' ≤ x.full.length ∧
        r.out = x.full.take off' := by
      rcases hserved with ⟨-, -, h⟩ | ⟨h | h, -⟩ | h | ⟨h, -⟩ <;> simp_all
    rw [hp, Phase.send.injEq] at hp'
    obtain ⟨rfl, rfl⟩ := hp'
    have hlen := (PackCache.read_isPrefix c.chunk (x.full.drop off)).length_le
    refine .inr (.inr (.inl ⟨_, rfl, ?_, ?_⟩))
    · simp only [hs.chunkAt, List.length_drop] at hlen ⊢
      omega
    · rw [hs.chunkAt, hout, take_append_read]
  | @sendEnd ino off hp hend =>
    obtain ⟨off, hp', hoff, hout⟩ : ∃ off', r.phase = .send x.ino off' ∧ off' ≤ x.full.length ∧
        r.out = x.full.take off' := by
      rcases hserved with ⟨-, -, h⟩ | ⟨h | h, -⟩ | h | ⟨h, -⟩ <;> simp_all
    rw [hp, Phase.send.injEq] at hp'
    obtain ⟨rfl, rfl⟩ := hp'
    have hrest := read_eq_nil hchunk ((hend.resolve_right (by simp [hcalm.off])).symm ▸
      (hs.chunkAt off).symm)
    refine .inr (.inr (.inr ⟨by simp [hs.path], ?_⟩))
    rw [hout, List.take_of_length_le (by simpa using hrest)]
  | gatherFails _ hf | cancel _ hf => simp [hcalm.off] at hf
  | repoFails hp | noMirror hp => exact absurd hp hserved.ne_execute

/-- Once the entry is built only requests move: the writer has finished, and nothing else
touches the entry. -/
theorem Built.move (hchunk : c.chunk ≠ 0) {s s' : State} {x : Writer} (hs : Built c s x)
    (h : Move c s s') : Built c s' x := by
  cases h with
  | req hr hm =>
    exact ⟨hs.writers, hs.good, hs.finished, hs.path, hs.inode,
      State.forall_mem_setReq hs.reqs (hs.reqMove hcalm hchunk (List.getElem?_mem hr) hm)⟩
  | spawn hr hp => exact absurd hp (hs.reqs _ (List.getElem?_mem hr)).ne_execute
  | «open» hx hp | write hx hp | parsed hx hp | tee hx hp | teeMissing hx hp | unlink hx hp
  | writeFails hx hp =>
    obtain ⟨-, hxx⟩ := getElem?_singleton_eq (hs.writers ▸ hx)
    simp [hxx, hs.finished] at hp
  | writerRaises _ _ hf | clean hf => simp [hcalm.off] at hf

/-- Every step keeps the run in a stage: nothing built, building, or built. -/
theorem Staged.move (hchunk : c.chunk ≠ 0) {s s' : State} (hs : Staged c s) (h : Move c s s') :
    Staged c s' := by
  obtain ⟨hlock, hpath, hstage⟩ := hs
  refine ⟨h.lockOk hlock, h.pathOk hpath, ?_⟩
  rcases hstage with hs | ⟨x, hs⟩ | ⟨x, hs⟩
  · rcases hs.move hcalm hlock h with h' | h'
    · exact .inl h'
    · exact .inr (.inl h')
  · exact .inr (hs.move hcalm hpath h)
  · exact .inr (.inr ⟨x, hs.move hcalm hchunk h⟩)

end Calm

theorem init_entry (n : Nat) (file : Option Bytes) : (init n file).entry = file := by
  cases file <;> rfl

theorem unbuilt_init (c : Config) (n : Nat) {file : Option Bytes}
    (hfile : «exists» file = .ok false) : Unbuilt c (init n file) :=
  ⟨rfl, by rw [init_entry]; exact hfile, fun r hr => by
    rw [List.eq_of_mem_replicate hr]
    exact .inl ⟨rfl, rfl, .inl rfl⟩⟩

theorem Staged.writers_length {c : Config} {s : State} (hs : Staged c s) : s.writers.length ≤ 1 := by
  obtain ⟨-, -, hs | ⟨x, hs⟩ | ⟨x, hs⟩⟩ := hs <;> simp [hs.writers]

theorem Staged.returned {c : Config} {s : State} (hs : Staged c s) {r : Req} (hr : r ∈ s.reqs)
    (hp : r.phase = .returned) : ∃ x, Built c s x ∧ r.out = x.full := by
  obtain ⟨-, -, hs | ⟨x, hs⟩ | ⟨x, hs⟩⟩ := hs
  · rcases hs.reqs r hr with h | ⟨h, -⟩
    · exact absurd hp h.ne_returned
    · simp [h] at hp
  · rcases hs.mem_reqs hr with rfl | h
    · cases hp
    · exact absurd hp h.ne_returned
  · refine ⟨x, hs, ?_⟩
    rcases hs.reqs r hr with h | ⟨h | h, -⟩ | ⟨_, h, -⟩ | ⟨-, h⟩
    · exact absurd hp h.ne_returned
    all_goals first | exact h | simp [h] at hp

theorem Staged.raised {c : Config} {s : State} (hs : Staged c s) {r : Req} (hr : r ∈ s.reqs)
    (hp : r.phase = .raised) : r.out = [] ∧ c.Faulty := by
  have : ∃ built, Waiting c built r := by
    obtain ⟨-, -, hs | ⟨x, hs⟩ | ⟨x, hs⟩⟩ := hs
    · rcases hs.reqs r hr with h | ⟨h, -⟩
      · exact ⟨_, h⟩
      · simp [h] at hp
    · rcases hs.mem_reqs hr with rfl | h
      · cases hp
      · exact ⟨_, h⟩
    · rcases hs.reqs r hr with h | ⟨h | h, -⟩ | ⟨_, h, -⟩ | ⟨h, -⟩
      · exact ⟨_, h⟩
      all_goals simp [h] at hp
  obtain ⟨_, h⟩ := this
  exact ⟨h.1, h.faulty hp⟩

/-- Runs of concurrent misses stay in a stage. -/
theorem staged_run {c : Config} (hcalm : c.Calm) (hchunk : c.chunk ≠ 0) (n : Nat)
    {file : Option Bytes} (hfile : «exists» file = .ok false) (evs : List Event) :
    Staged c (run c (init n file) evs) :=
  run_induction (fun _ _ hs h => hs.move hcalm hchunk h) evs _
    ⟨lockOk_init n file, pathOk_init n file, .inl (unbuilt_init c n hfile)⟩

theorem move_of_reqNext {c : Config} {s s' : State} {i : Nat} {r : Req}
    (hr : s.reqs[i]? = some r) (h : reqNext c s i r = some s') :
    Move c s (step c s (.req i none)) := by
  obtain ⟨r', hm, rfl⟩ := reqNext_move h
  rw [show step c s (.req i none) = s.setReq i r' by simp [step, hr, h]]
  exact .req hr hm

theorem move_of_writerNext {c : Config} {s s' : State} {w : Nat} {x : Writer}
    (hx : s.writers[w]? = some x) (h : writerNext s w x = some s') :
    Move c s (step c s (.writer w none)) := by
  rw [show step c s (.writer w none) = s' by simp [step, hx, h]]
  exact writerNext_move hx h

theorem move_of_execute {c : Config} {s : State} {i : Nat} {r : Req} (hr : s.reqs[i]? = some r)
    (hp : r.phase = .execute) : Move c s (step c s (.spawn i flushPkt 0 [])) := by
  have hflushed : (PacketLineChunkParser flushPkt).flushed := by decide
  have hstep : step c s (.spawn i flushPkt 0 []) =
      { s.setReq i { r with phase := .gather s.writers.length } with
        writers := s.writers ++ [spawned i flushPkt 0 []] } := by
    simp [step, hr, hp, hflushed]
  rw [hstep]
  exact .spawn hr hp (.inr ⟨hflushed, rfl⟩)

theorem reqNext_isSome {c : Config} {s : State} {i : Nat} {r : Req}
    (h : r.phase = .start ∧ s.noExclusive ∨ r.phase = .waitWrite ∧ s.unlocked ∨
      r.phase = .waitServe ∧ s.noExclusive ∨ (∃ ino off, r.phase = .send ino off) ∨
      (∃ w x, r.phase = .gather w ∧ s.writers[w]? = some x ∧ x.phase = .finished false) ∨
      ∃ w failed x, r.phase = .reap w failed ∧ s.writers[w]? = some x) :
    ∃ s', reqNext c s i r = some s' := by
  rcases h with ⟨hp, hn⟩ | ⟨hp, hn⟩ | ⟨hp, hn⟩ | ⟨ino, off, hp⟩ | ⟨w, x, hp, hx, hxp⟩ |
      ⟨w, failed, x, hp, hx⟩
  · simp [reqNext, hp, hn]
  · simp [reqNext, hp, hn]
  · simp [reqNext, hp, hn]
  · simp [reqNext, hp]
  · obtain ⟨_, _, _, _, _, _, _, phase⟩ := x
    subst hxp
    simp [reqNext, hp, hx]
  · simp [reqNext, hp, hx]

theorem writerNext_isSome {s : State} {w : Nat} {x : Writer} (h : x.phase.running) :
    ∃ s', writerNext s w x = some s' := by
  unfold writerNext
  split <;> (try split) <;> simp_all [WPhase.running]

theorem Waiting.free {c : Config} {built : Prop} {r : Req} (h : Waiting c built r) :
    ¬ (r.phase.holdsShared ∨ r.phase.holdsExclusive) := by
  rcases h.2.2 with h | h | ⟨h, -⟩ | ⟨h, -⟩ <;> simp [h, Phase.holdsShared, Phase.holdsExclusive]

theorem Waiting.moves {c : Config} {built : Prop} {s : State} {i : Nat} {r : Req}
    (h : Waiting c built r) (hr : s.reqs[i]? = some r) (hraised : r.phase ≠ .raised)
    (hun : s.unlocked) (hne : s.noExclusive) : Move c s (step c s (.req i none)) := by
  obtain ⟨s', hs'⟩ := @reqNext_isSome c s i r (by
    rcases h.2.2 with h | h | ⟨h, -⟩ | ⟨h, -⟩
    · exact .inl ⟨h, hne⟩
    · exact .inr (.inl ⟨h, hun⟩)
    · exact .inr (.inr (.inl ⟨h, hne⟩))
    · exact absurd h hraised)
  exact move_of_reqNext hr hs'

theorem State.free_of {s : State} (h : ∀ r ∈ s.reqs, ¬ (r.phase.holdsShared ∨ r.phase.holdsExclusive)) :
    s.unlocked ∧ s.noExclusive :=
  ⟨List.all_eq_true.mpr fun r hr => by simpa using h r hr,
    List.all_eq_true.mpr fun r hr => by simpa using (not_or.mp (h r hr)).2⟩

/-- In every stage some event moves, while a request has not ended: a waiting request when
the lock is free, else the request that holds the lock, or the one writer. -/
theorem Staged.progress {c : Config} {s : State} (hs : Staged c s)
    (hlive : ∃ r ∈ s.reqs, r.phase ≠ .returned ∧ r.phase ≠ .raised) :
    ∃ e, Move c s (step c s e) := by
  obtain ⟨r, hr, hret, hraised⟩ := hlive
  obtain ⟨i, hi⟩ := List.getElem?_of_mem hr
  obtain ⟨-, -, hs | ⟨x, hs⟩ | ⟨x, hs⟩⟩ := hs
  · by_cases hex : ∃ (j : Nat) (r' : Req), s.reqs[j]? = some r' ∧ r'.phase = .execute
    · obtain ⟨j, r', hr', hp⟩ := hex
      exact ⟨_, move_of_execute hr' hp⟩
    have hwait : ∀ r ∈ s.reqs, Waiting c False r := fun r' hr' =>
      (hs.reqs r' hr').resolve_right fun ⟨hp, _⟩ =>
        let ⟨j, hj⟩ := List.getElem?_of_mem hr'
        hex ⟨j, r', hj, hp⟩
    obtain ⟨hun, hne⟩ := State.free_of fun r' hr' => (hwait r' hr').free
    exact ⟨_, (hwait r hr).moves hi hraised hun hne⟩
  · have hrun : x.phase.running := by rcases hs.file with h | h <;> simp [h.1, WPhase.running]
    obtain ⟨s', hs'⟩ := @writerNext_isSome s 0 x hrun
    exact ⟨_, move_of_writerNext (by simp [hs.writers]) hs'⟩
  · have hx : s.writers[0]? = some x := by simp [hs.writers]
    by_cases hheld : ∃ (j : Nat) (r' : Req), s.reqs[j]? = some r' ∧
        (r'.phase.holdsShared ∨ r'.phase.holdsExclusive)
    · obtain ⟨j, r', hr', hh⟩ := hheld
      obtain ⟨s', hs'⟩ := @reqNext_isSome c s j r' (by
        rcases hs.reqs r' (List.getElem?_mem hr') with hw | ⟨hp | hp, -⟩ | ⟨off, hp, -⟩ | ⟨hp, -⟩
        · exact absurd hh hw.free
        · exact .inr (.inr (.inr (.inr (.inl ⟨0, x, hp, hx, hs.finished⟩))))
        · exact .inr (.inr (.inr (.inr (.inr ⟨0, false, x, hp, hx⟩))))
        · exact .inr (.inr (.inr (.inl ⟨_, off, hp⟩)))
        · simp [hp, Phase.holdsShared, Phase.holdsExclusive] at hh)
      exact ⟨_, move_of_reqNext hr' hs'⟩
    obtain ⟨hun, hne⟩ := State.free_of fun r' hr' hh =>
      let ⟨j, hj⟩ := List.getElem?_of_mem hr'
      hheld ⟨j, r', hj, hh⟩
    rcases hs.reqs r hr with hw | ⟨hp | hp, -⟩ | ⟨off, hp, -⟩ | ⟨hp, -⟩
    · exact ⟨_, hw.moves hi hraised hun hne⟩
    -- a request past its spawn or serving holds the lock, which no request holds
    iterate 3 exact absurd ⟨i, r, hi, by simp [hp, Phase.holdsShared, Phase.holdsExclusive]⟩ hheld
    · exact absurd hp hret

/-- From every stage, some events run every request to its end. -/
theorem Staged.finish {c : Config} (hcalm : c.Calm) (hchunk : c.chunk ≠ 0) (s : State)
    (hs : Staged c s) : ∃ evs, ∀ r ∈ (run c s evs).reqs, r.phase = .returned ∨ r.phase = .raised :=
  @WellFounded.induction _ _ (InvImage.wf State.measure progress_wf)
    (fun s => Staged c s → ∃ evs, ∀ r ∈ (run c s evs).reqs,
      r.phase = .returned ∨ r.phase = .raised) s (fun s ih hs => by
    by_cases hend : ∀ r ∈ s.reqs, r.phase = .returned ∨ r.phase = .raised
    · exact ⟨[], hend⟩
    obtain ⟨e, hm⟩ := hs.progress (by simpa [not_or] using hend)
    obtain ⟨evs, hevs⟩ := ih _ (hm.progress (hcalm.off (by decide) (by decide)))
      (hs.move hcalm hchunk hm)
    exact ⟨e :: evs, hevs⟩) hs

theorem Staged.writers_eq_one {c : Config} {s : State} (hs : Staged c s) (hne : s.reqs ≠ [])
    (hall : ∀ r ∈ s.reqs, r.phase = .returned) : s.writers.length = 1 := by
  obtain ⟨r, hr⟩ := List.exists_mem_of_ne_nil _ hne
  obtain ⟨x, hb, -⟩ := hs.returned hr (hall r hr)
  simp [hb.writers]

/-- Requests that start while the entry is missing (or rejected without raising), with a chunk
size other than `0` and only the repo-cache work allowed to fail, spawn at most one
git-upload-pack; each request that returns has sent the whole of that run's output, which is
then the valid entry; a request raises only if the repo-cache work may fail, having sent
nothing; once all of them have returned exactly one process was spawned. And every run goes on
until each request has returned or raised: then, if the repo-cache work cannot fail, all of them
have returned and exactly one process was spawned. -/
theorem run_spawns_one_uploadPack {c : Config} (hcalm : c.Calm)
    (hchunk : c.chunk ≠ 0) (n : Nat) {file : Option Bytes} (hfile : «exists» file = .ok false)
    (evs : List Event) :
    let s := run c (init n file) evs
    s.writers.length ≤ 1 ∧
      (∀ r ∈ s.reqs, r.phase = .returned → ∃ x, s.writers = [x] ∧ s.entry = some x.full ∧
        «exists» s.entry = .ok true ∧ r.out = x.full) ∧
      (∀ r ∈ s.reqs, r.phase = .raised → r.out = [] ∧ c.Faulty) ∧
      (0 < n → (∀ r ∈ s.reqs, r.phase = .returned) → s.writers.length = 1) ∧
      ∃ evs', let s' := run c s evs'
        (∀ r ∈ s'.reqs, r.phase = .returned ∨ r.phase = .raised) ∧
        (¬ c.Faulty → 0 < n → s'.writers.length = 1 ∧ ∀ r ∈ s'.reqs, r.phase = .returned) := by
  intro s
  have hs := staged_run hcalm hchunk n hfile evs
  have hne : ∀ evs, 0 < n → (run c (init n file) evs).reqs ≠ [] := fun evs hn =>
    List.ne_nil_of_length_pos (by simpa [run_reqs_length, init] using hn)
  refine ⟨hs.writers_length, fun r hr hp => ?_, fun r hr hp => hs.raised hr hp,
    fun hn hall => hs.writers_eq_one (hne evs hn) hall, ?_⟩
  · obtain ⟨x, hb, hout⟩ := hs.returned hr hp
    exact ⟨x, hb.writers, hb.entry, hb.exists, hout⟩
  obtain ⟨evs', hend⟩ := hs.finish hcalm hchunk
  have hrun : run c s evs' = run c (init n file) (evs ++ evs') := (List.foldl_append ..).symm
  have hs' := staged_run hcalm hchunk n hfile (evs ++ evs')
  refine ⟨evs', hend, fun hfault hn => ?_⟩
  rw [hrun] at hend ⊢
  have hall : ∀ r ∈ (run c (init n file) (evs ++ evs')).reqs, r.phase = .returned :=
    fun r hr => (hend r hr).resolve_right fun hp => hfault (hs'.raised hr hp).2
  exact ⟨hs'.writers_eq_one (hne _ hn) hall, hall⟩

theorem run_spawns_one_uploadPack_two_clients :
    Config.Calm ⟨fun _ => false, 32 * 1024⟩ ∧ (32 * 1024 : Int) ≠ 0 ∧
      «exists» (none : Option Bytes) = .ok false ∧
      let s := run ⟨fun _ => false, 32 * 1024⟩ (init 2 none)
        [.req 0 none, .req 1 none, .req 0 none, .spawn 0 (ofString "0008NAK\n0000") 0 [],
          .writer 0 none, .writer 0 none, .writer 0 none, .writer 0 none, .req 0 none,
          .req 0 none, .req 1 none, .req 0 none, .req 1 none, .req 0 none, .req 0 none,
          .req 1 none, .req 1 none]
      (s.writers.length ≤ 1 ∧
        (∀ r ∈ s.reqs, r.phase = .returned → ∃ x, s.writers = [x] ∧ s.entry = some x.full ∧
          «exists» s.entry = .ok true ∧ r.out = x.full) ∧
        (∀ r ∈ s.reqs, r.phase = .raised → r.out = [] ∧
          Config.Faulty ⟨fun _ => false, 32 * 1024⟩) ∧
        (0 < 2 → (∀ r ∈ s.reqs, r.phase = .returned) → s.writers.length = 1) ∧
        ∃ evs', let s' := run ⟨fun _ => false, 32 * 1024⟩ s evs'
          (∀ r ∈ s'.reqs, r.phase = .returned ∨ r.phase = .raised) ∧
          (¬ Config.Faulty ⟨fun _ => false, 32 * 1024⟩ → 0 < 2 → s'.writers.length = 1 ∧
            ∀ r ∈ s'.reqs, r.phase = .returned)) ∧
      s.writers.length = 1 ∧
      s.reqs = [⟨.returned, ofString "0008NAK\n0000", false⟩,
        ⟨.returned, ofString "0008NAK\n0000", false⟩] :=
  have hcalm : Config.Calm ⟨fun _ => false, 32 * 1024⟩ := fun _ h => by simp at h
  ⟨hcalm, by decide, exists_none,
    ⟨run_spawns_one_uploadPack hcalm (by decide) 2 exists_none _, by decide, by decide⟩⟩

/-- Runs with no cancellation, no cleaner and every upload-pack exiting 0 with a flushed
stream, that do not spawn exactly one process or do not send every client the entry: the
repo-cache work raises and nothing is spawned; with a chunk size of `0` the request returns
having sent nothing; opening the entry raises, and the next request spawns again. -/
theorem run_spawns_other_than_once :
    (∃ s, run ⟨fun f => f = .repoFails, 32 * 1024⟩ (init 1 none)
        [.req 0 none, .req 0 none, .req 0 (some .repoFails)] = s ∧
      s.writers = [] ∧ s.reqs.map Req.phase = [.raised]) ∧
    (∃ s, run ⟨fun _ => false, 0⟩ (init 1 none)
        [.req 0 none, .req 0 none, .spawn 0 (ofString "0008NAK\n0000") 0 [], .writer 0 none,
          .writer 0 none, .writer 0 none, .writer 0 none, .req 0 none, .req 0 none, .req 0 none,
          .req 0 none] = s ∧
      s.writers.length = 1 ∧ s.entry = some (ofString "0008NAK\n0000") ∧
      s.reqs = [⟨.returned, [], false⟩]) ∧
    (∃ s, run ⟨fun f => f = .ioFails, 32 * 1024⟩ (init 2 none)
        [.req 0 none, .req 0 none, .spawn 0 (ofString "0008NAK\n0000") 0 [],
          .writer 0 (some .ioFails), .req 0 none, .req 0 none, .req 1 none, .req 1 none,
          .spawn 1 (ofString "0008NAK\n0000") 0 []] = s ∧
      s.writers.length = 2 ∧ s.reqs.map Req.phase = [.raised, .gather 1]) :=
  ⟨⟨_, rfl, by decide⟩, ⟨_, rfl, by decide⟩, ⟨_, rfl, by decide⟩⟩

end GitCdn.UploadPack
