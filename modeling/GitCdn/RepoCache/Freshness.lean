import Mathlib.Data.List.Basic

/-! # Freshness of the repo cache

`ensure_input_wants` makes sure the mirror holds the objects a request wants: when the
directory is absent, or `cat-file` under the read lock reports an object missing, it calls
`update()`, which reads the mtime with no lock, takes the write lock, then clones and fetches
if the directory is absent, fetches if the mtime is the one it read, and else returns. Calls
run at once; the environment picks the call that moves, the mtime each change leaves, when
the upstream gains an object and when a client goes away, which during a git run takes effect
when it ends. Every clone and fetch succeeds; a read-lock section is one step, and so is
taking the write lock with its checks. The double-check is sound unless a client goes away
between a clone from the bundle and its fetch: a waiter then returns without fetching.
-/

namespace GitCdn.RepoCache.Freshness

/-- A git object, by its id. -/
abbrev Obj := Nat

/-- The bare mirror directory. -/
structure Mirror where
  objs : List Obj
  mtime : Nat
  deriving Repr, DecidableEq

/-- Where a call of `ensure_input_wants` is. -/
inductive Phase where
  /-- About to call `exists()`. -/
  | start
  /-- The directory was there: `cat-file` under the read lock. -/
  | reading
  /-- In `update()`, about to read `prev_mtime`. -/
  | observe
  /-- Waiting for the write lock, having read `prev_mtime`. -/
  | waitWrite (prev : Option Nat)
  /-- Holds the write lock; the lock's record says how far `update()` is. -/
  | locked
  /-- The call returned. -/
  | returned
  /-- The call raised: its client went away. -/
  | raised
  deriving Repr, DecidableEq

/-- How far the holder of the write lock is in `update()`. -/
inductive Stage where
  /-- `clone()` is about to run git. -/
  | cloning
  /-- The git clone, of the bundle file or of the upstream, has created the directory. -/
  | cloneRunning (bundle : Option (List Obj))
  /-- `fetch()` is about to run git. -/
  | fetching
  /-- The git fetch has ended; `utime()` is next. -/
  | fetched
  deriving Repr, DecidableEq

/-- A fetch the holder still runs before it lets go of the lock. -/
def Stage.pending : Stage → Bool
  | .cloneRunning _ | .fetching => true
  | _ => false

/-- A git clone runs: a cancellation waits for it. -/
def Stage.cloneRuns : Stage → Bool
  | .cloneRunning _ => true
  | _ => false

/-- A call inside `update()`. -/
def Phase.updating : Phase → Bool
  | .observe | .waitWrite _ | .locked => true
  | _ => false

/-- A call of `ensure_input_wants(wants)`. -/
structure Worker where
  wants : List Obj
  /-- The objects of `wants` the upstream held when the call began. -/
  need : List Obj
  phase : Phase
  deriving Repr, DecidableEq

structure State where
  workers : List Worker
  /-- The holder of the mirror's write lock, and how far it is. -/
  writer : Option (Nat × Stage)
  dir : Option Mirror
  /-- The objects of the bundle file, when there is one. -/
  bundle : Option (List Obj)
  /-- The objects the upstream holds. -/
  upstream : List Obj
  deriving Repr, DecidableEq

namespace State

/-- `RepoCache.exists()`. -/
def «exists» (s : State) : Bool := s.dir.isSome

/-- `RepoCache.mtime()`. -/
def mtime (s : State) : Option Nat := s.dir.map (·.mtime)

/-- The objects of the mirror; none while it is absent. -/
def objs (s : State) : List Obj := (s.dir.map (·.objs)).getD []

/-- The holder's stage. -/
def stage (s : State) : Option Stage := s.writer.map (·.2)

/-- The holder still fetches before it lets go of the lock. -/
def pending (s : State) : Bool := s.writer.any (·.2.pending)

def setWorker (s : State) (i : Nat) (w : Worker) : State := { s with workers := s.workers.set i w }

end State

/-- `_missing_want`: `cat-file` reports a missing object, or fails when the directory is
absent. -/
def missingWant (s : State) (wants : List Obj) : Bool :=
  match s.dir with
  | some m => !wants.all (· ∈ m.objs)
  | none => true

/-- The holder's next step in `update()`; a change of the directory leaves mtime `t`. -/
def updateNext (s : State) (i : Nat) (w : Worker) (t : Nat) : Stage → State
  | .cloning => { s with writer := some (i, .cloneRunning s.bundle), dir := some ⟨[], t⟩ }
  | .cloneRunning b =>
    { s with writer := some (i, .fetching), dir := some ⟨b.getD s.upstream, t⟩ }
  | .fetching =>
    { s with writer := some (i, .fetched), dir := s.dir.map fun m => ⟨m.objs ∪ s.upstream, t⟩ }
  | .fetched =>
    { s.setWorker i { w with phase := .returned } with
      writer := none, dir := s.dir.map fun m => { m with mtime := t } }

/-- The next step of call `i`: `none` while it waits for a lock, or has ended. -/
def ensureInputWantsNext (s : State) (i : Nat) (w : Worker) (t : Nat) : Option State :=
  match w.phase, s.writer with
  | .start, _ =>
    some (s.setWorker i ⟨w.wants, w.wants.filter (· ∈ s.upstream),
      if s.«exists» then .reading else .observe⟩)
  | .reading, none =>
    some (s.setWorker i { w with phase := if missingWant s w.wants then .observe else .returned })
  | .observe, _ => some (s.setWorker i { w with phase := .waitWrite s.mtime })
  | .waitWrite prev, none =>
    some <| if !s.«exists» then
        { s.setWorker i { w with phase := .locked } with writer := some (i, .cloning) }
      else if prev = s.mtime then
        { s.setWorker i { w with phase := .locked } with writer := some (i, .fetching) }
      else s.setWorker i { w with phase := .returned }
  | .locked, some (j, st) => if j = i then some (updateNext s i w t st) else none
  | _, _ => none

/-- A call at an await outside the write lock. -/
def Phase.awaiting : Phase → Bool
  | .start | .reading | .observe | .waitWrite _ => true
  | _ => false

/-- Call `i`'s client goes away: the call raises at its await, and lets go of the write lock
if it holds it. -/
def onCancel (s : State) (i : Nat) (w : Worker) : Option State :=
  match w.phase, s.writer with
  | .start, _ | .reading, _ | .observe, _ | .waitWrite _, _ =>
    some (s.setWorker i { w with phase := .raised })
  | .locked, some (j, st) =>
    if j = i ∧ st.cloneRuns = false then
      some { s.setWorker i { w with phase := .raised } with writer := none }
    else none
  | _, _ => none

inductive Event where
  /-- Call `i` takes its next step; a change of the directory leaves mtime `t`. -/
  | step (i : Nat) (t : Nat)
  /-- Call `i`'s client goes away. -/
  | cancel (i : Nat)
  /-- The upstream gains object `o`. -/
  | push (o : Obj)
  deriving Repr, DecidableEq

/-- One event; one that cannot happen leaves the state as it is. -/
def step (s : State) : Event → State
  | .step i t => ((s.workers[i]?).bind fun w => ensureInputWantsNext s i w t).getD s
  | .cancel i => ((s.workers[i]?).bind fun w => onCancel s i w).getD s
  | .push o => { s with upstream := s.upstream ++ [o] }

def run (s : State) (evs : List Event) : State := evs.foldl step s

/-- Calls about to start, one per list of wants, and the mirror, bundle and upstream. -/
def init (calls : List (List Obj)) (dir : Option Mirror) (bundle : Option (List Obj))
    (upstream : List Obj) : State :=
  ⟨calls.map fun wants => ⟨wants, [], .start⟩, none, dir, bundle, upstream⟩

/-- Every change a step of a call, or the upstream, can make. -/
inductive Move : State → State → Prop
  | start {s : State} {i : Nat} {w : Worker} : s.workers[i]? = some w → w.phase = .start →
      Move s (s.setWorker i ⟨w.wants, w.wants.filter (· ∈ s.upstream),
        if s.«exists» then .reading else .observe⟩)
  | read {s : State} {i : Nat} {w : Worker} : s.workers[i]? = some w → w.phase = .reading →
      s.writer = none →
      Move s (s.setWorker i { w with phase := if missingWant s w.wants then .observe else .returned })
  | observe {s : State} {i : Nat} {w : Worker} : s.workers[i]? = some w → w.phase = .observe →
      Move s (s.setWorker i { w with phase := .waitWrite s.mtime })
  | lockClone {s : State} {i : Nat} {w : Worker} {prev : Option Nat} : s.workers[i]? = some w →
      w.phase = .waitWrite prev → s.writer = none → s.«exists» = false →
      Move s { s.setWorker i { w with phase := .locked } with writer := some (i, .cloning) }
  | lockFetch {s : State} {i : Nat} {w : Worker} {prev : Option Nat} : s.workers[i]? = some w →
      w.phase = .waitWrite prev → s.writer = none → s.«exists» = true → prev = s.mtime →
      Move s { s.setWorker i { w with phase := .locked } with writer := some (i, .fetching) }
  | skip {s : State} {i : Nat} {w : Worker} {prev : Option Nat} : s.workers[i]? = some w →
      w.phase = .waitWrite prev → s.writer = none → s.«exists» = true → prev ≠ s.mtime →
      Move s (s.setWorker i { w with phase := .returned })
  | cloneStart {s : State} {i t : Nat} : s.writer = some (i, .cloning) →
      Move s { s with writer := some (i, .cloneRunning s.bundle), dir := some ⟨[], t⟩ }
  | cloneEnd {s : State} {i t : Nat} {b : Option (List Obj)} : s.writer = some (i, .cloneRunning b) →
      Move s { s with writer := some (i, .fetching), dir := some ⟨b.getD s.upstream, t⟩ }
  | fetch {s : State} {i t : Nat} : s.writer = some (i, .fetching) →
      Move s { s with
        writer := some (i, .fetched), dir := s.dir.map fun m => ⟨m.objs ∪ s.upstream, t⟩ }
  | utime {s : State} {i t : Nat} {w : Worker} : s.workers[i]? = some w → w.phase = .locked →
      s.writer = some (i, .fetched) →
      Move s { s.setWorker i { w with phase := .returned } with
        writer := none, dir := s.dir.map fun m => { m with mtime := t } }
  | push {s : State} {o : Obj} : Move s { s with upstream := s.upstream ++ [o] }

/-- What a client going away can do. -/
inductive Cancel : State → State → Prop
  | waiting {s : State} {i : Nat} {w : Worker} : s.workers[i]? = some w → w.phase.awaiting →
      Cancel s (s.setWorker i { w with phase := .raised })
  | holder {s : State} {i : Nat} {w : Worker} {st : Stage} : s.workers[i]? = some w →
      w.phase = .locked → s.writer = some (i, st) → st.cloneRuns = false →
      Cancel s { s.setWorker i { w with phase := .raised } with writer := none }

theorem updateNext_move {s : State} {i t : Nat} {w : Worker} {st : Stage}
    (hw : s.workers[i]? = some w) (hp : w.phase = .locked) (hl : s.writer = some (i, st)) :
    Move s (updateNext s i w t st) := by
  cases st with
  | cloning => exact .cloneStart hl
  | cloneRunning b => exact .cloneEnd hl
  | fetching => exact .fetch hl
  | fetched => exact .utime hw hp hl

theorem ensureInputWantsNext_move {s s' : State} {i t : Nat} {w : Worker}
    (hw : s.workers[i]? = some w) (h : ensureInputWantsNext s i w t = some s') : Move s s' := by
  unfold ensureInputWantsNext at h
  split at h
  next hp => cases h; exact .start hw hp
  next hp hl => cases h; exact .read hw hp hl
  next hp => cases h; exact .observe hw hp
  next prev hp hl =>
    cases h
    by_cases he : s.«exists» = true
    · by_cases hm : prev = s.mtime
      · simp only [he, hm, if_true, Bool.not_true]
        exact .lockFetch hw hp hl he hm
      · simp only [he, hm, if_false, Bool.not_true]
        exact .skip hw hp hl he hm
    · simp only [Bool.not_eq_true] at he
      simp only [he, if_true, Bool.not_false]
      exact .lockClone hw hp hl he
  next j st hp hl =>
    split at h
    · subst j
      cases h
      exact updateNext_move hw hp hl
    · cases h
  next => cases h

theorem onCancel_cancel {s s' : State} {i : Nat} {w : Worker} (hw : s.workers[i]? = some w)
    (h : onCancel s i w = some s') : Cancel s s' := by
  unfold onCancel at h
  split at h
  next hp => cases h; exact .waiting hw (by simp [hp, Phase.awaiting])
  next hp => cases h; exact .waiting hw (by simp [hp, Phase.awaiting])
  next hp => cases h; exact .waiting hw (by simp [hp, Phase.awaiting])
  next hp => cases h; exact .waiting hw (by simp [hp, Phase.awaiting])
  next j st hp hl =>
    split at h
    · obtain ⟨rfl, hc⟩ := ‹_ ∧ _›
      cases h
      exact .holder hw hp hl hc
    · cases h
  next => cases h

/-- A step is a `Move`, a client going away, or changes nothing. -/
theorem step_move (s : State) (e : Event) :
    step s e = s ∨ Move s (step s e) ∨ (∃ i, e = .cancel i) ∧ Cancel s (step s e) := by
  cases e with
  | step i t =>
    cases hw : s.workers[i]? with
    | none => simp [step, hw]
    | some w =>
      cases h : ensureInputWantsNext s i w t with
      | none => simp [step, hw, h]
      | some s' =>
        simp only [step, hw, h, Option.some_bind, Option.getD_some]
        exact .inr (.inl (ensureInputWantsNext_move hw h))
  | cancel i =>
    cases hw : s.workers[i]? with
    | none => simp [step, hw]
    | some w =>
      cases h : onCancel s i w with
      | none => simp [step, hw, h]
      | some s' =>
        simp only [step, hw, h, Option.some_bind, Option.getD_some]
        exact .inr (.inr ⟨⟨i, rfl⟩, onCancel_cancel hw h⟩)
  | push o => exact .inr (.inl .push)

/- A call that saw the directory absent, or missed an object under the read lock, needs the
objects of its wants the upstream held when it began. When it takes the write lock and the
mtime has moved, some holder changed the directory after the call read the mtime; the holder
cloned or fetched then, and in both cases fetched after the call began, unless its client
went away between its clone and its fetch. -/

/-- What the holder's stage says of the directory. -/
def StageOk (s : State) : Stage → Prop
  | .cloning => s.dir = none
  | .cloneRunning b => b = s.bundle ∧ s.objs = []
  | .fetching | .fetched => s.dir.isSome

/-- What a call relies on: it needs wanted objects the upstream has; once returned, the
mirror has them; waiting for the write lock with the mtime moved, it has them or the holder
still fetches; once the holder has fetched, every call in `update()` has them. With no bundle
file, a holder about to fetch leaves every waiting call with what it needs, or the mtime it
read. -/
structure WorkerOk (s : State) (w : Worker) : Prop where
  wants : w.need ⊆ w.wants
  upstream : w.need ⊆ s.upstream
  returned : w.phase = .returned → w.need ⊆ s.objs
  waiting : ∀ prev, w.phase = .waitWrite prev → w.need ⊆ s.objs ∨ s.mtime = prev ∨ s.pending
  fetched : s.stage = some .fetched → w.phase.updating → w.need ⊆ s.objs
  noBundle : s.bundle = none → s.stage = some .fetching → ∀ prev, w.phase = .waitWrite prev →
    w.need ⊆ s.objs ∨ s.mtime = prev

/-- The invariant of the runs where no client goes away after a clone from the bundle. -/
structure Fresh (s : State) : Prop where
  stage : ∀ i st, s.writer = some (i, st) → StageOk s st
  workers : ∀ w ∈ s.workers, WorkerOk s w

theorem WorkerOk.setWorker {s : State} {i : Nat} {w v : Worker} (h : WorkerOk s v) :
    WorkerOk (s.setWorker i w) v :=
  ⟨h.wants, h.upstream, h.returned, h.waiting, h.fetched, h.noBundle⟩

theorem WorkerOk.mono {s s' : State} {w : Worker} (h : WorkerOk s w)
    (hup : s.upstream ⊆ s'.upstream) (hobjs : s.objs ⊆ s'.objs)
    (hwait : ∀ prev, w.phase = .waitWrite prev → w.need ⊆ s'.objs ∨ s'.mtime = prev ∨ s'.pending)
    (hfetched : s'.stage = some .fetched → w.phase.updating → w.need ⊆ s'.objs)
    (hnb : s'.bundle = none → s'.stage = some .fetching → ∀ prev, w.phase = .waitWrite prev →
      w.need ⊆ s'.objs ∨ s'.mtime = prev) : WorkerOk s' w :=
  ⟨h.wants, fun _ ho => hup (h.upstream ho), fun hp _ ho => hobjs (h.returned hp ho), hwait,
    hfetched, hnb⟩

theorem WorkerOk.of_covered {s : State} {w : Worker} (h : w.need ⊆ w.wants ∧ w.need ⊆ s.upstream)
    (hc : w.need ⊆ s.objs) : WorkerOk s w :=
  ⟨h.1, h.2, fun _ => hc, fun _ _ => .inl hc, fun _ _ => hc, fun _ _ _ _ => .inl hc⟩

theorem Fresh.setWorker {s : State} {i : Nat} {w : Worker} (hs : Fresh s) (hw : WorkerOk s w) :
    Fresh (s.setWorker i w) :=
  ⟨hs.stage, fun v hv => (List.mem_or_eq_of_mem_set hv).elim
    (fun hv => (hs.workers v hv).setWorker) (fun h => h ▸ hw.setWorker)⟩

theorem Fresh.exists_of_stage {s : State} (hs : Fresh s) {st : Stage} (hst : s.stage = some st)
    (hfetch : st = .fetching ∨ st = .fetched) : s.«exists» = true := by
  obtain ⟨⟨i, st'⟩, hw, rfl⟩ := Option.map_eq_some'.mp hst
  have := hs.stage i _ hw
  rcases hfetch with rfl | rfl <;> exact this

theorem WorkerOk.of_quiet {s : State} {w : Worker} (hneed : w.need ⊆ w.wants ∧ w.need ⊆ s.upstream)
    (hret : w.phase ≠ .returned) (hwait : ∀ prev, w.phase ≠ .waitWrite prev)
    (hfetched : s.stage = some .fetched → w.phase.updating → w.need ⊆ s.objs) : WorkerOk s w :=
  ⟨hneed.1, hneed.2, fun h => absurd h hret, fun prev h => absurd h (hwait prev), hfetched,
    fun _ _ prev h => absurd h (hwait prev)⟩

theorem WorkerOk.waiting_of_free {s : State} {w : Worker} (h : WorkerOk s w) (hl : s.writer = none)
    {prev : Option Nat} (hp : w.phase = .waitWrite prev) : w.need ⊆ s.objs ∨ s.mtime = prev := by
  rcases h.waiting prev hp with h | h | h
  · exact .inl h
  · exact .inr h
  · simp [State.pending, hl] at h

theorem subset_objs_of_missingWant {s : State} {wants : List Obj}
    (h : missingWant s wants = false) : wants ⊆ s.objs := by
  unfold missingWant at h
  split at h
  next m hm =>
    have hall : ∀ o ∈ wants, o ∈ m.objs := by simpa using h
    intro o ho
    simpa [State.objs, hm] using hall o ho
  next => cases h

theorem objs_fetch {s : State} {t : Nat} (hd : s.dir.isSome) :
    s.upstream ⊆ State.objs { s with dir := s.dir.map fun m => ⟨m.objs ∪ s.upstream, t⟩ } ∧
      s.objs ⊆ State.objs { s with dir := s.dir.map fun m => ⟨m.objs ∪ s.upstream, t⟩ } := by
  obtain ⟨m, hm⟩ := Option.isSome_iff_exists.mp hd
  constructor <;> intro o ho <;> simp_all [State.objs, List.mem_union_iff]

theorem Fresh.lock {s : State} {i : Nat} {w : Worker} {st : Stage} (hs : Fresh s)
    (hw : s.workers[i]? = some w) (hl : s.writer = none) (hst : StageOk s st)
    (hfetched : st ≠ .fetched) :
    Fresh { s.setWorker i { w with phase := .locked } with writer := some (i, st) } := by
  refine ⟨fun j st' hj => ?_, fun v hv => ?_⟩
  · cases hj
    cases st <;> exact hst
  · rcases List.mem_or_eq_of_mem_set hv with hv | rfl
    · have hv' := hs.workers v hv
      exact hv'.mono (fun _ => id) (fun _ => id)
        (fun _ hp' => (hv'.waiting_of_free hl hp').elim .inl (.inr ∘ .inl))
        (fun h => absurd (by simpa [State.stage] using h) hfetched)
        (fun _ _ _ hp' => hv'.waiting_of_free hl hp')
    · have hw' := hs.workers w (List.getElem?_mem hw)
      exact .of_quiet ⟨hw'.wants, hw'.upstream⟩ nofun nofun
        (fun h => absurd (by simpa [State.stage] using h) hfetched)

/-- Every move keeps the invariant. -/
theorem Move.fresh {s s' : State} (hs : Fresh s) (h : Move s s') : Fresh s' := by
  cases h with
  | @start i w hw hp =>
    have hw' := hs.workers w (List.getElem?_mem hw)
    refine hs.setWorker (.of_quiet
      ⟨fun _ (ho : _ ∈ w.wants.filter (· ∈ s.upstream)) => List.mem_of_mem_filter ho,
        fun _ (ho : _ ∈ w.wants.filter (· ∈ s.upstream)) => by simpa using (List.mem_filter.mp ho).2⟩ (by split <;> simp)
      (fun _ => by split <;> simp) fun hst hup => ?_)
    rw [hs.exists_of_stage hst (.inr rfl)] at hup
    simp [Phase.updating] at hup
  | @read i w hw hp hl =>
    have hw' := hs.workers w (List.getElem?_mem hw)
    refine hs.setWorker ⟨hw'.wants, hw'.upstream, fun hret => ?_, fun prev h => ?_,
      by simp [State.stage, hl], by simp [State.stage, hl]⟩
    · have hmiss : missingWant s w.wants = false := by
        by_contra hm
        simp [hm] at hret
      exact fun _ ho => subset_objs_of_missingWant hmiss (hw'.wants ho)
    · split at h <;> cases h
  | @observe i w hw hp =>
    have hw' := hs.workers w (List.getElem?_mem hw)
    exact hs.setWorker ⟨hw'.wants, hw'.upstream, nofun,
      fun _ h => .inr (.inl (Phase.waitWrite.inj h)),
      fun hst _ => hw'.fetched hst (by simp [hp, Phase.updating]),
      fun _ _ _ h => .inr (Phase.waitWrite.inj h)⟩
  | @lockClone i w prev hw hp hl he =>
    exact hs.lock hw hl (by simpa [State.exists] using he) nofun
  | @lockFetch i w prev hw hp hl he hm => exact hs.lock hw hl he nofun
  | @skip i w prev hw hp hl he hm =>
    have hw' := hs.workers w (List.getElem?_mem hw)
    exact hs.setWorker (.of_covered ⟨hw'.wants, hw'.upstream⟩
      ((hw'.waiting_of_free hl hp).resolve_right (Ne.symm hm)))
  | @cloneStart i t hl =>
    have hd : s.dir = none := hs.stage i _ hl
    refine ⟨fun j st hj => ?_, fun v hv => ?_⟩
    · cases hj
      exact ⟨rfl, rfl⟩
    · exact (hs.workers v hv).mono (fun _ => id) (by simp [State.objs, hd])
        (fun _ _ => .inr (.inr rfl)) (by simp [State.stage]) (by simp [State.stage])
  | @cloneEnd i t b hl =>
    obtain ⟨hb, hobjs⟩ : b = s.bundle ∧ s.objs = [] := hs.stage i _ hl
    refine ⟨fun j st hj => ?_, fun v hv => ?_⟩
    · cases hj
      rfl
    · have hv' := hs.workers v hv
      refine hv'.mono (fun _ => id) (by simp [hobjs]) (fun _ _ => .inr (.inr rfl))
        (by simp [State.stage]) fun hnb _ _ _ => .inl ?_
      obtain rfl : b = none := hb.trans hnb
      simpa [State.objs] using hv'.upstream
  | @fetch i t hl =>
    have hd : s.dir.isSome := hs.stage i _ hl
    refine ⟨fun j st hj => ?_, fun v hv => ?_⟩
    · cases hj
      simpa [StageOk] using hd
    · have hv' := hs.workers v hv
      exact .of_covered ⟨hv'.wants, hv'.upstream⟩ fun _ ho => (objs_fetch hd).1 (hv'.upstream ho)
  | @utime i t w hw hp hl =>
    have hobjs : State.objs { s.setWorker i { w with phase := .returned } with
        writer := none, dir := s.dir.map fun m => { m with mtime := t } } = s.objs := by
      simp only [State.objs, State.setWorker]
      cases s.dir <;> rfl
    have hcovered : ∀ v ∈ s.workers, v.phase.updating → v.need ⊆ s.objs := fun v hv =>
      (hs.workers v hv).fetched (by simp [State.stage, hl])
    refine ⟨by simp, fun v hv => ?_⟩
    rcases List.mem_or_eq_of_mem_set hv with hv | rfl
    · exact (hs.workers v hv).mono (fun _ => id) (hobjs ▸ fun _ => id)
        (fun _ hp' => .inl (hobjs ▸ hcovered v hv (by simp [hp', Phase.updating])))
        (by simp [State.stage]) (by simp [State.stage])
    · have hw' := hs.workers w (List.getElem?_mem hw)
      exact .of_covered ⟨hw'.wants, hw'.upstream⟩
        (hobjs ▸ hcovered w (List.getElem?_mem hw) (by simp [hp, Phase.updating]))
  | push =>
    refine ⟨fun j st hj => ?_, fun v hv => ?_⟩
    · cases st <;> exact hs.stage j _ hj
    · have hv' := hs.workers v hv
      exact hv'.mono (List.subset_append_left _ _) (fun _ => id) hv'.waiting hv'.fetched
        hv'.noBundle

theorem Cancel.fresh {s s' : State} (hs : Fresh s) (h : Cancel s s') (hb : s.bundle = none) :
    Fresh s' := by
  cases h with
  | @waiting i w hw hp =>
    have hw' := hs.workers w (List.getElem?_mem hw)
    exact hs.setWorker (.of_quiet ⟨hw'.wants, hw'.upstream⟩ nofun nofun
      (fun _ h => by simp [Phase.updating] at h))
  | @holder i w st hw hp hl hc =>
    have hw' := hs.workers w (List.getElem?_mem hw)
    refine ⟨by simp, fun v hv => ?_⟩
    rcases List.mem_or_eq_of_mem_set hv with hv | rfl
    · have hv' := hs.workers v hv
      refine hv'.mono (fun _ => id) (fun _ => id) (fun prev hp' => ?_) (by simp [State.stage])
        (by simp [State.stage])
      cases st with
      | cloning =>
        rcases hv'.waiting prev hp' with h | h | h
        · exact .inl h
        · exact .inr (.inl h)
        · simp [State.pending, hl, Stage.pending] at h
      | cloneRunning => simp [Stage.cloneRuns] at hc
      | fetching =>
        exact (hv'.noBundle hb (by simp [State.stage, hl]) prev hp').elim .inl (.inr ∘ .inl)
      | fetched =>
        exact .inl (hv'.fetched (by simp [State.stage, hl]) (by simp [hp', Phase.updating]))
    · exact .of_quiet ⟨hw'.wants, hw'.upstream⟩ nofun nofun (by simp [State.stage])

theorem Move.bundle {s s' : State} (h : Move s s') : s'.bundle = s.bundle := by
  cases h <;> rfl

theorem Cancel.bundle {s s' : State} (h : Cancel s s') : s'.bundle = s.bundle := by
  cases h <;> rfl

theorem step_bundle (s : State) (e : Event) : (step s e).bundle = s.bundle := by
  rcases step_move s e with h | h | ⟨-, h⟩
  · rw [h]
  · exact h.bundle
  · exact h.bundle

theorem fresh_init (calls : List (List Obj)) (dir : Option Mirror) (bundle : Option (List Obj))
    (upstream : List Obj) : Fresh (init calls dir bundle upstream) := by
  refine ⟨fun _ _ h => (nomatch h), fun w hw => ?_⟩
  obtain ⟨wants, -, rfl⟩ := List.mem_map.mp hw
  exact .of_quiet ⟨List.nil_subset _, List.nil_subset _⟩ nofun nofun (by simp [State.stage, init])

/-- With no bundle file, or no client going away, every state of a run keeps the invariant. -/
theorem fresh_run {s : State} (hs : Fresh s) :
    ∀ evs : List Event, (s.bundle = none ∨ ∀ i, Event.cancel i ∉ evs) → Fresh (run s evs)
  | [], _ => hs
  | e :: evs, hsafe => by
    have hs' : Fresh (step s e) := by
      rcases step_move s e with h | h | ⟨⟨i, rfl⟩, h⟩
      · rwa [h]
      · exact h.fresh hs
      · exact h.fresh hs (hsafe.resolve_right fun h => h i (List.mem_cons_self _ _))
    exact fresh_run hs' evs (hsafe.imp (fun hb => (step_bundle s e).trans hb)
      fun h i hi => h i (List.mem_cons_of_mem _ hi))

/-- In every run with no bundle file, or with no client going away, each call of
`ensure_input_wants` that returns leaves in the mirror the objects of its wants that the
upstream held when it began. -/
theorem run_ensureInputWants_fresh (calls : List (List Obj)) (dir : Option Mirror)
    (bundle : Option (List Obj)) (upstream : List Obj) (evs : List Event)
    (hsafe : bundle = none ∨ ∀ i, Event.cancel i ∉ evs) :
    ∀ w ∈ (run (init calls dir bundle upstream) evs).workers, w.phase = .returned →
      w.need ⊆ (run (init calls dir bundle upstream) evs).objs :=
  fun w hw => ((fresh_run (fresh_init calls dir bundle upstream) evs hsafe).workers w hw).returned

theorem run_ensureInputWants_fresh_clone :
    ((none : Option (List Obj)) = none ∨ ∀ i, Event.cancel i ∉ [.step 0 0, .step 0 0, .step 0 0,
        .step 0 5, .step 0 6, .step 0 7, .step 0 8]) ∧
      (run (init [[1]] none none [0, 1]) [.step 0 0, .step 0 0, .step 0 0, .step 0 5, .step 0 6,
        .step 0 7, .step 0 8]).workers.map Worker.phase = [.returned] ∧
      ∀ w ∈ (run (init [[1]] none none [0, 1]) [.step 0 0, .step 0 0, .step 0 0, .step 0 5,
          .step 0 6, .step 0 7, .step 0 8]).workers, w.phase = .returned →
        w.need ⊆ (run (init [[1]] none none [0, 1]) [.step 0 0, .step 0 0, .step 0 0, .step 0 5,
          .step 0 6, .step 0 7, .step 0 8]).objs :=
  ⟨.inl rfl, by decide, run_ensureInputWants_fresh _ _ _ _ _ (.inl rfl)⟩

/-- A client that goes away between a clone from the bundle and its fetch: the other call saw
the directory absent, takes the lock, finds the mtime moved and returns without fetching, and
the mirror lacks object `1`, which the upstream held when the call began. -/
theorem run_skips_fetch_after_cancelled_clone :
    ∃ s, run (init [[1], [1]] none (some [0]) [0, 1])
      [.step 0 0, .step 1 0, .step 0 0, .step 1 0, .step 0 0, .step 0 5, .step 0 6, .cancel 0,
        .step 1 0] = s ∧
      s.workers.map Worker.phase = [.raised, .returned] ∧
      s.workers.map Worker.need = [[1], [1]] ∧ s.objs = [0] :=
  ⟨_, rfl, by decide⟩

end GitCdn.RepoCache.Freshness
