import Mathlib.Data.Finset.Max

/-! # Lock order

Every lock of the cache is a file lock taken with `async with` (or `with` in the cleaner's
thread), so a request holds its locks as a stack: the innermost is released first, also when
an exception or a cancellation unwinds the request. This module reduces each code path to the
locks it takes, runs any number of requests and cleaner tasks together, and shows that the
locks are always taken in one order (`clean.lock`, a pack-cache entry, a repo cache, then the
bundle or the upload semaphore), so no set of them can wait on each other.
-/

namespace GitCdn.Locks

/-- A lock, named by the file (or semaphore) it is. -/
inductive Res where
  /-- `clean.lock` of the pack-cache cleaner. -/
  | cleanLock
  /-- A pack-cache entry file: `PackCache.read_lock`/`write_lock`, and the cleaner's
  `FileLock(f.path)` on the same path. -/
  | entry (hash : String)
  /-- `RepoCache.lock` of a repository path. -/
  | rcache (path : String)
  /-- The bundle lock of a repository path. -/
  | bundle (path : String)
  /-- The upload semaphore `sema`. -/
  | sema
  deriving DecidableEq, Repr

/-- `fcntl.LOCK_SH` or `fcntl.LOCK_EX`; the semaphore is taken shared. -/
inductive Mode where
  | shared
  | exclusive
  deriving DecidableEq, Repr

/-- The order in which the code takes the locks. -/
def Res.rank : Res → Nat
  | .cleanLock => 1
  | .entry _ => 2
  | .rcache _ => 3
  | .bundle _ => 4
  | .sema => 4

/-- A code path reduced to the locks it takes. -/
inductive Prog where
  /-- Work that takes no lock. -/
  | skip
  /-- `async with lock(r, m): body`. -/
  | lock (r : Res) (m : Mode) (body : Prog)
  /-- One after the other. -/
  | seq (p q : Prog)
  /-- A branch on what the request finds (a file, a return code, an early `return`). -/
  | branch (p q : Prog)
  deriving DecidableEq, Repr

/-- `RepoCache.clone()`: up to `count` attempts, each cloning the bundle first, when there is
one, under the bundle's shared lock; an attempt that succeeds ends the loop. -/
def clone (path : String) : Nat → Prog
  | 0 => .skip
  | n + 1 => .seq (.branch (.lock (.bundle path) .shared .skip) .skip) (.branch .skip (clone path n))

/-- `RepoCache.update()`: under the repo's exclusive lock, a clone and a fetch, a fetch, or
nothing. `fetch` takes no lock. -/
def update (path : String) (count : Nat) : Prog :=
  .lock (.rcache path) .exclusive (.branch (clone path count) .skip)

/-- `_ensure_input_wants_in_rcache(wants)`: an update when the mirror is absent; otherwise
`cat-file` under the repo's shared lock, then an update when a want is missing. -/
def ensureInputWants (path : String) (count : Nat) : Prog :=
  .branch (update path count)
    (.seq (.lock (.rcache path) .shared .skip) (.branch (update path count) .skip))

/-- `_upload_pack`: under the repo's shared lock, when the mirror exists, upload-pack, inside
the semaphore when there is one. -/
def uploadPack (path : String) (sema : Bool) : Prog :=
  .lock (.rcache path) .shared
    (.branch (if sema then .lock .sema .shared .skip else .skip) .skip)

/-- `_execute`. -/
def execute (path : String) (count : Nat) (sema : Bool) : Prog :=
  .seq (ensureInputWants path count) (uploadPack path sema)

/-- `_run_with_cache`: the entry checked under its shared lock (and served, and returned
from); else built under its exclusive lock, then served under its shared lock. -/
def runWithCache (hash path : String) (count : Nat) (sema : Bool) : Prog :=
  .seq (.lock (.entry hash) .shared .skip)
    (.branch .skip
      (.seq (.lock (.entry hash) .exclusive (.branch (execute path count sema) .skip))
        (.lock (.entry hash) .shared .skip)))

/-- `UploadPackHandler.run`: nothing for a parse error or no wants, else the cached or the
plain path. -/
def run (hash path : String) (count : Nat) (sema : Bool) : Prog :=
  .branch .skip (.branch (runWithCache hash path count sema) (execute path count sema))

/-- `PackCacheCleaner.clean_task()`: under `clean.lock`, each file of `to_delete` deleted under
its own exclusive lock. -/
def cleanTask (toDelete : List String) : Prog :=
  .lock .cleanLock .exclusive
    (toDelete.foldr (fun f p => .seq (.lock (.entry f) .exclusive .skip) p) .skip)

/-- The tasks that run together: requests and cleaner runs. -/
inductive Task : Prog → Prop
  | run (hash path : String) (count : Nat) (sema : Bool) : Task (run hash path count sema)
  | cleaner (toDelete : List String) : Task (cleanTask toDelete)

/-- A lock held, with what runs after it is released. -/
abbrev Frame := Res × Mode × List Prog

/-- A running request or cleaner task. -/
structure Thread where
  /-- What is left to run inside the innermost lock held, first statement first. -/
  todo : List Prog
  /-- The locks held, innermost first. -/
  held : List Frame
  deriving DecidableEq, Repr

/-- Unwinding drops what would have run after each release. -/
def unwind : List Frame → List Frame
  | [] => []
  | (r, m, _) :: h => (r, m, []) :: unwind h

/-- A task about to start. -/
def Thread.start (p : Prog) : Thread := ⟨[p], []⟩

/-- One step of a thread that takes no lock. An exception (or a cancellation) may come at any
point and unwinds the thread: every `async with` around it releases its lock. -/
inductive Thread.Step : Thread → Thread → Prop
  | skip {k h} : Thread.Step ⟨.skip :: k, h⟩ ⟨k, h⟩
  | seq {p q k h} : Thread.Step ⟨.seq p q :: k, h⟩ ⟨p :: q :: k, h⟩
  | left {p q k h} : Thread.Step ⟨.branch p q :: k, h⟩ ⟨p :: k, h⟩
  | right {p q k h} : Thread.Step ⟨.branch p q :: k, h⟩ ⟨q :: k, h⟩
  | release {r m k h} : Thread.Step ⟨[], (r, m, k) :: h⟩ ⟨k, h⟩
  | raise {t} : Thread.Step t ⟨[], unwind t.held⟩

/-- Thread `j` holds `r`. -/
def Holds (ts : List Thread) (j : Nat) (r : Res) (m : Mode) : Prop :=
  ∃ t, ts[j]? = some t ∧ ∃ k, (r, m, k) ∈ t.held

/-- Thread `i` may take `r` in mode `m`: a file lock when no other thread holds it in a
conflicting mode, the semaphore when fewer than `cap` other threads hold it. -/
def Granted (cap : Nat) (ts : List Thread) (i : Nat) (r : Res) (m : Mode) : Prop :=
  if r = .sema then ((List.range ts.length).filter fun j => j ≠ i ∧
      ∃ t, ts[j]? = some t ∧ r ∈ t.held.map (·.1)).length < cap
  else ∀ j, j ≠ i → ∀ m', Holds ts j r m' → m = .shared ∧ m' = .shared

/-- One step of the system, with an upload semaphore of `cap` places. -/
inductive Step (cap : Nat) : List Thread → List Thread → Prop
  | local {ts i t t'} : ts[i]? = some t → t.Step t' → Step cap ts (ts.set i t')
  | acquire {ts i r m body k h} : ts[i]? = some ⟨.lock r m body :: k, h⟩ →
      Granted cap ts i r m → Step cap ts (ts.set i ⟨[body], (r, m, k) :: h⟩)

/-- Steps in sequence. -/
inductive Reach (cap : Nat) : List Thread → List Thread → Prop
  | refl (ts) : Reach cap ts ts
  | tail {ts us vs} : Reach cap ts us → Step cap us vs → Reach cap ts vs

/-- Thread `i` is about to take a lock that thread `j` holds. -/
def Waits (ts : List Thread) (i j : Nat) : Prop :=
  ∃ r m body k h, ts[i]? = some ⟨.lock r m body :: k, h⟩ ∧ ∃ m', Holds ts j r m'

/-- A deadlock: a set of threads each about to take a lock that another of them holds. -/
def Deadlock (ts : List Thread) (S : Finset Nat) : Prop :=
  S.Nonempty ∧ ∀ i ∈ S, ∃ j ∈ S, j ≠ i ∧ Waits ts i j

/-- Every lock `p` takes is ranked above `b`, and above the locks around it. -/
def Prog.Above (b : Nat) : Prog → Prop
  | .skip => True
  | .lock r _ body => b < r.rank ∧ body.Above r.rank
  | .seq p q => p.Above b ∧ q.Above b
  | .branch p q => p.Above b ∧ q.Above b

/-- The rank of the innermost lock held; `0` when none is. -/
def top : List Frame → Nat
  | [] => 0
  | (r, _, _) :: _ => r.rank

/-- The locks held were taken in rank order, and what runs after each is released takes only
locks ranked above those still held then. -/
def Ordered : List Frame → Prop
  | [] => True
  | (r, _, k) :: h => top h < r.rank ∧ (∀ p ∈ k, p.Above (top h)) ∧ Ordered h

/-- A thread that keeps the order: what it runs next takes only locks ranked above those it
holds. -/
structure Thread.Wf (t : Thread) : Prop where
  todo : ∀ p ∈ t.todo, p.Above (top t.held)
  held : Ordered t.held

theorem rank_le_top : ∀ {h : List Frame}, Ordered h → ∀ x ∈ h, x.1.rank ≤ top h
  | [], _, _, hx => nomatch hx
  | (r, m, k) :: h, ⟨hlt, _, hord⟩, x, hx => by
    rcases List.mem_cons.mp hx with rfl | hx
    · exact le_refl _
    · exact (rank_le_top hord x hx).trans hlt.le

theorem top_unwind : ∀ h : List Frame, top (unwind h) = top h
  | [] => rfl
  | _ :: _ => rfl

theorem Ordered.unwind : ∀ {h : List Frame}, Ordered h → Ordered (unwind h)
  | [], _ => trivial
  | (_, _, _) :: h, ⟨hlt, _, hord⟩ =>
    ⟨by rw [top_unwind]; exact hlt, (fun _ hp => nomatch hp), hord.unwind⟩

theorem Thread.Step.wf {t t' : Thread} (hstep : t.Step t') (hwf : t.Wf) : t'.Wf := by
  obtain ⟨htodo, hheld⟩ := hwf
  cases hstep with
  | skip => exact ⟨fun p hp => htodo p (.tail _ hp), hheld⟩
  | seq =>
    have := htodo _ (.head _)
    refine ⟨fun p hp => ?_, hheld⟩
    rcases List.mem_cons.mp hp with rfl | hp
    · exact this.1
    rcases List.mem_cons.mp hp with rfl | hp
    · exact this.2
    · exact htodo p (.tail _ hp)
  | left | right =>
    have := htodo _ (.head _)
    refine ⟨fun p hp => ?_, hheld⟩
    rcases List.mem_cons.mp hp with rfl | hp
    · first | exact this.1 | exact this.2
    · exact htodo p (.tail _ hp)
  | release => exact ⟨hheld.2.1, hheld.2.2⟩
  | raise => exact ⟨(fun _ hp => nomatch hp), hheld.unwind⟩

theorem Thread.Wf.acquire {r : Res} {m : Mode} {body : Prog} {k : List Prog} {h : List Frame}
    (hwf : Thread.Wf ⟨.lock r m body :: k, h⟩) : Thread.Wf ⟨[body], (r, m, k) :: h⟩ := by
  obtain ⟨htodo, hheld⟩ := hwf
  obtain ⟨hlt, hbody⟩ := htodo _ (.head _)
  exact ⟨fun p hp => by rw [List.mem_singleton.mp hp]; exact hbody,
    hlt, fun p hp => htodo p (.tail _ hp), hheld⟩

theorem Step.wf {cap : Nat} {ts us : List Thread} (hstep : Step cap ts us)
    (hwf : ∀ t ∈ ts, t.Wf) : ∀ t ∈ us, t.Wf := by
  intro t ht
  cases hstep with
  | «local» hi hs =>
    rcases List.mem_or_eq_of_mem_set ht with ht | rfl
    · exact hwf t ht
    · exact hs.wf (hwf _ (List.getElem?_mem hi))
  | acquire hi _ =>
    rcases List.mem_or_eq_of_mem_set ht with ht | rfl
    · exact hwf t ht
    · exact (hwf _ (List.getElem?_mem hi)).acquire

theorem Reach.wf {cap : Nat} {ts us : List Thread} (hreach : Reach cap ts us)
    (hwf : ∀ t ∈ ts, t.Wf) : ∀ t ∈ us, t.Wf := by
  induction hreach with
  | refl => exact hwf
  | tail _ hstep ih => exact hstep.wf ih

/-- The rank of the lock thread `i` is about to take; `0` when it is about to take none. -/
def waitRank (ts : List Thread) (i : Nat) : Nat :=
  match ts[i]? with
  | some ⟨.lock r _ _ :: _, _⟩ => r.rank
  | _ => 0

theorem waitRank_lt {ts : List Thread} (hwf : ∀ t ∈ ts, t.Wf) {i j l : Nat}
    (hij : Waits ts i j) (hjl : Waits ts j l) : waitRank ts i < waitRank ts j := by
  obtain ⟨r, _, _, _, _, hi, _, t, hj, _, hmem⟩ := hij
  obtain ⟨r', _, _, _, _, hj', -⟩ := hjl
  rw [hj'] at hj
  cases hj
  obtain ⟨htodo, hheld⟩ := hwf _ (List.getElem?_mem hj')
  have hle : r.rank ≤ _ := rank_le_top hheld _ hmem
  have hlt := (htodo _ (.head _)).1
  simp only [waitRank, hi, hj']
  omega

/-- In a state where every thread keeps the order there is no deadlock: the member of a
deadlock that waits for the highest-ranked lock would wait for a thread that waits for a
higher one. -/
theorem not_deadlock {ts : List Thread} (hwf : ∀ t ∈ ts, t.Wf) (S : Finset Nat) :
    ¬ Deadlock ts S := by
  rintro ⟨hne, hS⟩
  obtain ⟨i, hi, hmax⟩ := S.exists_max_image (waitRank ts) hne
  obtain ⟨j, hj, -, hij⟩ := hS i hi
  obtain ⟨l, -, -, hjl⟩ := hS j hj
  exact absurd (hmax j hj) (not_le.mpr (waitRank_lt hwf hij hjl))

theorem clone_above (path : String) : ∀ n, (clone path n).Above 3
  | 0 => trivial
  | n + 1 => ⟨⟨⟨(by decide : 3 < 4), trivial⟩, trivial⟩, trivial, clone_above path n⟩

theorem cleanTask_above (toDelete : List String) : (cleanTask toDelete).Above 0 := by
  refine ⟨by decide, ?_⟩
  induction toDelete with
  | nil => trivial
  | cons _ _ ih => exact ⟨⟨(by decide : 1 < 2), trivial⟩, ih⟩

theorem Task.above {p : Prog} (htask : Task p) : p.Above 0 := by
  cases htask with
  | run hash path count sema =>
    have hclone := clone_above path count
    cases sema <;>
      simp [run, runWithCache, execute, ensureInputWants, update, uploadPack, Prog.Above,
        Res.rank, hclone]
  | cleaner toDelete => exact cleanTask_above toDelete

/-- No state that threads of the server's tasks reach from their start is a deadlock, for
any capacity of the semaphore. -/
theorem run_never_deadlocks (cap : Nat) (tasks : List Prog) (htasks : ∀ p ∈ tasks, Task p)
    {ts : List Thread} (hreach : Reach cap (tasks.map Thread.start) ts) (S : Finset Nat) :
    ¬ Deadlock ts S := by
  refine not_deadlock (hreach.wf ?_) S
  intro t ht
  obtain ⟨p, hp, rfl⟩ := List.mem_map.mp ht
  exact ⟨fun q hq => by rw [List.mem_singleton.mp hq]; exact (htasks p hp).above, trivial⟩

theorem granted_of_free {cap : Nat} {ts : List Thread} {i : Nat} {r : Res} {m : Mode}
    (hr : r ≠ .sema) (hfree : ∀ j, j ≠ i → ∀ m', ¬ Holds ts j r m') : Granted cap ts i r m := by
  rw [Granted, if_neg hr]
  exact fun j hj m' h => absurd h (hfree j hj m')

theorem run_never_deadlocks_cleaner_waits :
    (∀ p ∈ [run "3f00" "group/repo.git" 5 true, cleanTask ["3f00"]], Task p) ∧
      ∃ ts, Reach 1 ([run "3f00" "group/repo.git" 5 true, cleanTask ["3f00"]].map Thread.start) ts ∧
        Holds ts 0 (.entry "3f00") .shared ∧ Holds ts 1 .cleanLock .exclusive ∧ Waits ts 1 0 ∧
        ¬ Deadlock ts {0, 1} := by
  have htasks : ∀ p ∈ [run "3f00" "group/repo.git" 5 true, cleanTask ["3f00"]], Task p := by
    intro p hp
    rcases List.mem_pair.mp hp with rfl | rfl
    · exact .run _ _ _ _
    · exact .cleaner _
  -- the request takes the entry's shared lock; the cleaner takes `clean.lock`, then reaches
  -- the entry's exclusive lock
  have h0 := @Reach.refl 1
    ([run "3f00" "group/repo.git" 5 true, cleanTask ["3f00"]].map Thread.start)
  have h1 := h0.tail (@Step.local 1 _ 0 _ _ rfl .right)
  have h2 := h1.tail (@Step.local 1 _ 0 _ _ rfl .left)
  have h3 := h2.tail (@Step.local 1 _ 0 _ _ rfl .seq)
  have h4 := h3.tail (@Step.acquire 1 _ 0 _ _ _ _ _ rfl (granted_of_free (by decide) ?_))
  have h5 := h4.tail (@Step.acquire 1 _ 1 _ _ _ _ _ rfl (granted_of_free (by decide) ?_))
  have h6 := h5.tail (@Step.local 1 _ 1 _ _ rfl .seq)
  · exact ⟨htasks, _, h6, ⟨_, rfl, _, .head _⟩, ⟨_, rfl, _, .head _⟩,
      ⟨_, _, _, _, _, rfl, _, _, rfl, _, .head _⟩, run_never_deadlocks 1 _ htasks h6 _⟩
  all_goals
    rintro (_ | _ | j) hj m' ⟨t, ht, k, hk⟩ <;> simp [Thread.start] at ht hj
    subst ht
    simp at hk

end GitCdn.Locks
