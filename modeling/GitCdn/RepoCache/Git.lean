import GitCdn.RepoCache.GitOutput

/-! # Git runs of the repo cache

`RepoCache.run_git` runs one git command and cleans its output: the credential is replaced
in stdout and stderr, an `HTTP Basic: Access denied` from the upstream becomes
`HTTPUnauthorized`, and the transfer is accounted. `fetch` and `clone` retry their git run
on the `backoff` schedule.

The outputs of the git processes are an oracle: `run i` is what the `i`-th git run of the
call produces.
-/

namespace GitCdn.RepoCache

open Bytes

/-- What one git process produced. -/
structure GitRun where
  stdout : Bytes
  stderr : Bytes
  returncode : Int
  deriving Repr, DecidableEq

/-- The exceptions of `run_git`, `fetch` and `clone`. -/
inductive GitError where
  /-- `HTTPUnauthorized(reason=stderr_data)`. -/
  | unauthorized (reason : Bytes)
  /-- `HTTPInternalServerError(reason=stderr.decode())`: the decoded text is the bytes. -/
  | internal (reason : Bytes)
  /-- An exception of `parse_git_output`, or of the `decode` of `clone`. -/
  | parse (e : ParseError)
  /-- `UnboundLocalError`: `clone` made no attempt, so `returncode` was never bound. -/
  | unboundLocal
  deriving Repr, DecidableEq

/-- What `run_git` returns. -/
structure RunGit where
  stdout : Bytes
  stderr : Bytes
  returncode : Int
  /-- The `stdout_data` and `stderr_data` fields of the `git_cmd done` record, in UTF-8: the
  outputs decoded with replacement and cut to 128 characters. -/
  logged : Bytes × Bytes
  /-- The value `parse_git_output` observed on `repo_cache_received_bytes`, if any. -/
  received : Option Float64
  deriving Repr, DecidableEq

/-- `RepoCache.run_git(*args)` with the credential `auth` (`self.auth.encode()`), on the
process output `out`. -/
def runGit (auth : Bytes) (out : GitRun) : Except GitError RunGit :=
  let stdout := out.stdout.replace auth (redaction auth)
  let stderr := out.stderr.replace auth (redaction auth)
  if ofString "HTTP Basic: Access denied" <:+: stderr then .error (.unauthorized stderr) else
  match parseGitOutput stderr with
  | .error e => .error (.parse e)
  | .ok v =>
    .ok ⟨stdout, stderr, out.returncode, (decodeReplace 128 stdout, decodeReplace 128 stderr), v⟩

/-- Modelled from the spec: `backoff(BACKOFF_START, BACKOFF_COUNT)` of `git_cdn.util`, the
exponential sleeps between `count` attempts. -/
def backoff (start : ℚ) (count : Nat) : List ℚ := (List.range count).map (start * 2 ^ ·)

@[simp] theorem length_backoff (start : ℚ) (count : Nat) :
    (backoff start count).length = count := by simp [backoff]

/-- The `for` loop of `fetch` over the timeouts `ts`, the next git run being the `i`-th: the
number of runs made when it ends. -/
def fetchLoop (auth : Bytes) (run : Nat → GitRun) : List ℚ → Nat → Except GitError Nat
  | [], i => .ok i
  | _ :: ts, i => do
    let r ← runGit auth (run i)
    if r.returncode = 0 then pure (i + 1) else fetchLoop auth run ts (i + 1)

/-- What a `fetch` that returns did: its git runs, and the `utime` that ends it. -/
structure Fetch where
  runs : Nat
  /-- `self.utime()` bumped the directory's mtime. -/
  touched : Bool
  deriving Repr, DecidableEq

/-- `RepoCache.fetch()` with `BACKOFF_COUNT = count`. -/
def fetch (auth : Bytes) (start : ℚ) (count : Nat) (run : Nat → GitRun) :
    Except GitError Fetch := do
  let n ← fetchLoop auth run (backoff start count) 0
  pure ⟨n, true⟩

/-- The `for` loop of `clone` over the timeouts `ts`: the flag says whether the bundle file
is there, `i` is the next git run, `last` the `stderr` and `returncode` of the latest one. An
attempt first clones the bundle, if there is one, and deletes it when that fails; then it
clones the upstream. A run that exits 0 ends the loop. -/
def cloneLoop (auth : Bytes) (run : Nat → GitRun) :
    List ℚ → Bool → Nat → Option (Bytes × Int) → Except GitError (Option (Bytes × Int))
  | [], _, _, last => .ok last
  | _ :: ts, true, i, _ => do
    let r ← runGit auth (run i)
    if r.returncode = 0 then pure (some (r.stderr, r.returncode)) else
    let r ← runGit auth (run (i + 1))
    if r.returncode = 0 then pure (some (r.stderr, r.returncode)) else
    cloneLoop auth run ts false (i + 2) (some (r.stderr, r.returncode))
  | _ :: ts, false, i, _ => do
    let r ← runGit auth (run i)
    if r.returncode = 0 then pure (some (r.stderr, r.returncode)) else
    cloneLoop auth run ts false (i + 1) (some (r.stderr, r.returncode))

/-- `RepoCache.clone()` with `BACKOFF_COUNT = count`; `bundle` says whether a bundle file
is staged. -/
def clone (auth : Bytes) (start : ℚ) (count : Nat) (bundle : Bool) (run : Nat → GitRun) :
    Except GitError Unit := do
  match ← cloneLoop auth run (backoff start count) bundle 0 none with
  | none => .error .unboundLocal
  | some (stderr, returncode) =>
    if returncode = 0 then pure ()
    else if utf8Valid stderr then .error (.internal stderr)
    else .error (.parse .unicodeDecode)

theorem bind_eq_ok {ε α β : Type} {x : Except ε α} {f : α → Except ε β} {y : β}
    (h : (x >>= f) = .ok y) : ∃ a, x = .ok a ∧ f a = .ok y := by
  cases x with
  | error e => cases h
  | ok a => exact ⟨a, rfl, h⟩

section RunGit

variable {auth : Bytes} {out : GitRun}

theorem runGit_eq_ok {r : RunGit} (h : runGit auth out = .ok r) :
    ∃ v, parseGitOutput (out.stderr.replace auth (redaction auth)) = .ok v ∧
      r = ⟨out.stdout.replace auth (redaction auth), out.stderr.replace auth (redaction auth),
        out.returncode, (decodeReplace 128 (out.stdout.replace auth (redaction auth)),
          decodeReplace 128 (out.stderr.replace auth (redaction auth))), v⟩ := by
  dsimp only [runGit] at h
  split at h
  · cases h
  · split at h
    · cases h
    · cases h
      exact ⟨_, ‹_›, rfl⟩

theorem runGit_returncode {r : RunGit} (h : runGit auth out = .ok r) :
    r.returncode = out.returncode := by
  obtain ⟨_, -, rfl⟩ := runGit_eq_ok h
  rfl

theorem runGit_eq_unauthorized {reason : Bytes}
    (h : runGit auth out = .error (.unauthorized reason)) :
    reason = out.stderr.replace auth (redaction auth) := by
  dsimp only [runGit] at h
  split at h
  · cases h; rfl
  · split at h <;> cases h

theorem runGit_of_denied
    (hden : ofString "HTTP Basic: Access denied" <:+: out.stderr.replace auth (redaction auth)) :
    runGit auth out = .error (.unauthorized (out.stderr.replace auth (redaction auth))) :=
  if_pos hden

/-- On any other git run, `run_git` calls `parse_git_output` on the redacted stderr: it raises
what that raises and records what that observes. -/
theorem runGit_received
    (hden : ¬ ofString "HTTP Basic: Access denied" <:+: out.stderr.replace auth (redaction auth)) :
    (runGit auth out).map RunGit.received =
      (parseGitOutput (out.stderr.replace auth (redaction auth))).mapError .parse := by
  rw [runGit, if_neg hden]
  cases parseGitOutput (out.stderr.replace auth (redaction auth)) <;> rfl

theorem runGit_ne_internal (reason : Bytes) : runGit auth out ≠ .error (.internal reason) := by
  dsimp only [runGit]
  split
  · simp
  · split <;> simp

end RunGit

section Fetch

variable {auth : Bytes} {run : Nat → GitRun}

theorem fetchLoop_of_runGit_ok (hok : ∀ i, ∃ r, runGit auth (run i) = .ok r) :
    ∀ (ts : List ℚ) (i : Nat), ∃ n ≤ i + ts.length, fetchLoop auth run ts i = .ok n
  | [], i => ⟨i, by simp, rfl⟩
  | _ :: ts, i => by
    obtain ⟨r, hr⟩ := hok i
    rw [fetchLoop, hr]
    by_cases h0 : r.returncode = 0
    · exact ⟨i + 1, by simp, if_pos h0⟩
    · rw [show (Except.ok r >>= _) = fetchLoop auth run ts (i + 1) from if_neg h0]
      obtain ⟨n, hn, h⟩ := fetchLoop_of_runGit_ok hok ts (i + 1)
      exact ⟨n, by simp at hn ⊢; omega, h⟩

theorem fetch_returns_after_failed_attempts :
    fetch (ofString "user:token") (1 / 2) 1
      (fun _ => ⟨[], ofString "fatal: unable to access", 128⟩) = .ok ⟨1, true⟩ := by
  rfl

end Fetch

section Clone

variable {auth : Bytes} {run : Nat → GitRun}

/-- What the loop of `clone` can end with, having started from `last`, when its git runs are
those below `lim`: an exception of one of them; or `last` itself, or the outcome of one of
them that returned. -/
def LoopOutcome (auth : Bytes) (run : Nat → GitRun) (lim : Nat) (last : Option (Bytes × Int)) :
    Except GitError (Option (Bytes × Int)) → Prop
  | .error e => ∃ j < lim, runGit auth (run j) = .error e
  | .ok res => res = last ∨
    ∃ j < lim, ∃ r, runGit auth (run j) = .ok r ∧ res = some (r.stderr, r.returncode)

theorem LoopOutcome.mono {lim lim' : Nat} {last : Option (Bytes × Int)}
    {x : Except GitError (Option (Bytes × Int))} (hle : lim ≤ lim')
    (h : LoopOutcome auth run lim last x) : LoopOutcome auth run lim' last x := by
  cases x with
  | error e => obtain ⟨j, hj, h⟩ := h; exact ⟨j, by omega, h⟩
  | ok res => exact h.imp_right fun ⟨j, hj, h⟩ => ⟨j, by omega, h⟩

theorem LoopOutcome.of_run {lim : Nat} {last : Option (Bytes × Int)} {j : Nat} {r : RunGit}
    {x : Except GitError (Option (Bytes × Int))} (hj : j < lim) (hr : runGit auth (run j) = .ok r)
    (h : LoopOutcome auth run lim (some (r.stderr, r.returncode)) x) :
    LoopOutcome auth run lim last x := by
  cases x with
  | error e => exact h
  | ok res => exact h.elim (fun h => .inr ⟨j, hj, r, hr, h⟩) .inr

theorem LoopOutcome.attempt {lim : Nat} {last : Option (Bytes × Int)} {j : Nat} (hj : j < lim)
    {k : RunGit → Except GitError (Option (Bytes × Int))}
    (hk : ∀ r, runGit auth (run j) = .ok r → LoopOutcome auth run lim last (k r)) :
    LoopOutcome auth run lim last (runGit auth (run j) >>= fun r =>
      if r.returncode = 0 then pure (some (r.stderr, r.returncode)) else k r) := by
  cases hr : runGit auth (run j) with
  | error e => exact ⟨j, hj, hr⟩
  | ok r =>
    show LoopOutcome auth run lim last (if r.returncode = 0 then _ else _)
    split
    · exact .inr ⟨j, hj, r, hr, rfl⟩
    · exact hk r hr

/-- The loop over `ts` from the `i`-th git run makes its runs below
`i + ts.length + bundle.toNat`: one per timeout, and one more for the bundle. -/
theorem cloneLoop_outcome (ts : List ℚ) : ∀ bundle i last,
    LoopOutcome auth run (i + ts.length + bundle.toNat) last (cloneLoop auth run ts bundle i last) := by
  induction ts with
  | nil => intro _ _ _; exact .inl rfl
  | cons _ ts ih =>
    intro bundle i last
    cases bundle with
    | false =>
      exact .attempt (by simp) fun _ hr =>
        .of_run (by simp) hr ((ih false (i + 1) _).mono (by simp; omega))
    | true =>
      exact .attempt (by simp; omega) fun _ _ => .attempt (by simp) fun _ hr =>
        .of_run (by simp) hr ((ih false (i + 2) _).mono (by simp; omega))

/-- `clone` returns only after one of its git runs, one of the first `count`, or `count + 1`
with a bundle, exited 0. -/
theorem clone_ok_imp {start : ℚ} {count : Nat} {bundle : Bool}
    (h : clone auth start count bundle run = .ok ()) :
    ∃ j < count + bundle.toNat, (∃ r, runGit auth (run j) = .ok r) ∧ (run j).returncode = 0 := by
  have ho := @cloneLoop_outcome auth run (backoff start count) bundle 0 none
  obtain ⟨res, hl, h⟩ := bind_eq_ok h
  rw [hl, length_backoff, Nat.zero_add] at ho
  rcases ho with rfl | ⟨j, hj, r, hr, rfl⟩
  · cases h
  · refine ⟨j, hj, ⟨r, hr⟩, ?_⟩
    rw [← runGit_returncode hr]
    by_contra h0
    simp [h0] at h
    split at h <;> cases h

theorem clone_ok_imp_second_attempt :
    clone (ofString "user:token") (1 / 2) 5 false (fun j => ⟨[], [], if j = 0 then 128 else 0⟩) =
        .ok () ∧
      ∃ j < 5 + false.toNat, (∃ r, runGit (ofString "user:token")
        ⟨[], [], if j = 0 then 128 else 0⟩ = .ok r) ∧ (if j = 0 then 128 else 0 : Int) = 0 :=
  have h : clone (ofString "user:token") (1 / 2) 5 false
      (fun j => ⟨[], [], if j = 0 then 128 else 0⟩) = .ok () := rfl
  ⟨h, clone_ok_imp h⟩

theorem clone_internal_reason {start : ℚ} {count : Nat} {bundle : Bool} {reason : Bytes}
    (h : clone auth start count bundle run = .error (.internal reason)) :
    ∃ j r, runGit auth (run j) = .ok r ∧ reason = r.stderr := by
  have ho := @cloneLoop_outcome auth run (backoff start count) bundle 0 none
  unfold clone at h
  cases hl : cloneLoop auth run (backoff start count) bundle 0 none with
  | error e =>
    rw [hl] at ho h
    cases h
    obtain ⟨j, -, hj⟩ := ho
    exact absurd hj (runGit_ne_internal reason)
  | ok res =>
    rw [hl] at ho h
    rcases ho with rfl | ⟨j, -, r, hr, rfl⟩
    · cases h
    · refine ⟨j, r, hr, ?_⟩
      simp only [bind, Except.bind] at h
      split at h
      · cases h
      · split at h <;> cases h; rfl

theorem attempt_of_failure (hok : ∀ j, ∃ r, runGit auth (run j) = .ok r)
    (hfail : ∀ j, (run j).returncode ≠ 0) (j : Nat)
    (k : RunGit → Except GitError (Option (Bytes × Int))) :
    ∃ r : RunGit, r.stderr = (run j).stderr.replace auth (redaction auth) ∧
      r.returncode = (run j).returncode ∧
      (runGit auth (run j) >>= fun r =>
        if r.returncode = 0 then pure (some (r.stderr, r.returncode)) else k r) = k r := by
  obtain ⟨r, hr⟩ := hok j
  obtain ⟨_, -, rfl⟩ := runGit_eq_ok hr
  exact ⟨_, rfl, rfl, by rw [hr]; exact if_neg (hfail j)⟩

theorem cloneLoop_cons_false (hok : ∀ j, ∃ r, runGit auth (run j) = .ok r)
    (hfail : ∀ j, (run j).returncode ≠ 0) (t : ℚ) (ts : List ℚ) (i : Nat)
    (last : Option (Bytes × Int)) :
    cloneLoop auth run (t :: ts) false i last = cloneLoop auth run ts false (i + 1)
      (some ((run i).stderr.replace auth (redaction auth), (run i).returncode)) := by
  obtain ⟨r, hs, hc, he⟩ := attempt_of_failure hok hfail i fun r =>
    cloneLoop auth run ts false (i + 1) (some (r.stderr, r.returncode))
  rw [cloneLoop, he, hs, hc]

theorem cloneLoop_cons_true (hok : ∀ j, ∃ r, runGit auth (run j) = .ok r)
    (hfail : ∀ j, (run j).returncode ≠ 0) (t : ℚ) (ts : List ℚ) (i : Nat)
    (last : Option (Bytes × Int)) :
    cloneLoop auth run (t :: ts) true i last = cloneLoop auth run ts false (i + 2)
      (some ((run (i + 1)).stderr.replace auth (redaction auth), (run (i + 1)).returncode)) := by
  obtain ⟨r, hs, hc, he⟩ := attempt_of_failure hok hfail (i + 1) fun r =>
    cloneLoop auth run ts false (i + 2) (some (r.stderr, r.returncode))
  obtain ⟨_, -, -, he'⟩ := attempt_of_failure hok hfail i fun _ =>
    runGit auth (run (i + 1)) >>= fun r => if r.returncode = 0 then
      pure (some (r.stderr, r.returncode)) else
      cloneLoop auth run ts false (i + 2) (some (r.stderr, r.returncode))
  rw [cloneLoop, he', he, hs, hc]

theorem cloneLoop_of_failures (hok : ∀ j, ∃ r, runGit auth (run j) = .ok r)
    (hfail : ∀ j, (run j).returncode ≠ 0) (t : ℚ) (ts : List ℚ) :
    ∀ bundle i last, cloneLoop auth run (t :: ts) bundle i last =
      .ok (some ((run (i + ts.length + bundle.toNat)).stderr.replace auth (redaction auth),
        (run (i + ts.length + bundle.toNat)).returncode)) := by
  induction ts generalizing t with
  | nil =>
    intro bundle i last
    cases bundle
    · rw [cloneLoop_cons_false hok hfail]; rfl
    · rw [cloneLoop_cons_true hok hfail]; rfl
  | cons t' ts ih =>
    intro bundle i last
    cases bundle
    · rw [cloneLoop_cons_false hok hfail, ih, show i + 1 + ts.length + false.toNat =
        i + (t' :: ts).length + false.toNat by simp; omega]
    · rw [cloneLoop_cons_true hok hfail, ih, show i + 2 + ts.length + false.toNat =
        i + (t' :: ts).length + true.toNat by simp; omega]

/-- When every git run returns with a non-zero code, `clone` makes its `count` attempts and
raises `HTTPInternalServerError` with the redacted stderr of the last run. -/
theorem clone_eq_internal_of_failures {start : ℚ} {count : Nat} (hcount : 0 < count)
    (bundle : Bool) (hok : ∀ j, ∃ r, runGit auth (run j) = .ok r)
    (hfail : ∀ j, (run j).returncode ≠ 0) :
    clone auth start count bundle run = .error (.internal
      ((run (count - 1 + bundle.toNat)).stderr.replace auth (redaction auth))) := by
  obtain ⟨t, ts, hts⟩ : ∃ t ts, backoff start count = t :: ts := by
    cases h : backoff start count with
    | nil => have := length_backoff start count; simp [h] at this; omega
    | cons t ts => exact ⟨t, ts, rfl⟩
  have hlen : ts.length = count - 1 := by
    have := length_backoff start count; rw [hts, List.length_cons] at this; omega
  obtain ⟨r, hr⟩ := hok (count - 1 + bundle.toNat)
  obtain ⟨_, hp, -⟩ := runGit_eq_ok hr
  have hv := utf8Valid_of_parseGitOutput hp
  simp only [clone, hts, cloneLoop_of_failures hok hfail, Nat.zero_add, hlen, bind,
    Except.bind, hfail, if_false, hv, if_true]

theorem clone_eq_internal_of_failures_with_bundle :
    clone (ofString "user:token") (1 / 2) 5 true
        (fun _ => ⟨[], ofString "fatal: unable to access", 128⟩) =
      .error (.internal (ofString "fatal: unable to access")) :=
  clone_eq_internal_of_failures (by decide) true (fun _ => ⟨_, rfl⟩) (fun _ => by decide)

end Clone

/-- Where `run_git` and `clone` hand out the output of a git run, the credential `auth` does
not occur: in what `run_git` returns and logs, in the reason of its `HTTPUnauthorized`, and
in the reason of the `HTTPInternalServerError` of `clone`. -/
structure CredentialHidden (auth : Bytes) : Prop where
  runGit_ok : ∀ out r, runGit auth out = .ok r →
    ¬ auth <:+: r.stdout ∧ ¬ auth <:+: r.stderr ∧ ¬ auth <:+: r.logged.1 ∧ ¬ auth <:+: r.logged.2
  unauthorized : ∀ out reason, runGit auth out = .error (.unauthorized reason) →
    ¬ auth <:+: reason
  clone_internal : ∀ start count bundle run reason,
    clone auth start count bundle run = .error (.internal reason) → ¬ auth <:+: reason

set_option exponentiation.threshold 2200 in
set_option maxRecDepth 10000 in
/-- `parse_git_output` raises on a stderr that is not UTF-8, observes `1.23 KiB` as the double
`float("1.23") * 1024`, which is not `1259.52`, and is not called on a run that `run_git`
rejects as unauthorized. -/
theorem parseGitOutput_raises_or_rounds :
    parseGitOutput [0xFF] = .error .unicodeDecode ∧
    parseGitOutput (ofString "Receiving objects: 100% (3/3), 1.23 KiB | 1.23 KiB/s, done.") =
      .ok (some (.fin (5539427541665710 * 2 ^ 1032))) ∧
    5539427541665710 * 2 ^ 1032 * 100 ≠ 123 * 2 ^ 10 * 2 ^ 1074 ∧
    runGit (ofString "user:token") ⟨[], ofString
        "HTTP Basic: Access denied\nReceiving objects: 100% (3/3), 1 KiB | 1 KiB/s, done.", 128⟩ =
      .error (.unauthorized (ofString
        "HTTP Basic: Access denied\nReceiving objects: 100% (3/3), 1 KiB | 1 KiB/s, done.")) :=
  ⟨rfl, rfl, by decide, rfl⟩

/-- `parse_git_output` returns on every UTF-8 stderr whose matching lines all carry an amount
that `float()` reads. It observes the total the loop adds up in doubles, the first line first,
which is the exact total when the amounts are whole numbers adding up to at most `2^53`; or it
observes nothing when no line matches. `run_git` raises `HTTPUnauthorized` on a redacted
stderr that reports `HTTP Basic: Access denied`, and on every other git run calls
`parse_git_output` on it. -/
theorem parseGitOutput_observes_receivedBytes (amount : Bytes → Float64) (whole : Bytes → Nat) :
    (∀ stderr, utf8Valid stderr = true →
      (∀ l ∈ receiveDoneLines stderr, pyFloat l.1 = .ok (amount l.1)) →
      parseGitOutput stderr = .ok (if receiveDoneLines stderr = [] then none
        else some (floatTotal amount (receiveDoneLines stderr)))) ∧
    (∀ stderr, utf8Valid stderr = true →
      (∀ l ∈ receiveDoneLines stderr, wholeAmount l.1 = some (whole l.1)) →
      exactTotal whole (receiveDoneLines stderr) ≤ 2 ^ 53 →
      parseGitOutput stderr = .ok (if receiveDoneLines stderr = [] then none
        else some (.ofNat (exactTotal whole (receiveDoneLines stderr))))) ∧
    ∀ auth out, let stderr := out.stderr.replace auth (redaction auth)
      (ofString "HTTP Basic: Access denied" <:+: stderr →
        runGit auth out = .error (.unauthorized stderr)) ∧
      (¬ ofString "HTTP Basic: Access denied" <:+: stderr →
        (runGit auth out).map RunGit.received = (parseGitOutput stderr).mapError .parse) :=
  ⟨fun _ hutf hnum => parseGitOutput_eq_ok hutf hnum,
    fun _ hutf hwhole hle => parseGitOutput_of_whole hutf hwhole hle,
    fun _ _ => ⟨runGit_of_denied, runGit_received⟩⟩

set_option exponentiation.threshold 2200 in
theorem parseGitOutput_observes_half_mib :
    receiveDoneLines (ofString "Receiving objects: 100% (3/3), 512.00 KiB | 1.00 MiB/s, done.") =
        [(ofString "512.00", ofString "KiB")] ∧
      parseGitOutput (ofString "Receiving objects: 100% (3/3), 512.00 KiB | 1.00 MiB/s, done.") =
        .ok (some (.ofNat 524288)) := by
  have hlines : receiveDoneLines
      (ofString "Receiving objects: 100% (3/3), 512.00 KiB | 1.00 MiB/s, done.") =
      [(ofString "512.00", ofString "KiB")] := by decide
  refine ⟨hlines, ?_⟩
  rw [(parseGitOutput_observes_receivedBytes (fun _ => .ofNat 0) fun _ => 512).2.1 _
    (by decide) (by rw [hlines]; decide) (by rw [hlines]; decide), hlines]
  rfl

end GitCdn.RepoCache
