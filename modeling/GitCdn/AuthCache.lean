import Mathlib.Data.List.Basic

/-! # The authorization cache

`store_auth_ok` writes an empty file named by the md5 digest of `f"{auth_header} {path}"`,
and `auth_ok` grants while that file is at most `cache_ttl` old, unlinking it once it is
older. The digest is a parameter, the cache directory is the mtime of each file by name, and
times are clock ticks. Worker processes share the directory: another one can write a file
between the `os.stat` of `auth_ok` and its unlink. Header and path are joined with a space,
so a header with a space in it can read the grant of another header for another path; when
no path has a space, a grant is read back only by the pair that stored it.
-/

namespace GitCdn

/-- The cache directory, as the mtime of each file by name, and `cache_ttl`. -/
structure AuthCache where
  cacheTtl : Int
  files : String → Option Int

namespace AuthCache

/-- The name of `cache_file(auth_header, path)` in the cache directory. -/
def cacheFile (md5 : String → String) (authHeader path : String) : String :=
  md5 (authHeader ++ " " ++ path)

/-- `store_auth_ok(auth_header, path)` at time `now`. -/
def storeAuthOk (md5 : String → String) (c : AuthCache) (authHeader path : String)
    (now : Int) : AuthCache :=
  if c.cacheTtl ≤ 0 then c
  else if authHeader = "" then c
  else
    let filename := cacheFile md5 authHeader path
    { c with files := fun f => if f = filename then some now else c.files f }

/-- `auth_ok(auth_header, path)` at time `now`: the answer, and the directory after it. -/
def authOk (md5 : String → String) (c : AuthCache) (authHeader path : String) (now : Int) :
    Bool × AuthCache :=
  if c.cacheTtl ≤ 0 then (false, c)
  else if authHeader = "" then (false, c)
  else
    let filename := cacheFile md5 authHeader path
    match c.files filename with
    | none => (false, c)
    | some mtime =>
      if now - mtime > c.cacheTtl then
        (false, { c with files := fun f => if f = filename then none else c.files f })
      else (true, c)

/-- A call on the cache, at time `now`. -/
inductive Call where
  | storeAuthOk (authHeader path : String) (now : Int)
  | authOk (authHeader path : String) (now : Int)
  deriving Repr, DecidableEq

/-- The path a call names. -/
def Call.path : Call → String
  | .storeAuthOk _ p _ | .authOk _ p _ => p

/-- The time a call is made at. -/
def Call.time : Call → Int
  | .storeAuthOk _ _ t | .authOk _ _ t => t

/-- The cache after the calls, in order. -/
def run (md5 : String → String) : AuthCache → List Call → AuthCache
  | c, [] => c
  | c, .storeAuthOk h p t :: calls => run md5 (c.storeAuthOk md5 h p t) calls
  | c, .authOk h p t :: calls => run md5 (c.authOk md5 h p t).2 calls


variable {md5 : String → String} {c : AuthCache} {h p : String} {t : Int}

@[simp] theorem cacheTtl_storeAuthOk : (c.storeAuthOk md5 h p t).cacheTtl = c.cacheTtl := by
  unfold storeAuthOk; split_ifs <;> rfl

theorem authOk_snd : (c.authOk md5 h p t).2 = c ∨
    (∃ m, c.files (cacheFile md5 h p) = some m ∧ t - m > c.cacheTtl) ∧ (c.authOk md5 h p t).2 =
      { c with files := fun f => if f = cacheFile md5 h p then none else c.files f } := by
  unfold authOk
  split_ifs
  · exact .inl rfl
  · exact .inl rfl
  · dsimp only
    split
    · exact .inl rfl
    · next m hm =>
      split_ifs with hexp
      · exact .inr ⟨⟨m, hm, hexp⟩, rfl⟩
      · exact .inl rfl

@[simp] theorem cacheTtl_authOk : (c.authOk md5 h p t).2.cacheTtl = c.cacheTtl := by
  rcases @authOk_snd md5 c h p t with e | ⟨-, e⟩ <;> rw [e]

theorem files_storeAuthOk {f : String} {m : Int} (hf : (c.storeAuthOk md5 h p t).files f = some m) :
    c.files f = some m ∨ h ≠ "" ∧ cacheFile md5 h p = f ∧ m = t := by
  unfold storeAuthOk at hf
  split_ifs at hf with httl hh
  · exact .inl hf
  · exact .inl hf
  · dsimp only at hf
    split_ifs at hf with hfn
    · exact .inr ⟨hh, hfn.symm, (Option.some.inj hf).symm⟩
    · exact .inl hf

theorem files_authOk {f : String} {m : Int} (hf : (c.authOk md5 h p t).2.files f = some m) :
    c.files f = some m := by
  rcases @authOk_snd md5 c h p t with e | ⟨-, e⟩ <;> rw [e] at hf
  · exact hf
  · dsimp only at hf
    split_ifs at hf
    exact hf

theorem authOk_eq_true (hok : (c.authOk md5 h p t).1 = true) :
    0 < c.cacheTtl ∧ h ≠ "" ∧ ∃ m, c.files (cacheFile md5 h p) = some m ∧ t - m ≤ c.cacheTtl := by
  unfold authOk at hok
  split_ifs at hok with httl hh
  dsimp only at hok
  split at hok
  · cases hok
  · rename_i m hm
    split_ifs at hok with hexp
    exact ⟨by omega, hh, m, hm, by omega⟩

/-- Every file of the directory was written by a `store_auth_ok` of `calls`, at its mtime. -/
def Stored (md5 : String → String) (calls : List Call) (c : AuthCache) : Prop :=
  ∀ f m, c.files f = some m →
    ∃ h p, h ≠ "" ∧ cacheFile md5 h p = f ∧ Call.storeAuthOk h p m ∈ calls

theorem stored_run : ∀ (calls : List Call) {c : AuthCache} {pre : List Call}, Stored md5 pre c →
    Stored md5 (pre ++ calls) (run md5 c calls) ∧ (run md5 c calls).cacheTtl = c.cacheTtl
  | [], _, _, hc => by simpa [AuthCache.run] using hc
  | .storeAuthOk h p t :: calls, c, pre, hc => by
    have hs : Stored md5 (pre ++ [.storeAuthOk h p t]) (c.storeAuthOk md5 h p t) := by
      intro f m hf
      rcases files_storeAuthOk hf with hf | ⟨hh, rfl, rfl⟩
      · obtain ⟨h', p', hh', hf', hmem⟩ := hc f m hf
        exact ⟨h', p', hh', hf', by simp [hmem]⟩
      · exact ⟨h, p, hh, rfl, by simp⟩
    simpa [AuthCache.run] using stored_run calls hs
  | .authOk h p t :: calls, c, pre, hc => by
    have hs : Stored md5 (pre ++ [.authOk h p t]) (c.authOk md5 h p t).2 := by
      intro f m hf
      obtain ⟨h', p', hh', hf', hmem⟩ := hc f m (files_authOk hf)
      exact ⟨h', p', hh', hf', by simp [hmem]⟩
    simpa [AuthCache.run] using stored_run calls hs

/-- Over every sequence of calls, `auth_ok` grants only within `cache_ttl` of a
`store_auth_ok` whose pair has the same cache file. -/
theorem authOk_stored (ttl : Int) (calls : List Call)
    (hok : ((run md5 ⟨ttl, fun _ => none⟩ calls).authOk md5 h p t).1 = true) :
    ∃ h' p' s, Call.storeAuthOk h' p' s ∈ calls ∧ cacheFile md5 h' p' = cacheFile md5 h p ∧
      t - s ≤ ttl := by
  obtain ⟨hst, httl⟩ := @stored_run md5 calls ⟨ttl, fun _ => none⟩ [] fun _ _ h => nomatch h
  obtain ⟨-, -, m, hm, hle⟩ := authOk_eq_true hok
  obtain ⟨h', p', -, hf, hmem⟩ := hst _ m hm
  exact ⟨h', p', m, by simpa using hmem, hf, le_of_le_of_eq hle httl⟩


theorem append_cons_eq_of_not_mem {α : Type} {x₁ x₂ z₁ z₂ : List α} {a : α} (h₁ : a ∉ z₁)
    (h₂ : a ∉ z₂) (h : x₁ ++ a :: z₁ = x₂ ++ a :: z₂) : x₁ = x₂ ∧ z₁ = z₂ := by
  rcases List.append_eq_append_iff.mp h with ⟨c, rfl, hc⟩ | ⟨c, rfl, hc⟩
  · cases c with
    | nil => simpa using hc
    | cons b c =>
      obtain ⟨rfl, rfl⟩ := List.cons.inj hc
      simp at h₁
  · cases c with
    | nil => simpa using hc.symm
    | cons b c =>
      obtain ⟨rfl, rfl⟩ := List.cons.inj hc
      simp at h₂

theorem join_inj {a b a' b' : String} (hb : ' ' ∉ b.data) (hb' : ' ' ∉ b'.data)
    (h : a ++ " " ++ b = a' ++ " " ++ b') : a = a' ∧ b = b' := by
  have hd : a.data ++ ' ' :: b.data = a'.data ++ ' ' :: b'.data := by
    simpa using congrArg String.data h
  obtain ⟨h₁, h₂⟩ := append_cons_eq_of_not_mem hb hb' hd
  exact ⟨String.ext h₁, String.ext h₂⟩

/-- With an injective digest and no space in any path, `auth_ok` grants a pair only within
`cache_ttl` of a `store_auth_ok` of that same pair. -/
theorem authOk_sound_of_no_space (hmd5 : Function.Injective md5) (ttl : Int) (calls : List Call)
    (hpaths : ∀ call ∈ calls, ' ' ∉ call.path.data) (hp : ' ' ∉ p.data)
    (hok : ((run md5 ⟨ttl, fun _ => none⟩ calls).authOk md5 h p t).1 = true) :
    ∃ s, Call.storeAuthOk h p s ∈ calls ∧ t - s ≤ ttl := by
  obtain ⟨h', p', s, hmem, hf, hle⟩ := authOk_stored ttl calls hok
  obtain ⟨rfl, rfl⟩ := join_inj (hpaths _ hmem) hp (hmd5 hf)
  exact ⟨s, hmem, hle⟩

theorem authOk_sound_of_no_space_two_stores :
    Function.Injective (id : String → String) ∧
      (∀ call ∈ [Call.storeAuthOk "Basic a" "p" 0, .storeAuthOk "Basic b" "q" 5],
        ' ' ∉ call.path.data) ∧ ' ' ∉ "p".data ∧
      ((run id ⟨60, fun _ => none⟩ [.storeAuthOk "Basic a" "p" 0, .storeAuthOk "Basic b" "q" 5]).authOk
        id "Basic a" "p" 10).1 = true ∧
      ∃ s, Call.storeAuthOk "Basic a" "p" s ∈
          [Call.storeAuthOk "Basic a" "p" 0, .storeAuthOk "Basic b" "q" 5] ∧
        (10 : Int) - s ≤ 60 :=
  ⟨Function.injective_id, by decide, by decide, by decide,
    authOk_sound_of_no_space Function.injective_id 60 _ (by decide) (by decide) (by decide)⟩


theorem files_authOk_of_fresh {f : String} {m : Int} (hf : c.files f = some m)
    (hfresh : t - m ≤ c.cacheTtl) : (c.authOk md5 h p t).2.files f = some m := by
  rcases @authOk_snd md5 c h p t with e | ⟨⟨m', hm', hexp⟩, e⟩ <;> rw [e]
  · exact hf
  · have hne : f ≠ cacheFile md5 h p := fun hfc => by
      rw [← hfc, hf, Option.some.injEq] at hm'
      omega
    exact (if_neg hne).trans hf

theorem authOk_of_fresh {m : Int} (httl : 0 < c.cacheTtl) (hh : h ≠ "")
    (hf : c.files (cacheFile md5 h p) = some m) (hfresh : t - m ≤ c.cacheTtl) :
    (c.authOk md5 h p t).1 = true := by
  unfold authOk
  simp [show ¬ c.cacheTtl ≤ 0 by omega, hh, hf, show ¬ t - m > c.cacheTtl by omega]

@[simp] theorem cacheTtl_run : ∀ (calls : List Call) (c : AuthCache),
    (run md5 c calls).cacheTtl = c.cacheTtl
  | [], _ => rfl
  | .storeAuthOk h p t :: calls, c => by rw [run, cacheTtl_run calls, cacheTtl_storeAuthOk]
  | .authOk h p t :: calls, c => by rw [run, cacheTtl_run calls, cacheTtl_authOk]

theorem kept_run {f : String} {s t : Int} : ∀ (calls : List Call) (c : AuthCache),
    (∀ call ∈ calls, s ≤ call.time ∧ call.time ≤ t) → t - s ≤ c.cacheTtl →
      (∃ m, c.files f = some m ∧ s ≤ m) → ∃ m, (run md5 c calls).files f = some m ∧ s ≤ m
  | [], _, _, _, hk => hk
  | .storeAuthOk h p τ :: calls, c, htimes, hwin, ⟨m, hm, hsm⟩ => by
    have hτ := htimes _ (List.mem_cons_self _ _)
    refine kept_run calls _ (fun call hc => htimes call (List.mem_cons_of_mem _ hc))
      (by simpa using hwin) ?_
    unfold storeAuthOk
    split_ifs
    · exact ⟨m, hm, hsm⟩
    · exact ⟨m, hm, hsm⟩
    · dsimp only
      split_ifs
      · exact ⟨τ, rfl, hτ.1⟩
      · exact ⟨m, hm, hsm⟩
  | .authOk h p τ :: calls, c, htimes, hwin, ⟨m, hm, hsm⟩ => by
    have hτ := htimes _ (List.mem_cons_self _ _)
    exact kept_run calls _ (fun call hc => htimes call (List.mem_cons_of_mem _ hc))
      (by simpa using hwin)
      ⟨m, files_authOk_of_fresh hm (by simp only [Call.time] at hτ; omega), hsm⟩

/-- A stored authorization is honoured for `cache_ttl` seconds: after `store_auth_ok(h, p)`
at time `s`, `auth_ok(h, p)` grants at any time `t` at most `cache_ttl` later, whatever calls
for any pairs came between, at times between `s` and `t`. -/
theorem authOk_within_ttl_of_store (md5 : String → String) (c : AuthCache)
    (httl : 0 < c.cacheTtl) (hh : h ≠ "") {s t : Int} (hwin : t - s ≤ c.cacheTtl)
    (calls : List Call) (htimes : ∀ call ∈ calls, s ≤ call.time ∧ call.time ≤ t) :
    ((run md5 (c.storeAuthOk md5 h p s) calls).authOk md5 h p t).1 = true := by
  have hstore : (c.storeAuthOk md5 h p s).files (cacheFile md5 h p) = some s := by
    simp [storeAuthOk, show ¬ c.cacheTtl ≤ 0 by omega, hh]
  obtain ⟨m, hm, hsm⟩ := kept_run calls _ htimes (by simpa using hwin) ⟨s, hstore, Int.le_refl s⟩
  exact authOk_of_fresh (by simpa using httl) hh hm (by simp; omega)

/-- `auth_ok`'s `os.stat` with the check of the age that follows it, at time `now`: the
answer, and the file it is about to unlink when it found it expired. -/
def statAuth (md5 : String → String) (c : AuthCache) (authHeader path : String) (now : Int) :
    Bool × Option String :=
  if c.cacheTtl ≤ 0 then (false, none)
  else if authHeader = "" then (false, none)
  else
    let filename := cacheFile md5 authHeader path
    match c.files filename with
    | none => (false, none)
    | some mtime => if now - mtime > c.cacheTtl then (false, some filename) else (true, none)

theorem statAuth_snd {f : String} (hf : (c.statAuth md5 h p t).2 = some f) :
    f = cacheFile md5 h p ∧ ∃ m, c.files f = some m ∧ t - m > c.cacheTtl := by
  unfold statAuth at hf
  split_ifs at hf
  dsimp only at hf
  split at hf
  · cases hf
  · next m hm =>
    split_ifs at hf with hexp
    cases hf
    exact ⟨rfl, m, hm, hexp⟩

/-- `os.unlink(filename)`. A file already gone raises `FileNotFoundError`, which `auth_ok`
swallows. -/
def unlink (c : AuthCache) (filename : String) : AuthCache :=
  { c with files := fun f => if f = filename then none else c.files f }

/-- `auth_ok` is its `os.stat` followed at once by the `os.unlink` of an expired file. -/
theorem authOk_eq_statAuth : c.authOk md5 h p t =
    match c.statAuth md5 h p t with
    | (b, none) => (b, c)
    | (b, some f) => (b, c.unlink f) := by
  unfold authOk statAuth
  split_ifs <;> try rfl
  dsimp only
  split
  · rfl
  · split_ifs <;> rfl

/-- The cache directory that the worker processes share, with the unlinks their `auth_ok`
calls have still to make. -/
structure Shared where
  cache : AuthCache
  pending : List String

/-- A step of one process on the shared directory: `auth_ok` is two steps, as another process
can write the file between its `os.stat` and its `os.unlink`. -/
inductive Event where
  /-- `store_auth_ok(auth_header, path)` at time `now`. -/
  | store (authHeader path : String) (now : Int)
  /-- The `os.stat` of `auth_ok(auth_header, path)` at time `now`. -/
  | stat (authHeader path : String) (now : Int)
  /-- The pending `os.unlink(filename)` of an `auth_ok`. -/
  | unlink (filename : String)
  deriving Repr, DecidableEq

def Shared.step (md5 : String → String) (c : Shared) : Event → Shared
  | .store h p t => { c with cache := c.cache.storeAuthOk md5 h p t }
  | .stat h p t =>
    match (c.cache.statAuth md5 h p t).2 with
    | none => c
    | some f => { c with pending := f :: c.pending }
  | .unlink f => if f ∈ c.pending then ⟨c.cache.unlink f, c.pending.erase f⟩ else c

def Shared.run (md5 : String → String) (c : Shared) (evs : List Event) : Shared :=
  evs.foldl (step md5) c

/-- The steps of a call made in one go. -/
def Call.events (md5 : String → String) : Call → List Event
  | .storeAuthOk h p t => [.store h p t]
  | .authOk h p t => [.stat h p t, .unlink (cacheFile md5 h p)]

/-- A single process makes each call in one go: the calls run on the shared directory as
`run` runs them. -/
theorem run_eq_shared (md5 : String → String) : ∀ (calls : List Call) (c : AuthCache),
    Shared.run md5 ⟨c, []⟩ (calls.flatMap (Call.events md5)) = ⟨run md5 c calls, []⟩
  | [], _ => rfl
  | .storeAuthOk h p t :: calls, c => run_eq_shared md5 calls _
  | .authOk h p t :: calls, c => by
    rw [List.flatMap_cons, Shared.run, List.foldl_append, run, authOk_eq_statAuth]
    rcases hst : c.statAuth md5 h p t with ⟨b, _ | f⟩
    · simpa [Call.events, Shared.step, hst] using run_eq_shared md5 calls c
    · obtain ⟨rfl, -⟩ := statAuth_snd (by rw [hst])
      simpa [Call.events, Shared.step, hst] using run_eq_shared md5 calls (c.unlink _)

/-- A step made between the times `s` and `t`; an unlink can come at any time. -/
def Event.Within (s t : Int) : Event → Prop
  | .store _ _ τ | .stat _ _ τ => s ≤ τ ∧ τ ≤ t
  | .unlink _ => True

/-- What keeps a grant: the file holds an mtime of `s` or later, and no `auth_ok` is about to
unlink it. -/
def Shared.Keeps (f : String) (s : Int) (c : Shared) : Prop :=
  (∃ m, c.cache.files f = some m ∧ s ≤ m) ∧ f ∉ c.pending

theorem Shared.Keeps.step {f : String} {s t : Int} {c : Shared} (hk : c.Keeps f s)
    (hwin : t - s ≤ c.cache.cacheTtl) {e : Event} (he : e.Within s t) :
    (c.step md5 e).Keeps f s ∧ (c.step md5 e).cache.cacheTtl = c.cache.cacheTtl := by
  obtain ⟨⟨m, hm, hsm⟩, hpend⟩ := hk
  cases e with
  | store h p τ =>
    refine ⟨⟨?_, hpend⟩, cacheTtl_storeAuthOk⟩
    simp only [Shared.step]
    unfold storeAuthOk
    split_ifs
    · exact ⟨m, hm, hsm⟩
    · exact ⟨m, hm, hsm⟩
    · dsimp only
      split_ifs
      · exact ⟨τ, rfl, he.1⟩
      · exact ⟨m, hm, hsm⟩
  | stat h p τ =>
    simp only [Shared.step]
    split
    · exact ⟨⟨⟨m, hm, hsm⟩, hpend⟩, rfl⟩
    · next g hg =>
      obtain ⟨rfl, m', hm', hexp⟩ := statAuth_snd hg
      refine ⟨⟨⟨m, hm, hsm⟩, ?_⟩, rfl⟩
      rintro (_ | ⟨_, hmem⟩)
      · -- the stat found the file expired, which it is not
        rw [hm, Option.some.injEq] at hm'
        simp only [Event.Within] at he
        omega
      · exact hpend hmem
  | unlink g =>
    simp only [Shared.step]
    split_ifs with hg
    · have hne : f ≠ g := fun hfg => hpend (hfg ▸ hg)
      exact ⟨⟨⟨m, by simp [unlink, hne, hm], hsm⟩,
        fun hmem => hpend (List.mem_of_mem_erase hmem)⟩, rfl⟩
    · exact ⟨⟨⟨m, hm, hsm⟩, hpend⟩, rfl⟩

theorem Shared.Keeps.run {f : String} {s t : Int} : ∀ (evs : List Event) (c : Shared),
    c.Keeps f s → t - s ≤ c.cache.cacheTtl → (∀ e ∈ evs, e.Within s t) →
      (Shared.run md5 c evs).Keeps f s ∧ (Shared.run md5 c evs).cache.cacheTtl = c.cache.cacheTtl
  | [], _, hk, _, _ => ⟨hk, rfl⟩
  | e :: evs, c, hk, hwin, hevs => by
    obtain ⟨hk', httl⟩ := hk.step hwin (hevs e (List.mem_cons_self _ _))
    obtain ⟨hk'', httl'⟩ := Shared.Keeps.run evs _ hk' (httl ▸ hwin)
      fun e' he' => hevs e' (List.mem_cons_of_mem _ he')
    exact ⟨hk'', httl'.trans httl⟩

/-- Among processes sharing the directory, a stored authorization is honoured for `cache_ttl`
seconds when no `auth_ok` is about to unlink its file: after `store_auth_ok(h, p)` at time
`s`, the `os.stat` of `auth_ok(h, p)` grants at any time `t` at most `cache_ttl` later,
whatever steps of any calls came between, at times between `s` and `t`. An `auth_ok` that
found an older file of the pair expired, and unlinks after the store, loses the grant. -/
theorem statAuth_within_ttl_of_store (md5 : String → String) :
    (∀ (c : Shared) (h p : String) (s t : Int) (evs : List Event), 0 < c.cache.cacheTtl →
      h ≠ "" → t - s ≤ c.cache.cacheTtl → cacheFile md5 h p ∉ c.pending →
      (∀ e ∈ evs, e.Within s t) →
      ((Shared.run md5 ⟨c.cache.storeAuthOk md5 h p s, c.pending⟩ evs).cache.statAuth md5 h p
        t).1 = true) ∧
    ((Shared.run md5 ⟨⟨60, fun _ => none⟩, []⟩ [.store "Basic a" "p" 0, .stat "Basic a" "p" 100,
        .store "Basic a" "p" 100, .unlink (cacheFile md5 "Basic a" "p")]).cache.statAuth md5
          "Basic a" "p" 110).1 = false := by
  refine ⟨fun c h p s t evs httl hh hwin hpend hevs => ?_, by
    simp [Shared.run, Shared.step, storeAuthOk, statAuth, unlink]⟩
  have hstore : (c.cache.storeAuthOk md5 h p s).files (cacheFile md5 h p) = some s := by
    simp [storeAuthOk, show ¬ c.cache.cacheTtl ≤ 0 by omega, hh]
  obtain ⟨⟨⟨m, hm, hsm⟩, -⟩, httl'⟩ := @Shared.Keeps.run md5 _ s t evs
    ⟨c.cache.storeAuthOk md5 h p s, c.pending⟩ ⟨⟨s, hstore, Int.le_refl s⟩, hpend⟩
    (by simpa using hwin) hevs
  simp only [cacheTtl_storeAuthOk] at httl'
  simp [statAuth, httl', show ¬ c.cache.cacheTtl ≤ 0 by omega, hh, hm,
    show ¬ t - m > c.cache.cacheTtl by omega]

/-- Whatever the digest, the grant of the header `Basic a` for the path `b c` is read back by
the header `Basic a b` for the path `c`, which nothing stored. -/
theorem authOk_grants_other_pair (md5 : String → String) :
    ((run md5 ⟨60, fun _ => none⟩ [.storeAuthOk "Basic a" "b c" 0]).authOk md5 "Basic a b" "c"
      0).1 = true ∧
      ∀ s, Call.storeAuthOk "Basic a b" "c" s ∉ [Call.storeAuthOk "Basic a" "b c" 0] := by
  simp [AuthCache.run, storeAuthOk, authOk, cacheFile]

end AuthCache

end GitCdn
