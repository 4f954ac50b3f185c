import Mathlib

/-! # Pack cache eviction

`PackCacheCleaner._clean_task` keeps the pack cache under `max_size` bytes: it sums the
sizes of all entries, and when the sum reaches the budget it picks the least recently used
entries (by mtime) until the rest is below the budget. Before it deletes them it converts the
mtime of the last one with `datetime.fromtimestamp`, which raises on a time outside the years
1 to 9999. The entries are the `os.scandir` listing, fixed for the run.
-/

namespace GitCdn.PackCacheCleaner

/-- A pack-cache entry as `os.scandir` lists it. -/
structure Entry where
  path : String
  size : Nat
  mtime : Int
  deriving Repr, DecidableEq

/-- `max_size` as `__init__` computes it from `PACK_CACHE_SIZE_GB`: the budget less 512 MiB. -/
def maxSizeOf (gb : Int) : Int := (gb * 1024 - 512) * 1024 * 1024

/-- The exceptions of `_clean_task`. -/
inductive CleanError where
  /-- `IndexError` of `all_files.pop()` on an empty list. -/
  | popFromEmpty
  /-- `IndexError` of `to_delete[-1]` on an empty list. -/
  | lastOfEmpty
  /-- `ValueError` (or `OverflowError`) of `datetime.fromtimestamp` on an mtime whose local
  time is outside the years 1 to 9999. -/
  | timestampOutOfRange
  deriving Repr, DecidableEq

/-- What one `_clean_task` did. -/
structure Clean where
  /-- The files deleted, in order. -/
  deleted : List Entry
  /-- The values `pack_cache_used_bytes` was set to, in order. -/
  gauge : List Nat
  /-- The values `pack_cache_evicted_bytes` observed, in order. -/
  evicted : List Nat
  /-- The value returned. -/
  ret : Nat
  deriving Repr, DecidableEq

/-- Total size of a list of entries. -/
def totalSize (files : List Entry) : Nat := (files.map Entry.size).sum

/-- `all_files.sort(key=lambda f: f.stat().st_mtime, reverse=True)`: newest first, a stable
sort, so entries of equal mtime keep their order. -/
def sortByMtimeDesc (files : List Entry) : List Entry :=
  files.mergeSort fun a b => b.mtime ≤ a.mtime

/-- The `while total_size - rm_size >= self.max_size` loop. `pending` is `all_files` read
from its end, so `all_files.pop()` takes its head; returns `rm_size` and `to_delete`. -/
def evict (maxSize : Int) (total : Nat) :
    List Entry → Nat → List Entry → Except CleanError (Nat × List Entry)
  | pending, rmSize, toDelete =>
    if maxSize ≤ (total : Int) - rmSize then
      match pending with
      | [] => .error .popFromEmpty
      | f :: rest => evict maxSize total rest (rmSize + f.size) (toDelete ++ [f])
    else .ok (rmSize, toDelete)

/-- `datetime.fromtimestamp(t)` in a time zone `utcOffset` seconds east of UTC: the local
time must fall in the years 1 to 9999, and a day after the first instant of year 1, where
the probe for a fold (at `t` less one day) is a valid time too. -/
def fromTimestamp (utcOffset t : Int) : Except CleanError Unit :=
  if -62135510400 ≤ t + utcOffset ∧ t + utcOffset ≤ 253402300799 then .ok ()
  else .error .timestampOutOfRange

/-- `PackCacheCleaner._clean_task` over the listing `allFiles`, in a time zone `utcOffset`
seconds east of UTC. -/
def cleanTask (utcOffset : Int) (maxSize : Int) (allFiles : List Entry) :
    Except CleanError Clean :=
  let total := totalSize allFiles
  if (total : Int) < maxSize then .ok ⟨[], [total], [], 0⟩ else do
  let (rmSize, toDelete) ← evict maxSize total (sortByMtimeDesc allFiles).reverse 0 []
  -- `cache_duration` converts the mtime of `to_delete[-1]`
  let last ← (toDelete.getLast?).elim (.error .lastOfEmpty) pure
  fromTimestamp utcOffset last.mtime
  pure ⟨toDelete, total :: toDelete.map fun _ => total - rmSize,
    toDelete.map Entry.size, toDelete.length⟩

@[simp] theorem totalSize_nil : totalSize [] = 0 := rfl

@[simp] theorem totalSize_cons (f : Entry) (fs : List Entry) :
    totalSize (f :: fs) = f.size + totalSize fs := by simp [totalSize]

@[simp] theorem totalSize_append (fs gs : List Entry) :
    totalSize (fs ++ gs) = totalSize fs + totalSize gs := by simp [totalSize]

@[simp] theorem totalSize_reverse (fs : List Entry) : totalSize fs.reverse = totalSize fs := by
  simp [totalSize, List.sum_reverse]

theorem totalSize_perm {fs gs : List Entry} (h : fs.Perm gs) : totalSize fs = totalSize gs :=
  (h.map _).sum_eq

theorem sortByMtimeDesc_perm (files : List Entry) : (sortByMtimeDesc files).Perm files :=
  List.mergeSort_perm _ _

@[simp] theorem totalSize_sortByMtimeDesc (files : List Entry) :
    totalSize (sortByMtimeDesc files) = totalSize files :=
  totalSize_perm (sortByMtimeDesc_perm files)

theorem sortByMtimeDesc_pairwise (files : List Entry) :
    (sortByMtimeDesc files).Pairwise fun a b => b.mtime ≤ a.mtime := by
  have := @List.sorted_mergeSort _ (fun a b : Entry => decide (b.mtime ≤ a.mtime))
    (fun a b c hab hbc => by simp only [decide_eq_true_eq] at *; omega)
    (fun a b => by simp only [Bool.or_eq_true, decide_eq_true_eq]; omega) files
  simpa [sortByMtimeDesc] using this

/-- With a positive budget the loop pops a prefix `D` of `pending`, the shortest whose
removal takes the total below the budget: before its last pop the total was still at or
above it. -/
theorem evict_spec {maxSize : Int} (hmax : 0 < maxSize) {total : Nat} (pending : List Entry) :
    ∀ (rm : Nat) (acc : List Entry), rm + totalSize pending = total →
      ∃ D rest, pending = D ++ rest ∧
        evict maxSize total pending rm acc = .ok (rm + totalSize D, acc ++ D) ∧
        (total : Int) - (rm + totalSize D) < maxSize ∧
        ∀ D₀ x, D = D₀ ++ [x] → maxSize ≤ (total : Int) - (rm + totalSize D₀) := by
  induction pending with
  | nil =>
    intro rm acc hsum
    refine ⟨[], [], rfl, ?_, by simp at hsum ⊢; omega, fun D₀ x h => by simp at h⟩
    rw [evict, if_neg (by simp at hsum; omega)]; simp
  | cons f rest ih =>
    intro rm acc hsum
    by_cases hle : maxSize ≤ (total : Int) - rm
    · obtain ⟨D, rest', hD, hev, hlt, hmin⟩ :=
        ih (rm + f.size) (acc ++ [f]) (by simp at hsum; omega)
      refine ⟨f :: D, rest', by simp [hD], ?_, by simp; omega, ?_⟩
      · rw [evict, if_pos hle]; simp [hev, Nat.add_assoc]
      · intro D₀ x hDx
        match D₀, hDx with
        | [], _ => simpa using hle
        | _ :: D₀, hDx =>
          simp only [List.cons_append, List.cons.injEq] at hDx
          obtain ⟨rfl, hDx⟩ := hDx
          have := hmin D₀ x hDx; simp; omega
    · refine ⟨[], f :: rest, by simp, ?_, by simp; omega, fun D₀ x h => by simp at h⟩
      rw [evict, if_neg hle]; simp

/-- What a cleaning of `files` with `PACK_CACHE_SIZE_GB = gb` should do (§4.F): `deleted` and
`kept` split the listing, the oldest entries go first, and only as many go as bring the total
below the budget `(gb * 1024 - 512) MiB`; the gauge ends at what is kept and the summary sees
each deleted size. -/
structure Evicts (gb : Int) (files : List Entry) (c : Clean) (kept : List Entry) : Prop where
  split : (c.deleted ++ kept).Perm files
  oldest_first : ∀ d ∈ c.deleted, ∀ k ∈ kept, d.mtime ≤ k.mtime
  none_iff : c.deleted = [] ↔ ((files.map Entry.size).sum : Int) < (gb * 1024 - 512) * 2 ^ 20
  below_budget : c.deleted ≠ [] → ((kept.map Entry.size).sum : Int) < (gb * 1024 - 512) * 2 ^ 20
  minimal : ∀ x ∈ c.deleted.getLast?,
    (gb * 1024 - 512) * 2 ^ 20 ≤ ((kept.map Entry.size).sum : Int) + x.size
  ret_eq : c.ret = c.deleted.length
  gauge_eq : c.gauge.getLast? = some (kept.map Entry.size).sum
  evicted_eq : c.evicted = c.deleted.map Entry.size

theorem cleanTask_of_lt {utcOffset maxSize : Int} {files : List Entry}
    (h : (totalSize files : Int) < maxSize) :
    cleanTask utcOffset maxSize files = .ok ⟨[], [totalSize files], [], 0⟩ := by
  simp [cleanTask, h]

theorem cleanTask_of_evict {utcOffset maxSize : Int} {files D₀ : List Entry} {x : Entry}
    {rm : Nat} (hge : ¬ (totalSize files : Int) < maxSize)
    (hev : evict maxSize (totalSize files) (sortByMtimeDesc files).reverse 0 [] =
      .ok (rm, D₀ ++ [x]))
    (hx : fromTimestamp utcOffset x.mtime = .ok ()) :
    cleanTask utcOffset maxSize files = .ok ⟨D₀ ++ [x],
      totalSize files :: (D₀ ++ [x]).map (fun _ => totalSize files - rm),
      (D₀ ++ [x]).map Entry.size, (D₀ ++ [x]).length⟩ := by
  simp [cleanTask, hge, hev, hx, bind, Except.bind, pure, Except.pure]

/-- Cutting the newest-first listing in two: the end, read backwards, and the start make up
the listing, and every entry of the end is at least as old as every entry of the start. -/
theorem sortByMtimeDesc_split {files D rest : List Entry}
    (h : sortByMtimeDesc files = rest.reverse ++ D.reverse) :
    (D ++ rest.reverse).Perm files ∧ ∀ d ∈ D, ∀ k ∈ rest.reverse, d.mtime ≤ k.mtime := by
  have hpair := sortByMtimeDesc_pairwise files
  rw [h, List.pairwise_append] at hpair
  refine ⟨(List.perm_append_comm.trans ?_).trans (sortByMtimeDesc_perm files),
    fun d hd k hk => hpair.2.2 k hk d (List.mem_reverse.mpr hd)⟩
  rw [h]
  exact List.Perm.append_left _ (List.reverse_perm _).symm

theorem maxSizeOf_eq (gb : Int) : maxSizeOf gb = (gb * 1024 - 512) * 2 ^ 20 := by
  unfold maxSizeOf; ring

/-- With a cache size of at least 1 GiB and mtimes `fromtimestamp` accepts, `_clean_task`
returns and evicts the oldest entries, just enough of them. -/
theorem cleanTask_evicts_lru (utcOffset gb : Int) (hgb : 1 ≤ gb) (files : List Entry)
    (hmtime : ∀ f ∈ files, fromTimestamp utcOffset f.mtime = .ok ()) :
    ∃ c kept, cleanTask utcOffset (maxSizeOf gb) files = .ok c ∧ Evicts gb files c kept := by
  have hmax : 0 < maxSizeOf gb := by unfold maxSizeOf; omega
  have hsize : ∀ l : List Entry, (l.map Entry.size).sum = totalSize l := fun _ => rfl
  by_cases hlt : (totalSize files : Int) < maxSizeOf gb
  · refine ⟨_, files, cleanTask_of_lt hlt, ⟨by simp, by simp, ?_, by simp, by simp, rfl, rfl,
      rfl⟩⟩
    rw [hsize, ← maxSizeOf_eq]
    simp [hlt]
  · obtain ⟨D, rest, hsplit, hev, hbelow, hmin⟩ := @evict_spec _ hmax (totalSize files)
      (sortByMtimeDesc files).reverse 0 [] (by simp)
    obtain ⟨hperm, holder⟩ := @sortByMtimeDesc_split files _ _ (by
      rw [← List.reverse_append, ← hsplit, List.reverse_reverse])
    have hsum : totalSize files = totalSize D + totalSize rest := by
      rw [← totalSize_perm hperm]; simp
    obtain ⟨D₀, x, rfl⟩ : ∃ D₀ x, D = D₀ ++ [x] := by
      cases D using List.reverseRecOn with
      | nil => simp at hbelow; omega
      | append_singleton D₀ x _ => exact ⟨D₀, x, rfl⟩
    -- the newest entry deleted is `to_delete[-1]`, whose mtime `fromtimestamp` converts
    have hx := hmtime x (hperm.mem_iff.mp (by simp))
    have hmin := hmin D₀ x rfl
    simp only [totalSize_append, totalSize_cons, totalSize_nil, Nat.add_zero, Nat.cast_add,
      Nat.cast_zero, zero_add] at hsum hbelow hmin
    refine ⟨_, rest.reverse, cleanTask_of_evict hlt hev hx, ⟨hperm, holder, ?_, ?_, ?_, rfl, ?_,
      rfl⟩⟩ <;> rw [hsize] <;> try rw [← maxSizeOf_eq]
    · simp [hlt]
    · intro _; simp at hbelow ⊢; omega
    · simp at hmin ⊢; omega
    · rw [List.map_append, List.map_singleton, ← List.cons_append, List.getLast?_concat]
      simp; omega

theorem cleanTask_evicts_lru_one_gib :
    (1 : Int) ≤ 1 ∧
      (∀ f ∈ [⟨"pack_cache/3f/3f00", 400 * 2 ^ 20, 1700000000⟩,
          ⟨"pack_cache/a1/a100", 300 * 2 ^ 20, 1700003600⟩],
        fromTimestamp 0 (Entry.mtime f) = .ok ()) ∧
      ∃ c kept, cleanTask 0 (maxSizeOf 1) [⟨"pack_cache/3f/3f00", 400 * 2 ^ 20, 1700000000⟩,
          ⟨"pack_cache/a1/a100", 300 * 2 ^ 20, 1700003600⟩] = .ok c ∧
        Evicts 1 [⟨"pack_cache/3f/3f00", 400 * 2 ^ 20, 1700000000⟩,
          ⟨"pack_cache/a1/a100", 300 * 2 ^ 20, 1700003600⟩] c kept :=
  have hmtime : ∀ f ∈ [(⟨"pack_cache/3f/3f00", 400 * 2 ^ 20, 1700000000⟩ : Entry),
      ⟨"pack_cache/a1/a100", 300 * 2 ^ 20, 1700003600⟩], fromTimestamp 0 f.mtime = .ok () := by
    intro f hf
    rcases List.mem_pair.mp hf with rfl | rfl <;> rfl
  ⟨by decide, hmtime, cleanTask_evicts_lru 0 1 (by decide) _ hmtime⟩

/-- One entry of 600 MiB, over the budget of 512 MiB, with its mtime in the year 33658
(`10^12` seconds): `_clean_task` raises `ValueError` before it deletes anything. -/
theorem cleanTask_raises_on_far_mtime :
    cleanTask 0 (maxSizeOf 1) [⟨"pack_cache/3f/3f00", 600 * 2 ^ 20, 10 ^ 12⟩] =
      .error .timestampOutOfRange := by
  simp [cleanTask, sortByMtimeDesc, evict, maxSizeOf, fromTimestamp, bind, Except.bind, pure,
    Except.pure, totalSize]

theorem maxSizeOf_neg {gb : Int} (hgb : gb ≤ 0) : maxSizeOf gb < 0 := by
  unfold maxSizeOf; omega

theorem evict_of_nonpos {maxSize : Int} (hmax : maxSize ≤ 0) {total : Nat} :
    ∀ (pending : List Entry) (rm : Nat) (acc : List Entry), rm + totalSize pending = total →
      evict maxSize total pending rm acc = .error .popFromEmpty
  | [], rm, acc, hsum => by rw [evict, if_pos (by simp at hsum; omega)]
  | f :: rest, rm, acc, hsum => by
    rw [totalSize_cons] at hsum
    rw [evict, if_pos (by omega)]
    exact evict_of_nonpos hmax rest _ _ (by omega)

/-- With `PACK_CACHE_SIZE_GB` at zero or below, every `_clean_task`, on an empty cache too,
raises `IndexError` from `all_files.pop()` before it deletes anything. -/
theorem cleanTask_pops_empty_list (utcOffset gb : Int) (hgb : gb ≤ 0) (files : List Entry) :
    cleanTask utcOffset (maxSizeOf gb) files = .error .popFromEmpty := by
  have hmax := maxSizeOf_neg hgb
  rw [cleanTask, if_neg (by omega), evict_of_nonpos hmax.le _ 0 [] (by simp)]
  rfl

theorem cleanTask_pops_empty_list_zero_gib :
    (0 : Int) ≤ 0 ∧ cleanTask 0 (maxSizeOf 0) [] = .error .popFromEmpty :=
  ⟨le_refl 0, cleanTask_pops_empty_list 0 0 (le_refl 0) []⟩

end GitCdn.PackCacheCleaner
