import GitCdn.UploadPack.Protocol

/-! # Writers of the entry

`_do_upload_pack` shields `cache_pack` so that a cancelled client does not cut the entry
short, and its `finally` waits for the upload-pack process "for the shielded upload pack to
terminate". It waits for the process, not for `cache_pack`: when the gather ends early (a
cancellation, or `write_input` raising) the request reaps the process, raises, and releases
the entry's exclusive lock while its `cache_pack` may still be writing. The next request then
finds no valid entry, takes the lock and starts a second `cache_pack` on the same file.

When the gather can only end with its `cache_pack`, the lock keeps the writers apart: a
running `cache_pack` belongs to the request holding the exclusive lock.
-/

namespace GitCdn.UploadPack

open Bytes PackCache

/-- Each running `cache_pack` is awaited by its request, in the gather. -/
def Owned (s : State) : Prop :=
  ∀ (w : Nat) (x : Writer), s.writers[w]? = some x → x.phase.running →
    ∃ o, s.reqs[x.owner]? = some o ∧ o.phase = .gather w

theorem owned_init (n : Nat) (file : Option Bytes) : Owned (init n file) := by
  intro w x hx
  simp [init] at hx

theorem Owned.setWriter {s : State} {w₀ : Nat} {x₀ x' : Writer} (hown : Owned s)
    (hx₀ : s.writers[w₀]? = some x₀) (hrun : x₀.phase.running) (howner : x'.owner = x₀.owner) :
    Owned (s.setWriter w₀ x') := by
  intro w x hx hrun'
  rw [State.writers_setWriter hx₀] at hx
  split at hx
  · cases hx
    subst w
    rw [howner]
    exact hown w₀ x₀ hx₀ hrun
  · exact hown w x hx hrun'

theorem Owned.setReq {s : State} {i : Nat} {o o' : Req} (hown : Owned s)
    (ho : s.reqs[i]? = some o) (hphase : o'.phase = o.phase) : Owned (s.setReq i o') := by
  intro w x hx hrun
  obtain ⟨p, hp, hpp⟩ := hown w x hx hrun
  rw [State.reqs_setReq ho]
  split
  · subst i
    rw [ho, Option.some.injEq] at hp
    subst hp
    exact ⟨o', rfl, hphase.trans hpp⟩
  · exact ⟨p, hp, hpp⟩

section NoEarlyExit

variable {c : Config} (hcancel : c.allowed .cancel = false)
  (hinput : c.allowed .inputFails = false)
include hcancel hinput

theorem Move.owned {s s' : State} (h : Move c s s') (hown : Owned s) : Owned s' := by
  cases h with
  | @req i r r' hr hm =>
    intro w x hx hrun
    change s.writers[w]? = some x at hx
    obtain ⟨o, ho, hop⟩ := hown w x hx hrun
    rw [State.reqs_setReq hr]
    by_cases hi : i = x.owner
    · subst hi
      rw [hr, Option.some.injEq] at ho
      subst ho
      cases hm with
      | gathered hg hx' hfin =>
        rw [hop, Phase.gather.injEq] at hg
        subst hg
        rw [hx, Option.some.injEq] at hx'
        subst hx'
        simp [hfin, WPhase.running] at hrun
      | gatherFails _ hf => simp [hcancel, hinput] at hf
      | cancel hp hf => simp [hcancel] at hf
      | _ => simp_all
    · exact ⟨o, by rw [if_neg hi]; exact ho, hop⟩
  | @spawn i r _ _ _ hr hp _ =>
    intro w x hx hrun
    dsimp only at hx ⊢
    rw [State.reqs_setReq hr]
    rcases Nat.lt_or_ge w s.writers.length with hw | hw
    · -- an older writer: its owner is in the gather, so it is not the spawning request
      rw [List.getElem?_append_left hw] at hx
      obtain ⟨o, ho, hop⟩ := hown w x hx hrun
      have hi : i ≠ x.owner := by
        rintro rfl
        rw [hr, Option.some.injEq] at ho
        subst ho
        rw [hp] at hop
        cases hop
      exact ⟨o, by rw [if_neg hi]; exact ho, hop⟩
    · -- the new writer, awaited by the request that spawned it
      rw [List.getElem?_append_right hw] at hx
      obtain ⟨hw0, rfl⟩ := getElem?_singleton_eq hx
      obtain rfl : w = s.writers.length := by omega
      exact ⟨_, if_pos rfl, rfl⟩
  | «open» hx₀ hp | write hx₀ hp | parsed hx₀ hp | teeMissing hx₀ hp | unlink hx₀ hp
  | writeFails hx₀ hp =>
    exact hown.setWriter hx₀ (by simp [hp, WPhase.running]) rfl
  | writerRaises hx₀ hrun => exact hown.setWriter hx₀ hrun rfl
  | @tee w₀ x₀ _ o hx₀ hp _ ho =>
    refine @Owned.setReq (s.setWriter w₀ { x₀ with phase := .unlinking }) x₀.owner o _ ?_ ho rfl
    exact hown.setWriter hx₀ (by simp [hp, WPhase.running]) rfl
  | clean => exact hown

/-- With no cancellation and no failing `write_input`, the lock keeps the `cache_pack`s apart:
at most one runs, and while it runs only its own request holds the entry's lock. -/
theorem cachePack_exclusive (n : Nat) (file : Option Bytes) (evs : List Event) :
    (∀ (w₁ w₂ : Nat) (x₁ x₂ : Writer), (run c (init n file) evs).writers[w₁]? = some x₁ →
      (run c (init n file) evs).writers[w₂]? = some x₂ → x₁.phase.running →
        x₂.phase.running → w₁ = w₂) ∧
    (∀ (w : Nat) (x : Writer) (j : Nat) (rj : Req), (run c (init n file) evs).writers[w]? = some x →
      x.phase.running → (run c (init n file) evs).reqs[j]? = some rj →
        (rj.phase.holdsShared ∨ rj.phase.holdsExclusive) → j = x.owner) := by
  have hown : Owned (run c (init n file) evs) :=
    run_induction (fun _ _ h hm => hm.owned hcancel hinput h) evs _ (owned_init n file)
  have hlock := lockOk_run c n file evs
  constructor
  · intro w₁ w₂ x₁ x₂ h₁ h₂ hr₁ hr₂
    obtain ⟨o₁, ho₁, hp₁⟩ := hown w₁ x₁ h₁ hr₁
    obtain ⟨o₂, ho₂, hp₂⟩ := hown w₂ x₂ h₂ hr₂
    -- both owners hold the exclusive lock, so they are one request, in one gather
    have := hlock _ _ o₁ o₂ ho₁ ho₂ (by simp [hp₁, Phase.holdsExclusive])
      (.inr (by simp [hp₂, Phase.holdsExclusive]))
    rw [this, ho₂, Option.some.injEq] at ho₁
    subst ho₁
    exact Phase.gather.inj (hp₁.symm.trans hp₂)
  · intro w x j rj hx hrun hj hheld
    obtain ⟨o, ho, hp⟩ := hown w x hx hrun
    exact (hlock _ _ o rj ho hj (by simp [hp, Phase.holdsExclusive]) hheld).symm

end NoEarlyExit

theorem cachePack_exclusive_one_writer :
    Config.allowed ⟨fun _ => false, 1024⟩ .cancel = false ∧
      Config.allowed ⟨fun _ => false, 1024⟩ .inputFails = false ∧
      (run ⟨fun _ => false, 1024⟩ (init 2 none) [.req 0 none, .req 0 none,
        .spawn 0 (ofString "0008NAK\n0000") 0 [], .writer 0 none, .req 1 none]).writers.map
          Writer.phase = [.writing] ∧
      (∀ (w₁ w₂ : Nat) (x₁ x₂ : Writer), (run ⟨fun _ => false, 1024⟩ (init 2 none) [.req 0 none,
          .req 0 none, .spawn 0 (ofString "0008NAK\n0000") 0 [], .writer 0 none,
          .req 1 none]).writers[w₁]? = some x₁ →
        (run ⟨fun _ => false, 1024⟩ (init 2 none) [.req 0 none, .req 0 none,
          .spawn 0 (ofString "0008NAK\n0000") 0 [], .writer 0 none,
          .req 1 none]).writers[w₂]? = some x₂ → x₁.phase.running → x₂.phase.running →
          w₁ = w₂) ∧
      (∀ (w : Nat) (x : Writer) (j : Nat) (rj : Req), (run ⟨fun _ => false, 1024⟩ (init 2 none)
          [.req 0 none, .req 0 none, .spawn 0 (ofString "0008NAK\n0000") 0 [], .writer 0 none,
            .req 1 none]).writers[w]? = some x → x.phase.running →
        (run ⟨fun _ => false, 1024⟩ (init 2 none) [.req 0 none, .req 0 none,
          .spawn 0 (ofString "0008NAK\n0000") 0 [], .writer 0 none, .req 1 none]).reqs[j]? =
            some rj → (rj.phase.holdsShared ∨ rj.phase.holdsExclusive) → j = x.owner) :=
  ⟨rfl, rfl, by decide, cachePack_exclusive rfl rfl 2 none _⟩

/-- A client that goes away while its `cache_pack` writes lets the next request in: two
`cache_pack`s write inode `0`, the entry, at once, and the second request holds the exclusive
lock while the first one's `cache_pack` writes. -/
theorem cachePack_writers_overlap :
    ∃ s, run ⟨fun f => f = .cancel, 1024 * 1024⟩ (init 2 none)
      [.req 0 none, .req 0 none, .spawn 0 (ofString "0008NAK\n0000") 0 [], .writer 0 none,
        .writer 0 none, .req 0 (some .cancel), .req 0 none, .req 1 none, .req 1 none,
        .spawn 1 (ofString "0008NAK\n0000") 0 [], .writer 1 none] = s ∧
      s.writers.map Writer.phase = [.writing, .writing] ∧ s.writers.map Writer.ino = [0, 0] ∧
      s.path = some 0 ∧ s.reqs.map Req.phase = [.raised, .gather 1] :=
  ⟨_, rfl, by decide⟩

end GitCdn.UploadPack
