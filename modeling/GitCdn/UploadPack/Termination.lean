import GitCdn.UploadPack.Protocol
import Mathlib

/-! # Runs of the cached upload-pack end

Every move but the cleaner's lowers a measure, ordered lexicographically: the request moves
left to the requests, then the moves left to the `cache_pack` writers, then the bytes the
`send_pack` loops have still to read. Whatever the environment does, a run in which the
cleaner does not run makes finitely many moves.
-/

namespace GitCdn.UploadPack

open PackCache

/-- The most request moves from a phase to the end of `run`, the chunks of `send_pack` not
counted. -/
def Phase.rank : Phase → Nat
  | .start => 7
  | .waitWrite => 6
  | .execute => 5
  | .gather _ => 4
  | .reap _ _ => 3
  | .waitServe => 2
  | .send _ _ => 1
  | .returned | .raised => 0

/-- The most moves a `cache_pack` has left. -/
def Writer.todo (x : Writer) : Nat :=
  match x.phase with
  | .opening => x.parsed.chunks.length + 4
  | .writing => x.parsed.chunks.length - x.written + 3
  | .erroring => 2
  | .unlinking => 1
  | .finished _ => 0

/-- The bytes a request in `send_pack` has still to read of its inode. -/
def State.unsent (s : State) (r : Req) : Nat :=
  match r.phase with
  | .send ino off => ((s.inodes[ino]?).getD []).length - off
  | _ => 0

def State.rankSum (s : State) : Nat := (s.reqs.map fun r => r.phase.rank).sum

def State.todoSum (s : State) : Nat := (s.writers.map Writer.todo).sum

def State.unsentSum (s : State) : Nat := (s.reqs.map s.unsent).sum

/-- The measure every move but the cleaner's lowers. -/
def State.measure (s : State) : Nat × Nat × Nat := (s.rankSum, s.todoSum, s.unsentSum)

/-- The order of measures: fewer request moves, then fewer writer moves, then fewer bytes. -/
def Progress : Nat × Nat × Nat → Nat × Nat × Nat → Prop :=
  Prod.Lex (· < ·) (Prod.Lex (· < ·) (· < ·))

theorem progress_wf : WellFounded Progress :=
  (Prod.lex Nat.lt_wfRel (Prod.lex Nat.lt_wfRel Nat.lt_wfRel)).wf

theorem sum_map_set {α : Type} (f : α → Nat) : ∀ (l : List α) {i : Nat} {a : α} (b : α),
    l[i]? = some a → ((l.set i b).map f).sum + f a = (l.map f).sum + f b
  | [], _, _, _, h => by simp at h
  | x :: l, 0, a, b, h => by
    simp only [List.getElem?_cons_zero, Option.some.injEq] at h
    subst h
    simp only [List.set_cons_zero, List.map_cons, List.sum_cons]
    omega
  | x :: l, i + 1, a, b, h => by
    simp only [List.getElem?_cons_succ] at h
    simp only [List.set_cons_succ, List.map_cons, List.sum_cons]
    have := sum_map_set f l b h
    omega

namespace State

variable {s : State} {i w : Nat} {r r' : Req} {x x' : Writer}

theorem rankSum_setReq (hr : s.reqs[i]? = some r) (r' : Req) :
    (s.setReq i r').rankSum + r.phase.rank = s.rankSum + r'.phase.rank :=
  sum_map_set _ _ _ hr

theorem unsentSum_setReq (hr : s.reqs[i]? = some r) (r' : Req) :
    (s.setReq i r').unsentSum + s.unsent r = s.unsentSum + s.unsent r' :=
  sum_map_set _ _ _ hr

theorem todoSum_setWriter (hx : s.writers[w]? = some x) (x' : Writer) :
    (s.setWriter w x').todoSum + x.todo = s.todoSum + x'.todo :=
  sum_map_set _ _ _ hx

end State

theorem progress_of_rankSum {s s' : State} (h : s'.rankSum < s.rankSum) :
    Progress s'.measure s.measure :=
  Prod.Lex.left _ _ h

theorem progress_of_todoSum {s s' : State} (hr : s'.rankSum = s.rankSum)
    (h : s'.todoSum < s.todoSum) : Progress s'.measure s.measure := by
  rw [State.measure, State.measure, hr]
  exact Prod.Lex.right _ (Prod.Lex.left _ _ h)

theorem progress_of_writer {s s' : State} {w : Nat} {x x' : Writer}
    (hx : s.writers[w]? = some x) (hr : s'.rankSum = s.rankSum)
    (hw : s'.writers = s.writers.set w x') (hlt : x'.todo < x.todo) :
    Progress s'.measure s.measure := by
  have hsum := State.todoSum_setWriter hx x'
  have hs' : s'.todoSum = (s.setWriter w x').todoSum := by rw [State.todoSum, hw]; rfl
  exact progress_of_todoSum hr (by omega)

theorem ReqMove.rank_lt {c : Config} {s : State} {r r' : Req} (h : ReqMove c s r r') :
    r'.phase.rank < r.phase.rank ∨ r'.phase.rank = r.phase.rank ∧ s.unsent r' < s.unsent r := by
  cases h with
  | @sendChunk ino off hp hne =>
    refine .inr ⟨by simp [Phase.rank, hp], ?_⟩
    have hpos := List.length_pos.mpr hne
    have hoff : off < ((s.inodes[ino]?).getD []).length := by
      by_contra hle
      exact hne (by simp [State.chunkAt, List.drop_eq_nil_of_le (Nat.le_of_not_lt hle)])
    simp only [State.unsent, hp]
    omega
  | checkRaises hp _ =>
    exact .inl (by rcases hp with ⟨hp, -⟩ | ⟨hp, -⟩ | ⟨hp, -⟩ <;> simp [Phase.rank, hp])
  | cancel hp _ =>
    exact .inl (by rcases hp with hp | hp | hp | hp | ⟨w, f, hp⟩ <;> simp [Phase.rank, hp])
  | _ => exact .inl (by (try split) <;> simp_all [Phase.rank])

/-- Every move but the cleaner's lowers the measure. -/
theorem Move.progress {c : Config} {s s' : State} (h : Move c s s')
    (hclean : c.allowed .clean = false) : Progress s'.measure s.measure := by
  cases h with
  | @req i r r' hr hm =>
    have hrank := State.rankSum_setReq hr r'
    rcases hm.rank_lt with hlt | ⟨heq, hlt⟩
    · exact progress_of_rankSum (by omega)
    · have hunsent := State.unsentSum_setReq hr r'
      rw [State.measure, State.measure, show (s.setReq i r').rankSum = s.rankSum by omega]
      exact Prod.Lex.right _ (Prod.Lex.right _ (by
        simp only [State.unsentSum, State.unsent] at hunsent hlt ⊢
        omega))
  | @spawn i r _ _ _ hr hp =>
    have := State.rankSum_setReq hr { r with phase := .gather s.writers.length }
    exact progress_of_rankSum (by simp only [hp, Phase.rank] at this; exact (by
      show (s.setReq i _).rankSum < _; omega))
  | @«open» w x hx hp => exact progress_of_writer hx rfl rfl (by simp [Writer.todo, hp]; omega)
  | @write w x _ hx hp hframe =>
    have := (List.getElem?_eq_some_iff.mp hframe).1
    exact progress_of_writer hx rfl rfl (by simp [Writer.todo, hp]; omega)
  | @parsed w x hx hp =>
    exact progress_of_writer hx rfl rfl (by split <;> simp [Writer.todo, hp, *])
  | @tee w x content o hx hp _ ho =>
    have hrank := @State.rankSum_setReq (s.setWriter w { x with phase := .unlinking }) x.owner o
      ho { o with out := o.out ++ content }
    exact progress_of_writer hx (Nat.add_right_cancel hrank) rfl (by simp [Writer.todo, hp])
  | teeMissing hx hp | unlink hx hp =>
    exact progress_of_writer hx rfl rfl (by simp [Writer.todo, hp])
  | writeFails hx hp => exact progress_of_writer hx rfl rfl (by simp [Writer.todo, hp])
  | @writerRaises w x hx hp =>
    exact progress_of_writer hx rfl rfl (by
      simp only [Writer.todo]
      split <;> simp_all [WPhase.running])
  | clean hf => simp [hclean] at hf

/-- With the cleaner off, no run makes infinitely many moves, whatever the requests, their
writers and the faults of the environment. -/
theorem move_terminates {c : Config} (hclean : c.allowed .clean = false) :
    WellFounded fun s' s => Move c s s' :=
  Subrelation.wf (fun h => h.progress hclean) (InvImage.wf State.measure progress_wf)

theorem move_terminates_calm :
    Config.allowed ⟨fun f => f ≠ .clean, 1024⟩ .clean = false ∧
      WellFounded fun s' s => Move ⟨fun f => f ≠ .clean, 1024⟩ s s' :=
  ⟨by decide, move_terminates (by decide)⟩

end GitCdn.UploadPack
