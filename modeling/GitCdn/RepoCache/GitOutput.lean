import GitCdn.Binary64
import GitCdn.Bytes
import Mathlib

/-! # Transfer accounting

`parse_git_output` reads the `Receiving objects: ... done.` lines of a git run's stderr and
observes the bytes received on a summary. The regular expression is matched as a prefix
parser: each `[...]+` of it is followed by a byte outside its class, so its one match is
the longest run. Python's floats are the doubles of `Float64`: `float()`, each product and each
sum round to the nearest double.
-/

namespace GitCdn.RepoCache

open Bytes

-- doubles are scaled by `2^1074`: such powers are small enough to evaluate
set_option exponentiation.threshold 2200

/-- The exceptions `parse_git_output` can raise. -/
inductive ParseError where
  /-- `stderr.decode()` on bytes that are not UTF-8. -/
  | unicodeDecode
  /-- `float(receive_amount)` on a run of digits and dots that is not a number. -/
  | value
  deriving Repr, DecidableEq

/-- `re.split("\n|\r", text)`: the pieces between line feeds and carriage returns. -/
def splitLines : Bytes → List Bytes
  | [] => [[]]
  | b :: s =>
    if b = 0x0A ∨ b = 0x0D then [] :: splitLines s
    else match splitLines s with
      | [] => [[b]]
      | l :: ls => (b :: l) :: ls

/-- `[class]+` at the start of `s`: the longest run, which may not be empty. -/
def plus (cls : UInt8 → Bool) (s : Bytes) : Option (Bytes × Bytes) :=
  let run := s.takeWhile cls
  if run = [] then none else some (run, s.drop run.length)

def isDigit (b : UInt8) : Bool := 0x30 ≤ b && b ≤ 0x39

/-- `[0-9\.]`. -/
def isDigitOrDot (b : UInt8) : Bool := isDigit b || b = 0x2E

/-- One piece of `receive_done_regex`. -/
inductive Piece where
  /-- A literal text. -/
  | lit (text : String)
  /-- `[0-9]+`. -/
  | digits
  /-- `[0-9\.]+`. -/
  | number
  /-- `[KMG]iB`. -/
  | unit
  /-- `.`: any one character but a line feed, and a line holds none. -/
  | any

/-- Match one piece at the start of `s`: the text it matched, and what follows. -/
def Piece.matchAt : Piece → Bytes → Option (Bytes × Bytes)
  | .lit t, s => if ofString t <+: s then some (ofString t, s.drop (ofString t).length) else none
  | .digits, s => plus isDigit s
  | .number, s => plus isDigitOrDot s
  | .unit, u :: i :: b :: rest =>
    if (u = 0x4B ∨ u = 0x4D ∨ u = 0x47) ∧ i = 0x69 ∧ b = 0x42 then some ([u, i, b], rest)
    else none
  | .unit, _ => none
  | .any, b :: rest => some ([b], rest)
  | .any, [] => none

/-- Match the pieces in turn from the start of `s`: the text each one matched. -/
def matchPieces : List Piece → Bytes → Option (List Bytes)
  | [], _ => some []
  | p :: ps, s => do
    let (m, rest) ← p.matchAt s
    let ms ← matchPieces ps rest
    pure (m :: ms)

/-- `receive_done_regex`; its groups are the eighth and tenth pieces. -/
def receiveDoneRegex : List Piece :=
  [.lit "Receiving objects: ", .digits, .lit "% (", .digits, .lit "/", .digits, .lit "), ",
    .number, .lit " ", .unit, .lit " | ", .number, .lit " ", .unit, .lit "/s, done", .any]

/-- `receive_done_regex.match(line)`, with its groups: the amount and the unit. -/
def receiveDone (line : Bytes) : Option (Bytes × Bytes) := do
  let ms ← matchPieces receiveDoneRegex line
  let amount ← ms[7]?
  let unit ← ms[9]?
  pure (amount, unit)

/-- The value of a run of decimal digits. -/
def digitsValue (ds : Bytes) : Nat := ds.foldl (fun n d => 10 * n + (d.toNat - 0x30)) 0

/-- The double nearest the decimal `i.f`. -/
def nearestDouble (i f : Bytes) : Float64 :=
  .round ((digitsValue i * 10 ^ f.length + digitsValue f) * 2 ^ 1074) (10 ^ f.length)

/-- `float(s)` for a run of digits and dots: a number has at most one dot and a digit. -/
def pyFloat (s : Bytes) : Except ParseError Float64 :=
  match s.splitOn 0x2E with
  | [i] => if i = [] then .error .value else .ok (nearestDouble i [])
  | [i, f] => if i = [] ∧ f = [] then .error .value else .ok (nearestDouble i f)
  | _ => .error .value

/-- `si_units`. -/
def siUnits : List (String × Nat) :=
  [("TiB", 2 ^ 40), ("GiB", 2 ^ 30), ("MiB", 2 ^ 20), ("KiB", 2 ^ 10)]

/-- The loop over `si_units` for one matching line: on the unit that is `receive_units`,
`receive_bytes += float(receive_amount) * conversion`. -/
def addLine (receiveAmount receiveUnits : Bytes) (receiveBytes : Float64) :
    Except ParseError Float64 :=
  siUnits.foldlM (fun acc u =>
    if receiveUnits = ofString u.1 then (fun a => acc.add (a.mulNat u.2)) <$> pyFloat receiveAmount
    else pure acc) receiveBytes

/-- `receive_bytes` after the loop over the matching lines, from `0`, the first line first. -/
def receivedBytes (ls : List (Bytes × Bytes)) : Except ParseError Float64 :=
  ls.foldlM (fun acc l => addLine l.1 l.2 acc) (.ofNat 0)

/-- The groups of `receive_done_regex` on each line of `receive_done_lines`: `search` finds
the match that `match` found at the start of the line. -/
def receiveDoneLines (stderr : Bytes) : List (Bytes × Bytes) :=
  (splitLines stderr).filterMap receiveDone

/-- `parse_git_output(stderr)`: the value observed on `repo_cache_received_bytes`, if any. -/
def parseGitOutput (stderr : Bytes) : Except ParseError (Option Float64) :=
  if !utf8Valid stderr then .error .unicodeDecode else
  match receiveDoneLines stderr with
  | [] => .ok none
  | ls => some <$> receivedBytes ls

theorem utf8Valid_of_parseGitOutput {stderr : Bytes} {v : Option Float64}
    (h : parseGitOutput stderr = .ok v) : utf8Valid stderr := by
  cases hv : utf8Valid stderr
  · simp [parseGitOutput, hv] at h
  · rfl

/-- A unit `[KMG]iB` matches. -/
def IsReceiveUnit (unit : Bytes) : Prop :=
  unit = ofString "KiB" ∨ unit = ofString "MiB" ∨ unit = ofString "GiB"

instance : DecidablePred IsReceiveUnit := fun _ => inferInstanceAs (Decidable (_ ∨ _ ∨ _))

/-- The unit factor the spec gives a `[KMG]iB` unit: `2^10`, `2^20` or `2^30` by its
letter. -/
def unitFactor (unit : Bytes) : Nat :=
  if unit = ofString "KiB" then 2 ^ 10
  else if unit = ofString "MiB" then 2 ^ 20
  else if unit = ofString "GiB" then 2 ^ 30
  else 0

/-- The total the loop adds up when `float()` reads each amount `a` as `amount a`: from `0`,
the first line first, each product and each sum rounded to a double. -/
def floatTotal (amount : Bytes → Float64) (ls : List (Bytes × Bytes)) : Float64 :=
  ls.foldl (fun acc l => acc.add ((amount l.1).mulNat (unitFactor l.2))) (.ofNat 0)

/-- The exact total of amounts that are the whole numbers `amount a`. -/
def exactTotal (amount : Bytes → Nat) (ls : List (Bytes × Bytes)) : Nat :=
  (ls.map fun l => amount l.1 * unitFactor l.2).sum

/-- The whole number an amount is when no digit after its dot is other than zero, as
`512.00`. -/
def wholeAmount (s : Bytes) : Option Nat :=
  match s.splitOn 0x2E with
  | [i] => if i = [] then none else some (digitsValue i)
  | [i, f] => if (i = [] ∧ f = []) ∨ digitsValue f ≠ 0 then none else some (digitsValue i)
  | _ => none

theorem matchPieces_cons_eq_some {p : Piece} {ps : List Piece} {s : Bytes} {ms : List Bytes}
    (h : matchPieces (p :: ps) s = some ms) :
    ∃ m rest ms', p.matchAt s = some (m, rest) ∧ matchPieces ps rest = some ms' ∧
      ms = m :: ms' := by
  simp only [matchPieces, Option.bind_eq_bind, Option.bind_eq_some, Option.pure_def,
    Option.some.injEq] at h
  obtain ⟨⟨m, rest⟩, hm, ms', hms', rfl⟩ := h
  exact ⟨m, rest, ms', hm, hms', rfl⟩

theorem matchPieces_getElem? : ∀ {ps : List Piece} {s : Bytes} {ms : List Bytes} {i : Nat}
    {m : Bytes}, matchPieces ps s = some ms → ms[i]? = some m →
      ∃ p t r, ps[i]? = some p ∧ p.matchAt t = some (m, r)
  | [], _, _, _, _, h, hm => by simp only [matchPieces, Option.some.injEq] at h; simp [← h] at hm
  | p :: ps, s, ms, i, m, h, hm => by
    obtain ⟨m₀, rest, ms', h₀, h', rfl⟩ := matchPieces_cons_eq_some h
    cases i with
    | zero =>
      simp only [List.getElem?_cons_zero, Option.some.injEq] at hm
      exact ⟨p, s, rest, by simp, hm ▸ h₀⟩
    | succ i =>
      simp only [List.getElem?_cons_succ] at hm
      simpa using matchPieces_getElem? h' hm

theorem matchAt_unit {t m r : Bytes} (h : Piece.unit.matchAt t = some (m, r)) :
    IsReceiveUnit m := by
  match t, h with
  | u :: i :: b :: rest, h =>
    simp only [Piece.matchAt] at h
    split_ifs at h with hu
    cases h
    obtain ⟨hu | hu | hu, rfl, rfl⟩ := hu <;> subst hu <;> decide

theorem unit_of_mem_receiveDoneLines {stderr amount unit : Bytes}
    (h : (amount, unit) ∈ receiveDoneLines stderr) : IsReceiveUnit unit := by
  obtain ⟨line, -, hl⟩ := List.mem_filterMap.mp h
  simp only [receiveDone, Option.bind_eq_bind, Option.bind_eq_some, Option.pure_def,
    Option.some.injEq, Prod.mk.injEq] at hl
  obtain ⟨ms, hms, -, -, u, hu, -, rfl⟩ := hl
  obtain ⟨p, t, r, hp, hm⟩ := matchPieces_getElem? hms hu
  cases hp
  exact matchAt_unit hm

theorem addLine_eq {amount unit : Bytes} (hu : IsReceiveUnit unit) (acc : Float64) :
    addLine amount unit acc =
      (fun a => acc.add (a.mulNat (unitFactor unit))) <$> pyFloat amount := by
  unfold addLine
  generalize pyFloat amount = x
  rcases hu with rfl | rfl | rfl <;> cases x <;> rfl

theorem foldlM_addLine_eq {amount : Bytes → Float64} : ∀ {ls : List (Bytes × Bytes)}
    (acc : Float64), (∀ l ∈ ls, IsReceiveUnit l.2 ∧ pyFloat l.1 = .ok (amount l.1)) →
      ls.foldlM (fun acc l => addLine l.1 l.2 acc) acc =
        .ok (ls.foldl (fun acc l => acc.add ((amount l.1).mulNat (unitFactor l.2))) acc)
  | [], _, _ => rfl
  | l :: ls, acc, h => by
    obtain ⟨hu, ha⟩ := h l (List.mem_cons_self _ _)
    rw [List.foldlM_cons, addLine_eq hu, ha]
    exact foldlM_addLine_eq _ fun l' hl => h l' (List.mem_cons_of_mem _ hl)

/-- On a UTF-8 stderr whose matching lines all carry an amount that `float()` reads,
`parse_git_output` returns: it observes the rounded total of each amount times its unit's
factor, or nothing when no line matches. -/
theorem parseGitOutput_eq_ok {stderr : Bytes} {amount : Bytes → Float64}
    (hutf : utf8Valid stderr = true)
    (hnum : ∀ l ∈ receiveDoneLines stderr, pyFloat l.1 = .ok (amount l.1)) :
    parseGitOutput stderr = .ok (if receiveDoneLines stderr = [] then none
      else some (floatTotal amount (receiveDoneLines stderr))) := by
  rw [parseGitOutput, if_neg (by simp [hutf])]
  split
  · next hnil => simp [hnil]
  · next hne =>
    rw [receivedBytes, foldlM_addLine_eq _ fun l hl =>
      ⟨unit_of_mem_receiveDoneLines hl, hnum l hl⟩, if_neg hne]
    rfl

theorem nearestDouble_of_whole {i f : Bytes} (hf : digitsValue f = 0)
    (hi : digitsValue i ≤ 2 ^ 53) : nearestDouble i f = .ofNat (digitsValue i) := by
  rw [nearestDouble, hf, Nat.add_zero, Nat.mul_right_comm]
  exact Float64.round_ofNat hi (Nat.pos_pow_of_pos _ (by decide))

theorem pyFloat_of_wholeAmount {s : Bytes} {n : Nat} (h : wholeAmount s = some n)
    (hn : n ≤ 2 ^ 53) : pyFloat s = .ok (.ofNat n) := by
  unfold wholeAmount at h
  unfold pyFloat
  split at h
  · split_ifs at h ⊢
    cases h
    exact congrArg _ (nearestDouble_of_whole rfl hn)
  · split_ifs at h with hbad
    cases h
    rw [if_neg (not_or.mp hbad).1]
    exact congrArg _ (nearestDouble_of_whole (not_not.mp (not_or.mp hbad).2) hn)
  · cases h

theorem foldl_ofNat (amount : Bytes → Nat) : ∀ (ls : List (Bytes × Bytes)) (s : Nat),
    s + exactTotal amount ls ≤ 2 ^ 53 →
      ls.foldl (fun (acc : Float64) l => acc.add ((Float64.ofNat (amount l.1)).mulNat
        (unitFactor l.2))) (.ofNat s) = .ofNat (s + exactTotal amount ls)
  | [], s, _ => rfl
  | l :: ls, s, h => by
    have hcons : exactTotal amount (l :: ls) =
        amount l.1 * unitFactor l.2 + exactTotal amount ls := List.sum_cons
    rw [hcons] at h ⊢
    rw [List.foldl_cons, Float64.mulNat_ofNat (by omega), Float64.add_ofNat (by omega),
      foldl_ofNat amount ls _ (by omega), Nat.add_assoc]

theorem one_le_unitFactor {unit : Bytes} (hu : IsReceiveUnit unit) : 1 ≤ unitFactor unit := by
  rcases hu with rfl | rfl | rfl <;> decide

/-- When every matching line carries a whole amount and their exact total is at most `2^53`,
`parse_git_output` observes that total, with no rounding. -/
theorem parseGitOutput_of_whole {stderr : Bytes} {whole : Bytes → Nat}
    (hutf : utf8Valid stderr = true)
    (hwhole : ∀ l ∈ receiveDoneLines stderr, wholeAmount l.1 = some (whole l.1))
    (hle : exactTotal whole (receiveDoneLines stderr) ≤ 2 ^ 53) :
    parseGitOutput stderr = .ok (if receiveDoneLines stderr = [] then none
      else some (.ofNat (exactTotal whole (receiveDoneLines stderr)))) := by
  have hnum : ∀ l ∈ receiveDoneLines stderr, pyFloat l.1 = .ok (.ofNat (whole l.1)) := by
    intro l hl
    refine pyFloat_of_wholeAmount (hwhole l hl) (Nat.le_trans ?_ hle)
    calc whole l.1 ≤ whole l.1 * unitFactor l.2 :=
          Nat.le_mul_of_pos_right _ (one_le_unitFactor (unit_of_mem_receiveDoneLines hl))
      _ ≤ exactTotal whole (receiveDoneLines stderr) :=
          List.le_sum_of_mem (List.mem_map_of_mem (fun l => whole l.1 * unitFactor l.2) hl)
  rw [@parseGitOutput_eq_ok _ (fun a => .ofNat (whole a)) hutf hnum, floatTotal,
    foldl_ofNat whole _ 0 (by omega), Nat.zero_add]

theorem pyFloat_eq_error {s : Bytes} {e : ParseError} (h : pyFloat s = .error e) :
    e = .value := by
  unfold pyFloat at h
  split at h <;> (try split_ifs at h) <;> cases h <;> rfl

theorem foldlM_addLine_eq_error_iff {e : ParseError} : ∀ {ls : List (Bytes × Bytes)}
    (acc : Float64), (∀ l ∈ ls, IsReceiveUnit l.2) →
      (ls.foldlM (fun acc l => addLine l.1 l.2 acc) acc = .error e ↔
        e = .value ∧ ∃ l ∈ ls, pyFloat l.1 = .error .value)
  | [], _, _ => by simp [pure, Except.pure]
  | l :: ls, acc, hu => by
    rw [List.foldlM_cons, addLine_eq (hu l (List.mem_cons_self _ _))]
    cases ha : pyFloat l.1 with
    | error e' =>
      obtain rfl := pyFloat_eq_error ha
      simp only [Functor.map, Except.map, bind, Except.bind, Except.error.injEq]
      exact ⟨fun h => ⟨h.symm, l, List.mem_cons_self _ _, ha⟩, fun h => h.1.symm⟩
    | ok a =>
      simp only [List.mem_cons, exists_eq_or_imp, ha, reduceCtorEq, false_or]
      exact foldlM_addLine_eq_error_iff _ fun l' hl => hu l' (List.mem_cons_of_mem _ hl)

theorem receivedBytes_eq_error_iff {e : ParseError} {ls : List (Bytes × Bytes)}
    (hu : ∀ l ∈ ls, IsReceiveUnit l.2) :
    receivedBytes ls = .error e ↔ e = .value ∧ ∃ l ∈ ls, pyFloat l.1 = .error .value :=
  foldlM_addLine_eq_error_iff _ hu

/-- `parse_git_output` raises `UnicodeDecodeError` on a stderr that is not UTF-8, and
`ValueError` on a UTF-8 one with a matching line whose amount `float()` refuses, such as
`.`; on every other stderr it returns. -/
theorem parseGitOutput_eq_error_iff {stderr : Bytes} {e : ParseError} :
    parseGitOutput stderr = .error e ↔ (utf8Valid stderr = false ∧ e = .unicodeDecode) ∨
      (utf8Valid stderr = true ∧ e = .value ∧
        ∃ l ∈ receiveDoneLines stderr, pyFloat l.1 = .error .value) := by
  cases hutf : utf8Valid stderr
  · simp [parseGitOutput, hutf, eq_comm]
  · simp only [parseGitOutput, hutf, Bool.not_true, Bool.false_eq_true, if_false, false_and,
      true_and, false_or]
    split
    · next hnil => simp [hnil]
    · rw [← receivedBytes_eq_error_iff fun l hl => unit_of_mem_receiveDoneLines hl]
      cases receivedBytes (receiveDoneLines stderr) <;> simp [Functor.map, Except.map]

end GitCdn.RepoCache
