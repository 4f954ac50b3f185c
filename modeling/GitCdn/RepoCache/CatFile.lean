import GitCdn.Bytes
import GitCdn.RepoCache.Freshness

/-! # `cat-file` and the missing-want check

`_missing_want(wants)` writes `b"\n".join(refs) + b"\n"` to `git cat-file --batch-check`
and answers whether `b"missing"` occurs in what it printed: for each line, the object's
name, type and size when the mirror holds it, the line and ` missing` otherwise. The mirror
names its objects in lowercase hex. The byte search answers the question of the freshness
model, is a wanted object absent from the mirror, for every non-empty list of wants. In a
directory git does not take for a repository, a state that model does not have, `cat-file`
prints nothing on stdout and the search finds no object missing.
-/

namespace GitCdn.RepoCache

open Bytes Freshness

/-- `b"\n".join(refs) + b"\n"`, what `cat_file` writes to the process's stdin. -/
def refsStr (refs : List Bytes) : Bytes := [0x0A].intercalate refs ++ [0x0A]

/-- The lines a program reads from its stdin: the pieces each ended by a line feed, and what
follows the last one. -/
def stdinLines : Bytes → List Bytes
  | [] => []
  | b :: s =>
    if b = 0x0A then [] :: stdinLines s
    else match stdinLines s with
      | [] => [[b]]
      | l :: ls => (b :: l) :: ls

theorem stdinLines_append_newline {l : Bytes} (hl : (0x0A : UInt8) ∉ l) (rest : Bytes) :
    stdinLines (l ++ 0x0A :: rest) = l :: stdinLines rest := by
  induction l with
  | nil => simp [stdinLines]
  | cons b l ih =>
    simp only [List.mem_cons, not_or] at hl
    simp [stdinLines, Ne.symm hl.1, ih hl.2]

/-- `cat-file` reads back the refs `cat_file` wrote, one line each, when there is one at least
and none holds a line feed. -/
theorem stdinLines_refsStr : ∀ {refs : List Bytes}, refs ≠ [] →
    (∀ r ∈ refs, (0x0A : UInt8) ∉ r) → stdinLines (refsStr refs) = refs
  | [r], _, hnl => by
    simp [refsStr, List.intercalate, stdinLines,
      stdinLines_append_newline (hnl r (List.mem_singleton_self r))]
  | r :: r' :: rs, _, hnl => by
    have ih := stdinLines_refsStr (List.cons_ne_nil r' rs)
      fun x hx => hnl x (List.mem_cons_of_mem _ hx)
    have hstr : refsStr (r :: r' :: rs) = r ++ 0x0A :: refsStr (r' :: rs) := by
      simp [refsStr, List.intercalate, List.intersperse]
    rw [hstr, stdinLines_append_newline (hnl r (List.mem_cons_self _ _)), ih]

/-- The object types `%(objecttype)` names. -/
inductive ObjType where
  | commit
  | tree
  | blob
  | tag
  deriving Repr, DecidableEq

def ObjType.name : ObjType → Bytes
  | .commit => ofString "commit"
  | .tree => ofString "tree"
  | .blob => ofString "blob"
  | .tag => ofString "tag"

/-- `%(objectsize)`, in decimal. -/
def decimal (n : Nat) : Bytes := (Nat.toDigits 10 n).map fun c => c.toNat.toUInt8

/-- A lowercase hex digit, as object names are printed. -/
def isHex (b : UInt8) : Bool := (0x30 ≤ b && b ≤ 0x39) || (0x61 ≤ b && b ≤ 0x66)

/-- What `git cat-file --batch-check` prints for one line of its input, line feed left out:
`%(objectname) %(objecttype) %(objectsize)` when the line names an object of the mirror
`objs`, whose names `name` gives, else the line and `missing`. -/
def batchCheckLine (objs : List Obj) (name : Obj → Bytes) (kind : Obj → ObjType)
    (size : Obj → Nat) (line : Bytes) : Bytes :=
  match objs.find? (name · = line) with
  | some o => name o ++ 0x20 :: ((kind o).name ++ 0x20 :: decimal (size o))
  | none => line ++ ofString " missing"

/-- `git cat-file --batch-check` on the mirror `objs` fed `input`: a line for each line it
reads. -/
def batchCheck (objs : List Obj) (name : Obj → Bytes) (kind : Obj → ObjType)
    (size : Obj → Nat) (input : Bytes) : Bytes :=
  (((stdinLines input).map (batchCheckLine objs name kind size)).map (· ++ [0x0A])).flatten

/-- The mirror's directory as `cat-file`, run in it, finds it. -/
inductive Dir where
  /-- No directory: the spawn raises `FileNotFoundError`, as it is the process's `cwd`. -/
  | absent
  /-- A directory git does not take for a repository: `cat-file` exits 128 and prints nothing
  on stdout. -/
  | notRepo
  /-- A repository holding the objects `objs`. -/
  | repo (objs : List Obj)

/-- `cat_file(refs)` in the directory `dir`: what the process printed on stdout, or `none` for
`FileNotFoundError`. Its exit status is not read. -/
def catFile (dir : Dir) (name : Obj → Bytes) (kind : Obj → ObjType) (size : Obj → Nat)
    (refs : List Bytes) : Option Bytes :=
  match dir with
  | .absent => none
  | .notRepo => some []
  | .repo objs => some (batchCheck objs name kind size (refsStr refs))

/-- `_missing_want(wants)`: `True` on `FileNotFoundError`, else whether `b"missing"` occurs in
what `cat_file` returned. -/
def missingWant (dir : Dir) (name : Obj → Bytes) (kind : Obj → ObjType) (size : Obj → Nat)
    (wants : List Bytes) : Bool :=
  match catFile dir name kind size wants with
  | none => true
  | some stdout => decide (ofString "missing" <:+: stdout)

/-- The directory of a state of the freshness model, which has no other directory than a
repository. -/
def Dir.ofMirror : Option Mirror → Dir
  | none => .absent
  | some m => .repo m.objs

theorem infix_append_cons_iff {m x y : Bytes} {b : UInt8} (hb : b ∉ m) :
    m <:+: x ++ b :: y ↔ m <:+: x ∨ m <:+: y := by
  constructor
  · rintro ⟨s, t, h⟩
    rw [List.append_assoc] at h
    rcases List.append_eq_append_iff.mp h with ⟨a, rfl, h'⟩ | ⟨c, rfl, h'⟩
    · rcases List.append_eq_append_iff.mp h' with ⟨c, rfl, -⟩ | ⟨c, rfl, hc⟩
      · exact .inl ⟨s, c, by simp⟩
      · cases c with
        | nil => exact .inl ⟨s, [], by simp⟩
        | cons d c =>
          obtain ⟨rfl, -⟩ := List.cons.inj hc
          simp at hb
    · cases c with
      | nil =>
        cases m with
        | nil => exact .inl List.nil_infix
        | cons d m =>
          obtain ⟨rfl, -⟩ := List.cons.inj h'
          simp at hb
      | cons d c =>
        obtain ⟨rfl, rfl⟩ := List.cons.inj h'
        exact .inr ⟨c, t, by simp⟩
  · rintro (h | h)
    · exact h.trans (List.prefix_append x _).isInfix
    · exact h.trans (List.IsSuffix.isInfix ⟨x ++ [b], by simp⟩)

theorem infix_lines_iff {m : Bytes} (hm : m ≠ []) (hnl : (0x0A : UInt8) ∉ m) :
    ∀ ls : List Bytes, m <:+: (ls.map (· ++ [0x0A])).flatten ↔ ∃ l ∈ ls, m <:+: l
  | [] => by simp [List.infix_nil, hm]
  | l :: ls => by
    rw [List.map_cons, List.flatten_cons, List.append_assoc, List.singleton_append,
      infix_append_cons_iff hnl, infix_lines_iff hm hnl ls]
    simp

theorem not_infix_of_mem {m s : Bytes} {b : UInt8} (hm : b ∈ m) (hs : ∀ c ∈ s, c ≠ b) :
    ¬ m <:+: s :=
  fun h => hs b (h.subset hm) rfl

theorem toDigitsCore_ne : ∀ (fuel n : Nat) (ds : List Char),
    (∀ c ∈ ds, c.toNat.toUInt8 ≠ 0x6D) →
      ∀ c ∈ Nat.toDigitsCore 10 fuel n ds, c.toNat.toUInt8 ≠ 0x6D
  | 0, _, _, h => h
  | fuel + 1, n, ds, h => by
    have hdigit : ∀ d, d < 10 → (Nat.digitChar d).toNat.toUInt8 ≠ 0x6D := by decide
    have h' : ∀ c ∈ Nat.digitChar (n % 10) :: ds, c.toNat.toUInt8 ≠ 0x6D := by
      simpa using ⟨hdigit (n % 10) (Nat.mod_lt n (by decide)), h⟩
    show ∀ c ∈ (if n / 10 = 0 then Nat.digitChar (n % 10) :: ds
      else Nat.toDigitsCore 10 fuel (n / 10) (Nat.digitChar (n % 10) :: ds)), _
    split
    · exact h'
    · exact toDigitsCore_ne fuel _ _ h'

theorem not_missing_infix_found {n : Bytes} (hn : ∀ b ∈ n, isHex b = true) (t : ObjType)
    (size : Nat) : ¬ ofString "missing" <:+: n ++ 0x20 :: (t.name ++ 0x20 :: decimal size) := by
  have hm : (0x6D : UInt8) ∈ ofString "missing" := by decide
  rw [infix_append_cons_iff (by decide), infix_append_cons_iff (by decide)]
  rintro (h | h | h)
  · exact not_infix_of_mem hm (fun c hc hcm => absurd (hcm ▸ hn c hc) (by decide)) h
  · cases t <;> revert h <;> decide
  · refine not_infix_of_mem hm (fun c hc => ?_) h
    obtain ⟨ch, hch, rfl⟩ := List.mem_map.mp hc
    exact toDigitsCore_ne _ _ [] (by simp) ch hch

theorem missing_infix_batchCheckLine_iff {objs : List Obj} {name : Obj → Bytes}
    (hinj : Function.Injective name) (hhex : ∀ o, ∀ b ∈ name o, isHex b = true)
    (kind : Obj → ObjType) (size : Obj → Nat) (w : Obj) :
    ofString "missing" <:+: batchCheckLine objs name kind size (name w) ↔ w ∉ objs := by
  unfold batchCheckLine
  split
  · next o hfind =>
    obtain rfl : o = w := hinj (by simpa using List.find?_some hfind)
    simp only [List.mem_of_find?_eq_some hfind, not_true_eq_false, iff_false]
    exact not_missing_infix_found (hhex o) _ _
  · next hfind =>
    have hw : w ∉ objs := fun hw => by simpa using List.find?_eq_none.mp hfind w hw
    simp only [hw, not_false_eq_true, iff_true]
    exact ⟨name w ++ [0x20], [], by rw [List.append_nil, List.append_assoc]; rfl⟩

/-- On a mirror that names its objects in hex, one name per object, the byte search of
`_missing_want` answers, for every non-empty list of wants, what the freshness model asks:
whether the mirror is absent or lacks a wanted object. In a directory that git does not take
for a repository it answers that nothing is missing, whatever the wants. -/
theorem missingWant_refines (s : State) {name : Obj → Bytes} (hinj : Function.Injective name)
    (hhex : ∀ o, ∀ b ∈ name o, isHex b = true) (kind : Obj → ObjType) (size : Obj → Nat)
    {wants : List Obj} (hne : wants ≠ []) :
    missingWant (.ofMirror s.dir) name kind size (wants.map name) =
      Freshness.missingWant s wants ∧
    missingWant .notRepo name kind size (wants.map name) = false := by
  refine ⟨?_, by simp only [missingWant, catFile, List.infix_nil]; decide⟩
  cases hd : s.dir with
  | none => simp [missingWant, catFile, Dir.ofMirror, Freshness.missingWant, hd]
  | some m =>
    have hnl : ∀ r ∈ wants.map name, (0x0A : UInt8) ∉ r := by
      simp only [List.mem_map]
      rintro _ ⟨o, -, rfl⟩ hr
      exact absurd (hhex o _ hr) (by decide)
    have hne' : wants.map name ≠ [] := by simpa using hne
    have hm : ofString "missing" ≠ [] := by decide
    have hmnl : (0x0A : UInt8) ∉ ofString "missing" := by decide
    simp only [missingWant, catFile, Dir.ofMirror, Freshness.missingWant, hd, batchCheck,
      stdinLines_refsStr hne' hnl, infix_lines_iff hm hmnl]
    simp only [List.map_map, List.mem_map, Function.comp_def, exists_exists_and_eq_and,
      missing_infix_batchCheckLine_iff hinj hhex kind size]
    rw [Bool.eq_iff_iff]
    simp [List.all_eq_true]

theorem missingWant_refines_one_want :
    Function.Injective (fun o : Obj => List.replicate (o + 1) (0x30 : UInt8)) ∧
      (∀ o, ∀ b ∈ List.replicate (o + 1) (0x30 : UInt8), isHex b = true) ∧ [2] ≠ [] ∧
      missingWant (.ofMirror (some ⟨[1], 0⟩)) (fun o => List.replicate (o + 1) 0x30)
          (fun _ => .commit) (fun _ => 0) ([2].map fun o => List.replicate (o + 1) 0x30) =
        Freshness.missingWant ⟨[], none, some ⟨[1], 0⟩, none, []⟩ [2] ∧
      missingWant .notRepo (fun o => List.replicate (o + 1) 0x30) (fun _ => .commit)
          (fun _ => 0) ([2].map fun o => List.replicate (o + 1) 0x30) = false := by
  have hinj : Function.Injective (fun o : Obj => List.replicate (o + 1) (0x30 : UInt8)) :=
    fun a b h => by simpa using congrArg List.length h
  have hhex : ∀ o, ∀ b ∈ List.replicate (o + 1) (0x30 : UInt8), isHex b = true := by
    intro o b hb
    rw [List.eq_of_mem_replicate hb]
    rfl
  exact ⟨hinj, hhex, by decide,
    missingWant_refines ⟨[], none, some ⟨[1], 0⟩, none, []⟩ hinj hhex _ _ (by decide)⟩

end GitCdn.RepoCache
