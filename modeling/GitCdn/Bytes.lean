import Mathlib.Data.List.Infix

/-! # Byte strings

The Python `bytes` values the cache handles: literals such as `b"0000"`, `in`,
`bytes.replace`, strict UTF-8 decoding (`bytes.decode()`) and decoding with replacement
(`decode(errors="replace")`). A byte string is a list of bytes, so `old in s` is
`old <:+: s`. A credential that overlaps neither its redaction nor U+FFFD survives neither.
-/

namespace GitCdn

/-- A Python `bytes` value. -/
abbrev Bytes := List UInt8

namespace Bytes

/-- The bytes of an ASCII literal such as `b"0000"`. -/
def ofString (s : String) : Bytes := s.toList.map fun c => c.toNat.toUInt8

/-- `s.replace(old, new)` for `old = o :: os`, scanning from the left: each occurrence of
`old`, leftmost first and without overlap, becomes `new`; `skip` bytes of the occurrence
just replaced are still to be passed over. -/
def replaceFrom (o : UInt8) (os new : Bytes) : Nat → Bytes → Bytes
  | _, [] => []
  | skip + 1, _ :: s => replaceFrom o os new skip s
  | 0, b :: s =>
    if o :: os <+: b :: s then new ++ replaceFrom o os new os.length s
    else b :: replaceFrom o os new 0 s

/-- `s.replace(old, new)`. An empty `old` puts `new` before every byte and at the end. -/
def replace (s old new : Bytes) : Bytes :=
  match old with
  | [] => new ++ s.flatMap (· :: new)
  | o :: os => replaceFrom o os new 0 s

section ReplaceFrom

variable {o : UInt8} {os new : Bytes}

theorem replaceFrom_skip : ∀ (k : Nat) (s : Bytes),
    replaceFrom o os new k s = replaceFrom o os new 0 (s.drop k)
  | _, [] => by simp [replaceFrom]
  | 0, _ :: _ => rfl
  | k + 1, _ :: s => by rw [replaceFrom, replaceFrom_skip k s]; rfl

theorem replaceFrom_cons (b : UInt8) (s : Bytes) :
    replaceFrom o os new 0 (b :: s) =
      if o :: os <+: b :: s then new ++ replaceFrom o os new 0 (s.drop os.length)
      else b :: replaceFrom o os new 0 s := by
  rw [replaceFrom, replaceFrom_skip]

theorem replaceFrom_induct (old : Bytes) {motive : Bytes → Prop} (nil : motive [])
    (hit : ∀ b s, old <+: b :: s → motive (s.drop (old.length - 1)) → motive (b :: s))
    (miss : ∀ b s, ¬ old <+: b :: s → motive s → motive (b :: s)) (s : Bytes) : motive s := by
  generalize h : s.length = n
  induction n using Nat.strong_induction_on generalizing s with
  | _ n ih =>
    match s with
    | [] => exact nil
    | b :: s =>
      by_cases hpre : old <+: b :: s
      · exact hit b s hpre (ih _ (by simp at h ⊢; omega) _ rfl)
      · exact miss b s hpre (ih _ (by simp at h ⊢; omega) _ rfl)

end ReplaceFrom

/-- Strict UTF-8 decoding (`bytes.decode()`) succeeds: the well-formed byte sequences of
the Unicode standard, so no overlong form, surrogate or code point past `U+10FFFF`. -/
def utf8Valid : Bytes → Bool
  | [] => true
  | b :: rest =>
    if b ≤ 0x7F then utf8Valid rest else
    match rest with
    | c :: rest₁ =>
      if 0xC2 ≤ b && b ≤ 0xDF then 0x80 ≤ c && c ≤ 0xBF && utf8Valid rest₁ else
      match rest₁ with
      | d :: rest₂ =>
        if 0xE0 ≤ b && b ≤ 0xEF then
          (if b = 0xE0 then 0xA0 ≤ c && c ≤ 0xBF
            else if b = 0xED then 0x80 ≤ c && c ≤ 0x9F else 0x80 ≤ c && c ≤ 0xBF) &&
          0x80 ≤ d && d ≤ 0xBF && utf8Valid rest₂ else
        match rest₂ with
        | e :: rest₃ =>
          0xF0 ≤ b && b ≤ 0xF4 &&
          (if b = 0xF0 then 0x90 ≤ c && c ≤ 0xBF
            else if b = 0xF4 then 0x80 ≤ c && c ≤ 0x8F else 0x80 ≤ c && c ≤ 0xBF) &&
          0x80 ≤ d && d ≤ 0xBF && 0x80 ≤ e && e ≤ 0xBF && utf8Valid rest₃
        | [] => false
      | [] => false
    | [] => false

theorem prefix_append_cases {w u t : Bytes} (h : w <+: u ++ t) :
    w <+: u ∨ ∃ w', w = u ++ w' ∧ w' <+: t := by
  rcases List.prefix_or_prefix_of_prefix h (List.prefix_append u t) with h' | ⟨w', rfl⟩
  · exact .inl h'
  · exact .inr ⟨w', rfl, (List.prefix_append_right_inj u).mp h⟩

theorem infix_append_cases {w u t : Bytes} (h : w <:+: u ++ t) :
    w <:+: t ∨ ∃ u₂, u₂ <:+ u ∧ u₂ ≠ [] ∧ w <+: u₂ ++ t := by
  induction u with
  | nil => exact .inl h
  | cons a u ih =>
    rcases List.infix_cons_iff.mp h with h | h
    · exact .inr ⟨a :: u, List.suffix_refl _, List.cons_ne_nil _ _, h⟩
    · exact (ih h).imp_right fun ⟨u₂, hs, hne, hw⟩ =>
        ⟨u₂, hs.trans (List.suffix_cons _ _), hne, hw⟩

/-- The text `run_git` puts in place of a credential. -/
def redaction (old : Bytes) : Bytes := old.take 2 ++ ofString "<XX>"

/-- The credential `old` overlaps its redaction so that `replace` can put it back together:
`old` lies in the redaction or holds it, starts with an end of it (from its second byte on),
or ends with a start of it that it does not itself start with. -/
def OverlapsRedaction (old : Bytes) : Prop :=
  old <:+: redaction old ∨ redaction old <:+: old ∨
    (∃ k < 6, 0 < k ∧ (redaction old).drop k <+: old) ∨
    ∃ m < 6, 0 < m ∧ (redaction old).take m <:+ old ∧ ¬ (redaction old).take m <+: old

instance (old : Bytes) : Decidable (OverlapsRedaction old) :=
  inferInstanceAs (Decidable (old <:+: redaction old ∨ redaction old <:+: old ∨
    (∃ k < 6, 0 < k ∧ (redaction old).drop k <+: old) ∨
    ∃ m < 6, 0 < m ∧ (redaction old).take m <:+ old ∧ ¬ (redaction old).take m <+: old))

section Redaction

variable {o₁ o₂ o₃ : UInt8} {os : Bytes}

private theorem redaction_cons :
    redaction (o₁ :: o₂ :: o₃ :: os) = [o₁, o₂, 0x3C, 0x58, 0x58, 0x3E] := rfl

theorem prefix_of_prefix_replaceFrom (hov : ¬ OverlapsRedaction (o₁ :: o₂ :: o₃ :: os)) :
    ∀ (s w : Bytes), w <:+ o₁ :: o₂ :: o₃ :: os →
      w <+: replaceFrom o₁ (o₂ :: o₃ :: os) (redaction (o₁ :: o₂ :: o₃ :: os)) 0 s → w <+: s := by
  intro s
  induction s using replaceFrom_induct (o₁ :: o₂ :: o₃ :: os) with
  | nil => intro w _ hw; rwa [replaceFrom] at hw
  | hit b s hpre _ =>
    intro w hsuf hw
    rw [replaceFrom_cons, if_pos hpre] at hw
    rcases prefix_append_cases hw with hw | ⟨w', rfl, -⟩
    · -- `w` is a start of the redaction, so a start of the credential
      obtain ⟨m, rfl⟩ : ∃ m, w = (redaction (o₁ :: o₂ :: o₃ :: os)).take m :=
        ⟨_, List.prefix_iff_eq_take.mp hw⟩
      by_cases h0 : m = 0
      · simp [h0]
      by_cases h6 : 6 ≤ m
      · rw [List.take_of_length_le (by rw [redaction_cons]; simpa using h6)] at hsuf
        exact absurd (.inr (.inl hsuf.isInfix)) hov
      · refine List.IsPrefix.trans ?_ hpre
        by_contra hne
        exact hov (.inr (.inr (.inr ⟨m, by omega, by omega, hsuf, hne⟩)))
    · exact absurd (.inr (.inl ((List.prefix_append _ _).isInfix.trans hsuf.isInfix))) hov
  | miss b s hpre ih =>
    intro w hsuf hw
    rw [replaceFrom_cons, if_neg hpre] at hw
    match w, hw, hsuf with
    | [], _, _ => exact List.nil_prefix
    | a :: w, hw, hsuf =>
      obtain ⟨rfl, hrest⟩ := List.cons_prefix_cons.mp hw
      exact List.cons_prefix_cons.mpr ⟨rfl, ih w ((List.suffix_cons _ _).trans hsuf) hrest⟩

theorem not_infix_replace (hov : ¬ OverlapsRedaction (o₁ :: o₂ :: o₃ :: os)) (s : Bytes) :
    ¬ (o₁ :: o₂ :: o₃ :: os) <:+:
      s.replace (o₁ :: o₂ :: o₃ :: os) (redaction (o₁ :: o₂ :: o₃ :: os)) := by
  simp only [replace]
  induction s using replaceFrom_induct (o₁ :: o₂ :: o₃ :: os) with
  | nil => rw [replaceFrom]; simp
  | hit b s hpre ih =>
    rw [replaceFrom_cons, if_pos hpre]
    intro h
    rcases infix_append_cases h with h | ⟨u, hu, hne, h⟩
    · exact ih h
    rcases prefix_append_cases h with h | ⟨w', hw', -⟩
    · exact hov (.inl (h.isInfix.trans hu.isInfix))
    · -- the credential starts with an end of the redaction
      obtain ⟨k, hk⟩ : ∃ k, u = (redaction (o₁ :: o₂ :: o₃ :: os)).drop k :=
        ⟨_, List.suffix_iff_eq_drop.mp hu⟩
      have hk6 : k < 6 := by
        by_contra h6
        rw [hk, List.drop_of_length_le (by rw [redaction_cons]; simpa using h6)] at hne
        exact hne rfl
      have hpre : u <+: o₁ :: o₂ :: o₃ :: os := ⟨w', hw'.symm⟩
      rw [hk] at hpre
      by_cases h0 : k = 0
      · subst h0
        exact hov (.inr (.inl hpre.isInfix))
      · exact hov (.inr (.inr (.inl ⟨k, hk6, by omega, hpre⟩)))
  | miss b s hpre ih =>
    rw [replaceFrom_cons, if_neg hpre, List.infix_cons_iff, not_or]
    refine ⟨fun h => hpre ?_, ih⟩
    refine prefix_of_prefix_replaceFrom hov (b :: s) _ (List.suffix_refl _) ?_
    rwa [replaceFrom_cons, if_neg hpre]

end Redaction

theorem length_of_not_overlapsRedaction {old : Bytes} (hov : ¬ OverlapsRedaction old) :
    3 ≤ old.length :=
  match old, hov with
  | [], hov => absurd (.inl List.nil_infix) hov
  | [_], hov => absurd (.inl (List.prefix_append _ _).isInfix) hov
  | [_, _], hov => absurd (.inl (List.prefix_append _ _).isInfix) hov
  | _ :: _ :: _ :: _, _ => by simp

/-- A credential that does not overlap its redaction does not survive `replace` by it. -/
theorem not_infix_replace_redaction {old : Bytes} (hov : ¬ OverlapsRedaction old) (s : Bytes) :
    ¬ old <:+: s.replace old (redaction old) :=
  match old, hov, length_of_not_overlapsRedaction hov with
  | _ :: _ :: _ :: _, hov, _ => not_infix_replace hov s

/-- The bytes of U+FFFD, which `decode(errors="replace")` puts in place of what it cannot
read. -/
def replacementChar : Bytes := [0xEF, 0xBF, 0xBD]

/-- The length of the well-formed UTF-8 sequence that `b` leads; `0` when `b` leads none. -/
def seqLength (b : UInt8) : Nat :=
  if b ≤ 0x7F then 1 else if 0xC2 ≤ b ∧ b ≤ 0xDF then 2 else if 0xE0 ≤ b ∧ b ≤ 0xEF then 3
  else if 0xF0 ≤ b ∧ b ≤ 0xF4 then 4 else 0

/-- The bytes that may follow the lead `b` in second place. -/
def secondOk (b c : UInt8) : Bool :=
  if b = 0xE0 then 0xA0 ≤ c && c ≤ 0xBF else if b = 0xED then 0x80 ≤ c && c ≤ 0x9F
  else if b = 0xF0 then 0x90 ≤ c && c ≤ 0xBF else if b = 0xF4 then 0x80 ≤ c && c ≤ 0x8F
  else 0x80 ≤ c && c ≤ 0xBF

/-- A continuation byte. -/
def isCont (c : UInt8) : Bool := 0x80 ≤ c && c ≤ 0xBF

/-- How many of the bytes after the lead `b` go on with its sequence. -/
def continued (b : UInt8) : Bytes → Nat
  | c :: rest =>
    if secondOk b c then ((rest.take (seqLength b - 2)).takeWhile isCont).length + 1 else 0
  | [] => 0

/-- The next character `decode(errors="replace")` reads from `b :: rest`: how many bytes it
takes, and its own UTF-8 bytes. A well-formed sequence is kept; the maximal subpart of one (a
byte that leads none, or a lead and the bytes that go on with it) becomes U+FFFD. -/
def nextChar (b : UInt8) (rest : Bytes) : Nat × Bytes :=
  if b ≤ 0x7F then (1, [b]) else if seqLength b = 0 then (1, replacementChar) else
  if continued b rest = seqLength b - 1 then (seqLength b, b :: rest.take (continued b rest))
  else (continued b rest + 1, replacementChar)

/-- `data.decode(errors="replace")[:n]`, written back in UTF-8: the first `n` characters. -/
def decodeReplace : Nat → Bytes → Bytes
  | 0, _ => []
  | _ + 1, [] => []
  | n + 1, b :: rest =>
    (nextChar b rest).2 ++ decodeReplace n ((b :: rest).drop (nextChar b rest).1)

theorem nextChar_cases (b : UInt8) (rest : Bytes) :
    (nextChar b rest).2 = (b :: rest).take (nextChar b rest).1 ∨
      (nextChar b rest).2 = replacementChar := by
  unfold nextChar
  split_ifs with h1 h2 h3
  · exact .inl rfl
  · exact .inr rfl
  · refine .inl ?_
    rw [show seqLength b = continued b rest + 1 by omega]
    rfl
  · exact .inr rfl

/-- The credential `old` overlaps U+FFFD: it lies in it or holds it, starts with an end of it,
or ends with a start of it. -/
def OverlapsReplacement (old : Bytes) : Prop :=
  old <:+: replacementChar ∨ replacementChar <:+: old ∨
    (∃ k < 3, 0 < k ∧ replacementChar.drop k <+: old) ∨
    ∃ m < 3, 0 < m ∧ replacementChar.take m <:+ old

section Decode

variable {old : Bytes} (hov : ¬ OverlapsReplacement old)
include hov

theorem prefix_of_prefix_decodeReplace :
    ∀ (n : Nat) (s w : Bytes), w <:+ old → w <+: decodeReplace n s → w <+: s
  | 0, _, _, _, hw => List.prefix_nil.mp hw ▸ List.nil_prefix
  | _ + 1, [], _, _, hw => List.prefix_nil.mp hw ▸ List.nil_prefix
  | n + 1, b :: rest, w, hsuf, hw => by
    rw [decodeReplace] at hw
    rcases nextChar_cases b rest with hc | hc <;> rw [hc] at hw
    · rcases prefix_append_cases hw with hw | ⟨w', rfl, hw'⟩
      · exact hw.trans (List.take_prefix _ _)
      · have := prefix_of_prefix_decodeReplace n _ w' ((List.suffix_append _ _).trans hsuf) hw'
        calc _ <+: (b :: rest).take _ ++ (b :: rest).drop (nextChar b rest).1 :=
              (List.prefix_append_right_inj _).mpr this
          _ = b :: rest := List.take_append_drop _ _
    · rcases prefix_append_cases hw with hw | ⟨w', rfl, -⟩
      · -- `w` is a start of U+FFFD that ends the credential
        obtain ⟨m, rfl⟩ : ∃ m, w = replacementChar.take m := ⟨_, List.prefix_iff_eq_take.mp hw⟩
        by_cases h0 : m = 0
        · simp [h0]
        by_cases h3 : 3 ≤ m
        · rw [List.take_of_length_le (by simpa [replacementChar] using h3)] at hsuf
          exact absurd (.inr (.inl hsuf.isInfix)) hov
        · exact absurd (.inr (.inr (.inr ⟨m, by omega, by omega, hsuf⟩))) hov
      · exact absurd (.inr (.inl ((List.prefix_append _ _).isInfix.trans hsuf.isInfix))) hov

/-- No occurrence of the credential appears in the decoded text of bytes that hold none. -/
theorem not_infix_decodeReplace : ∀ (n : Nat) (s : Bytes), ¬ old <:+: s →
    ¬ old <:+: decodeReplace n s
  | 0, _, _ => fun h => hov (.inl (List.infix_nil.mp h ▸ List.nil_infix))
  | _ + 1, [], _ => fun h => hov (.inl (List.infix_nil.mp h ▸ List.nil_infix))
  | n + 1, b :: rest, hs => by
    rw [decodeReplace]
    intro h
    rcases infix_append_cases h with h | ⟨u, hu, hne, h⟩
    · exact not_infix_decodeReplace n _
        (fun h' => hs (h'.trans (List.drop_suffix _ _).isInfix)) h
    rcases nextChar_cases b rest with hc | hc <;> rw [hc] at hu
    · -- the occurrence starts in bytes that were kept
      rcases prefix_append_cases h with h | ⟨w', hw', hrest⟩
      · exact hs (h.isInfix.trans (hu.isInfix.trans (List.take_prefix _ _).isInfix))
      · obtain ⟨v, hv⟩ := hu
        have := prefix_of_prefix_decodeReplace hov n _ w' (hw' ▸ List.suffix_append _ _) hrest
        refine hs (hw' ▸ ((List.prefix_append_right_inj u).mpr this).isInfix.trans ⟨v, [], ?_⟩)
        rw [List.append_nil, ← List.append_assoc, hv, List.take_append_drop]
    · -- the occurrence starts in a U+FFFD
      rcases prefix_append_cases h with h | ⟨w', hw', -⟩
      · exact hov (.inl (h.isInfix.trans hu.isInfix))
      obtain ⟨k, rfl⟩ : ∃ k, u = replacementChar.drop k := ⟨_, List.suffix_iff_eq_drop.mp hu⟩
      have hk3 : k < 3 := by
        by_contra h3
        exact hne (List.drop_of_length_le (by simpa [replacementChar] using h3))
      have hpre : replacementChar.drop k <+: old := ⟨w', hw'.symm⟩
      by_cases h0 : k = 0
      · subst h0
        exact hov (.inr (.inl hpre.isInfix))
      · exact hov (.inr (.inr (.inl ⟨k, hk3, by omega, hpre⟩)))

end Decode

theorem utf8Valid_cons_eq_false {b : UInt8} (hb : b = 0xBF ∨ b = 0xBD) (t : Bytes) :
    utf8Valid (b :: t) = false := by
  rcases hb with rfl | rfl <;> rcases t with _ | ⟨c, _ | ⟨d, _ | ⟨e, r⟩⟩⟩ <;> rfl

private theorem le191_ne {e : UInt8} (h : e ≤ 191) : e ≠ 0xEF := by
  rintro rfl; revert h; decide

private theorem lead2_ne {o : UInt8} (h : (decide (194 ≤ o) && decide (o ≤ 223)) = true) :
    o ≠ 0xEF := by
  rintro rfl; revert h; decide

private theorem ascii_ne {o : UInt8} (h : o ≤ 127) : o ≠ 0xEF := by
  rintro rfl; revert h; decide

theorem not_suffix_of_utf8Valid (l : Bytes) :
    utf8Valid l = true → ¬ [0xEF] <:+ l ∧ ¬ [0xEF, 0xBF] <:+ l := by
  induction l using utf8Valid.induct <;> intro h <;> rw [utf8Valid.eq_def] at h <;> dsimp only at h
  case case1 => simp
  case case2 o os ho ih =>
    rw [if_pos ho] at h
    simp only [List.suffix_cons_iff, List.cons.injEq, ih h, or_false]
    exact ⟨fun h' => ascii_ne ho h'.1.symm, fun h' => ascii_ne ho h'.1.symm⟩
  case case3 o ho e rest h2 ih =>
    rw [if_neg ho, if_pos h2] at h
    simp only [Bool.and_eq_true, decide_eq_true_eq] at h
    simp only [List.suffix_cons_iff, List.cons.injEq, ih h.2, or_false]
    exact ⟨by simp [Ne.symm (le191_ne h.1.2)],
      by simp [Ne.symm (le191_ne h.1.2), Ne.symm (lead2_ne h2)]⟩
  case case4 o ho e h2 e₁ rest h3 ih =>
    rw [if_neg ho, if_neg h2, if_pos h3] at h
    simp only [Bool.and_eq_true, decide_eq_true_eq] at h
    have he : e ≠ 0xEF := by
      rintro rfl; have := h.1.1.1; revert this; split_ifs <;> decide
    simp only [List.suffix_cons_iff, List.cons.injEq, ih h.2, or_false]
    exact ⟨by simp [Ne.symm (le191_ne h.1.2)], by simp [Ne.symm he, Ne.symm (le191_ne h.1.2)]⟩
  case case5 o ho e h2 e₁ h3 e₂ rest ih =>
    rw [if_neg ho, if_neg h2, if_neg h3] at h
    simp only [Bool.and_eq_true, decide_eq_true_eq] at h
    simp only [List.suffix_cons_iff, List.cons.injEq, ih h.2, or_false]
    exact ⟨by simp [Ne.symm (le191_ne h.1.2)],
      by simp [Ne.symm (le191_ne h.1.1.1.2), Ne.symm (le191_ne h.1.2)]⟩
  case case6 o ho e h2 e₁ h3 => rw [if_neg ho, if_neg h2, if_neg h3] at h; cases h
  case case7 o ho e h2 => rw [if_neg ho, if_neg h2] at h; cases h
  case case8 o ho => rw [if_neg ho] at h; cases h

/-- For UTF-8 text of at least three bytes, overlapping U+FFFD is holding it. -/
theorem not_overlapsReplacement {old : Bytes} (hvalid : utf8Valid old) (hlen : 3 ≤ old.length)
    (hF : ¬ replacementChar <:+: old) : ¬ OverlapsReplacement old := by
  rintro (h | h | ⟨k, hk, hk0, t, rfl⟩ | ⟨m, hm, hm0, h⟩)
  · exact hF (h.eq_of_length (Nat.le_antisymm h.length_le (by simpa [replacementChar] using hlen))
      ▸ List.infix_refl _)
  · exact hF h
  · obtain rfl | rfl : k = 1 ∨ k = 2 := by omega
    · rw [show replacementChar.drop 1 ++ t = 0xBF :: 0xBD :: t from rfl,
        utf8Valid_cons_eq_false (.inl rfl)] at hvalid
      cases hvalid
    · rw [show replacementChar.drop 2 ++ t = 0xBD :: t from rfl,
        utf8Valid_cons_eq_false (.inr rfl)] at hvalid
      cases hvalid
  · have := not_suffix_of_utf8Valid old hvalid
    obtain rfl | rfl : m = 1 ∨ m = 2 := by omega
    · exact this.1 h
    · exact this.2 h

end Bytes

end GitCdn
