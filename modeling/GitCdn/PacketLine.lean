import GitCdn.Bytes

/-! # Packet-line framing

`git_cdn.packet_line` is not among the sources, so `PacketLineChunkParser` and `to_packet`
are modelled from the spec (§4.B). A frame is a 4-hex length prefix and a payload whose
length counts the prefix; `0000` is a flush, and `0001` to `0003` are prefix-only packets.
The parser pulls bytes through `read_func` and yields each raw frame (prefix and payload)
until it has yielded a flush; a non-hex prefix or an end of input before the flush fails
the sequence.

The parser is written as a byte-at-a-time state machine, so that it is structurally
recursive on its input and runs on concrete streams.
-/

namespace GitCdn.PacketLine

open Bytes

/-- The value of one hexadecimal digit, either case. -/
def hexDigit (b : UInt8) : Option Nat :=
  if 0x30 ≤ b.toNat ∧ b.toNat ≤ 0x39 then some (b.toNat - 0x30)
  else if 0x61 ≤ b.toNat ∧ b.toNat ≤ 0x66 then some (b.toNat - 0x61 + 10)
  else if 0x41 ≤ b.toNat ∧ b.toNat ≤ 0x46 then some (b.toNat - 0x41 + 10)
  else none

/-- The length a prefix announces, if every byte of it is a hex digit. -/
def prefixLength (hdr : Bytes) : Option Nat :=
  hdr.foldlM (fun n b => (n * 16 + ·) <$> hexDigit b) 0

/-- Where the parser stands in the current frame. -/
inductive Pos where
  /-- Reading the prefix; `seen` is what was read of it. -/
  | header (seen : Bytes)
  /-- Reading a payload: the frame read so far and the payload bytes still to come. -/
  | payload (frame : Bytes) (left : Nat)
  deriving Repr, DecidableEq

/-- What one parser sequence did: the chunks it yielded, in order, and whether it ended
normally, at a flush, rather than with a decode error. -/
structure Run where
  chunks : List Bytes
  flushed : Bool
  deriving Repr, DecidableEq

/-- A chunk yielded before the rest of the sequence. -/
def Run.cons (c : Bytes) (r : Run) : Run := { r with chunks := c :: r.chunks }

@[simp] theorem Run.cons_chunks (c : Bytes) (r : Run) : (r.cons c).chunks = c :: r.chunks :=
  rfl

@[simp] theorem Run.cons_flushed (c : Bytes) (r : Run) : (r.cons c).flushed = r.flushed :=
  rfl

/-- Modelled from the spec: the chunk sequence of `PacketLineChunkParser` from position
`pos`, over the bytes `read_func` can still deliver. -/
def parse : Pos → Bytes → Run
  | .header _, [] | .payload _ _, [] => ⟨[], false⟩
  | .header seen, b :: rest =>
    if seen.length < 3 then parse (.header (seen ++ [b])) rest else
    match prefixLength (seen ++ [b]) with
    | none => ⟨[], false⟩
    | some n =>
      if n = 0 then ⟨[seen ++ [b]], true⟩
      else if n ≤ 4 then (parse (.header []) rest).cons (seen ++ [b])
      else parse (.payload (seen ++ [b]) (n - 4)) rest
  | .payload frame left, b :: rest =>
    if left ≤ 1 then (parse (.header []) rest).cons (frame ++ [b])
    else parse (.payload (frame ++ [b]) (left - 1)) rest

/-- Modelled from the spec: the chunks `PacketLineChunkParser(read_func)` yields when
`read_func` reads from `stream`. -/
def PacketLineChunkParser (stream : Bytes) : Run := parse (.header []) stream

/-- The flush packet `b"0000"`. -/
def flushPkt : Bytes := ofString "0000"

theorem eq_of_hexDigit_eq_zero {b : UInt8} (h : hexDigit b = some 0) : b = 0x30 := by
  unfold hexDigit at h
  split_ifs at h with h₁ <;> simp only [Option.some.injEq] at h <;> try omega
  exact UInt8.toNat.inj (by rw [show (0x30 : UInt8).toNat = 48 from rfl]; omega)

private theorem digits_zero_of_foldlM : ∀ (hdr : Bytes) (n : Nat),
    hdr.foldlM (fun n b => (n * 16 + ·) <$> hexDigit b) n = some 0 →
      n = 0 ∧ ∀ b ∈ hdr, hexDigit b = some 0
  | [], n, h => by simpa using h
  | b :: hdr, n, h => by
    cases hd : hexDigit b with
    | none => simp [hd] at h
    | some d =>
      simp only [List.foldlM_cons, hd, Option.map_eq_map, Option.map_some', Option.some_bind] at h
      obtain ⟨h0, hrest⟩ := digits_zero_of_foldlM hdr _ h
      refine ⟨by omega, ?_⟩
      simpa [hd, show d = 0 by omega] using hrest

theorem eq_flushPkt_of_prefixLength {hdr : Bytes} (hlen : hdr.length = 4)
    (h : prefixLength hdr = some 0) : hdr = flushPkt := by
  have hd := (digits_zero_of_foldlM hdr 0 h).2
  match hdr, hlen with
  | [a, b, c, d], _ =>
    simp only [List.mem_cons, List.not_mem_nil, or_false, forall_eq_or_imp, forall_eq] at hd
    obtain ⟨ha, hb, hc, hd⟩ := hd
    rw [eq_of_hexDigit_eq_zero ha, eq_of_hexDigit_eq_zero hb, eq_of_hexDigit_eq_zero hc,
      eq_of_hexDigit_eq_zero hd]
    rfl

/-- The positions the parser reaches from a frame boundary: at most three prefix bytes
read. -/
def Pos.Reachable : Pos → Prop
  | .header seen => seen.length ≤ 3
  | .payload _ _ => True

/-- A sequence that ends normally has yielded the flush packet last. -/
theorem parse_chunks_of_flushed {pos : Pos} {stream : Bytes} (hpos : pos.Reachable)
    (h : (parse pos stream).flushed = true) :
    ∃ pre, (parse pos stream).chunks = pre ++ [flushPkt] := by
  induction pos, stream using parse.induct with
  | case1 | case2 => simp [parse] at h
  | case3 seen b rest hlt ih =>
    rw [parse, if_pos hlt] at h ⊢
    exact ih (by simp [Pos.Reachable]; omega) h
  | case4 seen b rest hlt hnone => simp [parse, hlt, hnone] at h
  | case5 seen b rest hlt h0 =>
    simp only [parse, hlt, h0, if_false, if_true]
    have hlen : (seen ++ [b]).length = 4 := by simp [Pos.Reachable] at hpos ⊢; omega
    exact ⟨[], by rw [eq_flushPkt_of_prefixLength hlen h0]; rfl⟩
  | case6 seen b rest hlt n h0 hn hle ih =>
    simp only [parse, hlt, hn, h0, hle, if_false, if_true, Run.cons_flushed,
      Run.cons_chunks] at h ⊢
    obtain ⟨pre, hpre⟩ := ih (by simp [Pos.Reachable]) h
    exact ⟨_, by rw [hpre, List.cons_append]⟩
  | case7 seen b rest hlt n h0 hn hle ih =>
    simp only [parse, hlt, hn, h0, hle, if_false] at h ⊢
    exact ih trivial h
  | case8 frame left b rest hle ih =>
    simp only [parse, hle, if_true, Run.cons_flushed, Run.cons_chunks] at h ⊢
    obtain ⟨pre, hpre⟩ := ih (by simp [Pos.Reachable]) h
    exact ⟨_, by rw [hpre, List.cons_append]⟩
  | case9 frame left b rest hle ih =>
    simp only [parse, hle, if_false] at h ⊢
    exact ih trivial h

/-- The bytes of the current frame the parser holds. -/
def Pos.pending : Pos → Bytes
  | .header seen => seen
  | .payload frame _ => frame

/-- The parser passes its input on as it comes: the frames it yields, joined, are a prefix of
what it has read. -/
theorem parse_flatten_isPrefix (pos : Pos) (stream : Bytes) :
    (parse pos stream).chunks.flatten <+: pos.pending ++ stream := by
  induction pos, stream using parse.induct with
  | case1 | case2 => simp [parse]
  | case3 seen b rest hlt ih =>
    rw [parse, if_pos hlt]
    simpa [Pos.pending] using ih
  | case4 seen b rest hlt hnone => simp [parse, hlt, hnone]
  | case5 seen b rest hlt h0 => simp [parse, hlt, h0, Pos.pending]
  | case6 seen b rest hlt n h0 hn hle ih =>
    simp only [parse, hlt, hn, h0, hle, if_false, if_true, Run.cons_chunks, List.flatten_cons,
      Pos.pending] at ih ⊢
    simpa using (List.prefix_append_right_inj (seen ++ [b])).mpr ih
  | case7 seen b rest hlt n h0 hn hle ih =>
    simp only [parse, hlt, hn, h0, hle, if_false] at ih ⊢
    simpa [Pos.pending] using ih
  | case8 frame left b rest hle ih =>
    simp only [parse, hle, if_true, Run.cons_chunks, List.flatten_cons, Pos.pending] at ih ⊢
    simpa using (List.prefix_append_right_inj (frame ++ [b])).mpr ih
  | case9 frame left b rest hle ih =>
    simp only [parse, hle, if_false] at ih ⊢
    simpa [Pos.pending] using ih

end GitCdn.PacketLine
