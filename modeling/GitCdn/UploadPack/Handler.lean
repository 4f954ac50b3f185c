import GitCdn.UploadPack.Protocol

/-! # `UploadPackHandler.run` and the frames it writes

`run` rejects a request the parser could not read with an `ERR` frame quoting the request's
first 128 bytes, returns on a request without wants, and otherwise serves it with the pack
cache or without it. `upload_pack_input` is not among the sources: a parsed request is what
`run` reads of it. A frame that `to_packet` makes is read back by the packet-line parser as
one chunk when its length fits the four hex digits of its prefix.
-/

namespace GitCdn.UploadPack

open Bytes PacketLine PackCache

theorem hexDigit_hexChar : ∀ d, d < 16 → hexDigit (hexChar d) = some d := by decide

theorem prefixLength_hexChar {n : Nat} (hn : n < 65536) :
    prefixLength ([n / 4096 % 16, n / 256 % 16, n / 16 % 16, n % 16].map hexChar) = some n := by
  simp only [prefixLength, List.map_cons, List.map_nil, List.foldlM_cons, List.foldlM_nil,
    hexDigit_hexChar _ (Nat.mod_lt _ (by decide : 16 > 0)), Option.map_eq_map,
    Option.map_some', Option.bind_eq_bind, Option.some_bind, Option.pure_def, Option.some.injEq]
  omega

theorem parse_payload (rest : Bytes) : ∀ (frame data : Bytes), data ≠ [] →
    parse (.payload frame data.length) (data ++ rest) =
      (parse (.header []) rest).cons (frame ++ data)
  | frame, [b], _ => by simp [parse]
  | frame, b :: b' :: ds, _ => by
    rw [List.cons_append, parse, if_neg (by simp)]
    simpa using parse_payload rest (frame ++ [b]) (b' :: ds) (List.cons_ne_nil _ _)

theorem parse_frame {h0 h1 h2 h3 : UInt8} {payload : Bytes}
    (hpre : prefixLength [h0, h1, h2, h3] = some (payload.length + 4)) (rest : Bytes) :
    parse (.header []) ([h0, h1, h2, h3] ++ payload ++ rest) =
      (parse (.header []) rest).cons ([h0, h1, h2, h3] ++ payload) := by
  cases payload with
  | nil => simp [parse, hpre]
  | cons b bs =>
    simp only [List.cons_append, List.nil_append]
    rw [parse, if_pos (by simp), parse, if_pos (by simp), parse, if_pos (by simp), parse,
      if_neg (by simp)]
    simp only [List.nil_append, List.cons_append, hpre, List.length_cons]
    rw [if_neg (by omega), if_neg (by omega), Nat.add_sub_cancel]
    simpa using parse_payload rest [h0, h1, h2, h3] (b :: bs) (List.cons_ne_nil _ _)

theorem parse_toPacket {payload : Bytes} (hfit : payload.length + 4 < 65536) (rest : Bytes) :
    parse (.header []) (toPacket payload ++ rest) =
      (parse (.header []) rest).cons (toPacket payload) :=
  parse_frame (prefixLength_hexChar hfit) rest

/-- Frames that fit, then a flush: the parser yields each frame and the flush, and stops. -/
theorem parse_frames (rest : Bytes) : ∀ ps : List Bytes, (∀ p ∈ ps, p.length + 4 < 65536) →
    parse (.header []) ((ps.map toPacket).flatten ++ flushPkt ++ rest) =
      ⟨ps.map toPacket ++ [flushPkt], true⟩
  | [], _ => rfl
  | p :: ps, hps => by
    rw [List.map_cons, List.flatten_cons, List.append_assoc, List.append_assoc,
      parse_toPacket (hps p (List.mem_cons_self _ _)), ← List.append_assoc,
      parse_frames rest ps fun q hq => hps q (List.mem_cons_of_mem _ hq)]
    rfl

/-- An upload-pack output made of frames that fit their prefix and then a flush is cached as
those frames and the flush: what follows the flush is left out, and `cache_pack` writes
nothing to the client. -/
theorem cachePack_keeps_frames_through_flush (ps : List Bytes)
    (hfit : ∀ p ∈ ps, p.length + 4 < 65536) (rest : Bytes) (teeSet : Bool) :
    cachePack ((ps.map toPacket).flatten ++ flushPkt ++ rest) teeSet ⟨fun _ => false, false, false⟩ =
      ⟨some ((ps.map toPacket).flatten ++ flushPkt), [], false⟩ := by
  have hparse := parse_frames rest ps hfit
  rw [cachePack_of_flushed teeSet (by rw [PacketLineChunkParser, hparse]), PacketLineChunkParser,
    hparse]
  simp

theorem cachePack_keeps_frames_through_flush_nak :
    (∀ p ∈ [ofString "NAK\n"], p.length + 4 < 65536) ∧
      cachePack (([ofString "NAK\n"].map toPacket).flatten ++ flushPkt ++ ofString "0000") true
          ⟨fun _ => false, false, false⟩ =
        ⟨some (([ofString "NAK\n"].map toPacket).flatten ++ flushPkt), [], false⟩ :=
  have hfit : ∀ p ∈ [ofString "NAK\n"], p.length + 4 < 65536 := by decide
  ⟨hfit, cachePack_keeps_frames_through_flush _ hfit _ true⟩

/-- The quote `repr` puts around the bytes `b`: `"` when they hold a `'` and no `"`. -/
def reprQuote (b : Bytes) : UInt8 := if 0x27 ∈ b ∧ 0x22 ∉ b then 0x22 else 0x27

/-- How `repr` writes the byte `c` between the quotes `q`: the quote and the backslash
escaped, tab, line feed and carriage return by their letters, the other bytes outside the
printable ASCII range as `\x` and two lowercase hex digits, the rest as they are. -/
def reprByte (q c : UInt8) : Bytes :=
  if c = q ∨ c = 0x5C then [0x5C, c]
  else if c = 0x09 then [0x5C, 0x74]
  else if c = 0x0A then [0x5C, 0x6E]
  else if c = 0x0D then [0x5C, 0x72]
  else if c < 0x20 ∨ 0x7F ≤ c then [0x5C, 0x78, hexChar (c.toNat / 16), hexChar (c.toNat % 16)]
  else [c]

/-- `repr(b)` of a `bytes` value, as an f-string shows it: `b`, the quote, each byte as
`reprByte` writes it, the quote. -/
def bytesRepr (b : Bytes) : Bytes :=
  0x62 :: reprQuote b :: (b.flatMap (reprByte (reprQuote b)) ++ [reprQuote b])

/-- What `run` reads of a parsed request: its bytes, `parse_error`, `wants`, and the answer of
`can_be_cached()`. -/
structure ParsedInput where
  input : Bytes
  parseError : Bool
  wants : List Bytes
  canBeCached : Bool
  deriving Repr, DecidableEq

/-- The frame `_write_pack_error(error)` writes: `to_packet(("ERR " + error).encode())`. -/
def writePackError (error : Bytes) : Bytes := toPacket (ofString "ERR " ++ error)

/-- Where `run` goes. -/
inductive RunOutcome where
  /-- `_write_pack_error` wrote this frame, and `run` returns. -/
  | rejected (frame : Bytes)
  /-- "Request without wants": `run` returns having written nothing. -/
  | noWants
  /-- `_run_with_cache`. -/
  | withCache
  /-- `_execute`, with no pack cache. -/
  | execute
  deriving Repr, DecidableEq

/-- `UploadPackHandler.run(parsed_input)`, up to the handler it hands the request to. The
message is `f"Wrong upload pack input: {parsed_input.input[:128]}"`, which shows the bytes by
their `repr`. -/
def UploadPackHandler.run (p : ParsedInput) : RunOutcome :=
  if p.parseError then
    .rejected (writePackError (ofString "Wrong upload pack input: " ++ bytesRepr (p.input.take 128)))
  else if p.wants.isEmpty then .noWants
  else if p.canBeCached then .withCache
  else .execute

end GitCdn.UploadPack
