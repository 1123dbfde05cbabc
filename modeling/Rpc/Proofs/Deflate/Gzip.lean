import Rpc.Codec.Builtin
import Rpc.Proofs.Deflate.Blocks
import Rpc.Proofs.Deflate.Window

/-!
# gzip members come back

- `Gzip.Member`: a member without optional header fields, whoever made it; `Gzip.member_compress`: what is made of a
  byte string is one;
- `Gzip.First`: bytes that begin with a member of any kind;
- `Gzip.decompressBelow_of_first`: they give the content of the member back, if that is within the limit, and are too
  large otherwise; so does a member without optional header fields (`Compressor.gzip_decompress_of_member`);
- `Compressor.gzip_round_trip`: so do bodies, and `Compressor.gzip_gives_back`: so does what was made of them;
- `Gzip.length_compress_le`: a member takes three bits more than its content for a byte at most, and a fixed number of
  bytes.

The cap on the output of decompression is a whole number of windows, and at least the limit, so it never cuts content
that is within the limit.
-/

namespace Rpc

namespace Gzip

/-- A member with the given content: the fixed bytes of the header, six bytes about its origin, any compressed form of
the content, its checksum and its length. -/
inductive Member (content : Bytes) : Bytes → Prop
  | intro {origin compressed : Bytes} : origin.length = 6 → Deflate.Encodes compressed content →
      Member content ([0x1f, 0x8b, 0x08, 0] ++ origin ++ (compressed ++ trailer (crc32 content) content.length))

/-- **What is made of a byte string is a member with this content.** -/
theorem member_compress (content : Bytes) : Member content (compress content) :=
  have horigin : [0, 0, 0, 0, 0, (0xff : UInt8)].length = 6 := rfl
  .intro horigin (Deflate.encodes_compress content)

theorem length_trailer (checksum : UInt32) (length : Nat) : (trailer checksum length).length = 8 := by
  simp [trailer]

/-- The header of a member is followed by its compressed content. -/
theorem dropHeader_origin {origin : Bytes} (h : origin.length = 6) (rest : Bytes) :
    dropHeader ([0x1f, 0x8b, 0x08, 0] ++ origin ++ rest) = some rest := by
  match origin, h with
  | [_, _, _, _, _, _], _ => rfl

/-- What is within the limit is within the cap. -/
theorem lt_window_mul (limit : Nat) : limit < window * (limit / window + 1) := by
  rw [Nat.mul_comm]
  exact Nat.lt_mul_of_div_lt (Nat.lt_succ_self _) (by decide)

/-- Bytes that begin with a member of the given content. The header may have any of the optional fields, copies may reach
back before the start of the content, and what follows the member is anything. -/
def First (content bs : Bytes) : Prop :=
  ∃ compressed tail, Deflate.Unfolds compressed content ∧
    dropHeader bs = some (compressed ++ (trailer (crc32 content) content.length ++ tail))

theorem Member.first {content member : Bytes} (h : Member content member) : First content member := by
  obtain ⟨horigin, hcompressed⟩ := h
  refine ⟨_, [], hcompressed.unfolds, ?_⟩
  rw [dropHeader_origin horigin, List.append_nil]

/-- **The first member gives its content back,** if that is within the limit, and is too large otherwise. -/
theorem decompressBelow_of_first {content bs : Bytes} (h : First content bs) (limit : Nat) :
    decompressBelow (limit + 1) bs = if content.length ≤ limit then .ok content else .error .tooLarge := by
  obtain ⟨compressed, tail, hcompressed, hheader⟩ := h
  have htrailer : (trailer (crc32 content) content.length ++ tail).take 8 = trailer (crc32 content) content.length :=
    List.take_left' (length_trailer _ _)
  have hcap := lt_window_mul limit
  simp only [decompressBelow, hheader, Nat.add_sub_cancel, Deflate.inflate_of_unfolds hcompressed]
  by_cases hlong : content.length ≤ limit
  · have hwithin : content.length ≤ window * (limit / window + 1) := by omega
    have hnot : ¬ limit + 1 ≤ content.length := by omega
    simp only [hlong, hwithin, if_true, List.size_toArray, hnot, if_false, htrailer]
  · simp only [hlong, if_false]
    by_cases hwithin : content.length ≤ window * (limit / window + 1)
    · have hover : limit + 1 ≤ content.length := by omega
      simp only [hwithin, if_true, List.size_toArray, hover]
    · simp only [hwithin, if_false]

/-- Below the last number of 64 bits the program goes on, and the bound on the content is one more than the limit. -/
theorem decompress_eq {limit : Nat} (hlimit : limit + 1 < 2 ^ 64) (bs : Bytes) :
    decompress limit bs = .ok (decompressBelow (limit + 1) bs) := by
  rw [decompress, checkedAdd_of_lt hlimit]
  rfl

end Gzip

/-! ## Lengths -/

namespace Deflate

/-- A token takes at most eleven bits for each byte that it stands for. -/
theorem Token.mostBits_le {t : Token} (h : t.Valid) : t.mostBits ≤ 11 * t.width := by
  cases t with
  | literal b => exact (by decide : 9 ≤ 11)
  | copy length distance =>
    have hmin : 3 ≤ length := h.1
    show 32 ≤ 11 * length
    omega

theorem size_foldl_emit (tokens : List Token) (out : Array UInt8) :
    (tokens.foldl Token.emit out).size = out.size + (tokens.map Token.width).sum := by
  induction tokens generalizing out with
  | nil => rfl
  | cons t tokens ih =>
    rw [List.foldl_cons, ih, Token.size_emit, List.map_cons, List.sum_cons, Nat.add_assoc]

theorem sum_mostBits_le {tokens : List Token} (h : ∀ t ∈ tokens, t.Valid) :
    (tokens.map Token.mostBits).sum ≤ 11 * (tokens.map Token.width).sum := by
  induction tokens with
  | nil => exact Nat.le_refl 0
  | cons t tokens ih =>
    obtain ⟨ht, hrest⟩ := List.forall_mem_cons.mp h
    have := ih hrest
    have := Token.mostBits_le ht
    rw [List.map_cons, List.sum_cons, List.map_cons, List.sum_cons]
    omega

end Deflate

/-- A gzip member is not much longer than its content. -/
theorem Gzip.length_compress_le (content : Bytes) : 8 * (compress content).length ≤ 11 * content.length + 163 := by
  have hcompress := Deflate.length_compress_le content
  have hbits := Deflate.sum_mostBits_le fun t (ht : t ∈ Deflate.Token.ofBytes content) =>
    Deflate.Token.valid_of_mem_ofBytes ht
  have hsize := Deflate.size_foldl_emit (Deflate.Token.ofBytes content) #[]
  rw [show (Deflate.Token.ofBytes content).foldl Deflate.Token.emit #[] = content.toArray from
    Deflate.Token.expand_ofBytes content] at hsize
  rw [List.size_toArray] at hsize
  simp only [compress, List.length_append, length_trailer, header, List.length_cons, List.length_nil]
  omega

/-! ## Bodies -/

/-- Below the last number of 64 bits the compressor returns what the member gives. -/
theorem Compressor.gzip_decompress_eq {limit : Nat} (hlimit : limit + 1 < 2 ^ 64) (bs : Bytes) :
    Compressor.gzip.decompress limit bs = .ok ((Gzip.decompressBelow (limit + 1) bs).mapError (.ofGzip limit)) := by
  simp only [Compressor.gzip, Gzip.decompress_eq hlimit]
  rfl

/-- A member gives the body that it was made of back, if that is within the limit, and is too large otherwise. -/
theorem Compressor.gzip_decompress_of_member {limit : Nat} (hlimit : limit + 1 < 2 ^ 64) {body member : Bytes}
    (h : Gzip.Member body member) :
    Compressor.gzip.decompress limit member =
      .ok (if body.length ≤ limit then .ok body else .error (.decompressedTooLarge limit)) := by
  rw [gzip_decompress_eq hlimit, Gzip.decompressBelow_of_first h.first]
  split <;> rfl

/-- A body within the limit comes back. -/
theorem Compressor.gzip_gives_back {limit : Nat} (hlimit : limit + 1 < 2 ^ 64) {body short : Bytes}
    (h : Compressor.gzip.compress body = .ok short) (hwithin : body.length ≤ limit) :
    Compressor.gzip.decompress limit short = .ok (.ok body) := by
  obtain rfl : Gzip.compress body = short := Except.ok.inj h
  rw [gzip_decompress_of_member hlimit (Gzip.member_compress body), if_pos hwithin]

/-- **Bodies come back from their members.** Compressing a body succeeds and makes a member with this content. Every
member with this content, whichever blocks, codes and copies its compressed form consists of, gives the body back under
a limit that the body is within, and is too large under a smaller one. -/
theorem Compressor.gzip_round_trip {limit : Nat} (hlimit : limit < 2 ^ 64 - 1) (body : Bytes) :
    (∃ member, Compressor.gzip.compress body = .ok member ∧ Gzip.Member body member) ∧
    ∀ member, Gzip.Member body member →
      Compressor.gzip.decompress limit member =
        .ok (if body.length ≤ limit then .ok body else .error (.decompressedTooLarge limit)) := by
  refine ⟨⟨_, rfl, Gzip.member_compress body⟩, fun member hmember => ?_⟩
  exact gzip_decompress_of_member (show limit + 1 < 2 ^ 64 by omega) hmember

/-- Three bytes in a stored block. -/
def storedBlock : Bytes := [0x01, 3, 0, 0xfc, 0xff, 97, 98, 99]

theorem encodes_storedBlock : Deflate.Encodes storedBlock [97, 98, 99] := by
  have hpad : (List.replicate 5 false).length < 8 := by decide
  have hmax : ([97, 98, 99] : Bytes).length ≤ 0xffff := by decide
  have hblock : Deflate.Block [] 0 #[] _ _ := .stored hpad rfl hmax
  have hblocks := Deflate.Blocks.last hblock (by decide)
  have hbits : storedBlock.flatMap Deflate.bitsOf = true :: (Deflate.lowBits 2 0 ++ (List.replicate 5 false ++
      (Bytes.littleEndian 2 3 ++ (Bytes.littleEndian 2 (0xffff - 3) ++ [97, 98, 99])).flatMap Deflate.bitsOf ++ [])) := by
    decide
  rw [Deflate.Encodes, hbits]
  exact hblocks

/-- Three bytes come back from a stored block under a limit of three, and are too large under a limit of two. -/
theorem Compressor.gzip_round_trip_stored : ∃ member, Gzip.Member [97, 98, 99] member ∧
    Compressor.gzip.decompress 3 member = .ok (.ok [97, 98, 99]) ∧
    Compressor.gzip.decompress 2 member = .ok (.error (.decompressedTooLarge 2)) := by
  have horigin : (List.replicate 6 (0 : UInt8)).length = 6 := rfl
  have hmember : Gzip.Member [97, 98, 99] _ := .intro horigin encodes_storedBlock
  exact ⟨_, hmember, (gzip_round_trip (by decide) [97, 98, 99]).2 _ hmember,
    (gzip_round_trip (by decide) [97, 98, 99]).2 _ hmember⟩

end Rpc
