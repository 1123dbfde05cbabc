import Rpc.Proofs.Deflate.Gzip

/-!
# The limit on decompression

Decompression gives the content of the first member if and only if that is within the limit, and says that it is too
large only if there is more of it.

- `Gzip.of_decompressBelow_ok`, `Gzip.of_decompressBelow_tooLarge`: whatever the bytes are, what comes of them is the
  content of the first member, or it goes beyond the limit (`Gzip.Exceeds`);
- `Gzip.First.eq`: the first member has one content;
- `Compressor.gzip_limit_exact`: so the limit is exact, for every limit but the last number of 64 bits;
- `Gzip.decompress_last`, `Compressor.gzip_last_limit_panics`: under that one the program ends, whatever the bytes are,
  also for content that is within the limit.
-/

namespace Rpc

namespace Gzip

variable {limit : Nat} {content out bs : Bytes}

/-- The first member has more content than the limit, as far as it goes. -/
def Exceeds (limit : Nat) (bs : Bytes) : Prop :=
  ∃ rest content, dropHeader bs = some rest ∧ Deflate.UnfoldsSoFar rest content ∧ limit < content.length

/-- An answer for some bytes under a limit: the content of their first member within the limit, or that there is more. -/
def Answers (limit : Nat) (bs : Bytes) : Except Fault Bytes → Prop
  | .ok out => First out bs ∧ out.length ≤ limit
  | .error .tooLarge => Exceeds limit bs
  | .error .corrupt => True

/-- **What is answered is so,** whatever the bytes are. -/
theorem answers_decompressBelow (limit : Nat) (bs : Bytes) : Answers limit bs (decompressBelow (limit + 1) bs) := by
  unfold decompressBelow
  split
  · trivial
  next rest hheader =>
  rw [Nat.add_sub_cancel]
  dsimp only
  split
  · next hfull =>
    obtain ⟨content, hsoFar, hcap⟩ := Deflate.of_inflate_full hfull
    exact ⟨rest, content, hheader, hsoFar, (lt_window_mul limit).trans hcap⟩
  · trivial
  · next after hstarved =>
    split
    · next hover => exact ⟨rest, after.toList, hheader, Deflate.of_inflate_starved hstarved, hover⟩
    · trivial
  next after tail hdone =>
  obtain ⟨compressed, hunfolds, rfl⟩ := Deflate.of_inflate_done hdone
  split
  · next hover => exact ⟨_, after.toList, hheader, hunfolds.soFar tail, hover⟩
  next hwithin =>
  split
  · next htrailer =>
    refine ⟨⟨compressed, tail.drop 8, hunfolds, ?_⟩, Nat.le_of_lt_succ (Nat.lt_of_not_le hwithin)⟩
    rw [hheader, Array.length_toList, ← htrailer, List.take_append_drop]
  · trivial

/-- The first member has one content. -/
theorem First.eq (h : First content bs) (hout : First out bs) : content = out := by
  have hcontent := decompressBelow_of_first h (max content.length out.length)
  rw [if_pos (Nat.le_max_left _ _), decompressBelow_of_first hout, if_pos (Nat.le_max_right _ _)] at hcontent
  exact (Except.ok.inj hcontent).symm

theorem decompressBelow_eq_ok_iff :
    decompressBelow (limit + 1) bs = .ok out ↔ First out bs ∧ out.length ≤ limit := by
  refine ⟨fun h => ?_, fun ⟨hfirst, hwithin⟩ => ?_⟩
  · have hanswer := answers_decompressBelow limit bs
    rwa [h] at hanswer
  · rw [decompressBelow_of_first hfirst, if_pos hwithin]

/-- Under the last number of 64 bits there is no bound on the content. -/
theorem decompress_last (bs : Bytes) : decompress (2 ^ 64 - 1) bs = .error .overflow := rfl

end Gzip

theorem Compressor.gzip_eq_ok_iff {limit : Nat} (hlimit : limit + 1 < 2 ^ 64) {bs out : Bytes} :
    Compressor.gzip.decompress limit bs = .ok (.ok out) ↔ Gzip.decompressBelow (limit + 1) bs = .ok out := by
  rw [gzip_decompress_eq hlimit]
  cases Gzip.decompressBelow (limit + 1) bs with
  | ok content => simp [Except.mapError]
  | error fault => simp [Except.mapError]

theorem Compressor.gzip_eq_tooLarge_iff {limit : Nat} (hlimit : limit + 1 < 2 ^ 64) {most : Nat} {bs : Bytes} :
    Compressor.gzip.decompress limit bs = .ok (.error (.decompressedTooLarge most)) ↔
      most = limit ∧ Gzip.decompressBelow (limit + 1) bs = .error .tooLarge := by
  rw [gzip_decompress_eq hlimit]
  cases Gzip.decompressBelow (limit + 1) bs with
  | ok content => simp [Except.mapError]
  | error fault => cases fault <;> simp [Except.mapError, CodecError.ofGzip, eq_comm]

/-- **The limit on decompression is exact,** for every limit but the last number of 64 bits. The program goes on, and the
bound on what is read is one more than the limit. What some bytes give is the content of their first member, within the
limit, and such a content is given. They are too large only if the member goes beyond the limit as far as it can be
read, so that any content of it is longer than the limit, and they are too large if it has a content that is. -/
theorem Compressor.gzip_limit_exact {limit : Nat} (hlimit : limit < 2 ^ 64 - 1) (bs : Bytes) :
    Compressor.gzip.decompress limit bs = .ok ((Gzip.decompressBelow (limit + 1) bs).mapError (.ofGzip limit)) ∧
    (∀ out, Compressor.gzip.decompress limit bs = .ok (.ok out) ↔ Gzip.First out bs ∧ out.length ≤ limit) ∧
    (∀ most, Compressor.gzip.decompress limit bs = .ok (.error (.decompressedTooLarge most)) →
      most = limit ∧ Gzip.Exceeds limit bs ∧ ∀ content, Gzip.First content bs → limit < content.length) ∧
    ∀ content, Gzip.First content bs → limit < content.length →
      Compressor.gzip.decompress limit bs = .ok (.error (.decompressedTooLarge limit)) := by
  have hbound : limit + 1 < 2 ^ 64 := by omega
  refine ⟨gzip_decompress_eq hbound bs, fun out => ?_, fun most htoo => ?_, fun content hfirst hlong => ?_⟩
  · rw [gzip_eq_ok_iff hbound, Gzip.decompressBelow_eq_ok_iff]
  · obtain ⟨rfl, htoo⟩ := (gzip_eq_tooLarge_iff hbound).mp htoo
    have hanswer := Gzip.answers_decompressBelow most bs
    rw [htoo] at hanswer
    refine ⟨rfl, hanswer, fun content hfirst => Nat.lt_of_not_le fun hwithin => ?_⟩
    rw [Gzip.decompressBelow_of_first hfirst, if_pos hwithin] at htoo
    cases htoo
  · rw [gzip_eq_tooLarge_iff hbound, Gzip.decompressBelow_of_first hfirst, if_neg (Nat.not_le.mpr hlong)]
    exact ⟨rfl, rfl⟩

/-- Three bytes in a member with a stored block. -/
def storedMember : Bytes :=
  [0x1f, 0x8b, 0x08, 0, 0, 0, 0, 0, 0, 0] ++ (storedBlock ++ [0xc2, 0x41, 0x24, 0x35, 3, 0, 0, 0])

theorem first_storedMember : Gzip.First [97, 98, 99] storedMember := by
  have horigin : (List.replicate 6 (0 : UInt8)).length = 6 := rfl
  have hmember := Gzip.Member.intro horigin encodes_storedBlock
  have hchecksum : crc32 [97, 98, 99] = 0x352441c2 := by decide +kernel
  rw [hchecksum] at hmember
  exact hmember.first

/-- Three bytes are within a limit of three and go beyond a limit of two. -/
theorem Compressor.gzip_limit_exact_stored :
    Compressor.gzip.decompress 3 storedMember = .ok (.ok [97, 98, 99]) ∧
    Compressor.gzip.decompress 2 storedMember = .ok (.error (.decompressedTooLarge 2)) :=
  ⟨((gzip_limit_exact (by decide) storedMember).2.1 _).mpr ⟨first_storedMember, by decide⟩,
    (gzip_limit_exact (by decide) storedMember).2.2.2 _ first_storedMember (by decide)⟩

/-- **Under the last number of 64 bits the program ends,** also for a member whose three bytes are within the limit. -/
theorem Compressor.gzip_last_limit_panics :
    Gzip.First [97, 98, 99] storedMember ∧ ([97, 98, 99] : Bytes).length ≤ 2 ^ 64 - 1 ∧
    Compressor.gzip.decompress (2 ^ 64 - 1) storedMember = .error .overflow := by
  refine ⟨first_storedMember, by decide, ?_⟩
  simp only [Compressor.gzip, Gzip.decompress_last]
  rfl

end Rpc
