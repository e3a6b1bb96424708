import Mathlib.Data.Int.Notation
import SpresenseOpus.Library.Records
import SpresenseOpus.Library.Words

/-!
# The two header packets

`OpusOggHeader` and `OpusOggCommentHeader` of `encoderPoc_ogg.cpp` are packed structures whose
memory is handed to oggz as it is. `bytes` is that memory on the targets, which are little-endian.
`parseOpusHead` and `parseOpusTags` read the packets as RFC 7845 lays them out.

The vendor field of the comment header is eight bytes long while the declared length is three. A
reader takes the fourth to seventh of these bytes, which are zero, as the number of comments, and
finds five more bytes behind it, which the RFC lets it ignore (`parseOpusTags_commentHeader`).
-/

namespace SpresenseOpus

open Records Words

/-- The bytes of ASCII characters. -/
def ascii (cs : List Char) : List UInt8 := cs.map fun c => UInt8.ofNat c.toNat

/-- The signature of the identification header. -/
def opusHeadSignature : List UInt8 := ascii ['O', 'p', 'u', 's', 'H', 'e', 'a', 'd']

/-- The signature of the comment header. -/
def opusTagsSignature : List UInt8 := ascii ['O', 'p', 'u', 's', 'T', 'a', 'g', 's']

/-- `OpusOggHeader`, with its initial values. -/
structure OpusOggHeader where
  signature : List UInt8 := opusHeadSignature
  version : UInt8 := 1
  channelCount : UInt8 := 1
  preSkip : UInt16 := 0
  sampleRate : UInt32 := 48000
  outputGain : Int16 := 0
  channelMappingFamily : UInt8 := 0

/-- The memory of the packed header. -/
def OpusOggHeader.bytes (header : OpusOggHeader) : List UInt8 :=
  header.signature ++ [header.version] ++ [header.channelCount] ++
    toBytesLE 2 header.preSkip.toNat ++ toBytesLE 4 header.sampleRate.toNat ++
    toBytesLE 2 header.outputGain.toUInt16.toNat ++ [header.channelMappingFamily]

/-- `OpusOggCommentHeader`, with its initial values: the vendor string literal fills its eight
characters up with zeros. -/
structure OpusOggCommentHeader where
  signature : List UInt8 := opusTagsSignature
  vendorStringLength : UInt32 := 3
  vendor : List UInt8 := ascii ['A', 'B', 'C'] ++ List.replicate 5 0
  userCommentListLength : UInt32 := 0

/-- The memory of the packed comment header. -/
def OpusOggCommentHeader.bytes (comment : OpusOggCommentHeader) : List UInt8 :=
  comment.signature ++ toBytesLE 4 comment.vendorStringLength.toNat ++ comment.vendor ++
    toBytesLE 4 comment.userCommentListLength.toNat

/-! ## Reading the headers back -/

/-- An unsigned little-endian number of `k` bytes at the front of a packet, and what follows. -/
def readLE (k : ℕ) (bs : List UInt8) : Option (ℕ × List UInt8) :=
  (readN k bs).map fun r => (ofBytesLE r.1, r.2)

/-- A number that fits is read back. -/
theorem readLE_append {k n : ℕ} (rest : List UInt8) (h : n < 256^k) :
    readLE k (toBytesLE k n ++ rest) = some (n, rest) := by
  rw [readLE, readN_append rest (length_toBytesLE k n), Option.map_some,
    ofBytesLE_toBytesLE_of_lt h]

/-- A byte is read back. -/
theorem readLE_one_cons (b : UInt8) (rest : List UInt8) :
    readLE 1 (b :: rest) = some (b.toNat, rest) := by
  simp [readLE, readN, ofBytesLE]

/-- The fields of an identification header (RFC 7845, section 5.1). -/
structure OpusHead where
  version : ℕ
  channelCount : ℕ
  preSkip : ℕ
  inputSampleRate : ℕ
  outputGain : ℤ
  mappingFamily : ℕ
  /-- The channel mapping table, which mapping family zero does not have. -/
  mappingTable : List UInt8
  deriving DecidableEq, Repr

/-- The identification header that a packet holds. With mapping family zero nothing may follow the
fields. -/
def parseOpusHead (packet : List UInt8) : Option OpusHead := do
  let (signature, bs) ← readN 8 packet
  guard (signature = opusHeadSignature)
  let (version, bs) ← readLE 1 bs
  let (channelCount, bs) ← readLE 1 bs
  let (preSkip, bs) ← readLE 2 bs
  let (inputSampleRate, bs) ← readLE 4 bs
  let (outputGain, bs) ← readLE 2 bs
  let (mappingFamily, bs) ← readLE 1 bs
  guard (mappingFamily = 0 → bs = [])
  return {
    version, channelCount, preSkip, inputSampleRate,
    outputGain := (UInt16.ofNat outputGain).toInt16.toInt,
    mappingFamily, mappingTable := bs }

/-- The user comments of a comment header, `count` of them, and what follows. -/
def readComments : ℕ → List UInt8 → Option (List (List UInt8) × List UInt8)
  | 0, bs => some ([], bs)
  | count + 1, bs => do
    let (length, bs) ← readLE 4 bs
    let (comment, bs) ← readN length bs
    let (comments, bs) ← readComments count bs
    return (comment :: comments, bs)

/-- The contents of a comment header (RFC 7845, section 5.2). -/
structure OpusTags where
  vendor : List UInt8
  comments : List (List UInt8)
  deriving DecidableEq, Repr

/-- The comment header that a packet holds. What follows the comments is ignored. -/
def parseOpusTags (packet : List UInt8) : Option OpusTags := do
  let (signature, bs) ← readN 8 packet
  guard (signature = opusTagsSignature)
  let (length, bs) ← readLE 4 bs
  let (vendor, bs) ← readN length bs
  let (count, bs) ← readLE 4 bs
  let (comments, _) ← readComments count bs
  return { vendor, comments }

/-- The packed header is 19 bytes long. -/
theorem OpusOggHeader.length_bytes (header : OpusOggHeader)
    (hsig : header.signature = opusHeadSignature) : header.bytes.length = 19 := by
  simp [OpusOggHeader.bytes, hsig, opusHeadSignature, ascii]

/-- A packed header with the Opus signature and mapping family zero is read back field by field. -/
theorem parseOpusHead_bytes (header : OpusOggHeader)
    (hsig : header.signature = opusHeadSignature) (hfam : header.channelMappingFamily = 0) :
    parseOpusHead header.bytes = some {
      version := header.version.toNat
      channelCount := header.channelCount.toNat
      preSkip := header.preSkip.toNat
      inputSampleRate := header.sampleRate.toNat
      outputGain := header.outputGain.toInt
      mappingFamily := 0
      mappingTable := [] } := by
  have hlen : opusHeadSignature.length = 8 := rfl
  have hpre : header.preSkip.toNat < 256^2 := header.preSkip.toNat_lt
  have hrate : header.sampleRate.toNat < 256^4 := header.sampleRate.toNat_lt
  have hgain : header.outputGain.toUInt16.toNat < 256^2 := header.outputGain.toUInt16.toNat_lt
  -- The gain is signed: its two bytes are its two's complement.
  have hback : (header.outputGain.toUInt16.toNat : ℤ).bmod Int16.size =
      header.outputGain.toInt := by
    rw [← Int16.toInt_ofNat', ← UInt16.toInt16_ofNat', UInt16.ofNat_toNat,
      Int16.toInt16_toUInt16]
  -- The parser takes the fields off the front one by one.
  simp only [OpusOggHeader.bytes, hsig, hfam, List.append_assoc, parseOpusHead]
  rw [readN_append _ hlen]
  simp [readLE_one_cons, readLE_append _ hpre, readLE_append _ hrate, readLE_append _ hgain,
    hback]

/-- The comment header is read as the vendor string with no comments: the count of comments that a
reader finds is the zero padding of the vendor field. -/
theorem parseOpusTags_commentHeader :
    parseOpusTags ({} : OpusOggCommentHeader).bytes =
      some { vendor := ascii ['A', 'B', 'C'], comments := [] } := by
  decide +kernel

end SpresenseOpus
