import TemplateCache.Bytes.Basic

/-!
# XXH3, 128 bits

The unseeded 128-bit XXH3 hash of a byte string. The input length picks one of seven routines:
nothing, 1 to 3 bytes, 4 to 8, 9 to 16, 17 to 128, 129 to 240, and everything longer, which is
read in stripes of 64 bytes and blocks of sixteen stripes. All arithmetic is on 64-bit words
that wrap; the only wider step is the full product of two words.

Nothing else in the library looks inside: a digest is sixteen bytes that the input determines.
-/

namespace TemplateCache.Xxh3

/-! ## Constants -/

def prime32a : UInt64 := 0x9E3779B1
def prime32b : UInt64 := 0x85EBCA77
def prime32c : UInt64 := 0xC2B2AE3D
def prime64a : UInt64 := 0x9E3779B185EBCA87
def prime64b : UInt64 := 0xC2B2AE3D27D4EB4F
def prime64c : UInt64 := 0x165667B19E3779F9
def prime64d : UInt64 := 0x85EBCA77C2B2AE63
def prime64e : UInt64 := 0x27D4EB2F165667C5
def mixPrime : UInt64 := 0x165667919E3779F9
def shortPrime : UInt64 := 0x9FB21C651E98DF25

/-- The default key material, 192 bytes. -/
def secret : ByteArray := ⟨#[
  0xb8, 0xfe, 0x6c, 0x39, 0x23, 0xa4, 0x4b, 0xbe, 0x7c, 0x01, 0x81, 0x2c, 0xf7, 0x21, 0xad, 0x1c,
  0xde, 0xd4, 0x6d, 0xe9, 0x83, 0x90, 0x97, 0xdb, 0x72, 0x40, 0xa4, 0xa4, 0xb7, 0xb3, 0x67, 0x1f,
  0xcb, 0x79, 0xe6, 0x4e, 0xcc, 0xc0, 0xe5, 0x78, 0x82, 0x5a, 0xd0, 0x7d, 0xcc, 0xff, 0x72, 0x21,
  0xb8, 0x08, 0x46, 0x74, 0xf7, 0x43, 0x24, 0x8e, 0xe0, 0x35, 0x90, 0xe6, 0x81, 0x3a, 0x26, 0x4c,
  0x3c, 0x28, 0x52, 0xbb, 0x91, 0xc3, 0x00, 0xcb, 0x88, 0xd0, 0x65, 0x8b, 0x1b, 0x53, 0x2e, 0xa3,
  0x71, 0x64, 0x48, 0x97, 0xa2, 0x0d, 0xf9, 0x4e, 0x38, 0x19, 0xef, 0x46, 0xa9, 0xde, 0xac, 0xd8,
  0xa8, 0xfa, 0x76, 0x3f, 0xe3, 0x9c, 0x34, 0x3f, 0xf9, 0xdc, 0xbb, 0xc7, 0xc7, 0x0b, 0x4f, 0x1d,
  0x8a, 0x51, 0xe0, 0x4b, 0xcd, 0xb4, 0x59, 0x31, 0xc8, 0x9f, 0x7e, 0xc9, 0xd9, 0x78, 0x73, 0x64,
  0xea, 0xc5, 0xac, 0x83, 0x34, 0xd3, 0xeb, 0xc3, 0xc5, 0x81, 0xa0, 0xff, 0xfa, 0x13, 0x63, 0xeb,
  0x17, 0x0d, 0xdd, 0x51, 0xb7, 0xf0, 0xda, 0x49, 0xd3, 0x16, 0x55, 0x26, 0x29, 0xd4, 0x68, 0x9e,
  0x2b, 0x16, 0xbe, 0x58, 0x7d, 0x47, 0xa1, 0xfc, 0x8f, 0xf8, 0xb8, 0xd1, 0x7a, 0xd0, 0x31, 0xce,
  0x45, 0xcb, 0x3a, 0x8f, 0x95, 0x16, 0x04, 0x28, 0xaf, 0xd7, 0xfb, 0xca, 0xbb, 0x4b, 0x40, 0x7e]⟩

/-! ## Words -/

/-- The byte at an offset; past the end it is zero. -/
def byteAt (data : ByteArray) (i : Nat) : UInt64 :=
  if h : i < data.size then data[i].toUInt64 else 0

/-- Four bytes as a number, least significant first. -/
def word32 (data : ByteArray) (i : Nat) : UInt64 :=
  byteAt data i ||| (byteAt data (i + 1) <<< 8) ||| (byteAt data (i + 2) <<< 16)
    ||| (byteAt data (i + 3) <<< 24)

/-- Eight bytes as a number, least significant first. -/
def word64 (data : ByteArray) (i : Nat) : UInt64 :=
  word32 data i ||| (word32 data (i + 4) <<< 32)

/-- Eight bytes of the key material. -/
def key (i : Nat) : UInt64 := word64 secret i

/-- The lowest byte of a word. -/
def lowByte (w : UInt64) : UInt64 := w % 256

/-- The low half of a word. -/
def lowHalf (w : UInt64) : UInt64 := w % 4294967296

/-- The low 32 bits of a word with their bytes reversed. -/
def swap32 (w : UInt64) : UInt64 :=
  (lowByte w <<< 24) ||| (lowByte (w >>> 8) <<< 16) ||| (lowByte (w >>> 16) <<< 8)
    ||| lowByte (w >>> 24)

/-- A word with its bytes reversed. -/
def swap64 (w : UInt64) : UInt64 := (swap32 w <<< 32) ||| swap32 (w >>> 32)

/-- The low 32 bits of a word turned left within 32 bits. -/
def rotate32 (w : UInt64) (count : UInt64) : UInt64 :=
  lowHalf ((w <<< count) ||| (w >>> (32 - count)))

/-- A word mixed with itself shifted right. -/
def xorShift (w : UInt64) (count : UInt64) : UInt64 := w ^^^ (w >>> count)

/-- Two words: a digest, or a running pair of sums. -/
structure Pair where
  low : UInt64
  high : UInt64
  deriving DecidableEq, Repr

/-- The full product of two words. -/
def product (a b : UInt64) : Pair :=
  let p := a.toNat * b.toNat
  ⟨UInt64.ofNat p, UInt64.ofNat (p >>> 64)⟩

/-- The two halves of the full product, folded into one word. -/
def folded (a b : UInt64) : UInt64 :=
  let p := product a b
  p.low ^^^ p.high

/-! ## Final mixing -/

def avalanche (w : UInt64) : UInt64 := xorShift (xorShift w 37 * mixPrime) 32

def avalanche64 (w : UInt64) : UInt64 :=
  xorShift (xorShift (xorShift w 33 * prime64b) 29 * prime64c) 32

/-! ## Up to sixteen bytes -/

def hashEmpty : Pair :=
  ⟨avalanche64 (key 64 ^^^ key 72), avalanche64 (key 80 ^^^ key 88)⟩

def hash1to3 (data : ByteArray) : Pair :=
  let n := data.size
  let first := byteAt data 0
  let middle := byteAt data (n / 2)
  let last := byteAt data (n - 1)
  let low := (first <<< 16) ||| (middle <<< 24) ||| last ||| (UInt64.ofNat n <<< 8)
  let high := rotate32 (swap32 low) 13
  ⟨avalanche64 (low ^^^ (word32 secret 0 ^^^ word32 secret 4)),
   avalanche64 (high ^^^ (word32 secret 8 ^^^ word32 secret 12))⟩

def hash4to8 (data : ByteArray) : Pair :=
  let n := data.size
  let input := word32 data 0 + (word32 data (n - 4) <<< 32)
  let m := product (input ^^^ (key 16 ^^^ key 24)) (prime64a + (UInt64.ofNat n <<< 2))
  let high := m.high + (m.low <<< 1)
  let low := m.low ^^^ (high >>> 3)
  ⟨xorShift (xorShift low 35 * shortPrime) 28, avalanche high⟩

def hash9to16 (data : ByteArray) : Pair :=
  let n := data.size
  let inputLow := word64 data 0
  let inputHigh := word64 data (n - 8)
  let m := product (inputLow ^^^ inputHigh ^^^ (key 32 ^^^ key 40)) prime64a
  let low := m.low + (UInt64.ofNat (n - 1) <<< 54)
  let keyed := inputHigh ^^^ (key 48 ^^^ key 56)
  let high := m.high + keyed + lowHalf keyed * (prime32b - 1)
  let h := product (low ^^^ swap64 high) prime64b
  ⟨avalanche h.low, avalanche (h.high + high * prime64b)⟩

/-! ## Up to 240 bytes -/

/-- Sixteen bytes of input folded with sixteen bytes of key. -/
def mix16 (data : ByteArray) (i k : Nat) : UInt64 :=
  folded (word64 data i ^^^ key k) (word64 data (i + 8) ^^^ key (k + 8))

/-- Two pieces of sixteen bytes worked into the running sums, each into both. -/
def mix32 (data : ByteArray) (sums : Pair) (i j k : Nat) : Pair :=
  ⟨(sums.low + mix16 data i k) ^^^ (word64 data j + word64 data (j + 8)),
   (sums.high + mix16 data j (k + 16)) ^^^ (word64 data i + word64 data (i + 8))⟩

/-- The running sums of a middle-sized input turned into its digest. -/
def finish (n : Nat) (sums : Pair) : Pair :=
  ⟨avalanche (sums.low + sums.high),
   0 - avalanche (sums.low * prime64a + sums.high * prime64d + UInt64.ofNat n * prime64b)⟩

/-- Pairs of pieces are taken from both ends towards the middle, the middle ones first. -/
def hash17to128 (data : ByteArray) : Pair :=
  let n := data.size
  let rounds := (n - 1) / 32
  let sums := (List.range (rounds + 1)).reverse.foldl
    (fun sums r => mix32 data sums (16 * r) (n - 16 * (r + 1)) (32 * r))
    ⟨UInt64.ofNat n * prime64a, 0⟩
  finish n sums

def hash129to240 (data : ByteArray) : Pair :=
  let n := data.size
  let start := (List.range 4).foldl
    (fun sums r => mix32 data sums (32 * r) (32 * r + 16) (32 * r))
    ⟨UInt64.ofNat n * prime64a, 0⟩
  let sums := (List.range (n / 32 - 4)).foldl
    (fun sums r => mix32 data sums (32 * (r + 4)) (32 * (r + 4) + 16) (32 * r + 3))
    ⟨avalanche start.low, avalanche start.high⟩
  finish n (mix32 data sums (n - 16) (n - 32) 103)

/-! ## Longer inputs -/

/-- Eight running sums, one for each word of a stripe. -/
abbrev Lanes := Vector UInt64 8

def Lanes.start : Lanes :=
  #v[prime32c, prime64a, prime64b, prime64c, prime64d, prime32b, prime64e, prime32a]

/-- One stripe of 64 bytes: each word is added to its neighbour's lane, and the product of its
keyed halves to its own. -/
def Lanes.accumulate (lanes : Lanes) (data : ByteArray) (i k : Nat) : Lanes :=
  Vector.ofFn fun lane =>
    let keyed := word64 data (i + 8 * lane.val) ^^^ key (k + 8 * lane.val)
    let neighbour := lane.val + 1 - 2 * (lane.val % 2)
    lanes[lane] + word64 data (i + 8 * neighbour)
      + lowHalf keyed * (keyed >>> 32)

/-- The end of a block: every lane is keyed and spread. -/
def Lanes.scramble (lanes : Lanes) : Lanes :=
  Vector.ofFn fun lane =>
    (xorShift lanes[lane] 47 ^^^ key (128 + 8 * lane.val)) * prime32a

/-- A number of stripes one after another, from an offset in the input. -/
def Lanes.stripes (lanes : Lanes) (data : ByteArray) (i count : Nat) : Lanes :=
  (List.range count).foldl (fun lanes s => lanes.accumulate data (i + 64 * s) (8 * s)) lanes

/-- The lanes folded into one word, two at a time. -/
def Lanes.merge (lanes : Lanes) (k : Nat) (start : UInt64) : UInt64 :=
  avalanche (start
    + folded (lanes[0] ^^^ key k) (lanes[1] ^^^ key (k + 8))
    + folded (lanes[2] ^^^ key (k + 16)) (lanes[3] ^^^ key (k + 24))
    + folded (lanes[4] ^^^ key (k + 32)) (lanes[5] ^^^ key (k + 40))
    + folded (lanes[6] ^^^ key (k + 48)) (lanes[7] ^^^ key (k + 56)))

def hashLong (data : ByteArray) : Pair :=
  let n := data.size
  let blocks := (n - 1) / 1024
  let whole := (List.range blocks).foldl
    (fun lanes b => (lanes.stripes data (1024 * b) 16).scramble) Lanes.start
  let rest := whole.stripes data (1024 * blocks) ((n - 1 - 1024 * blocks) / 64)
  let lanes := rest.accumulate data (n - 64) 121
  ⟨lanes.merge 11 (UInt64.ofNat n * prime64a),
   lanes.merge 117 (0 - 1 - UInt64.ofNat n * prime64b)⟩

/-- The digest of an input, by the routine for its length. -/
def hash (data : ByteArray) : Pair :=
  let n := data.size
  if n = 0 then hashEmpty
  else if n ≤ 3 then hash1to3 data
  else if n ≤ 8 then hash4to8 data
  else if n ≤ 16 then hash9to16 data
  else if n ≤ 128 then hash17to128 data
  else if n ≤ 240 then hash129to240 data
  else hashLong data

end TemplateCache.Xxh3
