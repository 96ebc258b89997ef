import ObjectModel.Word

/-!
# Digests

A digest is a word that a list of words determines. Words are absorbed one by one, and the last step
rotates the digest, so that a digest inside another one does not merge with what surrounds it. Bytes
are first compressed into one word, by products that depend on every byte.

Equal lists have equal digests; digests serve to index and to tell most lists apart, and never
decide that two things are equal.
-/

namespace ObjectModel
namespace Digest

/-- What a list of words describes, so that equal words of different origin have other digests. -/
inductive Domain where
  | none
  | number
  | complex
  | text
  | bytes
  | tuple
  | frozenset
  | function
  | identity
  deriving DecidableEq, Repr

/-- The word that stands for a domain. -/
def Domain.word : Domain → UInt64
  | none => 0
  | number => 1
  | complex => 2
  | text => 3
  | bytes => 4
  | tuple => 5
  | frozenset => 6
  | function => 7
  | identity => 8

/-- An odd word, so that multiplication by it loses nothing. -/
def multiplier : UInt64 := 0xf1357aea2e62a9c5

/-- The digest after one more word. -/
def mix (digest word : UInt64) : UInt64 :=
  (digest + word) * multiplier

/-- The word with its bits moved up by twenty-six places, and those that fall out put below. -/
def rotate (word : UInt64) : UInt64 :=
  word <<< 26 ||| word >>> 38

/-- The digest of a domain and a list of words. The domain `none` and no words have digest 0. -/
def tagged (domain : Domain) (words : List UInt64) : UInt64 :=
  rotate (words.foldl mix (mix 0 domain.word))

/-- The word with the given bytes, least significant first. -/
def wordOfBytes (bytes : List UInt8) : UInt64 :=
  bytes.foldr (fun byte word => word * 256 + byte.toUInt64) 0

/-- The two halves of the product of two words, combined by exclusive or. -/
def foldedProduct (x y : UInt64) : UInt64 :=
  let product := x.toNat * y.toNat
  UInt64.ofNat product ^^^ UInt64.ofNat (product >>> 64)

/-- Where the compression of bytes begins. -/
def initialState : UInt64 × UInt64 :=
  (0x243f6a8885a308d3, 0x13198a2e03707344)

/-- Keeps a block of zeros from turning the product into zero. -/
def blockSalt : UInt64 := 0xa4093822299f31d0

/-- The state after some blocks of sixteen bytes. -/
def absorbBlocks : Nat → UInt64 × UInt64 → List UInt8 → UInt64 × UInt64
  | 0, state, _ => state
  | count + 1, (first, second), bytes =>
    let low := wordOfBytes (bytes.take 8)
    let high := wordOfBytes ((bytes.drop 8).take 8)
    absorbBlocks count (second, foldedProduct (first ^^^ low) (blockSalt ^^^ high)) (bytes.drop 16)

/-- Two words with the last sixteen bytes. If there are fewer, the words overlap; if there are fewer
than four, the words are the first byte, and the middle byte with the last one. -/
def lastWords (bytes : List UInt8) : UInt64 × UInt64 :=
  let length := bytes.length
  if 8 ≤ length then
    (wordOfBytes ((bytes.drop (length - 16)).take 8), wordOfBytes (bytes.drop (length - 8)))
  else if 4 ≤ length then
    (wordOfBytes (bytes.take 4), wordOfBytes (bytes.drop (length - 4)))
  else
    (wordOfBytes (bytes.take 1),
      wordOfBytes ((bytes.drop (length / 2)).take 1 ++ bytes.drop (length - 1)))

/-- The word that bytes are compressed into. All blocks but the last are absorbed, and then the last
sixteen bytes. -/
def compress (bytes : List UInt8) : UInt64 :=
  let (first, second) := absorbBlocks ((bytes.length - 1) / 16) initialState bytes
  let (low, high) := lastWords bytes
  foldedProduct (first ^^^ low) (second ^^^ high) ^^^ UInt64.ofNat bytes.length

/-- The words of a string of bytes: its length, and what it is compressed into. -/
def wordsOfBytes (bytes : List UInt8) : List UInt64 :=
  [UInt64.ofNat bytes.length, compress bytes]

/-- The words of a text: what its encoding is compressed into, and a byte that no encoding has. -/
def wordsOfText (text : String) : List UInt64 :=
  [compress (text.toList.flatMap String.utf8EncodeChar), 0xff]

/-- The words of an integer: one if it fits, and otherwise those of its shortest form in two's
complement. -/
def wordsOfInt (n : Int) : List UInt64 :=
  if Word.fits n then [Word.ofInt n] else wordsOfBytes (Word.signedBytes n)

end Digest
end ObjectModel
