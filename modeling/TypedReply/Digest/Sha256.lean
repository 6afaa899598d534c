/-!
# SHA-256

The 256-bit secure hash of a sequence of bytes: the message is padded to blocks of sixteen words,
each block is expanded to sixty-four words, and each of these transforms the eight words of the
state.
-/

namespace TypedReply.Sha256

/-- The round constants. -/
def roundConstants : List UInt32 :=
  [0x428A2F98, 0x71374491, 0xB5C0FBCF, 0xE9B5DBA5, 0x3956C25B, 0x59F111F1, 0x923F82A4,
   0xAB1C5ED5, 0xD807AA98, 0x12835B01, 0x243185BE, 0x550C7DC3, 0x72BE5D74, 0x80DEB1FE,
   0x9BDC06A7, 0xC19BF174, 0xE49B69C1, 0xEFBE4786, 0x0FC19DC6, 0x240CA1CC, 0x2DE92C6F,
   0x4A7484AA, 0x5CB0A9DC, 0x76F988DA, 0x983E5152, 0xA831C66D, 0xB00327C8, 0xBF597FC7,
   0xC6E00BF3, 0xD5A79147, 0x06CA6351, 0x14292967, 0x27B70A85, 0x2E1B2138, 0x4D2C6DFC,
   0x53380D13, 0x650A7354, 0x766A0ABB, 0x81C2C92E, 0x92722C85, 0xA2BFE8A1, 0xA81A664B,
   0xC24B8B70, 0xC76C51A3, 0xD192E819, 0xD6990624, 0xF40E3585, 0x106AA070, 0x19A4C116,
   0x1E376C08, 0x2748774C, 0x34B0BCB5, 0x391C0CB3, 0x4ED8AA4A, 0x5B9CCA4F, 0x682E6FF3,
   0x748F82EE, 0x78A5636F, 0x84C87814, 0x8CC70208, 0x90BEFFFA, 0xA4506CEB, 0xBEF9A3F7,
   0xC67178F2]

/-- The words of the initial state. -/
def initialState : List UInt32 :=
  [0x6A09E667, 0xBB67AE85, 0x3C6EF372, 0xA54FF53A, 0x510E527F, 0x9B05688C, 0x1F83D9AB,
   0x5BE0CD19]

def rotate (word : UInt32) (amount : UInt32) : UInt32 :=
  (word >>> amount) ||| (word <<< (32 - amount))

/-- The big-endian bytes of a number of `width` bytes. -/
def bigEndian : Nat → Nat → List UInt8
  | 0, _ => []
  | width + 1, n => bigEndian width (n / 256) ++ [UInt8.ofNat (n % 256)]

/-- The message followed by a one bit, zeros and its length in bits, filling whole blocks. -/
def padded (message : List UInt8) : List UInt8 :=
  let gap := (119 - message.length % 64) % 64
  message ++ 0x80 :: (List.replicate gap 0 ++ bigEndian 8 (message.length * 8))

/-- The big-endian words of a sequence of bytes. -/
def wordsOf : List UInt8 → List UInt32
  | a :: b :: c :: d :: rest =>
    ((a.toUInt32 <<< 24) ||| (b.toUInt32 <<< 16) ||| (c.toUInt32 <<< 8) ||| d.toUInt32) ::
      wordsOf rest
  | _ => []

/-- One more word of an expanded block, from the latest sixteen, newest first. -/
def nextWord (latest : List UInt32) : UInt32 :=
  let word (back : Nat) : UInt32 := latest.getD (back - 1) 0
  let s0 := rotate (word 15) 7 ^^^ rotate (word 15) 18 ^^^ (word 15 >>> 3)
  let s1 := rotate (word 2) 17 ^^^ rotate (word 2) 19 ^^^ (word 2 >>> 10)
  word 16 + s0 + word 7 + s1

/-- A block expanded by `count` words, newest first. -/
def expand : Nat → List UInt32 → List UInt32
  | 0, words => words
  | count + 1, words => expand count (nextWord words :: words)

/-- One round: the state after a word and its constant. -/
def round (state : List UInt32) (word constant : UInt32) : List UInt32 :=
  match state with
  | [a, b, c, d, e, f, g, h] =>
    let s1 := rotate e 6 ^^^ rotate e 11 ^^^ rotate e 25
    let choice := (e &&& f) ^^^ (~~~e &&& g)
    let t1 := h + s1 + choice + constant + word
    let s0 := rotate a 2 ^^^ rotate a 13 ^^^ rotate a 22
    let majority := (a &&& b) ^^^ (a &&& c) ^^^ (b &&& c)
    [t1 + s0 + majority, a, b, c, d + t1, e, f, g]
  | other => other

/-- The state after a block. -/
def absorb (state block : List UInt32) : List UInt32 :=
  let words := (expand 48 block.reverse).reverse
  let mixed := (words.zip roundConstants).foldl
    (fun state (word, constant) => round state word constant) state
  state.zipWith (· + ·) mixed

/-- The state after all blocks of sixteen words; `count` is their number. -/
def absorbAll : Nat → List UInt32 → List UInt32 → List UInt32
  | 0, state, _ => state
  | count + 1, state, words => absorbAll count (absorb state (words.take 16)) (words.drop 16)

/-- The hash of a message, as bytes. -/
def hash (message : List UInt8) : List UInt8 :=
  let words := wordsOf (padded message)
  (absorbAll (words.length / 16) initialState words).flatMap fun word => bigEndian 4 word.toNat

end TypedReply.Sha256
