/-!
# `ForumModeration.Digest.Blake3`: the BLAKE3 digest

A text of bytes is cut into chunks of 1024 bytes, and a chunk into blocks of 64.
A chunk is compressed block by block, each block with the chaining value of the
one before it. Chunks are the leaves of a binary tree, whose left subtrees are
full and at least as large as their right siblings. An inner node compresses the
chaining values of its children, and the digest is the compression of the root.

* `length_digest`: a digest has 32 bytes.
-/

set_option autoImplicit false

namespace ForumModeration.Blake3

/-- Eight words that sum up what was compressed so far. -/
abbrev ChainingValue := Vector UInt32 8

/-- Sixteen words: a block of the text or the state of a compression. -/
abbrev Words := Vector UInt32 16

/-- The chaining value in front of the first block. -/
def initial : ChainingValue :=
  #v[0x6A09E667, 0xBB67AE85, 0x3C6EF372, 0xA54FF53A, 0x510E527F, 0x9B05688C, 0x1F83D9AB,
    0x5BE0CD19]

/-- Marks the first block of a chunk. -/
def chunkStart : UInt32 := 1

/-- Marks the last block of a chunk. -/
def chunkEnd : UInt32 := 2

/-- Marks the block of an inner node. -/
def parent : UInt32 := 4

/-- Marks the compression that gives the digest. -/
def root : UInt32 := 8

/-- The bits of a word turned to the right, by 1 to 31 places. -/
def rotate (word places : UInt32) : UInt32 :=
  word >>> places ||| word <<< (32 - places)

/-- Mixes two words of a block into four words of the state. -/
def mix (state : Words) (a b c d : Fin 16) (x y : UInt32) : Words :=
  let a₁ := state[a] + state[b] + x
  let d₁ := rotate (state[d] ^^^ a₁) 16
  let c₁ := state[c] + d₁
  let b₁ := rotate (state[b] ^^^ c₁) 12
  let a₂ := a₁ + b₁ + y
  let d₂ := rotate (d₁ ^^^ a₂) 8
  let c₂ := c₁ + d₂
  let b₂ := rotate (b₁ ^^^ c₂) 7
  (((state.set a a₂).set b b₂).set c c₂).set d d₂

/-- Mixes a block into the columns of the state and then into its diagonals. -/
def round (state block : Words) : Words :=
  -- columns
  let state := mix state 0 4 8 12 block[0] block[1]
  let state := mix state 1 5 9 13 block[2] block[3]
  let state := mix state 2 6 10 14 block[4] block[5]
  let state := mix state 3 7 11 15 block[6] block[7]
  -- diagonals
  let state := mix state 0 5 10 15 block[8] block[9]
  let state := mix state 1 6 11 12 block[10] block[11]
  let state := mix state 2 7 8 13 block[12] block[13]
  mix state 3 4 9 14 block[14] block[15]

/-- The order in which the words of a block go into the next round. -/
def permute (block : Words) : Words :=
  #v[block[2], block[6], block[3], block[10], block[7], block[0], block[4], block[13],
    block[1], block[11], block[12], block[5], block[9], block[14], block[15], block[8]]

/-- A number of rounds. -/
def rounds : Nat → Words → Words → Words
  | 0, state, _ => state
  | count + 1, state, block => rounds count (round state block) (permute block)

/-- What one compression takes in. -/
structure Node where
  chain : ChainingValue
  block : Words
  counter : Nat
  length : Nat
  flags : UInt32

/-- Compresses a node. -/
def Node.compress (node : Node) : ChainingValue :=
  let h := node.chain
  -- Half of the state is what was compressed before. The other half says what is compressed now.
  let state := rounds 7
    #v[h[0], h[1], h[2], h[3], h[4], h[5], h[6], h[7],
      initial[0], initial[1], initial[2], initial[3],
      .ofNat node.counter, .ofNat (node.counter / 0x100000000), .ofNat node.length, node.flags]
    node.block
  .ofFn fun i => state[i] ^^^ state[i.val + 8]

/-- The word that four bytes make up, the least significant byte first. -/
def wordOf (a b c d : UInt8) : UInt32 :=
  a.toUInt32 ||| b.toUInt32 <<< 8 ||| c.toUInt32 <<< 16 ||| d.toUInt32 <<< 24

/-- The four bytes of a word, the least significant one first. -/
def bytesOf (word : UInt32) : List UInt8 :=
  [word.toUInt8, (word >>> 8).toUInt8, (word >>> 16).toUInt8, (word >>> 24).toUInt8]

/-- The words of at most 64 bytes, with zeros after them. -/
def blockOf (bytes : List UInt8) : Words :=
  let bytes := bytes.toArray
  let byte (i : Nat) := bytes[i]?.getD 0
  .ofFn fun i => wordOf (byte (4 * i)) (byte (4 * i + 1)) (byte (4 * i + 2)) (byte (4 * i + 3))

/-- The node of the last block of a chunk, after the chaining values of the blocks
in front of it. -/
def chunk (counter : Nat) (chain : ChainingValue) (start : UInt32) (bytes : List UInt8) : Node :=
  if bytes.length ≤ 64 then
    ⟨chain, blockOf bytes, counter, bytes.length, start ||| chunkEnd⟩
  else
    let block : Node := ⟨chain, blockOf (bytes.take 64), counter, 64, start⟩
    -- Only the first block of a chunk bears the mark of the start.
    chunk counter block.compress 0 (bytes.drop 64)
termination_by bytes.length
decreasing_by simp only [List.length_drop]; omega

/-- The node above two subtrees. -/
def join (left right : Node) : Node :=
  ⟨initial, left.compress ++ right.compress, 0, 64, parent⟩

/-- How many bytes are in the left subtree: the largest power of two of chunks that
leaves something for the right one. -/
def leftLength (length : Nat) : Nat :=
  1024 * Nat.pow 2 ((length - 1) / 1024).log2

theorem leftLength_pos (length : Nat) : 0 < leftLength length :=
  Nat.mul_pos (by decide) (Nat.two_pow_pos _)

theorem leftLength_lt {length : Nat} (h : 1024 < length) : leftLength length < length := by
  have : Nat.pow 2 ((length - 1) / 1024).log2 ≤ (length - 1) / 1024 := Nat.log2_self_le (by omega)
  unfold leftLength
  omega

/-- The root of the tree over the bytes of the chunks from `counter` on. -/
def tree (counter : Nat) (bytes : List UInt8) : Node :=
  if bytes.length ≤ 1024 then chunk counter initial chunkStart bytes
  else
    let left := leftLength bytes.length
    -- Chunks are numbered through the whole text. The left subtree is made of full ones.
    join (tree counter (bytes.take left)) (tree (counter + left / 1024) (bytes.drop left))
termination_by bytes.length
decreasing_by
  · have : leftLength bytes.length < bytes.length := leftLength_lt (by omega)
    simp only [List.length_take]
    omega
  · have := leftLength_pos bytes.length
    simp only [List.length_drop]
    omega

/-- The BLAKE3 digest. -/
def digest (bytes : List UInt8) : List UInt8 :=
  let node := tree 0 bytes
  { node with flags := node.flags ||| root }.compress.toList.flatMap bytesOf

theorem length_digest (bytes : List UInt8) : (digest bytes).length = 32 := by
  simp [digest, List.length_flatMap, bytesOf, List.map_const']

end ForumModeration.Blake3
