import DeployInventory.Number.Power
/-!
# Digest.Blake3 — the BLAKE3 hash of a sequence of bytes

The input is cut into chunks of 1024 bytes, the leaves of a binary tree whose left subtrees are as large a power of two
as fits. A node is a block still to be compressed: its parent takes the first half of the result, and at the root the
compression runs once more with a flag of its own and gives the digest.
-/
namespace DeployInventory

namespace Blake3

def initialWords : Vector UInt32 8 :=
  #v[0x6A09E667, 0xBB67AE85, 0x3C6EF372, 0xA54FF53A, 0x510E527F, 0x9B05688C, 0x1F83D9AB, 0x5BE0CD19]

/-- A block: sixteen words of input. -/
abbrev Block := Vector UInt32 16

/-- The place from which the next round takes each word of the block. -/
def permutation : Vector (Fin 16) 16 := #v[2, 6, 3, 10, 7, 0, 4, 13, 1, 11, 12, 5, 9, 14, 15, 8]

def chunkStart : UInt32 := 1

def chunkEnd : UInt32 := 2

def parentNode : UInt32 := 4

def rootNode : UInt32 := 8

/-- A word turned right by so many bits, of which there are one to thirty-one. -/
def rotateRight (x : UInt32) (n : UInt32) : UInt32 := x >>> n ||| x <<< (32 - n)

/-- Mixes two words of input into four words of the state. -/
def mix (v : Block) (a b c d : Fin 16) (x y : UInt32) : Block :=
  let v := v.set a (v[a] + v[b] + x)
  let v := v.set d (rotateRight (v[d] ^^^ v[a]) 16)
  let v := v.set c (v[c] + v[d])
  let v := v.set b (rotateRight (v[b] ^^^ v[c]) 12)
  let v := v.set a (v[a] + v[b] + y)
  let v := v.set d (rotateRight (v[d] ^^^ v[a]) 8)
  let v := v.set c (v[c] + v[d])
  v.set b (rotateRight (v[b] ^^^ v[c]) 7)

/-- One round: the columns of the state, then its diagonals. -/
def round (v m : Block) : Block :=
  let v := mix v 0 4 8 12 m[0] m[1]
  let v := mix v 1 5 9 13 m[2] m[3]
  let v := mix v 2 6 10 14 m[4] m[5]
  let v := mix v 3 7 11 15 m[6] m[7]
  let v := mix v 0 5 10 15 m[8] m[9]
  let v := mix v 1 6 11 12 m[10] m[11]
  let v := mix v 2 7 8 13 m[12] m[13]
  mix v 3 4 9 14 m[14] m[15]

/-- So many rounds, the words of the block permuted from one to the next. -/
def rounds : Nat → Block → Block → Block
  | 0, v, _ => v
  | n + 1, v, m => rounds n (round v m) (permutation.map (m[·]))

/-- **A node of the tree**: a block with what its compression takes besides it. -/
structure Node where
  chaining : Vector UInt32 8
  block : Block
  counter : UInt64
  length : UInt32
  flags : UInt32

/-- The first half of the compressed node: what its parent or the next block of its chunk takes. -/
def Node.compress (n : Node) : Vector UInt32 8 :=
  let h := n.chaining
  let i := initialWords
  let v : Block :=
    #v[h[0], h[1], h[2], h[3], h[4], h[5], h[6], h[7], i[0], i[1], i[2], i[3],
      n.counter.toUInt32, (n.counter >>> 32).toUInt32, n.length, n.flags]
  let w := rounds 7 v n.block
  .ofFn fun k => w[k.val] ^^^ w[k.val + 8]

/-- The word of four bytes, the lowest first; missing ones are zero. -/
def word (bytes : List UInt8) : UInt32 :=
  (bytes.take 4).foldr (fun b w => w <<< 8 ||| b.toUInt32) 0

def blockOf (bytes : List UInt8) : Block := .ofFn fun k => word (bytes.drop (4 * k.val))

/-- The last block of a chunk, given what the blocks before it come to and the flags of the first block. -/
def chunkNode (counter : UInt64) (first : UInt32) (chaining : Vector UInt32 8) (bytes : List UInt8) : Node :=
  if bytes.length ≤ 64 then
    { chaining, block := blockOf bytes, counter, length := UInt32.ofNat bytes.length, flags := first ||| chunkEnd }
  else
    let node : Node := { chaining, block := blockOf (bytes.take 64), counter, length := 64, flags := first }
    chunkNode counter 0 node.compress (bytes.drop 64)
termination_by bytes.length
decreasing_by
  simp only [List.length_drop]
  omega

/-- How many chunks the left subtree has when there are so many bytes, more than one chunk of them. -/
def leftChunks (bytes : Nat) : Nat := twoTo ((bytes - 1) / 1024).log2

theorem leftChunks_lt {bytes : Nat} (h : 1024 < bytes) : leftChunks bytes * 1024 < bytes := by
  have : twoTo ((bytes - 1) / 1024).log2 ≤ (bytes - 1) / 1024 := Nat.log2_self_le (by omega)
  simp only [leftChunks]
  omega

/-- **The root of a subtree** whose first chunk has the given number. -/
def treeNode (counter : Nat) (bytes : List UInt8) : Node :=
  if h : bytes.length ≤ 1024 then chunkNode (UInt64.ofNat counter) chunkStart initialWords bytes
  else
    let left := leftChunks bytes.length
    have _left : left * 1024 < bytes.length := leftChunks_lt (by omega)
    have _some : 0 < left := twoTo_pos _
    let l := (treeNode counter (bytes.take (left * 1024))).compress
    let r := (treeNode (counter + left) (bytes.drop (left * 1024))).compress
    { chaining := initialWords, block := l ++ r, counter := 0, length := 64, flags := parentNode }
termination_by bytes.length
decreasing_by
  · simp only [List.length_take]
    omega
  · simp only [List.length_drop]
    omega

/-- The bytes of a word, the lowest first. -/
def wordBytes (w : UInt32) : List UInt8 :=
  [w.toUInt8, (w >>> 8).toUInt8, (w >>> 16).toUInt8, (w >>> 24).toUInt8]

/-- **The digest**: thirty-two bytes. -/
def digest (bytes : List UInt8) : List UInt8 :=
  let root := treeNode 0 bytes
  { root with flags := root.flags ||| rootNode }.compress.toList.flatMap wordBytes

end Blake3

end DeployInventory
