namespace FlowPlan.Blake3

/-- Eight words that one compression hands to the next. -/
abbrev Chain := Vector UInt32 8

/-- Sixteen words of input. -/
abbrev Block := Vector UInt32 16

def initial : Chain :=
  #v[0x6a09e667, 0xbb67ae85, 0x3c6ef372, 0xa54ff53a, 0x510e527f, 0x9b05688c, 0x1f83d9ab, 0x5be0cd19]

/-- Marks the first block of a chunk. -/
def chunkStart : UInt32 := 1

/-- Marks the last block of a chunk. -/
def chunkEnd : UInt32 := 2

/-- Marks an inner node of the tree. -/
def parentNode : UInt32 := 4

/-- Marks the topmost node of the tree. -/
def rootNode : UInt32 := 8

def blockSize : Nat := 64

def chunkSize : Nat := 1024

/-- Where each word of the input goes from one round to the next. -/
def permutation : Vector (Fin 16) 16 := #v[2, 6, 3, 10, 7, 0, 4, 13, 1, 11, 12, 5, 9, 14, 15, 8]

/-- The word with its bits moved `n` places down, those that leave coming in at the top. -/
def rotateRight (x n : UInt32) : UInt32 := (x >>> n) ||| (x <<< (32 - n))

/-- Mixes two words of input into four words of the state. -/
def mix (v : Block) (a b c d : Fin 16) (x y : UInt32) : Block :=
  let v := v.set a (v[a] + v[b] + x)
  let v := v.set d (rotateRight (v[d] ^^^ v[a]) 16)
  let v := v.set c (v[c] + v[d])
  let v := v.set b (rotateRight (v[b] ^^^ v[c]) 12)
  let v := v.set a (v[a] + v[b] + y)
  let v := v.set d (rotateRight (v[d] ^^^ v[a]) 8)
  let v := v.set c (v[c] + v[d])
  v.set b (rotateRight (v[b] ^^^ v[c]) 7)

/-- One round: the columns of the state, then its diagonals. -/
def round (v m : Block) : Block :=
  let v := mix v 0 4 8 12 m[0] m[1]
  let v := mix v 1 5 9 13 m[2] m[3]
  let v := mix v 2 6 10 14 m[4] m[5]
  let v := mix v 3 7 11 15 m[6] m[7]
  let v := mix v 0 5 10 15 m[8] m[9]
  let v := mix v 1 6 11 12 m[10] m[11]
  let v := mix v 2 7 8 13 m[12] m[13]
  mix v 3 4 9 14 m[14] m[15]

/-- Several rounds, the input being permuted between two of them. -/
def rounds : Nat → Block → Block → Block
  | 0, v, _ => v
  | n + 1, v, m => rounds n (round v m) (permutation.map fun i => m[i])

/-- What one compression takes. -/
structure Node where
  chain : Chain
  block : Block
  counter : UInt64
  length : UInt32
  flags : UInt32

namespace Node

def compress (n : Node) : Chain :=
  let v : Block :=
    #v[n.chain[0], n.chain[1], n.chain[2], n.chain[3], n.chain[4], n.chain[5], n.chain[6], n.chain[7],
      initial[0], initial[1], initial[2], initial[3],
      n.counter.toUInt32, (n.counter >>> 32).toUInt32, n.length, n.flags]
  let v := rounds 7 v n.block
  Vector.ofFn fun i : Fin 8 => v[i.val] ^^^ v[i.val + 8]

/-- The chain of the same node at the top of the tree. -/
def compressRoot (n : Node) : Chain := { n with counter := 0, flags := n.flags ||| rootNode }.compress

def parent (l r : Chain) : Node := ⟨initial, l ++ r, 0, 64, parentNode⟩

end Node

/-- The word of four bytes, the lowest first. -/
def word (bytes : List UInt8) : UInt32 :=
  bytes.foldr (fun b w => w <<< 8 ||| b.toUInt32) 0

/-- The bytes of a word, the lowest first. -/
def wordBytes (w : UInt32) : List UInt8 :=
  [w.toUInt8, (w >>> 8).toUInt8, (w >>> 16).toUInt8, (w >>> 24).toUInt8]

/-- The words of at most one block of bytes, filled up with zeros. -/
def blockOf (bytes : List UInt8) : Block :=
  let a := bytes.toArray
  Vector.ofFn fun i : Fin 16 =>
    word [a.getD (4 * i.val) 0, a.getD (4 * i.val + 1) 0, a.getD (4 * i.val + 2) 0,
      a.getD (4 * i.val + 3) 0]

/-- The last node of a chunk: all blocks before the last are compressed into its chain. -/
def chunkNode (counter : UInt64) (chain : Chain) (flags : UInt32) (bytes : List UInt8) : Node :=
  if bytes.length ≤ blockSize then
    ⟨chain, blockOf bytes, counter, bytes.length.toUInt32, flags ||| chunkEnd⟩
  else
    let first : Node := ⟨chain, blockOf (bytes.take blockSize), counter, blockSize.toUInt32, flags⟩
    chunkNode counter first.compress 0 (bytes.drop blockSize)
termination_by bytes.length
decreasing_by simp [blockSize] at *; omega

/-- The bytes under the left half of an inner node: the largest number of chunks that is a power
of two and leaves something for the right half. -/
def leftSize (length : Nat) : Nat := chunkSize * Nat.pow 2 (Nat.log2 ((length - 1) / chunkSize))

theorem leftSize_pos (n : Nat) : 0 < leftSize n :=
  Nat.mul_pos (by decide) (Nat.two_pow_pos _)

theorem leftSize_lt {n : Nat} (h : chunkSize < n) : leftSize n < n := by
  have hne : (n - 1) / chunkSize ≠ 0 := by
    simp [chunkSize] at *; omega
  have := Nat.log2_self_le hne
  have hm := Nat.mul_le_mul_left chunkSize this
  have hd := Nat.mul_div_le (n - 1) chunkSize
  simp [chunkSize] at *
  unfold leftSize
  simp [chunkSize]
  omega

/-- The topmost node of the tree over some bytes, the first chunk of which has a number. Its leaves
are the chunks, and left subtrees are complete. -/
def tree (counter : UInt64) (bytes : List UInt8) : Node :=
  if h : bytes.length ≤ chunkSize then chunkNode counter initial chunkStart bytes
  else
    let left := leftSize bytes.length
    have := leftSize_pos bytes.length
    have := leftSize_lt (Nat.lt_of_not_le h)
    .parent (tree counter (bytes.take left)).compress
      (tree (counter + (left / chunkSize).toUInt64) (bytes.drop left)).compress
termination_by bytes.length
decreasing_by all_goals simp; omega

def hash (bytes : List UInt8) : List UInt8 := (tree 0 bytes).compressRoot.toList.flatMap wordBytes

end FlowPlan.Blake3
