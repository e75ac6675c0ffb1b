import FieldRules.Numeral

/-!
The BLAKE3 hash of a byte string, 32 bytes long. The input is cut into chunks of 1024 bytes and each
chunk into blocks of 64; the chunks are the leaves of a binary tree whose left subtrees are full.
-/

namespace FieldRules.Bytes.Blake3

abbrev Chaining := Vector UInt32 8

abbrev Block := Vector UInt32 16

def iv : Chaining :=
  #v[0x6a09e667, 0xbb67ae85, 0x3c6ef372, 0xa54ff53a, 0x510e527f, 0x9b05688c, 0x1f83d9ab, 0x5be0cd19]

def schedule : Vector (Fin 16) 16 :=
  #v[2, 6, 3, 10, 7, 0, 4, 13, 1, 11, 12, 5, 9, 14, 15, 8]

def rotateRight (word count : UInt32) : UInt32 :=
  (word >>> count) ||| (word <<< (32 - count))

def mix (state : Block) (a b c d : Fin 16) (x y : UInt32) : Block :=
  let state := state.set a (state[a] + state[b] + x)
  let state := state.set d (rotateRight (state[d] ^^^ state[a]) 16)
  let state := state.set c (state[c] + state[d])
  let state := state.set b (rotateRight (state[b] ^^^ state[c]) 12)
  let state := state.set a (state[a] + state[b] + y)
  let state := state.set d (rotateRight (state[d] ^^^ state[a]) 8)
  let state := state.set c (state[c] + state[d])
  state.set b (rotateRight (state[b] ^^^ state[c]) 7)

def round (state message : Block) : Block :=
  let state := mix state 0 4 8 12 message[0] message[1]
  let state := mix state 1 5 9 13 message[2] message[3]
  let state := mix state 2 6 10 14 message[4] message[5]
  let state := mix state 3 7 11 15 message[6] message[7]
  let state := mix state 0 5 10 15 message[8] message[9]
  let state := mix state 1 6 11 12 message[10] message[11]
  let state := mix state 2 7 8 13 message[12] message[13]
  mix state 3 4 9 14 message[14] message[15]

def rounds : Nat → Block → Block → Block
  | 0, state, _ => state
  | count + 1, state, message =>
      rounds count (round state message) (schedule.map fun place => message[place])

def chunkStart : UInt32 := 1
def chunkEnd : UInt32 := 2
def parent : UInt32 := 4
def root : UInt32 := 8

structure Node where
  chaining : Chaining
  block : Block
  counter : UInt64
  blockSize : UInt32
  flags : UInt32

namespace Node

def compress (node : Node) : Chaining :=
  let state : Block := node.chaining
    ++ #v[iv[0], iv[1], iv[2], iv[3], node.counter.toUInt32, (node.counter >>> 32).toUInt32,
      node.blockSize, node.flags]
  let mixed := rounds 7 state node.block
  Vector.ofFn fun (index : Fin 8) => mixed[index.val] ^^^ mixed[index.val + 8]

end Node

def blockOfBytes (bytes : List UInt8) : Block :=
  Vector.ofFn fun (index : Fin 16) =>
    UInt32.ofNat (ofLittleEndian ((bytes.drop (4 * index.val)).take 4))

def chunkFrom (counter : UInt64) (chaining : Chaining) (start : UInt32) (bytes : List UInt8) : Node :=
  if bytes.length ≤ 64 then
    ⟨chaining, blockOfBytes bytes, counter, UInt32.ofNat bytes.length, start ||| chunkEnd⟩
  else
    let first : Node := ⟨chaining, blockOfBytes (bytes.take 64), counter, 64, start⟩
    chunkFrom counter first.compress 0 (bytes.drop 64)
termination_by bytes.length
decreasing_by
  rw [List.length_drop]
  omega

/-- The size of the left subtree over more than one chunk: the greatest power of two of chunks that
leaves something for the right one. -/
def leftSize (size : Nat) : Nat :=
  1024 * twoTo ((size - 1) / 1024).log2

theorem leftSize_pos (size : Nat) : 0 < leftSize size :=
  Nat.mul_pos (by decide) (twoTo_pos _)

theorem leftSize_lt {size : Nat} (large : ¬size ≤ 1024) : leftSize size < size := by
  have chunks : (size - 1) / 1024 ≠ 0 := by omega
  have power : twoTo ((size - 1) / 1024).log2 ≤ (size - 1) / 1024 := Nat.log2_self_le chunks
  unfold leftSize
  omega

def treeFrom (counter : Nat) (bytes : List UInt8) : Node :=
  if bytes.length ≤ 1024 then chunkFrom (UInt64.ofNat counter) iv chunkStart bytes
  else
    let left := leftSize bytes.length
    let leftNode := treeFrom counter (bytes.take left)
    let rightNode := treeFrom (counter + left / 1024) (bytes.drop left)
    ⟨iv, leftNode.compress ++ rightNode.compress, 0, 64, parent⟩
termination_by bytes.length
decreasing_by
  · have shorter := leftSize_lt (by assumption)
    rw [List.length_take]
    omega
  · have positive := leftSize_pos bytes.length
    rw [List.length_drop]
    omega

def hash (bytes : List UInt8) : Vector UInt8 32 :=
  let tree := treeFrom 0 bytes
  let words := ({ tree with flags := tree.flags ||| root } : Node).compress
  Vector.ofFn fun (index : Fin 32) =>
    (words.get ⟨index.val / 4, by omega⟩ >>> UInt32.ofNat (8 * (index.val % 4))).toUInt8

end FieldRules.Bytes.Blake3
