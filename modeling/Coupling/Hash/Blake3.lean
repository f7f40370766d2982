import Coupling.Collection.Indexing

/-!
# The BLAKE3 hash

The input is cut into chunks of 1024 bytes and these into blocks of 64. The blocks of a chunk are
compressed one after the other, chunks are joined by a binary tree whose left branches are full,
and the digest is the first 32 bytes that the root gives out.
-/

namespace Coupling.Blake3

abbrev Block := Vector UInt32 16

abbrev Chaining := Vector UInt32 8

def initial : Chaining :=
  #v[0x6a09e667, 0xbb67ae85, 0x3c6ef372, 0xa54ff53a, 0x510e527f, 0x9b05688c, 0x1f83d9ab, 0x5be0cd19]

def chunkStart : UInt32 := 1

def chunkEnd : UInt32 := 2

def parent : UInt32 := 4

def root : UInt32 := 8

def rotateRight (x : UInt32) (n : UInt32) : UInt32 := (x >>> n) ||| (x <<< (32 - n))

def mix (s : Block) (a b c d : Fin 16) (x y : UInt32) : Block :=
  let va := s[a] + s[b] + x
  let vd := rotateRight (s[d] ^^^ va) 16
  let vc := s[c] + vd
  let vb := rotateRight (s[b] ^^^ vc) 12
  let va := va + vb + y
  let vd := rotateRight (vd ^^^ va) 8
  let vc := vc + vd
  let vb := rotateRight (vb ^^^ vc) 7
  (((s.set a va).set b vb).set c vc).set d vd

/-- Mixes the columns of the state and then its diagonals. -/
def round (s : Block) (m : Block) : Block :=
  let s := mix s 0 4 8 12 m[0] m[1]
  let s := mix s 1 5 9 13 m[2] m[3]
  let s := mix s 2 6 10 14 m[4] m[5]
  let s := mix s 3 7 11 15 m[6] m[7]
  let s := mix s 0 5 10 15 m[8] m[9]
  let s := mix s 1 6 11 12 m[10] m[11]
  let s := mix s 2 7 8 13 m[12] m[13]
  mix s 3 4 9 14 m[14] m[15]

def permute (m : Block) : Block :=
  #v[m[2], m[6], m[3], m[10], m[7], m[0], m[4], m[13],
    m[1], m[11], m[12], m[5], m[9], m[14], m[15], m[8]]

def rounds : Nat → Block → Block → Block
  | 0, s, _ => s
  | n + 1, s, m => rounds n (round s m) (permute m)

/-- What goes into one compression, kept back until it is known whether it is the root. -/
structure Node where
  chaining : Chaining
  block : Block
  counter : Nat
  length : Nat
  flags : UInt32

def Node.compress (node : Node) (flags : UInt32) : Chaining :=
  let h := node.chaining
  let s : Block :=
    #v[h[0], h[1], h[2], h[3], h[4], h[5], h[6], h[7],
      initial[0], initial[1], initial[2], initial[3],
      UInt32.ofNat node.counter, UInt32.ofNat (node.counter >>> 32),
      UInt32.ofNat node.length, node.flags ||| flags]
  let s := rounds 7 s node.block
  Vector.ofFn fun i : Fin 8 => s[i.val] ^^^ s[i.val + 8]

def Node.value (node : Node) : Chaining := node.compress 0

def word (bytes : List UInt8) : UInt32 :=
  bytes.foldr (fun byte rest => (rest <<< 8) ||| byte.toUInt32) 0

/-- Cuts a list into pieces of the given length, the last one possibly shorter. -/
def pieces {α : Type} (length : Nat) (l : List α) : List (List α) :=
  match l with
  | [] => []
  | a :: rest => (a :: rest.take (length - 1)) :: pieces length (rest.drop (length - 1))
  termination_by l.length
  decreasing_by
    simp only [List.length_drop, List.length_cons]
    omega

/-- A block is filled up with zeros. -/
def Block.ofBytes (bytes : List UInt8) : Block :=
  let words := ((pieces 4 bytes).map word).toArray
  Vector.ofFn fun i => words.getD i 0

/-- The compressions of a chunk, the blocks after the first taking the value of the one before. -/
def chunkBlocks (counter : Nat) (chaining : Chaining) (flags : UInt32) :
    List (List UInt8) → Node
  | [] => ⟨chaining, Block.ofBytes [], counter, 0, flags ||| chunkEnd⟩
  | [bytes] => ⟨chaining, Block.ofBytes bytes, counter, bytes.length, flags ||| chunkEnd⟩
  | bytes :: rest =>
    let node : Node := ⟨chaining, Block.ofBytes bytes, counter, bytes.length, flags⟩
    chunkBlocks counter node.value 0 rest

def chunk (counter : Nat) (bytes : List UInt8) : Node :=
  chunkBlocks counter initial chunkStart (pieces 64 bytes)

def join (left right : Node) : Node where
  chaining := initial
  block := (left.value ++ right.value).cast (by decide)
  counter := 0
  length := 64
  flags := parent

/-- The largest power of two below a number above one. -/
def leftSize (n : Nat) : Nat := 1 <<< (n - 1).log2

theorem leftSize_lt {n : Nat} (h : 1 < n) : leftSize n < n := by
  have := Nat.log2_self_le (n := n - 1) (by omega)
  rw [leftSize, Nat.one_shiftLeft]
  omega

theorem leftSize_pos (n : Nat) : 0 < leftSize n := by
  rw [leftSize, Nat.one_shiftLeft]
  exact Nat.pow_pos (by decide)

/-- Input without any bytes is one empty chunk. -/
def tree (nodes : List Node) : Node :=
  if h : 1 < nodes.length then
    have := leftSize_lt h
    let size := leftSize nodes.length
    join (tree (nodes.take size)) (tree (nodes.drop size))
  else nodes.headD (chunk 0 [])
  termination_by nodes.length
  decreasing_by
    all_goals
      have pos := leftSize_pos nodes.length
      simp only [List.length_take, List.length_drop]
      omega

def digest (bytes : List UInt8) : Chaining :=
  (tree ((pieces 1024 bytes).mapIdx chunk)).compress root

def hexDigits (byte : UInt32) : List Char :=
  [Nat.digitChar (byte.toNat / 16 % 16), Nat.digitChar (byte.toNat % 16)]

/-- The digest in hexadecimal, each word from its lowest byte on. -/
def hex (digest : Chaining) : String :=
  String.ofList (digest.toList.flatMap fun word =>
    hexDigits word ++ hexDigits (word >>> 8) ++ hexDigits (word >>> 16) ++ hexDigits (word >>> 24))

end Coupling.Blake3
