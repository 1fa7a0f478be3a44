import Sluice.Text.Hex

/-!
The BLAKE3 digest of a byte string: chunks of 1024 bytes are digested block by block, and the
results are joined pairwise in a binary tree whose left part is always a full one.
-/

namespace Sluice.Digest

abbrev Chain := Vector UInt32 8
abbrev Block := Vector UInt32 16

def iv : Chain :=
  #v[0x6A09E667, 0xBB67AE85, 0x3C6EF372, 0xA54FF53A, 0x510E527F, 0x9B05688C, 0x1F83D9AB, 0x5BE0CD19]

/-- How the message words move between rounds. -/
def schedule : Vector (Fin 16) 16 :=
  #v[2, 6, 3, 10, 7, 0, 4, 13, 1, 11, 12, 5, 9, 14, 15, 8]

def chunkStart : UInt32 := 1
def chunkEnd : UInt32 := 2
def parent : UInt32 := 4
def root : UInt32 := 8

def rotateRight (w : UInt32) (n : UInt32) : UInt32 :=
  (w >>> n) ||| (w <<< (32 - n))

/-- Mixes two message words into one column or diagonal of the state. -/
def mix (s : Block) (a b c d : Fin 16) (x y : UInt32) : Block :=
  let s := s.set a (s[a] + s[b] + x)
  let s := s.set d (rotateRight (s[d] ^^^ s[a]) 16)
  let s := s.set c (s[c] + s[d])
  let s := s.set b (rotateRight (s[b] ^^^ s[c]) 12)
  let s := s.set a (s[a] + s[b] + y)
  let s := s.set d (rotateRight (s[d] ^^^ s[a]) 8)
  let s := s.set c (s[c] + s[d])
  s.set b (rotateRight (s[b] ^^^ s[c]) 7)

def round (s m : Block) : Block :=
  let s := mix s 0 4 8 12 m[0] m[1]
  let s := mix s 1 5 9 13 m[2] m[3]
  let s := mix s 2 6 10 14 m[4] m[5]
  let s := mix s 3 7 11 15 m[6] m[7]
  let s := mix s 0 5 10 15 m[8] m[9]
  let s := mix s 1 6 11 12 m[10] m[11]
  let s := mix s 2 7 8 13 m[12] m[13]
  mix s 3 4 9 14 m[14] m[15]

def rounds : Nat → Block → Block → Block
  | 0, s, _ => s
  | n + 1, s, m => rounds n (round s m) (schedule.map fun i => m[i])

/-- One application of the compression function, waiting for its last flags. -/
structure Pending where
  chain : Chain
  block : Block
  counter : UInt64
  length : UInt32
  flags : UInt32

def Pending.compress (p : Pending) (extra : UInt32) : Chain :=
  let h := p.chain
  let s := rounds 7 #v[h[0], h[1], h[2], h[3], h[4], h[5], h[6], h[7], iv[0], iv[1], iv[2], iv[3],
    p.counter.toUInt32, (p.counter >>> 32).toUInt32, p.length, p.flags ||| extra] p.block
  Vector.ofFn fun i : Fin 8 => s[i.val] ^^^ s[i.val + 8]

def wordsOf (bytes : List UInt8) : Block :=
  let a := bytes.toArray
  let byte (i : Nat) : UInt32 := (a.getD i 0).toUInt32
  Vector.ofFn fun i : Fin 16 =>
    let k := 4 * i.val
    byte k ||| (byte (k + 1) <<< 8) ||| (byte (k + 2) <<< 16) ||| (byte (k + 3) <<< 24)

/-- Pieces of `n + 1` elements, the last one possibly shorter. -/
def pieces {α : Type} (n : Nat) : List α → List (List α)
  | [] => []
  | a :: rest => (a :: rest.take n) :: pieces n (rest.drop n)
termination_by l => l.length
decreasing_by simp only [List.length_drop, List.length_cons]; omega

/-- The blocks of a chunk in turn, the last one left pending. -/
def digestBlocks (counter : UInt64) : Chain → UInt32 → List (List UInt8) → Pending
  | chain, start, [] => ⟨chain, wordsOf [], counter, 0, start ||| chunkEnd⟩
  | chain, start, [b] => ⟨chain, wordsOf b, counter, UInt32.ofNat b.length, start ||| chunkEnd⟩
  | chain, start, b :: rest =>
    digestBlocks counter (Pending.compress ⟨chain, wordsOf b, counter, 64, start⟩ 0) 0 rest

def digestChunk (counter : Nat) (bytes : List UInt8) : Pending :=
  digestBlocks (UInt64.ofNat counter) iv chunkStart (pieces 63 bytes)

def join (left right : Pending) : Pending :=
  let l := left.compress 0
  let r := right.compress 0
  ⟨iv, l ++ r, 0, 64, parent⟩

/-- The largest power of two below `n`, for `n` at least two. -/
def leftSize (n : Nat) : Nat :=
  Nat.pow 2 (n - 1).log2

theorem leftSize_pos (n : Nat) : 0 < leftSize n :=
  Nat.pow_pos (Nat.zero_lt_two)

theorem leftSize_lt (n : Nat) (h : 2 ≤ n) : leftSize n < n := by
  have := Nat.log2_self_le (n := n - 1) (by omega)
  unfold leftSize
  rw [Nat.pow_eq]
  omega

/-- The tree over chunks numbered from `first`. -/
def digestTree (first : Nat) (chunks : List (List UInt8)) : Pending :=
  match chunks with
  | [] => digestChunk first []
  | [c] => digestChunk first c
  | c :: d :: rest =>
    let all := c :: d :: rest
    let k := leftSize all.length
    have hpos : 0 < leftSize (rest.length + 1 + 1) := leftSize_pos _
    have hlt : leftSize (rest.length + 1 + 1) < rest.length + 1 + 1 := leftSize_lt _ (by omega)
    join (digestTree first (all.take k)) (digestTree (first + k) (all.drop k))
termination_by chunks.length
decreasing_by
  · simp only [List.length_take, List.length_cons]; omega
  · simp only [List.length_drop, List.length_cons]; omega

def littleEndian (w : UInt32) : List UInt8 :=
  [w.toUInt8, (w >>> 8).toUInt8, (w >>> 16).toUInt8, (w >>> 24).toUInt8]

def ofBytes (bytes : List UInt8) : List UInt8 :=
  ((digestTree 0 (pieces 1023 bytes)).compress root).toList.flatMap littleEndian

def ofText (text : String) : List UInt8 :=
  ofBytes text.toUTF8.toList

end Sluice.Digest
