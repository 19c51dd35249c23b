/-!
# Bytes of an archive

Numbers are written with their lowest byte first, in a fixed number of bytes. The checksum of some bytes is
their remainder as a polynomial over two elements, by the polynomial `0xEDB88320` with its bits reversed.

The compressed form that archives use is decoded. Bytes come in blocks; a block holds bytes as they are, or
symbols in a prefix code. A symbol is a byte, the end of the block, or the length of a stretch that has come
before, at a distance that a second code gives. A code is given by the lengths of its words: words of equal
length follow each other in the order of their symbols, and shorter words come first.
-/

namespace EquationExport.Archive

/-! ### Numbers -/

/-- A sequence of bytes. -/
abbrev Bytes := List UInt8

/-- A number in `width` bytes. -/
def number : (width : Nat) → Nat → Bytes
  | 0, _ => []
  | width + 1, n => n.toUInt8 :: number width (n / 256)

/-- The number that bytes write. -/
def value (s : Bytes) : Nat := s.foldr (fun b n => b.toNat + 256 * n) 0

theorem length_number (width n : Nat) : (number width n).length = width := by
  induction width generalizing n with
  | zero => rfl
  | succ width ih => simp [number, ih]

theorem value_number {width n : Nat} (h : n < Nat.pow 256 width) : value (number width n) = n := by
  induction width generalizing n with
  | zero =>
    obtain rfl : n = 0 := Nat.lt_one_iff.1 h
    rfl
  | succ width ih =>
    have h' : n / 256 < Nat.pow 256 width := Nat.div_lt_of_lt_mul (Nat.mul_comm _ _ ▸ h)
    have := ih h'
    simp only [value] at this
    simp only [number, value, List.foldr_cons, this, Nat.toUInt8_eq, UInt8.toNat_ofNat']
    omega

/-- One bit of the remainder is divided out. -/
def divideBit (r : UInt32) : UInt32 :=
  if r &&& 1 = 1 then (r >>> 1) ^^^ 0xEDB88320 else r >>> 1

/-- A byte is added to the remainder, and its eight bits are divided out. -/
def divideByte (r : UInt32) (b : UInt8) : UInt32 :=
  (List.range 8).foldl (fun r _ => divideBit r) (r ^^^ b.toUInt32)

/-- The checksum of some bytes. -/
def checksum (s : Bytes) : Nat := ((s.foldl divideByte 0xFFFFFFFF) ^^^ 0xFFFFFFFF).toNat

/-! ### Compressed bytes -/

/-- The bits of some bytes, the lowest of each byte first. -/
def bits (s : Bytes) : List Bool := s.flatMap fun b => (List.range 8).map fun i => b.toNat.testBit i

/-- The number in the next `n` bits, the lowest first. -/
def takeBits? : (n : Nat) → List Bool → Option (Nat × List Bool)
  | 0, s => some (0, s)
  | _ + 1, [] => none
  | n + 1, b :: s => (takeBits? n s).map fun (v, rest) => (b.toNat + 2 * v, rest)

/-- A prefix code: for each length of a word, from 1 on, the symbols whose words have it. -/
abbrev Code := List (List Nat)

/-- The code in which each symbol has a word of the given length; symbols without a word have the length 0. -/
def Code.ofLengths (lengths : List Nat) : Code :=
  (List.range 15).map fun i => (List.range lengths.length).filter fun symbol => lengths[symbol]? == some (i + 1)

/--
Reads a symbol. `offset` is the distance of what has been read from the first word of the length that comes
next in `code`.
-/
def Code.read? : (code : Code) → (offset : Nat) → List Bool → Option (Nat × List Bool)
  | [], _, _ => none
  | _ :: _, _, [] => none
  | symbols :: longer, offset, b :: s =>
    let offset := 2 * offset + b.toNat
    match symbols[offset]? with
    | some symbol => some (symbol, s)
    | none => Code.read? longer (offset - symbols.length) s

/-- For each kind of length, from the symbol 257 on, the least length and the number of bits added to it. -/
def lengthTable : List (Nat × Nat) := [
  (3, 0), (4, 0), (5, 0), (6, 0), (7, 0), (8, 0), (9, 0), (10, 0), (11, 1), (13, 1), (15, 1), (17, 1), (19, 2),
  (23, 2), (27, 2), (31, 2), (35, 3), (43, 3), (51, 3), (59, 3), (67, 4), (83, 4), (99, 4), (115, 4), (131, 5),
  (163, 5), (195, 5), (227, 5), (258, 0)]

/-- For each kind of distance, the least distance and the number of bits added to it. -/
def distanceTable : List (Nat × Nat) := [
  (1, 0), (2, 0), (3, 0), (4, 0), (5, 1), (7, 1), (9, 2), (13, 2), (17, 3), (25, 3), (33, 4), (49, 4), (65, 5),
  (97, 5), (129, 6), (193, 6), (257, 7), (385, 7), (513, 8), (769, 8), (1025, 9), (1537, 9), (2049, 10),
  (3073, 10), (4097, 11), (6145, 11), (8193, 12), (12289, 12), (16385, 13), (24577, 13)]

/-- A number whose kind has been read: the rest of it is in the bits that follow. -/
def readKind? (table : List (Nat × Nat)) (kind : Nat) (s : List Bool) : Option (Nat × List Bool) := do
  let (least, extra) ← table[kind]?
  let (more, s) ← takeBits? extra s
  pure (least + more, s)

/-- Repeats what stands `distance` bytes before the end, byte by byte. -/
def repeatBack? (out : Array UInt8) (distance : Nat) : (length : Nat) → Option (Array UInt8)
  | 0 => some out
  | length + 1 =>
    if distance ≤ out.size then
      match out[out.size - distance]? with
      | some b => repeatBack? (out.push b) distance length
      | none => none
    else none

/-- Reads symbols up to the end of the block. Every symbol takes a bit or more, so `fuel` is the number of bits. -/
def symbols? (literals distances : Code) :
    (fuel : Nat) → List Bool → Array UInt8 → Option (List Bool × Array UInt8)
  | 0, _, _ => none
  | fuel + 1, s, out => do
    let (symbol, s) ← literals.read? 0 s
    if symbol < 256 then symbols? literals distances fuel s (out.push symbol.toUInt8)
    else if symbol = 256 then pure (s, out)
    else
      let (length, s) ← readKind? lengthTable (symbol - 257) s
      let (kind, s) ← distances.read? 0 s
      let (distance, s) ← readKind? distanceTable kind s
      let out ← repeatBack? out distance length
      symbols? literals distances fuel s out

/-- The lengths of the words of the two codes that need not be written down. -/
def fixedLengths : List Nat × List Nat :=
  (List.replicate 144 8 ++ List.replicate 112 9 ++ List.replicate 24 7 ++ List.replicate 8 8, List.replicate 30 5)

/-- The order in which the lengths of the code of lengths are written. -/
def lengthOrder : List Nat := [16, 17, 18, 0, 8, 7, 9, 6, 10, 5, 11, 4, 12, 3, 13, 2, 14, 1, 15]

/-- Reads the next numbers, as many as `count`, of `width` bits each. -/
def numbers? (width : Nat) : (count : Nat) → List Bool → Option (List Nat × List Bool)
  | 0, s => some ([], s)
  | count + 1, s => do
    let (n, s) ← takeBits? width s
    let (later, s) ← numbers? width count s
    pure (n :: later, s)

/-- Reads lengths until there are `count` of them; `read` are those read so far, the last one first. -/
def lengths? (code : Code) (count : Nat) : (fuel : Nat) → List Nat → List Bool → Option (List Nat × List Bool)
  | 0, _, _ => none
  | fuel + 1, read, s =>
    if read.length = count then some (read.reverse, s)
    else if count < read.length then none
    else do
      let (symbol, s) ← code.read? 0 s
      if symbol < 16 then lengths? code count fuel (symbol :: read) s
      else if symbol = 16 then
        let last ← read.head?
        let (more, s) ← takeBits? 2 s
        lengths? code count fuel (List.replicate (3 + more) last ++ read) s
      else if symbol = 17 then
        let (more, s) ← takeBits? 3 s
        lengths? code count fuel (List.replicate (3 + more) 0 ++ read) s
      else
        let (more, s) ← takeBits? 7 s
        lengths? code count fuel (List.replicate (11 + more) 0 ++ read) s

/-- Reads the lengths of the words of the two codes of a block. -/
def writtenLengths? (s : List Bool) : Option ((List Nat × List Nat) × List Bool) := do
  let (literals, s) ← takeBits? 5 s
  let (distances, s) ← takeBits? 5 s
  let (count, s) ← takeBits? 4 s
  let (written, s) ← numbers? 3 (count + 4) s
  let ordered := lengthOrder.zip written
  let code := Code.ofLengths ((List.range 19).map fun i => (ordered.lookup i).getD 0)
  let (all, s) ← lengths? code (literals + 257 + distances + 1) (literals + distances + 259) [] s
  pure ((all.take (literals + 257), all.drop (literals + 257)), s)

/-- Reads the bytes of a block that holds them as they are; the bits up to the next byte are skipped. -/
def plainBlock? (s : List Bool) (out : Array UInt8) : Option (List Bool × Array UInt8) := do
  let (length, s) ← takeBits? 16 (s.drop (s.length % 8))
  let (_, s) ← takeBits? 16 s
  let (bytes, s) ← numbers? 8 length s
  pure (s, out ++ (bytes.map (·.toUInt8)).toArray)

/-- Reads blocks up to the last one. -/
def blocks? : (fuel : Nat) → List Bool → Array UInt8 → Option (Array UInt8)
  | 0, _, _ => none
  | fuel + 1, s, out => do
    let (last, s) ← takeBits? 1 s
    let (kind, s) ← takeBits? 2 s
    let (s, out) ← match kind with
      | 0 => plainBlock? s out
      | 1 => symbols? (Code.ofLengths fixedLengths.1) (Code.ofLengths fixedLengths.2) s.length s out
      | 2 => do
        let ((literals, distances), s) ← writtenLengths? s
        symbols? (Code.ofLengths literals) (Code.ofLengths distances) s.length s out
      | _ => none
    if last = 1 then pure out else blocks? fuel s out

/-- The bytes that compressed bytes stand for. -/
def inflate? (s : Bytes) : Option Bytes := (blocks? (8 * s.length + 1) (bits s) #[]).map (·.toList)

end EquationExport.Archive
