/-!
# Decompression

Compressed data is a sequence of blocks of bits: stored bytes, or symbols in codes of varying
length. A symbol is a byte or says how much of what came out before is to be repeated, from how
far back.
-/
namespace Interchange.Archive

abbrev Bits := List Bool

/-- The bits of a byte, the least significant first. -/
def bitsOf (b : UInt8) : Bits := (List.range 8).map fun i => b.toNat.testBit i

/-- A number of so many bits, and the bits after it. -/
def takeNumber? : Nat → Bits → Option (Nat × Bits)
  | 0, bits => some (0, bits)
  | _ + 1, [] => none
  | width + 1, bit :: bits =>
    (takeNumber? width bits).map fun (n, rest) => (bit.toNat + 2 * n, rest)

/-- A code: the number of code words of each length from one bit on, and the symbols in the order of
their code words. -/
structure Code where
  counts : List Nat
  symbols : Array Nat

namespace Code

/-- The greatest length of a code word. -/
def longest : Nat := 15

/-- The code in which symbols have the given lengths; a symbol of length zero has no code word. -/
def ofLengths (lengths : List Nat) : Code :=
  let sizes := (List.range longest).map (· + 1)
  ⟨sizes.map lengths.count,
    (sizes.flatMap fun size =>
      lengths.zipIdx.filterMap fun (length, symbol) =>
        if length = size then some symbol else none).toArray⟩

/-- Follows the code words of growing length: `first` is the first of the present length, and
`index` the number of shorter ones. -/
def decodeFrom? (symbols : Array Nat) (word first index : Nat) : List Nat → Bits → Option (Nat × Bits)
  | count :: counts, bit :: bits =>
    let word := 2 * word + bit.toNat
    if word < first + count then symbols[index + (word - first)]?.map (·, bits)
    else decodeFrom? symbols word (2 * (first + count)) (index + count) counts bits
  | _, _ => none

def decode? (code : Code) (bits : Bits) : Option (Nat × Bits) :=
  decodeFrom? code.symbols 0 0 0 code.counts bits

end Code

/-- The least lengths of repetitions, with the number of bits that add to them. -/
def lengthSteps : Array (Nat × Nat) := #[
  (3, 0), (4, 0), (5, 0), (6, 0), (7, 0), (8, 0), (9, 0), (10, 0), (11, 1), (13, 1), (15, 1),
  (17, 1), (19, 2), (23, 2), (27, 2), (31, 2), (35, 3), (43, 3), (51, 3), (59, 3), (67, 4), (83, 4),
  (99, 4), (115, 4), (131, 5), (163, 5), (195, 5), (227, 5), (258, 0)]

def distanceSteps : Array (Nat × Nat) := #[
  (1, 0), (2, 0), (3, 0), (4, 0), (5, 1), (7, 1), (9, 2), (13, 2), (17, 3), (25, 3), (33, 4), (49, 4),
  (65, 5), (97, 5), (129, 6), (193, 6), (257, 7), (385, 7), (513, 8), (769, 8), (1025, 9), (1537, 9),
  (2049, 10), (3073, 10), (4097, 11), (6145, 11), (8193, 12), (12289, 12), (16385, 13), (24577, 13)]

def takeStep? (steps : Array (Nat × Nat)) (symbol : Nat) (bits : Bits) : Option (Nat × Bits) := do
  let (least, width) ← steps[symbol]?
  let (more, rest) ← takeNumber? width bits
  some (least + more, rest)

/-- Appends so many bytes from a distance back, those just appended among them. -/
def repeat? (distance : Nat) : Nat → ByteArray → Option ByteArray
  | 0, out => some out
  | length + 1, out =>
    if distance ≤ out.size then
      match out[out.size - distance]? with
      | some b => repeat? distance length (out.push b)
      | none => none
    else none

/-- The symbol that ends a block. -/
def endSymbol : Nat := 256

/-- The symbols of a block; each takes at least one bit. -/
def inflateSymbols? (lengths distances : Code) : Nat → ByteArray → Bits → Option (ByteArray × Bits)
  | 0, _, _ => none
  | fuel + 1, out, bits =>
    match lengths.decode? bits with
    | none => none
    | some (symbol, bits) =>
      if symbol < endSymbol then inflateSymbols? lengths distances fuel (out.push (UInt8.ofNat symbol)) bits
      else if symbol = endSymbol then some (out, bits)
      else match takeStep? lengthSteps (symbol - 257) bits with
        | none => none
        | some (length, bits) =>
          match distances.decode? bits with
          | none => none
          | some (symbol, bits) =>
            match takeStep? distanceSteps symbol bits with
            | none => none
            | some (distance, bits) =>
              match repeat? distance length out with
              | none => none
              | some out => inflateSymbols? lengths distances fuel out bits

/-- So many bytes, each of eight bits. -/
def takeBytes? : Nat → ByteArray → Bits → Option (ByteArray × Bits)
  | 0, out, bits => some (out, bits)
  | count + 1, out, bits =>
    match takeNumber? 8 bits with
    | some (n, bits) => takeBytes? count (out.push (UInt8.ofNat n)) bits
    | none => none

/-- A stored block starts at a whole byte with its length and the complement of that. -/
def inflateStored? (out : ByteArray) (bits : Bits) : Option (ByteArray × Bits) := do
  let (length, bits) ← takeNumber? 16 (bits.drop (bits.length % 8))
  let (complement, bits) ← takeNumber? 16 bits
  if length + complement = 0xffff then takeBytes? length out bits else none

def fixedLengths : Code :=
  .ofLengths (List.replicate 144 8 ++ List.replicate 112 9 ++ List.replicate 24 7 ++ List.replicate 8 8)

def fixedDistances : Code := .ofLengths (List.replicate 30 5)

/-- The order in which the lengths of the code for lengths are given. -/
def lengthOrder : List Nat := [16, 17, 18, 0, 8, 7, 9, 6, 10, 5, 11, 4, 12, 3, 13, 2, 14, 1, 15]

def takeNumbers? (width : Nat) : Nat → Bits → Option (List Nat × Bits)
  | 0, bits => some ([], bits)
  | count + 1, bits => do
    let (n, bits) ← takeNumber? width bits
    let (ns, bits) ← takeNumbers? width count bits
    some (n :: ns, bits)

/-- Lengths of code words up to a total, onto those read, the last first. Three symbols repeat: the
length before, or zero. -/
def takeLengths? (code : Code) (total : Nat) : Nat → List Nat → Bits → Option (List Nat × Bits)
  | 0, _, _ => none
  | fuel + 1, read, bits =>
    if total ≤ read.length then
      if read.length = total then some (read.reverse, bits) else none
    else do
      let (symbol, bits) ← code.decode? bits
      if symbol < 16 then takeLengths? code total fuel (symbol :: read) bits
      else
        let repeated := if symbol = 16 then read.head? else some 0
        let (least, width) := if symbol = 16 then (3, 2) else if symbol = 17 then (3, 3) else (11, 7)
        let length ← repeated
        let (more, bits) ← takeNumber? width bits
        takeLengths? code total fuel (List.replicate (least + more) length ++ read) bits

/-- The codes that a block brings with it. -/
def takeCodes? (bits : Bits) : Option (Code × Code × Bits) := do
  let (literals, bits) ← takeNumber? 5 bits
  let (distances, bits) ← takeNumber? 5 bits
  let (orders, bits) ← takeNumber? 4 bits
  let (given, bits) ← takeNumbers? 3 (orders + 4) bits
  let lengths := (List.range 19).map fun symbol => given.getD (lengthOrder.idxOf symbol) 0
  let total := literals + 257 + distances + 1
  let (all, bits) ← takeLengths? (.ofLengths lengths) total (total + 1) [] bits
  some (.ofLengths (all.take (literals + 257)), .ofLengths (all.drop (literals + 257)), bits)

/-- The blocks up to the last one. -/
def inflateBlocks? : Nat → ByteArray → Bits → Option ByteArray
  | 0, _, _ => none
  | fuel + 1, out, bits => do
    let (last, bits) ← takeNumber? 1 bits
    let (kind, bits) ← takeNumber? 2 bits
    let (out, bits) ← match kind with
      | 0 => inflateStored? out bits
      | 1 => inflateSymbols? fixedLengths fixedDistances (bits.length + 1) out bits
      | 2 => do
        let (lengths, distances, bits) ← takeCodes? bits
        inflateSymbols? lengths distances (bits.length + 1) out bits
      | _ => none
    if last = 1 then some out else inflateBlocks? fuel out bits

/-- The data before compression. -/
def inflate? (data : ByteArray) : Option ByteArray :=
  inflateBlocks? (8 * data.size + 1) .empty (data.data.toList.flatMap bitsOf)

end Interchange.Archive
