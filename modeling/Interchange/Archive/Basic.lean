import Interchange.Archive.Inflate

/-!
# Archives

An archive holds files by name. Each stands after a header of its own, and a directory at the end
lists them all. Numbers are kept in a fixed width, the least significant byte first, with a checksum
of each file. Files are written as they are; those that are read may be compressed.
-/
namespace Interchange.Archive

/-- The last `width` bytes of a number. -/
def bytesOf : Nat → Nat → List UInt8
  | 0, _ => []
  | width + 1, n => UInt8.ofNat n :: bytesOf width (n / 256)

def numberOf : List UInt8 → Nat
  | [] => 0
  | b :: bs => b.toNat + 256 * numberOf bs

/-- The number of some bytes at an offset, if they are all there. -/
def numberAt? (data : ByteArray) (offset width : Nat) : Option Nat :=
  if offset + width ≤ data.size then
    some (numberOf (data.extract offset (offset + width)).data.toList)
  else none

def checkStep (check : UInt32) : UInt32 :=
  if check &&& 1 = 1 then (check >>> 1) ^^^ 0xedb88320 else check >>> 1

def checkByte (check : UInt32) (b : UInt8) : UInt32 :=
  (List.range 8).foldl (fun check _ => checkStep check) (check ^^^ b.toUInt32)

/-- The remainder of the bytes by the polynomial of archives. -/
def checksum (data : ByteArray) : Nat :=
  (data.foldl checkByte 0xffffffff ^^^ 0xffffffff).toNat

abbrev Files := List (String × ByteArray)

/-- The marks at the start of a file, of an entry of the directory and of the end. -/
def fileMark : Nat := 0x04034b50

def entryMark : Nat := 0x02014b50

def endMark : Nat := 0x06054b50

def endSize : Nat := 22

/-- Bytes of several numbers, each with its width. -/
def fields (numbers : List (Nat × Nat)) : List UInt8 :=
  numbers.flatMap fun (width, n) => bytesOf width n

/-- What a header and an entry of the directory both say of a file: version, flags, method, time,
date, checksum, two sizes, and the lengths of the name and of what follows it. -/
def commonFields (name : ByteArray) (data : ByteArray) : List (Nat × Nat) :=
  [(2, 20), (2, 0x800), (2, 0), (2, 0), (2, 0x21), (4, checksum data), (4, data.size), (4, data.size),
    (2, name.size), (2, 0)]

def fileRecord (name data : ByteArray) : ByteArray :=
  ⟨(fields ((4, fileMark) :: commonFields name data)).toArray⟩ ++ name ++ data

def entryRecord (name data : ByteArray) (offset : Nat) : ByteArray :=
  ⟨(fields ((4, entryMark) :: (2, 20) :: commonFields name data ++
    [(2, 0), (2, 0), (2, 0), (4, 0), (4, offset)])).toArray⟩ ++ name

def endRecord (count size offset : Nat) : ByteArray :=
  ⟨(fields [(4, endMark), (2, 0), (2, 0), (2, count), (2, count), (4, size), (4, offset), (2, 0)]).toArray⟩

/-- The records of files and of their entries, onto those already made. -/
def packOnto (records entries : ByteArray) : Files → ByteArray × ByteArray
  | [] => (records, entries)
  | (name, data) :: files =>
    let name := name.toUTF8
    packOnto (records ++ fileRecord name data) (entries ++ entryRecord name data records.size) files

def pack (files : Files) : ByteArray :=
  let (records, entries) := packOnto .empty .empty files
  records ++ entries ++ endRecord files.length entries.size records.size

/-- The offset of the end record: the last place where its mark stands. -/
def endOffset? (data : ByteArray) : Nat → Option Nat
  | 0 => none
  | offset + 1 =>
    if numberAt? data offset 4 = some endMark then some offset else endOffset? data offset

def bytesAt? (data : ByteArray) (offset width : Nat) : Option ByteArray :=
  if offset + width ≤ data.size then some (data.extract offset (offset + width)) else none

/-- The content of a file, stored or compressed, if its checksum is right. -/
def content? (method check : Nat) (data : ByteArray) : Option ByteArray := do
  let content ← if method = 0 then some data else if method = 8 then inflate? data else none
  if checksum content = check then some content else none

/-- The file of the entry at an offset, and the offset after the entry. What stands before the first
record shifts all offsets. -/
def entry? (data : ByteArray) (shift offset : Nat) : Option ((String × ByteArray) × Nat) := do
  let number (skip width : Nat) : Option Nat := numberAt? data (offset + skip) width
  let mark ← number 0 4
  let _ ← if mark = entryMark then some () else none
  let flags ← number 8 2
  let _ ← if flags % 2 = 0 then some () else none
  let method ← number 10 2
  let check ← number 16 4
  let packedSize ← number 20 4
  let nameSize ← number 28 2
  let extraSize ← number 30 2
  let commentSize ← number 32 2
  let start ← number 42 4
  let name ← bytesAt? data (offset + 46) nameSize
  let fileName ← String.fromUTF8? name
  let record := shift + start
  let fileMarked ← numberAt? data record 4
  let _ ← if fileMarked = fileMark then some () else none
  let ownNameSize ← numberAt? data (record + 26) 2
  let ownExtraSize ← numberAt? data (record + 28) 2
  let packed ← bytesAt? data (record + 30 + ownNameSize + ownExtraSize) packedSize
  let content ← content? method check packed
  some ((fileName, content), offset + 46 + nameSize + extraSize + commentSize)

def entries? (data : ByteArray) (shift : Nat) : Nat → Nat → Option Files
  | 0, _ => some []
  | count + 1, offset => do
    let (file, next) ← entry? data shift offset
    let files ← entries? data shift count next
    some (file :: files)

/-- The files of an archive. -/
def unpack? (data : ByteArray) : Option Files := do
  let stop ← endOffset? data (data.size + 1 - endSize)
  let count ← numberAt? data (stop + 10) 2
  let size ← numberAt? data (stop + 12) 4
  let start ← numberAt? data (stop + 16) 4
  let _ ← if size + start ≤ stop then some () else none
  entries? data (stop - size - start) count (stop - size)

end Interchange.Archive
