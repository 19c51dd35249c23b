import EquationExport.Archive.Inflate
import EquationExport.Text.Substitution

/-!
# Archives

An archive holds files by name. Each file stands behind a header of its own; a directory at the end repeats
the headers and says where they stand, and a last record says where the directory is. Files are written
without compression, and read with or without.
-/

namespace EquationExport.Archive

/-- A file in an archive. -/
structure Entry where
  name : Text
  content : Bytes

/-! ### Writing -/

/-- The bytes of a text in UTF-8. -/
def utf8 (s : Text) : Bytes := s.toString.toUTF8.toList

/-- What the header of a file and its entry in the directory have in common. -/
def Entry.fields (e : Entry) : Bytes :=
  number 2 20 ++ number 2 0x800 ++ number 2 0 ++ number 2 0 ++ number 2 0x21 ++ number 4 (checksum e.content) ++
    number 4 e.content.length ++ number 4 e.content.length ++ number 2 (utf8 e.name).length ++ number 2 0

/-- A file as it stands in an archive, behind its header. -/
def Entry.write (e : Entry) : Bytes := number 4 0x04034B50 ++ e.fields ++ utf8 e.name ++ e.content

/-- The entry of a file in the directory, given where the file stands. -/
def Entry.listing (e : Entry) (offset : Nat) : Bytes :=
  number 4 0x02014B50 ++ number 2 20 ++ e.fields ++ number 2 0 ++ number 2 0 ++ number 2 0 ++ number 4 0 ++
    number 4 offset ++ utf8 e.name

/-- The directory of files that stand one after the other from a place on. -/
def directory : (offset : Nat) → List Entry → Bytes
  | _, [] => []
  | offset, e :: rest => e.listing offset ++ directory (offset + e.write.length) rest

/-- The archive of some files. -/
def write (entries : List Entry) : Bytes :=
  let files := entries.flatMap (·.write)
  let listing := directory 0 entries
  files ++ listing ++ number 4 0x06054B50 ++ number 2 0 ++ number 2 0 ++ number 2 entries.length ++
    number 2 entries.length ++ number 4 listing.length ++ number 4 files.length ++ number 2 0

/-! ### Reading -/

/-- The next `n` bytes and what follows them. -/
def takeBytes? (n : Nat) (s : Bytes) : Option (Bytes × Bytes) :=
  if n ≤ s.length then some (s.take n, s.drop n) else none

/-- The number at a place in a record. -/
def field (record : Bytes) (place width : Nat) : Nat := value ((record.drop place).take width)

/-- The last record of an archive. -/
structure Ending where
  /-- Where the record stands. -/
  place : Nat
  directorySize : Nat
  directoryOffset : Nat

/-- Reads the last record at a place, if it starts there. -/
def endingAt? (s : Bytes) (place : Nat) : Option Ending := do
  let (record, _) ← takeBytes? 22 (s.drop place)
  if field record 0 4 = 0x06054B50 then pure ⟨place, field record 12 4, field record 16 4⟩ else none

/-- The last place, of those before `places`, where the mark of the last record stands. -/
def lastMark? (s : Bytes) (least : Nat) : (places : Nat) → Option Nat
  | 0 => none
  | place + 1 =>
    if place < least then none
    else if (s.drop place).take 4 = number 4 0x06054B50 then some place
    else lastMark? s least place

/-- The last record: at the very end, or before a comment of less than 65536 bytes. -/
def ending? (s : Bytes) : Option Ending :=
  if s.length < 22 then none
  else match endingAt? s (s.length - 22) with
    | some e => if field (s.drop e.place) 20 2 = 0 then some e else commented s
    | none => commented s
where
  /-- The last record before a comment. -/
  commented (s : Bytes) : Option Ending :=
    (lastMark? s (s.length - (65536 + 22)) s.length).bind (endingAt? s)

/-- What the directory says of a file. -/
structure Listed where
  flags : Nat
  method : Nat
  checksum : Nat
  packedSize : Nat
  size : Nat
  name : Bytes
  offset : Nat

/-- Reads the entries of a directory, each of which is 46 bytes long or longer. -/
def listed? : (fuel : Nat) → Bytes → Option (List Listed)
  | 0, _ => none
  | fuel + 1, s =>
    if s.isEmpty then some []
    else do
      let (record, rest) ← takeBytes? 46 s
      if field record 0 4 ≠ 0x02014B50 then failure
      let nameLength := field record 28 2
      let later ← listed? fuel (rest.drop (nameLength + field record 30 2 + field record 32 2))
      pure (⟨field record 8 2, field record 10 2, field record 16 4, field record 20 4, field record 24 4,
        rest.take nameLength, field record 42 4⟩ :: later)

/-- The bytes from 128 to 255 in names that are not in UTF-8. -/
def oldCharacters : Text :=
  "ÇüéâäàåçêëèïîìÄÅÉæÆôöòûùÿÖÜ¢£¥₧ƒáíóúñÑªº¿⌐¬½¼¡«»░▒▓│┤╡╢╖╕╣║╗╝╜╛┐└┴┬├─┼╞╟╚╔╩╦╠═╬╧╨╤╥╙╘╒╓╫╪┘┌█▄▌▐▀αßΓπΣσµτΦΘΩδ∞φε∩≡±≥≤⌠⌡÷≈°∙·√ⁿ²■\u00A0"

/-- The name that bytes write. -/
def name? (flags : Nat) (s : Bytes) : Option Text :=
  if flags.testBit 11 then Text.ofUtf8? (ByteArray.mk s.toArray)
  else some (s.map fun b =>
    if b.toNat < 128 then CodePoint.ofNat b.toNat else oldCharacters.getD (b.toNat - 128) .replacement)

/-- The content of a file from its packed bytes. -/
def unpack? (file : Listed) (packed : Bytes) : Option Bytes := do
  let content ← match file.method with
    | 0 => some packed
    | 8 => inflate? packed
    | _ => none
  let content := content.take file.size
  if content.length = file.size ∧ checksum content = file.checksum then pure content else failure

/-- Reads a file; `shift` is what stands before the archive. -/
def fileAt? (s : Bytes) (shift : Int) (file : Listed) : Option Entry := do
  let name ← name? file.flags file.name
  let place := (file.offset : Int) + shift
  if place < 0 then failure
  let (header, rest) ← takeBytes? 30 (s.drop place.toNat)
  if field header 0 4 ≠ 0x04034B50 ∨ rest.take (field header 26 2) ≠ file.name then failure
  let (packed, _) ← takeBytes? file.packedSize (rest.drop (field header 26 2 + field header 28 2))
  pure ⟨name, ← unpack? file packed⟩

/-- The files of an archive. -/
def read? (s : Bytes) : Option (List Entry) := do
  let e ← ending? s
  if e.place < e.directorySize then failure
  let start := e.place - e.directorySize
  let files ← listed? (s.length + 1) ((s.drop start).take e.directorySize)
  files.mapM (fileAt? s ((start : Int) - e.directoryOffset))

end EquationExport.Archive
